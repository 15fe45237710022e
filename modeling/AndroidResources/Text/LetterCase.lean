import AndroidResources.Text.LetterCase.Table

/-!
# Letter case of the first character

* `Text.upperChar`, `Text.lowerChar` : the full case mappings of one character, up to three long;
* `Text.capitalize`, `Text.decapitalize` : the mapping applied to the first character of a text.
-/

namespace AndroidResources.Text

/-- A character's image under a case mapping; a character without one stays. -/
def mapCase (runs : List CaseRun) (expansions : List (Nat × List Nat)) (c : Char) : Text :=
  match expansions.lookup c.toNat with
  | some codes => codes.map Char.ofNat
  | none =>
    match runs.findSome? (·.imageOf? c.toNat) with
    | some code => [Char.ofNat code]
    | none => [c]

def upperChar (c : Char) : Text :=
  mapCase upperRuns upperExpansions c

def lowerChar (c : Char) : Text :=
  mapCase lowerRuns lowerExpansions c

def capitalize : Text → Text
  | [] => []
  | c :: rest => upperChar c ++ rest

def decapitalize : Text → Text
  | [] => []
  | c :: rest => lowerChar c ++ rest

end AndroidResources.Text
