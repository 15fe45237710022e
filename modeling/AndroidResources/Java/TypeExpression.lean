import AndroidResources.Java.Type
import AndroidResources.OrderedMap
import AndroidResources.Text.Blank

/-!
# Type expressions of layout variables

A type expression such as `Map<String, List<Foo>>[]` always denotes a type: array suffixes bind
loosest, then argument lists, then plain names. A plain name is looked up among the imports, then
among the keywords, and is otherwise the full name of a class.

* `Imports` : the short names that the imports of a layout make visible;
* `splitParameters` : an argument list cut at the commas outside nested brackets;
* `JavaType.resolve` : the type that an expression denotes.
-/

namespace AndroidResources

/-- Short names and the classes they stand for; a later import replaces an earlier one. -/
abbrev Imports := OrderedMap Text ClassName

namespace Imports

/-- The name under which an import is visible: its alias, else the last segment of the class. -/
def visibleName (type : Text) (alias? : Option Text) : Text :=
  alias?.getD (ClassName.lastSegment type)

def add (imports : Imports) (type : Text) (alias? : Option Text) : Imports :=
  imports.insert (visibleName type alias?) ⟨type⟩

end Imports

/-- How a character changes the depth of angle brackets. -/
def bracketStep (c : Char) : Int :=
  if c = '<' then 1 else if c = '>' then -1 else 0

def consPiece (c : Char) : List Text → List Text
  | [] => [[c]]
  | piece :: pieces => (c :: piece) :: pieces

/-- The pieces between the commas at depth zero, without blanks, in a text that starts at the
given depth. -/
def splitParametersAt (depth : Int) : Text → List Text
  | [] => [[]]
  | c :: rest =>
    if c = ',' ∧ depth = 0 then [] :: splitParametersAt depth rest
    else if Text.isBlank c then splitParametersAt depth rest
    else consPiece c (splitParametersAt (depth + bracketStep c) rest)

/-- An argument list cut at its top-level commas, all blanks dropped. -/
def splitParameters (s : Text) : List Text :=
  splitParametersAt 0 s

theorem length_le_of_mem_consPiece {c : Char} {pieces : List Text} {n : Nat}
    (h : ∀ piece ∈ pieces, piece.length ≤ n) :
    ∀ piece ∈ consPiece c pieces, piece.length ≤ n + 1 := by
  intro piece hp
  cases pieces with
  | nil => simp_all [consPiece]
  | cons first others =>
    rcases List.mem_cons.1 hp with rfl | hp
    · simpa using h first (by simp)
    · exact Nat.le_succ_of_le (h piece (by simp [hp]))

theorem length_le_of_mem_splitParametersAt {s : Text} :
    ∀ {depth : Int}, ∀ piece ∈ splitParametersAt depth s, piece.length ≤ s.length := by
  induction s with
  | nil => simp [splitParametersAt]
  | cons c rest ih =>
    intro depth piece hp
    rw [splitParametersAt] at hp
    split at hp
    · rcases List.mem_cons.1 hp with rfl | hp
      · simp
      · exact Nat.le_succ_of_le (ih piece hp)
    · split at hp
      · exact Nat.le_succ_of_le (ih piece hp)
      · exact length_le_of_mem_consPiece (fun p h => ih p h) piece hp

/-- The raw name and the argument list of a generic application: what stands before the first
`<`, and what stands between it and the last `>`. There is none without a raw name. -/
def genericParts? (s : Text) : Option (Text × Text) :=
  match Text.splitFirst? '<' s with
  | some (raw, rest) =>
    if raw = [] then none
    else (Text.splitLast? '>' rest).map fun parts => (raw, parts.1)
  | none => none

theorem length_lt_of_genericParts? {s raw parameters : Text}
    (h : genericParts? s = some (raw, parameters)) :
    raw.length < s.length ∧ parameters.length < s.length := by
  rw [genericParts?] at h
  split at h
  · next first rest hfirst =>
    split at h
    · cases h
    · obtain ⟨parts, hparts, he⟩ := Option.map_eq_some_iff.1 h
      obtain ⟨rfl, rfl⟩ := Prod.mk.inj he
      have hs := congrArg List.length (Text.eq_append_of_splitFirst? hfirst).1
      have hr := congrArg List.length (Text.eq_append_of_splitLast? hparts).1
      simp only [List.length_append, List.length_cons] at hs hr
      omega
  · cases h

theorem length_trim_le (s : Text) : (Text.trim s).length ≤ s.length := by
  have hdrop : ∀ t : Text, (t.dropWhile Text.isBlank).length ≤ t.length := fun t =>
    (List.dropWhile_suffix _).length_le
  have := hdrop (s.dropWhile Text.isBlank).reverse
  have := hdrop s
  simp only [Text.trim, Text.trimEnd, List.length_reverse] at *
  omega

def arrayComponent? (s : Text) : Option Text :=
  match s.reverse with
  | ']' :: '[' :: rest => some rest.reverse
  | _ => none

theorem eq_append_of_arrayComponent? {s component : Text}
    (h : arrayComponent? s = some component) : s = component ++ "[]" := by
  rw [arrayComponent?] at h
  split at h
  · next rest hrev =>
    obtain rfl := Option.some.inj h
    rw [← List.reverse_reverse s, hrev]
    simp
  · cases h

theorem length_lt_of_arrayComponent? {s component : Text} (h : arrayComponent? s = some component) :
    component.length < s.length := by
  simp [eq_append_of_arrayComponent? h]

namespace JavaType

/-- The type of a plain name: an import, else a primitive type, else the class of that name. -/
def ofName (imports : Imports) (name : Text) : JavaType :=
  match imports.get? name with
  | some c => .classRef c
  | none =>
    match Primitive.ofKeyword? name with
    | some kind => .primitive kind
    | none => .ofClass name

/-- The type that an expression denotes where the given imports are visible. -/
def resolve (imports : Imports) (s : Text) : JavaType :=
  match _hs : arrayComponent? s with
  | some component =>
    .array (resolve imports (Text.trim component))
  | none =>
    match _hg : genericParts? s with
    | some (rawText, parameters) =>
      let raw := Text.trim rawText
      .generic
        (match resolve imports raw with
          | .classRef c => c
          | _ => ⟨raw⟩)
        ((splitParameters parameters).attach.map fun piece => resolve imports piece.1)
    | none => ofName imports s
  termination_by s.length
  decreasing_by
    · exact Nat.lt_of_le_of_lt (length_trim_le _) (length_lt_of_arrayComponent? _hs)
    · exact Nat.lt_of_le_of_lt (length_trim_le _) (length_lt_of_genericParts? _hg).1
    · exact Nat.lt_of_le_of_lt (length_le_of_mem_splitParametersAt _ piece.2)
        (length_lt_of_genericParts? _hg).2

end JavaType

end AndroidResources
