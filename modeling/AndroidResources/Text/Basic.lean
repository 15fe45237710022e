/-!
# Text as a list of characters

* `Text` : a list of characters, so that every function on it is recursion on data;
* `Text.splitFirst?`, `Text.splitLast?` : the two sides of a character (`eq_append_of_splitLast?`);
* `Text.afterLast` : what follows the last occurrence of a marker;
* `Text.holds` : a marker occurs somewhere;
* `Text.utf8Size` : the length in UTF-8 bytes, the unit in which positions are reported;
* `Text.toUtf8`, `Text.ofUtf8?` : the bytes of a file, `ofUtf8?_toUtf8` their round trip.
-/

namespace AndroidResources

/-- Text is the list of its characters. -/
abbrev Text := List Char

instance : Coe String Text := ⟨String.toList⟩

instance : LawfulBEq Text := inferInstance

instance : Std.TransOrd Text := inferInstance

instance : Std.LawfulEqOrd Text := inferInstance

instance : Std.TransOrd (List Text) := inferInstance

instance : Std.LawfulEqOrd (List Text) := inferInstance

namespace Text

/-- The text before and after the first occurrence of a character. -/
def splitFirst? (sep : Char) : Text → Option (Text × Text)
  | [] => none
  | c :: rest =>
    if c = sep then some ([], rest)
    else (splitFirst? sep rest).map fun parts => (c :: parts.1, parts.2)

def splitLast? (sep : Char) : Text → Option (Text × Text)
  | [] => none
  | c :: rest =>
    match splitLast? sep rest with
    | some parts => some (c :: parts.1, parts.2)
    | none => if c = sep then some ([], rest) else none

/-- What follows the last occurrence of `marker`, if there is one. -/
def afterLast? (marker : Text) : Text → Option Text
  | [] => List.isPrefixOf? marker []
  | c :: rest => (afterLast? marker rest).or (List.isPrefixOf? marker (c :: rest))

/-- What follows the last occurrence of `marker`; the whole text where there is none. -/
def afterLast (marker s : Text) : Text :=
  (afterLast? marker s).getD s

def beforeFirst? (marker : Text) : Text → Option Text
  | [] => (List.isPrefixOf? marker []).map fun _ => []
  | c :: rest =>
    if List.isPrefixOf marker (c :: rest) then some []
    else (beforeFirst? marker rest).map (c :: ·)

def holds (marker s : Text) : Bool :=
  (beforeFirst? marker s).isSome

def replace (old new : Char) (s : Text) : Text :=
  s.map fun c => if c = old then new else c

/-- The lower-case form of the ASCII letters; every other character stays. -/
def toLowerAscii (s : Text) : Text :=
  s.map Char.toLower

def utf8Size : Text → Nat
  | [] => 0
  | c :: rest => c.utf8Size + utf8Size rest

/-- The decimal digits of a number. -/
def ofNat (n : Nat) : Text :=
  Nat.toDigits 10 n

/-- The lines of a text, each with its line end. -/
def ofLines (lines : List Text) : Text :=
  lines.flatMap (· ++ "\n")

def toUtf8 (s : Text) : ByteArray :=
  (String.ofList s).toUTF8

/-- The text that the bytes spell, if they are valid UTF-8. -/
def ofUtf8? (bytes : ByteArray) : Option Text :=
  (String.fromUTF8? bytes).map String.toList

theorem eq_append_of_splitFirst? {sep : Char} {s a b : Text}
    (h : splitFirst? sep s = some (a, b)) : s = a ++ sep :: b ∧ sep ∉ a := by
  induction s generalizing a with
  | nil => simp [splitFirst?] at h
  | cons c rest ih =>
    rw [splitFirst?] at h
    split at h
    · next hc => simp_all
    · next hc =>
      obtain ⟨parts, hparts, he⟩ := Option.map_eq_some_iff.1 h
      obtain ⟨rfl, rfl⟩ := Prod.mk.inj he
      obtain ⟨hrest, hnot⟩ := ih hparts
      exact ⟨by rw [hrest]; rfl, by simpa [hnot] using Ne.symm hc⟩

theorem splitLast?_eq_none {sep : Char} {s : Text} : splitLast? sep s = none ↔ sep ∉ s := by
  induction s with
  | nil => simp [splitLast?]
  | cons c rest ih =>
    rw [splitLast?]
    cases h : splitLast? sep rest with
    | some parts =>
      have : sep ∈ rest := Decidable.not_not.1 fun hnot => by simp [ih.2 hnot] at h
      simp [this]
    | none =>
      have : sep ∉ rest := ih.1 h
      by_cases hc : c = sep
      · simp [this, hc]
      · simp [this, hc, Ne.symm hc]

theorem eq_append_of_splitLast? {sep : Char} {s a b : Text}
    (h : splitLast? sep s = some (a, b)) : s = a ++ sep :: b ∧ sep ∉ b := by
  induction s generalizing a b with
  | nil => simp [splitLast?] at h
  | cons c rest ih =>
    rw [splitLast?] at h
    cases hrest : splitLast? sep rest with
    | some parts =>
      simp only [hrest, Option.some.injEq, Prod.mk.injEq] at h
      obtain ⟨rfl, rfl⟩ := h
      obtain ⟨heq, hnot⟩ := ih hrest
      exact ⟨by rw [heq]; rfl, hnot⟩
    | none =>
      have hnot := splitLast?_eq_none.1 hrest
      simp only [hrest] at h
      split at h <;> simp_all

@[simp] theorem utf8Size_nil : utf8Size [] = 0 := rfl

@[simp] theorem utf8Size_cons (c : Char) (s : Text) :
    utf8Size (c :: s) = c.utf8Size + utf8Size s := rfl

@[simp] theorem utf8Size_append (s t : Text) : utf8Size (s ++ t) = utf8Size s + utf8Size t := by
  induction s with
  | nil => simp
  | cons c s ih => rw [List.cons_append, utf8Size_cons, utf8Size_cons, ih, Nat.add_assoc]

/-- What was written as UTF-8 reads back. -/
@[simp] theorem ofUtf8?_toUtf8 (s : Text) : ofUtf8? (toUtf8 s) = some s := by
  have h : String.fromUTF8? (String.ofList s).toUTF8 = some (String.ofList s) := by
    simp only [String.fromUTF8?, String.toUTF8_eq_toByteArray, dif_pos (String.isValidUTF8 _)]
    rfl
  rw [ofUtf8?, toUtf8, h, Option.map_some, String.toList_ofList]

end Text

end AndroidResources
