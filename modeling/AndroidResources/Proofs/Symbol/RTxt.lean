import AndroidResources.Proofs.Symbol.Tables
import AndroidResources.Proofs.Text.Split
import AndroidResources.Proofs.Text.Words
import AndroidResources.Symbol.RTxt

/-!
# What a symbol list declares

* `Declares` : what a line declares, by its words;
* `shape?_eq_some`, `word?_eq_some` : a word is read with the blanks behind it, because a blank ends
  it and no word character is blank;
* `readEntry_iff`, `readEntry_trim` : so a line is read as the words in it;
* `Fits`, `readLines_cases` : lines are read up to the first one that does not fit;
* `LastDeclares`, `get?_declarations` : the last line that declares a symbol decides;
* `read_decided` : whether a symbol list is read, the table, and the line that is reported.
-/

namespace AndroidResources.RTxt

open Text

/-- A line declares a symbol: it has four words or more, first the keyword of a shape, then a type
and a name of word characters. -/
inductive Declares (line : Text) : Declaration → Prop
  | intro {shape : Shape} {type name value : Text} {more : List Text}
    (hwords : words line = shape.keyword :: type :: name :: value :: more)
    (htype : ∀ c ∈ type, isWordChar c = true) (hname : ∀ c ∈ name, isWordChar c = true) :
    Declares line (⟨type, name⟩, shape)

variable {s word rest line : Text} {shape : Shape} {d : Declaration}

/-! ## One line -/

theorem blanks?_eq_some : blanks? s = some rest ↔ Precedes [] rest s := by
  constructor
  · intro h
    cases s with
    | nil => cases h
    | cons c t =>
      rw [blanks?] at h
      split at h
      · next hc =>
        cases h
        exact ⟨c, t, rfl, hc, rfl⟩
      · cases h
  · rintro ⟨c, t, rfl, hc, rfl⟩
    exact if_pos hc

theorem precedes_append : Precedes word rest (word ++ s) ↔ Precedes [] rest s := by
  unfold Precedes
  simp only [List.append_cancel_left_eq, List.nil_append]

theorem blanks?_behind {front : Text} :
    (List.isPrefixOf? front s).bind blanks? = some rest ↔ Precedes front rest s := by
  rw [Option.bind_eq_some_iff]
  constructor
  · rintro ⟨t, ht, hrest⟩
    rw [← List.isPrefixOf?_eq_some_iff_append_eq.1 ht]
    exact precedes_append.2 (blanks?_eq_some.1 hrest)
  · rintro ⟨c, t, rfl, hc, rfl⟩
    have hblanks : blanks? (c :: t) = some _ := blanks?_eq_some.2 ⟨c, t, rfl, hc, rfl⟩
    exact ⟨c :: t, List.isPrefixOf?_eq_some_iff_append_eq.2 rfl, hblanks⟩

theorem keyword_plain (shape : Shape) :
    shape.keyword ≠ [] ∧ ∀ c ∈ shape.keyword, isBlank c = false := by
  cases shape <;> exact ⟨by decide, forall_of_all (by decide)⟩

/-- The longer keyword is tried first; where it stands, no blank follows the shorter one. -/
theorem shape?_eq_some : shape? s = some (shape, rest) ↔ Precedes shape.keyword rest s := by
  constructor
  · intro h
    unfold shape? at h
    split at h
    · next harray =>
      cases h
      exact blanks?_behind.1 harray
    · split at h
      · next hint =>
        cases h
        exact blanks?_behind.1 hint
      · cases h
  · intro h
    unfold shape?
    cases shape with
    | intArray =>
      have harray : (List.isPrefixOf? "int[]".toList s).bind blanks? = some rest :=
        blanks?_behind.2 h
      rw [harray]
    | int =>
      have hint : (List.isPrefixOf? "int".toList s).bind blanks? = some rest := blanks?_behind.2 h
      have harray : (List.isPrefixOf? "int[]".toList s).bind blanks? = none := by
        rw [Option.eq_none_iff_forall_ne_some]
        intro other hother
        obtain ⟨c, t, rfl, hc, -⟩ := h
        obtain ⟨d, u, heq, -, -⟩ := blanks?_behind.1 hother
        replace heq : "int".toList ++ c :: t = "int".toList ++ ("[]".toList ++ d :: u) := heq
        rw [(List.cons.inj (List.append_cancel_left heq)).1] at hc
        exact absurd hc (by decide)
      rw [harray, hint]

theorem word?_eq_some : (∃ t, word? s = some (word, t) ∧ blanks? t = some rest) ↔
    word ≠ [] ∧ (∀ c ∈ word, isWordChar c = true) ∧ Precedes word rest s := by
  unfold word?
  constructor
  · rintro ⟨t, hword, hrest⟩
    simp only at hword
    split at hword
    · cases hword
    · next hne =>
      cases hword
      have hprecedes : Precedes (s.takeWhile isWordChar) rest
          (s.takeWhile isWordChar ++ s.dropWhile isWordChar) :=
        precedes_append.2 (blanks?_eq_some.1 hrest)
      rw [List.takeWhile_append_dropWhile] at hprecedes
      exact ⟨hne, List.all_eq_true.1 List.all_takeWhile, hprecedes⟩
  · rintro ⟨hne, hword, c, t, rfl, hc, rfl⟩
    have hstop : isWordChar c = false := by
      cases hwordChar : isWordChar c with
      | false => rfl
      | true =>
        rw [isBlank_of_isWordChar hwordChar] at hc
        cases hc
    have htake : (word ++ c :: t).takeWhile isWordChar = word := by
      rw [List.takeWhile_append_of_pos hword, List.takeWhile_cons_of_neg (by simp [hstop]),
        List.append_nil]
    have hdrop : (word ++ c :: t).dropWhile isWordChar = c :: t := by
      rw [List.dropWhile_append_of_pos hword, List.dropWhile_cons_of_neg (by simp [hstop])]
    exact ⟨c :: t, by rw [htake, hdrop, if_neg hne], blanks?_eq_some.2 ⟨c, t, rfl, hc, rfl⟩⟩

theorem readEntry_eq_some {type name : Text} : readEntry s = some (⟨type, name⟩, shape) ↔
    ∃ r t value, Precedes shape.keyword r s ∧
      (type ≠ [] ∧ (∀ c ∈ type, isWordChar c = true) ∧ Precedes type t r) ∧
      (name ≠ [] ∧ (∀ c ∈ name, isWordChar c = true) ∧ Precedes name value t) ∧ value ≠ [] := by
  simp only [← word?_eq_some, ← shape?_eq_some]
  unfold readEntry
  constructor
  · intro h
    obtain ⟨⟨shape', r⟩, hshape, h⟩ := Option.bind_eq_some_iff.1 h
    obtain ⟨⟨type', r'⟩, htype, h⟩ := Option.bind_eq_some_iff.1 h
    obtain ⟨t, ht, h⟩ := Option.bind_eq_some_iff.1 h
    obtain ⟨⟨name', t'⟩, hname, h⟩ := Option.bind_eq_some_iff.1 h
    obtain ⟨value, hvalue, h⟩ := Option.bind_eq_some_iff.1 h
    split at h
    · cases h
    · next hne =>
      cases h
      exact ⟨r, t, value, hshape, ⟨r', htype, ht⟩, ⟨t', hname, hvalue⟩, hne⟩
  · rintro ⟨r, t, value, hshape, ⟨r', htype, ht⟩, ⟨t', hname, hvalue⟩, hne⟩
    simp [hshape, htype, ht, hname, hvalue, hne]

/-- The fourth word is the only part of a line that may be anything. -/
theorem readEntry_iff (hfront : ∀ c ∈ s.head?, isBlank c = false) :
    readEntry s = some d ↔ Declares s d := by
  obtain ⟨⟨type, name⟩, shape⟩ := d
  rw [readEntry_eq_some]
  constructor
  · rintro ⟨r, t, value, hshape, ⟨htypeNe, htype, hr⟩, ⟨hnameNe, hname, ht⟩, hvalue⟩
    obtain ⟨hkeywordNe, hkeyword⟩ := keyword_plain shape
    have hplain : ∀ {word : Text}, (∀ c ∈ word, isWordChar c = true) →
        ∀ c ∈ word, isBlank c = false := fun h c hc => isBlank_of_isWordChar (h c hc)
    have hwords : words s = shape.keyword :: type :: name :: words value := by
      rw [words_of_precedes hshape hkeywordNe hkeyword, words_of_precedes hr htypeNe (hplain htype),
        words_of_precedes ht hnameNe (hplain hname)]
    obtain hone | ⟨word, rest, -, hmore⟩ := words_cases ht.head? hvalue
    · rw [hone] at hwords
      exact .intro hwords htype hname
    · rw [hmore] at hwords
      exact .intro hwords htype hname
  · rintro ⟨hwords, htype, hname⟩
    have hne : ∀ word ∈ words s, word ≠ [] := fun word => ne_nil_of_mem_words
    rw [hwords] at hne
    obtain ⟨r, hr, hwords⟩ := exists_precedes hfront hwords
    obtain ⟨t, ht, hwords⟩ := exists_precedes hr.head? hwords
    obtain ⟨value, hvalue, hwords⟩ := exists_precedes ht.head? hwords
    refine ⟨r, t, value, hr, ⟨hne type (by simp), htype, ht⟩,
      ⟨hne name (by simp), hname, hvalue⟩, ?_⟩
    rintro rfl
    cases hwords

theorem readEntry_trim : readEntry (trim line) = some d ↔ Declares line d := by
  rw [readEntry_iff (head?_trim line)]
  constructor
  · rintro ⟨hwords, htype, hname⟩
    rw [words_trim] at hwords
    exact .intro hwords htype hname
  · rintro ⟨hwords, htype, hname⟩
    rw [← words_trim] at hwords
    exact .intro hwords htype hname

/-! ## All lines -/

/-- A line may stand in a symbol list: it is blank or declares a symbol. -/
def Fits (line : Text) : Prop :=
  trim line ≠ [] → ∃ d, Declares line d

def declarations (lines : List Text) : List Declaration :=
  lines.filterMap fun line => readEntry (trim line)

theorem declarations_cons (line : Text) (rest : List Text) :
    declarations (line :: rest) = (readEntry (trim line)).toList ++ declarations rest := by
  rw [declarations, List.filterMap_cons]
  cases readEntry (trim line) <;> rfl

theorem readLines_cons_fits (number : Nat) (rest : List Text) (h : Fits line) :
    readLines number (line :: rest) =
      (readLines (number + 1) rest).map ((readEntry (trim line)).toList ++ ·) := by
  rw [readLines]
  by_cases hblank : trim line = []
  · rw [if_pos hblank, hblank]
    cases readLines (number + 1) rest <;> rfl
  · obtain ⟨d, hd⟩ := h hblank
    rw [if_neg hblank, readEntry_trim.2 hd]
    rfl

theorem readLines_cons_of_not (number : Nat) (rest : List Text) (h : ¬ Fits line) :
    readLines number (line :: rest) = .error (number, trim line) := by
  obtain ⟨hblank, hnone⟩ := Classical.not_imp.1 h
  have hentry : readEntry (trim line) = none :=
    Option.eq_none_iff_forall_ne_some.2 fun d hd => hnone ⟨d, readEntry_trim.1 hd⟩
  rw [readLines, if_neg hblank, hentry]

theorem readLines_cases (number : Nat) (lines : List Text) :
    (∀ line ∈ lines, Fits line) ∧ readLines number lines = .ok (declarations lines) ∨
      ∃ before line after, lines = before ++ line :: after ∧ (∀ earlier ∈ before, Fits earlier) ∧
        ¬ Fits line ∧ readLines number lines = .error (number + before.length, trim line) := by
  induction lines generalizing number with
  | nil => exact .inl ⟨by simp, rfl⟩
  | cons first rest ih =>
    by_cases hfirst : Fits first
    · rw [readLines_cons_fits number rest hfirst]
      obtain ⟨hrest, hread⟩ | ⟨before, line, after, rfl, hbefore, hline, hread⟩ := ih (number + 1)
      · refine .inl ⟨List.forall_mem_cons.2 ⟨hfirst, hrest⟩, ?_⟩
        rw [hread, declarations_cons]
        rfl
      · refine .inr ⟨first :: before, line, after, rfl, List.forall_mem_cons.2 ⟨hfirst, hbefore⟩,
          hline, ?_⟩
        rw [hread, List.length_cons, Nat.add_right_comm, Nat.add_assoc]
        rfl
    · exact .inr ⟨[], first, rest, rfl, by simp, hfirst, readLines_cons_of_not number rest hfirst⟩

def LastDeclares (lines : List Text) (id : SymbolId) (shape : Shape) : Prop :=
  ∃ before line after, lines = before ++ line :: after ∧ Declares line (id, shape) ∧
    ∀ later ∈ after, ∀ other, ¬ Declares later (id, other)

theorem find?_declarations {lines : List Text} {id : SymbolId} :
    (declarations lines).reverse.find? (fun d => d.1 = id) = some (id, shape) ↔
      LastDeclares lines id shape := by
  unfold declarations LastDeclares
  rw [← List.filterMap_reverse, List.find?_filterMap, Option.bind_eq_some_iff]
  constructor
  · rintro ⟨line, hline, hentry⟩
    obtain ⟨-, after, before, hsplit, hafter⟩ := List.find?_eq_some_iff_append.1 hline
    refine ⟨before.reverse, line, after.reverse, ?_, readEntry_trim.1 hentry, ?_⟩
    · rw [← List.reverse_reverse lines, hsplit]
      simp
    · intro later hlater other hdeclares
      have hnot := hafter later (List.mem_reverse.1 hlater)
      simp [readEntry_trim.2 hdeclares] at hnot
  · rintro ⟨before, line, after, rfl, hline, hafter⟩
    refine ⟨line, List.find?_eq_some_iff_append.2 ⟨?_, after.reverse, before.reverse, by simp, ?_⟩,
      readEntry_trim.2 hline⟩
    · simp [readEntry_trim.2 hline]
    · intro later hlater
      cases hentry : readEntry (trim later) with
      | none => rfl
      | some d =>
        have hne : d.1 ≠ id := by
          rintro rfl
          exact hafter later (List.mem_reverse.1 hlater) d.2 (readEntry_trim.1 hentry)
        simp [hne]

theorem get?_declarations {lines : List Text} {id : SymbolId} :
    (SymbolTable.declare .empty (declarations lines)).get? id = some shape ↔
      LastDeclares lines id shape := by
  rw [SymbolTable.get?_declare_eq, SymbolTable.get?_empty, Option.or_none, ← find?_declarations]
  constructor
  · intro h
    obtain ⟨d, hd, rfl⟩ := Option.map_eq_some_iff.1 h
    have hid : d.1 = id := by simpa using List.find?_some hd
    rw [hd, ← hid]
  · intro h
    rw [h]
    rfl

/-! ## Symbol lists -/

structure Decided (file : Path) (contents : Text) : Prop where
  /-- It is read if each line that is not blank has four words or more, first `int` or `int[]` and
  then a type and a name of word characters. -/
  accepted : (∃ table, read file contents = .ok table) ↔
    ∀ line ∈ contents.splitOn '\n', trim line ≠ [] → ∃ d, Declares line d
  /-- The last line that declares a symbol decides its shape, and nothing else is in the table. -/
  table : ∀ table, read file contents = .ok table →
    (∀ id shape, table.get? id = some shape ↔ LastDeclares (contents.splitOn '\n') id shape) ∧
      ∀ group ∈ table.types, group.2 ≠ []
  /-- Otherwise the first line that is neither blank nor declares a symbol is reported: its number
  among all lines, and the line without the blanks at its ends. -/
  refused : (∀ table, read file contents ≠ .ok table) → ∃ before line after,
    contents.splitOn '\n' = before ++ line :: after ∧
      (∀ earlier ∈ before, trim earlier ≠ [] → ∃ d, Declares earlier d) ∧
      (trim line ≠ [] ∧ ∀ d, ¬ Declares line d) ∧
      read file contents = .error (.invalidRTxt file (before.length + 1) (trim line))

/-- A symbol list is read line by line: the words of its lines alone decide whether it is read, what
it declares and which line is reported. -/
theorem read_decided (file : Path) (contents : Text) : Decided file contents := by
  obtain ⟨hfits, hread⟩ | ⟨before, line, after, hsplit, hbefore, hline, hread⟩ :=
    readLines_cases 1 (contents.splitOn '\n')
  · have hok : read file contents =
        .ok (SymbolTable.declare .empty (declarations (contents.splitOn '\n'))) := by
      unfold read
      rw [hread]
    refine
      { accepted := ⟨fun _ => hfits, fun _ => ⟨_, hok⟩⟩
        table := fun table htable => ?_
        refused := fun hrefused => absurd hok (hrefused _) }
    rw [hok] at htable
    cases htable
    exact ⟨fun _ _ => get?_declarations, (SymbolTable.Reached.empty.declare _).fullTypes⟩
  · have herror : read file contents =
        .error (.invalidRTxt file (before.length + 1) (trim line)) := by
      unfold read
      rw [hread, Nat.add_comm]
    have hnot : ∀ table, read file contents ≠ .ok table := fun table htable => by
      rw [herror] at htable
      cases htable
    have hline' : trim line ≠ [] ∧ ∀ d, ¬ Declares line d := by
      obtain ⟨hblank, hnone⟩ := Classical.not_imp.1 hline
      exact ⟨hblank, fun d hd => hnone ⟨d, hd⟩⟩
    exact
      { accepted := ⟨fun ⟨table, htable⟩ => absurd htable (hnot table),
          fun hfits => absurd (hfits line (by rw [hsplit]; simp)) hline⟩
        table := fun table htable => absurd htable (hnot table)
        refused := fun _ => ⟨before, line, after, hsplit, hbefore, hline', herror⟩ }

end AndroidResources.RTxt
