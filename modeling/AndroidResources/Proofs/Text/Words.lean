import AndroidResources.Text.Blank
import AndroidResources.Text.Word

/-!
# Words between blanks

* `words` : the pieces of a text between blanks;
* `words_append_cons`, `words_trim` : a blank parts the words, those at the two ends do nothing;
* `Precedes` : a word at the front of a text and what begins behind the blanks that end it;
* `words_of_precedes`, `exists_precedes` : the words of a text are read one after the other so;
* `isBlank_of_isWordChar` : no word character is blank.
-/

namespace AndroidResources.Text

/-- The pieces of a text between blanks. -/
def words (s : Text) : List Text :=
  (s.splitOnP isBlank).filter (· ≠ [])

variable {s t word rest : Text} {c : Char}

theorem ne_nil_of_mem_words (h : word ∈ words s) : word ≠ [] := by
  simpa using (List.mem_filter.1 h).2

theorem words_append_cons (s t : Text) (h : isBlank c = true) :
    words (s ++ c :: t) = words s ++ words t := by
  unfold words
  rw [List.splitOnP_append_cons s t h, List.filter_append]

theorem words_cons_blank (t : Text) (h : isBlank c = true) : words (c :: t) = words t :=
  words_append_cons [] t h

theorem words_of_plain (hne : s ≠ []) (h : ∀ c ∈ s, isBlank c = false) : words s = [s] := by
  unfold words
  rw [List.splitOnP_eq_singleton h]
  simpa using hne

theorem words_of_blank (h : ∀ c ∈ s, isBlank c = true) : words s = [] := by
  induction s with
  | nil => rfl
  | cons c s ih =>
    obtain ⟨hc, hs⟩ := List.forall_mem_cons.1 h
    rw [words_cons_blank s hc, ih hs]

theorem words_dropWhile (s : Text) : words (s.dropWhile isBlank) = words s := by
  induction s with
  | nil => rfl
  | cons c s ih =>
    rw [List.dropWhile_cons]
    split
    · next hc => rw [ih, words_cons_blank s hc]
    · rfl

theorem words_append_blanks (s : Text) (h : ∀ c ∈ t, isBlank c = true) :
    words (s ++ t) = words s := by
  cases t with
  | nil => rw [List.append_nil]
  | cons c t =>
    obtain ⟨hc, ht⟩ := List.forall_mem_cons.1 h
    rw [words_append_cons s t hc, words_of_blank ht, List.append_nil]

theorem exists_trimEnd_append (s : Text) :
    ∃ gap, (∀ c ∈ gap, isBlank c = true) ∧ trimEnd s ++ gap = s := by
  refine ⟨(s.reverse.takeWhile isBlank).reverse, fun c hc => ?_, ?_⟩
  · exact List.all_eq_true.1 List.all_takeWhile c (List.mem_reverse.1 hc)
  · unfold trimEnd
    rw [← List.reverse_append, List.takeWhile_append_dropWhile, List.reverse_reverse]

theorem words_trim (s : Text) : words (trim s) = words s := by
  obtain ⟨gap, hgap, heq⟩ := exists_trimEnd_append (s.dropWhile isBlank)
  rw [← words_dropWhile s, trim, ← words_append_blanks _ hgap, heq]

theorem head?_dropWhile (s : Text) : ∀ c ∈ (s.dropWhile isBlank).head?, isBlank c = false := by
  intro c hc
  have hnot := List.head?_dropWhile_not isBlank s
  rw [Option.mem_def.1 hc] at hnot
  exact hnot

theorem head?_trim (s : Text) : ∀ c ∈ (trim s).head?, isBlank c = false := by
  intro c hc
  obtain ⟨gap, -, heq⟩ := exists_trimEnd_append (s.dropWhile isBlank)
  have hhead : c ∈ (s.dropWhile isBlank).head? := by
    rw [← heq, List.head?_append, ← trim, Option.mem_def.1 hc]
    rfl
  exact head?_dropWhile s c hhead

/-- A text begins with a word, at least one blank follows, and `rest` begins behind the blanks. -/
def Precedes (word rest s : Text) : Prop :=
  ∃ c t, s = word ++ c :: t ∧ isBlank c = true ∧ rest = t.dropWhile isBlank

theorem Precedes.head? (h : Precedes word rest s) : ∀ c ∈ rest.head?, isBlank c = false := by
  obtain ⟨-, t, -, -, rfl⟩ := h
  exact head?_dropWhile t

theorem words_of_precedes (h : Precedes word rest s) (hne : word ≠ [])
    (hword : ∀ c ∈ word, isBlank c = false) : words s = word :: words rest := by
  obtain ⟨c, t, rfl, hc, rfl⟩ := h
  rw [words_append_cons word t hc, words_of_plain hne hword, words_dropWhile]
  rfl

/-- A text that does not begin with a blank is a word, or begins with one that a blank ends. -/
theorem words_cases (hfront : ∀ c ∈ s.head?, isBlank c = false) (hne : s ≠ []) :
    words s = [s] ∨ ∃ word rest, Precedes word rest s ∧ words s = word :: words rest := by
  cases hfind : s.find? isBlank with
  | none =>
    have hplain : ∀ c ∈ s, isBlank c = false := fun c hc => by
      simpa using List.find?_eq_none.1 hfind c hc
    exact .inl (words_of_plain hne hplain)
  | some c =>
    obtain ⟨hc, word, t, rfl, hword⟩ := List.find?_eq_some_iff_append.1 hfind
    have hplain : ∀ d ∈ word, isBlank d = false := fun d hd => by simpa using hword d hd
    have hwordNe : word ≠ [] := by
      rintro rfl
      rw [hfront c rfl] at hc
      cases hc
    have hprecedes : Precedes word (t.dropWhile isBlank) (word ++ c :: t) := ⟨c, t, rfl, hc, rfl⟩
    exact .inr ⟨word, _, hprecedes, words_of_precedes hprecedes hwordNe hplain⟩

theorem exists_precedes {next : Text} {more : List Text} (hfront : ∀ c ∈ s.head?, isBlank c = false)
    (h : words s = word :: next :: more) :
    ∃ rest, Precedes word rest s ∧ words rest = next :: more := by
  have hne : s ≠ [] := by
    rintro rfl
    cases h
  obtain hone | ⟨first, rest, hprecedes, hwords⟩ := words_cases hfront hne
  · rw [hone] at h
    cases h
  · rw [hwords] at h
    obtain ⟨rfl, hrest⟩ := List.cons.inj h
    exact ⟨rest, hprecedes, hrest⟩

/-! ## Word characters -/

/-- The ranges of blanks and of word characters have nothing in common. -/
theorem ranges_apart : ∀ blanks ∈ blankRanges, ∀ words ∈ wordRanges,
    blanks.2 < words.1 ∨ words.2 < blanks.1 := by
  decide +kernel

theorem isBlank_of_isWordChar (h : isWordChar c = true) : isBlank c = false := by
  obtain ⟨words, hwords, hc⟩ := List.any_eq_true.1 h
  simp only [Bool.and_eq_true, decide_eq_true_eq] at hc
  refine List.any_eq_false.2 fun blanks hblanks => ?_
  have := ranges_apart blanks hblanks words hwords
  simp only [Bool.and_eq_true, decide_eq_true_eq]
  omega

end AndroidResources.Text
