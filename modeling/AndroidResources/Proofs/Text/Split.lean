import AndroidResources.Text.Basic
import Mathlib.Data.List.Infix

/-!
# Characters of texts

* `forall_of_all` : what holds for all characters of a text, checked one after the other;
* `mem_of_mem_splitOnP`, `mem_of_beforeFirst?` : the characters of parts of a text;
* `splitFirst?_append`, `splitLast?_append` : a text split where its two sides are known;
* `takeWhile_append_stop` : what is taken from a text up to a character that ends it;
* `beforeFirst?_eq_some`, `eq_append_of_afterLast`, `holds_iff` : what stands around a marker;
* `holds_afterLast` : the last occurrence of a marker has none behind it;
* `cons_infix_iff` : a marker that begins with a separator stands at the front of a word.
-/

namespace AndroidResources.Text

/-- There are other ways to decide this, which go through all characters there are. -/
theorem forall_of_all {s : Text} {P : Char → Prop} [DecidablePred P] (h : s.all (P ·) = true) :
    ∀ c ∈ s, P c := by
  simpa using h

theorem utf8Size_reverse (s : Text) : utf8Size s.reverse = utf8Size s := by
  induction s with
  | nil => rfl
  | cons c s ih => rw [List.reverse_cons, utf8Size_append, ih, utf8Size_cons, utf8Size_cons,
      utf8Size_nil, Nat.add_zero, Nat.add_comm]

theorem mem_of_mem_splitOnP {p : Char → Bool} {s word : Text} (h : word ∈ s.splitOnP p) :
    ∀ c ∈ word, c ∈ s ∧ p c = false := by
  induction s generalizing word with
  | nil =>
    rw [List.splitOnP_nil, List.mem_singleton] at h
    simp [h]
  | cons first rest ih =>
    rw [List.splitOnP_cons_eq_if_modifyHead] at h
    split at h
    · rcases List.mem_cons.1 h with rfl | h
      · simp
      · exact fun c hc => (ih h c hc).imp_left (List.mem_cons_of_mem _)
    · next hfirst =>
      obtain ⟨start, others, hsplit⟩ := List.exists_cons_of_ne_nil (List.splitOnP_ne_nil p rest)
      rw [hsplit] at h ih
      rw [List.modifyHead_cons] at h
      rcases List.mem_cons.1 h with rfl | h
      · intro c hc
        rcases List.mem_cons.1 hc with rfl | hc
        · exact ⟨List.mem_cons_self .., by simpa using hfirst⟩
        · exact (ih (List.mem_cons_self ..) c hc).imp_left (List.mem_cons_of_mem _)
      · exact fun c hc => (ih (List.mem_cons_of_mem _ h) c hc).imp_left (List.mem_cons_of_mem _)

theorem mem_of_mem_splitOn {sep : Char} {s word : Text} (h : word ∈ s.splitOn sep) :
    ∀ c ∈ word, c ∈ s ∧ c ≠ sep := by
  rw [List.splitOn_eq_splitOnP] at h
  exact fun c hc => (mem_of_mem_splitOnP h c hc).imp_right fun hne => by simpa using hne

theorem mem_of_beforeFirst? {marker s before : Text} (h : beforeFirst? marker s = some before) :
    ∀ c ∈ before, c ∈ s := by
  induction s generalizing before with
  | nil =>
    rw [beforeFirst?] at h
    cases hmarker : List.isPrefixOf? marker [] with
    | none =>
      rw [hmarker] at h
      cases h
    | some rest =>
      rw [hmarker] at h
      cases h
      simp
  | cons first rest ih =>
    rw [beforeFirst?] at h
    split at h
    · cases h
      simp
    · obtain ⟨before', hbefore, rfl⟩ := Option.map_eq_some_iff.1 h
      intro c hc
      rcases List.mem_cons.1 hc with rfl | hc
      · exact List.mem_cons_self ..
      · exact List.mem_cons_of_mem _ (ih hbefore c hc)

theorem splitFirst?_append {sep : Char} {s : Text} (h : sep ∉ s) (t : Text) :
    splitFirst? sep (s ++ sep :: t) = some (s, t) := by
  induction s with
  | nil => simp [splitFirst?]
  | cons c s ih =>
    rw [List.mem_cons, not_or] at h
    rw [List.cons_append, splitFirst?, if_neg (Ne.symm h.1), ih h.2]
    rfl

theorem splitFirst?_eq_none {sep : Char} {s : Text} (h : sep ∉ s) : splitFirst? sep s = none := by
  induction s with
  | nil => rfl
  | cons c s ih =>
    rw [List.mem_cons, not_or] at h
    rw [splitFirst?, if_neg (Ne.symm h.1), ih h.2]
    rfl

theorem splitLast?_append {sep : Char} {t : Text} (h : sep ∉ t) (s : Text) :
    splitLast? sep (s ++ sep :: t) = some (s, t) := by
  induction s with
  | nil => simp [splitLast?, splitLast?_eq_none.2 h]
  | cons c s ih => rw [List.cons_append, splitLast?, ih]

theorem takeWhile_append_stop {p : Char → Bool} {stop : Char} (hstop : p stop = false) (s t : Text) :
    (s ++ stop :: t).takeWhile p = s.takeWhile p := by
  induction s with
  | nil => exact List.takeWhile_cons_of_neg (by simp [hstop])
  | cons c s ih => rw [List.cons_append, List.takeWhile_cons, List.takeWhile_cons, ih]

/-! ## Markers -/

theorem beforeFirst?_eq_some {marker s before : Text} (h : beforeFirst? marker s = some before) :
    ∃ after, s = before ++ marker ++ after := by
  induction s generalizing before with
  | nil =>
    rw [beforeFirst?] at h
    obtain ⟨after, hafter, rfl⟩ := Option.map_eq_some_iff.1 h
    exact ⟨after, (List.isPrefixOf?_eq_some_iff_append_eq.1 hafter).symm⟩
  | cons c rest ih =>
    rw [beforeFirst?] at h
    split at h
    · next hmarker =>
      cases h
      obtain ⟨after, hafter⟩ := List.isPrefixOf_iff_prefix.1 hmarker
      exact ⟨after, hafter.symm⟩
    · obtain ⟨before', hbefore, rfl⟩ := Option.map_eq_some_iff.1 h
      obtain ⟨after, rfl⟩ := ih hbefore
      exact ⟨after, rfl⟩

theorem afterLast?_eq_some {marker s after : Text} (h : afterLast? marker s = some after) :
    ∃ before, s = before ++ marker ++ after := by
  induction s with
  | nil => exact ⟨[], (List.isPrefixOf?_eq_some_iff_append_eq.1 h).symm⟩
  | cons c rest ih =>
    rw [afterLast?] at h
    cases hrest : afterLast? marker rest with
    | some later =>
      rw [hrest] at h
      cases h
      obtain ⟨before, hbefore⟩ := ih hrest
      exact ⟨c :: before, by rw [hbefore]; rfl⟩
    | none =>
      rw [hrest, Option.none_or] at h
      exact ⟨[], (List.isPrefixOf?_eq_some_iff_append_eq.1 h).symm⟩

/-- What follows the last marker, in a text with a character that does not follow it. -/
theorem eq_append_of_afterLast {marker s : Text} {c : Char} (hc : c ∈ s)
    (hafter : c ∉ afterLast marker s) : ∃ before, s = before ++ marker ++ afterLast marker s := by
  unfold afterLast at hafter ⊢
  cases hlast : afterLast? marker s with
  | some after =>
    rw [Option.getD_some]
    exact afterLast?_eq_some hlast
  | none =>
    rw [hlast, Option.getD_none] at hafter
    exact absurd hc hafter

theorem holds_iff {marker s : Text} : holds marker s = true ↔ marker <:+: s := by
  unfold holds
  induction s with
  | nil =>
    rw [beforeFirst?, Option.isSome_map]
    cases marker <;> simp [List.isPrefixOf?]
  | cons c rest ih =>
    rw [List.infix_cons_iff, ← ih, beforeFirst?]
    by_cases hmarker : marker <+: c :: rest
    · simp [hmarker]
    · simp [List.isPrefixOf_iff_prefix, hmarker]

theorem afterLast?_eq_none {marker s : Text} :
    afterLast? marker s = none ↔ ¬ marker <:+: s := by
  have hhere : ∀ s, List.isPrefixOf? marker s = none ↔ ¬ marker <+: s := fun s => by
    rw [Option.eq_none_iff_forall_ne_some]
    simp only [ne_eq, List.isPrefixOf?_eq_some_iff_append_eq]
    exact not_exists.symm
  induction s with
  | nil => rw [afterLast?, hhere, List.prefix_nil, List.infix_nil]
  | cons c rest ih =>
    rw [afterLast?, List.infix_cons_iff, not_or, Option.or_eq_none_iff, hhere, and_comm]
    exact and_congr_right' ih

theorem holds_afterLast {marker : Text} (hne : marker ≠ []) (s : Text) :
    holds marker (afterLast marker s) = false := by
  rw [Bool.eq_false_iff, Ne, holds_iff]
  unfold afterLast
  cases hlast : afterLast? marker s with
  | none => exact afterLast?_eq_none.1 hlast
  | some after =>
    rw [Option.getD_some]
    induction s with
    | nil =>
      have happend := List.isPrefixOf?_eq_some_iff_append_eq.1 hlast
      exact absurd (List.append_eq_nil_iff.1 happend).1 hne
    | cons c rest ih =>
      rw [afterLast?] at hlast
      cases hrest : afterLast? marker rest with
      | some later =>
        rw [hrest] at hlast
        cases hlast
        exact ih hrest
      | none =>
        -- The marker stands at the front, so that what follows it is part of the rest.
        rw [hrest, Option.none_or, List.isPrefixOf?_eq_some_iff_append_eq] at hlast
        obtain ⟨d, tail, rfl⟩ := List.exists_cons_of_ne_nil hne
        have hrest' : rest = tail ++ after := (List.cons.inj hlast).2.symm
        intro hpart
        refine afterLast?_eq_none.1 hrest (hpart.trans ?_)
        rw [hrest']
        exact (List.suffix_append ..).isInfix

/-- A word without the separator begins a text where it begins the first word. -/
theorem prefix_head_splitOn {sep : Char} {word s first : Text} {rest : List Text}
    (hsep : sep ∉ word) (h : s.splitOn sep = first :: rest) : word <+: s ↔ word <+: first := by
  induction s generalizing word first with
  | nil =>
    rw [List.splitOn_nil] at h
    cases h
    rfl
  | cons c s ih =>
    cases word with
    | nil => simp
    | cons d word =>
      rw [List.mem_cons, not_or] at hsep
      obtain ⟨first', rest', hs⟩ := List.exists_cons_of_ne_nil (List.splitOn_ne_nil sep s)
      rw [List.splitOn_cons_eq_if_modifyHead, hs] at h
      split at h
      · next hc =>
        cases h
        have hne : d ≠ c := fun heq => hsep.1 (by simpa [heq] using (beq_iff_eq.1 hc).symm)
        simp [List.cons_prefix_cons, hne]
      · cases h
        rw [List.cons_prefix_cons, List.cons_prefix_cons, ih hsep.2 hs]

theorem cons_infix_iff {sep : Char} {word s : Text} (hsep : sep ∉ word) :
    (sep :: word) <:+: s ↔ ∃ part ∈ (s.splitOn sep).tail, word <+: part := by
  induction s with
  | nil => simp
  | cons c s ih =>
    obtain ⟨first, rest, hs⟩ := List.exists_cons_of_ne_nil (List.splitOn_ne_nil sep s)
    rw [List.infix_cons_iff, ih, List.cons_prefix_cons, List.splitOn_cons_eq_if_modifyHead, hs]
    split
    · next hc =>
      rw [prefix_head_splitOn hsep hs]
      simp [beq_iff_eq.1 hc]
    · next hc =>
      have hne : sep ≠ c := fun heq => hc (by simp [heq])
      simp [hne]

end AndroidResources.Text
