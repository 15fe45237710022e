import AndroidResources.Proofs.Text.Split
import AndroidResources.Symbol.Collection
import Mathlib.Data.List.TakeWhile

/-!
# New ids in a text

A marker begins with `@`, which is neither in the rest of the marker nor in a name. So ids do not
overlap, and a text can be searched in parts that begin with it.

* `newIds_append` : the ids of a text are those in front of an `@` and those from there on;
* `newIds_marker` : a marker with a name behind it is one id;
* `searchIds`, `searchIds_eq_newIds` : a search that goes on behind each id finds the same ones.
-/

namespace AndroidResources

variable {c : Char} {s t name rest : Text}

theorem isAsciiWordChar_at : Text.isAsciiWordChar '@' = false := by decide

theorem newIdAt_of_ne (h : c ≠ '@') (s : Text) : newIdAt (c :: s) = [] := by
  unfold newIdAt newIdMarker
  rw [show "@+id/".toList = '@' :: "+id/".toList from rfl, List.isPrefixOf?]
  rw [if_neg (by simpa using Ne.symm h)]
  rfl

theorem newIds_of_not_mem (h : '@' ∉ s) (t : Text) : newIds (s ++ t) = newIds t := by
  induction s with
  | nil => rfl
  | cons c s ih =>
    rw [List.mem_cons, not_or] at h
    rw [List.cons_append, newIds]
    simp only [newIdAt_of_ne (Ne.symm h.1), if_true]
    exact ih h.2

/-- An id that begins in front of an `@` ends in front of it. -/
theorem newIdAt_append (c : Char) (s t : Text) :
    newIdAt (c :: (s ++ '@' :: t)) = newIdAt (c :: s) := by
  unfold newIdAt
  cases hbegins : List.isPrefixOf? newIdMarker (c :: s) with
  | some behind =>
    have hs := List.isPrefixOf?_eq_some_iff_append_eq.1 hbegins
    have hlonger : List.isPrefixOf? newIdMarker (c :: (s ++ '@' :: t)) =
        some (behind ++ '@' :: t) := by
      rw [List.isPrefixOf?_eq_some_iff_append_eq, ← List.append_assoc, hs, List.cons_append]
    rw [hlonger, Option.getD_some, Option.getD_some]
    exact Text.takeWhile_append_stop isAsciiWordChar_at behind t
  | none =>
    have hnone : List.isPrefixOf? newIdMarker (c :: (s ++ '@' :: t)) = none := by
      rw [Option.eq_none_iff_forall_ne_some]
      intro behind hbehind
      have heq := List.isPrefixOf?_eq_some_iff_append_eq.1 hbehind
      rw [← List.cons_append, List.append_eq_append_iff] at heq
      obtain ⟨between, hs, -⟩ | ⟨between, hmarker, hrest⟩ := heq
      · rw [List.isPrefixOf?_eq_some_iff_append_eq.2 hs.symm] at hbegins
        cases hbegins
      · cases between with
        | nil =>
          have hself : newIdMarker ++ [] = c :: s := by rw [hmarker, List.append_nil, List.append_nil]
          rw [List.isPrefixOf?_eq_some_iff_append_eq.2 hself] at hbegins
          cases hbegins
        | cons first between =>
          -- the rest of the marker would begin with the second `@`
          have hat : '@' ∈ newIdMarker.tail := by
            rw [hmarker, List.cons_append, List.tail_cons, ← (List.cons.inj hrest).1]
            simp
          exact absurd hat (by decide)
    rw [hnone]

theorem newIds_append (s t : Text) : newIds (s ++ '@' :: t) = newIds s ++ newIds ('@' :: t) := by
  induction s with
  | nil => rfl
  | cons c s ih =>
    rw [List.cons_append, newIds, newIds]
    simp only [newIdAt_append, ih]
    split <;> rfl

/-- The id that a text begins with is what stands between a marker and the first character that no
name has. -/
theorem newIdAt_marker (hname : ∀ c ∈ name, Text.isAsciiWordChar c = true)
    (hrest : ∀ c ∈ rest.head?, Text.isAsciiWordChar c = false) :
    newIdAt (newIdMarker ++ (name ++ rest)) = name := by
  have hbegins : List.isPrefixOf? newIdMarker (newIdMarker ++ (name ++ rest)) =
      some (name ++ rest) := List.isPrefixOf?_eq_some_iff_append_eq.2 rfl
  have hstop : rest.takeWhile Text.isAsciiWordChar = [] := by
    cases rest with
    | nil => rfl
    | cons c rest => exact List.takeWhile_cons_of_neg (by simp [hrest c rfl])
  unfold newIdAt
  rw [hbegins, Option.getD_some, List.takeWhile_append_of_pos hname, hstop, List.append_nil]

theorem newIds_marker (hne : name ≠ []) (hname : ∀ c ∈ name, Text.isAsciiWordChar c = true)
    (hrest : ∀ c ∈ rest.head?, Text.isAsciiWordChar c = false) :
    newIds (newIdMarker ++ (name ++ rest)) = name :: newIds rest := by
  have hat := newIdAt_marker hname hrest
  have hinner : '@' ∉ "+id/".toList ++ name := by
    rw [List.mem_append, not_or]
    refine ⟨by decide, fun hmem => ?_⟩
    have := hname _ hmem
    rw [isAsciiWordChar_at] at this
    cases this
  have hcut : newIdMarker ++ (name ++ rest) = '@' :: ("+id/".toList ++ name ++ rest) := rfl
  rw [hcut] at hat ⊢
  rw [newIds]
  simp only [hat, if_neg hne]
  rw [newIds_of_not_mem hinner]

/-! ## Searching behind each id -/

theorem exists_of_newIdAt_ne (h : newIdAt s ≠ []) :
    ∃ rest, s = newIdMarker ++ (newIdAt s ++ rest) ∧
      (∀ c ∈ newIdAt s, Text.isAsciiWordChar c = true) ∧
      ∀ c ∈ rest.head?, Text.isAsciiWordChar c = false := by
  cases hbegins : List.isPrefixOf? newIdMarker s with
  | none =>
    unfold newIdAt at h
    rw [hbegins] at h
    exact absurd rfl h
  | some behind =>
    have hname : newIdAt s = behind.takeWhile Text.isAsciiWordChar := by
      unfold newIdAt
      rw [hbegins, Option.getD_some]
    refine ⟨behind.dropWhile Text.isAsciiWordChar, ?_, ?_, ?_⟩
    · rw [hname, List.takeWhile_append_dropWhile]
      exact (List.isPrefixOf?_eq_some_iff_append_eq.1 hbegins).symm
    · rw [hname]
      exact fun c hc => List.mem_takeWhile_imp hc
    · intro c hc
      have := List.head?_dropWhile_not Text.isAsciiWordChar behind
      rw [Option.mem_def.1 hc] at this
      exact this

/-- The ids that a search finds which goes on behind each of them. -/
def searchIds (s : Text) : List Text :=
  match s with
  | [] => []
  | c :: rest =>
    if newIdAt (c :: rest) = [] then searchIds rest
    else newIdAt (c :: rest) ::
      searchIds (rest.drop (newIdMarker.length - 1 + (newIdAt (c :: rest)).length))
  termination_by s.length

/-- No id begins inside another one, so nothing is lost by going on behind it. -/
theorem searchIds_eq_newIds (s : Text) : searchIds s = newIds s := by
  induction s using searchIds.induct with
  | case1 => rw [searchIds, newIds]
  | case2 c rest hnone ih =>
    rw [searchIds, newIds, if_pos hnone, ih]
    simp only [hnone, if_true]
  | case3 c rest hsome ih =>
    obtain ⟨behind, hs, hname, hbehind⟩ := exists_of_newIdAt_ne hsome
    have hdrop : rest.drop (newIdMarker.length - 1 + (newIdAt (c :: rest)).length) = behind := by
      generalize newIdAt (c :: rest) = name at hs
      have hrest : rest = "+id/".toList ++ name ++ behind := (List.cons.inj hs).2
      rw [hrest]
      exact List.drop_left' (by rw [List.length_append]; rfl)
    rw [searchIds, if_neg hsome, ih, hdrop]
    conv_rhs => rw [hs]
    rw [newIds_marker hsome hname hbehind]

end AndroidResources
