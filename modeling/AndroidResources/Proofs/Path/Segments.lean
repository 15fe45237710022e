import AndroidResources.FileSystem.Basic
import AndroidResources.Proofs.Text.Split
import Mathlib.Data.List.DropRight
import Mathlib.Data.List.Infix

/-!
# Segments of paths

* `Path.properNames` : the segments that mean something, which are names;
* `Path.segments_mk` : a path that is put together from segments has these segments;
* `Path.segments_join` : the segments of a path read from another;
* `Path.parent?_of_segments` : the parent has the segments in front of the last name;
* `Path.isParent_of_parent?` : what has been taken off a path to get its parent.
-/

namespace AndroidResources.Path

/-- The segments that mean something: names and double dots. -/
def properNames (segments : List Text) : List Text :=
  segments.filter fun segment => !isIdle segment

@[simp] theorem properNames_nil : properNames [] = [] := rfl

@[simp] theorem properNames_append (a b : List Text) :
    properNames (a ++ b) = properNames a ++ properNames b :=
  List.filter_append ..

theorem properNames_cons_idle {segment : Text} (h : isIdle segment = true) (rest : List Text) :
    properNames (segment :: rest) = properNames rest :=
  List.filter_cons_of_neg (by simp [h])

theorem properNames_cons_name {segment : Text} (h : isIdle segment = false) (rest : List Text) :
    properNames (segment :: rest) = segment :: properNames rest :=
  List.filter_cons_of_pos (by simp [h])

theorem properNames_eq_nil {segments : List Text} :
    properNames segments = [] ↔ ∀ segment ∈ segments, isIdle segment = true := by
  unfold properNames
  rw [List.filter_eq_nil_iff]
  simp

theorem properNames_eq_self {names : List Text} (h : ∀ name ∈ names, isIdle name = false) :
    properNames names = names := by
  unfold properNames
  rw [List.filter_eq_self]
  intro name hname
  simp [h name hname]

theorem properNames_around {between idle : List Text} {name : Text}
    (hbetween : ∀ segment ∈ between, isIdle segment = true) (hname : isIdle name = false)
    (hidle : ∀ segment ∈ idle, isIdle segment = true) :
    properNames (between ++ name :: idle) = [name] := by
  rw [properNames_append, properNames_eq_nil.2 hbetween, properNames_cons_name hname,
    properNames_eq_nil.2 hidle, List.nil_append]

theorem isIdle_of_isName {name : Text} (h : IsName name) : isIdle name = false := by
  unfold isIdle
  rw [Bool.or_eq_false_iff, beq_eq_false_iff_ne, beq_eq_false_iff_ne]
  exact ⟨h.1, h.2.1⟩

theorem isName_of_not_idle {segment : Text} (hidle : isIdle segment = false)
    (hparent : segment ≠ "..".toList) (hslash : '/' ∉ segment) : IsName segment := by
  unfold isIdle at hidle
  simp only [Bool.or_eq_false_iff, beq_eq_false_iff_ne] at hidle
  exact ⟨hidle.1, hidle.2, hparent, hslash⟩

/-! ## Paths from segments -/

variable {p q : Path}

theorem segments_ne_nil (p : Path) : p.segments ≠ [] :=
  List.splitOn_ne_nil _ _

theorem segments_mk {segments : List Text} (h : ∀ segment ∈ segments, '/' ∉ segment)
    (hne : segments ≠ []) : Path.segments ⟨List.intercalate "/" segments⟩ = segments :=
  List.splitOn_intercalate '/' h hne

theorem segments_single {segment : Text} (h : '/' ∉ segment) : segments ⟨segment⟩ = [segment] :=
  List.splitOn_eq_singleton h

theorem intercalate_segments (p : Path) : List.intercalate "/" p.segments = p.text :=
  List.intercalate_splitOn '/'

theorem slash_not_mem_segment {segment : Text} (h : segment ∈ p.segments) : '/' ∉ segment :=
  fun hmem => (Text.mem_of_mem_splitOn h _ hmem).2 rfl

theorem isName_of_mem_properNames {segments : List Text} {name : Text}
    (hsegments : ∀ segment ∈ segments, '/' ∉ segment) (hup : "..".toList ∉ segments)
    (h : name ∈ properNames segments) : IsName name := by
  unfold properNames at h
  rw [List.mem_filter] at h
  exact isName_of_not_idle (by simpa using h.2) (fun heq => hup (heq ▸ h.1)) (hsegments name h.1)

theorem eq_of_segments_eq (h : p.segments = q.segments) : p = q := by
  have htext : p.text = q.text := by
    rw [← intercalate_segments p, ← intercalate_segments q, h]
  cases p
  cases q
  exact congrArg Path.mk htext

/-- A path is absolute where an empty segment stands in front of others. -/
theorem isAbsolute_iff (p : Path) :
    p.isAbsolute = true ↔ ∃ second rest, p.segments = [] :: second :: rest := by
  unfold isAbsolute segments
  cases p.text with
  | nil => simp
  | cons c rest =>
    rw [List.splitOn_cons_eq_if_modifyHead]
    obtain ⟨first, others, hsplit⟩ := List.exists_cons_of_ne_nil (List.splitOn_ne_nil '/' rest)
    rw [hsplit]
    by_cases hc : c = '/'
    · simp [hc]
    · simp [hc]

theorem isAbsolute_single {segment : Text} (h : '/' ∉ segment) : isAbsolute ⟨segment⟩ = false := by
  rw [Bool.eq_false_iff, Ne, isAbsolute_iff, segments_single h]
  simp

theorem text_eq_nil_iff (p : Path) : p.text = [] ↔ p.segments = [[]] := by
  constructor
  · intro h
    unfold segments
    rw [h]
    rfl
  · intro h
    rw [← intercalate_segments p, h]
    rfl

theorem length_le_of_mem_segments {segment : Text} (h : segment ∈ p.segments) :
    segment.length ≤ p.text.length := by
  rw [← intercalate_segments p]
  generalize p.segments = segments at h
  induction segments with
  | nil => cases h
  | cons first rest ih =>
    rcases List.mem_cons.1 h with rfl | h
    · cases rest <;> simp
    · obtain ⟨second, others, rfl⟩ := List.exists_cons_of_ne_nil (List.ne_nil_of_mem h)
      have := ih h
      rw [List.intercalate_cons_cons]
      simp only [List.length_append]
      omega

/-- There is a slash between any two segments. -/
theorem length_segments_le (p : Path) : p.segments.length ≤ p.text.length + 1 := by
  rw [← intercalate_segments p]
  generalize p.segments = segments
  induction segments with
  | nil => simp
  | cons first rest ih =>
    cases rest with
    | nil => simp
    | cons second others =>
      have hslash : "/".toList.length = 1 := rfl
      rw [List.intercalate_cons_cons]
      simp only [List.length_append, List.length_cons] at ih ⊢
      omega

/-! ## A path read from another -/

def leadingSegments (p : Path) : List Text :=
  if p.text = [] then [] else if p.endsInSlash then p.segments.dropLast else p.segments

theorem segments_eq_leadingSegments (p : Path) :
    p.segments = p.leadingSegments ∨ p.segments = p.leadingSegments ++ [[]] := by
  unfold leadingSegments
  split
  · next h => exact .inr ((text_eq_nil_iff p).1 h)
  · split
    · next hslash =>
      right
      obtain ⟨s, hs⟩ : ∃ s, p.text = s ++ ['/'] := by
        unfold endsInSlash at hslash
        rw [beq_iff_eq, List.getLast?_eq_some_iff] at hslash
        exact hslash
      have hsegments : p.segments = List.splitOn '/' s ++ [[]] := by
        unfold segments
        rw [hs, List.splitOn_append_cons_self]
        rfl
      rw [hsegments, List.dropLast_concat]
    · exact .inl rfl

theorem mem_segments_of_mem_leadingSegments {segment : Text} (h : segment ∈ p.leadingSegments) :
    segment ∈ p.segments := by
  obtain heq | heq := segments_eq_leadingSegments p <;> simp [heq, h]

theorem leadingSegments_of_getLast? (h : p.segments.getLast? ≠ some []) :
    p.leadingSegments = p.segments := by
  obtain heq | heq := segments_eq_leadingSegments p
  · exact heq.symm
  · rw [heq, List.getLast?_concat] at h
    exact absurd rfl h

theorem segments_join (p : Path) (h : q.isAbsolute = false) :
    (p.join q).segments = p.leadingSegments ++ q.segments := by
  unfold join leadingSegments
  rw [h]
  by_cases hp : p.text = []
  · rw [if_neg Bool.false_ne_true, if_pos (.inl hp), if_pos hp, hp]
    rfl
  · by_cases hslash : p.endsInSlash = true
    · obtain ⟨s, hs⟩ : ∃ s, p.text = s ++ ['/'] := by
        unfold endsInSlash at hslash
        rw [beq_iff_eq, List.getLast?_eq_some_iff] at hslash
        exact hslash
      rw [if_neg Bool.false_ne_true, if_pos (.inr hslash), if_neg hp, if_pos hslash]
      unfold segments
      rw [hs, List.append_assoc, List.singleton_append, List.splitOn_append_cons_self,
        List.splitOn_append_cons_self]
      simp
    · rw [if_neg Bool.false_ne_true, if_neg (by simp [hp, hslash]), if_neg hp, if_neg hslash]
      exact List.splitOn_append_cons_self _ _

theorem isAbsolute_join (h : q.isAbsolute = false) (hne : p.text ≠ []) :
    (p.join q).isAbsolute = p.isAbsolute := by
  obtain ⟨c, s, hs⟩ := List.exists_cons_of_ne_nil hne
  unfold join
  rw [h, if_neg Bool.false_ne_true]
  unfold isAbsolute
  split <;> simp [hs]

/-- A path behind which nothing is read asks for a directory. -/
theorem endsInSlash_join_empty (hne : p.text ≠ []) : (p.join ⟨[]⟩).endsInSlash = true := by
  unfold join
  rw [if_neg (by decide)]
  split
  · next h =>
    obtain hnil | hslash := h
    · exact absurd hnil hne
    · rw [List.append_nil]
      exact hslash
  · simp [endsInSlash]

/-! ## The directory of a path -/

theorem dropWhile_idle_reverse (segments : List Text) :
    ∃ idle, segments = (segments.reverse.dropWhile isIdle).reverse ++ idle ∧
      ∀ segment ∈ idle, isIdle segment = true := by
  refine ⟨(segments.reverse.takeWhile isIdle).reverse, ?_, fun segment h => ?_⟩
  · rw [← List.reverse_append, List.takeWhile_append_dropWhile, List.reverse_reverse]
  · exact List.mem_takeWhile_imp (List.mem_reverse.1 h)

/-- The parent of a path with a name: the segments in front of the last name, without what is idle
at their end. -/
theorem parent?_of_segments {first name : Text} {before idle : List Text}
    (h : p.segments = first :: (before ++ name :: idle)) (hname : isIdle name = false)
    (hidle : ∀ segment ∈ idle, isIdle segment = true) :
    ∃ q : Path, p.parent? = some q ∧ q.text ≠ [] ∧ q.isAbsolute = p.isAbsolute ∧
      (q.segments = first :: (before.reverse.dropWhile isIdle).reverse ∨
        first = [] ∧ properNames before = [] ∧ q.segments = [[], []]) := by
  obtain ⟨between, hbefore, hbetween⟩ := dropWhile_idle_reverse before
  have hslash : ∀ segment ∈ first :: (before.reverse.dropWhile isIdle).reverse,
      '/' ∉ segment := fun segment hmem => by
    have hfront' : (before.reverse.dropWhile isIdle).reverse <+: before := ⟨between, hbefore.symm⟩
    have hsublist : first :: (before.reverse.dropWhile isIdle).reverse <+: p.segments := by
      rw [h, List.prefix_cons_inj]
      exact hfront'.trans (List.prefix_append ..)
    exact slash_not_mem_segment (hsublist.subset hmem)
  have habsolute : p.isAbsolute = true ↔ first = [] := by
    rw [isAbsolute_iff, h]
    cases before <;> simp
  have hdrop : (before ++ name :: idle).reverse.dropWhile isIdle = name :: before.reverse := by
    have hidle' : ∀ segment ∈ idle.reverse, isIdle segment = true := fun segment hmem =>
      hidle segment (List.mem_reverse.1 hmem)
    rw [List.reverse_append, List.reverse_cons, List.append_assoc,
      List.dropWhile_append_of_pos hidle', List.singleton_append,
      List.dropWhile_cons_of_neg (by simp [hname])]
  unfold parent?
  rw [h]
  simp only [hdrop]
  cases hkept : (before.reverse.dropWhile isIdle).reverse with
  | nil =>
    rw [hkept, List.nil_append] at hbefore
    refine ⟨_, rfl, ?_⟩
    by_cases hfirst : first = []
    · rw [if_pos hfirst]
      refine ⟨by decide, ?_, .inr ⟨hfirst, ?_, by decide⟩⟩
      · rw [habsolute.2 hfirst]
        rfl
      · rw [hbefore]
        exact properNames_eq_nil.2 hbetween
    · rw [if_neg hfirst]
      have hsegments : segments ⟨first⟩ = [first] :=
        segments_single (hslash first (List.mem_cons_self ..))
      refine ⟨hfirst, ?_, .inl hsegments⟩
      rw [Bool.eq_iff_iff, habsolute, isAbsolute_iff, hsegments]
      simp [hfirst]
  | cons second others =>
    rw [hkept] at hslash
    have hsegments := segments_mk hslash (by simp)
    refine ⟨_, rfl, ?_, ?_, .inl hsegments⟩
    · rw [Ne, text_eq_nil_iff, hsegments]
      simp
    · rw [Bool.eq_iff_iff, habsolute, isAbsolute_iff, hsegments]
      simp

/-- A path without names behind its first segment lies in the empty path, unless it is the root. -/
theorem parent?_of_idle {first : Text} {rest : List Text} (h : p.segments = first :: rest)
    (hidle : ∀ segment ∈ rest, isIdle segment = true) :
    p.parent? = if first = [] then none else some ⟨[]⟩ := by
  have hdrop : rest.reverse.dropWhile isIdle = [] :=
    List.dropWhile_eq_nil_iff.2 fun segment hmem => hidle segment (List.mem_reverse.1 hmem)
  unfold parent?
  rw [h]
  simp only [hdrop]

theorem parent?_of_single {name : Text} {idle : List Text} (h : p.segments = name :: idle)
    (hname : isIdle name = false) (hidle : ∀ segment ∈ idle, isIdle segment = true) :
    p.parent? = some ⟨[]⟩ := by
  have hne : name ≠ [] := by
    rintro rfl
    cases hname
  rw [parent?_of_idle h hidle, if_neg hne]

theorem exists_of_properNames_concat {segments names : List Text} {name : Text}
    (h : properNames segments = names ++ [name]) :
    ∃ before idle, segments = before ++ name :: idle ∧ properNames before = names ∧
      isIdle name = false ∧ ∀ segment ∈ idle, isIdle segment = true := by
  obtain ⟨start, rest, hsplit, hstart, hrest⟩ := List.filter_eq_append_iff.1 h
  obtain ⟨between, idle, rfl, hbetween, hname, hidle⟩ := List.filter_eq_cons_iff.1 hrest
  have hnil : properNames between = [] := properNames_eq_nil.2 fun segment hmem => by
    simpa using hbetween segment hmem
  refine ⟨start ++ between, idle, by simp [hsplit], ?_, by simpa using hname,
    properNames_eq_nil.1 hidle⟩
  rw [properNames_append, hnil, List.append_nil]
  exact hstart

/-- What has been taken off the segments of `p` to get those of its parent `q`. -/
inductive IsParent (p q : Path) : Prop
  /-- All of them, where the first one is all that counts. -/
  | empty {first : Text} {rest : List Text} (h : p.segments = first :: rest) (hfirst : first ≠ [])
      (hrest : ∀ segment ∈ rest, isIdle segment = true) (hq : q = ⟨[]⟩)
  /-- The last name, with what is idle on both sides of it. The root has an empty segment more than
  what is left. -/
  | above {name : Text} {front between idle : List Text}
      (h : p.segments = front ++ (between ++ name :: idle))
      (hfront : properNames front = [] ∨ ∀ segment ∈ front.getLast?, isIdle segment = false)
      (hbetween : ∀ segment ∈ between, isIdle segment = true) (hname : isIdle name = false)
      (hidle : ∀ segment ∈ idle, isIdle segment = true) (habsolute : q.isAbsolute = p.isAbsolute)
      (hq : q.segments = front ∨ front = [[]] ∧ q.segments = [[], []])

theorem isParent_of_parent? (h : p.parent? = some q) : IsParent p q := by
  obtain ⟨first, rest, hp⟩ := List.exists_cons_of_ne_nil p.segments_ne_nil
  by_cases hrest : properNames rest = []
  · have hidle := properNames_eq_nil.1 hrest
    rw [parent?_of_idle hp hidle] at h
    split at h
    · cases h
    · next hfirst => exact .empty hp hfirst hidle (Option.some.inj h).symm
  · obtain ⟨names, name, hnames⟩ : ∃ names name, properNames rest = names ++ [name] :=
      ⟨_, _, (List.dropLast_append_getLast hrest).symm⟩
    obtain ⟨before, idle, rfl, -, hname, hidle⟩ := exists_of_properNames_concat hnames
    obtain ⟨q', hq', -, habsolute, hsegments⟩ := parent?_of_segments hp hname hidle
    rw [hq'] at h
    cases h
    obtain hsegments | ⟨rfl, hnil, hsegments⟩ := hsegments
    · obtain ⟨between, hbefore, hbetween⟩ := dropWhile_idle_reverse before
      refine .above ?_ ?_ hbetween hname hidle habsolute (.inl hsegments)
      · rw [hp, List.cons_append, ← List.append_assoc, ← hbefore]
      · obtain hkept | hkept := eq_or_ne (before.reverse.dropWhile isIdle).reverse []
        · rw [hkept]
          by_cases hfirst : isIdle first = true
          · exact .inl (properNames_eq_nil.2 (by simpa using hfirst))
          · exact .inr (by simpa using hfirst)
        · refine .inr fun segment hlast => ?_
          rw [← List.singleton_append, List.getLast?_append_of_ne_nil _ hkept,
            List.getLast?_reverse] at hlast
          have hnot := List.head?_dropWhile_not isIdle before.reverse
          rwa [Option.mem_def.1 hlast] at hnot
    · exact .above (hp.trans (List.singleton_append ..).symm) (.inl (by decide))
        (properNames_eq_nil.1 hnil) hname hidle habsolute (.inr ⟨rfl, hsegments⟩)

theorem segments_parent? (h : p.parent? = some q) :
    q.isAbsolute = p.isAbsolute ∧
      ∀ segment ∈ q.segments, segment = [] ∨ segment ∈ p.segments := by
  cases isParent_of_parent? h with
  | empty hp hfirst _ hq =>
    rw [hq]
    refine ⟨?_, by simp [segments, List.splitOn_nil]⟩
    rw [Bool.eq_iff_iff, isAbsolute_iff, isAbsolute_iff, hp]
    simp [segments, List.splitOn_nil, hfirst]
  | above hp _ _ _ _ habsolute hq =>
    refine ⟨habsolute, fun segment hsegment => ?_⟩
    obtain hq | ⟨-, hq⟩ := hq
    · rw [hp]
      exact .inr (List.mem_append_left _ (hq ▸ hsegment))
    · exact .inl (by simpa [hq] using hsegment)

theorem properNames_of_parent?_eq_none (h : p.parent? = none) : properNames p.segments = [] := by
  unfold parent? at h
  rw [properNames_eq_nil]
  cases hp : p.segments with
  | nil => simp
  | cons first rest =>
    rw [hp] at h
    cases hrest : rest.reverse.dropWhile isIdle with
    | nil =>
      simp only [hrest] at h
      split at h
      · next hfirst =>
        rw [List.dropWhile_eq_nil_iff] at hrest
        intro segment hsegment
        rcases List.mem_cons.1 hsegment with rfl | hsegment
        · rw [hfirst]
          rfl
        · exact hrest segment (List.mem_reverse.2 hsegment)
      · cases h
    | cons last before =>
      simp only [hrest] at h
      split at h <;> cases h

theorem exists_parent? (h : properNames p.segments ≠ []) : ∃ q, p.parent? = some q :=
  Option.ne_none_iff_exists'.1 (mt properNames_of_parent?_eq_none h)

theorem properNames_parent? {names : List Text} {name : Text} (hq : p.parent? = some q)
    (h : properNames p.segments = names ++ [name]) : properNames q.segments = names := by
  cases isParent_of_parent? hq with
  | @empty first _ hp _ hrest hq =>
    rw [hp, ← List.singleton_append, properNames_append, properNames_eq_nil.2 hrest,
      List.append_nil] at h
    have hle : (properNames [first]).length ≤ 1 := List.length_filter_le ..
    rw [h, List.length_append, List.length_singleton] at hle
    rw [hq, List.length_eq_zero_iff.1 (by omega : names.length = 0)]
    rfl
  | above hp _ hbetween hname hidle _ hq =>
    rw [hp, properNames_append, properNames_around hbetween hname hidle] at h
    rw [← (List.append_inj' h rfl).1]
    obtain hq | ⟨rfl, hq⟩ := hq <;> rw [hq]
    rfl

end AndroidResources.Path
