import AndroidResources.Proofs.FileSystem.Lead
import AndroidResources.Proofs.Path.Steps

/-!
# Where paths with the same steps lead

* `FileSystem.walk_properNames` : what is idle in front of a name does not matter to a walk;
* `FileSystem.resolve_join_congr` : what is read from paths with the same steps leads to one place;
* `FileSystem.spelled_eq_of_components`, `FileSystem.spelled_join` : the location that steps spell.
-/

namespace AndroidResources.FileSystem

variable {fs : FileSystem} {p q r : Path}

section Walk

variable {back : List Text}

theorem append_ne_nil_of_name (hback : ∃ segment ∈ back, Path.isIdle segment = false)
    (front : List Text) : front ++ back ≠ [] := by
  rintro hnil
  obtain ⟨name, hname, -⟩ := hback
  rw [(List.append_eq_nil_iff.1 hnil).2] at hname
  cases hname

theorem append_all_of_name (hback : ∃ segment ∈ back, Path.isIdle segment = false)
    (front : List Text) : (front ++ back).all (· = []) = false := by
  obtain ⟨name, hname, hnot⟩ := hback
  rw [List.all_eq_false]
  refine ⟨name, List.mem_append_right _ hname, ?_⟩
  rw [decide_eq_true_eq]
  rintro rfl
  cases hnot

/-- Without what is idle, a descent in front of a name ends in the same way or at the same link. -/
theorem descend_properNames (hback : ∃ segment ∈ back, Path.isIdle segment = false)
    (dir : Location) (front : List Text) :
    fs.descend dir (Path.properNames front ++ back) = fs.descend dir (front ++ back) ∨
      ∃ l target rest, fs.descend dir (front ++ back) = .ok (.link l target (rest ++ back)) ∧
        fs.descend dir (Path.properNames front ++ back) =
          .ok (.link l target (Path.properNames rest ++ back)) := by
  induction front generalizing dir with
  | nil => exact .inl rfl
  | cons segment rest ih =>
    cases hidle : Path.isIdle segment with
    | true =>
      rw [Path.properNames_cons_idle hidle, List.cons_append, descend_idle _ hidle]
      exact ih dir
    | false =>
      rw [Path.properNames_cons_name hidle, List.cons_append, List.cons_append]
      by_cases hup : segment = "..".toList
      · rw [hup, descend_up, descend_up]
        exact ih dir.dropLast
      · have hname : ¬ Path.isIdle segment = true := by simp [hidle]
        rw [descend_name _ hname hup, descend_name _ hname hup]
        cases fs.get? (dir ++ [segment]) with
        | none => simp only [append_all_of_name hback, Bool.false_eq_true, if_false, true_or]
        | some entry =>
          cases entry with
          | file content => simp only [append_ne_nil_of_name hback, if_false, true_or]
          | directory => exact ih _
          | link target => exact .inr ⟨_, target, rest, rfl, rfl⟩

/-- What is idle in front of a name does not matter. The induction is on the links that are left;
the segments of a link's target are one more front. -/
theorem walk_properNames {last : LastLink} (hback : ∃ segment ∈ back, Path.isIdle segment = false)
    (links : Nat) (dir : Location) (front : List Text) :
    fs.walk last links dir (Path.properNames front ++ back) =
      fs.walk last links dir (front ++ back) := by
  have hkept : ∀ rest : List Text, ¬ (last = .kept ∧ rest ++ back = []) := fun rest h =>
    append_ne_nil_of_name hback rest h.2
  induction links generalizing dir front with
  | zero =>
    obtain heq | ⟨l, target, rest, hlink, hlink'⟩ := descend_properNames hback dir front
    · exact walk_congr heq _
    · rw [walk.eq_def, hlink', walk.eq_def fs last 0 dir (front ++ back), hlink]
      simp only [if_neg (hkept _)]
  | succ links ih =>
    obtain heq | ⟨l, target, rest, hlink, hlink'⟩ := descend_properNames hback dir front
    · exact walk_congr heq _
    · have htwice : Path.properNames (Path.properNames rest) = Path.properNames rest := by
        unfold Path.properNames
        rw [List.filter_filter]
        simp only [Bool.and_self]
      rw [walk_of_link hlink' (hkept _), walk_of_link hlink (hkept _), ← List.append_assoc,
        ← List.append_assoc, ← ih, ← ih _ (target.segments ++ rest), Path.properNames_append,
        Path.properNames_append, htwice]

end Walk

theorem resolve_join_congr (fs : FileSystem) (h : p.components = q.components)
    (hr : r.leadingComponent = []) (hname : ∃ segment ∈ r.segments, Path.isIdle segment = false) :
    fs.resolve (p.join r) = fs.resolve (q.join r) := by
  have hrelative := (Path.leadingComponent_eq_nil.1 hr).1
  have htext : ∀ p : Path, (p.join r).text ≠ [] := fun p hnil => by
    rw [Path.text_eq_nil_iff, Path.segments_join p hrelative] at hnil
    obtain ⟨name, hmem, hidle⟩ := hname
    have hmem' : name ∈ p.leadingSegments ++ r.segments := List.mem_append_right _ hmem
    rw [hnil, List.mem_singleton] at hmem'
    rw [hmem'] at hidle
    cases hidle
  have horigin : fs.origin (p.join r) = fs.origin (q.join r) := by
    unfold origin
    rw [Path.isAbsolute_eq, Path.isAbsolute_eq, Path.components_join p hr, Path.components_join q hr, h]
  have hsegments : ∀ p : Path, Path.properNames p.leadingSegments = Path.properNames p.segments := by
    intro p
    obtain heq | heq := Path.segments_eq_leadingSegments p
    · rw [← heq]
    · conv_rhs => rw [heq]
      rw [Path.properNames_append]
      exact (List.append_nil _).symm
  unfold resolve resolveSegments
  simp only [htext, false_or, horigin, Path.segments_join _ hrelative]
  rw [← walk_properNames hname _ _ p.leadingSegments, hsegments, Path.properNames_eq, h,
    ← Path.properNames_eq, ← hsegments, walk_properNames hname]

theorem spelled_eq_of_components (fs : FileSystem) (h : p.components = q.components) :
    fs.spelled p = fs.spelled q := by
  unfold spelled origin
  rw [Path.isAbsolute_eq, Path.isAbsolute_eq, Path.properNames_eq, Path.properNames_eq, h]

theorem spelled_join (fs : FileSystem) {names : List Text}
    (hr : r.components = names.map .normal) (hne : names ≠ []) :
    fs.spelled (p.join r) = fs.spelled p ++ names := by
  obtain ⟨name, more, rfl⟩ := List.exists_cons_of_ne_nil hne
  have hjoin := Path.components_join p (Path.leadingComponent_of_normal (by rw [hr]; rfl))
  have habsolute : (p.join r).isAbsolute = p.isAbsolute := by
    rw [Path.isAbsolute_eq, Path.isAbsolute_eq, hjoin, hr]
    cases p.components <;> rfl
  have hnames : ((name :: more).map Path.Component.normal).filterMap Path.Component.segment? =
      name :: more := by
    rw [List.filterMap_map]
    exact List.filterMap_some
  unfold spelled origin
  rw [habsolute, Path.properNames_eq, Path.properNames_eq, hjoin, hr, List.filterMap_append, hnames,
    List.append_assoc]

end AndroidResources.FileSystem
