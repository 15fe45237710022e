import AndroidResources.Proofs.Path.Components

/-!
# Paths with the same steps

* `Path.components_join` : the steps of a path read from another;
* `Path.components_ofComponents` : the shortest spelling of a path has the same steps, and so has
  that of each front of them;
* `Path.components_parent?` : the parent has all steps but the last;
* `Path.isAbsolute_eq`, `Path.properNames_eq` : what the steps tell of a path.
-/

namespace AndroidResources.Path

variable {p q : Path}

theorem text_of_component? {segment : Text} {step : Component}
    (h : component? segment = some step) : step.text = segment := by
  unfold component? at h
  split at h
  · cases h
  · split at h
    · next hup =>
      cases h
      exact hup.symm
    · cases h
      rfl

/-! ## What the steps tell -/

def Component.segment? : Component → Option Text
  | root => none
  | current => none
  | parent => some ".."
  | normal name => some name

theorem isAbsolute_eq (p : Path) : p.isAbsolute = (p.components.head? == some .root) := by
  rw [components_eq_append]
  unfold leadingComponent
  cases habsolute : p.isAbsolute with
  | true => rfl
  | false =>
    rw [if_neg Bool.false_ne_true]
    split
    · rfl
    · rw [List.nil_append, List.head?_filterMap, eq_comm, beq_eq_false_iff_ne]
      intro hroot
      obtain ⟨segment, -, hsegment⟩ := List.exists_of_findSome?_eq_some hroot
      unfold component? at hsegment
      split at hsegment
      · cases hsegment
      · split at hsegment <;> cases hsegment

theorem properNames_eq (p : Path) :
    properNames p.segments = p.components.filterMap Component.segment? := by
  have hlead : p.leadingComponent.filterMap Component.segment? = [] := by
    obtain h | h | h := p.leadingComponent_cases <;> rw [h] <;> rfl
  rw [components_eq_append, List.filterMap_append, hlead, List.nil_append, List.filterMap_filterMap]
  unfold properNames
  rw [← List.filterMap_eq_filter]
  refine List.filterMap_congr fun segment _ => ?_
  cases hidle : isIdle segment with
  | true =>
    have hnone : component? segment = none := if_pos hidle
    rw [hnone]
    simp [Option.guard, hidle]
  | false =>
    unfold component?
    rw [if_neg (by simp [hidle])]
    split
    · next hup => simp [Option.guard, Component.segment?, hup, isIdle]
    · simp [Option.guard, Component.segment?, hidle]

/-! ## Joining -/

theorem leadingComponent_eq_nil :
    p.leadingComponent = [] ↔ p.isAbsolute = false ∧ p.segments.head? ≠ some ".".toList := by
  unfold leadingComponent
  cases p.isAbsolute with
  | true => simp
  | false =>
    by_cases hdot : p.segments.head? = some ".".toList <;> simp [hdot]

theorem leadingComponent_of_normal {name : Text} (h : p.components.head? = some (.normal name)) :
    p.leadingComponent = [] := by
  obtain hlead | hlead | hlead := p.leadingComponent_cases
  · exact hlead
  all_goals
    rw [components_eq_append, hlead] at h
    cases h

theorem components_join (p : Path) (h : q.leadingComponent = []) :
    (p.join q).components = p.components ++ q.components := by
  obtain ⟨hq, hdot⟩ := leadingComponent_eq_nil.1 h
  have hsteps : p.leadingSegments.filterMap component? = p.segments.filterMap component? := by
    obtain heq | heq := segments_eq_leadingSegments p
    · rw [← heq]
    · conv_rhs => rw [heq]
      rw [List.filterMap_append]
      exact (List.append_nil _).symm
  have hlead : (p.join q).leadingComponent = p.leadingComponent := by
    by_cases htext : p.text = []
    · have hjoin : p.join q = q := by
        unfold join
        rw [hq, if_neg Bool.false_ne_true, if_pos (.inl htext), htext]
        rfl
      have hp : p.leadingComponent = [] := by
        rw [leadingComponent_eq_nil, (text_eq_nil_iff p).1 htext]
        exact ⟨by rw [isAbsolute, htext]; rfl, by decide⟩
      rw [hjoin, h, hp]
    · unfold leadingComponent
      rw [isAbsolute_join hq htext, segments_join p hq]
      obtain heq | heq := segments_eq_leadingSegments p
      · rw [← heq, List.head?_append_of_ne_nil _ p.segments_ne_nil]
      · have hne : p.leadingSegments ≠ [] := fun hnil => by
          rw [hnil] at heq
          exact htext ((text_eq_nil_iff p).2 heq)
        rw [List.head?_append_of_ne_nil _ hne, heq, List.head?_append_of_ne_nil _ hne]
  rw [components_eq_append, hlead, segments_join p hq, List.filterMap_append, hsteps,
    components_eq_append p, components_eq_append q, h, List.append_assoc, List.nil_append]

/-! ## The shortest spelling -/

theorem components_single {step : Component} (h : component? step.text = some step)
    (hslash : '/' ∉ step.text) :
    leadingComponent ⟨step.text⟩ = [] ∧ components ⟨step.text⟩ = [step] := by
  have hsegments := segments_single hslash
  have hlead : leadingComponent ⟨step.text⟩ = [] := by
    rw [leadingComponent_eq_nil, hsegments]
    refine ⟨isAbsolute_single hslash, fun hdot => ?_⟩
    rw [List.head?_cons, Option.some.injEq] at hdot
    rw [hdot] at h
    cases h
  refine ⟨hlead, ?_⟩
  rw [components_eq_append, hlead, hsegments, List.nil_append, List.filterMap_cons_some h]
  rfl

theorem components_ofComponents_append {lead steps : List Component}
    (hlead : (ofComponents lead).components = lead)
    (hsteps : ∀ step ∈ steps, component? step.text = some step ∧ '/' ∉ step.text) :
    (ofComponents (lead ++ steps)).components = lead ++ steps := by
  induction steps using List.reverseRecOn with
  | nil => rwa [List.append_nil]
  | append_singleton steps step ih =>
    obtain ⟨hstep, hslash⟩ := hsteps step (by simp)
    obtain ⟨hnil, hsingle⟩ := components_single hstep hslash
    have hjoin : ofComponents (lead ++ (steps ++ [step])) =
        (ofComponents (lead ++ steps)).join ⟨step.text⟩ := by
      unfold ofComponents
      rw [← List.append_assoc, List.foldl_append]
      rfl
    rw [hjoin, components_join _ hnil, hsingle, ih fun s hs => hsteps s (by simp [hs]),
      List.append_assoc]

/-- The steps that a path begins with can be spelled. -/
theorem components_ofComponents_of_prefix {steps : List Component} (h : steps <+: p.components) :
    (ofComponents steps).components = steps := by
  have hspelled : ∀ more, more <+: p.segments.filterMap component? →
      ∀ step ∈ more, component? step.text = some step ∧ '/' ∉ step.text := by
    intro more hmore step hstep
    obtain ⟨segment, hsegment, hcomponent⟩ := List.mem_filterMap.1 (hmore.subset hstep)
    rw [text_of_component? hcomponent]
    exact ⟨hcomponent, slash_not_mem_segment hsegment⟩
  have hlead : (ofComponents p.leadingComponent).components = p.leadingComponent := by
    obtain h | h | h := p.leadingComponent_cases <;> rw [h] <;> rfl
  rw [components_eq_append] at h
  obtain hfront | ⟨more, rfl⟩ := List.prefix_or_prefix_of_prefix h (List.prefix_append ..)
  · -- A front of the root or of the dot is nothing or all of it.
    have hall : steps = [] ∨ steps = p.leadingComponent := by
      obtain h | h | h := p.leadingComponent_cases <;> rw [h] at hfront ⊢
      · exact .inl (List.prefix_nil.1 hfront)
      all_goals
        obtain rfl | ⟨rest, rfl, hrest⟩ := List.prefix_cons_iff.1 hfront
        · exact .inl rfl
        · exact .inr (by rw [List.prefix_nil.1 hrest])
    obtain rfl | rfl := hall
    · rfl
    · exact hlead
  · exact components_ofComponents_append hlead
      (hspelled more ((List.prefix_append_right_inj _).1 h))

theorem components_ofComponents (p : Path) :
    (ofComponents p.components).components = p.components :=
  components_ofComponents_of_prefix List.prefix_rfl

/-! ## The directory of a path -/

theorem exists_component? {segment : Text} (h : isIdle segment = false) :
    ∃ step, component? segment = some step := by
  unfold component?
  rw [if_neg (by simp [h])]
  split <;> exact ⟨_, rfl⟩

theorem filterMap_component?_of_idle {idle : List Text}
    (h : ∀ segment ∈ idle, isIdle segment = true) : idle.filterMap component? = [] :=
  List.filterMap_eq_nil_iff.2 fun segment hsegment => if_pos (h segment hsegment)

/-- A path with a single step lies in the empty path, unless it is the root. -/
theorem components_of_parent?_empty {first : Text} {rest : List Text}
    (hp : p.segments = first :: rest) (hidle : ∀ segment ∈ rest, isIdle segment = true)
    (hfirst : first ≠ []) : ∃ step, p.components = [step] := by
  have hrelative : p.isAbsolute = false := by
    rw [Bool.eq_false_iff, Ne, isAbsolute_iff, hp]
    simp [hfirst]
  rw [components_eq_append]
  unfold leadingComponent
  rw [hrelative, if_neg Bool.false_ne_true, hp, List.head?_cons]
  by_cases hdot : first = ".".toList
  · have hnone : component? first = none := if_pos (by rw [hdot]; rfl)
    rw [if_pos (congrArg some hdot), List.filterMap_cons_none hnone,
      filterMap_component?_of_idle hidle]
    exact ⟨.current, rfl⟩
  · have hname : isIdle first = false := by
      unfold isIdle
      rw [Bool.or_eq_false_iff, beq_eq_false_iff_ne, beq_eq_false_iff_ne]
      exact ⟨hfirst, hdot⟩
    obtain ⟨step, hstep⟩ := exists_component? hname
    rw [if_neg fun heq => hdot (Option.some.inj heq), List.filterMap_cons_some hstep,
      filterMap_component?_of_idle hidle]
    exact ⟨step, rfl⟩

theorem components_parent? (h : p.parent? = some q) :
    ∃ last, p.components = q.components ++ [last] := by
  cases isParent_of_parent? h with
  | empty hp hfirst hidle hq =>
    rw [hq]
    exact components_of_parent?_empty hp hidle hfirst
  | above hp _ hbetween hname hidle habsolute hq =>
    obtain ⟨step, hstep⟩ := exists_component? hname
    -- What is idle around the last name changes no step.
    obtain ⟨hhead, hsteps⟩ : q.segments.head? = p.segments.head? ∧ p.segments.filterMap component? =
        q.segments.filterMap component? ++ [step] := by
      rw [hp, List.filterMap_append, List.filterMap_append, filterMap_component?_of_idle hbetween,
        List.filterMap_cons_some hstep, filterMap_component?_of_idle hidle, List.nil_append]
      obtain hq | ⟨rfl, hq⟩ := hq
      · obtain ⟨first, rest, hcons⟩ := List.exists_cons_of_ne_nil q.segments_ne_nil
        rw [← hq, hcons]
        exact ⟨rfl, rfl⟩
      · rw [hq]
        exact ⟨rfl, rfl⟩
    have hlead : q.leadingComponent = p.leadingComponent := by
      unfold leadingComponent
      rw [habsolute, hhead]
    refine ⟨step, ?_⟩
    rw [components_eq_append, components_eq_append q, hlead, hsteps, List.append_assoc]

end AndroidResources.Path
