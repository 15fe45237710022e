import AndroidResources.Proofs.Path.Segments

/-!
# Steps of paths without double dots

* `Path.components_eq_append`, `Path.components_eq` : a root or a leading dot, then what the
  segments stand for, which are the names;
* `Path.isName_of_mem_components` : the names among the steps are proper;
* `Path.fileName?_eq` : the file name is the last name;
* `Path.stripBase?_eq_some` : what is below a base has its names in front;
* `Path.ofComponents_normal`, `Path.segments_ofNames` : names as a relative path;
* `Path.exists_ofNames_of_stripBase?` : what is below a base as such a path.
-/

namespace AndroidResources.Path

variable {p q : Path}

/-- What stands in front of the names: a root, a dot or nothing. -/
def leadingComponent (p : Path) : List Component :=
  if p.isAbsolute then [.root]
  else if p.segments.head? = some ".".toList then [.current]
  else []

theorem leadingComponent_cases (p : Path) :
    p.leadingComponent = [] ∨ p.leadingComponent = [.root] ∨ p.leadingComponent = [.current] := by
  unfold leadingComponent
  split
  · exact .inr (.inl rfl)
  · split
    · exact .inr (.inr rfl)
    · exact .inl rfl

/-- A path is a root or a dot, if it has one, and what its segments stand for. -/
theorem components_eq_append (p : Path) :
    p.components = p.leadingComponent ++ p.segments.filterMap component? := by
  obtain ⟨first, rest, hsegments⟩ := List.exists_cons_of_ne_nil p.segments_ne_nil
  unfold components leadingComponent
  rw [hsegments]
  simp only [List.head?_cons, Option.some.injEq]
  by_cases habsolute : p.isAbsolute = true
  · obtain ⟨second, others, heq⟩ := (isAbsolute_iff p).1 habsolute
    obtain rfl : first = [] := by
      rw [hsegments] at heq
      exact (List.cons.inj heq).1
    rw [if_pos habsolute, if_pos habsolute, List.filterMap_cons_none rfl]
  · rw [if_neg habsolute, if_neg habsolute]
    by_cases hdot : first = ".".toList
    · rw [if_pos hdot, if_pos hdot, hdot, List.filterMap_cons_none (by decide)]
    · rw [if_neg hdot, if_neg hdot, List.nil_append]
      cases hc : component? first with
      | none => rw [List.filterMap_cons_none hc, Option.toList_none, List.nil_append]
      | some step => rw [List.filterMap_cons_some hc, Option.toList_some, List.singleton_append]

theorem components_eq (h : "..".toList ∉ p.segments) :
    p.components = p.leadingComponent ++ (properNames p.segments).map .normal := by
  rw [components_eq_append, List.append_cancel_left_eq]
  generalize p.segments = segments at h
  induction segments with
  | nil => rfl
  | cons segment rest ih =>
    rw [List.mem_cons, not_or] at h
    cases hidle : isIdle segment with
    | true =>
      have hnone : component? segment = none := if_pos hidle
      rw [List.filterMap_cons_none hnone, properNames_cons_idle hidle, ih h.2]
    | false =>
      have hsome : component? segment = some (.normal segment) := by
        unfold component?
        rw [if_neg (by simp [hidle]), if_neg (Ne.symm h.1)]
      rw [List.filterMap_cons_some hsome, properNames_cons_name hidle, List.map_cons, ih h.2]

theorem isName_of_mem_components {name : Text} (h : Component.normal name ∈ p.components) :
    IsName name := by
  rw [components_eq_append, List.mem_append] at h
  have hlead : Component.normal name ∉ p.leadingComponent := by
    obtain hlead | hlead | hlead := p.leadingComponent_cases <;> simp [hlead]
  obtain ⟨segment, hsegment, hcomponent⟩ := List.mem_filterMap.1 (h.resolve_left hlead)
  unfold component? at hcomponent
  split at hcomponent
  · cases hcomponent
  · next hidle =>
    split at hcomponent
    · cases hcomponent
    · next hup =>
      cases hcomponent
      exact isName_of_not_idle (by simpa using hidle) hup (slash_not_mem_segment hsegment)

theorem isName_of_fileName? {name : Text} (h : p.fileName? = some name) : IsName name := by
  apply isName_of_mem_components (p := p)
  unfold fileName? at h
  split at h
  · next last hlast =>
    cases h
    exact List.mem_of_getLast? hlast
  · cases h

theorem isName_of_stripBase? {names : List Text} (h : stripBase? p q = some (names.map .normal)) :
    ∀ name ∈ names, IsName name := by
  intro name hname
  apply isName_of_mem_components (p := q)
  unfold stripBase? at h
  rw [List.isPrefixOf?_eq_some_iff_append_eq] at h
  rw [← h]
  exact List.mem_append_right _ (List.mem_map_of_mem hname)

theorem fileName?_eq (h : "..".toList ∉ p.segments) :
    p.fileName? = (properNames p.segments).getLast? := by
  unfold fileName?
  rw [components_eq h, List.getLast?_append, List.getLast?_map]
  cases hlast : (properNames p.segments).getLast? with
  | some name => rfl
  | none => obtain h | h | h := p.leadingComponent_cases <;> rw [h] <;> rfl

theorem isAbsolute_eq_of_leadingComponent (h : p.leadingComponent = q.leadingComponent) :
    p.isAbsolute = q.isAbsolute := by
  unfold leadingComponent at h
  cases hp : p.isAbsolute <;> cases hq : q.isAbsolute
  · rfl
  · rw [hp, hq] at h
    simp only [Bool.false_eq_true, if_false, if_true] at h
    split at h <;> cases h
  · rw [hp, hq] at h
    simp only [Bool.false_eq_true, if_false, if_true] at h
    split at h <;> cases h
  · rfl

/-- What is below a base with a name is read from the same directory and has the names of the base
in front. -/
theorem stripBase?_eq_some {steps : List Component} (hp : "..".toList ∉ p.segments)
    (hq : "..".toList ∉ q.segments) (hname : properNames p.segments ≠ [])
    (h : stripBase? p q = some steps) :
    q.isAbsolute = p.isAbsolute ∧ ∃ names, steps = names.map .normal ∧
      properNames q.segments = properNames p.segments ++ names := by
  have happ := (List.isPrefixOf?_eq_some_iff_append_eq.1 h).symm
  rw [components_eq hp, components_eq hq, List.append_assoc] at happ
  obtain ⟨name, others, hnames⟩ := List.exists_cons_of_ne_nil hname
  have hsame : p.leadingComponent = q.leadingComponent := by
    rw [hnames, List.map_cons, List.cons_append] at happ
    obtain hl | hl | hl := p.leadingComponent_cases <;>
      obtain hl' | hl' | hl' := q.leadingComponent_cases <;> rw [hl, hl'] at happ ⊢
    all_goals
      try cases hn : properNames q.segments with
      | nil => rw [hn] at happ; cases happ
      | cons n ns => rw [hn] at happ; cases happ
  refine ⟨(isAbsolute_eq_of_leadingComponent hsame).symm, ?_⟩
  rw [hsame, List.append_cancel_left_eq] at happ
  obtain ⟨front, names, hsplit, hfront, hsteps⟩ := List.map_eq_append_iff.1 happ
  have hinj : Function.Injective Component.normal := fun a b hab => Component.normal.inj hab
  exact ⟨names, hsteps.symm, by rw [hsplit, hinj.list_map hfront]⟩

/-! ## Names as a path -/

theorem segments_ofNames {names : List Text} (h : ∀ name ∈ names, IsName name) (hne : names ≠ []) :
    (ofNames names).segments = names :=
  segments_mk (fun name hname => (h name hname).2.2.2) hne

theorem isAbsolute_ofNames {names : List Text} (h : ∀ name ∈ names, IsName name) :
    (ofNames names).isAbsolute = false := by
  rw [Bool.eq_false_iff, Ne, isAbsolute_iff]
  rintro ⟨second, rest, hsegments⟩
  by_cases hne : names = []
  · rw [hne] at hsegments
    cases hsegments
  · rw [segments_ofNames h hne] at hsegments
    exact (h [] (by rw [hsegments]; exact List.mem_cons_self ..)).1 rfl

theorem ofNames_concat {names : List Text} {name : Text} (h : ∀ n ∈ names, IsName n)
    (hname : IsName name) : ofNames (names ++ [name]) = (ofNames names).join ⟨name⟩ := by
  have hone : ∀ n ∈ [name], IsName n := by simpa using hname
  have hall : ∀ n ∈ names ++ [name], IsName n := by
    simpa [or_imp, forall_and] using ⟨h, hname⟩
  have hsegments : (ofNames [name]).segments = [name] := segments_ofNames hone (by simp)
  have hlead : (ofNames names).leadingSegments = names := by
    by_cases hne : names = []
    · rw [hne]
      rfl
    · rw [leadingSegments_of_getLast?, segments_ofNames h hne]
      rw [segments_ofNames h hne]
      exact fun hlast => (h [] (List.mem_of_getLast? hlast)).1 rfl
  have hmk : ofNames [name] = ⟨name⟩ := by simp [ofNames]
  rw [← hmk]
  apply eq_of_segments_eq
  rw [segments_join _ (isAbsolute_ofNames hone), segments_ofNames hall (by simp), hlead, hsegments]

theorem ofComponents_normal {names : List Text} (h : ∀ name ∈ names, IsName name) :
    ofComponents (names.map .normal) = ofNames names := by
  unfold ofComponents
  induction names using List.reverseRecOn with
  | nil => rfl
  | append_singleton names name ih =>
    rw [List.map_append, List.foldl_append, ih fun n hn => h n (by simp [hn])]
    exact (ofNames_concat (fun n hn => h n (by simp [hn])) (h name (by simp))).symm

/-- What is below a base is the relative path of the names behind those of the base. -/
theorem exists_ofNames_of_stripBase? {steps : List Component} (hp : "..".toList ∉ p.segments)
    (hq : "..".toList ∉ q.segments) (hname : properNames p.segments ≠ [])
    (h : stripBase? p q = some steps) :
    q.isAbsolute = p.isAbsolute ∧ ∃ names, ofComponents steps = .ofNames names ∧
      (∀ name ∈ names, IsName name) ∧
      properNames q.segments = properNames p.segments ++ names := by
  obtain ⟨habsolute, names, rfl, hnames⟩ := stripBase?_eq_some hp hq hname h
  have hisName : ∀ name ∈ names, IsName name := fun name hmem =>
    isName_of_mem_properNames (fun _ => slash_not_mem_segment) hq
      (by rw [hnames]; exact List.mem_append_right _ hmem)
  exact ⟨habsolute, names, ofComponents_normal hisName, hisName, hnames⟩

end AndroidResources.Path
