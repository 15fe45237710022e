import AndroidResources.Merge.DeclaredOutputs
import AndroidResources.Proofs.FileSystem.Spelling
import AndroidResources.Proofs.Merge.Outcome

/-!
# The directory of declared outputs

* `commonSteps_join` : what outputs below a base have in common begins with the base;
* `ResourceMerge.Merged.of_components` : a merge into a directory is one into each of its spellings;
* `outputDirectory_join` : outputs in the `res` and `assets` of a base are merged into that base,
  if no step of the base is itself called so (`outputDirectory_nested`).
-/

namespace AndroidResources

open FileSystem

def InMergeRoot (r : Path) : Prop :=
  r.components.head?.any isMergeRoot = true

instance (r : Path) : Decidable (InMergeRoot r) :=
  inferInstanceAs (Decidable (_ = _))

variable {base r : Path} {rs : List Path}

theorem InMergeRoot.exists_cons (h : InMergeRoot r) :
    ∃ name rest, r.components = .normal name :: rest ∧ isMergeRoot (.normal name) = true := by
  unfold InMergeRoot at h
  cases hsteps : r.components with
  | nil =>
    rw [hsteps] at h
    cases h
  | cons step rest =>
    rw [hsteps] at h
    replace h : isMergeRoot step = true := h
    cases step with
    | normal name => exact ⟨name, rest, rfl, h⟩
    | root => cases h
    | current => cases h
    | parent => cases h

theorem InMergeRoot.leadingComponent (h : InMergeRoot r) : r.leadingComponent = [] := by
  obtain ⟨name, rest, hsteps, -⟩ := h.exists_cons
  exact Path.leadingComponent_of_normal (by rw [hsteps]; rfl)

theorem InMergeRoot.exists_name (h : InMergeRoot r) :
    ∃ segment ∈ r.segments, Path.isIdle segment = false := by
  obtain ⟨name, rest, hsteps, -⟩ := h.exists_cons
  have hnames : name ∈ Path.properNames r.segments := by
    rw [Path.properNames_eq, hsteps]
    exact List.mem_cons_self ..
  unfold Path.properNames at hnames
  rw [List.mem_filter] at hnames
  exact ⟨name, hnames.1, by simpa using hnames.2⟩

/-! ## What outputs have in common -/

theorem sharedSteps_append (front a b : List Path.Component) :
    sharedSteps (front ++ a) (front ++ b) = front ++ sharedSteps a b := by
  induction front with
  | nil => rfl
  | cons step rest ih => rw [List.cons_append, List.cons_append, sharedSteps, if_pos rfl, ih]; rfl

theorem prefix_sharedSteps (a b : List Path.Component) : sharedSteps a b <+: a := by
  induction a generalizing b with
  | nil => exact List.prefix_rfl
  | cons step rest ih =>
    cases b with
    | nil => exact List.nil_prefix
    | cons step' rest' =>
      rw [sharedSteps]
      split
      · exact (List.prefix_cons_inj step).2 (ih rest')
      · exact List.nil_prefix

/-- What outputs below a base have in common begins with the steps of the base; behind these, all
of them begin in the same way. -/
theorem commonSteps_join (base : Path) (hrs : ∀ q ∈ r :: rs, q.leadingComponent = []) :
    ∃ more, commonSteps ((r :: rs).map base.join) = base.components ++ more ∧
      more <+: r.components := by
  rw [List.map_cons, commonSteps, Path.components_join base (hrs r (List.mem_cons_self ..))]
  have key : ∀ more, more <+: r.components → ∃ more', more' <+: r.components ∧
      (rs.map base.join).foldl (fun common q => sharedSteps common q.components)
        (base.components ++ more) = base.components ++ more' := by
    induction rs with
    | nil => exact fun more hmore => ⟨more, hmore, rfl⟩
    | cons q rest ih =>
      intro more hmore
      rw [List.map_cons, List.foldl_cons, Path.components_join base (hrs q (by simp)),
        sharedSteps_append]
      refine ih (fun p hp => hrs p ?_) _ ((prefix_sharedSteps more _).trans hmore)
      rcases List.mem_cons.1 hp with rfl | hp <;> simp [*]
  obtain ⟨more, hmore, heq⟩ := key r.components List.prefix_rfl
  exact ⟨more, heq, hmore⟩

/-- The directory of outputs below a base is the shortest spelling of the base. What they have in
common either goes on into a merge root, and is cut there, or ends with the base. -/
theorem outputDirectory?_eq (hbase : base.components.any isMergeRoot = false) (hne : rs ≠ [])
    (hrs : ∀ r ∈ rs, InMergeRoot r) :
    outputDirectory? (rs.map base.join) = some (.ofComponents base.components) := by
  obtain ⟨r, rest, rfl⟩ := List.exists_cons_of_ne_nil hne
  obtain ⟨more, hcommon, hmore⟩ :=
    commonSteps_join base fun q hq => (hrs q hq).leadingComponent
  have hnot : ∀ step ∈ base.components, (!isMergeRoot step) = true := fun step hstep => by
    simpa using List.any_eq_false.1 hbase step hstep
  obtain ⟨name, steps, hsteps, hroot⟩ := (hrs r (List.mem_cons_self ..)).exists_cons
  unfold outputDirectory?
  rw [if_neg (by simp)]
  simp only [hcommon, List.any_append, hbase, Bool.false_or]
  cases more with
  | nil =>
    rw [if_neg (by simp), List.append_nil, if_neg]
    rw [Bool.not_eq_true, List.any_eq_false]
    intro p hp
    obtain ⟨q, hq, rfl⟩ := List.mem_map.1 hp
    obtain ⟨name', steps', hsteps', -⟩ := (hrs q hq).exists_cons
    rw [Path.components_join base (hrs q hq).leadingComponent, hsteps']
    simp
  | cons step rest' =>
    rw [hsteps, List.cons_prefix_cons] at hmore
    obtain ⟨rfl, -⟩ := hmore
    rw [if_pos (by simp [hroot]), List.takeWhile_append_of_pos hnot,
      List.takeWhile_cons_of_neg (by simp [hroot]), List.append_nil]

/-! ## Merging -/

/-- What a merge leaves depends only on the steps of the directory. -/
theorem ResourceMerge.Merged.of_components {m : ResourceMerge} {directory : Path}
    {manifest? : Option Path} {plan : MergePlan} {fs removed made after : FileSystem}
    {files : List Text → Option ByteArray} (hsteps : directory.components = base.components)
    (h : m.Merged directory manifest? plan fs removed made after files) :
    m.Merged base manifest? plan fs removed made after files := by
  have hspelled := fs.spelled_eq_of_components hsteps
  obtain ⟨hmake, hgone, hadds, hsources, hwinners, hholds, hplaced, helsewhere⟩ := h
  rw [hspelled] at hgone hadds hwinners hholds helsewhere
  exact ⟨hmake, hgone, hadds, hsources, hwinners, hholds, hplaced, helsewhere⟩

theorem ResourceMerge.Merged.get?_join {m : ResourceMerge} {manifest? : Option Path}
    {plan : MergePlan} {fs removed made after : FileSystem} {files : List Text → Option ByteArray}
    {place : List Text} {source : Path}
    (h : m.Merged base manifest? plan fs removed made after files)
    (hplace : r.components = place.map .normal) (hne : place ≠ [])
    (hwinner : plan.winners.get? place = some source)
    (hmanifest : ∀ manifest ∈ manifest?, fs.spelled manifest ≠ fs.spelled (base.join r)) :
    ∃ bytes, removed.readBytes source = .ok bytes ∧
      after.get? (fs.spelled (base.join r)) = some (.file bytes) := by
  obtain ⟨bytes, hread⟩ := h.sources place source hwinner
  have hspelled := fs.spelled_join (p := base) hplace hne
  refine ⟨bytes, hread, ?_⟩
  rw [hspelled] at hmanifest ⊢
  rw [h.holds.file, h.winners place fun manifest hmem => (hmanifest manifest hmem).symm]
  unfold MergePlan.content
  rw [hwinner, Option.bind_some, hread]
  rfl

/-- Outputs that are declared in the `res` and `assets` of a base, none of whose steps is called so,
are merged into a directory with the steps of the base. Each output leads to the same place below
both, a merge into the directory leaves what one into the base leaves, and a winner is found at the
output with its names. -/
theorem outputDirectory_join (hbase : base.components.any isMergeRoot = false) (hne : rs ≠ [])
    (hrs : ∀ r ∈ rs, InMergeRoot r) :
    ∃ directory, outputDirectory? (rs.map base.join) = some directory ∧
      directory.components = base.components ∧
      (∀ fs : FileSystem, ∀ r ∈ rs, fs.resolve (directory.join r) = fs.resolve (base.join r)) ∧
      ∀ (m : ResourceMerge) manifest? plan fs removed made after files,
        m.Merged directory manifest? plan fs removed made after files →
        m.Merged base manifest? plan fs removed made after files ∧
        ∀ r ∈ rs, ∀ place source, r.components = place.map .normal →
          plan.winners.get? place = some source →
          (∀ manifest ∈ manifest?, fs.spelled manifest ≠ fs.spelled (base.join r)) →
          ∃ bytes, removed.readBytes source = .ok bytes ∧
            after.get? (fs.spelled (base.join r)) = some (.file bytes) := by
  have hsteps := Path.components_ofComponents base
  refine ⟨_, outputDirectory?_eq hbase hne hrs, hsteps, fun fs r hr => ?_, ?_⟩
  · exact fs.resolve_join_congr hsteps (hrs r hr).leadingComponent (hrs r hr).exists_name
  · intro m manifest? plan fs removed made after files hmerged
    refine ⟨hmerged.of_components hsteps, fun r hr place source hplace hwinner hmanifest => ?_⟩
    refine (hmerged.of_components hsteps).get?_join hplace ?_ hwinner hmanifest
    rintro rfl
    obtain ⟨name, rest, hsteps, -⟩ := (hrs r hr).exists_cons
    rw [hplace] at hsteps
    cases hsteps

/-- Resources and assets of a base that is not spelled in the shortest way. -/
theorem outputDirectory_join_app :
    ∃ directory, outputDirectory? (["res/values/a.xml", "assets/b"].map (Path.join "./bin//app/")) =
        some directory ∧ directory.components = [.current, .normal "bin", .normal "app"] :=
  have hbase : (Path.components "./bin//app/").any isMergeRoot = false := by decide
  have hne : (["res/values/a.xml", "assets/b"] : List Path) ≠ [] := by decide
  have ⟨directory, heq, hsteps, _⟩ := outputDirectory_join hbase hne (by decide)
  ⟨directory, heq, hsteps.trans (by decide)⟩

/-- A base in a directory called `res` is cut before that directory. -/
theorem outputDirectory_nested :
    InMergeRoot "res/values/a.xml" ∧
      ¬ ∃ directory, outputDirectory? [Path.join "a/res/b" "res/values/a.xml"] = some directory ∧
        directory.components = Path.components "a/res/b" := by
  refine ⟨by decide, ?_⟩
  rintro ⟨directory, heq, hsteps⟩
  have hcut : outputDirectory? [Path.join "a/res/b" "res/values/a.xml"] = some "a" := by decide
  rw [hcut] at heq
  cases heq
  revert hsteps
  decide

end AndroidResources
