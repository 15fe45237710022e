import AndroidResources.Proofs.Merge.Copying

/-!
# The stages of a merge

* `runWith` : the merge with any way to put the staged output and the staged manifest in place;
* `withMerger` : the merge with another collaborator;
* `Prepared`, `Staged` : a temporary directory beside the output, before and after the winners have
  been copied into it;
* `exists_prepared`, `rebuild_eq_ok` : what a merge does once the old output is gone, and the stage
  that one comes through that succeeds;
* `Opened` : a temporary directory for a manifest that is not below the output;
* `perform_runWith`, `runWith_eq_ok` : the old output goes first.
-/

namespace AndroidResources.ResourceMerge

open FileSystem

/-- The way in which a merge puts what it has staged in place. -/
def move (staged destination : Path) : Action Unit :=
  Action.change destination (·.rename staged destination)

/-- The merged manifest staged, the output published, and the manifest put in place. -/
def stageManifest (m : ResourceMerge) (output staging : Path) (manifest? : Option Path)
    (publish : Action Unit) (place : Path → Path → Action Unit) : Action Unit :=
  match manifest? with
  | none => publish
  | some manifest =>
    match Path.stripBase? output manifest with
    | some steps => do
      mergeManifests m.merger m.kind m.sets (staging.join (.ofComponents steps))
      publish
    | none => do
      Action.createDirectories (stagingParent manifest)
      withTemporary (stagingParent manifest) manifest (m.mentioned output (some manifest))
        fun dir => do
          let staged := dir.join ⟨manifest.fileName?.getD defaultManifestName⟩
          mergeManifests m.merger m.kind m.sets staged
          publish
          place staged manifest

def rebuild (m : ResourceMerge) (output : Path) (manifest? : Option Path)
    (publish place : Path → Path → Action Unit) : Action MergeReport := do
  let plan ← Action.inspect (MergePlan.make · m.config m.sets)
  Action.createDirectories (stagingParent output)
  withTemporary (stagingParent output) output (m.mentioned output manifest?) fun staging => do
    copyWinners plan.winners.toList staging
    m.stageManifest output staging manifest? (publish staging output) place
  return ⟨plan.winners.size, plan.overridden.keys.map .ofNames⟩

/-- The merge with other ways to put the staged output and the staged manifest in place. -/
def runWith (m : ResourceMerge) (output : Path) (manifest? : Option Path)
    (publish place : Path → Path → Action Unit) : Action MergeReport := do
  if ← Action.ask (·.pathExists output) then
    Action.changePartly output (·.removeTree output)
  m.rebuild output manifest? publish place

theorem run_eq_runWith (m : ResourceMerge) (output : Path) (manifest? : Option Path) :
    m.run (some output) manifest? = m.runWith output manifest? move move := by
  rfl

def withMerger (m : ResourceMerge) (merger : ManifestMerger) : ResourceMerge :=
  { m with merger := merger }

section

variable (m : ResourceMerge) (merger : ManifestMerger)

@[simp] theorem withMerger_config : (m.withMerger merger).config = m.config := rfl

@[simp] theorem withMerger_merger : (m.withMerger merger).merger = merger := rfl

@[simp] theorem withMerger_kind : (m.withMerger merger).kind = m.kind := rfl

@[simp] theorem withMerger_sets : (m.withMerger merger).sets = m.sets := rfl

@[simp] theorem withMerger_mentioned : (m.withMerger merger).mentioned = m.mentioned := rfl

end

def withoutOutput (fs : FileSystem) (output : Path) : FileSystem :=
  if fs.pathExists output then (fs.removeTree output).1 else fs

/-- The winners of the plan have been copied into a temporary directory beside the output. -/
structure Staged (m : ResourceMerge) (output : Path) (manifest? : Option Path) (plan : MergePlan)
    (removed made staged : FileSystem) (l : Location) (name : Text) : Prop where
  make : MergePlan.make removed m.config m.sets = .ok plan
  createDirectories : removed.createDirectories (stagingParent output) = (made, none)
  unmentioned : ∀ p ∈ m.mentioned output manifest?, name ∉ p.segments
  unused : ∀ k e, made.get? k = some e → name ∉ k
  temporary : Temporary (· ≠ name) staged (stagingParent output) l name
  besides : Besides (l ++ [name]) made staged
  holds : staged.Holds (l ++ [name]) (plan.content removed)

variable {m : ResourceMerge} {output : Path} {manifest? : Option Path} {fs : FileSystem}
  {calls : List ManifestCall} {report : MergeReport} {after : BuildState}
  {publish place : Path → Path → Action Unit}

theorem output_mem_mentioned (m : ResourceMerge) (output : Path) (manifest? : Option Path) :
    output ∈ m.mentioned output manifest? :=
  List.mem_cons_self ..

theorem manifest_mem_mentioned {manifest : Path} (h : manifest ∈ manifest?) :
    manifest ∈ m.mentioned output manifest? :=
  List.mem_cons_of_mem _ (List.mem_append_left _ (Option.mem_toList.2 h))

theorem mem_mentioned_of_directory {root : MergeRoot} {dir : Path}
    (h : (root, dir) ∈ SourceSet.directories m.sets) : dir ∈ m.mentioned output manifest? := by
  unfold SourceSet.directories at h
  obtain ⟨set, hset, hdir⟩ := List.mem_flatMap.1 h
  refine List.mem_append_right _ (List.mem_flatMap.2 ⟨set, hset, ?_⟩)
  rcases List.mem_append.1 hdir with hdir | hdir
  · obtain ⟨dir', hdir', heq⟩ := List.mem_map.1 hdir
    cases heq
    simp [hdir']
  · obtain ⟨dir', hdir', heq⟩ := List.mem_map.1 hdir
    cases heq
    simp [hdir']

theorem freshName_ne_root (fs : FileSystem) (mentioned : List Path) (root : MergeRoot) :
    fs.freshName mentioned ≠ root.name := by
  intro heq
  have hhead : (fs.freshName mentioned).head? = some '.' := rfl
  rw [heq] at hhead
  cases root <;> cases hhead

theorem content_of_adds {plan : MergePlan} {removed made : FileSystem} {sets : List SourceSet}
    {config : MergeConfig} {P : Location → Prop} (hplan : MergePlan.make removed config sets = .ok plan)
    (hadds : AddsDirectories P removed made) : plan.content made = plan.content removed := by
  funext place
  unfold MergePlan.content
  cases hget : plan.winners.get? place with
  | none => rfl
  | some source =>
    obtain ⟨bytes, hread⟩ := (MergePlan.found_of_make hplan hget).readBytes
    have hread' := readBytes_of_keeps_all (hadds.keeps _) hread
    show (made.readBytes source).toOption = (removed.readBytes source).toOption
    rw [hread, hread']

/-- Neither the places of the winners nor their sources are spelled with a fresh name. -/
theorem winners_spelled {plan : MergePlan} {removed made : FileSystem} {P : Location → Prop}
    (hplan : MergePlan.make removed m.config m.sets = .ok plan)
    (hadds : AddsDirectories P removed made) (output : Path) (manifest? : Option Path) :
    ∀ winner ∈ plan.winners.toList, winner.1 ≠ [] ∧ (∀ n ∈ winner.1, IsName n) ∧
      ∀ segment ∈ winner.2.segments, segment ≠ made.freshName (m.mentioned output manifest?) := by
  intro winner hmem
  have hfound := MergePlan.found_of_make hplan (OrderedMap.mem_toList.1 hmem)
  refine ⟨hfound.ne_nil, hfound.isName, ?_⟩
  rintro segment hsegment rfl
  refine hfound.not_mem_segments ?_ ?_ ?_ hsegment
  · exact fun root => freshName_ne_root made _ root
  · exact fun root dir hdir => freshName_not_mem_segments made (mem_mentioned_of_directory hdir)
  · exact fun k e hget => freshName_not_mem_location _ (hadds.get?_of_some hget)

/-- A path below another has the names of that one in front of its own. -/
theorem exists_of_stripBase? {p q : Path} {steps : List Path.Component} (hp : fs.Direct p)
    (hq : fs.Direct q) (hnames : Path.properNames p.segments ≠ [])
    (hstrip : Path.stripBase? p q = some steps) :
    ∃ rest, Path.ofComponents steps = .ofNames rest ∧ (∀ n ∈ rest, IsName n) ∧
      fs.spelled q = fs.spelled p ++ rest := by
  obtain ⟨habsolute, rest, hpath, hisName, hrest⟩ :=
    Path.exists_ofNames_of_stripBase? hp.noParent hq.noParent hnames hstrip
  refine ⟨rest, hpath, hisName, ?_⟩
  unfold spelled origin
  rw [habsolute, hrest, List.append_assoc]

/-- There is a new temporary directory beside the output, with nothing in it. -/
structure Prepared (m : ResourceMerge) (output : Path) (manifest? : Option Path) (plan : MergePlan)
    (removed made opened : FileSystem) (l : Location) (name : Text) : Prop where
  make : MergePlan.make removed m.config m.sets = .ok plan
  createDirectories : removed.createDirectories (stagingParent output) = (made, none)
  fresh : name = made.freshName (m.mentioned output manifest?)
  temporary : Temporary (· ≠ name) opened (stagingParent output) l name
  vacant : made.get? (l ++ [name]) = none
  besides : Besides (l ++ [name]) made opened
  holds : opened.Holds (l ++ [name]) fun _ => none

theorem Prepared.staged {plan : MergePlan} {removed made opened : FileSystem} {l : Location}
    {name : Text} {t : BuildState}
    (h : m.Prepared output manifest? plan removed made opened l name)
    (hcopy : (copyWinners plan.winners.toList ((stagingParent output).join ⟨name⟩)).perform
      ⟨opened, calls⟩ = (.ok (), t)) :
    t.calls = calls ∧ m.Staged output manifest? plan removed made t.files l name := by
  have hadds := createDirectories_adds h.createDirectories
  have hwinners := winners_spelled h.make hadds output manifest?
  rw [← h.fresh] at hwinners
  obtain ⟨hcalls, hstaged, hholds⟩ :=
    copyWinners_holds h.temporary h.holds h.besides hwinners hcopy
  rw [overwrite_perm (.refl _), content_of_adds h.make hadds] at hholds
  exact ⟨hcalls, h.make, h.createDirectories,
    fun p hp => h.fresh ▸ freshName_not_mem_segments made hp,
    fun k e hget => h.fresh ▸ freshName_not_mem_location _ hget,
    h.temporary.of_besides (h.besides.symm.trans hstaged), hstaged, hholds⟩

/-- Once the directories above the output are there, a new temporary directory is made, and the
winners are copied into it, whatever merger there is. -/
theorem exists_prepared {plan : MergePlan} {removed made : FileSystem}
    (hmake : MergePlan.make removed m.config m.sets = .ok plan)
    (hcreate : removed.createDirectories (stagingParent output) = (made, none))
    (manifest? : Option Path) (calls : List ManifestCall) :
    ∃ opened l name, m.Prepared output manifest? plan removed made opened l name ∧
      ∀ merger publish place,
        ((m.withMerger merger).rebuild output manifest? publish place).perform ⟨removed, calls⟩ =
        (((copyWinners plan.winners.toList ((stagingParent output).join ⟨name⟩) >>= fun _ =>
            (m.withMerger merger).stageManifest output ((stagingParent output).join ⟨name⟩)
              manifest? (publish ((stagingParent output).join ⟨name⟩) output) place).thenAlways
                fun fs => (fs.removeTree ((stagingParent output).join ⟨name⟩)).1) >>= fun _ =>
          pure ⟨plan.winners.size, plan.overridden.keys.map .ofNames⟩).perform ⟨opened, calls⟩ := by
  obtain ⟨name, hname⟩ : ∃ name, name = made.freshName (m.mentioned output manifest?) := ⟨_, rfl⟩
  have hparent : name ∉ (stagingParent output).segments :=
    not_mem_segments_stagingParent (hname ▸ isName_freshName made _)
      (hname ▸ freshName_not_mem_segments made (m.output_mem_mentioned ..))
  obtain ⟨l, opened, htemp, hsame, hnone, hempty, hperform⟩ :=
    withTemporary_fresh (s := ⟨made, calls⟩) hname
      (isDirectory_of_createDirectories (text_stagingParent output) hcreate) hparent
  refine ⟨opened, l, name, ⟨hmake, hcreate, hname, htemp, hnone, hsame, hempty⟩,
    fun merger publish place => ?_⟩
  unfold rebuild
  rw [Action.perform_bind, Action.perform_inspect]
  simp only [withMerger_config, withMerger_sets, withMerger_mentioned, hmake]
  rw [Action.perform_bind, Action.perform_createDirectories]
  simp only [hcreate]
  rw [Action.perform_bind, hperform, ← Action.perform_bind]

theorem rebuild_eq_ok {removed : FileSystem}
    (h : (m.rebuild output manifest? publish place).perform ⟨removed, calls⟩ =
      (.ok report, after)) :
    ∃ plan made staged l name t, m.Staged output manifest? plan removed made staged l name ∧
      report = ⟨plan.winners.size, plan.overridden.keys.map .ofNames⟩ ∧
      (m.stageManifest output ((stagingParent output).join ⟨name⟩) manifest?
        (publish ((stagingParent output).join ⟨name⟩) output) place).perform ⟨staged, calls⟩ =
          (.ok (), t) ∧
      after = { t with files := (t.files.removeTree ((stagingParent output).join ⟨name⟩)).1 } := by
  obtain ⟨plan, s, hplan, hrest⟩ := Action.bind_eq_ok.1 h
  rw [Action.perform_inspect] at hplan
  obtain ⟨hmake, rfl⟩ := Prod.mk.inj hplan
  obtain ⟨u, s, hcreate, -⟩ := Action.bind_eq_ok.1 hrest
  obtain ⟨made, hmade, rfl⟩ := Action.changePartly_eq_ok.1 hcreate
  obtain ⟨opened, l, name, hprepared, hperform⟩ := exists_prepared hmake hmade manifest? calls
  replace h := (hperform m.merger publish place).symm.trans h
  obtain ⟨u', t', htemporary, h⟩ := Action.bind_eq_ok.1 h
  cases h
  obtain ⟨t, hbody, rfl⟩ := Action.thenAlways_eq.1 htemporary
  obtain ⟨u'', staged, hcopy, hstage⟩ := Action.bind_eq_ok.1 hbody
  obtain ⟨hcalls, hstaged⟩ := hprepared.staged hcopy
  have hstate : staged = ⟨staged.files, calls⟩ := congrArg (BuildState.mk staged.files) hcalls
  rw [hstate] at hstage
  exact ⟨plan, made, staged.files, l, name, t, hstaged, rfl, hstage, rfl⟩

/-- Beside a manifest that is not below the output there is a second temporary directory. -/
structure Opened (m : ResourceMerge) (output manifest : Path) (staged above opened : FileSystem)
    (l : Location) (name : Text) (l' : Location) (name' : Text) : Prop where
  createDirectories : staged.createDirectories (stagingParent manifest) = (above, none)
  unmentioned : ∀ p ∈ m.mentioned output (some manifest), name' ∉ p.segments
  unused : ∀ k e, above.get? k = some e → name' ∉ k
  output : Temporary (fun n => n ≠ name ∧ n ≠ name') opened (stagingParent output) l name
  manifest : Temporary (fun n => n ≠ name ∧ n ≠ name') opened (stagingParent manifest) l' name'
  besides : Besides (l' ++ [name']) above opened
  holds : opened.Holds (l' ++ [name']) fun _ => none

def stagedManifest (manifest : Path) (name : Text) : Path :=
  ((stagingParent manifest).join ⟨name⟩).join ⟨manifest.fileName?.getD defaultManifestName⟩

theorem isName_fileName?_getD (manifest : Path) :
    IsName (manifest.fileName?.getD defaultManifestName) := by
  cases hname : manifest.fileName? with
  | none => exact (by decide : IsName defaultManifestName)
  | some name => exact Path.isName_of_fileName? hname

theorem Opened.leads {manifest : Path} {staged above opened : FileSystem} {l l' : Location}
    {name name' : Text} (h : m.Opened output manifest staged above opened l name l' name') :
    opened.Leads (stagedManifest manifest name') (l' ++ [name'])
      [manifest.fileName?.getD defaultManifestName] :=
  (h.manifest.leads.into h.manifest.isName h.holds.directory_self).child
    (isName_fileName?_getD manifest)

/-- Once the directories above the manifest are there, the second temporary directory can be made,
and all that is done in it starts there. -/
theorem Staged.exists_opened {manifest : Path} {plan : MergePlan}
    {removed made staged above : FileSystem} {l : Location} {name : Text}
    (hstaged : m.Staged output (some manifest) plan removed made staged l name)
    (hcreate : staged.createDirectories (stagingParent manifest) = (above, none))
    (calls : List ManifestCall) :
    ∃ opened l' name', m.Opened output manifest staged above opened l name l' name' ∧
      ∀ {α : Type} (blamed : Path) (body : Path → Action α),
        (withTemporary (stagingParent manifest) blamed (m.mentioned output (some manifest))
            body).perform ⟨above, calls⟩ =
          ((body ((stagingParent manifest).join ⟨name'⟩)).thenAlways fun fs =>
            (fs.removeTree ((stagingParent manifest).join ⟨name'⟩)).1).perform ⟨opened, calls⟩ := by
  obtain ⟨name', hname'⟩ : ∃ name', name' = above.freshName (m.mentioned output (some manifest)) :=
    ⟨_, rfl⟩
  have hunmentioned : ∀ p ∈ m.mentioned output (some manifest), name' ∉ p.segments := fun p hp =>
    hname' ▸ freshName_not_mem_segments above hp
  have hisName : IsName name' := hname' ▸ isName_freshName above _
  have hmentioned : manifest ∈ m.mentioned output (some manifest) := manifest_mem_mentioned rfl
  have hparent : ∀ p ∈ m.mentioned output (some manifest), ∀ segment ∈ (stagingParent p).segments,
      segment ≠ name' := fun p hp segment hsegment => ne_of_mem_of_not_mem hsegment
    (not_mem_segments_stagingParent hisName (hunmentioned p hp))
  have hparent' : ∀ segment ∈ (stagingParent manifest).segments, segment ≠ name :=
    fun segment hsegment => ne_of_mem_of_not_mem hsegment (not_mem_segments_stagingParent
      hstaged.temporary.isName (hstaged.unmentioned manifest hmentioned))
  have hadds := createDirectories_adds hcreate
  have hfirst := hstaged.temporary.of_adds hadds
  obtain ⟨l', opened, htemp, hsame, -, hempty, hperform⟩ :=
    withTemporary_fresh (s := ⟨above, calls⟩) hname'
      (isDirectory_of_createDirectories (text_stagingParent manifest) hcreate)
      (fun hmem => hparent manifest hmentioned _ hmem rfl)
  have hclosed : Closed (fun n => n ≠ name ∧ n ≠ name') above :=
    hfirst.closed.inter (hname' ▸ closed_freshName above _)
  have hfresh : ¬ ∀ n ∈ l' ++ [name'], n ≠ name ∧ n ≠ name' := fun hall =>
    (hall name' (by simp)).2 rfl
  have houtput := (hfirst.inter (hname' ▸ closed_freshName above _)
    (hparent output (m.output_mem_mentioned ..))).of_keeps (hsame.keeps hfresh)
    (hclosed.of_besides hsame hfresh)
  refine ⟨opened, l', name', ⟨hcreate, hunmentioned, ?_, houtput, ?_, hsame, hempty⟩, hperform⟩
  · exact fun k e hget => hname' ▸ freshName_not_mem_location _ hget
  · exact ⟨htemp.isName, fun hname => hname.2 rfl, hclosed.of_besides hsame hfresh,
      fun segment hsegment => ⟨hparent' segment hsegment, hparent manifest hmentioned _ hsegment⟩,
      htemp.leads⟩

/-- A manifest beside the output is written in the second temporary directory before the output is
published, and put in place afterwards. -/
theorem stageManifest_beside {manifest staging : Path} {plan : MergePlan}
    {removed made staged : FileSystem} {l : Location} {name : Text} {publish : Action Unit}
    {t : BuildState} (hstaged : m.Staged output (some manifest) plan removed made staged l name)
    (hstrip : Path.stripBase? output manifest = none)
    (h : (m.stageManifest output staging (some manifest) publish place).perform ⟨staged, calls⟩ =
      (.ok (), t)) :
    ∃ above opened l' name' s₁ s₂ s₃,
      m.Opened output manifest staged above opened l name l' name' ∧
      (mergeManifests m.merger m.kind m.sets (stagedManifest manifest name')).perform
        ⟨opened, calls⟩ = (.ok (), s₁) ∧
      publish.perform s₁ = (.ok (), s₂) ∧
      (place (stagedManifest manifest name') manifest).perform s₂ = (.ok (), s₃) ∧
      t = { s₃ with
        files := (s₃.files.removeTree ((stagingParent manifest).join ⟨name'⟩)).1 } := by
  unfold stageManifest at h
  simp only [hstrip] at h
  obtain ⟨u, s, hcreate, htemporary⟩ := Action.bind_eq_ok.1 h
  obtain ⟨above, habove, rfl⟩ := Action.changePartly_eq_ok.1 hcreate
  obtain ⟨opened, l', name', hopened, hperform⟩ := hstaged.exists_opened habove calls
  rw [hperform] at htemporary
  obtain ⟨t, hbody, rfl⟩ := Action.thenAlways_eq.1 htemporary
  obtain ⟨u', s₁, hmerge, hrest⟩ := Action.bind_eq_ok.1 hbody
  obtain ⟨u'', s₂, hpublish, hplace⟩ := Action.bind_eq_ok.1 hrest
  exact ⟨above, opened, l', name', s₁, s₂, t, hopened, hmerge, hpublish, hplace, rfl⟩

theorem perform_runWith (hremove : fs.pathExists output = true →
    fs.removeTree output = (withoutOutput fs output, none)) :
    (m.runWith output manifest? publish place).perform ⟨fs, calls⟩ =
      (m.rebuild output manifest? publish place).perform ⟨withoutOutput fs output, calls⟩ := by
  unfold runWith
  rw [Action.perform_bind, Action.perform_ask]
  simp only
  split
  · next hexists =>
    rw [Action.perform_bind, Action.perform_changePartly]
    simp only [hremove hexists]
  · next hmissing =>
    rw [withoutOutput, if_neg hmissing]

theorem runWith_eq_ok
    (h : (m.runWith output manifest? publish place).perform ⟨fs, calls⟩ = (.ok report, after)) :
    (withoutOutput fs output).pathExists output = false ∧
      (fs.pathExists output = true → fs.removeTree output = (withoutOutput fs output, none)) ∧
      (m.rebuild output manifest? publish place).perform ⟨withoutOutput fs output, calls⟩ =
        (.ok report, after) := by
  obtain ⟨b, s, hask, h⟩ := Action.bind_eq_ok.1 h
  cases hask
  simp only at h
  split at h
  · next hexists =>
    obtain ⟨u, s, hchange, h⟩ := Action.bind_eq_ok.1 h
    obtain ⟨files, hremove, rfl⟩ := Action.changePartly_eq_ok.1 hchange
    simp only at hremove
    have hfiles : files = withoutOutput fs output := by
      unfold withoutOutput
      rw [if_pos hexists, hremove]
    subst hfiles
    exact ⟨not_pathExists_of_removeTree hremove, fun _ => hremove, h⟩
  · next hmissing =>
    have hfiles : withoutOutput fs output = fs := if_neg hmissing
    rw [hfiles]
    exact ⟨by simpa using hmissing, fun hexists => absurd hexists hmissing, h⟩

end AndroidResources.ResourceMerge
