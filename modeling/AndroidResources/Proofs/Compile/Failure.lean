import AndroidResources.Proofs.Compile.Stages

/-!
# What a compilation leaves that fails

Both trees are ready before the first one is put in place, but the second one may be in the way of a
file then.

* `Staged.moved_closed`, `Staged.moved_holds` : the first tree is in place;
* `Stages`, `Replaces` : a compilation up to the first commit, and up to the second one;
* `failed_of_run` : what is in both outputs after a compilation that fails.
-/

namespace AndroidResources

open FileSystem

namespace CompileRequest

def commitFirst (r _ : StagedTree) : Action Unit := do
  let _ ← r.commit

def commitNone (_ _ : StagedTree) : Action Unit :=
  pure ()

def Stages (request : CompileRequest) (config : Config) (fs : FileSystem) : Prop :=
  ∃ summary, ((request.runWith config commitNone).onFiles fs).1 = .ok summary

/-- All is done up to the second commit. -/
def Replaces (request : CompileRequest) (config : Config) (fs : FileSystem) : Prop :=
  ∃ summary, ((request.runWith config commitFirst).onFiles fs).1 = .ok summary

theorem perform_commitFirst (r stubs : StagedTree) (s : BuildState) :
    (commitFirst r stubs).perform s = ((r.commit.perform s).1.map fun _ => (), (r.commit.perform s).2) :=
  Action.perform_replace _ _ _

theorem perform_commitBoth_of_error {r stubs : StagedTree} {s t : BuildState} {e : BuildError}
    (h : r.commit.perform s = (.error e, t)) : (commitBoth r stubs).perform s = (.error e, t) := by
  unfold commitBoth
  rw [Action.perform_bind, h]

theorem perform_commitBoth_of_ok {r stubs : StagedTree} {s t : BuildState} {files : Nat}
    (h : r.commit.perform s = (.ok files, t)) : (commitBoth r stubs).perform s =
      ((stubs.commit.perform t).1.map fun _ => (), (stubs.commit.perform t).2) := by
  unfold commitBoth
  rw [Action.perform_bind, h]
  exact Action.perform_replace _ _ _

variable {request : CompileRequest} {config : Config} {content : ModuleContent}
  {fs : FileSystem} {s : BuildState} {r stubs scratch : TemporaryPlace}

namespace Staged

section

variable (h : request.Staged config content fs r stubs scratch s.files)

include h

theorem r_reserved : r.Reserved (Short (request.nameLimit fs)) s.files :=
  h.inUse.reserved r (by simp)

theorem stubs_reserved : stubs.Reserved (Short (request.nameLimit fs)) s.files :=
  h.inUse.reserved stubs (by simp)

theorem scratch_reserved : scratch.Reserved (Short (request.nameLimit fs)) s.files :=
  h.inUse.reserved scratch (by simp)

theorem stubs_directory : s.files.get? stubs.directory = some .directory :=
  h.stubs_holds.directory_self

theorem stubs_ne_r : stubs.name ≠ r.name :=
  (List.pairwise_cons.1 h.inUse.distinct).1 r (by simp)

theorem r_ne_scratch : r.name ≠ scratch.name :=
  (List.pairwise_cons.1 (List.pairwise_cons.1 h.inUse.distinct).2).1 scratch (by simp)

theorem scratch_location : scratch.location = [] := by
  have hleads := h.scratch_reserved.temporary.leads
  rw [h.scratch_parent] at hleads
  exact hleads.eq_of_nil (leads_scratchParent _)

theorem get?_short {k : Location} (hk : ∀ n ∈ k, Short (request.nameLimit fs) n) {e : Entry}
    (hget : s.files.get? k = some e) (he : e ≠ .directory) : fs.get? k = some e := by
  obtain heq | ⟨-, -, hdir⟩ := h.inUse.grows.entries k fun ⟨place, hplace, hp⟩ =>
    (h.inUse.reserved place hplace).not_reached hk hp
  · rw [← heq, hget]
  · rw [hget] at hdir
    exact absurd (Option.some.inj hdir) he

theorem not_prefix_directory (hr : fs.OwnName request.rClassOutput)
    (hstubs : fs.OwnName request.stubsOutput)
    (hnested : ¬ Above (fs.spelled request.stubsOutput) (fs.spelled request.rClassOutput)) :
    ∀ place ∈ [stubs, r, scratch], ¬ fs.spelled request.rClassOutput <+: place.directory := by
  intro place hplace
  refine (h.inUse.reserved place hplace).not_below
    (request.spelled_short fs request.rClassOutput_mem_mentioned) fun hp => ?_
  simp only [List.mem_cons, List.not_mem_nil, or_false] at hplace
  rcases hplace with rfl | rfl | rfl
  · rw [h.stubs_location hstubs] at hp
    refine hnested ⟨hp.trans (List.dropLast_prefix _), fun heq => ?_⟩
    rw [heq] at hp
    exact hstubs.not_prefix_dropLast hp
  · rw [h.r_location hr] at hp
    exact hr.not_prefix_dropLast hp
  · rw [h.scratch_location, List.prefix_nil] at hp
    exact hr.spelled_ne_nil hp

theorem commit_r (hr : fs.OwnName request.rClassOutput) (files : Nat) :
    (∃ e bytes, (StagedTree.commit ⟨r.path, request.rClassOutput, files⟩).perform s = (.error e, s) ∧
        s.files.get? (fs.spelled request.rClassOutput) = some (.file bytes)) ∨
      ∃ after, (StagedTree.commit ⟨r.path, request.rClassOutput, files⟩).perform s =
          (.ok files, { s with files := after }) ∧
        Moved r.directory (fs.spelled request.rClassOutput) s.files after := by
  have hmem := request.rClassOutput_mem_mentioned
  have hspelled := spelled_congr h.inUse.grows.origin request.rClassOutput
  have hshort := request.spelled_short fs hmem
  have hlocation := h.r_location hr
  rw [← hspelled] at hshort hlocation ⊢
  obtain hfail | ⟨after, hcommit, hmoved, -⟩ := StagedTree.commit_cases
    (request.ownName_of_inUse h.inUse hmem hr) hshort h.r_reserved h.r_parent hlocation
    h.holds.directory_self files
  · exact .inl hfail
  · exact .inr ⟨after, hcommit, hmoved⟩

/-- Where a file is in the place of the first tree, no directories have been made in the outputs. -/
theorem outside_of_file {bytes : ByteArray}
    (hfile : s.files.get? (fs.spelled request.rClassOutput) = some (.file bytes)) :
    AddsDirectories (request.Outside fs) fs
      (TemporaryPlace.clean [stubs, r, scratch] s.files) := by
  have hshort := request.spelled_short fs request.rClassOutput_mem_mentioned
  refine h.inUse.clean.restrict fun k hk hnone hdir hr hstubs => ⟨fun hp => ?_, fun hp => ?_⟩
  · have hself := get?_directory_upward hp hdir
    rw [(TemporaryPlace.get?_clean h.inUse.removable h.inUse.distinct).2, hfile] at hself
    split at hself <;> cases hself
  · obtain hk | hk := hk
    · -- all above a file is there already
      obtain ⟨⟨rest, hrest⟩, hne⟩ := hk hr
      have hself := h.get?_short hshort hfile (by simp)
      rw [← hrest] at hself hne
      rw [get?_of_append rest (fun hnil => hne (by simp [hnil])) hself] at hnone
      cases hnone
    · obtain ⟨hle, hne⟩ := hk hstubs
      exact hne (hle.eq_of_length_le hp.length_le)

end

/-! ### The first tree in place -/

section

variable {after : FileSystem} {k : Location}
  (h : request.Staged config content fs r stubs scratch s.files)

include h

theorem scratch_stays (hclosed : Closed (Short (request.nameLimit fs)) after)
    (hget : after.get? scratch.directory = s.files.get? scratch.directory) :
    scratch.Reserved (Short (request.nameLimit fs)) after := by
  have htemp := h.scratch_reserved.temporary
  refine ⟨⟨htemp.isName, htemp.hidden, hclosed, htemp.spelled, ?_⟩, ?_⟩
  · rw [h.scratch_parent, h.scratch_location]
    exact leads_scratchParent after
  · rw [hget]
    exact h.scratch_reserved.free

variable (hmoved : Moved r.directory k s.files after)

include hmoved

theorem moved_origin : after.workingDirectory = fs.workingDirectory :=
  hmoved.origin.trans h.inUse.grows.origin

theorem moved_get?_link {m : Location} (hm : ∀ n ∈ m, Short (request.nameLimit fs) n) {target : Path}
    (hget : after.get? m = some (.link target)) : fs.get? m = some (.link target) := by
  by_cases hp : k <+: m
  · obtain ⟨names, rfl⟩ := hp
    rw [hmoved.inside] at hget
    exact absurd hget (h.holds.noLink names target)
  · rw [hmoved.outside m hp (h.r_reserved.not_reached hm)] at hget
    exact h.get?_short hm hget (by simp)

theorem moved_closed : Closed (Short (request.nameLimit fs)) after :=
  h.r_reserved.temporary.closed.of_moved hmoved h.r_reserved.temporary.not_spelled h.holds

theorem moved_ownName {p : Path} (hp : p ∈ request.mentioned) (hown : fs.OwnName p) :
    after.OwnName p :=
  hown.of_links (h.moved_origin hmoved) fun _ _ hk =>
    h.moved_get?_link hmoved fun n hn => request.spelled_short fs hp n (hk.subset hn)

end

section

variable {after : FileSystem} (h : request.Staged config content fs r stubs scratch s.files)
  (hmoved : Moved r.directory (fs.spelled request.rClassOutput) s.files after)

include h hmoved

theorem moved_directory : after.get? (fs.spelled request.rClassOutput) = some .directory := by
  have hself := hmoved.inside []
  rw [List.append_nil, List.append_nil, h.holds.directory_self] at hself
  exact hself

theorem moved_r (hr : fs.OwnName request.rClassOutput) :
    r.Reserved (Short (request.nameLimit fs)) after := by
  have hmem := request.rClassOutput_mem_mentioned
  have hleads := (h.moved_ownName hmoved hmem hr).leads_stagingParent
  rw [spelled_congr (h.moved_origin hmoved), ← h.r_parent, ← h.r_location hr] at hleads
  have htemp := h.r_reserved.temporary
  refine ⟨⟨htemp.isName, htemp.hidden, h.moved_closed hmoved, htemp.spelled, hleads ?_⟩,
    .inr (hmoved.gone _ ?_ (List.prefix_refl _))⟩
  · have hdir := h.moved_directory hmoved
    rw [← List.dropLast_append_getLast hr.spelled_ne_nil] at hdir
    rw [h.r_location hr]
    exact get?_of_append _ (by simp) hdir
  · refine h.r_reserved.not_below (request.spelled_short fs hmem) fun hp => ?_
    rw [h.r_location hr] at hp
    exact hr.not_prefix_dropLast hp

/-- A file in the place of the second tree was there from the start. -/
theorem moved_file {bytes : ByteArray}
    (hnested : ¬ Above (fs.spelled request.stubsOutput) (fs.spelled request.rClassOutput))
    (hfile : after.get? (fs.spelled request.stubsOutput) = some (.file bytes)) :
    s.files.get? (fs.spelled request.stubsOutput) = some (.file bytes) := by
  have hshort := request.spelled_short fs request.stubsOutput_mem_mentioned
  rw [hmoved.outside _ _ (h.r_reserved.not_reached hshort)] at hfile
  · exact hfile
  · intro hp
    by_cases heq : fs.spelled request.rClassOutput = fs.spelled request.stubsOutput
    · rw [← heq, h.moved_directory hmoved] at hfile
      cases hfile
    · exact hnested ⟨hp, heq⟩

variable (hr : fs.OwnName request.rClassOutput) (hstubs : fs.OwnName request.stubsOutput)
  (hnested : ¬ Above (fs.spelled request.stubsOutput) (fs.spelled request.rClassOutput))

include hr hstubs hnested

theorem moved_get? {place : TemporaryPlace} (hplace : place ∈ [stubs, r, scratch])
    (hne : r.name ≠ place.name) : after.get? place.directory = s.files.get? place.directory :=
  hmoved.outside _ (h.not_prefix_directory hr hstubs hnested place hplace)
    (h.r_reserved.apart (h.inUse.reserved place hplace) hne)

theorem moved_scratch : scratch.Reserved (Short (request.nameLimit fs)) after :=
  h.scratch_stays (h.moved_closed hmoved)
    (h.moved_get? hmoved hr hstubs hnested (by simp) h.r_ne_scratch)

theorem moved_stubs_directory : after.get? stubs.directory = some .directory := by
  rw [h.moved_get? hmoved hr hstubs hnested (by simp) h.stubs_ne_r.symm]
  exact h.stubs_directory

theorem moved_stubs : stubs.Reserved (Short (request.nameLimit fs)) after := by
  have hdir := h.moved_stubs_directory hmoved hr hstubs hnested
  have hleads := (h.moved_ownName hmoved request.stubsOutput_mem_mentioned hstubs).leads_stagingParent
  rw [spelled_congr (h.moved_origin hmoved), ← h.stubs_parent, ← h.stubs_location hstubs] at hleads
  have htemp := h.stubs_reserved.temporary
  exact ⟨⟨htemp.isName, htemp.hidden, h.moved_closed hmoved, htemp.spelled,
    hleads (get?_of_append _ (by simp) hdir)⟩, .inl hdir⟩

theorem moved_removable :
    ∀ place ∈ [stubs, r, scratch], place.Removable (Short (request.nameLimit fs)) after := by
  intro place hplace
  simp only [List.mem_cons, List.not_mem_nil, or_false] at hplace
  rcases hplace with rfl | rfl | rfl
  · exact .inl (h.moved_stubs hmoved hr hstubs hnested)
  · exact .inl (h.moved_r hmoved hr)
  · exact .inl (h.moved_scratch hmoved hr hstubs hnested)

theorem moved_holds :
    (TemporaryPlace.clean [stubs, r, scratch] after).Holds (fs.spelled request.rClassOutput)
      (request.classTree content) :=
  TemporaryPlace.holds_clean (h.moved_removable hmoved hr hstubs hnested) h.inUse.distinct
    (h.holds.of_get?_eq hmoved.inside)
    (request.spelled_short fs request.rClassOutput_mem_mentioned)
    fun place hplace => .inr (h.not_prefix_directory hr hstubs hnested place hplace)

theorem moved_grows {bytes : ByteArray}
    (hfile : after.get? (fs.spelled request.stubsOutput) = some (.file bytes)) :
    Grows (fs.spelled request.rClassOutput <+: ·) (¬ fs.spelled request.stubsOutput <+: ·) fs
      (TemporaryPlace.clean [stubs, r, scratch] after) := by
  obtain ⟨horigin, hget⟩ := TemporaryPlace.get?_clean (h.moved_removable hmoved hr hstubs hnested)
    h.inUse.distinct
  have hfile' := h.moved_file hmoved hnested hfile
  refine ⟨horigin.trans (h.moved_origin hmoved), fun k hk => ?_⟩
  rw [hget]
  split
  · next haway =>
    obtain ⟨place, hplace, rest, rfl⟩ := haway
    exact .inl (get?_append_of_none (h.inUse.vacant place hplace) rest).symm
  · next hkept =>
    rw [hmoved.outside k hk fun hp => hkept ⟨r, by simp, hp⟩]
    refine (h.inUse.grows.entries k hkept).imp_right ?_
    rintro ⟨-, hnone, hdir⟩
    refine ⟨fun hp => ?_, hnone, hdir⟩
    rw [get?_directory_upward hp hdir] at hfile'
    cases hfile'

theorem commit_stubs (calls : List ManifestCall) (files : Nat) :
    (∃ e bytes, (StagedTree.commit ⟨stubs.path, request.stubsOutput, files⟩).perform ⟨after, calls⟩ =
          (.error e, ⟨after, calls⟩) ∧
        after.get? (fs.spelled request.stubsOutput) = some (.file bytes)) ∨
      ∃ result, (StagedTree.commit ⟨stubs.path, request.stubsOutput, files⟩).perform ⟨after, calls⟩ =
        (.ok files, result) := by
  have hmem := request.stubsOutput_mem_mentioned
  have hspelled := spelled_congr (h.moved_origin hmoved) request.stubsOutput
  have hshort := request.spelled_short fs hmem
  have hlocation := h.stubs_location hstubs
  rw [← hspelled] at hshort hlocation ⊢
  obtain hfail | ⟨result, hcommit, -, -⟩ := StagedTree.commit_cases (s := ⟨after, calls⟩)
    (h.moved_ownName hmoved hmem hstubs) hshort (h.moved_stubs hmoved hr hstubs hnested)
    h.stubs_parent hlocation (h.moved_stubs_directory hmoved hr hstubs hnested) files
  · exact .inl hfail
  · exact .inr ⟨_, hcommit⟩

end

end Staged

/-- The new tree is in the place of the first output, and a file in that of the second one, as it has
always been. -/
structure Blocked (request : CompileRequest) (config : Config) (fs after : FileSystem) : Prop where
  tree : ∃ content, request.content config fs = .ok content ∧
    after.Holds (fs.spelled request.rClassOutput) (request.classTree content)
  file : ∃ bytes, fs.get? (fs.spelled request.stubsOutput) = some (.file bytes)
  /-- Nothing else has changed, but there may be new directories. -/
  rest : Grows (fs.spelled request.rClassOutput <+: ·) (¬ fs.spelled request.stubsOutput <+: ·) fs after

theorem Staged.blocked {after : FileSystem} {bytes : ByteArray}
    (h : request.Staged config content fs r stubs scratch s.files)
    (hmoved : Moved r.directory (fs.spelled request.rClassOutput) s.files after)
    (hr : fs.OwnName request.rClassOutput) (hstubs : fs.OwnName request.stubsOutput)
    (hnested : ¬ Above (fs.spelled request.stubsOutput) (fs.spelled request.rClassOutput))
    (hcontent : request.content config fs = .ok content)
    (hfile : after.get? (fs.spelled request.stubsOutput) = some (.file bytes)) :
    request.Blocked config fs (TemporaryPlace.clean [stubs, r, scratch] after) := by
  have hshort := request.spelled_short fs request.stubsOutput_mem_mentioned
  exact ⟨⟨content, hcontent, h.moved_holds hmoved hr hstubs hnested⟩,
    ⟨bytes, h.get?_short hshort (h.moved_file hmoved hnested hfile) (by simp)⟩,
    h.moved_grows hmoved hr hstubs hnested hfile⟩

structure Failed (request : CompileRequest) (config : Config) (fs after : FileSystem) : Prop where
  /-- Before both trees are ready nothing but directories is made, whatever the paths are. -/
  unstaged : ¬ request.Stages config fs → AddsDirectories (fun _ => True) fs after
  /-- As long as the first tree has not been put in place, both outputs are exactly as they were. -/
  untouched : fs.OwnName request.rClassOutput → fs.OwnName request.stubsOutput →
    ¬ request.Replaces config fs →
      AddsDirectories (fun k => ¬ fs.spelled request.rClassOutput <+: k ∧
        ¬ fs.spelled request.stubsOutput <+: k) fs after
  /-- Once it has been, it stays, and a file is in the place of the second tree. -/
  replaced : fs.OwnName request.rClassOutput → fs.OwnName request.stubsOutput →
    ¬ Above (fs.spelled request.stubsOutput) (fs.spelled request.rClassOutput) →
    request.Replaces config fs →
      request.Blocked config fs after

theorem Failed.of_adds {after : BuildState} {e : BuildError}
    (hadds : AddsDirectories (request.Outside fs) fs after.files)
    (hrun : (request.runWith config commitFirst).perform ⟨fs, []⟩ = (.error e, after)) :
    request.Failed config fs after.files := by
  refine ⟨fun _ => hadds.mono fun _ _ => trivial, fun hr hstubs _ =>
    hadds.mono fun k hk => hk hr hstubs, fun _ _ _ hreplaces => ?_⟩
  obtain ⟨summary, hsummary⟩ := hreplaces
  rw [Action.onFiles_eq_perform, hrun] at hsummary
  cases hsummary

/-- The first commit decides whether the first output has been replaced. -/
theorem replaces_iff {r stubs : StagedTree} {summary : CompileSummary} {cleanUp : FileSystem → FileSystem}
    (hrun : (request.runWith config commitFirst).perform ⟨fs, []⟩ =
      ((commitFirst r stubs >>= fun _ => pure summary).thenAlways cleanUp).perform s) :
    request.Replaces config fs ↔ ∃ files after, r.commit.perform s = (.ok files, after) := by
  unfold Replaces
  rw [Action.onFiles_eq_perform, hrun, Action.perform_thenAlways, Action.perform_replace,
    perform_commitFirst]
  cases r.commit.perform s with
  | mk result after => cases result <;> simp [Except.map]

/-- A compilation that fails leaves both outputs as they were, but the first one is replaced where a
file is in the place of the second. -/
theorem failed_of_run {after : FileSystem} {e : BuildError}
    (hpackage : JavaSource.StaysBelow (bindingPackage request.package config.binding.packageSuffix))
    (h : (request.run config).onFiles fs = (.error e, after)) :
    request.Failed config fs after := by
  obtain ⟨calls, hperform⟩ := Action.onFiles_eq h
  rw [run_eq_runWith] at hperform
  obtain ⟨e', after', hadds, hrun⟩ | ⟨content, written, r, stubs, scratch, rFiles, stubsFiles, t,
    hcontent, hstaged, hrun⟩ := runWith_cases hpackage fs []
  · rw [hrun] at hperform
    cases hperform
    exact .of_adds hadds (hrun commitFirst)
  · have hstages : request.Stages config fs := by
      refine ⟨summary content written, ?_⟩
      rw [Action.onFiles_eq_perform, hrun]
      rfl
    have hreplaces := replaces_iff (hrun commitFirst)
    rw [hrun, Action.perform_thenAlways, Action.perform_replace] at hperform
    refine ⟨fun hnot => absurd hstages hnot, fun hr hstubs hnot => ?_,
      fun hr hstubs hnested hdone => ?_⟩
    · obtain ⟨e', bytes, hcommit, hfile⟩ | ⟨files, hcommit, -⟩ := hstaged.commit_r hr rFiles
      · rw [perform_commitBoth_of_error hcommit] at hperform
        cases hperform
        exact (hstaged.outside_of_file hfile).mono fun k hk => hk hr hstubs
      · exact absurd (hreplaces.2 ⟨_, _, hcommit⟩) hnot
    · obtain ⟨files, t', hdone⟩ := hreplaces.1 hdone
      obtain ⟨e', bytes, hcommit, -⟩ | ⟨moved, hcommit, hmoved⟩ := hstaged.commit_r hr rFiles
      · rw [hcommit] at hdone
        cases hdone
      · rw [perform_commitBoth_of_ok hcommit] at hperform
        obtain ⟨e', bytes, hcommit', hfile⟩ | ⟨result, hcommit'⟩ :=
          hstaged.commit_stubs hmoved hr hstubs hnested t.calls stubsFiles
        all_goals
          rw [hcommit'] at hperform
          cases hperform
        exact hstaged.blocked hmoved hr hstubs hnested hcontent hfile

/-- An old tree in the place of the first one, and a file in the place of the second. -/
def blockedFiles : FileSystem :=
  ((FileSystem.empty.place ["r"] .directory).place ["r", "old"] (.file (Text.toUtf8 "previous"))).place
    ["stubs"] (.file (Text.toUtf8 "file"))

def blockedRequest : CompileRequest where
  package := "com.app"
  resourceFiles := []
  classInfos := []
  symbolLists := []
  nonTransitive := false
  rClassOutput := "r"
  stubsOutput := "stubs"

/-- The stubs cannot take the place of a file, and the old tree is gone by then. -/
theorem failed_of_run_stubs :
    ∃ after, (blockedRequest.run {}).onFiles blockedFiles =
        (.error (.io "stubs" .notADirectory), after) ∧
      blockedRequest.Failed {} blockedFiles after ∧
        after.get? ["r", "old"] ≠ blockedFiles.get? ["r", "old"] := by
  have hrun : ((blockedRequest.run {}).onFiles blockedFiles).1 =
      .error (.io "stubs" .notADirectory) := by
    decide +kernel
  have hreplaces : blockedRequest.Replaces {} blockedFiles := by
    refine ⟨⟨0, 0, 0, 0⟩, ?_⟩
    decide +kernel
  generalize h : (blockedRequest.run {}).onFiles blockedFiles = outcome at *
  obtain ⟨result, after⟩ := outcome
  obtain rfl := hrun
  have hfailed := failed_of_run (by decide) h
  obtain ⟨content, -, hholds⟩ := (hfailed.replaced (by decide +kernel) (by decide +kernel)
    (by decide +kernel) hreplaces).tree
  have hold : blockedFiles.get? ["r", "old"] = some (.file (Text.toUtf8 "previous")) := by
    decide +kernel
  have hspelled : blockedFiles.spelled blockedRequest.rClassOutput = ["r"] := by decide +kernel
  rw [hspelled] at hholds
  refine ⟨after, rfl, hfailed, fun heq => ?_⟩
  have hfile := (hholds.file ["old"] _).1 (heq.trans hold)
  have hr : ["old".toList] ≠ JavaSource.place blockedRequest.package "R" := by decide
  have hbr : ["old".toList] ≠ JavaSource.place blockedRequest.package "BR" := by decide
  unfold classTree at hfile
  rw [Function.update_of_ne hbr, Function.update_of_ne hr] at hfile
  cases hfile

end CompileRequest

end AndroidResources
