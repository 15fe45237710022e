import AndroidResources.Compile
import AndroidResources.Proofs.Build.Moving
import AndroidResources.Proofs.Java.SourceTree
import AndroidResources.Proofs.Symbol.Shapes

/-!
# The stages of a compilation

The classes are written in a scratch directory, and each tree is copied next to its output. All of
this is the same whatever is done with the copies.

* `runWith` : the compilation with any way to put the staged trees in place;
* `classTree`, `stubTree`, `generate_holds` : the tree of `R` and `BR`, and that of the stubs;
* `Staged` : what is there once both trees have been copied;
* `runWith_cases` : a compilation comes to this stage, or it leaves nothing but directories.
-/

namespace AndroidResources.CompileRequest

open FileSystem

/-- The classes below a directory; the results are the stubs. -/
def generate (request : CompileRequest) (config : Config) (content : ModuleContent) (dir : Path) :
    Action (List Path) := do
  let _ ← RClass.write (dir.join "r") request.package content.symbols
  let _ ← BrClass.write (dir.join "r") request.package content.bindings
  BindingStub.writeAll config.binding (dir.join "stubs") request.package content.bindings

def publishWith (request : CompileRequest) (rTree stubsTree : Path)
    (commit : StagedTree → StagedTree → Action Unit) : Action Unit :=
  withStaged rTree request.rClassOutput fun r =>
    withStaged stubsTree request.stubsOutput fun stubs => commit r stubs

def summary (content : ModuleContent) (stubs : List Path) : CompileSummary :=
  ⟨content.layouts.length, content.bindings.length, content.symbols.size, stubs.length⟩

/-- The compilation with any way to put the staged trees in place. -/
def runWith (request : CompileRequest) (config : Config)
    (commit : StagedTree → StagedTree → Action Unit) : Action CompileSummary := do
  let content ← Action.inspect (request.content config)
  withTemporary scratchParent scratchParent request.mentioned fun scratch => do
    let stubs ← request.generate config content scratch
    request.publishWith (scratch.join "r") (scratch.join "stubs") commit
    return summary content stubs

def commitBoth (r stubs : StagedTree) : Action Unit := do
  let _ ← r.commit
  let _ ← stubs.commit

theorem run_eq_runWith (request : CompileRequest) (config : Config) :
    request.run config = request.runWith config commitBoth := by
  unfold run runWith generate
  simp only [bind_assoc]
  rfl

/-- The files of the tree for `R` and `BR`, by the names from there. -/
def classTree (request : CompileRequest) (content : ModuleContent) : List Text → Option ByteArray :=
  Function.update
    (Function.update (fun _ => none) (JavaSource.place request.package "R")
      (some (Text.toUtf8 (RClass.source request.package content.symbols))))
    (JavaSource.place request.package "BR")
    (some (Text.toUtf8 (BrClass.source request.package content.bindings)))

def stubTree (request : CompileRequest) (config : Config) (content : ModuleContent) :
    List Text → Option ByteArray :=
  BindingStub.addTo config.binding [] request.package content.bindings fun _ => none

variable {request : CompileRequest} {config : Config} {content : ModuleContent} {s t : BuildState}
  {scratch : TemporaryPlace} {S : Text → Prop}

/-! ## The scratch directory -/

theorem anchored_trees (hscratch : scratch.Reserved S s.files) :
    s.files.Anchored (scratch.path.join "r") scratch.directory ["r".toList] ∧
      s.files.Anchored (scratch.path.join "stubs") scratch.directory ["stubs".toList] :=
  ⟨hscratch.temporary.anchored (by decide), hscratch.temporary.anchored (by decide)⟩

section

variable (hscratch : scratch.Reserved S s.files)
  (hempty : s.files.Holds scratch.directory fun _ => none)
  (hpackage : JavaSource.StaysBelow (bindingPackage request.package config.binding.packageSuffix))
  (hclasses : ∀ layout ∈ content.bindings, '/' ∉ layout.className)

include hscratch hempty hpackage hclasses

/-- Whether it succeeds or not, writing the classes changes only what is in the scratch directory. -/
theorem generate_keepsTo :
    (request.generate config content scratch.path).KeepsTo scratch.directory s := by
  obtain ⟨hr, hstubs⟩ := anchored_trees hscratch
  have hmodule := hpackage.of_bindingPackage
  refine .bind (writeClass_keepsTo hr hempty hmodule (by decide)) fun _ mid hwrite => ?_
  obtain ⟨-, hsame, hholds⟩ := writeClass_holds hr hempty hmodule (by decide) hwrite
  refine .bind (writeClass_keepsTo (hr.of_besides hsame) hholds hmodule (by decide))
    fun _ mid' hwrite' => ?_
  obtain ⟨-, hsame', hholds'⟩ :=
    writeClass_holds (hr.of_besides hsame) hholds hmodule (by decide) hwrite'
  exact writeAll_keepsTo (hstubs.of_besides (hsame.trans hsame')) hholds' hpackage hclasses

theorem generate_holds {written : List Path}
    (h : (request.generate config content scratch.path).perform s = (.ok written, t)) :
    Besides scratch.directory s.files t.files ∧ ∃ files, t.files.Holds scratch.directory files ∧
      files ["r".toList] = none ∧ files ["stubs".toList] = none ∧
        (fun names => files ("r".toList :: names)) = request.classTree content ∧
        (fun names => files ("stubs".toList :: names)) = request.stubTree config content := by
  obtain ⟨hr, hstubs⟩ := anchored_trees hscratch
  have hmodule := hpackage.of_bindingPackage
  obtain ⟨_, mid, hwrite, h⟩ := Action.bind_eq_ok.1 h
  obtain ⟨-, hsame, hholds⟩ := writeClass_holds hr hempty hmodule (by decide) hwrite
  obtain ⟨_, mid', hwrite', h⟩ := Action.bind_eq_ok.1 h
  obtain ⟨-, hsame', hholds'⟩ :=
    writeClass_holds (hr.of_besides hsame) hholds hmodule (by decide) hwrite'
  obtain ⟨-, hsame'', hfiles⟩ :=
    writeAll_holds (hstubs.of_besides (hsame.trans hsame')) hholds' hpackage hclasses h
  refine ⟨hsame.trans (hsame'.trans hsame''), _, hfiles, ?_, ?_, ?_, ?_⟩
  · rw [BindingStub.addTo_of_ne (by simp)]
    simp [JavaSource.place_ne_nil]
  · rw [BindingStub.addTo_of_ne (by simp [JavaSource.place_ne_nil])]
    simp [JavaSource.place_ne_nil]
  · funext names
    rw [BindingStub.addTo_of_ne (by simp)]
    simp [classTree, Function.update_apply]
  · refine (BindingStub.addTo_below _ ["stubs".toList] _ _ _).trans ?_
    unfold stubTree
    congr 1

end

/-- Names that are shorter than that of the scratch directory. -/
def nameLimit (request : CompileRequest) (fs : FileSystem) : Nat :=
  (fs.freshName request.mentioned).length

structure Generated (request : CompileRequest) (config : Config) (content : ModuleContent)
    (fs : FileSystem) (scratch : TemporaryPlace) (files : List Text → Option ByteArray)
    (generated : FileSystem) : Prop where
  inUse : TemporaryPlace.InUse (request.nameLimit fs) [scratch] (fun _ => False) fs generated
  scratch_parent : scratch.parent = scratchParent
  holds : generated.Holds scratch.directory files
  r_free : files ["r".toList] = none
  stubs_free : files ["stubs".toList] = none
  rTree : (fun names => files ("r".toList :: names)) = request.classTree content
  stubsTree : (fun names => files ("stubs".toList :: names)) = request.stubTree config content

variable {fs : FileSystem}

theorem leads_scratchParent (fs : FileSystem) : fs.Leads scratchParent [] [] :=
  Leads.of_origin (p := scratchParent) (by decide) rfl (by decide)

theorem isDirectory_scratchParent (fs : FileSystem) : fs.isDirectory scratchParent = true :=
  isDirectory_iff.2 ⟨[], (leads_scratchParent fs).resolve_nil, rfl⟩

theorem one_lt_nameLimit (request : CompileRequest) (fs : FileSystem) : 1 < request.nameLimit fs := by
  unfold nameLimit freshName
  simp

theorem exists_readFiles_of_content (h : request.content config fs = .ok content) :
    ∃ dependencies, (request.layoutModule config dependencies).readFiles fs
      (request.resourceFiles.filter isLayoutFile) = .ok content.bindings := by
  obtain ⟨dependencies, own, -, hlayouts, hbindings, -⟩ := content_eq_ok h
  exact ⟨dependencies, hlayouts ▸ hbindings⟩

theorem slash_not_mem_of_content (h : request.content config fs = .ok content) :
    ∀ layout ∈ content.bindings, '/' ∉ layout.className := by
  obtain ⟨dependencies, hread⟩ := exists_readFiles_of_content h
  exact LayoutModule.slash_not_mem_className hread

theorem exists_scratch (request : CompileRequest) (fs : FileSystem) (calls : List ManifestCall) :
    ∃ (scratch : TemporaryPlace) (files : FileSystem), scratch.parent = scratchParent ∧
      TemporaryPlace.InUse (request.nameLimit fs) [scratch] (fun _ => False) fs files ∧
      files.Holds scratch.directory (fun _ => none) ∧
      ∀ {α : Type} (body : Path → Action α),
        (withTemporary scratchParent scratchParent request.mentioned body).perform ⟨fs, calls⟩ =
          ((body scratch.path).thenAlways (TemporaryPlace.clean [scratch])).perform
            ⟨files, calls⟩ := by
  have hroot : Path.segments scratchParent = [[], []] := by decide
  obtain ⟨name, hname⟩ : ∃ name, name = fs.freshName request.mentioned := ⟨_, rfl⟩
  have hisName : IsName name := hname ▸ isName_freshName fs _
  obtain ⟨l, files, htemp, hsame, hnone, hempty, hperform⟩ :=
    withTemporary_fresh (s := ⟨fs, calls⟩) hname
      (isDirectory_scratchParent fs) (by simpa [hroot] using hisName.1)
  let scratch : TemporaryPlace := ⟨scratchParent, l, name⟩
  have hlong : ¬ Short (request.nameLimit fs) name := hname ▸ Nat.lt_irrefl _
  have hclosed := (closed_short fs request.mentioned).of_besides hsame
    fun hall => hlong (hall name (by simp))
  have hreserved : scratch.Reserved (Short (request.nameLimit fs)) files :=
    ⟨htemp.of_closed hlong hclosed
      (by simpa [hroot, Short] using Nat.zero_lt_of_lt (request.one_lt_nameLimit fs)),
      .inl hempty.directory_self⟩
  exact ⟨scratch, files, rfl, (TemporaryPlace.InUse.nil _ _ fs).cons hreserved hsame hnone (by simp),
    hempty, fun body => hperform _ body⟩

/-- The classes are written, or all is as it was. Up to here nothing depends on what comes next. -/
theorem generated_cases
    (hpackage : JavaSource.StaysBelow (bindingPackage request.package config.binding.packageSuffix))
    (fs : FileSystem) (calls : List ManifestCall) :
    (∃ e after, AddsDirectories (fun _ => False) fs after.files ∧
      ∀ commit, (request.runWith config commit).perform ⟨fs, calls⟩ = (.error e, after)) ∨
    ∃ content written scratch files t, request.content config fs = .ok content ∧
      request.Generated config content fs scratch files t.files ∧
      ∀ commit, (request.runWith config commit).perform ⟨fs, calls⟩ =
        ((request.publishWith (scratch.path.join "r") (scratch.path.join "stubs") commit >>=
          fun _ => pure (summary content written)).thenAlways
            (TemporaryPlace.clean [scratch])).perform t := by
  cases hcontent : request.content config fs with
  | error e =>
    refine .inl ⟨e, ⟨fs, calls⟩, .refl _ _, fun commit => ?_⟩
    unfold runWith
    rw [Action.perform_bind, Action.perform_inspect, hcontent]
  | ok content =>
    obtain ⟨scratch, files, hparent, hinUse, hempty, hperform⟩ :=
      request.exists_scratch fs calls
    have hreserved := hinUse.reserved scratch (List.mem_singleton_self _)
    have hclasses := slash_not_mem_of_content hcontent
    have hkeeps := generate_keepsTo (s := ⟨files, calls⟩) hreserved hempty hpackage hclasses
    cases hgenerate : (request.generate config content scratch.path).perform ⟨files, calls⟩ with
    | mk r t =>
    unfold Action.KeepsTo at hkeeps
    rw [hgenerate] at hkeeps
    have hgenerated := hinUse.besides hkeeps.1 hkeeps.2
    have hrun : ∀ commit, (request.runWith config commit).perform ⟨fs, calls⟩ =
        ((request.generate config content scratch.path >>= fun written =>
          request.publishWith (scratch.path.join "r") (scratch.path.join "stubs") commit >>=
            fun _ => pure (summary content written)).thenAlways
              (TemporaryPlace.clean [scratch])).perform ⟨files, calls⟩ := by
      intro commit
      unfold runWith
      rw [Action.perform_bind, Action.perform_inspect, hcontent]
      exact hperform _
    cases r with
    | error e =>
      refine .inl ⟨e, { t with files := TemporaryPlace.clean [scratch] t.files },
        hgenerated.clean, fun commit => ?_⟩
      rw [hrun, Action.perform_thenAlways, Action.perform_bind, hgenerate]
    | ok written =>
      obtain ⟨-, parts, hparts, hr, hstubs, hrTree, hstubsTree⟩ :=
        generate_holds (s := ⟨files, calls⟩) hreserved hempty hpackage hclasses hgenerate
      refine .inr ⟨content, written, scratch, parts, t, rfl,
        ⟨hgenerated, hparent, hparts, hr, hstubs, hrTree, hstubsTree⟩, fun commit => ?_⟩
      rw [hrun, Action.perform_thenAlways, Action.perform_bind, hgenerate, Action.perform_thenAlways]

/-! ## The copies -/

section

variable {p : Path} {places : List TemporaryPlace} {P : Location → Prop} {fs' : FileSystem}

theorem spelled_short (fs : FileSystem) (hp : p ∈ request.mentioned) :
    ∀ n ∈ fs.spelled p, Short (request.nameLimit fs) n :=
  (closed_short fs request.mentioned).spelled fun _ => short_of_mem_segments fs hp

/-- What happens meanwhile does not concern where a mentioned path leads. -/
theorem ownName_of_inUse (h : TemporaryPlace.InUse (request.nameLimit fs) places P fs fs')
    (hp : p ∈ request.mentioned) (hown : fs.OwnName p) : fs'.OwnName p :=
  hown.of_links h.grows.origin fun _ _ hk =>
    h.get?_link fun n hn => request.spelled_short fs hp n (hk.subset hn)

theorem createDirectories_needed (h : TemporaryPlace.InUse (request.nameLimit fs) places P fs fs')
    (hp : p ∈ request.mentioned) :
    AddsDirectories (fun k => fs.OwnName p → Above (fs.spelled p) k) fs'
      (fs'.createDirectories (stagingParent p)).1 := by
  by_cases hown : fs.OwnName p
  · have habove := createDirectories_above (request.ownName_of_inUse h hp hown).direct
    rw [spelled_congr h.grows.origin] at habove
    exact habove.mono fun _ hk _ => hk
  · exact (createAlong_adds fs' _).mono fun _ _ hown' => absurd hown' hown

theorem createDirectories_failed (h : TemporaryPlace.InUse (request.nameLimit fs) places P fs fs')
    (hp : p ∈ request.mentioned) (hfail : (fs'.createDirectories (stagingParent p)).2 ≠ none)
    (hown : fs.OwnName p) :
    (fs'.createDirectories (stagingParent p)).1 = fs' ∧
      fs'.get? (fs.spelled p).dropLast ≠ some .directory := by
  have hown' := request.ownName_of_inUse h hp hown
  obtain ⟨names, name, hnames, hspelled⟩ := hown'.exists_names
  obtain ⟨made, hmade⟩ | ⟨hsame, hmissing⟩ := createDirectories_direct hown'.direct hnames
  · rw [hmade] at hfail
    exact absurd rfl hfail
  · rw [← spelled_congr h.grows.origin, hspelled, ← List.append_assoc, List.dropLast_concat]
    exact ⟨hsame, hmissing⟩

end

/-- Both trees have been copied next to their outputs. But for the temporary directories, only
directories have been made that the outputs need. -/
structure Staged (request : CompileRequest) (config : Config) (content : ModuleContent)
    (fs : FileSystem) (r stubs scratch : TemporaryPlace) (staged : FileSystem) : Prop where
  inUse : TemporaryPlace.InUse (request.nameLimit fs) [stubs, r, scratch]
    (fun k => (fs.OwnName request.rClassOutput → Above (fs.spelled request.rClassOutput) k) ∨
      (fs.OwnName request.stubsOutput → Above (fs.spelled request.stubsOutput) k)) fs staged
  scratch_parent : scratch.parent = scratchParent
  r_parent : r.parent = stagingParent request.rClassOutput
  stubs_parent : stubs.parent = stagingParent request.stubsOutput
  r_location : fs.OwnName request.rClassOutput →
    r.location = (fs.spelled request.rClassOutput).dropLast
  stubs_location : fs.OwnName request.stubsOutput →
    stubs.location = (fs.spelled request.stubsOutput).dropLast
  holds : staged.Holds r.directory (request.classTree content)
  stubs_holds : staged.Holds stubs.directory (request.stubTree config content)
  r_sole : r.Sole staged
  stubs_sole : stubs.Sole staged

/-- A place that is in neither output, if both have names of their own. -/
def Outside (request : CompileRequest) (fs : FileSystem) (k : Location) : Prop :=
  fs.OwnName request.rClassOutput → fs.OwnName request.stubsOutput →
    ¬ fs.spelled request.rClassOutput <+: k ∧ ¬ fs.spelled request.stubsOutput <+: k

theorem rClassOutput_mem_mentioned (request : CompileRequest) :
    request.rClassOutput ∈ request.mentioned := by
  simp [mentioned]

theorem stubsOutput_mem_mentioned (request : CompileRequest) :
    request.stubsOutput ∈ request.mentioned := by
  simp [mentioned]

/-- If the first tree cannot be staged, neither output has been touched. -/
theorem outside_of_failed_rClass {scratch : TemporaryPlace} {fs' : FileSystem}
    (h : TemporaryPlace.InUse (request.nameLimit fs) [scratch] (fun _ => False) fs fs')
    (hfail : (fs'.createDirectories (stagingParent request.rClassOutput)).2 ≠ none) :
    AddsDirectories (request.Outside fs) fs (TemporaryPlace.clean [scratch]
      (fs'.createDirectories (stagingParent request.rClassOutput)).1) := by
  have hadds : AddsDirectories (request.Outside fs) fs'
      (fs'.createDirectories (stagingParent request.rClassOutput)).1 := by
    by_cases hown : fs.OwnName request.rClassOutput
    · rw [(request.createDirectories_failed h request.rClassOutput_mem_mentioned hfail hown).1]
      exact .refl _ _
    · exact (createAlong_adds fs' _).mono fun k _ hown' => absurd hown' hown
  exact ((h.mono fun k hk => hk.elim).adds hadds).clean

/-- If the second tree cannot be staged, directories have been made in neither output. Where
something is above the second output but no directory, the first one has not made any in it,
either. -/
theorem outside_of_failed_stubs {r scratch : TemporaryPlace} {fs' : FileSystem}
    (h : TemporaryPlace.InUse (request.nameLimit fs) [r, scratch]
      (fun k => fs.OwnName request.rClassOutput → Above (fs.spelled request.rClassOutput) k) fs fs')
    (hfail : (fs'.createDirectories (stagingParent request.stubsOutput)).2 ≠ none) :
    AddsDirectories (request.Outside fs) fs (TemporaryPlace.clean [r, scratch]
      (fs'.createDirectories (stagingParent request.stubsOutput)).1) := by
  by_cases hown : fs.OwnName request.rClassOutput ∧ fs.OwnName request.stubsOutput
  · obtain ⟨hsame, hmissing⟩ :=
      request.createDirectories_failed h request.stubsOutput_mem_mentioned hfail hown.2
    rw [hsame]
    refine h.clean.restrict fun k hk _ hdir _ _ => ?_
    obtain ⟨hle, hne⟩ := hk hown.1
    refine ⟨fun hp => hne (hle.eq_of_length_le hp.length_le), fun hp => hmissing ?_⟩
    have habove := get?_directory_upward ((List.dropLast_prefix _).trans hp) hdir
    rw [(TemporaryPlace.get?_clean h.removable h.distinct).2] at habove
    split at habove
    · cases habove
    · exact habove
  · have hvacuous : ∀ k, request.Outside fs k := fun k hr hstubs => absurd ⟨hr, hstubs⟩ hown
    exact ((h.mono fun k _ => hvacuous k).adds
      ((createAlong_adds fs' _).mono fun k _ => hvacuous k)).clean

section

variable {files : List Text → Option ByteArray} {generated made copied made' staged : FileSystem}
  {r stubs : TemporaryPlace}

/-- With the copy of the classes one more temporary directory is in use. The scratch directory
stays as it was. -/
theorem Generated.withClasses (h : request.Generated config content fs scratch files generated)
    (hcreate : generated.createDirectories (stagingParent request.rClassOutput) = (made, none))
    (hr : StagedAt (request.nameLimit fs) (fun names => files ("r".toList :: names))
      request.rClassOutput made copied r) :
    TemporaryPlace.InUse (request.nameLimit fs) [r, scratch]
        (fun k => fs.OwnName request.rClassOutput → Above (fs.spelled request.rClassOutput) k)
        fs copied ∧
      copied.Holds scratch.directory files := by
  have hMem := request.rClassOutput_mem_mentioned
  have hneeded := request.createDirectories_needed h.inUse hMem
  rw [hcreate] at hneeded
  exact ⟨hr.inUse (h.inUse.mono fun _ => False.elim) hneeded
      (by simpa using h.holds.directory_self),
    hr.holds_other (request.one_lt_nameLimit fs) hcreate (fun _ => short_of_mem_segments fs hMem)
      (h.inUse.reserved scratch (List.mem_singleton_self _)) h.holds⟩

theorem Generated.withBoth (h : request.Generated config content fs scratch files generated)
    (hcreate : generated.createDirectories (stagingParent request.rClassOutput) = (made, none))
    (hr : StagedAt (request.nameLimit fs) (fun names => files ("r".toList :: names))
      request.rClassOutput made copied r)
    (hcreate' : copied.createDirectories (stagingParent request.stubsOutput) = (made', none))
    (hstubs : StagedAt (request.nameLimit fs) (fun names => files ("stubs".toList :: names))
      request.stubsOutput made' staged stubs) :
    request.Staged config content fs r stubs scratch staged := by
  obtain ⟨hinUse, hfiles⟩ := h.withClasses hcreate hr
  have hlimit := request.one_lt_nameLimit fs
  have hrMem := request.rClassOutput_mem_mentioned
  have hstubsMem := request.stubsOutput_mem_mentioned
  have hneeded := request.createDirectories_needed hinUse hstubsMem
  rw [hcreate'] at hneeded
  have hreserved := hinUse.reserved r (by simp)
  -- Nothing in either tree has a name as long as that of its copy.
  have hrNames := hr.not_mem (createDirectories_adds hcreate) h.holds
  have hstubsNames := hstubs.not_mem (createDirectories_adds hcreate') hfiles
  constructor
  case inUse =>
    refine hstubs.inUse (hinUse.mono fun _ => .inl) (hneeded.mono fun _ => .inr) ?_
    simpa using ⟨hr.holds.directory_self, hfiles.directory_self⟩
  case scratch_parent => exact h.scratch_parent
  case r_parent => exact hr.parent
  case stubs_parent => exact hstubs.parent
  case r_location =>
    intro hown
    rw [hr.location_eq hcreate (request.ownName_of_inUse h.inUse hrMem hown).lastNamed,
      spelled_congr h.inUse.grows.origin]
  case stubs_location =>
    intro hown
    rw [hstubs.location_eq hcreate' (request.ownName_of_inUse hinUse hstubsMem hown).lastNamed,
      spelled_congr hinUse.grows.origin]
  case holds =>
    rw [← h.rTree]
    exact hstubs.holds_other hlimit hcreate' (fun _ => short_of_mem_segments fs hstubsMem)
      hreserved hr.holds
  case stubs_holds =>
    rw [← h.stubsTree]
    exact hstubs.holds
  case r_sole =>
    exact hstubs.sole_other hlimit hcreate' (fun _ => short_of_mem_segments fs hstubsMem)
      hreserved hr.holds.directory_self
      (hr.sole fun names bytes hbytes hmem => hrNames _ bytes hbytes (List.mem_cons_of_mem _ hmem))
      fun names bytes hbytes hmem => hrNames _ bytes hbytes (List.mem_cons_of_mem _ hmem)
  case stubs_sole =>
    exact hstubs.sole fun names bytes hbytes hmem =>
      hstubsNames _ bytes hbytes (List.mem_cons_of_mem _ hmem)

end

/-- Both trees are copied next to their outputs, or nothing but directories is left. -/
theorem publishWith_cases {files : List Text → Option ByteArray}
    (h : request.Generated config content fs scratch files s.files) :
    (∃ e after, AddsDirectories (request.Outside fs) fs
        (TemporaryPlace.clean [scratch] after.files) ∧
      ∀ commit, (request.publishWith (scratch.path.join "r") (scratch.path.join "stubs")
        commit).perform s = (.error e, after)) ∨
    ∃ r stubs rFiles stubsFiles t, request.Staged config content fs r stubs scratch t.files ∧
      ∀ commit, (request.publishWith (scratch.path.join "r") (scratch.path.join "stubs")
        commit).perform s =
          ((commit ⟨r.path, request.rClassOutput, rFiles⟩
            ⟨stubs.path, request.stubsOutput, stubsFiles⟩).thenAlways
              (TemporaryPlace.clean [stubs, r])).perform t := by
  have hlimit := request.one_lt_nameLimit fs
  have hscratch := h.inUse.reserved scratch (List.mem_singleton_self _)
  obtain ⟨e, hfail, hperform⟩ | ⟨made, r, t, rFiles, hcreate, hr, hperform⟩ :=
    withStaged_cases hscratch.temporary h.holds hlimit (by decide) h.r_free
      (rfl : scratch.path.join "r" = _)
      fun _ => short_of_mem_segments fs request.rClassOutput_mem_mentioned
  · exact .inl ⟨e, _, request.outside_of_failed_rClass h.inUse hfail, fun commit => hperform _⟩
  · obtain ⟨hinUse, hfiles⟩ := h.withClasses hcreate hr
    have hscratch' := hinUse.reserved scratch (by simp)
    obtain ⟨e, hfail, hperform'⟩ | ⟨made', stubs, t', stubsFiles, hcreate', hstubs, hperform'⟩ :=
      withStaged_cases hscratch'.temporary hfiles hlimit (by decide) h.stubs_free
        (rfl : scratch.path.join "stubs" = _)
        fun _ => short_of_mem_segments fs request.stubsOutput_mem_mentioned
    · refine .inl ⟨e, ⟨TemporaryPlace.clean [r]
        (t.files.createDirectories (stagingParent request.stubsOutput)).1, t.calls⟩,
        request.outside_of_failed_stubs hinUse hfail, fun commit => ?_⟩
      unfold publishWith
      rw [hperform, Action.perform_thenAlways, hperform']
      rfl
    · refine .inr ⟨r, stubs, rFiles, stubsFiles, t', h.withBoth hcreate hr hcreate' hstubs,
        fun commit => ?_⟩
      unfold publishWith
      rw [hperform, Action.perform_thenAlways, hperform']
      rfl

/-- Whatever is done with the copies, a compilation comes to the point where both trees have been
copied, or it fails before and leaves nothing but directories. -/
theorem runWith_cases
    (hpackage : JavaSource.StaysBelow (bindingPackage request.package config.binding.packageSuffix))
    (fs : FileSystem) (calls : List ManifestCall) :
    (∃ e after, AddsDirectories (request.Outside fs) fs after.files ∧
      ∀ commit, (request.runWith config commit).perform ⟨fs, calls⟩ = (.error e, after)) ∨
    ∃ content written r stubs scratch rFiles stubsFiles t,
      request.content config fs = .ok content ∧
      request.Staged config content fs r stubs scratch t.files ∧
      ∀ commit, (request.runWith config commit).perform ⟨fs, calls⟩ =
        ((commit ⟨r.path, request.rClassOutput, rFiles⟩
          ⟨stubs.path, request.stubsOutput, stubsFiles⟩ >>=
            fun _ => pure (summary content written)).thenAlways
              (TemporaryPlace.clean [stubs, r, scratch])).perform t := by
  obtain ⟨e, after, hadds, hrun⟩ | ⟨content, written, scratch, files, t, hcontent, hgenerated, hrun⟩ :=
    generated_cases hpackage fs calls
  · exact .inl ⟨e, after, hadds.mono fun k hk => hk.elim, hrun⟩
  · obtain ⟨e, after, hadds, hpublish⟩ | ⟨r, stubs, rFiles, stubsFiles, t', hstaged, hpublish⟩ :=
      publishWith_cases hgenerated
    · refine .inl ⟨e, ⟨TemporaryPlace.clean [scratch] after.files, after.calls⟩, hadds,
        fun commit => ?_⟩
      rw [hrun, Action.perform_thenAlways, Action.perform_bind, hpublish]
    · refine .inr ⟨content, written, r, stubs, scratch, rFiles, stubsFiles, t', hcontent, hstaged,
        fun commit => ?_⟩
      rw [hrun, Action.perform_thenAlways, Action.perform_replace, hpublish,
        Action.perform_thenAlways, Action.perform_thenAlways, Action.perform_replace]
      rfl

end AndroidResources.CompileRequest
