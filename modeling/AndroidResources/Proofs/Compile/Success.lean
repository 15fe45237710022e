import AndroidResources.Proofs.Compile.Failure
import AndroidResources.Proofs.Java.Stubs

/-!
# What a compilation leaves that succeeds

The trees are put in place one after the other, each in the place of what is there by then. So the
second one is whole in the end. The first one is, too, unless the second one has come to its place or
to one above it.

* `JavaSource.readBytes_file` : a class is read at its path below a source root;
* `Staged.second_holds_stubs`, `Staged.second_holds_classes` : the trees after both commits;
* `Published`, `published_of_run` : what is in both outputs after a compilation that succeeds.
-/

namespace AndroidResources

open FileSystem

namespace JavaSource

variable {fs : FileSystem} {root : Path} {l : Location} {package className : Text}
  {files : List Text → Option ByteArray} {bytes : ByteArray}

theorem readBytes_file (hroot : fs.resolve root = .ok (.present l)) (hfiles : fs.Holds l files)
    (hpackage : StaysBelow package) (hclass : '/' ∉ className)
    (hfile : files (place package className) = some bytes) :
    fs.readBytes (file root package className) = .ok bytes := by
  have hname := isName_file hclass
  have hdirectory := leads_directory (Leads.of_resolve hroot hfiles.directory_self) hpackage
  have hget := (hfiles.file _ _).2 hfile
  apply readBytes_eq_ok.2
  exact ⟨_, (hdirectory.concat hname).resolve_present_file (.inl rfl) (endsInName_child _ hname) hget,
    hget⟩

end JavaSource

theorem Identifier.length_bindingClass (name : Text) : 7 ≤ (bindingClass name).length := by
  unfold bindingClass
  rw [List.length_append]
  exact Nat.le_add_left ..

theorem PutAt.not_mem {S : Text → Prop} {place : TemporaryPlace} {p : Path} {k : Location}
    {fs fs' : FileSystem} (h : PutAt S place p k fs fs') {name : Text} (hidden : ¬ S name) :
    name ∉ k :=
  fun hmem => hidden (h.spelled name hmem)

namespace CompileRequest

variable {request : CompileRequest} {config : Config} {content : ModuleContent} {fs : FileSystem}
  {s t : BuildState} {r stubs scratch : TemporaryPlace} {k l : Location}

namespace Staged

section

variable {mid : FileSystem} (h : request.Staged config content fs r stubs scratch s.files)
  (hr : PutAt (Short (request.nameLimit fs)) r request.rClassOutput k s.files mid)

include h

theorem not_prefix_scratch {place : TemporaryPlace} {p : Path} {before after : FileSystem}
    (hput : PutAt (Short (request.nameLimit fs)) place p l before after) :
    ¬ l <+: scratch.directory := by
  refine h.scratch_reserved.not_below hput.spelled fun hp => ?_
  obtain ⟨last, hlast⟩ := hput.beside
  rw [h.scratch_location, List.prefix_nil, hlast] at hp
  simp at hp

include hr

/-! ### After the first commit -/

theorem first_gone : r.Gone mid :=
  h.r_sole.gone hr.moved (hr.not_mem h.r_reserved.temporary.hidden)

theorem first_sole : stubs.Sole mid :=
  h.stubs_sole.moved hr.moved (hr.not_mem h.stubs_reserved.temporary.hidden)
    (h.stubs_reserved.apart_below h.r_reserved h.stubs_ne_r)

theorem first_scratch : scratch.Reserved (Short (request.nameLimit fs)) mid :=
  h.scratch_stays (h.moved_closed hr.moved) <| hr.moved.outside _ (h.not_prefix_scratch hr)
    (h.r_reserved.apart h.scratch_reserved h.r_ne_scratch)

theorem first_entry {e : Entry} (he : mid.get? stubs.directory = some e) :
    ¬ k <+: stubs.directory ∧ s.files.get? stubs.directory = some e := by
  obtain ⟨hnot, -, hget⟩ := hr.moved.get?_of_mem (hr.not_mem h.stubs_reserved.temporary.hidden)
    (h.stubs_sole.not_mem_apart (h.stubs_reserved.apart_below h.r_reserved h.stubs_ne_r)) he
    (by simp [TemporaryPlace.directory])
  exact ⟨hnot, hget⟩

end

section

variable {mid after : FileSystem} (h : request.Staged config content fs r stubs scratch s.files)
  (hr : PutAt (Short (request.nameLimit fs)) r request.rClassOutput k s.files mid)
  (hstubs : PutAt (Short (request.nameLimit fs)) stubs request.stubsOutput l mid after)

include h hr hstubs

/-- The first tree has not come above the second one, which would be gone. -/
theorem not_prefix_stubs : ¬ k <+: stubs.directory :=
  (h.first_entry hr hstubs.directory).1

theorem not_above : ¬ Above l k := by
  rintro ⟨hp, hne⟩
  obtain ⟨last, rfl⟩ := hstubs.beside
  obtain heq | hp := List.prefix_concat_iff.1 hp
  · exact hne heq
  · exact h.not_prefix_stubs hr hstubs (hp.trans (List.prefix_append ..))

theorem first_holds_stubs : mid.Holds stubs.directory (request.stubTree config content) := by
  refine h.stubs_holds.of_get?_eq fun names => hr.moved.outside _ (fun hp => ?_)
    (h.r_reserved.apart_below h.stubs_reserved h.stubs_ne_r.symm names)
  obtain hp | hp := List.prefix_or_prefix_of_prefix hp (List.prefix_append stubs.directory names)
  · exact h.not_prefix_stubs hr hstubs hp
  · exact h.stubs_reserved.not_reached hr.spelled hp

theorem first_removable :
    ∀ place ∈ [stubs, r, scratch], place.Removable (Short (request.nameLimit fs)) mid := by
  have htemp := h.stubs_reserved.temporary
  have htemp' := h.r_reserved.temporary
  intro place hplace
  simp only [List.mem_cons, List.not_mem_nil, or_false] at hplace
  rcases hplace with rfl | rfl | rfl
  · exact .inl ⟨⟨htemp.isName, htemp.hidden, h.moved_closed hr.moved, htemp.spelled, hstubs.leads⟩,
      .inl hstubs.directory⟩
  · exact .inr ⟨htemp'.isName, htemp'.hidden, h.first_gone hr⟩
  · exact .inl (h.first_scratch hr)

/-! ### After the second commit -/

theorem second_holds_stubs : after.Holds l (request.stubTree config content) :=
  (h.first_holds_stubs hr hstubs).of_get?_eq hstubs.moved.inside

theorem second_holds_classes (hnot : ¬ l <+: k) : after.Holds k (request.classTree content) := by
  refine h.holds.of_get?_eq fun names => ?_
  rw [← hr.moved.inside]
  refine hstubs.moved.outside _ (fun hp => ?_) fun hp => ?_
  · obtain hp | hp := List.prefix_or_prefix_of_prefix hp (List.prefix_append k names)
    · exact hnot hp
    · refine h.not_above hr hstubs ⟨hp, ?_⟩
      rintro rfl
      exact hnot (List.prefix_refl _)
  · obtain hp | hp := List.prefix_or_prefix_of_prefix hp (List.prefix_append k names)
    · exact h.stubs_reserved.not_reached hr.spelled hp
    · exact h.not_prefix_stubs hr hstubs hp

theorem second_closed : Closed (Short (request.nameLimit fs)) after :=
  (h.moved_closed hr.moved).of_moved hstubs.moved h.stubs_reserved.temporary.not_spelled
    (h.first_holds_stubs hr hstubs)

theorem second_gone : stubs.Gone after ∧ r.Gone after :=
  ⟨(h.first_sole hr).gone hstubs.moved (hstubs.not_mem h.stubs_reserved.temporary.hidden),
    (h.first_gone hr).moved hstubs.moved (hstubs.not_mem h.r_reserved.temporary.hidden)⟩

theorem second_scratch : scratch.Reserved (Short (request.nameLimit fs)) after := by
  refine h.scratch_stays (h.second_closed hr hstubs) ?_
  have hne : stubs.name ≠ scratch.name :=
    (List.pairwise_cons.1 h.inUse.distinct).1 scratch (by simp)
  rw [hstubs.moved.outside _ (h.not_prefix_scratch hstubs)
    (h.stubs_reserved.apart h.scratch_reserved hne)]
  exact hr.moved.outside _ (h.not_prefix_scratch hr)
    (h.r_reserved.apart h.scratch_reserved h.r_ne_scratch)

theorem second_removable :
    ∀ place ∈ [stubs, r, scratch], place.Removable (Short (request.nameLimit fs)) after := by
  obtain ⟨hgone, hgone'⟩ := h.second_gone hr hstubs
  have htemp := h.stubs_reserved.temporary
  have htemp' := h.r_reserved.temporary
  intro place hplace
  simp only [List.mem_cons, List.not_mem_nil, or_false] at hplace
  rcases hplace with rfl | rfl | rfl
  · exact .inr ⟨htemp.isName, htemp.hidden, hgone⟩
  · exact .inr ⟨htemp'.isName, htemp'.hidden, hgone'⟩
  · exact .inl (h.second_scratch hr hstubs)

/-- A tree in an output is not concerned by the temporary directories that go. -/
theorem second_clean {m : Location} {files : List Text → Option ByteArray}
    (hfiles : after.Holds m files) (hm : ∀ n ∈ m, Short (request.nameLimit fs) n)
    (hscratch : ¬ m <+: scratch.directory) :
    (TemporaryPlace.clean [stubs, r, scratch] after).Holds m files := by
  obtain ⟨hgone, hgone'⟩ := h.second_gone hr hstubs
  refine TemporaryPlace.holds_clean (h.second_removable hr hstubs) h.inUse.distinct hfiles hm ?_
  intro place hplace
  simp only [List.mem_cons, List.not_mem_nil, or_false] at hplace
  rcases hplace with rfl | rfl | rfl
  · exact .inl hgone
  · exact .inl hgone'
  · exact .inr hscratch

end

/-- Where both commits succeed, both trees have been put where the outputs lead. -/
theorem exists_putAt (h : request.Staged config content fs r stubs scratch s.files)
    {rFiles stubsFiles : Nat} {u : Unit}
    (hcommit : (commitBoth ⟨r.path, request.rClassOutput, rFiles⟩
      ⟨stubs.path, request.stubsOutput, stubsFiles⟩).perform s = (.ok u, t)) :
    ∃ k l count mid, (StagedTree.commit ⟨r.path, request.rClassOutput, rFiles⟩).perform s =
        (.ok count, mid) ∧
      PutAt (Short (request.nameLimit fs)) r request.rClassOutput k s.files mid.files ∧
      PutAt (Short (request.nameLimit fs)) stubs request.stubsOutput l mid.files t.files := by
  have htemp := h.r_reserved.temporary
  have htemp' := h.stubs_reserved.temporary
  obtain ⟨count, mid, hfirst, hcommit⟩ := Action.bind_eq_ok.1 hcommit
  obtain ⟨count', t', hsecond, hpure⟩ := Action.bind_eq_ok.1 hcommit
  cases hpure
  obtain ⟨k, hr⟩ := StagedTree.commit_eq_ok htemp.isName htemp.hidden htemp.closed
    (fun _ => short_of_mem_segments fs request.rClassOutput_mem_mentioned) h.r_parent h.r_sole
    (fun e he => Option.some.inj (he.symm.trans h.holds.directory_self)) hfirst
  obtain ⟨l, hstubs⟩ := StagedTree.commit_eq_ok htemp'.isName htemp'.hidden (h.moved_closed hr.moved)
    (fun _ => short_of_mem_segments fs request.stubsOutput_mem_mentioned) h.stubs_parent
    (h.first_sole hr)
    (fun e he => Option.some.inj ((h.first_entry hr he).2.symm.trans h.stubs_directory)) hsecond
  exact ⟨k, l, count, mid, hfirst, hr, hstubs⟩

end Staged

/-! ## Both outputs -/

def replaced (request : CompileRequest) (config : Config) (fs : FileSystem) : FileSystem :=
  ((request.runWith config commitFirst).onFiles fs).2

/-- What is in the outputs after a compilation that succeeds, where the classes have been put at one
location and the stubs, after them, at another. -/
structure Published (request : CompileRequest) (config : Config) (content : ModuleContent)
    (fs after : FileSystem) (classes stubs : Location) : Prop where
  /-- Of each class there is one layout, and its stub is read below the second output. -/
  stubs_read : (content.bindings.map (·.className)).Nodup ∧ ∀ layout ∈ content.bindings,
    after.readBytes (BindingStub.path config.binding request.stubsOutput request.package layout) =
      .ok (Text.toUtf8 (BindingStub.source config.binding request.package layout))
  stubs_holds : after.resolve request.stubsOutput = .ok (.present stubs) ∧
    after.Holds stubs (request.stubTree config content)
  stubs_named : fs.OwnName request.stubsOutput → stubs = fs.spelled request.stubsOutput
  /-- The classes have been put where the first output led then. -/
  classes_found : (request.replaced config fs).resolve request.rClassOutput = .ok (.present classes)
  classes_named : fs.OwnName request.rClassOutput → classes = fs.spelled request.rClassOutput
  /-- They are there still, and nothing else is, unless the stubs have come to the same place or above
  it. -/
  classes_holds : ¬ stubs <+: classes → after.Holds classes (request.classTree content)
  classes_read : ¬ stubs <+: classes → fs.OwnName request.rClassOutput →
    after.readBytes (JavaSource.file request.rClassOutput request.package "R") =
        .ok (Text.toUtf8 (RClass.source request.package content.symbols)) ∧
      after.readBytes (JavaSource.file request.rClassOutput request.package "BR") =
        .ok (Text.toUtf8 (BrClass.source request.package content.bindings))
  /-- Then they are gone. -/
  classes_lost : stubs <+: classes → ∀ name ∈ ["R".toList, "BR".toList], ∀ bytes,
    after.get? (classes ++ JavaSource.place request.package name) ≠ some (.file bytes)
  /-- The other way round the compilation does not succeed. -/
  not_above : ¬ Above stubs classes

theorem stubTree_eq_none (hcontent : request.content config fs = .ok content) {name : Text}
    (hname : name ∈ ["R".toList, "BR".toList]) (front : List Text) :
    request.stubTree config content (front ++ JavaSource.place request.package name) = none := by
  obtain ⟨dependencies, hread⟩ := exists_readFiles_of_content hcontent
  refine BindingStub.addTo_of_ne fun layout hlayout heq => ?_
  obtain ⟨file, -, contents, hlayout⟩ := LayoutModule.exists_of_readFiles hread hlayout
  have hlength := Identifier.length_bindingClass (Identifier.layoutName file)
  rw [← LayoutModule.className_of_readLayout hlayout] at hlength
  unfold JavaSource.place at heq
  rw [List.nil_append, ← List.append_assoc] at heq
  obtain ⟨-, hlast⟩ := List.append_inj' heq rfl
  obtain rfl : name = layout.className := List.append_cancel_right (List.cons.inj hlast).1
  simp only [List.mem_cons, List.not_mem_nil, or_false] at hname
  rcases hname with hname | hname
  all_goals
    rw [hname] at hlength
    exact absurd hlength (by decide)

theorem classTree_R (request : CompileRequest) (content : ModuleContent) :
    request.classTree content (JavaSource.place request.package "R") =
      some (Text.toUtf8 (RClass.source request.package content.symbols)) := by
  have hne : JavaSource.place request.package "R" ≠ JavaSource.place request.package "BR" :=
    fun heq => absurd (JavaSource.place_inj heq) (by decide)
  unfold classTree
  rw [Function.update_of_ne hne, Function.update_self]

theorem classTree_BR (request : CompileRequest) (content : ModuleContent) :
    request.classTree content (JavaSource.place request.package "BR") =
      some (Text.toUtf8 (BrClass.source request.package content.bindings)) :=
  Function.update_self ..

/-- What both commits leave when the temporary directories are gone. -/
theorem Staged.published {mid after : FileSystem}
    (h : request.Staged config content fs r stubs scratch s.files)
    (hr : PutAt (Short (request.nameLimit fs)) r request.rClassOutput k s.files mid)
    (hstubs : PutAt (Short (request.nameLimit fs)) stubs request.stubsOutput l mid after)
    (hpackage : JavaSource.StaysBelow (bindingPackage request.package config.binding.packageSuffix))
    (hcontent : request.content config fs = .ok content)
    (hreplaced : request.replaced config fs = TemporaryPlace.clean [stubs, r, scratch] mid) :
    request.Published config content fs (TemporaryPlace.clean [stubs, r, scratch] after) k l := by
  have hremovable := h.second_removable hr hstubs
  obtain ⟨dependencies, hread⟩ := exists_readFiles_of_content hcontent
  have hnodup := LayoutModule.nodup_of_readFiles hread
  have hstubsHolds := h.second_clean hr hstubs (h.second_holds_stubs hr hstubs) hstubs.spelled
    (h.not_prefix_scratch hstubs)
  have hstubsFound := (h.second_closed hr hstubs).resolve
    (TemporaryPlace.keeps_clean hremovable h.inUse.distinct)
    (fun _ => short_of_mem_segments fs request.stubsOutput_mem_mentioned) hstubs.resolve (.inl rfl)
  have horigin : (TemporaryPlace.clean [stubs, r, scratch] after).workingDirectory =
      fs.workingDirectory :=
    (TemporaryPlace.get?_clean hremovable h.inUse.distinct).1.trans
      (hstubs.moved.origin.trans (h.moved_origin hr.moved))
  have hclassesHolds : ¬ l <+: k → (TemporaryPlace.clean [stubs, r, scratch] after).Holds k
      (request.classTree content) := fun hnot =>
    h.second_clean hr hstubs (h.second_holds_classes hr hstubs hnot) hr.spelled
      (h.not_prefix_scratch hr)
  have hclassesNamed : fs.OwnName request.rClassOutput → k = fs.spelled request.rClassOutput :=
    fun hown => (hr.named (request.ownName_of_inUse h.inUse request.rClassOutput_mem_mentioned
      hown)).trans (spelled_congr h.inUse.grows.origin _)
  refine ⟨⟨hnodup, fun layout hlayout => ?_⟩, ⟨hstubsFound, hstubsHolds⟩, fun hown => ?_, ?_,
    hclassesNamed, hclassesHolds, fun hnot hown => ?_, ?_, h.not_above hr hstubs⟩
  · exact JavaSource.readBytes_file hstubsFound hstubsHolds hpackage
      (slash_not_mem_of_content hcontent layout hlayout) (BindingStub.addTo_of_mem hnodup hlayout)
  · exact (hstubs.named (h.moved_ownName hr.moved request.stubsOutput_mem_mentioned hown)).trans
      (spelled_congr (h.moved_origin hr.moved) _)
  · rw [hreplaced]
    exact (h.moved_closed hr.moved).resolve
      (TemporaryPlace.keeps_clean (h.first_removable hr hstubs) h.inUse.distinct)
      (fun _ => short_of_mem_segments fs request.rClassOutput_mem_mentioned) hr.resolve (.inl rfl)
  · have hholds := hclassesHolds hnot
    rw [hclassesNamed hown] at hholds
    have hfound := hown.resolve horigin hholds.directory_self
    have hmodule := hpackage.of_bindingPackage
    exact ⟨JavaSource.readBytes_file hfound hholds hmodule (by decide) (request.classTree_R content),
      JavaSource.readBytes_file hfound hholds hmodule (by decide) (request.classTree_BR content)⟩
  · rintro ⟨rest, rfl⟩ name hname bytes hget
    rw [List.append_assoc] at hget
    have hfile := (hstubsHolds.file _ _).1 hget
    rw [stubTree_eq_none hcontent hname] at hfile
    cases hfile

/-- A compilation that succeeds has put the stubs in place whole, and the classes before them. -/
theorem published_of_run {after : FileSystem} {summary : CompileSummary}
    (hpackage : JavaSource.StaysBelow (bindingPackage request.package config.binding.packageSuffix))
    (h : (request.run config).onFiles fs = (.ok summary, after)) :
    ∃ content classes stubs, request.content config fs = .ok content ∧
      summary.bindings = content.bindings.length ∧
      request.Published config content fs after classes stubs := by
  obtain ⟨calls, hperform⟩ := Action.onFiles_eq h
  rw [run_eq_runWith] at hperform
  obtain ⟨e, after', -, hrun⟩ | ⟨content, written, r, stubs, scratch, rFiles, stubsFiles, s,
    hcontent, hstaged, hrun⟩ := runWith_cases hpackage fs []
  · rw [hrun] at hperform
    cases hperform
  · rw [hrun] at hperform
    obtain ⟨t, hbind, hafter⟩ := Action.thenAlways_eq.1 hperform
    obtain ⟨u, t', hcommit, hpure⟩ := Action.bind_eq_ok.1 hbind
    cases hpure
    obtain rfl : after = TemporaryPlace.clean [stubs, r, scratch] t.files :=
      congrArg BuildState.files hafter
    obtain ⟨k, l, count, mid, hfirst, hr, hstubs⟩ := hstaged.exists_putAt hcommit
    refine ⟨content, k, l, hcontent, rfl, hstaged.published hr hstubs hpackage hcontent ?_⟩
    unfold replaced
    rw [Action.onFiles_eq_perform, hrun, Action.perform_thenAlways, Action.perform_replace,
      perform_commitFirst, hfirst]

def sharedRequest : CompileRequest where
  package := "com.app"
  resourceFiles := []
  classInfos := []
  symbolLists := []
  nonTransitive := false
  rClassOutput := "out"
  stubsOutput := "out"

/-- In one directory the classes of resources are lost to the stubs. -/
theorem published_of_run_shared :
    ∃ after, (sharedRequest.run {}).onFiles FileSystem.empty = (.ok ⟨0, 0, 0, 0⟩, after) ∧
      (∃ content, sharedRequest.Published {} content FileSystem.empty after ["out"] ["out"]) ∧
      ∀ bytes, after.get? (["out".toList] ++ JavaSource.place sharedRequest.package "R") ≠
        some (.file bytes) := by
  have hrun : ((sharedRequest.run {}).onFiles FileSystem.empty).1 = .ok ⟨0, 0, 0, 0⟩ := by
    decide +kernel
  generalize h : (sharedRequest.run {}).onFiles FileSystem.empty = outcome at *
  obtain ⟨result, after⟩ := outcome
  obtain rfl := hrun
  obtain ⟨content, classes, stubs, -, -, hpublished⟩ := published_of_run (by decide) h
  have hown : FileSystem.empty.OwnName sharedRequest.rClassOutput := by decide +kernel
  have hspelled : FileSystem.empty.spelled sharedRequest.rClassOutput = ["out"] := by decide +kernel
  obtain rfl : classes = ["out"] := (hpublished.classes_named hown).trans hspelled
  obtain rfl : stubs = ["out"] := (hpublished.stubs_named hown).trans hspelled
  exact ⟨after, rfl, ⟨content, hpublished⟩,
    hpublished.classes_lost (List.prefix_refl _) _ (List.mem_cons_self ..)⟩

end CompileRequest

end AndroidResources
