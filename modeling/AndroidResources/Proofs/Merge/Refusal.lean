import AndroidResources.Proofs.Build.Destination
import AndroidResources.Proofs.Merge.Outcome
import AndroidResources.Proofs.Merge.Request

/-!
# When the collaborator fails

* `ManifestMerger.Local` : a merger that writes only where it is asked to;
* `Residue` : what is left, when a merger fails, of all that the merge has made;
* `Outside` : the manifest is that of a location outside the output;
* `Withdrawn` : there is no output then, and the manifest is as before;
* `AsksOnce`, `merger_asked` : a merger is asked once, or it plays no part;
* `refused_leftovers` : outputs and manifests that are not withdrawn.
-/

namespace AndroidResources

open FileSystem

namespace ManifestMerger

/-- Where the path leads down names from a directory, with no link on the way, all that is not below
this directory stays as it is. -/
def Local (merger : ManifestMerger) : Prop :=
  ∀ call target fs l names, fs.Leads target l names → fs.NoLinks l names →
    Besides l fs (merger call target fs).2

/-- The merger that gives up over an empty manifest. -/
def refusing (reason : Text) : ManifestMerger := fun _ target fs =>
  (.error (.manifestMerge reason), (fs.writeFile target .empty).toOption.getD fs)

theorem local_refusing (reason : Text) : (refusing reason).Local := by
  intro _ target fs l names hleads hlinks
  unfold refusing
  cases hwrite : fs.writeFile target .empty with
  | error fault => exact .refl l fs
  | ok after =>
    obtain ⟨k, hk, rfl⟩ := writeFile_eq_ok hwrite
    obtain ⟨rfl, hplace⟩ := fileLocation_leads hleads hlinks hk
    exact .of_place hplace _ (List.prefix_append ..)

end ManifestMerger

namespace ResourceMerge

variable {m : ResourceMerge} {output manifest : Path} {plan : MergePlan}
  {fs removed made staged above opened after left : FileSystem} {k l l' : Location}
  {name name' : Text} {merger : ManifestMerger} {call : ManifestCall}

/-! ## What is left of a merge that fails -/

/-- Directories on the way to the manifest have been added, as far as the two paths can tell. -/
structure Residue (output manifest : Path) (made after : FileSystem) : Prop where
  keeps : Keeps (fun _ => True) made after
  within : Path.stripBase? output manifest ≠ none → after.pathExists output = made.pathExists output
  elsewhere : ∀ l, made.Denotes manifest l → ∀ p ∈ [output, manifest], ∀ k, made.Denotes p k →
    after.get? k = made.get? k ∨
      Above l k ∧ made.get? k = none ∧ after.get? k = some .directory

theorem mem_mentioned {p : Path} (hp : p ∈ [output, manifest]) :
    p ∈ m.mentioned output (some manifest) := by
  rcases List.mem_cons.1 hp with rfl | hp
  · exact m.output_mem_mentioned ..
  · rw [List.mem_singleton.1 hp]
    exact manifest_mem_mentioned rfl

theorem Staged.not_mem (hstaged : m.Staged output (some manifest) plan removed made staged l name)
    {p : Path} (hp : p ∈ [output, manifest]) (hk : made.Denotes p k) : name ∉ k := fun hmem => by
  obtain hsegment | ⟨k', e, hget, hk'⟩ := hk.mem hmem
  · exact hstaged.unmentioned p (mem_mentioned hp) hsegment
  · exact hstaged.unused k' e hget hk'

theorem Staged.residue (hstaged : m.Staged output (some manifest) plan removed made staged l name)
    (hsame : Besides (l ++ [name]) staged left) :
    Residue output manifest made (left.removeTree ((stagingParent output).join ⟨name⟩)).1 := by
  have hafter := hstaged.besides.trans
    (hsame.trans (hstaged.temporary.of_besides hsame).removeTree_besides)
  have hmade := hstaged.temporary.of_besides hstaged.besides.symm
  refine ⟨hafter.keeps_of_vacant (hstaged.get?_temporary (List.prefix_refl _)), fun _ => ?_,
    fun _ _ p hp k hk => .inl (hafter.entries k fun hbelow => ?_)⟩
  · exact hmade.closed.pathExists hafter hmade.not_spelled fun segment hsegment =>
      ne_of_mem_of_not_mem hsegment (hstaged.unmentioned output (m.output_mem_mentioned ..))
  · exact hstaged.not_mem hp hk (hbelow.subset (by simp))

/-- A merge whose manifest is staged beside the output leaves directories above the manifest. -/
theorem Opened.residue (hstaged : m.Staged output (some manifest) plan removed made staged l name)
    (hstrip : Path.stripBase? output manifest = none)
    (hopened : m.Opened output manifest staged above opened l name l' name')
    (hsame : Besides (l' ++ [name']) opened left) :
    Residue output manifest made
      ((left.removeTree ((stagingParent manifest).join ⟨name'⟩)).1.removeTree
        ((stagingParent output).join ⟨name⟩)).1 := by
  have hbeside := hsame.trans (hopened.manifest.of_besides hsame).removeTree_besides
  have hafter := (hopened.output.of_apart hbeside hopened.manifest.not_spelled).removeTree_besides
  have habove := hopened.besides.trans hbeside
  have hstagedKeeps := hstaged.besides.keeps_of_vacant (hstaged.get?_temporary (List.prefix_refl _))
  have hadds := createDirectories_adds hopened.createDirectories
  -- what was there before the winners were copied has neither of the fresh names
  have hkept : ∀ k e, made.get? k = some e → above.get? k = some e := fun k e hget =>
    hadds.get?_of_some (hstagedKeeps.entries k e (fun _ _ => trivial) hget)
  have hsteps : ∀ k, name ∉ k → name' ∉ k →
      ((left.removeTree ((stagingParent manifest).join ⟨name'⟩)).1.removeTree
        ((stagingParent output).join ⟨name⟩)).1.get? k = above.get? k := fun k hname hname' => by
    rw [hafter.entries k fun hbelow => hname (hbelow.subset (by simp)),
      habove.entries k fun hbelow => hname' (hbelow.subset (by simp))]
  refine ⟨⟨?_, fun k e _ hget => ?_⟩, fun hne => absurd hstrip hne, fun lm hlm p hp k hk => ?_⟩
  · rw [hafter.origin, habove.origin, hadds.origin, hstaged.besides.origin]
  · rw [hsteps k (hstaged.unused k e hget) (hopened.unused k e (hkept k e hget)), hkept k e hget]
  · have hname := hstaged.not_mem hp hk
    have hname' : name' ∉ k := fun hmem => by
      obtain hsegment | ⟨k', e, hget, hk'⟩ := hk.mem hmem
      · exact hopened.unmentioned p (mem_mentioned hp) hsegment
      · exact hopened.unused k' e (hkept k' e hget) hk'
    have hmanifest : staged.Denotes manifest lm := hlm.of_keeps hstagedKeeps
      fun k' target hprefix hget => by
        rwa [hstaged.besides.entries k' fun hbelow => hstaged.not_mem (by simp) hlm
          ((hbelow.trans hprefix).subset (by simp))] at hget
    have hdirectories := createDirectories_denotes hmanifest
    rw [hopened.createDirectories] at hdirectories
    rw [hsteps k hname hname',
      ← hstaged.besides.entries k fun hbelow => hname (hbelow.subset (by simp))]
    exact hdirectories.entries k

/-- Wherever a merger is asked and fails, only a residue is left. -/
theorem Route.residue {target : Path} {seen : FileSystem} {cleanUp : FileSystem → FileSystem}
    (h : Route m output manifest removed target seen cleanUp) (call : ManifestCall)
    (hgone : removed.pathExists output = false) (htext : output.text ≠ [])
    (hup : "..".toList ∉ output.segments) (hup' : "..".toList ∉ manifest.segments)
    (hlocal : merger.Local) :
    ∃ made, removed.createDirectories (stagingParent output) = (made, none) ∧
      Residue output manifest made (cleanUp (merger call target seen).2) := by
  cases h with
  | within hstaged hstrip =>
    refine ⟨_, hstaged.createDirectories, hstaged.residue ?_⟩
    have hnames := properNames_ne_nil_of_createDirectories htext hgone hstaged.createDirectories
    obtain ⟨-, names, hpath, hisName, -⟩ :=
      Path.exists_ofNames_of_stripBase? hup hup' hnames hstrip
    rw [hpath]
    refine hlocal _ _ _ _ names ?_ (hstaged.holds.noLinks names)
    have hleads := hstaged.temporary.leads.into hstaged.temporary.isName
      hstaged.holds.directory_self
    by_cases hne : names = []
    · subst hne
      exact hleads.join (by decide) (by decide)
    · exact hleads.ofNames hne hisName
  | beside hstaged hstrip hopened =>
    exact ⟨_, hstaged.createDirectories, hopened.residue hstaged hstrip
      (hlocal _ _ _ _ _ hopened.leads (hopened.holds.noLinks _))⟩

/-! ## Neither an output nor another manifest -/

/-- Without the old output the manifest is that of a location that is not below the output's, and it
has not been in the old output. -/
structure Outside (fs : FileSystem) (output manifest : Path) (k l : Location) : Prop where
  destination : (withoutOutput fs output).Denotes output k
  place : (withoutOutput fs output).Denotes manifest l
  apart : ¬ k <+: l
  old : ∀ k', fs.resolveSegments .kept output output.segments = .ok (.present k') → ¬ k' <+: l

/-- The output does not exist, as long as no link to nowhere has been there. A manifest outside of
it is as before, or it is a directory that has been missing above the output. -/
structure Withdrawn (output manifest : Path) (fs after : FileSystem) : Prop where
  gone : (Path.stripBase? output manifest ≠ none ∨ ∃ k l, Outside fs output manifest k l ∧
      ∀ target, (withoutOutput fs output).get? k ≠ some (.link target)) →
    after.pathExists output = false
  kept : ∀ k l, Outside fs output manifest k l → after.get? l = fs.get? l ∨
    Above k l ∧ fs.get? l = none ∧ after.get? l = some .directory

theorem withoutOutput_elsewhere (fs : FileSystem) (output : Path)
    (hl : ∀ k, fs.resolveSegments .kept output output.segments = .ok (.present k) → ¬ k <+: l) :
    (withoutOutput fs output).get? l = fs.get? l := by
  unfold withoutOutput
  split
  · exact (removeTree_elsewhere fs output).2 l hl
  · rfl

theorem Outside.of_createDirectories (h : Outside fs output manifest k l)
    (hcreate : (withoutOutput fs output).createDirectories (stagingParent output) = (made, none)) :
    AddsDirectories (Above k) (withoutOutput fs output) made ∧ made.Denotes output k ∧
      made.Denotes manifest l := by
  have hadds := createDirectories_denotes h.destination
  rw [hcreate] at hadds
  have hlinks : ∀ (k' : Location) (target : Path), made.get? k' = some (.link target) →
      (withoutOutput fs output).get? k' = some (.link target) := fun _ _ hget =>
    hadds.get?_of_ne_directory hget (by simp)
  exact ⟨hadds, h.destination.of_keeps (hadds.keeps _) fun k' target _ => hlinks k' target,
    h.place.of_keeps (hadds.keeps _) fun k' target _ => hlinks k' target⟩

theorem withdrawn_of_residue (hup : "..".toList ∉ output.segments)
    (hgone : (withoutOutput fs output).pathExists output = false)
    (hcreate : (withoutOutput fs output).createDirectories (stagingParent output) = (made, none))
    (hresidue : Residue output manifest made after) : Withdrawn output manifest fs after := by
  have hmade := not_pathExists_of_createDirectories hup hgone hcreate
  refine ⟨?_, fun k l houtside => ?_⟩
  · rintro (hstrip | ⟨k, l, houtside, hlink⟩)
    · rw [hresidue.within hstrip, hmade]
    · obtain ⟨hadds, houtput, hmanifest⟩ := houtside.of_createDirectories hcreate
      have htext : output.text ≠ [] := by
        obtain ⟨_, _, hleads, -⟩ := houtside.destination
        exact hleads.1
      have hnames := properNames_ne_nil_of_createDirectories htext hgone hcreate
      obtain ⟨dir, hresolve, hdir⟩ := isDirectory_iff.1
        (isDirectory_of_createDirectories (text_stagingParent output) hcreate)
      obtain ⟨name, hleads⟩ := exists_leads_of_stagingParent hup hnames (.of_resolve hresolve hdir)
      obtain rfl := houtput.eq_of_leads hleads
      have hsame := (hresidue.elsewhere l hmanifest output (by simp) _ houtput).resolve_right
        fun hnew => houtside.apart hnew.1.1
      rw [hleads.pathExists_of_keeps hresidue.keeps hsame fun target hget =>
        hlink target (hadds.get?_of_ne_directory hget (by simp)), hmade]
  · obtain ⟨hadds, -, hmanifest⟩ := houtside.of_createDirectories hcreate
    have hsame := (hresidue.elsewhere l hmanifest manifest (by simp) l hmanifest).resolve_right
      fun hnew => hnew.1.2 rfl
    rw [hsame, ← withoutOutput_elsewhere fs output houtside.old]
    exact hadds.entries l

theorem withdrawn_of_text_eq_nil (htext : output.text = []) :
    Withdrawn output manifest fs after := by
  refine ⟨fun _ => ?_, fun k l houtside => ?_⟩
  · rw [Bool.eq_false_iff]
    intro hexists
    obtain ⟨l, hl⟩ := pathExists_iff.1 hexists
    exact (resolveSegments_eq_ok.1 hl).1 htext
  · obtain ⟨base, names, hleads, -⟩ := houtside.destination
    exact absurd htext hleads.1

theorem Route.withdrawn {target : Path} {seen : FileSystem} {cleanUp : FileSystem → FileSystem}
    (h : Route m output manifest (withoutOutput fs output) target seen cleanUp)
    (call : ManifestCall) (hgone : (withoutOutput fs output).pathExists output = false)
    (hup : "..".toList ∉ output.segments) (hup' : "..".toList ∉ manifest.segments)
    (hlocal : merger.Local) :
    Withdrawn output manifest fs (cleanUp (merger call target seen).2) := by
  by_cases htext : output.text = []
  · exact withdrawn_of_text_eq_nil htext
  · obtain ⟨made, hcreate, hresidue⟩ := h.residue call hgone htext hup hup' hlocal
    exact withdrawn_of_residue hup hgone hcreate hresidue

/-- Where a merger is asked, all winners have been copied. -/
theorem Route.copied {target : Path} {seen : FileSystem} {cleanUp : FileSystem → FileSystem}
    (h : Route m output manifest removed target seen cleanUp) :
    ∃ plan place, MergePlan.make removed m.config m.sets = .ok plan ∧
      seen.Holds place (plan.content removed) := by
  cases h with
  | within hstaged _ => exact ⟨_, _, hstaged.make, hstaged.holds⟩
  | beside hstaged _ hopened => exact ⟨_, _, hstaged.make, hopened.winners hstaged⟩

/-! ## One call -/

/-- Whatever merger there is, it is asked once, and that for all manifests that are declared. -/
structure AsksOnce (m : ResourceMerge) (output? manifest? : Option Path) (fs : FileSystem)
    (manifest : Path) (call : ManifestCall) (target : Path) (seen : FileSystem) : Prop where
  asked : manifest? = some manifest
  kind : call.kind = m.kind
  manifests : call.main :: call.overlays = (m.sets.filterMap (·.manifest?)).reverse
  /-- With an output the winners of the plan are in one place by then. -/
  copied : ∀ output ∈ output?, ∃ plan place,
    MergePlan.make (withoutOutput fs output) m.config m.sets = .ok plan ∧
      seen.Holds place (plan.content (withoutOutput fs output))
  calls : ∀ merger,
    (((m.withMerger merger).run output? manifest?).perform ⟨fs, []⟩).2.calls = [call]
  fault : ∀ merger e left, merger call target seen = (.error e, left) →
    (((m.withMerger merger).run output? manifest?).perform ⟨fs, []⟩).1 = .error e
  /-- A merger that fails leaves no output, and the manifest that there has been. -/
  withdrawn : ∀ output ∈ output?, "..".toList ∉ output.segments → "..".toList ∉ manifest.segments →
    ∀ merger : ManifestMerger, merger.Local → ∀ e left, merger call target seen = (.error e, left) →
      Withdrawn output manifest fs
        (((m.withMerger merger).run output? manifest?).perform ⟨fs, []⟩).2.files

theorem asksOnce_of_route {target : Path} {seen : FileSystem} {cleanUp : FileSystem → FileSystem}
    (hcall : SourceSet.manifestCall? m.kind m.sets = some call)
    (hasks : Action.Asks (fun merger => (m.withMerger merger).run (some output) (some manifest))
      ⟨fs, []⟩ call target seen cleanUp)
    (hgone : (withoutOutput fs output).pathExists output = false)
    (hroute : Route m output manifest (withoutOutput fs output) target seen cleanUp) :
    m.AsksOnce (some output) (some manifest) fs manifest call target seen := by
  obtain ⟨hkind, hmanifests⟩ := manifestCall?_eq_some.1 hcall
  refine ⟨rfl, hkind, hmanifests, ?_, hasks.calls, fun merger e left hfail => ?_, ?_⟩
  · rintro _ ⟨⟩
    exact hroute.copied
  · rw [hasks.fault merger e left hfail]
  · rintro _ ⟨⟩ hup hup' merger hlocal e left hfail
    have hwithdrawn := hroute.withdrawn call hgone hup hup' hlocal
    rw [hfail] at hwithdrawn
    rwa [hasks.fault merger e left hfail]

theorem asksOnce_of_none (hcall : SourceSet.manifestCall? m.kind m.sets = some call)
    (hasks : Action.Asks (fun merger => (m.withMerger merger).run none (some manifest)) ⟨fs, []⟩
      call manifest fs fun fs => fs) :
    m.AsksOnce none (some manifest) fs manifest call manifest fs := by
  obtain ⟨hkind, hmanifests⟩ := manifestCall?_eq_some.1 hcall
  refine ⟨rfl, hkind, hmanifests, by simp, hasks.calls, fun merger e left hfail => ?_, by simp⟩
  rw [hasks.fault merger e left hfail]

/-- The manifests of source sets are merged by one call of the merger, for the manifest that was
declared last and the others before it in reverse order, or there is none. A merge calls its merger
once or does not depend on it. -/
theorem merger_asked :
    (∀ (merger : ManifestMerger) (kind : MergeKind) (sets : List SourceSet) (target : Path)
        (s : BuildState),
      sets.filterMap (·.manifest?) = [] ∧
          (mergeManifests merger kind sets target).perform s = (.error .missingManifest, s) ∨
        ∃ call : ManifestCall, call.kind = kind ∧
          call.main :: call.overlays = (sets.filterMap (·.manifest?)).reverse ∧
          (mergeManifests merger kind sets target).perform s =
            ((merger call target s.files).1, ⟨(merger call target s.files).2, s.calls ++ [call]⟩)) ∧
    ∀ (m : ResourceMerge) (output? manifest? : Option Path) (fs : FileSystem),
      Action.Ignores (fun merger => (m.withMerger merger).run output? manifest?) ⟨fs, []⟩ ∨
        ∃ manifest call target seen,
          m.AsksOnce output? manifest? fs manifest call target seen := by
  refine ⟨fun merger kind sets target s => ?_, fun m output? manifest? fs => ?_⟩
  · cases hcall : SourceSet.manifestCall? kind sets with
    | none =>
      exact .inl ⟨List.filterMap_eq_nil_iff.2 (manifestCall?_eq_none.1 hcall),
        perform_mergeManifests_of_none hcall target s⟩
    | some call =>
      obtain ⟨hkind, hmanifests⟩ := manifestCall?_eq_some.1 hcall
      exact .inr ⟨call, hkind, hmanifests, perform_mergeManifests hcall target s⟩
  · cases output? with
    | some output =>
      obtain hignores | ⟨hgone, hmay⟩ := m.run_mayAsk output manifest? fs []
      · exact .inl hignores
      · cases hmay with
        | ignores hignores => exact .inl hignores
        | asks hmanifest hcall hasks hroute =>
          subst hmanifest
          exact .inr ⟨_, _, _, _, asksOnce_of_route hcall hasks hgone hroute⟩
    | none =>
      cases manifest? with
      | none => exact .inl ⟨_, _, fun _ => rfl⟩
      | some manifest =>
        obtain hignores | ⟨call, hcall, hasks⟩ :=
          mergeManifests_asks m.kind m.sets manifest ⟨fs, []⟩
        · exact .inl (hignores.bind fun _ => .pure _)
        · exact .inr ⟨_, _, _, _, asksOnce_of_none hcall (hasks.bind fun _ => .pure _)⟩

/-- A merger that refuses is asked, and nothing is left of the merge. -/
theorem merger_asked_variants :
    ∃ after, ((variantMerge.withMerger (.refusing "no")).run (some "out")
        (some "gen/M.xml")).onFiles variantFiles = (.error (.manifestMerge "no"), after) ∧
      after.pathExists "out" = false ∧ after.get? ["gen", "M.xml"] = none := by
  obtain ⟨_, _, hignored⟩ | ⟨manifest, call, target, seen, hasks⟩ :=
    merger_asked.2 variantMerge (some "out") (some "gen/M.xml") variantFiles
  · have hcalls : (((variantMerge.withMerger (.refusing "no")).run (some "out")
        (some "gen/M.xml")).perform ⟨variantFiles, []⟩).2.calls ≠ [] := by
      decide +kernel
    exact absurd (by rw [hignored]) hcalls
  · obtain rfl := Option.some.inj hasks.asked
    have hwithdrawn := hasks.withdrawn "out" rfl (by decide) (by decide) (.refusing "no")
      (ManifestMerger.local_refusing _) _ _ rfl
    have hold : variantFiles.resolveSegments .kept "out" (Path.segments "out") =
        .ok (.present ["out"]) := by
      decide +kernel
    have houtside : Outside variantFiles "out" "gen/M.xml" ["out"] ["gen", "M.xml"] := by
      refine ⟨Direct.denotes (by decide +kernel) (by decide) (by decide +kernel),
        Direct.denotes (by decide +kernel) (by decide) (by decide +kernel), by decide,
        fun k hk => ?_⟩
      rw [hold] at hk
      cases hk
      decide
    refine ⟨_, ?_, hwithdrawn.gone (.inr ⟨_, _, houtside, ?_⟩), ?_⟩
    · rw [Action.onFiles_eq_perform, hasks.fault (.refusing "no") _ _ rfl]
    · have hnone : (withoutOutput variantFiles "out").get? ["out"] = none := by decide +kernel
      rw [hnone]
      simp
    · have hnone : variantFiles.get? ["gen", "M.xml"] = none := by decide +kernel
      obtain hsame | ⟨habove, -⟩ := hwithdrawn.kept _ _ houtside
      · exact hsame.trans hnone
      · exact absurd habove (by decide)

/-! ## What does stay -/

def refusedMerge : ResourceMerge :=
  variantMerge.withMerger (.refusing "no")

/-- Files with two links: one to nowhere, as long as `gen` is not there, and one out of the old
output. -/
def linkedFiles : FileSystem :=
  (variantFiles.place ["link"] (.link "gen/../main")).place ["out", "k"] (.link "../debug")

def linkedResidue (output manifest : Path) : FileSystem :=
  ((refusedMerge.run (some output) (some manifest)).onFiles linkedFiles).2

/-- The merge fails as its merger does, which writes only where it is asked to, and the manifest is
that of a location outside the output. -/
structure Refused (output manifest : Path) (k l : Location) : Prop where
  confined : refusedMerge.merger.Local
  noParent : "..".toList ∉ output.segments ∧ "..".toList ∉ manifest.segments
  destination : linkedFiles.Denotes output k
  place : linkedFiles.Denotes manifest l
  apart : ¬ k <+: l
  fault : ((refusedMerge.run (some output) (some manifest)).onFiles linkedFiles).1 =
    .error (.manifestMerge "no")

theorem linkedFiles_denotes {p : Path} {l : Location} (hdirect : linkedFiles.Direct p)
    (htext : p.text ≠ []) (hrelative : p.isAbsolute = false) (hl : linkedFiles.spelled p = l) :
    linkedFiles.Denotes p l := by
  subst hl
  refine hdirect.denotes htext ?_
  unfold origin
  rw [hrelative]
  decide +kernel

theorem linkedFiles_denotes_behind : linkedFiles.Denotes "./out/k/M.xml" ["debug", "M.xml"] := by
  have hsegments : Path.segments "./out/k/M.xml" =
      [".".toList, "out".toList, "k".toList] ++ ["M.xml".toList] := by
    decide
  have hwalk : linkedFiles.walk .followed linkLimit (linkedFiles.origin "./out/k/M.xml")
      [".".toList, "out".toList, "k".toList] = .ok (.present ["debug"]) := by
    decide +kernel
  refine ⟨_, _, .of_walk (by decide) (by decide +kernel) (by decide +kernel) hsegments hwalk
    (by decide), fun front rest heq hne => ?_, rfl, fun hnil => absurd hnil (by decide)⟩
  exact absurd (List.append_eq_nil_iff.1 heq.symm).1 hne

/-- When a merger refuses there may be a directory in the place of the manifest, where the output
needs one; an output that was a link to nowhere, as long as there was no directory for the manifest;
an output with a directory for a manifest that was behind a link in the old one. -/
theorem refused_leftovers :
    (Refused "a/out" "a" ["a", "out"] ["a"] ∧ linkedFiles.get? ["a"] = none ∧
        (linkedResidue "a/out" "a").get? ["a"] = some .directory) ∧
      (Refused "link" "gen/M.xml" ["link"] ["gen", "M.xml"] ∧
        (linkedResidue "link" "gen/M.xml").pathExists "link" = true) ∧
      Refused "out" "./out/k/M.xml" ["out"] ["debug", "M.xml"] ∧
        (linkedResidue "out" "./out/k/M.xml").pathExists "out" = true := by
  have hlocal : refusedMerge.merger.Local := ManifestMerger.local_refusing _
  have habove : Refused "a/out" "a" ["a", "out"] ["a"] :=
    ⟨hlocal, by decide,
      linkedFiles_denotes (by decide +kernel) (by decide) (by decide) (by decide +kernel),
      linkedFiles_denotes (by decide +kernel) (by decide) (by decide) (by decide +kernel),
      by decide, by decide +kernel⟩
  have hlink : Refused "link" "gen/M.xml" ["link"] ["gen", "M.xml"] :=
    ⟨hlocal, by decide,
      linkedFiles_denotes (by decide +kernel) (by decide) (by decide) (by decide +kernel),
      linkedFiles_denotes (by decide +kernel) (by decide) (by decide) (by decide +kernel),
      by decide, by decide +kernel⟩
  have hbehind : Refused "out" "./out/k/M.xml" ["out"] ["debug", "M.xml"] :=
    ⟨hlocal, by decide,
      linkedFiles_denotes (by decide +kernel) (by decide) (by decide) (by decide +kernel),
      linkedFiles_denotes_behind, by decide, by decide +kernel⟩
  exact ⟨⟨habove, by decide +kernel, by decide +kernel⟩, ⟨hlink, by decide +kernel⟩, hbehind,
    by decide +kernel⟩

end ResourceMerge

end AndroidResources
