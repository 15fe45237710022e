import AndroidResources.Merge.Manifest
import AndroidResources.Proofs.Build.Staging

/-!
# Merging manifests into a temporary directory

* `mergeManifests_eq_ok` : the collaborator has been called once, for the manifest declared last;
* `ManifestMerger.Confined` : a collaborator that writes only at the path that it is given;
* `ManifestMerger.confined_lastDeclared` : the one that takes the main manifest as it is;
* `mergeManifests_besides`, `mergeManifests_holds` : what is left as it was, what that one writes.
-/

namespace AndroidResources

open FileSystem

variable {merger : ManifestMerger} {kind : MergeKind} {sets : List SourceSet} {target : Path}
  {s s' : BuildState} {u : Unit}

def SourceSet.lastManifest? (sets : List SourceSet) : Option Path :=
  (sets.filterMap (·.manifest?)).getLast?

theorem SourceSet.lastManifest?_of_manifestCall? {call : ManifestCall}
    (h : SourceSet.manifestCall? kind sets = some call) :
    SourceSet.lastManifest? sets = some call.main := by
  unfold manifestCall? at h
  unfold lastManifest?
  rw [List.getLast?_eq_head?_reverse]
  split at h
  · cases h
  · next main overlays hreverse =>
    cases h
    rw [hreverse]
    rfl

theorem mergeManifests_eq_ok (h : (mergeManifests merger kind sets target).perform s = (.ok u, s')) :
    ∃ call, SourceSet.manifestCall? kind sets = some call ∧
      merger call target s.files = (.ok u, s'.files) ∧ s'.calls = s.calls ++ [call] := by
  unfold mergeManifests at h
  split at h
  · cases h
  · next call hcall =>
    refine ⟨call, hcall, ?_⟩
    have hperform : (merger.request call target).perform s =
        ((merger call target s.files).1,
          ⟨(merger call target s.files).2, s.calls ++ [call]⟩) := rfl
    rw [hperform] at h
    obtain ⟨hresult, rfl⟩ := Prod.mk.inj h
    exact ⟨Prod.ext hresult rfl, rfl⟩

/-- Whatever the merger does, it is done below the directory from which the path that it writes to
is read, where no link leads away from there. -/
def ManifestMerger.Confined (merger : ManifestMerger) : Prop :=
  ∀ call target fs l names, fs.Leads target l names → fs.NoLinks l names → names ≠ [] →
    Besides l fs (merger call target fs).2 ∧ (merger call target fs).2.get? l = some .directory

/-- A file is copied and directories are made on its way, at most. -/
theorem ManifestMerger.confined_lastDeclared : ManifestMerger.Confined .lastDeclared := by
  intro call target fs l names hleads hlinks hne
  exact copyInto_besides (s := ⟨fs, []⟩) call.main hleads hlinks hne

theorem mergeManifests_besides (kind : MergeKind) (sets : List SourceSet) {l : Location}
    {names : List Text} (hmerger : merger.Confined) (hleads : s.files.Leads target l names) (hlinks : s.files.NoLinks l names) (hne : names ≠ []) :
    Besides l s.files ((mergeManifests merger kind sets target).perform s).2.files ∧
      ((mergeManifests merger kind sets target).perform s).2.files.get? l = some .directory := by
  unfold mergeManifests
  split
  · exact ⟨.refl _ _, hleads.2.2.1⟩
  · next call _ => exact hmerger call target s.files l names hleads hlinks hne

theorem mergeManifests_lastDeclared
    (h : (mergeManifests .lastDeclared kind sets target).perform s = (.ok u, s')) :
    ∃ main calls, SourceSet.lastManifest? sets = some main ∧
      (copyInto main target).perform ⟨s.files, []⟩ = (.ok u, ⟨s'.files, calls⟩) := by
  obtain ⟨call, hcall, hmerger, -⟩ := mergeManifests_eq_ok h
  obtain ⟨calls, hcopy⟩ := Action.onFiles_eq hmerger
  exact ⟨call.main, calls, SourceSet.lastManifest?_of_manifestCall? hcall, hcopy⟩

theorem exists_mergeManifests_of_copyInto {main : Path} {t : BuildState}
    (hlast : SourceSet.lastManifest? sets = some main)
    (hcopy : (copyInto main target).perform ⟨s.files, []⟩ = (.ok (), t)) :
    ∃ calls, (mergeManifests .lastDeclared kind sets target).perform s =
      (.ok (), ⟨t.files, calls⟩) := by
  unfold SourceSet.lastManifest? at hlast
  rw [List.getLast?_eq_head?_reverse] at hlast
  obtain ⟨overlays, hreverse⟩ := List.head?_eq_some_iff.1 hlast
  have hcall : SourceSet.manifestCall? kind sets = some ⟨kind, main, overlays⟩ := by
    unfold SourceSet.manifestCall?
    rw [hreverse]
  refine ⟨s.calls ++ [⟨kind, main, overlays⟩], ?_⟩
  unfold mergeManifests
  rw [hcall]
  show ((ManifestMerger.lastDeclared ⟨kind, main, overlays⟩ target s.files).1, BuildState.mk
    (ManifestMerger.lastDeclared ⟨kind, main, overlays⟩ target s.files).2 _) = _
  unfold ManifestMerger.lastDeclared
  rw [Action.onFiles_eq_perform, hcopy]

theorem endsInSlash_of_mergeManifests
    (h : (mergeManifests .lastDeclared kind sets target).perform s = (.ok u, s')) :
    target.endsInSlash = false := by
  obtain ⟨main, calls, -, hcopy⟩ := mergeManifests_lastDeclared h
  obtain ⟨u, mid, -, hchange⟩ := Action.bind_eq_ok.1 hcopy
  obtain ⟨after, hfile, -⟩ := Action.change_eq_ok.1 hchange
  obtain ⟨origin, content, l, -, hl, -⟩ := copyFile_eq_ok hfile
  rw [Bool.eq_false_iff]
  exact fun hslash => fileLocation_of_endsInSlash hslash l hl

theorem mergeManifests_holds {S : Text → Prop} {l : Location}
    {files : List Text → Option ByteArray} {names : List Text}
    (hfiles : s.files.Holds l files) (hclosed : Closed S s.files) (hl : ¬ ∀ n ∈ l, S n)
    (hsources : ∀ set ∈ sets, ∀ p ∈ set.manifest?, ∀ segment ∈ p.segments, S segment)
    (hleads : s.files.Leads target l names) (hne : names ≠ [])
    (h : (mergeManifests .lastDeclared kind sets target).perform s = (.ok u, s')) :
    Besides l s.files s'.files ∧ ∃ main bytes, SourceSet.lastManifest? sets = some main ∧
      s.files.readBytes main = .ok bytes ∧
        s'.files.Holds l (Function.update files names (some bytes)) := by
  obtain ⟨main, calls, hlast, hcopy⟩ := mergeManifests_lastDeclared h
  have hmain : ∀ segment ∈ main.segments, S segment := by
    obtain ⟨set, hset, hmanifest⟩ := List.mem_filterMap.1 (List.mem_of_getLast? hlast)
    exact hsources set hset main hmanifest
  obtain ⟨-, hsame, bytes, hread, hholds⟩ :=
    copyInto_holds (s := ⟨s.files, []⟩) hfiles hclosed hl hmain hleads hne hcopy
  exact ⟨hsame, main, bytes, hlast, hread, hholds⟩

end AndroidResources
