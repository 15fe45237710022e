import AndroidResources.Build.Action
import AndroidResources.Merge.SourceSet

/-!
# Merging manifests

* `ManifestMerger` : the collaborator that merges the content of manifests;
* `ManifestMerger.lastDeclared` : the one that takes the main manifest as it is;
* `SourceSet.manifestCall?` : what the collaborator is asked for;
* `mergeManifests` : asks it.
-/

namespace AndroidResources

/-- Writes the merged manifest to a path. -/
abbrev ManifestMerger := ManifestCall → Path → FileSystem → Except BuildError Unit × FileSystem

/-- The main manifest unchanged. -/
def ManifestMerger.lastDeclared : ManifestMerger := fun call output =>
  (copyInto call.main output).onFiles

/-- What a merger is asked for the manifests of source sets: the one declared last is the main
one. Without a manifest there is nothing to ask. -/
def SourceSet.manifestCall? (kind : MergeKind) (sets : List SourceSet) : Option ManifestCall :=
  match (sets.filterMap (·.manifest?)).reverse with
  | [] => none
  | main :: overlays => some ⟨kind, main, overlays⟩

/-- A call of the merger, noted in the state of the build. -/
def ManifestMerger.request (merger : ManifestMerger) (call : ManifestCall) (output : Path) :
    Action Unit :=
  Action.ofFunction fun state =>
    let (result, files) := merger call output state.files
    (result, ⟨files, state.calls ++ [call]⟩)

/-- The merged manifest of source sets, one of which needs to have one. -/
def mergeManifests (merger : ManifestMerger) (kind : MergeKind) (sets : List SourceSet)
    (output : Path) : Action Unit :=
  match SourceSet.manifestCall? kind sets with
  | none => throw .missingManifest
  | some call => merger.request call output

end AndroidResources
