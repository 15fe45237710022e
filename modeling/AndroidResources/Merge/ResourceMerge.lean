import AndroidResources.Build.Staging
import AndroidResources.Merge.Manifest
import AndroidResources.Merge.Plan

/-!
# Merging resources

The output directory is removed first and comes back only when all winners and the manifest have
been written next to it.

* `ResourceMerge` : what is merged and how;
* `ResourceMerge.withManifest` : the merged manifest, staged inside the output or beside its own
  destination;
* `ResourceMerge.run` : the whole merge.
-/

namespace AndroidResources

structure MergeReport where
  written : Nat := 0
  overridden : List Path := []
  deriving DecidableEq, Repr

structure ResourceMerge where
  config : MergeConfig
  merger : ManifestMerger
  kind : MergeKind
  sets : List SourceSet

namespace ResourceMerge

def mentioned (m : ResourceMerge) (output : Path) (manifest? : Option Path) : List Path :=
  output :: manifest?.toList ++
    m.sets.flatMap fun set => set.resources ++ set.assets ++ set.manifest?.toList

/-- Copies winners to their places below a directory, one after the other. -/
def copyWinners (winners : List (List Text × Path)) (dir : Path) : Action Unit :=
  winners.forM fun winner => copyInto winner.2 (dir.join (.ofNames winner.1))

/-- The name of a staged manifest whose destination has none. -/
def defaultManifestName : Text := "AndroidManifest.xml"

/-- The action with the merged manifest staged. Below the output it is part of the staged output;
anywhere else it is staged beside its destination and moved there after the action. -/
def withManifest (m : ResourceMerge) (output staging : Path) (manifest? : Option Path)
    (body : Action Unit) : Action Unit :=
  match manifest? with
  | none => body
  | some manifest =>
    match Path.stripBase? output manifest with
    | some steps => do
      mergeManifests m.merger m.kind m.sets (staging.join (.ofComponents steps))
      body
    | none => do
      let parent := stagingParent manifest
      Action.createDirectories parent
      withTemporary parent manifest (m.mentioned output (some manifest)) fun dir => do
        let staged := dir.join ⟨manifest.fileName?.getD defaultManifestName⟩
        mergeManifests m.merger m.kind m.sets staged
        body
        Action.change manifest (·.rename staged manifest)

def runInto (m : ResourceMerge) (output : Path) (manifest? : Option Path) : Action MergeReport := do
  if ← Action.ask (·.pathExists output) then
    Action.changePartly output (·.removeTree output)
  let plan ← Action.inspect (MergePlan.make · m.config m.sets)
  let parent := stagingParent output
  Action.createDirectories parent
  withTemporary parent output (m.mentioned output manifest?) fun staging => do
    copyWinners plan.winners.toList staging
    m.withManifest output staging manifest? (Action.change output (·.rename staging output))
  return ⟨plan.winners.size, plan.overridden.keys.map .ofNames⟩

/-- The merge. Without an output directory only the manifest is merged, if it is asked for. -/
def run (m : ResourceMerge) (output? manifest? : Option Path) : Action MergeReport :=
  match output?, manifest? with
  | some output, _ => m.runInto output manifest?
  | none, some manifest => do
    mergeManifests m.merger m.kind m.sets manifest
    return {}
  | none, none => return {}

end ResourceMerge

end AndroidResources
