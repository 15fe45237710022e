import AndroidResources.FileSystem.Search
import AndroidResources.Merge.SourceSet

/-!
# Merge plans

Every file below a resource or asset directory is offered for its place in the merged tree. The
last offer for a place wins.

* `SourceSet.directories` : the declared directories in order, with the root they are merged under;
* `resolveRoot` : the directory that is searched for a declared one;
* `MergePlan`, `MergePlan.make` : the winners, and the places with more than one offer.
-/

namespace AndroidResources

/-- The roots of a merged tree. -/
inductive MergeRoot
  | resources
  | assets
  deriving DecidableEq, Repr

def MergeRoot.name : MergeRoot → Text
  | resources => "res"
  | assets => "assets"

/-- The declared directories of source sets in order, resources before assets. -/
def SourceSet.directories (sets : List SourceSet) : List (MergeRoot × Path) :=
  sets.flatMap fun set =>
    set.resources.map (MergeRoot.resources, ·) ++ set.assets.map (MergeRoot.assets, ·)

/-- The directory that is searched for a declared one: its child with the given name, unless it has
that name itself. -/
def resolveRoot (fs : FileSystem) (dir : Path) (name : Text) : Path :=
  let child := dir.join ⟨name⟩
  if dir.fileName? ≠ some name ∧ fs.isDirectory child then child else dir

/-- A file offered for a place in the merged tree. -/
structure Offer where
  /-- The names from the top of the merged tree. -/
  place : List Text
  source : Path
  deriving DecidableEq, Repr

/-- The offers of a declared directory, which has to be there. -/
def offers (fs : FileSystem) (config : MergeConfig) (declared : MergeRoot × Path) :
    Except BuildError (List Offer) :=
  let root := resolveRoot fs declared.2 declared.1.name
  if fs.isDirectory root then
    .ok ((fs.findFiles config root).map fun file => ⟨declared.1.name :: file.names, file.path⟩)
  else .error (.missingSourceDirectory root)

/-- Which file wins each place of the merged tree. -/
structure MergePlan where
  winners : OrderedMap (List Text) Path := .empty
  overridden : OrderedSet (List Text) := .empty

namespace MergePlan

def accept (plan : MergePlan) (offer : Offer) : MergePlan where
  winners := plan.winners.insert offer.place offer.source
  overridden :=
    if plan.winners.contains offer.place then plan.overridden.insert offer.place ()
    else plan.overridden

def make (fs : FileSystem) (config : MergeConfig) (sets : List SourceSet) :
    Except BuildError MergePlan := do
  let offered ← (SourceSet.directories sets).mapM (offers fs config)
  return offered.flatten.foldl accept {}

end MergePlan

end AndroidResources
