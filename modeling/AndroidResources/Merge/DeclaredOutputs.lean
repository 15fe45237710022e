import AndroidResources.Build.Action
import AndroidResources.Merge.Plan

/-!
# Declared outputs

A build system wants every output that it declared to be there after a merge.

* `commonSteps` : the steps that all paths begin with;
* `outputDirectory?` : the directory to merge into, above all declared outputs;
* `fillMissing` : placeholders for outputs that are not there.
-/

namespace AndroidResources

def sharedSteps : List Path.Component → List Path.Component → List Path.Component
  | a :: as, b :: bs => if a = b then a :: sharedSteps as bs else []
  | _, _ => []

def commonSteps : List Path → List Path.Component
  | [] => []
  | p :: rest => rest.foldl (fun common q => sharedSteps common q.components) p.components

/-- The step is the root of a merged tree. -/
def isMergeRoot (step : Path.Component) : Bool :=
  step = .normal MergeRoot.resources.name || step = .normal MergeRoot.assets.name

/-- The directory to merge into: what is common to all outputs, cut before the root of the merged
tree. One that is itself declared is a file, and the directory is the one it lies in. -/
def outputDirectory? (outputs : List Path) : Option Path :=
  if outputs = [] then none
  else
    let common := commonSteps outputs
    if common.any isMergeRoot then
      some (.ofComponents (common.takeWhile fun step => !isMergeRoot step))
    else if outputs.any fun p => p.components = common then (Path.ofComponents common).parent?
    else some (.ofComponents common)

/-- A resource document that declares nothing. -/
def emptyResources : Text := "<?xml version=\"1.0\" encoding=\"utf-8\"?>\n<resources/>\n"

def placeholder (file : Path) : Text :=
  if file.extension? = some "xml".toList then emptyResources else []

/-- A placeholder for an output that is not there; the result tells whether there was need. -/
def fillOne (output : Path) : Action Bool := do
  if ← Action.ask (·.pathExists output) then return false
  else
    writeInto output (placeholder output)
    return true

/-- Placeholders for the outputs that are not there; the result lists them. -/
def fillMissing : List Path → Action (List Path)
  | [] => return []
  | output :: rest => do
    let filled ← fillOne output
    let others ← fillMissing rest
    return if filled then output :: others else others

end AndroidResources
