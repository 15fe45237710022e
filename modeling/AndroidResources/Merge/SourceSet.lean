import AndroidResources.Error
import AndroidResources.FileSystem.Resolve
import AndroidResources.Text.Blank

/-!
# Source sets

* `SourceSet` : resource directories, asset directories and a manifest of one build input;
* `SourceSet.ofDescriptor` : a source set written as `resources:assets:manifest`;
* `SourceSet.ofDescriptors` : several of them, those of higher priority behind.
-/

namespace AndroidResources

/-- Resource directories, asset directories and a manifest of one build input. -/
structure SourceSet where
  resources : List Path
  assets : List Path
  manifest? : Option Path
  deriving DecidableEq, Repr

namespace SourceSet

/-- The path that a segment stands for; a blank one stands for none. -/
def segmentPath? (target : Path) (segment : Text) : Option Path :=
  if Text.allBlank segment then none else some (target.join ⟨segment⟩)

/-- The source set that a descriptor stands for, with paths read from `target`. A manifest that is
not there does not count. -/
def ofDescriptor (fs : FileSystem) (target : Path) (descriptor : Text) :
    Except BuildError SourceSet :=
  match descriptor.splitOn ':' with
  | [resources, assets, manifest] =>
    .ok ⟨(segmentPath? target resources).toList, (segmentPath? target assets).toList,
      (segmentPath? target manifest).filter fs.pathExists⟩
  | _ => .error (.invalidSourceSet descriptor)

def ofDescriptors (fs : FileSystem) (target : Path) (descriptors : List Text) :
    Except BuildError (List SourceSet) :=
  descriptors.mapM (ofDescriptor fs target)

end SourceSet

end AndroidResources
