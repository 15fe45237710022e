import AndroidResources.Path

/-!
# Calls of a manifest merger

The content of manifests is merged by a collaborator. `ManifestCall` is what it is asked for: the
kind of the merge, the main manifest and the overlays.
-/

namespace AndroidResources

inductive MergeKind
  | application
  | library
  deriving DecidableEq, Repr

/-- What a manifest merger is asked for. -/
structure ManifestCall where
  kind : MergeKind
  /-- The manifest that was declared last. -/
  main : Path
  /-- The other manifests, the one declared later in front. -/
  overlays : List Path
  deriving DecidableEq, Repr

end AndroidResources
