/-!
# What can be wrong with a class-info document

`ClassInfo.Fault` : the input ends early, breaks the grammar, or has a value of the wrong kind.
-/

namespace AndroidResources.ClassInfo

/-- What can be wrong with a class-info document. -/
inductive Fault
  | incomplete
  | malformed
  /-- A value is of the wrong kind, missing or given twice. -/
  | unsuitable
  deriving DecidableEq, Repr

end AndroidResources.ClassInfo
