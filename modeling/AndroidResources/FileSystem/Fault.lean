/-!
# Why a file operation fails

`IoFault` lists the causes that the operations of a file system report.
-/

namespace AndroidResources

inductive IoFault
  /-- Nothing is at the path, or a directory on the way to it is missing. -/
  | notFound
  /-- Something on the way to the path, or at the path itself, is no directory. -/
  | notADirectory
  | isADirectory
  | alreadyExists
  | directoryNotEmpty
  | invalidInput
  /-- A dot or two dots stand where a name is needed. -/
  | busy
  /-- A file that should hold text holds bytes that are not UTF-8. -/
  | invalidData
  | tooManyLinks
  deriving DecidableEq, Repr

end AndroidResources
