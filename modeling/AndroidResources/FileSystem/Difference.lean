import AndroidResources.FileSystem.Basic

/-!
# Differences of file systems

* `FileSystem.outdated` : the entries that have to go, those further down first;
* `FileSystem.added` : the entries that have to be made, directories before what lies in them.
-/

namespace AndroidResources.FileSystem

/-- The file system has something else, or nothing, at the location of an entry. -/
def lacks (fs : FileSystem) (entry : Location × Entry) : Bool :=
  fs.get? entry.1 ≠ some entry.2

/-- The entries that are gone or changed in another file system, those further down first. -/
def outdated (before after : FileSystem) : List (Location × Entry) :=
  (before.entries.toList.filter after.lacks).reverse

/-- The entries that are new or changed in another file system, directories before what lies in
them. -/
def added (before after : FileSystem) : List (Location × Entry) :=
  after.entries.toList.filter before.lacks

end AndroidResources.FileSystem
