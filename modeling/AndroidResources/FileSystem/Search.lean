import AndroidResources.Config.Basic
import AndroidResources.FileSystem.Resolve

/-!
# Searching directories

* `FoundFile` : a file by its path and by the names that lead to it from where the search began;
* `FileSystem.findFiles` : the files below a directory, in the order of their names;
* `FileSystem.leaves` : files, links and empty directories below a path, as they are.

Links below the directory are neither followed nor found.
-/

namespace AndroidResources

structure FoundFile where
  path : Path
  /-- The names from the place where the search began; none if that is the file. -/
  names : List Text
  deriving DecidableEq, Repr

/-- The path from the place where the search began. -/
def FoundFile.relative (file : FoundFile) : Path :=
  .ofNames file.names

namespace FileSystem

/-- The entries strictly below a location, by the names that lead to them. -/
def below (fs : FileSystem) (l : Location) : List (List Text × Entry) :=
  fs.entries.toList.filterMap fun (k, entry) =>
    match List.isPrefixOf? l k with
    | some (name :: names) => some (name :: names, entry)
    | _ => none

/-- A link is what the path itself names. -/
def isLink (fs : FileSystem) (p : Path) : Bool :=
  match fs.resolveSegments .kept p p.segments with
  | .ok (.present l) =>
    match fs.get? l with
    | some (.link _) => true
    | _ => false
  | _ => false

/-- The files below a directory whose names from there on are not skipped. The directory itself may
be named by a link and have any name; a file in its place is found as well. -/
def findFiles (fs : FileSystem) (config : MergeConfig) (root : Path) : List FoundFile :=
  match fs.locate? root with
  | none => []
  | some l =>
    match fs.get? l with
    | some .directory =>
      (fs.below l).filterMap fun (names, entry) =>
        if entry.isFile && names.all (!config.ignores ·) then
          some ⟨root.join (.ofNames names), names⟩
        else none
    | _ => if fs.isLink root then [] else [⟨root, []⟩]

/-- The files, links and empty directories at a path and below it, by their names from there. None
are there where the path names nothing. -/
def leaves (fs : FileSystem) (p : Path) : List (List Text × Entry) :=
  match fs.resolveSegments .kept p p.segments with
  | .ok (.present l) =>
    match fs.get? l with
    | some entry =>
      (([], entry) :: fs.below l).filter fun (names, entry) =>
        entry ≠ .directory || !fs.hasChildren (l ++ names)
    | none => []
  | _ => []

end FileSystem

end AndroidResources
