import AndroidResources.FileSystem.Basic
import AndroidResources.FileSystem.Fault

/-!
# Where a path leads

* `Place` : an entry that is there, or a free name in a directory;
* `FileSystem.descend` : goes down the segments of a path to the first link;
* `FileSystem.walk` : goes on at the target of each link;
* `FileSystem.resolve` : where a path leads, read from the root or the working directory;
* `FileSystem.resolveEntry` : the place that a path names itself, a link at its end not followed.
-/

namespace AndroidResources

inductive Place
  | present (location : Location)
  /-- A free name in a directory; it is asked for with a slash behind it or without. -/
  | vacant (location : Location) (asDirectory : Bool)
  deriving DecidableEq, Repr

def Place.location : Place → Location
  | present location => location
  | vacant location _ => location

/-- How far a path leads before a link has to be followed. -/
inductive Descent
  | arrived (place : Place)
  | link (location : Location) (target : Path) (rest : List Text)

/-- What happens to a link at the very end of a path. -/
inductive LastLink
  | followed
  | kept
  deriving DecidableEq, Repr

namespace FileSystem

/-- Goes down from a directory along the segments of a path, up to the first link. -/
def descend (fs : FileSystem) (dir : Location) : List Text → Except IoFault Descent
  | [] => .ok (.arrived (.present dir))
  | segment :: rest =>
    if Path.isIdle segment then fs.descend dir rest
    else if segment = ".." then fs.descend dir.dropLast rest
    else
      let next := dir ++ [segment]
      match fs.get? next with
      | some .directory => fs.descend next rest
      | some (.file _) =>
        if rest = [] then .ok (.arrived (.present next)) else .error .notADirectory
      | some (.link target) => .ok (.link next target rest)
      | none =>
        if rest.all (· = []) then .ok (.arrived (.vacant next (!rest.isEmpty)))
        else .error .notFound

/-- Goes down from a directory and on from the target of each link, as often as `links` allows. -/
def walk (fs : FileSystem) (last : LastLink) (links : Nat) (dir : Location)
    (segments : List Text) : Except IoFault Place :=
  match fs.descend dir segments with
  | .error fault => .error fault
  | .ok (.arrived place) => .ok place
  | .ok (.link location target rest) =>
    if last = .kept ∧ rest = [] then .ok (.present location)
    else
      match links with
      | 0 => .error .tooManyLinks
      | links + 1 =>
        fs.walk last links (if target.isAbsolute then [] else location.dropLast)
          (target.segments ++ rest)

def linkLimit : Nat := 40

/-- The directory from which a path is read. -/
def origin (fs : FileSystem) (p : Path) : Location :=
  if p.isAbsolute then [] else fs.workingDirectory

def resolveSegments (fs : FileSystem) (last : LastLink) (p : Path) (segments : List Text) :
    Except IoFault Place :=
  if p.text = [] ∨ fs.get? (fs.origin p) ≠ some .directory then .error .notFound
  else fs.walk last linkLimit (fs.origin p) segments

/-- Where a path leads. The empty path leads nowhere. -/
def resolve (fs : FileSystem) (p : Path) : Except IoFault Place :=
  fs.resolveSegments .followed p p.segments

/-- The segments of a path without the slashes at its end. -/
def entrySegments (p : Path) : List Text :=
  (p.segments.reverse.dropWhile (· = [])).reverse

/-- The place that a path names itself: a link at its end is not followed, and slashes at its end
mean nothing. -/
def resolveEntry (fs : FileSystem) (p : Path) : Except IoFault Place :=
  fs.resolveSegments .kept p (entrySegments p)

def locate? (fs : FileSystem) (p : Path) : Option Location :=
  match fs.resolve p with
  | .ok (.present l) => some l
  | _ => none

def pathExists (fs : FileSystem) (p : Path) : Bool :=
  (fs.locate? p).isSome

def isDirectory (fs : FileSystem) (p : Path) : Bool :=
  (fs.locate? p).any fun l => fs.get? l = some .directory

end FileSystem

end AndroidResources
