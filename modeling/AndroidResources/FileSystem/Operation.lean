import AndroidResources.FileSystem.Resolve

/-!
# Operations on files and directories

Each operation names its files by paths and either succeeds or says why not. Most of them change
nothing when they fail; `createDirectories` and `removeTree` keep what they did before.

* `readBytes`, `readText` : the content of a file;
* `writeFile`, `copyFile`, `createLink` : files and links;
* `makeDirectory`, `createDirectories` : one directory, a directory with those above it;
* `removeTree`, `rename` : whole trees.
-/

namespace AndroidResources.FileSystem

/-! ## Reading -/

def readBytes (fs : FileSystem) (p : Path) : Except IoFault ByteArray :=
  match fs.resolve p with
  | .error fault => .error fault
  | .ok (.vacant _ _) => .error .notFound
  | .ok (.present l) =>
    match fs.get? l with
    | some (.file content) => .ok content
    | some .directory => .error .isADirectory
    | _ => .error .notFound

def readText (fs : FileSystem) (p : Path) : Except IoFault Text :=
  match fs.readBytes p with
  | .error fault => .error fault
  | .ok bytes =>
    match Text.ofUtf8? bytes with
    | some text => .ok text
    | none => .error .invalidData

/-! ## Files and links -/

/-- The location of the file that is written at a path: the one that is there, or a new one. A path
with a slash at its end asks for a directory. -/
def fileLocation (fs : FileSystem) (p : Path) : Except IoFault Location :=
  if p.endsInSlash then
    match fs.resolveEntry p with
    | .error fault => .error fault
    | .ok _ => .error .isADirectory
  else
    match fs.resolve p with
    | .error fault => .error fault
    | .ok (.vacant l asDirectory) => if asDirectory then .error .isADirectory else .ok l
    | .ok (.present l) => if fs.get? l = some .directory then .error .isADirectory else .ok l

def writeFile (fs : FileSystem) (p : Path) (content : ByteArray) : Except IoFault FileSystem :=
  (fs.fileLocation p).map fun l => fs.place l (.file content)

/-- The bytes that a copy starts from: only a file can be copied. -/
def copySource (fs : FileSystem) (source : Path) : Except IoFault (Location × ByteArray) :=
  match fs.resolve source with
  | .error fault => .error fault
  | .ok (.vacant _ _) => .error .notFound
  | .ok (.present l) =>
    match fs.get? l with
    | some (.file content) => .ok (l, content)
    | _ => .error .invalidInput

/-- The destination gets the content of the source. A file copied onto itself ends up empty, since
the destination is emptied first. -/
def copyFile (fs : FileSystem) (source destination : Path) : Except IoFault FileSystem := do
  let (origin, content) ← fs.copySource source
  let target ← fs.fileLocation destination
  return fs.place target (.file (if target = origin then .empty else content))

def createLink (fs : FileSystem) (p target : Path) : Except IoFault FileSystem :=
  match fs.resolveEntry p with
  | .error fault => .error fault
  | .ok (.present _) => .error .alreadyExists
  | .ok (.vacant l _) => .ok (fs.place l (.link target))

/-! ## Directories -/

def makeDirectory (fs : FileSystem) (p : Path) : Except IoFault FileSystem :=
  match fs.resolveEntry p with
  | .error fault => .error fault
  | .ok (.present _) => .error .alreadyExists
  | .ok (.vacant l _) => .ok (fs.place l .directory)

/-- The paths above a path, the nearest first, up to the one that has none above it. -/
def ancestors (steps : Nat) (p : Path) : List Path :=
  match steps, p.parent? with
  | _, none => []
  | 0, some _ => []
  | steps + 1, some parent => parent :: ancestors steps parent

/-- A directory at the first of the paths, each of which lies in the next. A directory that is there
will do. The second component tells what went wrong. -/
def createAlong (fs : FileSystem) : List Path → FileSystem × Option IoFault
  | [] => (fs, none)
  | p :: above =>
    if p.text = [] then (fs, none)
    else
      match fs.makeDirectory p with
      | .ok after => (after, none)
      | .error .notFound =>
        match createAlong fs above with
        | (between, some fault) => (between, some fault)
        | (between, none) =>
          match between.makeDirectory p with
          | .ok after => (after, none)
          | .error fault => (between, if between.isDirectory p then none else some fault)
      | .error fault => (fs, if fs.isDirectory p then none else some fault)

def createDirectories (fs : FileSystem) (p : Path) : FileSystem × Option IoFault :=
  fs.createAlong (p :: ancestors p.text.length p)

/-! ## Trees -/

/-- The last segment of a path, apart from slashes at its end. -/
def lastSegment (p : Path) : Text :=
  (entrySegments p).getLast?.getD []

/-- The path ends with the name of an entry: not with a root, a dot or two dots. -/
def namesEntry (p : Path) : Bool :=
  lastSegment p ∉ [[], ".".toList, "..".toList]

/-- Without an empty directory. A dot or two dots do not name a directory that can go. -/
def removeDirectory (fs : FileSystem) (p : Path) : Except IoFault FileSystem :=
  match fs.resolveEntry p with
  | .error fault => .error fault
  | .ok (.vacant _ _) => .error .notFound
  | .ok (.present l) =>
    if lastSegment p = "." then .error .invalidInput
    else if lastSegment p = ".." then .error .directoryNotEmpty
    else if l = [] then .error .busy
    else if fs.get? l ≠ some .directory then .error .notADirectory
    else if fs.hasChildren l then .error .directoryNotEmpty
    else .ok (fs.removeAt l)

/-- Without a directory and all below it, or without a link. What was in a directory is gone even if
the directory itself has to stay. -/
def removeTree (fs : FileSystem) (p : Path) : FileSystem × Option IoFault :=
  match fs.resolveSegments .kept p p.segments with
  | .error fault => (fs, some fault)
  | .ok (.vacant _ _) => (fs, some .notFound)
  | .ok (.present l) =>
    match fs.get? l with
    | some .directory =>
      let cleared := fs.clear l
      match cleared.removeDirectory p with
      | .ok after => (after, none)
      | .error .notFound => (cleared, none)
      | .error fault => (cleared, some fault)
    | some (.link _) => (fs.removeAt l, none)
    | _ => (fs, some .notADirectory)

def remove (fs : FileSystem) (p : Path) : FileSystem :=
  match fs.resolveEntry p with
  | .ok (.present l) => fs.removeAt l
  | _ => fs

/-- What keeps an entry from being moved to a location. A directory takes the place of an empty
directory only, a file that of anything but a directory. -/
def moveFault? (fs : FileSystem) (entry : Entry) (source destination : Location) :
    Option IoFault :=
  if entry = .directory then
    if List.isPrefixOf source destination then some .invalidInput
    else if List.isPrefixOf destination source then some .directoryNotEmpty
    else
      match fs.get? destination with
      | none => none
      | some .directory => if fs.hasChildren destination then some .directoryNotEmpty else none
      | some _ => some .notADirectory
  else if fs.get? destination = some .directory then
    some (if List.isPrefixOf destination source then .directoryNotEmpty else .isADirectory)
  else none

/-- The tree at one path moved to another. Only a directory can be moved with a slash at the end of
one of the paths. -/
def rename (fs : FileSystem) (source destination : Path) : Except IoFault FileSystem := do
  let old ← fs.resolveEntry source
  let new ← fs.resolveEntry destination
  if !(namesEntry source && namesEntry destination) then throw .busy
  match old with
  | .vacant _ _ => throw .notFound
  | .present l =>
    let entry := (fs.get? l).getD .directory
    let k := new.location
    if entry ≠ .directory ∧ (source.endsInSlash ∨ destination.endsInSlash) then throw .notADirectory
    else if k = l then return fs
    else
      match fs.moveFault? entry l k with
      | some fault => throw fault
      | none => return fs.move l k

end AndroidResources.FileSystem
