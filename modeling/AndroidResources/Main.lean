import AndroidResources.CommandLine.Run
import AndroidResources.FileSystem.Difference

/-!
# The program

The files that a command may look at are read, the command is run on them, and what it changed is
written back.
-/

namespace AndroidResources.CommandLine

/-- The spelling of a location. -/
def spell (l : Location) : String :=
  String.ofList ('/' :: (Path.ofNames l).text)

def namesOf (path : String) : Location :=
  (path.toList.splitOn '/').filter (· ≠ [])

/-- What is at a location, a link itself and not what it leads to. -/
def kindOf (l : Location) : IO (Option IO.FS.FileType) := do
  let top ← IO.currentDir
  try
    return some (← (top / spell l).symlinkMetadata).type
  catch _ => return none

/-- The files with what is at a location and below it. -/
partial def loadTree (fs : FileSystem) (l : Location) : IO FileSystem := do
  match ← kindOf l with
  | some .dir =>
    let top ← IO.currentDir
    let children ← (top / spell l).readDir
    children.foldlM
      (fun fs child => loadTree fs (l ++ [child.fileName.toList])) (fs.place l .directory)
  | some .file => return fs.place l (.file (← IO.FS.readBinFile (spell l)))
  | some .symlink => return fs.place l (.link ⟨(← IO.FS.realPath (spell l)).toString.toList⟩)
  | _ => return fs

/-- The files with what segments lead to from a directory, and with the directories on the way. -/
partial def loadBelow (fs : FileSystem) (dir : Location) (segments : List Text) :
    IO FileSystem := do
  match segments with
  | [] => loadTree fs dir
  | segment :: rest =>
    if Path.isIdle segment then loadBelow fs dir rest
    else if segment = ".." then loadBelow fs dir.dropLast rest
    else
      let l := dir ++ [segment]
      match ← kindOf l with
      | some .dir => loadBelow (fs.place l .directory) l rest
      | some .symlink =>
        let target := (← IO.FS.realPath (spell l)).toString
        if namesOf target = l then return fs
        loadBelow (fs.place l (.link ⟨target.toList⟩)) [] (namesOf target ++ rest)
      | _ => loadTree fs l

/-- The files with the directories down to a location. -/
def loadDirectories (fs : FileSystem) (l : Location) : FileSystem :=
  (List.range l.length).foldl (fun fs depth => fs.place (l.take (depth + 1)) .directory) fs

def load (paths : List Path) : IO FileSystem := do
  let here := namesOf (← IO.currentDir).toString
  let start := { loadDirectories .empty here with workingDirectory := here }
  paths.foldlM (fun fs path => loadBelow fs (fs.origin path) path.segments) start

def store (before after : FileSystem) : IO Unit := do
  for (l, entry) in before.outdated after do
    match entry with
    | .directory => IO.FS.removeDir (spell l)
    | _ => IO.FS.removeFile (spell l)
  for (l, entry) in before.added after do
    match entry with
    | .directory => IO.FS.createDirAll (spell l)
    | .file content => IO.FS.writeBinFile (spell l) content
    | .link _ => return

/-- Runs the command that the arguments spell, and gives its exit code. -/
def runFiles (arguments : List Text) : IO UInt32 := do
  let start ← IO.monoMsNow
  let paths := ((Invocation.ofArguments arguments).toOption.map Invocation.paths).getD []
  let before ← load paths
  let (outcome, after) := run arguments before
  store before after
  let seconds := secondsText ((← IO.monoMsNow) - start)
  IO.print (String.ofList (outcome.output seconds))
  IO.eprint (String.ofList outcome.complaint)
  return outcome.exitCode.toUInt32

end AndroidResources.CommandLine

def main (arguments : List String) : IO UInt32 :=
  AndroidResources.CommandLine.runFiles (arguments.map String.toList)
