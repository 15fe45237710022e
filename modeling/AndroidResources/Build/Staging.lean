import AndroidResources.Build.Action
import AndroidResources.FileSystem.Search

/-!
# Staging

Trees are built in a temporary directory and then moved into place, so that nothing half-written
is ever seen at a destination.

* `FileSystem.freshName` : a name that is neither in use nor mentioned;
* `withTemporary` : a directory for the time of one action, gone however the action ends;
* `withStaged` : a copy of a tree next to its destination, and how to put it there;
* `publish` : the copy put in place at once.
-/

namespace AndroidResources

namespace FileSystem

/-- The names and link targets in use, those that lead to the working directory in front. -/
def spellings (fs : FileSystem) : List Text :=
  fs.workingDirectory ++ fs.entries.toList.flatMap fun (l, entry) =>
    match entry with
    | .link target => target.text :: l
    | _ => l

/-- A name that is longer than any in use and than any of the given paths. -/
def freshName (fs : FileSystem) (mentioned : List Path) : Text :=
  '.' :: List.replicate
    (((fs.spellings ++ mentioned.map (·.text)).map List.length).foldr max 0 + 1) '_'

end FileSystem

/-- The action with a temporary directory in an existing one. The directory is gone afterwards,
whether the action failed or not. No file that is there and none of the mentioned paths has its
name. -/
def withTemporary (parent blamed : Path) (mentioned : List Path) (body : Path → Action α) :
    Action α := do
  let name ← Action.ask (·.freshName mentioned)
  let dir := parent.join ⟨name⟩
  Action.change blamed (·.makeDirectory dir)
  (body dir).thenAlways fun fs => (fs.removeTree dir).1

/-- The directory in which a path is staged: the one it lies in. -/
def stagingParent (p : Path) : Path :=
  match p.parent? with
  | some parent => if parent.text = [] then "." else parent
  | none => "."

/-- Puts a staged tree in place of what is at the destination. -/
def commitTree (staged destination : Path) : Action Unit := do
  if ← Action.ask (·.pathExists destination) then
    Action.changePartly destination (·.removeTree destination)
  Action.change destination (·.rename staged destination)

structure StagedTree where
  directory : Path
  destination : Path
  files : Nat

def StagedTree.commit (tree : StagedTree) : Action Nat := do
  commitTree tree.directory tree.destination
  return tree.files

/-- The action with a copy of the tree at `source` next to `destination`. What is at the
destination stays as it is until the copy is put in place. -/
def withStaged (source destination : Path) (body : StagedTree → Action α) : Action α := do
  let parent := stagingParent destination
  Action.createDirectories parent
  withTemporary parent parent [source, destination] fun dir => do
    let files ← Action.ask (·.findFiles .keepAll source)
    files.forM fun file => copyInto file.path (dir.join file.relative)
    body ⟨dir, destination, files.length⟩

/-- The tree at `source` in place of what is at `destination`; the result is the number of its
files. -/
def publish (source destination : Path) : Action Nat :=
  withStaged source destination StagedTree.commit

end AndroidResources
