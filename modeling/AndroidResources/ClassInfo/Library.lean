import AndroidResources.ClassInfo.Document
import AndroidResources.Build.Action
import AndroidResources.FileSystem.Search
import AndroidResources.Layout.Scope

/-!
# Layouts of dependencies

* `ClassInfo.documents` : the documents that a path stands for;
* `ClassInfo.layoutTypes` : the binding types of the layouts of dependencies; of two documents with
  a layout the first one counts.
-/

namespace AndroidResources.ClassInfo

def extensions : List Text := ["json", "bin"]

/-- The file is taken for a document where a directory is searched. -/
def isDocument (file : Path) : Bool :=
  file.extension?.any (· ∈ extensions)

/-- The documents that a path stands for: those in a directory and below it, or the path itself. -/
def documents (fs : FileSystem) (p : Path) : List Path :=
  if fs.isDirectory p then ((fs.findFiles .keepAll p).map (·.path)).filter isDocument else [p]

/-- The layout types with those of one more document, as far as they are new. -/
def addDocument (types : LayoutTypes) (document : Document) : LayoutTypes :=
  document.toList.foldl
    (fun (acc : LayoutTypes) entry => acc.insertIfNew entry.1 (.ofClass entry.2.qualifiedName))
    types

def readFile (fs : FileSystem) (file : Path) : Except BuildError Document := do
  let contents ← fs.readSource file
  (Document.read contents).mapError (.classInfo file)

/-- The binding types of the layouts that the documents at the paths tell of. -/
def layoutTypes (fs : FileSystem) (paths : List Path) : Except BuildError LayoutTypes := do
  let found ← (paths.flatMap (documents fs)).mapM (readFile fs)
  return found.foldl addDocument .empty

end AndroidResources.ClassInfo
