import AndroidResources.Build.Action
import AndroidResources.Resource.Folder
import AndroidResources.Symbol.RTxt
import AndroidResources.Symbol.Values

/-!
# Symbols of resource files

* `newIds` : the ids that a document declares by `@+id/`;
* `fileSymbols` : what a resource file declares, which depends on the folder it lies in;
* `collectSymbols` : the table of a list of resource files;
* `readSymbolList` : the table of a symbol list in a file.
-/

namespace AndroidResources

def newIdMarker : Text := "@+id/"

/-- The name behind a marker that a text starts with; empty if there is none. -/
def newIdAt (s : Text) : Text :=
  ((List.isPrefixOf? newIdMarker s).getD []).takeWhile Text.isAsciiWordChar

def newIds : Text → List Text
  | [] => []
  | c :: rest =>
    let name := newIdAt (c :: rest)
    if name = [] then newIds rest else name :: newIds rest

/-- The resource that a file holds: its name up to the first dot. -/
def resourceName (file : Path) : Text :=
  (file.fileName?.getD []).takeWhile (· ≠ '.')

/-- What a file of a folder declares by being there: a file without a name declares nothing. -/
def namedResource (folder : ResourceFolder) (file : Path) : List Declaration :=
  let name := resourceName file
  if name = [] then [] else [intSymbol folder.name name]

/-- The declarations of a resource file. Only files in resource folders declare anything. -/
def fileSymbols (fs : FileSystem) (file : Path) : Except BuildError (List Declaration) :=
  match ResourceFolder.ofFile? file with
  | none => .ok []
  | some .values => do
    let contents ← fs.readSource file
    (readValues contents).mapError (.xml file)
  | some folder => do
    let own := namedResource folder file
    if file.extension? = some "xml".toList ∧ folder.mayDeclareIds then
      let contents ← fs.readSource file
      return own ++ (newIds contents).map (intSymbol "id")
    else return own

/-- The symbols that resource files declare; the last declaration of a symbol decides. -/
def collectSymbols (fs : FileSystem) (files : List Path) : Except BuildError SymbolTable := do
  let declared ← files.mapM (fileSymbols fs)
  return SymbolTable.declare .empty declared.flatten

def readSymbolList (fs : FileSystem) (file : Path) : Except BuildError SymbolTable := do
  RTxt.read file (← fs.readSource file)

end AndroidResources
