import AndroidResources.Build.Staging
import AndroidResources.ClassInfo.Library
import AndroidResources.Java.SourceTree
import AndroidResources.Layout.Files
import AndroidResources.Symbol.Collection

/-!
# Compiling a module

The layouts and symbols of a module become its `R` class, its `BR` class and a stub per layout.

* `CompileRequest` : what is compiled and where the results go;
* `ModuleContent`, `CompileRequest.content` : what the files of the module declare;
* `CompileRequest.run` : writes both source trees; neither output is touched before both are ready.
-/

namespace AndroidResources

/-- What is compiled and where the results go. -/
structure CompileRequest where
  package : Text
  resourceFiles : List Path
  /-- Class-info documents of dependencies, and directories of such documents. -/
  classInfos : List Path
  symbolLists : List Path
  nonTransitive : Bool
  /-- The directory for `R` and `BR`. -/
  rClassOutput : Path
  stubsOutput : Path

/-- What the files of a module declare. -/
structure ModuleContent where
  layouts : List Path
  bindings : List LayoutBindings
  symbols : SymbolTable

structure CompileSummary where
  layouts : Nat
  bindings : Nat
  rSymbols : Nat
  stubs : Nat
  deriving DecidableEq, Repr

/-- The directory for files that nobody asked for. -/
def scratchParent : Path := "/"

namespace CompileRequest

def layoutModule (request : CompileRequest) (config : Config) (dependencies : LayoutTypes) :
    LayoutModule where
  package := request.package
  scopes := .ownFirst
    (.ofLayouts request.package config.binding.packageSuffix
      (request.resourceFiles.filter isLayoutFile))
    dependencies
  config := config.binding

/-- What the files of the module and of its dependencies declare, or the first fault. -/
def content (request : CompileRequest) (config : Config) (fs : FileSystem) :
    Except BuildError ModuleContent := do
  let layouts := request.resourceFiles.filter isLayoutFile
  let dependencies ← ClassInfo.layoutTypes fs request.classInfos
  let bindings ← (request.layoutModule config dependencies).readFiles fs layouts
  let own ← collectSymbols fs request.resourceFiles
  let others ← request.symbolLists.mapM (readSymbolList fs)
  return ⟨layouts, bindings,
    RClass.symbols (request.nonTransitive || config.rClass.nonTransitive) own others⟩

def mentioned (request : CompileRequest) : List Path :=
  ⟨request.package⟩ :: request.rClassOutput :: request.stubsOutput :: request.resourceFiles

/-- Puts both source trees in place. Both are copied before either output is replaced. -/
def publishBoth (request : CompileRequest) (rTree stubsTree : Path) : Action Unit :=
  withStaged rTree request.rClassOutput fun r =>
    withStaged stubsTree request.stubsOutput fun stubs => do
      let _ ← r.commit
      let _ ← stubs.commit

def run (request : CompileRequest) (config : Config) : Action CompileSummary := do
  let content ← Action.inspect (request.content config)
  withTemporary scratchParent scratchParent request.mentioned fun scratch => do
    let rTree := scratch.join "r"
    let stubsTree := scratch.join "stubs"
    let _ ← RClass.write rTree request.package content.symbols
    let _ ← BrClass.write rTree request.package content.bindings
    let stubs ← BindingStub.writeAll config.binding stubsTree request.package content.bindings
    request.publishBoth rTree stubsTree
    return ⟨content.layouts.length, content.bindings.length, content.symbols.size, stubs.length⟩

end CompileRequest

end AndroidResources
