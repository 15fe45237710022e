import AndroidResources.Build.Action
import AndroidResources.Java.BindingStub
import AndroidResources.Java.BrClass
import AndroidResources.Java.RClass

/-!
# Trees of generated sources

Generated classes are written below a source root, each in the directory of its package.

* `RClass.write`, `BrClass.write`, `BindingStub.writeAll` : the files, whose paths are the results.
-/

namespace AndroidResources

def RClass.write (root : Path) (package : Text) (symbols : SymbolTable) : Action Path := do
  let file := JavaSource.file root package "R"
  writeInto file (RClass.source package symbols)
  return file

def BrClass.write (root : Path) (package : Text) (layouts : List LayoutBindings) : Action Path := do
  let file := JavaSource.file root package "BR"
  writeInto file (BrClass.source package layouts)
  return file

def BindingStub.write (config : BindingConfig) (root : Path) (package : Text)
    (layout : LayoutBindings) : Action Path := do
  let file := JavaSource.file root (bindingPackage package config.packageSuffix) layout.className
  writeInto file (BindingStub.source config package layout)
  return file

def BindingStub.writeAll (config : BindingConfig) (root : Path) (package : Text)
    (layouts : List LayoutBindings) : Action (List Path) :=
  layouts.mapM (BindingStub.write config root package)

end AndroidResources
