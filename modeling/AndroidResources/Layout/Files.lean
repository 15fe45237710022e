import AndroidResources.Build.Action
import AndroidResources.Layout.Document

/-!
# Layout files

* `LayoutModule.readFile` : the bindings of one file;
* `LayoutModule.readFiles` : those of several, of each class name the first. A file that cannot be
  read fails them all, even one that would not have counted.
-/

namespace AndroidResources.LayoutModule

def readFile (m : LayoutModule) (fs : FileSystem) (file : Path) :
    Except BuildError LayoutBindings := do
  m.readLayout file (← fs.readSource file)

/-- The bindings of layout files, the first file for each class name. -/
def readFiles (m : LayoutModule) (fs : FileSystem) (files : List Path) :
    Except BuildError (List LayoutBindings) := do
  return keepFirst (← files.mapM (m.readFile fs))

end AndroidResources.LayoutModule
