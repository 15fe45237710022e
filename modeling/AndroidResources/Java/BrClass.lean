import AndroidResources.Java.Source
import AndroidResources.Layout.Binding
import AndroidResources.OrderedMap

/-!
# The `BR` class

* `BrClass.variableNames` : the variables of all layouts, each once and in order;
* `BrClass.source` : the text of the class, which numbers them from one.
-/

namespace AndroidResources.BrClass

/-- The variables of all layouts, each once and in increasing order. -/
def variableNames (layouts : List LayoutBindings) : List Text :=
  (OrderedMap.ofList
    ((layouts.flatMap fun layout => layout.variables.map (·.name)).map fun name =>
      (name, ()))).keys

def fieldLine (name : Text) (number : Nat) : Text :=
  "    public static int " ++ name ++ " = " ++ Text.ofNat number ++ ";"

/-- The lines of the class. Zero stands for all variables. -/
def lines (package : Text) (names : List Text) : List Text :=
  JavaSource.header ::
    (JavaSource.packageLines package ++
      ("public class BR \x7b".toList :: fieldLine "_all" 0 ::
        ((names.zipIdx 1).map (fun entry => fieldLine entry.1 entry.2) ++ ["\x7d".toList])))

def source (package : Text) (layouts : List LayoutBindings) : Text :=
  Text.ofLines (lines package (variableNames layouts))

end AndroidResources.BrClass
