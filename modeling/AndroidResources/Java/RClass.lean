import AndroidResources.Java.Source
import AndroidResources.Symbol.Table

/-!
# The `R` class

* `RClass.symbols` : the symbols that the class declares;
* `RClass.source` : its text, a nested class per type and a field per symbol.
-/

namespace AndroidResources.RClass

/-- The symbols that the class declares: the module's own and, unless it is non-transitive, those
of the dependencies. The first table with a symbol decides its shape. -/
def symbols (nonTransitive : Bool) (own : SymbolTable) (dependencies : List SymbolTable) :
    SymbolTable :=
  if nonTransitive then own else dependencies.foldl SymbolTable.extend own

def fieldLine (name : Text) : Shape → Text
  | .int => "        public static int " ++ name ++ " = 0;"
  | .intArray => "        public static int[] " ++ name ++ " = \x7b\x7d;"

def typeLines (type : Text) (fields : List (Text × Shape)) : List Text :=
  ("    public static final class " ++ type ++ " \x7b") ::
    (fields.map (fun field => fieldLine field.1 field.2) ++ ["    \x7d".toList])

def lines (package : Text) (table : SymbolTable) : List Text :=
  JavaSource.header ::
    (JavaSource.packageLines package ++
      ("public final class R \x7b".toList ::
        (table.types.flatMap (fun group => typeLines group.1 group.2) ++ ["\x7d".toList])))

def source (package : Text) (table : SymbolTable) : Text :=
  Text.ofLines (lines package table)

end AndroidResources.RClass
