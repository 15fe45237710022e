import AndroidResources.Path
import AndroidResources.Text.LetterCase

/-!
# Identifiers of generated code

* `Identifier.className` : `row_item` and `row-item` become `RowItem`;
* `Identifier.fieldName` : `header_inc` becomes `headerInc`;
* `Identifier.bindingClass` : the class generated for a layout, `RowItemBinding`;
* `Identifier.layoutName` : the layout that a file holds.
-/

namespace AndroidResources.Identifier

/-- The words of a name, capitalized and joined; underscores and hyphens separate words. -/
def className (name : Text) : Text :=
  ((name.splitOnP fun c => c == '_' || c == '-').filter (· ≠ [])).flatMap Text.capitalize

def fieldName (name : Text) : Text :=
  Text.decapitalize (className name)

def bindingClass (layout : Text) : Text :=
  className layout ++ "Binding"

/-- The logical name of the layout in a file: the file name up to the first `.xml`. -/
def layoutName (file : Path) : Text :=
  let name := file.fileName?.getD []
  (Text.beforeFirst? ".xml" name).getD name

end AndroidResources.Identifier
