import AndroidResources.Config.Basic
import AndroidResources.Java.Source
import AndroidResources.Layout.Binding

/-!
# Binding stubs

A stub is an abstract class against which code compiles that uses a layout's views and variables:
a field per view, a field with accessors per variable, a constructor and factories that throw.

* `BindingStub.viewField`, `BindingStub.variableField` : the field names;
* `BindingStub.source` : the text of the class.
-/

namespace AndroidResources.BindingStub

def nonNull : Text := "@androidx.annotation.NonNull"

def nullable : Text := "@androidx.annotation.Nullable"

def viewField (view : Binding) : Text :=
  Identifier.fieldName view.name

def variableField (b : Binding) : Text :=
  "m" ++ Text.capitalize b.name

/-- The type of a view's field. An include whose class was guessed has the base class. -/
def viewType (config : BindingConfig) (view : Binding) : Text :=
  match view.origin with
  | .included _ true => config.baseClass
  | _ => view.type.render

def viewLines (config : BindingConfig) (view : Binding) : List Text :=
  ["    " ++ nonNull,
    "    public final " ++ viewType config view ++ " " ++ viewField view ++ ";",
    []]

def variableLines (b : Binding) : List Text :=
  ["    @androidx.databinding.Bindable",
    "    protected " ++ b.type.render ++ " " ++ variableField b ++ ";",
    []]

def parameter (config : BindingConfig) (view : Binding) : Text :=
  ",\n            " ++ viewType config view ++ " " ++ viewField view

def assignmentLine (view : Binding) : Text :=
  "        this." ++ viewField view ++ " = " ++ viewField view ++ ";"

/-- The constructor: it takes every view and keeps it. -/
def constructor (config : BindingConfig) (className : Text) (views : List Binding) : Text :=
  "    protected " ++ className ++
    "(java.lang.Object _bindingComponent, android.view.View _root, int _localFieldCount" ++
    views.flatMap (parameter config) ++
    ") \x7b\n        super(_bindingComponent, _root, _localFieldCount);\n" ++
    Text.ofLines (views.map assignmentLine) ++
    "    \x7d\n\n"

/-- The setter and the getter of a variable. A primitive value is never missing. -/
def accessorLines (b : Binding) : List Text :=
  let type := b.type.render
  let accessor := Text.capitalize b.name
  let parameterMark : Text := if b.type.isPrimitive then [] else nullable ++ " "
  let resultMark : List Text := if b.type.isPrimitive then [] else ["    " ++ nullable]
  let getter : List Text :=
    ["    public " ++ type ++ " get" ++ accessor ++ "() \x7b",
      "        return m" ++ accessor ++ ";",
      "    \x7d", []]
  ("    public abstract void set" ++ accessor ++ "(" ++ parameterMark ++ type ++ " " ++ b.name ++
    ");") :: [] :: (resultMark ++ getter)

/-- The body of a method that must not be called. -/
def throwingBody : List Text :=
  ["        throw new RuntimeException(\"Stub!\");", "    \x7d"]

def throwingMethod (head : List Text) : List Text :=
  head ++ throwingBody

def factoryLines (className : Text) : List Text :=
  throwingMethod
      ["    " ++ nonNull,
        "    public static " ++ className ++ " inflate(" ++ nonNull ++
          " android.view.LayoutInflater inflater,",
        "            " ++ nullable ++ " android.view.ViewGroup root, boolean attachToRoot) \x7b"] ++
    [] ::
    throwingMethod
      ["    " ++ nonNull,
        "    public static " ++ className ++ " inflate(" ++ nonNull ++
          " android.view.LayoutInflater inflater) \x7b"] ++
    [] ::
    throwingMethod
      ["    public static " ++ className ++ " bind(" ++ nonNull ++ " android.view.View view) \x7b"]

def headLines (config : BindingConfig) (package className : Text) : List Text :=
  JavaSource.header ::
    (JavaSource.packageDeclaration (bindingPackage package config.packageSuffix) ++
      ["public abstract class " ++ className ++ " extends " ++ config.baseClass ++ " \x7b"])

def source (config : BindingConfig) (package : Text) (layout : LayoutBindings) : Text :=
  Text.ofLines
      (headLines config package layout.className ++ layout.views.flatMap (viewLines config) ++
        layout.variables.flatMap variableLines) ++
    constructor config layout.className layout.views ++
    Text.ofLines
      (layout.variables.flatMap accessorLines ++ factoryLines layout.className ++ ["\x7d".toList])

end AndroidResources.BindingStub
