import AndroidResources.Symbol.Table
import AndroidResources.Xml.Event

/-!
# Symbols of values documents

The children of the root of a values document declare symbols. A styleable declares an array and
one field per attribute when it closes, behind what its own children declare.

* `ValuesScope` : what an open element means for the elements directly inside it;
* `valuesType?` : the symbol type of a child that simply declares its name;
* `ValuesWalk.visit` : the effect of a tag;
* `readValues` : the declarations of a document, in order.
-/

namespace AndroidResources

/-- What an open element means for the elements directly inside it. -/
inductive ValuesScope
  | other
  /-- A styleable and the names of its attributes so far. -/
  | styleable (name : Text) (attributes : List Text)
  | attr
  deriving DecidableEq, Repr

/-- What the events so far have declared, and the open elements, innermost first. -/
structure ValuesWalk where
  declared : List Declaration := []
  scopes : List ValuesScope := []

def intSymbol (type name : Text) : Declaration :=
  (⟨type, name⟩, .int)

/-- What a styleable declares when it closes: its array, then a field per attribute. -/
def closeStyleable (name : Text) (attributes : List Text) : List Declaration :=
  (⟨"styleable", name⟩, .intArray) ::
    attributes.map fun attr => intSymbol "styleable" (name ++ "_" ++ Text.replace ':' '_' attr)

def ValuesScope.close : ValuesScope → List Declaration
  | styleable name attributes => closeStyleable name attributes
  | other => []
  | attr => []

/-- The symbol types of the elements that simply declare their names. -/
def valuesTypes : List (Text × Text) :=
  [("string", "string"), ("color", "color"), ("dimen", "dimen"), ("bool", "bool"),
    ("integer", "integer"), ("fraction", "fraction"), ("plurals", "plurals"), ("style", "style"),
    ("id", "id"), ("drawable", "drawable"), ("array", "array"), ("string-array", "array"),
    ("integer-array", "array")]

def valuesType? (tag : Text) : Option Text :=
  valuesTypes.lookup tag

/-- What a named child of the root declares, and the scope that it opens. -/
def visitChild (tag : Xml.Tag) (name : Text) :
    Except Xml.AttributeFault (List Declaration × ValuesScope) := do
  if tag.name = "declare-styleable" then
    return ([], .styleable (Text.replace '.' '_' name) [])
  else if tag.name = "attr" then
    return ([intSymbol "attr" name], .attr)
  else if tag.name = "item" then
    match ← tag.raw? "type" with
    | some type => return ([intSymbol type name], .other)
    | none => return ([], .other)
  else
    match valuesType? tag.name with
    | some type => return ([intSymbol type (Text.replace '.' '_' name)], .other)
    | none => return ([], .other)

namespace ValuesWalk

/-- The walk behind a tag that is not closed yet, and the scope that the tag opens. Elements
without a name declare nothing. -/
def visit (walk : ValuesWalk) (tag : Xml.Tag) :
    Except Xml.AttributeFault (ValuesWalk × ValuesScope) := do
  match ← tag.raw? "name" with
  | none => return (walk, .other)
  | some name =>
    match walk.scopes with
    | [_] =>
      let (declared, scope) ← visitChild tag name
      return ({ walk with declared := walk.declared ++ declared }, scope)
    | .styleable styleable attributes :: outer =>
      if tag.name = "attr" then
        let declared :=
          if List.isPrefixOf "android:".toList name then [] else [intSymbol "attr" name]
        return (⟨walk.declared ++ declared, .styleable styleable (attributes ++ [name]) :: outer⟩,
          .attr)
      else return (walk, .other)
    | .attr :: _ =>
      if tag.name = "enum" ∨ tag.name = "flag" then
        return ({ walk with declared := walk.declared ++ [intSymbol "id" name] }, .other)
      else return (walk, .other)
    | _ => return (walk, .other)

def visitEvent (walk : ValuesWalk) : Xml.Event → Except Xml.AttributeFault ValuesWalk
  | .opened tag => do
    let (next, scope) ← walk.visit tag
    return { next with scopes := scope :: next.scopes }
  | .empty tag => do
    let (next, scope) ← walk.visit tag
    return { next with declared := next.declared ++ scope.close }
  | .closed =>
    match walk.scopes with
    | [] => .ok walk
    | scope :: outer => .ok ⟨walk.declared ++ scope.close, outer⟩

end ValuesWalk

def readValues (contents : Text) : Except Xml.Fault (List Declaration) := do
  let reading := Xml.read contents
  let walk ← (reading.events.foldlM ValuesWalk.visitEvent {}).mapError .badAttribute
  match reading.fault? with
  | some fault => throw fault
  | none => return walk.declared

end AndroidResources
