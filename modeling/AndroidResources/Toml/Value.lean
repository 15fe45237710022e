import AndroidResources.Text.Basic

/-!
# Values of TOML

* `Toml.Value` : strings, booleans, other scalars, arrays and tables;
* `Toml.Table` : the members of a table, with how the table came to be, which decides what may be
  added to it;
* `Toml.Table.putValue?` : the table with one more key and its value;
* `Toml.Table.openTable?`, `Toml.Table.openElement?` : the same for the header of a table and for
  that of an array's element. No key is ever given twice.
-/

namespace AndroidResources.Toml

/-- How a table came to be. -/
inductive TableOrigin
  /-- It has a header of its own, or it is the whole document. -/
  | header
  /-- It is part of the header of another table. -/
  | implied
  | dotted
  | closed
  deriving DecidableEq, Repr

mutual

inductive Value
  | string (text : Text)
  | boolean (value : Bool)
  /-- A number or a point in time. -/
  | other
  | array (items : List Value)
  | table (table : Table)
  | elements (tables : List Table)

inductive Table
  | mk (origin : TableOrigin) (members : List (Text × Value))

end

namespace Table

def origin : Table → TableOrigin
  | mk origin _ => origin

/-- The members in the order in which they were added. -/
def members : Table → List (Text × Value)
  | mk _ members => members

def empty (origin : TableOrigin) : Table := mk origin []

def get? (t : Table) (key : Text) : Option Value :=
  t.members.lookup key

def set (t : Table) (key : Text) (value : Value) : Table :=
  if (t.get? key).isSome then
    mk t.origin (t.members.map fun member => if member.1 = key then (key, value) else member)
  else mk t.origin (t.members ++ [(key, value)])

/-- The table with a value for a key that has none yet. -/
def add? (t : Table) (key : Text) (value : Value) : Option Table :=
  if (t.get? key).isSome then none else some (t.set key value)

/-- The table that a dotted key ends in has to be made by dotted keys alone; one that it passes may
also be implied by a header. -/
def isPassable (t : Table) (isLast : Bool) : Bool :=
  t.origin == .dotted || (!isLast && t.origin == .implied)

/-- The table with a value for a key behind the given steps of a dotted key. -/
def putBelow? (key : Text) (value : Value) (t : Table) : List Text → Option Table
  | [] => t.add? key value
  | step :: steps =>
    match t.get? step with
    | none => do
      let inner ← putBelow? key value (empty .dotted) steps
      return t.set step (.table inner)
    | some (.table inner) =>
      if inner.isPassable steps.isEmpty then do
        let inner ← putBelow? key value inner steps
        return t.set step (.table inner)
      else none
    | some (.elements tables) =>
      match tables.getLast? with
      | some last =>
        if steps = [] then none
        else do
          let last ← putBelow? key value last steps
          return t.set step (.elements (tables.dropLast ++ [last]))
      | none => none
    | some _ => none

def putValue? (t : Table) (path : List Text) (value : Value) : Option Table :=
  match path.getLast? with
  | some key => putBelow? key value t path.dropLast
  | none => none

/-- The change at the table that a path of headers leads to; tables on the way are made, and of an
array with headers the last element counts. -/
def changeAt? (change : Table → Option Table) (t : Table) : List Text → Option Table
  | [] => change t
  | step :: steps =>
    match t.get? step with
    | none => do
      let inner ← changeAt? change (empty .implied) steps
      return t.set step (.table inner)
    | some (.table inner) =>
      if inner.origin = .closed then none
      else do
        let inner ← changeAt? change inner steps
        return t.set step (.table inner)
    | some (.elements tables) =>
      match tables.getLast? with
      | some last => do
        let last ← changeAt? change last steps
        return t.set step (.elements (tables.dropLast ++ [last]))
      | none => none
    | some _ => none

/-- The table with a header for one of its members: a new table or one that headers imply. -/
def openMember? (key : Text) (t : Table) : Option Table :=
  match t.get? key with
  | none => some (t.set key (.table (empty .header)))
  | some (.table inner) =>
    if inner.origin = .implied then some (t.set key (.table (mk .header inner.members))) else none
  | some _ => none

def openMemberElement? (key : Text) (t : Table) : Option Table :=
  match t.get? key with
  | none => some (t.set key (.elements [empty .header]))
  | some (.elements tables) => some (t.set key (.elements (tables ++ [empty .header])))
  | some _ => none

def openTable? (t : Table) (path : List Text) : Option Table :=
  match path.getLast? with
  | some key => changeAt? (openMember? key) t path.dropLast
  | none => none

def openElement? (t : Table) (path : List Text) : Option Table :=
  match path.getLast? with
  | some key => changeAt? (openMemberElement? key) t path.dropLast
  | none => none

end Table

end AndroidResources.Toml
