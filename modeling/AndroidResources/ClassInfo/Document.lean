import AndroidResources.ClassInfo.Scan
import AndroidResources.OrderedMap

/-!
# Class-info documents

A class-info document tells which binding class a dependency generated for each of its layouts. It
is an object whose `mappings` lead from a layout to an object with a `qualified_name` and perhaps a
`module_package`. An array stands for an object whose fields are given in order.

* `LayoutClass`, `Document` : the class of a layout, and the classes by layout;
* `Document.read` : the document in a text, or the first fault.
-/

namespace AndroidResources.ClassInfo

structure LayoutClass where
  qualifiedName : Text
  modulePackage? : Option Text := none
  deriving DecidableEq, Repr

/-- The classes by layout; of two entries for one layout the last counts. -/
abbrev Document := OrderedMap Text LayoutClass

def readText (s : Text) : Except Fault (Text × Text) :=
  match toToken s with
  | '"' :: rest => readString .kept rest
  | s => .error (wrongKind s)

def readOptionalText (s : Text) : Except Fault (Option Text × Text) :=
  match toToken s with
  | 'n' :: rest => (restOfWord "ull" rest).map fun rest => (none, rest)
  | s => (readText s).map fun (text, rest) => (some text, rest)

namespace LayoutClass

/-- The fields of an entry that have been read. -/
structure Fields where
  qualifiedName? : Option Text := none
  /-- Nothing if the field has not been read. -/
  modulePackage? : Option (Option Text) := none

/-- One more member of an entry. A field must not come twice. -/
def readMember (fields : Fields) (key s : Text) : Except Fault (Fields × Text) :=
  if key = "qualified_name" then
    if fields.qualifiedName?.isSome then .error .unsuitable
    else do
      let (name, rest) ← readText (← colon s)
      return ({ fields with qualifiedName? := some name }, rest)
  else if key = "module_package" then
    if fields.modulePackage?.isSome then .error .unsuitable
    else do
      let (package?, rest) ← readOptionalText (← colon s)
      return ({ fields with modulePackage? := some package? }, rest)
  else do
    return (fields, ← skip (← colon s))

/-- The fields in order, read behind the opening bracket. -/
def readElements (s : Text) : Except Fault (LayoutClass × Text) := do
  match ← nextElement true s with
  | (false, _) => throw .unsuitable
  | (true, rest) =>
    let (name, rest) ← readText rest
    match ← nextElement false rest with
    | (false, rest) => return (⟨name, none⟩, ← endOfArray rest)
    | (true, rest) =>
      let (package?, rest) ← readOptionalText rest
      return (⟨name, package?⟩, ← endOfArray rest)

def read (s : Text) : Except Fault (LayoutClass × Text) :=
  match toToken s with
  | '\x7b' :: rest => do
    let (fields, rest) ← readObject readMember {} rest
    match fields.qualifiedName? with
    | some name => return (⟨name, fields.modulePackage?.getD none⟩, rest)
    | none => throw .unsuitable
  | '[' :: rest => readElements rest
  | s => .error (wrongKind s)

end LayoutClass

namespace Document

def readEntry (document : Document) (layout s : Text) : Except Fault (Document × Text) := do
  let (entry, rest) ← LayoutClass.read (← colon s)
  return (document.insert layout entry, rest)

def readMappings (s : Text) : Except Fault (Document × Text) :=
  match toToken s with
  | '\x7b' :: rest => readObject readEntry .empty rest
  | s => .error (wrongKind s)

/-- One more member of a document. The mappings must not come twice. -/
def readMember (mappings? : Option Document) (key s : Text) :
    Except Fault (Option Document × Text) :=
  if key = "mappings" then
    if mappings?.isSome then .error .unsuitable
    else do
      let (document, rest) ← readMappings (← colon s)
      return (some document, rest)
  else do
    return (mappings?, ← skip (← colon s))

def readElements (s : Text) : Except Fault (Document × Text) := do
  match ← nextElement true s with
  | (false, rest) => return (.empty, ← endOfArray rest)
  | (true, rest) =>
    let (document, rest) ← readMappings rest
    return (document, ← endOfArray rest)

def readValue (s : Text) : Except Fault (Document × Text) :=
  match toToken s with
  | '\x7b' :: rest => do
    let (mappings?, rest) ← readObject readMember none rest
    return (mappings?.getD .empty, rest)
  | '[' :: rest => readElements rest
  | s => .error (wrongKind s)

/-- The document in a text. Nothing but blanks may follow it. -/
def read (s : Text) : Except Fault Document := do
  let (document, rest) ← readValue s
  if toToken rest = [] then return document else throw .malformed

end Document

end AndroidResources.ClassInfo
