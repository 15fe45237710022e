import AndroidResources.Toml.Literal
import AndroidResources.Toml.Quoted
import AndroidResources.Toml.Value

/-!
# Documents of TOML

* `Toml.dottedKey?` : a key of one or more parts;
* `Toml.value?` : a value;
* `Toml.Reading` : the document so far and the table that comes next lines belong to;
* `Toml.document?` : the table that a whole text stands for.
-/

namespace AndroidResources.Toml

def skipSpaces (s : Text) : Text :=
  s.dropWhile isSpace

/-- The text behind a comment, if one starts here; its characters have to be good ones. -/
def skipComment? : Text → Option Text
  | '#' :: rest => some (rest.dropWhile isTextChar)
  | s => some s

/-- The text behind the end of a line: blanks, a comment and a line end or nothing more. -/
def finishLine? (s : Text) : Option Text := do
  match ← skipComment? (skipSpaces s) with
  | [] => return []
  | s => lineEnd? s

def skipFiller : Nat → Text → Text
  | 0, s => s
  | bound + 1, s =>
    match skipSpaces s with
    | [] => []
    | s =>
      match finishLine? s with
      | some rest => skipFiller bound rest
      | none => s

/-! ## Keys -/

def isKeyChar (c : Char) : Bool :=
  c.isAlphanum || c == '_' || c == '-'

def keyPart? (s : Text) : Option (Text × Text) :=
  match s with
  | '"' :: rest => lineString? .basic rest
  | '\'' :: rest => lineString? .literal rest
  | s =>
    match s.takeWhile isKeyChar with
    | [] => none
    | part => some (part, s.dropWhile isKeyChar)

/-- The parts of a key with dots between them, blanks behind it included. -/
def keyParts? : Nat → Text → Option (List Text × Text)
  | 0, _ => none
  | bound + 1, s => do
    let (part, rest) ← keyPart? (skipSpaces s)
    match skipSpaces rest with
    | '.' :: rest =>
      let (parts, rest) ← keyParts? bound rest
      return (part :: parts, rest)
    | rest => return ([part], rest)

def dottedKey? (s : Text) : Option (List Text × Text) :=
  keyParts? (s.length + 1) s

/-! ## Values -/

def isWordChar (c : Char) : Bool :=
  c.isAlphanum || c ∈ "+-_.:".toList

/-- The value of a word. A blank may stand between a date and a time. -/
def word? (s : Text) : Option (Value × Text) :=
  let word := s.takeWhile isWordChar
  let rest := s.dropWhile isWordChar
  if word = "true" then some (.boolean true, rest)
  else if word = "false" then some (.boolean false, rest)
  else if isDate word then
    match rest with
    | ' ' :: c :: after =>
      if c.isDigit then
        if isOffsetTime ((c :: after).takeWhile isWordChar) then
          some (.other, (c :: after).dropWhile isWordChar)
        else none
      else some (.other, rest)
    | rest => some (.other, rest)
  else if isInteger word || isFloat word || isTime word || isDateTime word then some (.other, rest)
  else none

mutual

def value? : Nat → Text → Option (Value × Text)
  | 0, _ => none
  | bound + 1, s =>
    match s with
    | '[' :: rest => do
      let (items, rest) ← items? bound (skipFiller rest.length rest)
      return (.array items, rest)
    | '\x7b' :: rest =>
      match skipSpaces rest with
      | '\x7d' :: rest => some (.table (.empty .closed), rest)
      | rest => do
        let (table, rest) ← members? bound (.empty .closed) rest
        return (.table table, rest)
    | c :: _ =>
      if c = '"' ∨ c = '\'' then (string? s).map fun (text, rest) => (.string text, rest)
      else word? s
    | [] => none

/-- The items of an array up to its end; a comma may stand behind the last one. -/
def items? : Nat → Text → Option (List Value × Text)
  | 0, _ => none
  | bound + 1, s =>
    match s with
    | ']' :: rest => some ([], rest)
    | s => do
      let (item, rest) ← value? bound s
      match skipFiller rest.length rest with
      | ',' :: rest =>
        let (items, rest) ← items? bound (skipFiller rest.length rest)
        return (item :: items, rest)
      | ']' :: rest => return ([item], rest)
      | _ => none

def members? : Nat → Table → Text → Option (Table × Text)
  | 0, _, _ => none
  | bound + 1, table, s => do
    let (key, rest) ← dottedKey? s
    match rest with
    | '=' :: rest =>
      let (value, rest) ← value? bound (skipSpaces rest)
      let table ← table.putValue? key value
      match skipSpaces rest with
      | ',' :: rest => members? bound table rest
      | '\x7d' :: rest => return (table, rest)
      | _ => none
    | _ => none

end

/-! ## Lines -/

/-- The document so far and the path of the table that the next lines belong to. -/
structure Reading where
  document : Table := .empty .header
  current : List Text := []

namespace Reading

/-- The header of a table or of an array's element, read behind its first bracket. -/
def header? (r : Reading) (s : Text) : Option (Reading × Text) := do
  match s with
  | '[' :: rest =>
    let (path, rest) ← dottedKey? rest
    let rest ← (behind? ']' rest).bind (behind? ']')
    let document ← r.document.openElement? path
    return (⟨document, path⟩, ← finishLine? rest)
  | rest =>
    let (path, rest) ← dottedKey? rest
    let rest ← behind? ']' rest
    let document ← r.document.openTable? path
    return (⟨document, path⟩, ← finishLine? rest)

def member? (r : Reading) (s : Text) : Option (Reading × Text) := do
  let (key, rest) ← dottedKey? s
  let rest ← behind? '=' rest
  let rest := skipSpaces rest
  let (value, rest) ← value? (2 * rest.length + 2) rest
  let document ← Table.changeAt? (·.putValue? key value) r.document r.current
  return ({ r with document }, ← finishLine? rest)

def lines? : Nat → Reading → Text → Option Table
  | 0, _, _ => none
  | bound + 1, r, s =>
    match skipSpaces s with
    | [] => some r.document
    | '[' :: rest => do
      let (r, rest) ← r.header? rest
      lines? bound r rest
    | s =>
      match finishLine? s with
      | some rest => lines? bound r rest
      | none => do
        let (r, rest) ← r.member? s
        lines? bound r rest

end Reading

def document? (s : Text) : Option Table :=
  let body := match s with
    | '\ufeff' :: rest => rest
    | s => s
  Reading.lines? (body.length + 1) {} body

end AndroidResources.Toml
