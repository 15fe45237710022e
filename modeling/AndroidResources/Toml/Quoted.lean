import AndroidResources.Text.Digits

/-!
# Strings of TOML

* `Toml.lineString?` : a string on one line, with escapes or without;
* `Toml.blockString?` : a string in triple quotes, which may go on over several lines;
* `Toml.string?` : either, by its opening quotes.
-/

namespace AndroidResources.Toml

/-- The two kinds of string. -/
inductive StringKind
  /-- In double quotes, with escapes. -/
  | basic
  /-- In single quotes, as it is. -/
  | literal
  deriving DecidableEq, Repr

def StringKind.mark : StringKind → Char
  | basic => '"'
  | literal => '\''

def isTextChar (c : Char) : Bool :=
  c == '\t' || (' ' ≤ c && c != '\x7f')

def isSpace (c : Char) : Bool :=
  c == ' ' || c == '\t'

def lineEnd? : Text → Option Text
  | '\n' :: rest => some rest
  | '\r' :: '\n' :: rest => some rest
  | _ => none

def letterEscapes : List (Char × Char) :=
  [('b', '\x08'), ('f', '\x0c'), ('n', '\n'), ('r', '\r'), ('t', '\t'), ('"', '"'), ('\\', '\\')]

/-- The character with the number that so many digits spell. -/
def numberedChar? (width : Nat) (s : Text) : Option (Char × Text) :=
  if s.length < width then none
  else
    ((Text.hexNumber? (s.take width)).bind Text.charOfNumber?).map fun c => (c, s.drop width)

/-- The character that an escape stands for, read behind its backslash. -/
def escaped? : Text → Option (Char × Text)
  | [] => none
  | 'u' :: rest => numberedChar? 4 rest
  | 'U' :: rest => numberedChar? 8 rest
  | c :: rest => (letterEscapes.lookup c).map fun char => (char, rest)

def skipBlankLines : Nat → Text → Text
  | 0, s => s
  | bound + 1, s =>
    let rest := s.dropWhile isSpace
    match lineEnd? rest with
    | some rest => skipBlankLines bound rest
    | none => rest

def stringChar? (kind : StringKind) : Text → Option (Char × Text)
  | [] => none
  | c :: rest =>
    if c = '\\' ∧ kind = .basic then escaped? rest
    else if isTextChar c then some (c, rest)
    else none

/-- A string on one line, read behind its opening quote. -/
def lineChars? (kind : StringKind) : Nat → Text → Option (Text × Text)
  | 0, _ => none
  | bound + 1, s =>
    if s.head? = some kind.mark then some ([], s.tail)
    else do
      let (c, rest) ← stringChar? kind s
      let (cs, rest) ← lineChars? kind bound rest
      return (c :: cs, rest)

def lineString? (kind : StringKind) (s : Text) : Option (Text × Text) :=
  lineChars? kind (s.length + 1) s

/-- The text behind a line end that is escaped in a basic string. -/
def escapedLineEnd? (kind : StringKind) (s : Text) : Option Text :=
  match s with
  | '\\' :: rest =>
    if kind = .basic then
      (lineEnd? (rest.dropWhile isSpace)).map fun rest => skipBlankLines rest.length rest
    else none
  | _ => none

/-- A string in triple quotes. Up to two quotes belong to the string where three more follow. -/
def blockChars? (kind : StringKind) : Nat → Text → Option (Text × Text)
  | 0, _ => none
  | bound + 1, s =>
    let quotes := (s.takeWhile (· == kind.mark)).length
    if 3 ≤ quotes then
      let kept := min (quotes - 3) 2
      some (List.replicate kept kind.mark, s.drop (kept + 3))
    else
      match escapedLineEnd? kind s, lineEnd? s with
      | some rest, _ => blockChars? kind bound rest
      | none, some rest => (blockChars? kind bound rest).map fun (cs, rest) => ('\n' :: cs, rest)
      | none, none => do
        let (c, rest) ← stringChar? kind s
        let (cs, rest) ← blockChars? kind bound rest
        return (c :: cs, rest)

/-- A string in triple quotes, read behind them. A line end right behind them does not count. -/
def blockString? (kind : StringKind) (s : Text) : Option (Text × Text) :=
  let body := (lineEnd? s).getD s
  blockChars? kind (body.length + 1) body

def string? : Text → Option (Text × Text)
  | '"' :: '"' :: '"' :: rest => blockString? .basic rest
  | '\'' :: '\'' :: '\'' :: rest => blockString? .literal rest
  | '"' :: rest => lineString? .basic rest
  | '\'' :: rest => lineString? .literal rest
  | _ => none

end AndroidResources.Toml
