import AndroidResources.Error
import AndroidResources.Symbol.Table
import AndroidResources.Text.Blank
import AndroidResources.Text.Word

/-!
# Symbol lists of dependencies

A symbol list has one symbol a line, e.g. `int string app_name 0x7f0e001b`: a shape, a type, a name
and anything more, with blanks between them.

* `RTxt.readEntry` : the symbol of one trimmed line;
* `RTxt.readLines` : the symbols of lines with their numbers, or the first line that is none;
* `RTxt.read` : the table of a whole text; blank lines count but declare nothing.
-/

namespace AndroidResources.RTxt

/-- What follows the blanks that a text starts with; there has to be one. -/
def blanks? : Text → Option Text
  | [] => none
  | c :: rest => if Text.isBlank c then some (rest.dropWhile Text.isBlank) else none

def word? (s : Text) : Option (Text × Text) :=
  let word := s.takeWhile Text.isWordChar
  if word = [] then none else some (word, s.dropWhile Text.isWordChar)

/-- The shape that a text starts with, and what follows the blanks behind it. -/
def shape? (s : Text) : Option (Shape × Text) :=
  match (List.isPrefixOf? "int[]".toList s).bind blanks? with
  | some rest => some (.intArray, rest)
  | none =>
    match (List.isPrefixOf? "int".toList s).bind blanks? with
    | some rest => some (.int, rest)
    | none => none

def readEntry (line : Text) : Option Declaration := do
  let (shape, s) ← shape? line
  let (type, s) ← word? s
  let s ← blanks? s
  let (name, s) ← word? s
  let value ← blanks? s
  if value = [] then none else some (⟨type, name⟩, shape)

/-- The symbols of lines, the first of which has the given number; or the number and text of the
first line that is no symbol. -/
def readLines (number : Nat) : List Text → Except (Nat × Text) (List Declaration)
  | [] => .ok []
  | line :: rest =>
    let trimmed := Text.trim line
    if trimmed = [] then readLines (number + 1) rest
    else
      match readEntry trimmed with
      | none => .error (number, trimmed)
      | some entry => (readLines (number + 1) rest).map (entry :: ·)

def read (file : Path) (contents : Text) : Except BuildError SymbolTable :=
  match readLines 1 (contents.splitOn '\n') with
  | .ok entries => .ok (SymbolTable.declare .empty entries)
  | .error (number, line) => .error (.invalidRTxt file number line)

end AndroidResources.RTxt
