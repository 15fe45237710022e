import AndroidResources.Text.Basic

/-!
# Places in a YAML text

* `Yaml.prepare?` : the text with all common line ends alike, if its characters are allowed;
* `Yaml.Cursor` : what is still to be read, with its line and column;
* `Yaml.Gap` : blanks and line ends between the words of a scalar, `Gap.text` what they mean.
-/

namespace AndroidResources.Yaml

def isAllowed (c : Char) : Bool :=
  let n := c.toNat
  n == 0x9 || n == 0xa || n == 0xd || (0x20 ≤ n && n ≤ 0x7e) || n == 0x85 ||
    (0xa0 ≤ n && n ≤ 0xfffd && n != 0xfeff) || 0x10000 ≤ n

/-- Every line end that is folded becomes a line feed. -/
def unifyLineEnds : Text → Text
  | [] => []
  | '\r' :: '\n' :: rest => '\n' :: unifyLineEnds rest
  | c :: rest => (if c = '\r' ∨ c = '\x85' then '\n' else c) :: unifyLineEnds rest

/-- The text without a byte order mark, with its line ends alike; none if a character is not
allowed. -/
def prepare? (s : Text) : Option Text :=
  let body := match s with
    | '\ufeff' :: rest => rest
    | s => s
  if body.all isAllowed then some (unifyLineEnds body) else none

def isBreak (c : Char) : Bool :=
  c == '\n' || c == '\u2028' || c == '\u2029'

def isSpace (c : Char) : Bool :=
  c == ' ' || c == '\t'

def isGap (c : Char) : Bool :=
  isSpace c || isBreak c

/-- A gap follows, or nothing at all. -/
def startsGap : Text → Bool
  | [] => true
  | c :: _ => isGap c

/-- What is still to be read, and where it stands. -/
structure Cursor where
  rest : Text
  line : Nat := 0
  column : Nat := 0
  index : Nat := 0

namespace Cursor

def next (c : Cursor) : Cursor :=
  match c.rest with
  | [] => c
  | ch :: rest =>
    if isBreak ch then ⟨rest, c.line + 1, 0, c.index + 1⟩
    else ⟨rest, c.line, c.column + 1, c.index + 1⟩

def skip (c : Cursor) : Nat → Cursor
  | 0 => c
  | n + 1 => c.next.skip n

def skipWhile (c : Cursor) (p : Char → Bool) : Cursor :=
  c.skip (c.rest.takeWhile p).length

/-- A mark of three characters stands at the start of a line, with a gap behind it. -/
def hasMark (c : Cursor) (mark : Text) : Bool :=
  c.column == 0 && List.isPrefixOf mark c.rest && startsGap (c.rest.drop 3)

def atDocumentMark (c : Cursor) : Bool :=
  c.hasMark "---" || c.hasMark "..."

end Cursor

/-- Blanks and line ends between the words of a scalar. Blanks at a line's start or end do not
count. -/
structure Gap where
  spaces : Text := []
  breaks : Text := []

/-- What a gap means: a line end is folded to a blank, further ones are kept. -/
def Gap.text (gap : Gap) : Text :=
  match gap.breaks with
  | [] => gap.spaces
  | ['\n'] => " "
  | '\n' :: more => more
  | breaks => breaks

def Gap.ofText (s : Text) : Gap :=
  s.foldl
    (fun gap c =>
      if isBreak c then { gap with breaks := gap.breaks ++ [c] }
      else if gap.breaks = [] then { gap with spaces := gap.spaces ++ [c] }
      else gap) {}

/-- A tab stands where indentation is due: behind a line end, before the given column. -/
def hasTabIndent (indent : Int) : Option Nat → Text → Bool
  | _, [] => false
  | column?, c :: rest =>
    if isBreak c then hasTabIndent indent (some 0) rest
    else
      (c == '\t' && column?.any fun column => (column : Int) < indent) ||
        hasTabIndent indent (column?.map (· + 1)) rest

end AndroidResources.Yaml
