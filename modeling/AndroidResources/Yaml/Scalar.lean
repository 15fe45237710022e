import AndroidResources.Text.Digits
import AndroidResources.Yaml.Cursor

/-!
# Scalars of YAML

* `Yaml.scanPlain?` : a scalar without quotes, which ends where a mark of the structure stands;
* `Yaml.scanQuoted?` : a scalar in single or double quotes, read behind its opening quote.

Both may go on over several lines.
-/

namespace AndroidResources.Yaml

/-! ## Plain scalars -/

/-- The characters that end a plain scalar inside brackets. -/
def flowMarks : Text := ",[]\x7b\x7d"

/-- The run of characters without a gap that a text starts with, up to a mark of the structure. A
colon right before a mark is no part of a plain scalar inside brackets. -/
def plainRun? (inFlow : Bool) : Text → Option Text
  | [] => some []
  | c :: rest =>
    if isGap c then some []
    else if inFlow && c == ':' && rest.head?.any (fun d => d == '?' || d ∈ flowMarks) then none
    else if (c == ':' && startsGap rest) || (inFlow && c ∈ flowMarks) then some []
    else (plainRun? inFlow rest).map (c :: ·)

/-- The words of a plain scalar from the second one on, with the gap in front of them. The result
also tells whether the scalar is followed by a line end. -/
def plainWords? (inFlow : Bool) (indent : Int) : Nat → Gap → Cursor →
    Option (Text × Bool × Cursor)
  | 0, _, _ => none
  | bound + 1, gap, c => do
    let behindBreak := gap.breaks ≠ []
    if c.atDocumentMark || c.rest.head? == some '#' || (behindBreak && !inFlow && c.column < indent)
    then return ([], behindBreak, c)
    let run ← plainRun? inFlow c.rest
    if run = [] then return ([], behindBreak, c)
    let after := c.skip run.length
    if !startsGap after.rest then return (gap.text ++ run, false, after)
    let gapText := after.rest.takeWhile isGap
    if hasTabIndent indent none gapText then none
    let (words, ended, last) ←
      plainWords? inFlow indent bound (.ofText gapText) (after.skipWhile isGap)
    return (gap.text ++ run ++ words, ended, last)

/-- A plain scalar: its text, whether a line end follows it, and what is behind it. -/
def scanPlain? (inFlow : Bool) (indent : Int) (c : Cursor) : Option (Text × Bool × Cursor) :=
  plainWords? inFlow indent (c.rest.length + 1) {} c

/-! ## Quoted scalars -/

inductive QuoteStyle
  | single
  | double
  deriving DecidableEq, Repr

def QuoteStyle.mark : QuoteStyle → Char
  | single => '\''
  | double => '"'

def letterEscapes : List (Char × Char) :=
  [('0', '\x00'), ('a', '\x07'), ('b', '\x08'), ('t', '\t'), ('\t', '\t'), ('n', '\n'),
    ('v', '\x0b'), ('f', '\x0c'), ('r', '\r'), ('e', '\x1b'), (' ', ' '), ('"', '"'), ('/', '/'),
    ('\\', '\\'), ('N', '\x85'), ('_', '\xa0'), ('L', '\u2028'), ('P', '\u2029')]

/-- The letters of the escapes by number, and how many digits they take. -/
def numberEscapes : List (Char × Nat) :=
  [('x', 2), ('u', 4), ('U', 8)]

inductive QuotedItem
  /-- A character that is written with `length` of them. -/
  | char (c : Char) (length : Nat)
  /-- A line end that does not count. -/
  | escapedBreak
  | gap
  | close

def escapedItem? : Text → Option QuotedItem
  | [] => none
  | c :: rest =>
    if isBreak c then some .escapedBreak
    else
      match letterEscapes.lookup c, numberEscapes.lookup c with
      | some char, _ => some (.char char 2)
      | none, some digits =>
        if rest.length < digits then none
        else
          ((Text.hexNumber? (rest.take digits)).bind Text.charOfNumber?).map fun char =>
            .char char (2 + digits)
      | none, none => none

def quotedItem? (style : QuoteStyle) : Text → Option QuotedItem
  | [] => none
  | '\'' :: '\'' :: rest =>
    if style = .single then some (.char '\'' 2) else quotedItem? style ('\'' :: rest)
  | c :: rest =>
    if c = style.mark then some .close
    else if c = '\\' ∧ style = .double then escapedItem? rest
    else if isGap c then some .gap
    else some (.char c 1)
termination_by s => s.length

/-- The text of a quoted scalar up to its closing quote, and what is behind it. -/
def quotedItems? (style : QuoteStyle) : Nat → Cursor → Option (Text × Cursor)
  | 0, _ => none
  | bound + 1, c => do
    if c.atDocumentMark then none
    match ← quotedItem? style c.rest with
    | .close => return ([], c.next)
    | .char ch length =>
      let (text, last) ← quotedItems? style bound (c.skip length)
      return (ch :: text, last)
    | .escapedBreak =>
      let after := c.skip 2
      let (text, last) ← quotedItems? style bound (after.skipWhile isGap)
      return ((after.rest.takeWhile isGap).filter isBreak ++ text, last)
    | .gap =>
      let (text, last) ← quotedItems? style bound (c.skipWhile isGap)
      return ((Gap.ofText (c.rest.takeWhile isGap)).text ++ text, last)

def scanQuoted? (style : QuoteStyle) (c : Cursor) : Option (Text × Cursor) :=
  quotedItems? style (c.rest.length + 1) c

end AndroidResources.Yaml
