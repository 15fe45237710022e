import AndroidResources.Yaml.Scalar

/-!
# Tokens of YAML

The structure of a document is given by indentation and by marks. A key shows only at the colon
behind it, so the token that opens it is put in where the key began.

* `Yaml.Token` : scalars, marks, and the starts and ends that indentation stands for;
* `Yaml.Scanner` : the tokens found so far, the open indentations and the possible keys;
* `Yaml.tokens?` : the tokens of a text, if it has any good ones. Anchors, aliases, tags, directives
  and block scalars are not read.
-/

namespace AndroidResources.Yaml

inductive Token
  | documentStart
  | documentEnd
  | blockSequenceStart
  | blockMappingStart
  | blockEnd
  | flowSequenceStart
  | flowSequenceEnd
  | flowMappingStart
  | flowMappingEnd
  | blockEntry
  | flowEntry
  | key
  | value
  /-- A scalar; it is `plain` if it has no quotes. -/
  | scalar (text : Text) (plain : Bool)
  deriving DecidableEq, Repr

/-- A place where a key may have begun. -/
structure PossibleKey where
  /-- The number of tokens in front of it. -/
  position : Nat
  required : Bool
  start : Cursor

/-- How far a text has been scanned. -/
structure Scanner where
  cursor : Cursor
  /-- The tokens found, the last one in front. -/
  found : List Token := []
  /-- The column of the innermost block; less than zero outside all blocks. -/
  indent : Int := -1
  outerIndents : List Int := []
  /-- Where a key may have begun in the innermost bracket. -/
  key? : Option PossibleKey := none
  outerKeys : List (Option PossibleKey) := []
  keyAllowed : Bool := true

namespace Scanner

def inFlow (s : Scanner) : Bool :=
  !s.outerKeys.isEmpty

def push (s : Scanner) (token : Token) : Scanner :=
  { s with found := token :: s.found }

/-- One more token behind the first `position` ones. -/
def insertAt (s : Scanner) (position : Nat) (token : Token) : Scanner :=
  let behind := s.found.length - position
  { s with found := s.found.take behind ++ token :: s.found.drop behind }

/-- One more token that is written with `length` characters. -/
def take (s : Scanner) (length : Nat) (token : Token) : Scanner :=
  { s.push token with cursor := s.cursor.skip length }

/-! ## Keys -/

/-- The greatest length of a key that its colon shows. -/
def keyLimit : Nat := 1024

/-- No key can have begun where one is required and none has come. -/
def dropKey? (s : Scanner) : Option Scanner :=
  if s.key?.any (·.required) then none else some { s with key? := none }

/-- A key has to end on its line and within its limit. -/
def isStale (s : Scanner) (key : PossibleKey) : Bool :=
  key.start.line < s.cursor.line || key.start.index + keyLimit < s.cursor.index

/-- Forgets the places where no key can have begun any more. -/
def dropStaleKeys? (s : Scanner) : Option Scanner :=
  let isLost (key? : Option PossibleKey) : Bool := key?.any fun key => s.isStale key && key.required
  if isLost s.key? || s.outerKeys.any isLost then none
  else
    some { s with
      key? := s.key?.filter (!s.isStale ·)
      outerKeys := s.outerKeys.map (·.filter (!s.isStale ·)) }

def noteKey? (s : Scanner) : Option Scanner :=
  if s.keyAllowed then do
    let after ← s.dropKey?
    return { after with
      key? := some ⟨s.found.length, !s.inFlow && s.indent == s.cursor.column, s.cursor⟩ }
  else some s

/-! ## Indentation -/

/-- Opens a block at a deeper column than the innermost one; its start goes behind the first
`position` tokens. -/
def openBlock (s : Scanner) (column position : Nat) (start : Token) : Scanner :=
  if !s.inFlow && s.indent < column then
    { s.insertAt position start with
      indent := column, outerIndents := s.indent :: s.outerIndents }
  else s

/-- Closes the blocks that are indented deeper than a column. -/
def closeBlocks (column : Int) : Nat → Scanner → Scanner
  | 0, s => s
  | bound + 1, s =>
    if !s.inFlow && column < s.indent then
      match s.outerIndents with
      | outer :: others =>
        closeBlocks column bound
          { s.push .blockEnd with indent := outer, outerIndents := others }
      | [] => s
    else s

def unindent (s : Scanner) (column : Int) : Scanner :=
  closeBlocks column s.outerIndents.length s

/-! ## The kinds of token -/

def openFlow? (s : Scanner) (start : Token) : Option Scanner := do
  let s ← s.noteKey?
  return { s.take 1 start with
    key? := none, outerKeys := s.key? :: s.outerKeys, keyAllowed := true }

def closeFlow? (s : Scanner) (stop : Token) : Option Scanner := do
  let s ← s.dropKey?
  let s := { s.take 1 stop with keyAllowed := false }
  match s.outerKeys with
  | [] => return s
  | outer :: others => return { s with key? := outer, outerKeys := others }

def flowEntry? (s : Scanner) : Option Scanner := do
  let s ← s.dropKey?
  return { s.take 1 .flowEntry with keyAllowed := true }

/-- The mark of an entry of a block. -/
def blockEntry? (s : Scanner) : Option Scanner := do
  if !s.inFlow && !s.keyAllowed then none
  let s := s.openBlock s.cursor.column s.found.length .blockSequenceStart
  let s ← s.dropKey?
  return { s.take 1 .blockEntry with keyAllowed := true }

def explicitKey? (s : Scanner) : Option Scanner := do
  if !s.inFlow && !s.keyAllowed then none
  let s := s.openBlock s.cursor.column s.found.length .blockMappingStart
  let s ← s.dropKey?
  return { s.take 1 .key with keyAllowed := !s.inFlow }

def value? (s : Scanner) : Option Scanner :=
  match s.key? with
  | some key =>
    let s := s.insertAt key.position .key
    let s := s.openBlock key.start.column key.position .blockMappingStart
    some { s.take 1 .value with key? := none, keyAllowed := false }
  | none =>
    if !s.inFlow && !s.keyAllowed then none
    else
      let s := s.openBlock s.cursor.column s.found.length .blockMappingStart
      some { s.take 1 .value with keyAllowed := !s.inFlow }

def documentMark? (s : Scanner) (mark : Token) : Option Scanner := do
  let s ← (s.unindent (-1)).dropKey?
  return { s.take 3 mark with keyAllowed := false }

def quoted? (s : Scanner) (style : QuoteStyle) : Option Scanner := do
  let s ← s.noteKey?
  let (text, behind) ← scanQuoted? style s.cursor.next
  return { s.push (.scalar text false) with cursor := behind, keyAllowed := false }

def plain? (s : Scanner) : Option Scanner := do
  let s ← s.noteKey?
  let (text, beforeBreak, behind) ← scanPlain? s.inFlow (s.indent + 1) s.cursor
  return { s.push (.scalar text true) with cursor := behind, keyAllowed := beforeBreak }

/-! ## Scanning -/

/-- Goes on to the next token, past blanks, line ends and comments. -/
def toToken : Nat → Scanner → Scanner
  | 0, s => s
  | bound + 1, s =>
    let blank (c : Char) : Bool := c == ' ' || ((s.inFlow || !s.keyAllowed) && c == '\t')
    let start := s.cursor.skipWhile blank
    let line := if start.rest.head? = some '#' then start.skipWhile (!isBreak ·) else start
    match line.rest with
    | c :: _ =>
      if isBreak c then
        toToken bound { s with cursor := line.next, keyAllowed := s.keyAllowed || !s.inFlow }
      else { s with cursor := line }
    | [] => { s with cursor := line }

/-- The characters that no plain scalar begins with. -/
def indicators : Text := "-?:,[]\x7b\x7d#&*!|>'\"%@`"

def startsPlain (inFlow : Bool) (c : Char) (rest : Text) : Bool :=
  !(isGap c || c ∈ indicators) || (c == '-' && !rest.head?.any isSpace) ||
    (!inFlow && (c == '?' || c == ':') && !startsGap rest)

/-- The next token, which begins with the given character. -/
def token? (s : Scanner) (c : Char) (rest : Text) : Option Scanner :=
  if s.cursor.hasMark "---" then s.documentMark? .documentStart
  else if s.cursor.hasMark "..." then s.documentMark? .documentEnd
  else if c = '[' then s.openFlow? .flowSequenceStart
  else if c = '\x7b' then s.openFlow? .flowMappingStart
  else if c = ']' then s.closeFlow? .flowSequenceEnd
  else if c = '\x7d' then s.closeFlow? .flowMappingEnd
  else if c = ',' then s.flowEntry?
  else if c = '-' ∧ startsGap rest then s.blockEntry?
  else if c = '?' ∧ (s.inFlow ∨ startsGap rest) then s.explicitKey?
  else if c = ':' ∧ (s.inFlow ∨ startsGap rest) then s.value?
  else if c = '\'' then s.quoted? .single
  else if c = '"' then s.quoted? .double
  else if startsPlain s.inFlow c rest then s.plain?
  else none

/-- All tokens from a place on, `bound` of them at most. -/
def finish? : Nat → Scanner → Option Scanner
  | 0, _ => none
  | bound + 1, s => do
    let s ← (toToken (s.cursor.rest.length + 1) s).dropStaleKeys?
    match s.cursor.rest with
    | [] => (s.unindent (-1)).dropKey?
    | c :: rest => finish? bound (← (s.unindent s.cursor.column).token? c rest)

end Scanner

def tokens? (s : Text) : Option (List Token) := do
  let text ← prepare? s
  let scanner ← Scanner.finish? (text.length + 1) { cursor := { rest := text } }
  return scanner.found.reverse

end AndroidResources.Yaml
