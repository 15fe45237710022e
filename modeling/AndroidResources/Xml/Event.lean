import AndroidResources.Xml.Tag

/-!
# Documents as events

A document is read as the events of its tags: elements open and close in order, text, comments,
character data, declarations and processing instructions only separate them. The input may end
with elements still open.

* `Xml.Event` : a start tag, an empty element or an end tag;
* `Xml.Markup` : what the text behind a `<` begins with, `Xml.markup` reads it;
* `Xml.Reading` : the events up to the first fault, and that fault;
* `Xml.read` : the reading of a text, behind one byte order mark.
-/

namespace AndroidResources.Xml

inductive Event
  | opened (tag : Tag)
  | empty (tag : Tag)
  | closed
  deriving DecidableEq, Repr

/-- What the text behind a `<` begins with, and what follows its `>`. -/
inductive Markup
  | finished
  | fault (fault : Fault)
  | skipped (rest : Text)
  /-- An end tag, by the text between the slash and the `>`. -/
  | endTag (content rest : Text)
  /-- Any other tag, by the text between the angle brackets. -/
  | tag (content rest : Text)
  deriving DecidableEq, Repr

/-- The text up to the next `>` and behind it; everything where there is none. -/
def upToClose (s : Text) : Text × Text :=
  (Text.splitFirst? '>' s).getD (s, [])

/-- The text up to the first `>` outside quotes and behind it; everything where there is none.
The argument is the quote that is open. -/
def upToTagClose (quote? : Option Char) : Text → Text × Text
  | [] => ([], [])
  | c :: rest =>
    if quote? = none ∧ c = '>' then ([], rest)
    else
      let next? :=
        match quote? with
        | none => if c = '"' ∨ c = '\'' then some c else none
        | some quote => if c = quote then none else quote?
      let parts := upToTagClose next? rest
      (c :: parts.1, parts.2)

/-- The text before and behind the first `>` in front of which the test holds of what was read.
`before` is what was read so far, last character first. -/
def upToBangClose (complete : Text → Bool) (before : Text) : Text → Option (Text × Text)
  | [] => none
  | c :: rest =>
    if c = '>' ∧ complete before then some (before.reverse, rest)
    else upToBangClose complete (c :: before) rest

def cdataComplete (before : Text) : Bool :=
  List.isPrefixOf "]]".toList before

/-- What was read of a comment ends with two hyphens that are not those it starts with. -/
def commentComplete (before : Text) : Bool :=
  List.isPrefixOf "--".toList before && 4 ≤ Text.utf8Size before

/-- What was read of a document type has as many closing as opening brackets. -/
def doctypeComplete (before : Text) : Bool :=
  before.count '<' == before.count '>'

/-- Markup behind `<!` that is closed where `complete` says so and starts with `lead`, in any
letter case. -/
def bangMarkup (construct : Construct) (complete : Text → Bool) (lead s : Text)
    (verdict : Text → Option Fault) : Markup :=
  match upToBangClose complete [] s with
  | none => .fault (.unexpectedEnd construct)
  | some (content, rest) =>
    if List.isPrefixOf lead (content.map Char.toUpper) then
      match verdict (content.drop lead.length) with
      | some fault => .fault fault
      | none => .skipped rest
    else .fault (.unexpectedEnd construct)

def markup : Text → Markup
  | [] => .finished
  | '!' :: s =>
    match s with
    | [] => .fault (.unexpectedEnd .bang)
    | c :: _ =>
      if c = '[' then bangMarkup .cdata cdataComplete "[CDATA[" s fun _ => none
      else if c = '-' then bangMarkup .comment commentComplete "--" s fun _ => none
      else if c = 'D' ∨ c = 'd' then
        bangMarkup .doctype doctypeComplete "DOCTYPE" s fun body =>
          if body.all isSpace then some .emptyDoctype else none
      else .fault (.unknownMarkup (firstByte c))
  | '?' :: s =>
    let parts := upToClose s
    if 2 ≤ Text.utf8Size parts.1 ∧ parts.1.getLast? = some '?' then .skipped parts.2
    else .fault (.unexpectedEnd .declaration)
  | '/' :: s =>
    let parts := upToClose s
    .endTag parts.1 parts.2
  | s =>
    let parts := upToTagClose none s
    .tag parts.1 parts.2

/-- The name of an end tag: its content without white space at the end, unless that is all. -/
def endTagName (content : Text) : Text :=
  if content.all isSpace then content
  else (content.reverse.dropWhile isSpace).reverse

/-- The tag of a content, and whether it is an empty element, which a slash at the end says. -/
def tagOfContent (content : Text) : Tag × Bool :=
  if content.getLast? = some '/' then (Tag.ofContent content.dropLast, true)
  else (Tag.ofContent content, false)

theorem length_upToClose_le (s : Text) : (upToClose s).2.length ≤ s.length := by
  rw [upToClose]
  cases h : Text.splitFirst? '>' s with
  | none => simp
  | some parts =>
    have := congrArg List.length (Text.eq_append_of_splitFirst? h).1
    simp only [List.length_append, List.length_cons] at this
    simp only [Option.getD_some]
    omega

theorem length_upToTagClose_le (quote? : Option Char) (s : Text) :
    (upToTagClose quote? s).2.length ≤ s.length := by
  induction s generalizing quote? with
  | nil => simp [upToTagClose]
  | cons c rest ih =>
    rw [upToTagClose.eq_def]
    dsimp only
    split
    · simp
    · exact Nat.le_succ_of_le (ih _)

theorem length_lt_of_upToBangClose {complete : Text → Bool} {before s content rest : Text}
    (h : upToBangClose complete before s = some (content, rest)) : rest.length < s.length := by
  induction s generalizing before with
  | nil => cases h
  | cons c tail ih =>
    rw [upToBangClose] at h
    split at h
    · cases h
      simp
    · exact Nat.lt_succ_of_lt (ih h)

/-- What follows the markup that a text begins with, if something can. -/
def Markup.rest? : Markup → Option Text
  | finished => none
  | fault _ => none
  | skipped rest => some rest
  | endTag _ rest => some rest
  | tag _ rest => some rest

theorem length_le_of_bangMarkup {construct : Construct} {complete : Text → Bool}
    {lead s rest : Text} {verdict : Text → Option Fault}
    (h : (bangMarkup construct complete lead s verdict).rest? = some rest) :
    rest.length ≤ s.length := by
  rw [bangMarkup] at h
  split at h
  · cases h
  · next content tail hclose =>
    have hlt := length_lt_of_upToBangClose hclose
    split at h
    · split at h
      · cases h
      · cases h
        omega
    · cases h

theorem length_le_of_markup {s rest : Text} (h : (markup s).rest? = some rest) :
    rest.length ≤ s.length := by
  rw [markup.eq_def] at h
  split at h
  · cases h
  · next tail =>
    refine Nat.le_succ_of_le ?_
    split at h
    · cases h
    · split at h
      · exact length_le_of_bangMarkup h
      · split at h
        · exact length_le_of_bangMarkup h
        · split at h
          · exact length_le_of_bangMarkup h
          · cases h
  · next tail =>
    have := length_upToClose_le tail
    dsimp only at h
    split at h
    · cases h
      simp only [List.length_cons]
      omega
    · cases h
  · next tail =>
    have := length_upToClose_le tail
    cases h
    simp only [List.length_cons]
    omega
  · cases h
    exact length_upToTagClose_le none s

/-- The events of a document up to the first fault, and that fault. -/
structure Reading where
  events : List Event
  fault? : Option Fault
  deriving DecidableEq, Repr

def Reading.cons (event : Event) (reading : Reading) : Reading :=
  ⟨event :: reading.events, reading.fault?⟩

/-- The reading of a text inside the open elements whose names are given, innermost first. -/
def readFrom (openNames : List Text) (s : Text) : Reading :=
  match _hs : Text.splitFirst? '<' s with
  | none => ⟨[], none⟩
  | some (_, behind) =>
    match _hm : markup behind with
    | .finished => ⟨[], none⟩
    | .fault fault => ⟨[], some fault⟩
    | .skipped rest => readFrom openNames rest
    | .endTag content rest =>
      match openNames with
      | [] => ⟨[], some (.mismatchedEnd [] content)⟩
      | name :: outer =>
        if endTagName content = name then (readFrom outer rest).cons .closed
        else ⟨[], some (.mismatchedEnd name (endTagName content))⟩
    | .tag content rest =>
      match tagOfContent content with
      | (tag, true) => (readFrom openNames rest).cons (.empty tag)
      | (tag, false) => (readFrom (tag.name :: openNames) rest).cons (.opened tag)
  termination_by s.length
  decreasing_by
    all_goals
      have hs := congrArg List.length (Text.eq_append_of_splitFirst? _hs).1
      simp only [List.length_append, List.length_cons] at hs
      have hm := length_le_of_markup (s := behind) (by rw [_hm]; rfl)
      omega

/-- The reading of a text. A byte order mark in front does not count. -/
def read (s : Text) : Reading :=
  match s with
  | '\ufeff' :: rest => readFrom [] rest
  | _ => readFrom [] s

end AndroidResources.Xml
