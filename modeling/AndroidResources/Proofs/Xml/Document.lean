import AndroidResources.Xml.Event

/-!
# Documents as written

A well-formed document without a document type, by its parts and with all that a writer is free to
choose: white space, quotes, references, and whether an element without content is written as one
tag or as two. Each part carries what makes it well-formed.

* `Denotes name c` : the reference `&name;` stands for the character `c`;
* `ValuePart`, `WrittenAttribute`, `WrittenTag` : attribute values, attributes and tags;
* `Node` : elements and what may stand between tags;
* `renderNodes` : the text of a document;
* `eventsOf`, `tagsOf` : its events, and its start and empty-element tags in document order;
* `Readable` : processing instructions hold no `>`, and numeric references have few digits.
-/

namespace AndroidResources.Xml

/-! ## Tags -/

/-- The characters that no name holds. -/
def nameMarks : List Char := ['<', '>', '/', '=', '"', '\'', '&', '!', '?']

structure Name where
  text : Text
  ne_nil : text ≠ []
  plain : ∀ c ∈ text, isSpace c = false ∧ c ∉ nameMarks

/-- The reference that is written as the name between `&` and `;` stands for the character. -/
inductive Denotes : Text → Char → Prop
  | predefined {name : Text} {c : Char} (h : (name, c) ∈ Xml.predefined) : Denotes name c
  | decimal {digits : Text} {c : Char} (hne : digits ≠ []) (hc : c ≠ '\x00')
      (h : Text.readDigits 10 Text.decimalDigit? 0 digits = .ok c.toNat) :
      Denotes ('#' :: digits) c
  | hexadecimal {digits : Text} {c : Char} (hne : digits ≠ []) (hc : c ≠ '\x00')
      (h : Text.readDigits 16 Text.hexDigit? 0 digits = .ok c.toNat) :
      Denotes ('#' :: 'x' :: digits) c

/-- A part of an attribute value: a character as it is, or a reference to one. -/
inductive ValuePart
  | plain (c : Char) (h : c ≠ '&')
  | reference (name : Text) (c : Char) (h : Denotes name c)

def ValuePart.render : ValuePart → Text
  | plain c _ => [c]
  | reference name _ _ => '&' :: name ++ [';']

def ValuePart.char : ValuePart → Char
  | plain c _ => c
  | reference _ c _ => c

/-- A number is written with at most seven decimal or six hexadecimal digits. -/
def ValuePart.Short : ValuePart → Prop
  | plain _ _ => True
  | reference name _ _ => name.length ≤ 8

instance : DecidablePred ValuePart.Short
  | .plain _ _ => isTrue trivial
  | .reference name _ _ => inferInstanceAs (Decidable (name.length ≤ 8))

inductive Quote
  | single
  | double

def Quote.char : Quote → Char
  | single => '\''
  | double => '"'

/-- An attribute as it stands in a tag, with the white space in front of it. -/
structure WrittenAttribute where
  gap : Text
  name : Name
  /-- The white space in front of the equals sign. -/
  before : Text
  /-- The white space behind the equals sign. -/
  after : Text
  quote : Quote
  value : List ValuePart
  gap_ne_nil : gap ≠ []
  spaces : (gap ++ before ++ after).all isSpace
  unquoted : quote.char ∉ value.flatMap ValuePart.render

def WrittenAttribute.rawValue (a : WrittenAttribute) : Text :=
  a.value.flatMap ValuePart.render

def WrittenAttribute.render (a : WrittenAttribute) : Text :=
  a.gap ++ (a.name.text ++ (a.before ++ '=' :: (a.after ++
    a.quote.char :: (a.rawValue ++ [a.quote.char]))))

/-- A start tag or an empty-element tag. No attribute occurs twice. -/
structure WrittenTag where
  name : Name
  attributes : List WrittenAttribute
  gap : Text
  gap_space : gap.all isSpace
  distinct : (attributes.map fun a => a.name.text).Nodup

namespace WrittenTag

/-- The tag as it is written, without what encloses it. -/
def content (t : WrittenTag) : Text :=
  t.name.text ++ (t.attributes.flatMap WrittenAttribute.render ++ t.gap)

def values (t : WrittenTag) : List (Text × Text) :=
  t.attributes.map fun a => (a.name.text, a.value.map ValuePart.char)

def raw (t : WrittenTag) : Tag :=
  ⟨t.name.text, t.attributes.map fun a => ⟨a.name.text, a.rawValue⟩, none⟩

def Short (t : WrittenTag) : Prop :=
  ∀ a ∈ t.attributes, ∀ part ∈ a.value, part.Short

instance : DecidablePred Short := fun t =>
  inferInstanceAs (Decidable (∀ a ∈ t.attributes, ∀ part ∈ a.value, part.Short))

end WrittenTag

/-! ## Documents -/

inductive Node
  | text (s : Text) (h : '<' ∉ s)
  | comment (s : Text) (h : ¬ "--".toList <:+: s)
  | cdata (s : Text) (h : ¬ "]]>".toList <:+: s)
  | instruction (s : Text) (hne : s ≠ []) (h : ¬ "?>".toList <:+: s)
  | empty (tag : WrittenTag)
  /-- An element that is written as two tags, with white space at the end of the second. -/
  | element (tag : WrittenTag) (children : List Node) (gap : Text) (hgap : gap.all isSpace)

def commentText (s : Text) : Text :=
  '<' :: ("!--".toList ++ (s ++ "-->".toList))

def cdataText (s : Text) : Text :=
  '<' :: ("![CDATA[".toList ++ (s ++ "]]>".toList))

def instructionText (s : Text) : Text :=
  '<' :: ('?' :: (s ++ "?>".toList))

def WrittenTag.emptyText (t : WrittenTag) : Text :=
  '<' :: (t.content ++ "/>".toList)

/-- The text of an element that is written as two tags, with what stands between them. -/
def WrittenTag.elementText (t : WrittenTag) (inner gap : Text) : Text :=
  '<' :: (t.content ++ '>' :: (inner ++ '<' :: '/' :: (t.name.text ++ (gap ++ ['>']))))

mutual

def Node.render : Node → Text
  | .text s _ => s
  | .comment s _ => commentText s
  | .cdata s _ => cdataText s
  | .instruction s _ _ => instructionText s
  | .empty tag => tag.emptyText
  | .element tag children gap _ => tag.elementText (renderNodes children) gap

def renderNodes : List Node → Text
  | [] => []
  | node :: rest => node.render ++ renderNodes rest

end

mutual

def Node.events : Node → List Event
  | .text _ _ => []
  | .comment _ _ => []
  | .cdata _ _ => []
  | .instruction _ _ _ => []
  | .empty tag => [.empty tag.raw]
  | .element tag children _ _ => .opened tag.raw :: (eventsOf children ++ [.closed])

def eventsOf : List Node → List Event
  | [] => []
  | node :: rest => node.events ++ eventsOf rest

end

mutual

/-- The start and empty-element tags of a piece in document order. -/
def Node.tags : Node → List WrittenTag
  | .text _ _ => []
  | .comment _ _ => []
  | .cdata _ _ => []
  | .instruction _ _ _ => []
  | .empty tag => [tag]
  | .element tag children _ _ => tag :: tagsOf children

def tagsOf : List Node → List WrittenTag
  | [] => []
  | node :: rest => node.tags ++ tagsOf rest

end

mutual

/-- Processing instructions in the piece hold no `>`. -/
def Node.Closed : Node → Prop
  | .text _ _ => True
  | .comment _ _ => True
  | .cdata _ _ => True
  | .instruction s _ _ => '>' ∉ s
  | .empty _ => True
  | .element _ children _ _ => AllClosed children

def AllClosed : List Node → Prop
  | [] => True
  | node :: rest => node.Closed ∧ AllClosed rest

end

/-- Processing instructions hold no `>`, and numeric references have few digits. -/
structure Readable (document : List Node) : Prop where
  closed : AllClosed document
  short : ∀ tag ∈ tagsOf document, tag.Short

end AndroidResources.Xml
