import AndroidResources.Proofs.Xml.Document
import Mathlib.Data.List.Infix

/-!
# Documents with any attribute values

A well-formed document that may have a document type: a value is any text, as it may refer to what
the document type declares.

* `SourceAttribute`, `SourceTag`, `Piece` : attributes, tags and pieces as they are written;
* `renderPieces`, `eventsOfPieces` : their text and their events;
* `Element`, `Piece.element?` : what an element says, however it is written;
* `Doctype`, `Document` : a document type declaration, and a document with one root;
* `Document.Readable` : no processing instruction holds `>`, and every `>` of the document type
  closes a `<` before it;
* `WrittenTag.source`, `Node.piece` : a tag or piece whose values are taken as they are written.
-/

namespace AndroidResources.Xml

/-! ## Tags -/

/-- An attribute as it stands in a tag, with the white space in front of it. -/
structure SourceAttribute where
  gap : Text
  name : Name
  before : Text
  after : Text
  quote : Quote
  value : Text
  gap_ne_nil : gap ≠ []
  spaces : (gap ++ before ++ after).all isSpace
  unquoted : quote.char ∉ value

def SourceAttribute.render (a : SourceAttribute) : Text :=
  a.gap ++ (a.name.text ++ (a.before ++ '=' :: (a.after ++
    a.quote.char :: (a.value ++ [a.quote.char]))))

/-- A start tag or an empty-element tag. No attribute occurs twice. -/
structure SourceTag where
  name : Name
  attributes : List SourceAttribute
  gap : Text
  gap_space : gap.all isSpace
  distinct : (attributes.map fun a => a.name.text).Nodup

namespace SourceTag

/-- The tag as it is written, without what encloses it. -/
def content (t : SourceTag) : Text :=
  t.name.text ++ (t.attributes.flatMap SourceAttribute.render ++ t.gap)

def values (t : SourceTag) : List Attribute :=
  t.attributes.map fun a => ⟨a.name.text, a.value⟩

def tag (t : SourceTag) : Tag :=
  ⟨t.name.text, t.values, none⟩

def emptyText (t : SourceTag) : Text :=
  '<' :: (t.content ++ "/>".toList)

/-- The text of an element that is written as two tags, with what stands between them. -/
def elementText (t : SourceTag) (inner gap : Text) : Text :=
  '<' :: (t.content ++ '>' :: (inner ++ '<' :: '/' :: (t.name.text ++ (gap ++ ['>']))))

end SourceTag

/-! ## Pieces -/

inductive Piece
  | text (s : Text) (h : '<' ∉ s)
  | comment (s : Text) (h : ¬ "--".toList <:+: s)
  | cdata (s : Text) (h : ¬ "]]>".toList <:+: s)
  | instruction (s : Text) (hne : s ≠ []) (h : ¬ "?>".toList <:+: s)
  | empty (tag : SourceTag)
  /-- An element that is written as two tags, with white space at the end of the second. -/
  | element (tag : SourceTag) (children : List Piece) (gap : Text) (hgap : gap.all isSpace)

/-- What an element says: its name, its attributes and the elements directly inside it. -/
inductive Element
  | mk (name : Text) (attributes : List Attribute) (children : List Element)

namespace Element

def name : Element → Text
  | mk name _ _ => name

def tag : Element → Tag
  | mk name attributes _ => ⟨name, attributes, none⟩

def children : Element → List Element
  | mk _ _ children => children

/-- The value of an attribute as it is written. -/
def value? (e : Element) (name : Text) : Option Text :=
  (e.tag.attributes.find? (·.name = name)).map (·.value)

end Element

mutual

def Piece.render : Piece → Text
  | .text s _ => s
  | .comment s _ => commentText s
  | .cdata s _ => cdataText s
  | .instruction s _ _ => instructionText s
  | .empty tag => tag.emptyText
  | .element tag children gap _ => tag.elementText (renderPieces children) gap

def renderPieces : List Piece → Text
  | [] => []
  | piece :: rest => piece.render ++ renderPieces rest

end

mutual

def Piece.events : Piece → List Event
  | .text _ _ => []
  | .comment _ _ => []
  | .cdata _ _ => []
  | .instruction _ _ _ => []
  | .empty tag => [.empty tag.tag]
  | .element tag children _ _ => .opened tag.tag :: (eventsOfPieces children ++ [.closed])

def eventsOfPieces : List Piece → List Event
  | [] => []
  | piece :: rest => piece.events ++ eventsOfPieces rest

end

mutual

/-- The element that a piece is. One without content says the same written as one tag or as two. -/
def Piece.element? : Piece → Option Element
  | .text _ _ => none
  | .comment _ _ => none
  | .cdata _ _ => none
  | .instruction _ _ _ => none
  | .empty tag => some ⟨tag.name.text, tag.values, []⟩
  | .element tag children _ _ => some ⟨tag.name.text, tag.values, elementsOf children⟩

def elementsOf : List Piece → List Element
  | [] => []
  | piece :: rest => piece.element?.toList ++ elementsOf rest

end

mutual

/-- Processing instructions in the piece hold no `>`. -/
def Piece.Closed : Piece → Prop
  | .text _ _ => True
  | .comment _ _ => True
  | .cdata _ _ => True
  | .instruction s _ _ => '>' ∉ s
  | .empty _ => True
  | .element _ children _ _ => PiecesClosed children

def PiecesClosed : List Piece → Prop
  | [] => True
  | piece :: rest => piece.Closed ∧ PiecesClosed rest

end

theorem piecesClosed_append {a b : List Piece} :
    PiecesClosed (a ++ b) ↔ PiecesClosed a ∧ PiecesClosed b := by
  induction a with
  | nil => simp [PiecesClosed]
  | cons piece rest ih => rw [List.cons_append, PiecesClosed, PiecesClosed, ih, and_assoc]

/-! ## Documents -/

/-- A document type declaration, by what stands behind its keyword. -/
structure Doctype where
  body : Text
  not_blank : body.all isSpace = false

def Doctype.render (d : Doctype) : Text :=
  '<' :: ("!DOCTYPE".toList ++ (d.body ++ ['>']))

/-- Every `>` inside the declaration closes one more `<` before it, and each of these is closed. -/
structure Doctype.Balanced (d : Doctype) : Prop where
  inside : ∀ t u, d.body = t ++ '>' :: u → t.count '>' < t.count '<'
  whole : d.body.count '<' = d.body.count '>'

instance (d : Doctype) : Decidable d.Balanced :=
  decidable_of_iff ((∀ t ∈ d.body.inits, d.body[t.length]? = some '>' →
      t.count '>' < t.count '<') ∧ d.body.count '<' = d.body.count '>') <| by
    constructor
    · rintro ⟨hinside, hwhole⟩
      refine ⟨fun t u hbody => hinside t ((List.mem_inits ..).2 ⟨_, hbody.symm⟩) ?_, hwhole⟩
      rw [hbody]
      simp
    · rintro ⟨hinside, hwhole⟩
      refine ⟨fun t ht hnext => ?_, hwhole⟩
      obtain ⟨v, hv⟩ := (List.mem_inits ..).1 ht
      cases v with
      | nil => simp [← hv] at hnext
      | cons c u =>
        obtain rfl : c = '>' := by simpa [← hv] using hnext
        exact hinside t u hv.symm

/-- A document: one element, and in front of it there may be a document type declaration. -/
structure Document where
  before : List Piece
  doctype? : Option Doctype
  between : List Piece
  root : Piece
  behind : List Piece
  element : Element
  root_element : root.element? = some element
  misc : ∀ piece ∈ before ++ (between ++ behind), piece.element? = none

namespace Document

def render (d : Document) : Text :=
  renderPieces d.before ++ ((d.doctype?.elim [] Doctype.render) ++
    (renderPieces d.between ++ (d.root.render ++ renderPieces d.behind)))

/-- Processing instructions hold no `>`, and the marks in the document type declaration are
balanced. -/
structure Readable (d : Document) : Prop where
  closed : PiecesClosed (d.before ++ (d.between ++ d.root :: d.behind))
  balanced : ∀ doctype ∈ d.doctype?, doctype.Balanced

end Document

/-! ## Values as they are written -/

/-- The attribute with its value as it is written. -/
def WrittenAttribute.source (a : WrittenAttribute) : SourceAttribute :=
  ⟨a.gap, a.name, a.before, a.after, a.quote, a.rawValue, a.gap_ne_nil, a.spaces, a.unquoted⟩

def WrittenTag.source (t : WrittenTag) : SourceTag :=
  ⟨t.name, t.attributes.map WrittenAttribute.source, t.gap, t.gap_space, by
    rw [List.map_map]
    exact t.distinct⟩

theorem WrittenTag.content_source (t : WrittenTag) : t.source.content = t.content := by
  unfold SourceTag.content content source
  rw [List.flatMap_map]
  rfl

theorem WrittenTag.tag_source (t : WrittenTag) : t.source.tag = t.raw := by
  unfold SourceTag.tag SourceTag.values raw source
  rw [List.map_map]
  rfl

mutual

def Node.piece : Node → Piece
  | .text s h => .text s h
  | .comment s h => .comment s h
  | .cdata s h => .cdata s h
  | .instruction s hne h => .instruction s hne h
  | .empty tag => .empty tag.source
  | .element tag children gap hgap => .element tag.source (piecesOf children) gap hgap

def piecesOf : List Node → List Piece
  | [] => []
  | node :: rest => node.piece :: piecesOf rest

end

mutual

theorem Node.render_piece : ∀ node : Node, node.piece.render = node.render
  | .text _ _ => rfl
  | .comment _ _ => rfl
  | .cdata _ _ => rfl
  | .instruction _ _ _ => rfl
  | .empty tag => by
    rw [Node.piece, Piece.render, Node.render, SourceTag.emptyText, tag.content_source]
    rfl
  | .element tag children gap _ => by
    rw [Node.piece, Piece.render, Node.render, SourceTag.elementText, tag.content_source,
      renderPieces_piecesOf children]
    rfl

theorem renderPieces_piecesOf : ∀ nodes : List Node, renderPieces (piecesOf nodes) = renderNodes nodes
  | [] => rfl
  | node :: rest => by
    rw [piecesOf, renderPieces, renderNodes, node.render_piece, renderPieces_piecesOf rest]

end

mutual

theorem Node.events_piece : ∀ node : Node, node.piece.events = node.events
  | .text _ _ => rfl
  | .comment _ _ => rfl
  | .cdata _ _ => rfl
  | .instruction _ _ _ => rfl
  | .empty tag => by rw [Node.piece, Piece.events, Node.events, tag.tag_source]
  | .element tag children _ _ => by
    rw [Node.piece, Piece.events, Node.events, tag.tag_source, eventsOfPieces_piecesOf children]

theorem eventsOfPieces_piecesOf :
    ∀ nodes : List Node, eventsOfPieces (piecesOf nodes) = eventsOf nodes
  | [] => rfl
  | node :: rest => by
    rw [piecesOf, eventsOfPieces, eventsOf, node.events_piece, eventsOfPieces_piecesOf rest]

end

mutual

theorem Node.closed_piece : ∀ node : Node, node.piece.Closed ↔ node.Closed
  | .text _ _ => Iff.rfl
  | .comment _ _ => Iff.rfl
  | .cdata _ _ => Iff.rfl
  | .instruction _ _ _ => Iff.rfl
  | .empty _ => Iff.rfl
  | .element _ children _ _ => by
    rw [Node.piece, Piece.Closed, Node.Closed, piecesClosed_piecesOf children]

theorem piecesClosed_piecesOf : ∀ nodes : List Node, PiecesClosed (piecesOf nodes) ↔ AllClosed nodes
  | [] => Iff.rfl
  | node :: rest => by
    rw [piecesOf, PiecesClosed, AllClosed, node.closed_piece, piecesClosed_piecesOf rest]

end

end AndroidResources.Xml
