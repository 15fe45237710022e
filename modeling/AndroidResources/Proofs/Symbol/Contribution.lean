import AndroidResources.Proofs.Xml.Reading
import AndroidResources.Symbol.Values

/-!
# What the children of a values document contribute

The declarations of a values document from the tree of its elements, and the walk along its events
that finds them.

* `idsIn`, `fieldOf`, `contribution` : what a child of the root declares, from its own subtree;
* `visit_inert`, `visit_attr`, `visit_styleable`, `visit_child` : what a tag does in each scope;
* `foldlM_inert`, `foldlM_attr`, `foldlM_styleable`, `foldlM_children` : what elements do in it;
* `SymbolTable.declare_congr` : declarations that agree on each symbol may come in any order;
* `readValues_render` : a document leaves the table followed by the contributions of the children.
-/

namespace AndroidResources

/-! ## Contributions -/

namespace Xml.Element

/-- The name that an element declares, if it is written with one of some tags. -/
def declaredName? (e : Element) (tags : List Text) : Option Text :=
  if e.name ∈ tags then e.value? "name" else none

end Xml.Element

open Xml (Element)

def idsIn (children : List Element) : List Declaration :=
  (children.filterMap fun child => child.declaredName? ["enum", "flag"]).map (intSymbol "id")

/-- The symbol of an attribute inside a styleable. Those of the framework are declared elsewhere. -/
def attrSymbol (name : Text) : List Declaration :=
  if List.isPrefixOf "android:".toList name then [] else [intSymbol "attr" name]

/-- What an element directly inside a styleable declares: an attribute gives the styleable a
field. -/
def fieldOf (styleable : Text) (child : Element) : List Declaration :=
  match child.declaredName? ["attr"] with
  | none => []
  | some name =>
    intSymbol "styleable" (styleable ++ "_" ++ Text.replace ':' '_' name) ::
      (attrSymbol name ++ idsIn child.children)

/-- What a child of the root declares. An element without a name declares nothing. -/
def contribution (child : Element) : List Declaration :=
  match child.value? "name" with
  | none => []
  | some name =>
    if child.name = "declare-styleable" then
      let styleable := Text.replace '.' '_' name
      (⟨"styleable", styleable⟩, .intArray) :: child.children.flatMap (fieldOf styleable)
    else if child.name = "attr" then intSymbol "attr" name :: idsIn child.children
    else if child.name = "item" then ((child.value? "type").map (intSymbol · name)).toList
    else
      ((valuesType? child.name).map fun type => intSymbol type (Text.replace '.' '_' name)).toList

/-- What a child of the root declares, by its tag. -/
theorem mem_contribution {child : Element} {d : Declaration} : d ∈ contribution child ↔
    ∃ name, child.value? "name" = some name ∧
      (child.name = "declare-styleable" ∧
          (d = (⟨"styleable", Text.replace '.' '_' name⟩, .intArray) ∨
            ∃ nested ∈ child.children, d ∈ fieldOf (Text.replace '.' '_' name) nested) ∨
        child.name = "attr" ∧ (d = intSymbol "attr" name ∨ d ∈ idsIn child.children) ∨
        child.name = "item" ∧ (∃ type, child.value? "type" = some type ∧ d = intSymbol type name) ∨
        ∃ type, valuesType? child.name = some type ∧
          d = intSymbol type (Text.replace '.' '_' name)) := by
  unfold contribution
  cases child.value? "name" with
  | none => simp
  | some name =>
    simp only [Option.some.injEq, exists_eq_left']
    split
    · next htag =>
      have hattr : child.name ≠ "attr".toList := by rw [htag]; decide
      have hitem : child.name ≠ "item".toList := by rw [htag]; decide
      have hvalue : valuesType? child.name = none := by rw [htag]; rfl
      simp only [eq_true htag, hattr, hitem, hvalue, List.mem_cons, List.mem_flatMap, true_and,
        false_and, reduceCtorEq, exists_false, or_false]
    · next hstyleable =>
      split
      · next htag =>
        have hitem : child.name ≠ "item".toList := by rw [htag]; decide
        have hvalue : valuesType? child.name = none := by rw [htag]; rfl
        simp only [hstyleable, eq_true htag, hitem, hvalue, List.mem_cons, true_and, false_and,
          reduceCtorEq, exists_false, or_false, false_or]
      · next hattr =>
        split
        · next htag =>
          have hvalue : valuesType? child.name = none := by rw [htag]; rfl
          simp only [hstyleable, hattr, eq_true htag, hvalue, Option.mem_toList,
            Option.map_eq_some_iff, true_and, false_and, reduceCtorEq, exists_false, or_false,
            false_or, eq_comm (a := d)]
        · next hitem =>
          simp only [hstyleable, hattr, hitem, Option.mem_toList, Option.map_eq_some_iff, false_and,
            false_or, eq_comm (a := d)]

/-! ## Declarations in the order of the walk -/

def nestedAttr (child : Element) : List Declaration :=
  match child.declaredName? ["attr"] with
  | none => []
  | some name => attrSymbol name ++ idsIn child.children

def attrNames (children : List Element) : List Text :=
  children.filterMap fun child => child.declaredName? ["attr"]

/-- What a child of the root declares, in the order of the walk. -/
def walkedContribution (child : Element) : List Declaration :=
  match child.value? "name" with
  | none => []
  | some name =>
    if child.name = "declare-styleable" then
      child.children.flatMap nestedAttr ++
        closeStyleable (Text.replace '.' '_' name) (attrNames child.children)
    else contribution child

theorem closeStyleable_eq (styleable : Text) (children : List Element) :
    ∀ d, d ∈ children.flatMap nestedAttr ++ closeStyleable styleable (attrNames children) ↔
      d ∈ (⟨⟨"styleable", styleable⟩, .intArray⟩ : Declaration) ::
        children.flatMap (fieldOf styleable) := by
  intro d
  unfold closeStyleable attrNames
  simp only [List.mem_append, List.mem_cons, List.mem_flatMap, List.mem_map, List.mem_filterMap,
    nestedAttr, fieldOf]
  constructor
  · rintro (⟨child, hchild, hd⟩ | rfl | ⟨name, ⟨child, hchild, hname⟩, rfl⟩)
    · refine .inr ⟨child, hchild, ?_⟩
      cases hname : child.declaredName? ["attr"] with
      | none =>
        rw [hname] at hd
        exact hd
      | some name =>
        rw [hname] at hd
        exact List.mem_cons_of_mem _ hd
    · exact .inl rfl
    · refine .inr ⟨child, hchild, ?_⟩
      rw [hname]
      exact List.mem_cons_self ..
  · rintro (rfl | ⟨child, hchild, hd⟩)
    · exact .inr (.inl rfl)
    · cases hname : child.declaredName? ["attr"] with
      | none =>
        rw [hname] at hd
        cases hd
      | some name =>
        rw [hname] at hd
        rcases List.mem_cons.1 hd with rfl | hd
        · exact .inr (.inr ⟨name, ⟨child, hchild, hname⟩, rfl⟩)
        · refine .inl ⟨child, hchild, ?_⟩
          rw [hname]
          exact hd

theorem fieldOf_int {styleable : Text} {child : Element} {d : Declaration}
    (h : d ∈ fieldOf styleable child) : d.2 = .int ∧ d.1 ≠ ⟨"styleable", styleable⟩ := by
  unfold fieldOf at h
  split at h
  · cases h
  · next name _ =>
    rcases List.mem_cons.1 h with rfl | h
    · refine ⟨rfl, fun heq => ?_⟩
      have hlength := congrArg (fun id : SymbolId => id.name.length) heq
      simp [intSymbol] at hlength
    · rcases List.mem_append.1 h with h | h
      · unfold attrSymbol at h
        split at h
        · cases h
        · rw [List.mem_singleton.1 h]
          exact ⟨rfl, fun heq => (show "attr".toList ≠ "styleable".toList by decide)
            (congrArg SymbolId.type heq)⟩
      · obtain ⟨id, -, rfl⟩ := List.mem_map.1 h
        exact ⟨rfl, fun heq => (show "id".toList ≠ "styleable".toList by decide)
          (congrArg SymbolId.type heq)⟩

namespace SymbolTable

theorem declare_append (table : SymbolTable) (a b : List Declaration) :
    table.declare (a ++ b) = (table.declare a).declare b :=
  List.foldl_append ..

/-- Declarations that agree on each symbol may come in any order. -/
theorem declare_congr (table : SymbolTable) {a b : List Declaration} (h : ∀ d, d ∈ a ↔ d ∈ b)
    (hagree : ∀ d ∈ a, ∀ d' ∈ a, d.1 = d'.1 → d.2 = d'.2) : table.declare a = table.declare b := by
  refine ext_get? (fun type => ?_) fun id => ?_
  · simp only [get?_entries_declare_eq_none, h]
  rw [get?_declare_eq, get?_declare_eq]
  congr 1
  cases hb : b.reverse.find? fun d => d.1 = id with
  | none =>
    rw [List.find?_eq_none] at hb
    rw [List.find?_eq_none.2 fun d hd => hb d (by simpa [h] using hd)]
  | some d' =>
    have hd' : d' ∈ a := (h d').2 (by simpa using List.mem_of_find?_eq_some hb)
    have hid' : d'.1 = id := by simpa using List.find?_some hb
    cases ha : a.reverse.find? fun d => d.1 = id with
    | none => exact absurd (List.find?_eq_none.1 ha d' (by simpa using hd')) (by simpa using hid')
    | some d =>
      have hd : d ∈ a := by simpa using List.mem_of_find?_eq_some ha
      have hid : d.1 = id := by simpa using List.find?_some ha
      rw [Option.map_some, Option.map_some, hagree d hd d' hd' (hid.trans hid'.symm)]

theorem declare_walkedContribution (table : SymbolTable) (child : Element) :
    table.declare (walkedContribution child) = table.declare (contribution child) := by
  unfold walkedContribution
  cases hname : child.value? "name" with
  | none =>
    unfold contribution
    rw [hname]
  | some name =>
    simp only
    split
    · next hstyleable =>
      unfold contribution
      rw [hname]
      simp only [if_pos hstyleable]
      refine table.declare_congr (closeStyleable_eq _ _) fun d hd d' hd' heq => ?_
      rw [closeStyleable_eq] at hd hd'
      have hfield : ∀ d ∈ child.children.flatMap (fieldOf (Text.replace '.' '_' name)),
          d.2 = .int ∧ d.1 ≠ ⟨"styleable", Text.replace '.' '_' name⟩ := fun d hd => by
        obtain ⟨nested, -, hmem⟩ := List.mem_flatMap.1 hd
        exact fieldOf_int hmem
      rcases List.mem_cons.1 hd with rfl | hd <;> rcases List.mem_cons.1 hd' with rfl | hd'
      · rfl
      · exact absurd heq.symm (hfield d' hd').2
      · exact absurd heq (hfield d hd).2
      · rw [(hfield d hd).1, (hfield d' hd').1]
    · rfl

theorem declare_contributions (table : SymbolTable) (children : List Element) :
    table.declare (children.flatMap walkedContribution) =
      table.declare (children.flatMap contribution) := by
  induction children generalizing table with
  | nil => rfl
  | cons child rest ih =>
    rw [List.flatMap_cons, List.flatMap_cons, declare_append, declare_append,
      declare_walkedContribution, ih]

end SymbolTable

/-! ## Elements as events -/

namespace Xml

mutual

def Element.events : Element → List Event
  | .mk name attributes children =>
    .opened ⟨name, attributes, none⟩ :: (eventsOfElements children ++ [.closed])

def eventsOfElements : List Element → List Event
  | [] => []
  | e :: rest => e.events ++ eventsOfElements rest

end

theorem eventsOfElements_append (a b : List Element) :
    eventsOfElements (a ++ b) = eventsOfElements a ++ eventsOfElements b := by
  induction a with
  | nil => rfl
  | cons e rest ih => rw [List.cons_append, eventsOfElements, eventsOfElements, ih, List.append_assoc]

theorem Element.raw?_tag (e : Element) (name : Text) : e.tag.raw? name = .ok (e.value? name) := by
  obtain ⟨own, attributes, children⟩ := e
  unfold Tag.raw? Element.value? Element.tag
  cases attributes.find? (·.name = name) <;> rfl

end Xml

namespace ValuesWalk

open Xml

theorem visitEvent_empty (walk : ValuesWalk) (tag : Tag) :
    walk.visitEvent (.empty tag) = [.opened tag, .closed].foldlM visitEvent walk := by
  simp only [List.foldlM_cons, List.foldlM_nil, visitEvent]
  cases walk.visit tag <;> rfl

mutual

theorem foldlM_piece : ∀ (piece : Piece) (walk : ValuesWalk),
    piece.events.foldlM visitEvent walk =
      (eventsOfElements piece.element?.toList).foldlM visitEvent walk
  | .text _ _, _ => rfl
  | .comment _ _, _ => rfl
  | .cdata _ _, _ => rfl
  | .instruction _ _ _, _ => rfl
  | .empty tag, walk => by
    have hone : [Event.empty tag.tag].foldlM visitEvent walk = walk.visitEvent (.empty tag.tag) := by
      rw [List.foldlM_cons]
      exact bind_pure _
    rw [Piece.events, hone, visitEvent_empty]
    rfl
  | .element tag children _ _, walk => by
    simp only [Piece.events, Piece.element?, Option.toList_some, eventsOfElements, Element.events,
      List.append_nil, List.foldlM_cons, List.foldlM_append]
    simp only [foldlM_pieces children]
    rfl

theorem foldlM_pieces : ∀ (pieces : List Piece) (walk : ValuesWalk),
    (eventsOfPieces pieces).foldlM visitEvent walk =
      (eventsOfElements (elementsOf pieces)).foldlM visitEvent walk
  | [], _ => rfl
  | piece :: rest, walk => by
    rw [eventsOfPieces, elementsOf, eventsOfElements_append, List.foldlM_append, List.foldlM_append,
      foldlM_piece piece]
    simp only [foldlM_pieces rest]

end

/-! ## One tag -/

variable {declared : List Declaration} {scope : ValuesScope} {outer : List ValuesScope}

/-- Below the children that matter nothing is declared. -/
theorem visit_inert (e : Element) :
    visit ⟨declared, .other :: scope :: outer⟩ e.tag =
      .ok (⟨declared, .other :: scope :: outer⟩, .other) := by
  unfold visit
  rw [e.raw?_tag]
  cases e.value? "name" <;> rfl

theorem visit_attr (e : Element) :
    visit ⟨declared, .attr :: scope :: outer⟩ e.tag =
      .ok (⟨declared ++ idsIn [e], .attr :: scope :: outer⟩, .other) := by
  have hname : e.tag.name = e.name := by cases e; rfl
  unfold visit idsIn Element.declaredName?
  rw [e.raw?_tag]
  cases hvalue : e.value? "name" with
  | none =>
    simp only [List.filterMap_cons, hvalue, ite_self, List.filterMap_nil, List.map_nil,
      List.append_nil]
    rfl
  | some name =>
    simp only [List.filterMap_cons, hvalue, List.filterMap_nil]
    show (if e.tag.name = "enum".toList ∨ e.tag.name = "flag".toList then _ else _) = _
    rw [hname]
    by_cases htag : e.name = "enum".toList ∨ e.name = "flag".toList
    · rw [if_pos htag, if_pos (by simpa using htag)]
      rfl
    · rw [if_neg htag, if_neg (by simpa using htag)]
      simp only [List.map_nil, List.append_nil]
      rfl

theorem visit_styleable (styleable : Text) (names : List Text) (e : Element) :
    visit ⟨declared, .styleable styleable names :: scope :: outer⟩ e.tag =
      match e.declaredName? ["attr"] with
      | none => .ok (⟨declared, .styleable styleable names :: scope :: outer⟩, .other)
      | some name =>
        .ok (⟨declared ++ attrSymbol name, .styleable styleable (names ++ [name]) :: scope :: outer⟩,
          .attr) := by
  have hname : e.tag.name = e.name := by cases e; rfl
  unfold visit Element.declaredName?
  rw [e.raw?_tag]
  cases hvalue : e.value? "name" with
  | none =>
    rw [ite_self]
    rfl
  | some name =>
    show (if e.tag.name = "attr".toList then _ else _) = _
    rw [hname]
    by_cases htag : e.name = "attr".toList
    · have hmem : e.name ∈ ["attr".toList] := by simpa using htag
      rw [if_pos htag]
      simp only [if_pos hmem]
      rfl
    · have hmem : e.name ∉ ["attr".toList] := by simpa using htag
      rw [if_neg htag]
      simp only [if_neg hmem]
      rfl

theorem visit_root (e : Element) : visit ⟨declared, []⟩ e.tag = .ok (⟨declared, []⟩, .other) := by
  unfold visit
  rw [e.raw?_tag]
  cases e.value? "name" <;> rfl

/-! ## Elements in a scope -/

/-- An element does what its tag does, then what is inside it does in the scope that it opens, and
then what the scope declares when it closes. -/
theorem foldlM_element {walk next : ValuesWalk} {e : Element} {inner : List Declaration}
    {last : ValuesScope} (hvisit : walk.visit e.tag = .ok (next, scope))
    (hchildren : (eventsOfElements e.children).foldlM visitEvent
      ⟨next.declared, scope :: next.scopes⟩ = .ok ⟨inner, last :: next.scopes⟩) :
    e.events.foldlM visitEvent walk = .ok ⟨inner ++ last.close, next.scopes⟩ := by
  obtain ⟨name, attributes, children⟩ := e
  have hopened : walk.visitEvent (.opened ⟨name, attributes, none⟩) =
      .ok ⟨next.declared, scope :: next.scopes⟩ := by
    show (walk.visit (Element.mk name attributes children).tag >>= _) = _
    rw [hvisit]
    rfl
  rw [Element.events, List.foldlM_cons, hopened]
  show List.foldlM visitEvent _ (eventsOfElements children ++ [.closed]) = _
  rw [List.foldlM_append, show List.foldlM visitEvent _ (eventsOfElements children) = _ from hchildren]
  rfl

mutual

theorem foldlM_inert_element : ∀ (e : Element) (declared : List Declaration) (scope : ValuesScope)
    (outer : List ValuesScope), e.events.foldlM visitEvent ⟨declared, .other :: scope :: outer⟩ =
      .ok ⟨declared, .other :: scope :: outer⟩
  | .mk name attributes children, declared, scope, outer => by
    have hinner := foldlM_inert children declared .other (scope :: outer)
    rw [foldlM_element (visit_inert (.mk name attributes children)) hinner]
    show Except.ok (ValuesWalk.mk (declared ++ []) _) = _
    rw [List.append_nil]

theorem foldlM_inert : ∀ (elements : List Element) (declared : List Declaration)
    (scope : ValuesScope) (outer : List ValuesScope),
    (eventsOfElements elements).foldlM visitEvent ⟨declared, .other :: scope :: outer⟩ =
      .ok ⟨declared, .other :: scope :: outer⟩
  | [], _, _, _ => rfl
  | e :: rest, declared, scope, outer => by
    rw [eventsOfElements, List.foldlM_append, foldlM_inert_element e]
    exact foldlM_inert rest declared scope outer

end

theorem foldlM_attr (children : List Element) (declared : List Declaration) :
    (eventsOfElements children).foldlM visitEvent ⟨declared, .attr :: scope :: outer⟩ =
      .ok ⟨declared ++ idsIn children, .attr :: scope :: outer⟩ := by
  induction children generalizing declared with
  | nil =>
    rw [show idsIn [] = [] from rfl, List.append_nil]
    rfl
  | cons e rest ih =>
    have hids : idsIn (e :: rest) = idsIn [e] ++ idsIn rest := by
      unfold idsIn
      rw [← List.map_append, ← List.filterMap_append]
      rfl
    rw [eventsOfElements, List.foldlM_append,
      foldlM_element (visit_attr e) (foldlM_inert e.children _ _ _)]
    show (eventsOfElements rest).foldlM visitEvent ⟨(declared ++ idsIn [e]) ++ [], _⟩ = _
    rw [List.append_nil, ih, hids, List.append_assoc]

theorem foldlM_styleable (styleable : Text) (children : List Element)
    (declared : List Declaration) (names : List Text) :
    (eventsOfElements children).foldlM visitEvent
        ⟨declared, .styleable styleable names :: scope :: outer⟩ =
      .ok ⟨declared ++ children.flatMap nestedAttr,
        .styleable styleable (names ++ attrNames children) :: scope :: outer⟩ := by
  induction children generalizing declared names with
  | nil =>
    rw [List.flatMap_nil, show attrNames [] = [] from rfl, List.append_nil, List.append_nil]
    rfl
  | cons e rest ih =>
    have hvisit :=
      (visit_styleable styleable names e :
        visit ⟨declared, .styleable styleable names :: scope :: outer⟩ e.tag = _)
    rw [eventsOfElements, List.foldlM_append, List.flatMap_cons]
    cases hname : e.declaredName? ["attr"] with
    | none =>
      have hnested : nestedAttr e = [] := by
        unfold nestedAttr
        rw [hname]
      have hnames : attrNames (e :: rest) = attrNames rest := List.filterMap_cons_none hname
      rw [hname] at hvisit
      rw [foldlM_element hvisit (foldlM_inert e.children _ _ _), hnested, hnames, List.nil_append]
      show (eventsOfElements rest).foldlM visitEvent ⟨declared ++ [], _⟩ = _
      rw [List.append_nil, ih]
    | some name =>
      have hnested : nestedAttr e = attrSymbol name ++ idsIn e.children := by
        unfold nestedAttr
        rw [hname]
      have hnames : attrNames (e :: rest) = name :: attrNames rest := List.filterMap_cons_some hname
      rw [hname] at hvisit
      rw [foldlM_element hvisit (foldlM_attr e.children _), hnested, hnames]
      show (eventsOfElements rest).foldlM visitEvent
        ⟨((declared ++ attrSymbol name) ++ idsIn e.children) ++ [], _⟩ = _
      rw [List.append_nil, ih, List.append_assoc, List.append_assoc, List.append_assoc,
        List.append_assoc]
      rfl

/-! ## The children of the root -/

/-- A child with a name declares its symbol and opens its scope. -/
theorem visit_child {e : Element} {name : Text} (h : e.value? "name" = some name) :
    visit ⟨declared, [scope]⟩ e.tag =
      .ok (if e.name = "declare-styleable" then
          (⟨declared, [scope]⟩, .styleable (Text.replace '.' '_' name) [])
        else if e.name = "attr" then (⟨declared ++ [intSymbol "attr" name], [scope]⟩, .attr)
        else (⟨declared ++ contribution e, [scope]⟩, .other)) := by
  have hname : e.tag.name = e.name := by cases e; rfl
  unfold visit
  rw [e.raw?_tag, h]
  show (visitChild e.tag name >>= _) = _
  unfold visitChild contribution
  rw [hname, h]
  by_cases hstyleable : e.name = "declare-styleable".toList
  · rw [if_pos hstyleable, if_pos hstyleable]
    show Except.ok (ValuesWalk.mk (declared ++ []) _, _) = _
    rw [List.append_nil]
  by_cases hattr : e.name = "attr".toList
  · rw [if_neg hstyleable, if_neg hstyleable, if_pos hattr, if_pos hattr]
    rfl
  by_cases hitem : e.name = "item".toList
  · simp only [if_neg hstyleable, if_neg hattr, if_pos hitem]
    rw [e.raw?_tag]
    cases e.value? "type" <;> rfl
  · simp only [if_neg hstyleable, if_neg hattr, if_neg hitem]
    cases valuesType? e.name <;> rfl

theorem foldlM_child (e : Element) (declared : List Declaration) :
    e.events.foldlM visitEvent ⟨declared, [scope]⟩ =
      .ok ⟨declared ++ walkedContribution e, [scope]⟩ := by
  unfold walkedContribution
  cases hname : e.value? "name" with
  | none =>
    have hvisit : visit ⟨declared, [scope]⟩ e.tag = .ok (⟨declared, [scope]⟩, .other) := by
      unfold visit
      rw [e.raw?_tag, hname]
      rfl
    exact foldlM_element hvisit (foldlM_inert e.children _ _ _)
  | some name =>
    have hvisit := (visit_child hname : visit ⟨declared, [scope]⟩ e.tag = _)
    by_cases hstyleable : e.name = "declare-styleable".toList
    · rw [if_pos hstyleable] at hvisit
      rw [foldlM_element hvisit (foldlM_styleable _ e.children _ _)]
      simp only [if_pos hstyleable]
      show Except.ok (ValuesWalk.mk (declared ++ _ ++ closeStyleable _ ([] ++ _)) _) = _
      rw [List.nil_append, List.append_assoc]
    rw [if_neg hstyleable] at hvisit
    simp only [if_neg hstyleable]
    by_cases hattr : e.name = "attr".toList
    · rw [if_pos hattr] at hvisit
      rw [foldlM_element hvisit (foldlM_attr e.children _)]
      unfold contribution
      rw [hname]
      simp only [if_neg hstyleable, if_pos hattr]
      show Except.ok (ValuesWalk.mk (declared ++ _ ++ _ ++ []) _) = _
      rw [List.append_nil, List.append_assoc]
      rfl
    · rw [if_neg hattr] at hvisit
      rw [foldlM_element hvisit (foldlM_inert e.children _ _ _)]
      show Except.ok (ValuesWalk.mk (declared ++ _ ++ []) _) = _
      rw [List.append_nil]

theorem foldlM_children (children : List Element) (declared : List Declaration) :
    (eventsOfElements children).foldlM visitEvent ⟨declared, [scope]⟩ =
      .ok ⟨declared ++ children.flatMap walkedContribution, [scope]⟩ := by
  induction children generalizing declared with
  | nil =>
    rw [List.flatMap_nil, List.append_nil]
    rfl
  | cons e rest ih =>
    rw [eventsOfElements, List.foldlM_append, foldlM_child, List.flatMap_cons, ← List.append_assoc]
    exact ih _

end ValuesWalk

/-! ## Documents -/

/-- The declarations of a document are those of the children of its root, in order. -/
theorem readValues_eq {d : Xml.Document} (h : d.Readable) :
    readValues d.render = .ok (d.element.children.flatMap walkedContribution) := by
  have hroot := ValuesWalk.foldlM_element (ValuesWalk.visit_root d.element :
    ValuesWalk.visit ⟨[], []⟩ _ = _)
    (ValuesWalk.foldlM_children d.element.children [])
  unfold readValues
  rw [Xml.Document.read_render h]
  show Except.bind (Except.mapError _ (d.root.events.foldlM ValuesWalk.visitEvent ⟨[], []⟩)) _ = _
  rw [ValuesWalk.foldlM_piece, d.root_element, Option.toList_some, Xml.eventsOfElements,
    Xml.eventsOfElements, List.append_nil, hroot]
  show Except.ok _ = _
  rw [List.nil_append]
  exact congrArg Except.ok (List.append_nil _)

/-- **What a values document declares.** It leaves a table followed by the contributions of the
children of the root in document order. Only what the elements say counts: documents with the same
tree of elements, whose empty elements may be written as one tag or as two, leave the same table. -/
theorem readValues_render (table : SymbolTable) {d : Xml.Document} (h : d.Readable) :
    (readValues d.render).map table.declare =
        .ok (table.declare (d.element.children.flatMap contribution)) ∧
      (∀ tag gap hgap, (Xml.Piece.element tag [] gap hgap).element? = (Xml.Piece.empty tag).element?) ∧
      ∀ other : Xml.Document, other.Readable → other.element = d.element →
        (readValues other.render).map table.declare = (readValues d.render).map table.declare := by
  refine ⟨?_, fun _ _ _ => rfl, fun other hother hsame => ?_⟩
  · rw [readValues_eq h]
    exact congrArg Except.ok (table.declare_contributions _)
  · rw [readValues_eq h, readValues_eq hother, hsame]

/-! ## Three documents -/

def nameOf (word : Text) (h : word ≠ [] ∧ ∀ c ∈ word, Xml.isSpace c = false ∧ c ∉ Xml.nameMarks) :
    Xml.Name :=
  ⟨word, h.1, h.2⟩

def namedTag (tag : Xml.Name) (value : Text) (h : '"' ∉ value) : Xml.SourceTag :=
  ⟨tag, [⟨['\n'], nameOf "name" ⟨by decide, Text.forall_of_all (by decide)⟩, [], [], .double, value,
    by decide, by decide, h⟩], [], List.all_nil, by simp⟩

def resourcesTag : Xml.SourceTag :=
  ⟨nameOf "resources" ⟨by decide, Text.forall_of_all (by decide)⟩, [], [], List.all_nil,
    List.nodup_nil⟩

def resourcesAround (doctype? : Option Xml.Doctype) (children : List Xml.Piece) : Xml.Document :=
  ⟨[], doctype?, [], .element resourcesTag children [] List.all_nil, [],
    ⟨"resources", [], Xml.elementsOf children⟩, rfl, by simp⟩

def stringPiece : Xml.Piece :=
  .empty (namedTag (nameOf "string" ⟨by decide, Text.forall_of_all (by decide)⟩) "a" (by decide))

/-- A styleable with one attribute, which has an enum, and a string, behind a document type. -/
def styleableAndString : Xml.Document :=
  resourcesAround (some ⟨" resources [<!ENTITY e 'x'>]", rfl⟩) [
    .element (namedTag (nameOf "declare-styleable" ⟨by decide, Text.forall_of_all (by decide)⟩) "a.B"
        (by decide)) [
      .element (namedTag (nameOf "attr" ⟨by decide, Text.forall_of_all (by decide)⟩) "n:c"
          (by decide)) [
        .empty (namedTag (nameOf "enum" ⟨by decide, Text.forall_of_all (by decide)⟩) "&e;"
          (by decide))]
        [] List.all_nil]
      [] List.all_nil,
    stringPiece]

/-- The document leaves what the two children contribute. -/
theorem readValues_styleableAndString :
    styleableAndString.Readable ∧
      (readValues styleableAndString.render).map (SymbolTable.declare .empty) =
        .ok (SymbolTable.declare .empty [(⟨"styleable", "a_B"⟩, .intArray),
          intSymbol "styleable" "a_B_n_c", intSymbol "attr" "n:c", intSymbol "id" "&e;",
          intSymbol "string" "a"]) := by
  have hbalanced : Xml.Doctype.Balanced ⟨" resources [<!ENTITY e 'x'>]", rfl⟩ := by
    decide
  have h : styleableAndString.Readable := by
    refine ⟨⟨⟨⟨⟨trivial, trivial⟩, trivial⟩, trivial, trivial⟩, trivial⟩, ?_⟩
    rintro doctype hmem
    obtain rfl := Option.some.inj hmem
    exact hbalanced
  have hcontributions : styleableAndString.element.children.flatMap contribution =
      [(⟨"styleable", "a_B"⟩, .intArray), intSymbol "styleable" "a_B_n_c", intSymbol "attr" "n:c",
        intSymbol "id" "&e;", intSymbol "string" "a"] := by
    decide
  refine ⟨h, (readValues_render .empty h).1.trans ?_⟩
  rw [hcontributions]

/-- A string behind a processing instruction with `>` in it. -/
def markInInstruction : Xml.Document :=
  resourcesAround none [.instruction "mark a>b" (by decide)
    (fun h => absurd (h.subset (show '?' ∈ "?>".toList by decide)) (by decide)), stringPiece]

/-- A string behind a document type with `>` in the value of an entity. -/
def markInEntity : Xml.Document :=
  resourcesAround (some ⟨" resources [<!ENTITY e '>'><!ENTITY f ''>]", rfl⟩) [stringPiece]

/-- The two documents are not readable, and neither leaves what the string contributes. -/
theorem readValues_not_readable :
    (markInInstruction.element.children.flatMap contribution = [intSymbol "string" "a"] ∧
      readValues markInInstruction.render = .error (.unexpectedEnd .declaration)) ∧
    markInEntity.element.children.flatMap contribution = [intSymbol "string" "a"] ∧
      readValues markInEntity.render = .error (.unknownMarkup 'E') := by
  refine ⟨⟨by decide, ?_⟩, by decide, ?_⟩
  · have hread : Xml.read markInInstruction.render =
        ⟨[.opened resourcesTag.tag], some (.unexpectedEnd .declaration)⟩ := by
      rw [Xml.read_eq_readFrom]
      refine (resourcesTag.readFrom_opened [] _).trans ?_
      exact congrArg (Xml.Reading.cons _) (Xml.readFrom_markup _ _)
    unfold readValues
    rw [hread]
    rfl
  · have hread : Xml.read markInEntity.render = ⟨[], some (.unknownMarkup 'E')⟩ := by
      -- the declaration of the first entity is taken for the end of the document type
      have hskipped : Xml.markup (markInEntity.render.drop 1) =
          .skipped "<!ENTITY f ''>]><resources><string\nname=\"a\"/></resources>" := by
        decide
      rw [Xml.read_eq_readFrom]
      exact (Xml.readFrom_skipped [] hskipped).trans (Xml.readFrom_markup [] _)
    unfold readValues
    rw [hread]
    rfl

end AndroidResources
