import AndroidResources.Proofs.Symbol.Documents

/-!
# Arrays and fields of styleables

The array of a styleable and the fields of all styleables have names of one kind, and the table
keeps one shape for a name: the last child of a root that declares it decides.

* `DeclaresStyleable` : what a child of a root declares under the name of a styleable;
* `mem_contribution_styleable` : these are the styleables in its contribution;
* `get?_declare_contribution`, `get?_contributions` : one child decides, the last of several does;
* `styleable_shapes` : a styleable is an array unless a later field has its name.
-/

namespace AndroidResources

open Xml (Element)

variable {symbol : Text} {child : Element} {shape : Shape}

/-! ## One child -/

/-- A child of a root declares a symbol of type `styleable`: as the array of a styleable, as the
field for an attribute directly inside one, or as an item. -/
inductive DeclaresStyleable (symbol : Text) (child : Element) : Shape → Prop
  | array {name : Text} (htag : child.name = "declare-styleable")
    (hname : child.value? "name" = some name) (hsymbol : Text.replace '.' '_' name = symbol) :
    DeclaresStyleable symbol child .intArray
  | field {name attr : Text} {nested : Element} (htag : child.name = "declare-styleable")
    (hname : child.value? "name" = some name) (hnested : nested ∈ child.children)
    (hattr : nested.declaredName? ["attr"] = some attr)
    (hsymbol : Text.replace '.' '_' name ++ "_" ++ Text.replace ':' '_' attr = symbol) :
    DeclaresStyleable symbol child .int
  | item (htag : child.name = "item") (htype : child.value? "type" = some "styleable".toList)
    (hname : child.value? "name" = some symbol) :
    DeclaresStyleable symbol child .int

/-- A field has a longer name than the array of its styleable, and an item is no styleable. -/
theorem DeclaresStyleable.unique {other : Shape} (h : DeclaresStyleable symbol child shape)
    (hother : DeclaresStyleable symbol child other) : shape = other := by
  have hlength : ∀ a b : Text, a ++ "_".toList ++ b ≠ a := fun a b heq => by
    simpa using congrArg List.length heq
  have htags : "declare-styleable".toList ≠ "item".toList := by decide
  cases h with
  | array htag hname hsymbol =>
    cases hother with
    | array => rfl
    | field _ hname' _ _ hsymbol' =>
      rw [hname, Option.some.injEq] at hname'
      rw [← hname', ← hsymbol] at hsymbol'
      exact absurd hsymbol' (hlength _ _)
    | item htag' => exact absurd (htag.symm.trans htag') htags
  | field htag hname _ _ hsymbol =>
    cases hother with
    | array _ hname' hsymbol' =>
      rw [hname, Option.some.injEq] at hname'
      rw [← hname', ← hsymbol] at hsymbol'
      exact absurd hsymbol'.symm (hlength _ _)
    | field => rfl
    | item => rfl
  | item htag =>
    cases hother with
    | array htag' => exact absurd (htag'.symm.trans htag) htags
    | field => rfl
    | item => rfl

theorem not_mem_attr (name : Text) (children : List Element) :
    ((⟨"styleable", symbol⟩, shape) : Declaration) ∉ intSymbol "attr" name :: idsIn children := by
  intro hmem
  rcases List.mem_cons.1 hmem with heq | hmem
  · have htype := congrArg (fun d : Declaration => d.1.type) heq
    exact absurd htype (show "styleable".toList ≠ "attr".toList by decide)
  · obtain ⟨id, -, heq⟩ := List.mem_map.1 hmem
    have htype := congrArg (fun d : Declaration => d.1.type) heq
    exact absurd htype (show "id".toList ≠ "styleable".toList by decide)

theorem mem_fieldOf_styleable {styleable : Text} :
    ((⟨"styleable", symbol⟩, shape) : Declaration) ∈ fieldOf styleable child ↔
      shape = .int ∧ ∃ attr, child.declaredName? ["attr"] = some attr ∧
        styleable ++ "_" ++ Text.replace ':' '_' attr = symbol := by
  unfold fieldOf
  cases child.declaredName? ["attr"] with
  | none => simp
  | some name =>
    have hrest : ((⟨"styleable", symbol⟩, shape) : Declaration) ∉
        attrSymbol name ++ idsIn child.children := by
      unfold attrSymbol
      split
      · exact fun hmem => not_mem_attr name child.children (List.mem_cons_of_mem _ hmem)
      · exact not_mem_attr name child.children
    simp only [List.mem_cons, hrest, or_false, Option.some.injEq, exists_eq_left', intSymbol,
      Prod.mk.injEq, SymbolId.mk.injEq, true_and]
    rw [and_comm, eq_comm (a := symbol)]

theorem valuesType?_ne_styleable {tag type : Text} (h : valuesType? tag = some type) :
    type ≠ "styleable".toList := by
  have hall : ∀ entry ∈ valuesTypes, entry.2 ≠ "styleable".toList := by decide
  obtain ⟨before, after, hsplit, -⟩ := List.lookup_eq_some_iff.1 h
  exact hall (tag, type) (by rw [hsplit]; simp)

theorem mem_contribution_styleable :
    ((⟨"styleable", symbol⟩, shape) : Declaration) ∈ contribution child ↔
      DeclaresStyleable symbol child shape := by
  rw [mem_contribution]
  constructor
  · rintro ⟨name, hname, ⟨htag, heq | ⟨nested, hnested, hmem⟩⟩ | ⟨-, hmem⟩ |
      ⟨htag, type, htype, heq⟩ | ⟨type, htype, heq⟩⟩
    · cases heq
      exact .array htag hname rfl
    · obtain ⟨rfl, attr, hattr, hsymbol⟩ := mem_fieldOf_styleable.1 hmem
      exact .field htag hname hnested hattr hsymbol
    · exact absurd (List.mem_cons.2 hmem) (not_mem_attr name child.children)
    · cases heq
      exact .item htag htype hname
    · cases heq
      exact absurd rfl (valuesType?_ne_styleable htype)
  · rintro (⟨htag, hname, rfl⟩ | ⟨htag, hname, hnested, hattr, hsymbol⟩ | ⟨htag, htype, hname⟩)
    · exact ⟨_, hname, .inl ⟨htag, .inl rfl⟩⟩
    · exact ⟨_, hname, .inl ⟨htag, .inr ⟨_, hnested,
        mem_fieldOf_styleable.2 ⟨rfl, _, hattr, hsymbol⟩⟩⟩⟩
    · exact ⟨_, hname, .inr (.inr (.inl ⟨htag, _, htype, rfl⟩))⟩

/-! ## The last child -/

variable {children : List Element}

theorem get?_declare_contribution (table : SymbolTable) (h : DeclaresStyleable symbol child shape) :
    (table.declare (contribution child)).get? ⟨"styleable", symbol⟩ = some shape := by
  obtain ⟨other, hother, hget⟩ :=
    SymbolTable.get?_declare table (mem_contribution_styleable.2 h)
  rw [hget, (mem_contribution_styleable.1 hother).unique h]

theorem get?_declare_contributions_of_not (table : SymbolTable)
    (h : ∀ child ∈ children, ∀ shape, ¬ DeclaresStyleable symbol child shape) :
    (table.declare (children.flatMap contribution)).get? ⟨"styleable", symbol⟩ =
      table.get? ⟨"styleable", symbol⟩ := by
  rw [SymbolTable.get?_declare_filter]
  have hnone : (children.flatMap contribution).filter (·.1 = ⟨"styleable", symbol⟩) = [] := by
    refine List.filter_eq_nil_iff.2 fun d hd heq => ?_
    obtain ⟨child, hchild, hd⟩ := List.mem_flatMap.1 hd
    obtain ⟨id, shape⟩ := d
    obtain rfl : id = ⟨"styleable", symbol⟩ := of_decide_eq_true heq
    exact h child hchild shape (mem_contribution_styleable.1 hd)
  rw [hnone]
  rfl

theorem exists_last_declaring (symbol : Text) (children : List Element) :
    (∀ child ∈ children, ∀ shape, ¬ DeclaresStyleable symbol child shape) ∨
      ∃ before child after shape, children = before ++ child :: after ∧
        DeclaresStyleable symbol child shape ∧
        ∀ other ∈ after, ∀ shape, ¬ DeclaresStyleable symbol other shape := by
  induction children with
  | nil => exact .inl (by simp)
  | cons first rest ih =>
    obtain hnone | ⟨before, child, after, shape, rfl, hchild, hafter⟩ := ih
    · by_cases hfirst : ∃ shape, DeclaresStyleable symbol first shape
      · obtain ⟨shape, hfirst⟩ := hfirst
        exact .inr ⟨[], first, rest, shape, rfl, hfirst, hnone⟩
      · exact .inl (List.forall_mem_cons.2 ⟨fun shape h => hfirst ⟨shape, h⟩, hnone⟩)
    · exact .inr ⟨first :: before, child, after, shape, rfl, hchild, hafter⟩

/-- The last child that declares the symbol decides. -/
theorem get?_contributions :
    (SymbolTable.declare .empty (children.flatMap contribution)).get? ⟨"styleable", symbol⟩ =
        some shape ↔
      ∃ before child after, children = before ++ child :: after ∧
        DeclaresStyleable symbol child shape ∧
        ∀ other ∈ after, ∀ shape, ¬ DeclaresStyleable symbol other shape := by
  have hlast : ∀ {before child after shape}, children = before ++ child :: after →
      DeclaresStyleable symbol child shape →
      (∀ other ∈ after, ∀ shape, ¬ DeclaresStyleable symbol other shape) →
      (SymbolTable.declare .empty (children.flatMap contribution)).get? ⟨"styleable", symbol⟩ =
        some shape := by
    rintro before child after shape rfl hchild hafter
    rw [List.flatMap_append, List.flatMap_cons, SymbolTable.declare_append,
      SymbolTable.declare_append, get?_declare_contributions_of_not _ hafter,
      get?_declare_contribution _ hchild]
  constructor
  · intro hget
    obtain hnone | ⟨before, child, after, other, hsplit, hchild, hafter⟩ :=
      exists_last_declaring symbol children
    · rw [get?_declare_contributions_of_not _ hnone, SymbolTable.get?_empty] at hget
      cases hget
    · obtain rfl : other = shape := Option.some.inj ((hlast hsplit hchild hafter).symm.trans hget)
      exact ⟨before, child, after, hsplit, hchild, hafter⟩
  · rintro ⟨before, child, after, hsplit, hchild, hafter⟩
    exact hlast hsplit hchild hafter

/-! ## Styleables in the table -/

/-- What the table has for a styleable among the children of roots, where these stand around it. -/
structure StyleableShape (table : SymbolTable) (before : List Element) (styleable : Element)
    (after : List Element) (symbol : Text) : Prop where
  present : table.get? ⟨"styleable", symbol⟩ = some .intArray ∨
    table.get? ⟨"styleable", symbol⟩ = some .int
  /-- It is an array unless a later child declares a field or an item of its name. -/
  kept : (∀ other ∈ after, ¬ DeclaresStyleable symbol other .int) →
    table.get? ⟨"styleable", symbol⟩ = some .intArray
  /-- Of all that declare the name the last one decides. -/
  last : ∀ shape, table.get? ⟨"styleable", symbol⟩ = some shape ↔
    ∃ front child rest, before ++ styleable :: after = front ++ child :: rest ∧
      DeclaresStyleable symbol child shape ∧
      ∀ other ∈ rest, ∀ shape, ¬ DeclaresStyleable symbol other shape

/-- A styleable is an array in the table, whatever else is declared in whatever order, unless a
field or an item of its name is declared behind the last styleable of this name. -/
theorem styleable_shapes (fs : FileSystem) (files : List Path) (documentOf : Path → Xml.Document)
    (table : SymbolTable) (hdocuments : HoldsDocuments fs files documentOf)
    (h : collectSymbols fs files = .ok table) (before after : List Element) (styleable : Element)
    (hsplit : valuesChildren files documentOf = before ++ styleable :: after) (name : Text)
    (htag : styleable.name = "declare-styleable") (hname : styleable.value? "name" = some name) :
    StyleableShape table before styleable after (Text.replace '.' '_' name) := by
  have hget := get?_styleable_collectSymbols hdocuments h (Text.replace '.' '_' name)
  have harray : DeclaresStyleable (Text.replace '.' '_' name) styleable .intArray :=
    .array htag hname rfl
  have hlast : ∀ shape, table.get? ⟨"styleable", Text.replace '.' '_' name⟩ = some shape ↔ _ :=
    fun shape => by rw [hget, hsplit, get?_contributions]
  -- what stands behind the styleable decides, where it declares the name at all
  have hdecides : table.get? ⟨"styleable", Text.replace '.' '_' name⟩ = some .intArray ∨
      ∃ other ∈ after, ∃ shape, DeclaresStyleable (Text.replace '.' '_' name) other shape ∧
        table.get? ⟨"styleable", Text.replace '.' '_' name⟩ = some shape := by
    obtain hnone | ⟨front, child, rest, shape, rfl, hchild, hrest⟩ :=
      exists_last_declaring (Text.replace '.' '_' name) after
    · exact .inl ((hlast _).2 ⟨before, styleable, after, rfl, harray, hnone⟩)
    · refine .inr ⟨child, by simp, shape, hchild, (hlast _).2 ?_⟩
      exact ⟨before ++ styleable :: front, child, rest, by simp, hchild, hrest⟩
  refine { present := ?_, kept := fun hfields => ?_, last := hlast }
  · obtain hget | ⟨-, -, shape, -, hget⟩ := hdecides
    · exact .inl hget
    · cases shape with
      | int => exact .inr hget
      | intArray => exact .inl hget
  · obtain hget | ⟨other, hother, shape, hdeclares, hget⟩ := hdecides
    · exact hget
    · cases shape with
      | int => exact absurd hdeclares (hfields other hother)
      | intArray => exact hget

/-! ## Styleables whose names meet -/

def styleableTag (name : Text) (h : '"' ∉ name) : Xml.SourceTag :=
  namedTag (wordName "declare-styleable" rfl rfl) name h

/-- A styleable whose attribute gives it the field `A_b`. -/
def withField : Xml.Piece :=
  .element (styleableTag "A" (by decide))
    [.empty (namedTag (wordName "attr" rfl rfl) "b" (by decide))]
    [] List.all_nil

/-- A styleable called like that field. -/
def calledLikeField : Xml.Piece :=
  .empty (styleableTag "A_b" (by decide))

def fieldFirst : Xml.Document :=
  resourcesAround none [withField, calledLikeField]

def fieldLast : Xml.Document :=
  resourcesAround none [calledLikeField, withField]

/-- A styleable behind a document type with a `<` in the value of an entity, and a comment with the
`>` that is missing there. -/
def swallowed : Xml.Document :=
  ⟨[], some ⟨" resources [<!ENTITY e '<'>]", rfl⟩, [],
    .element resourcesTag [.empty (styleableTag "A" (by decide))] [] List.all_nil,
    [.comment " > " (by decide)],
    ⟨"resources", [], Xml.elementsOf [.empty (styleableTag "A" (by decide))]⟩, rfl,
    by simp [Xml.Piece.element?]⟩

theorem readable_fieldFirst : fieldFirst.Readable :=
  ⟨⟨⟨⟨trivial, trivial⟩, trivial, trivial⟩, trivial⟩, nofun⟩

theorem readable_fieldLast : fieldLast.Readable :=
  ⟨⟨⟨trivial, ⟨trivial, trivial⟩, trivial⟩, trivial⟩, nofun⟩

/-- Where the field comes first, the styleable of its name stays an array. -/
theorem styleable_shapes_fieldFirst :
    let table := SymbolTable.declare .empty (fieldFirst.element.children.flatMap contribution)
    HoldsDocuments (valuesFile fieldFirst.render) ["res/values/a.xml"] (fun _ => fieldFirst) ∧
      collectSymbols (valuesFile fieldFirst.render) ["res/values/a.xml"] = .ok table ∧
      table.get? ⟨"styleable", "A_b"⟩ = some .intArray := by
  intro table
  have hdocuments := holdsDocuments_valuesFile readable_fieldFirst
  have hcollect := collectSymbols_valuesFile readable_fieldFirst
  have hsplit : valuesChildren ["res/values/a.xml"] (fun _ => fieldFirst) =
      [⟨"declare-styleable", [⟨"name", "A"⟩], [⟨"attr", [⟨"name", "b"⟩], []⟩]⟩] ++
        (⟨"declare-styleable", [⟨"name", "A_b"⟩], []⟩ : Element) :: [] := rfl
  have hshape := styleable_shapes _ _ _ _ hdocuments hcollect _ _ _ hsplit "A_b" rfl rfl
  exact ⟨hdocuments, hcollect, hshape.kept (by simp)⟩

/-- Where the field comes last, the styleable is no array, and where a document type swallows the
root, it is not there. -/
theorem styleables_lost :
    (∃ table, collectSymbols (valuesFile fieldLast.render) ["res/values/a.xml"] = .ok table ∧
      (⟨"declare-styleable", [⟨"name", "A_b"⟩], []⟩ : Element) ∈ fieldLast.element.children ∧
      table.get? ⟨"styleable", "A_b"⟩ = some .int) ∧
    ∃ table, collectSymbols (valuesFile swallowed.render) ["res/values/a.xml"] = .ok table ∧
      (⟨"declare-styleable", [⟨"name", "A"⟩], []⟩ : Element) ∈ swallowed.element.children ∧
      table.get? ⟨"styleable", "A"⟩ = none := by
  have hswallowed : collectSymbols (valuesFile swallowed.render) ["res/values/a.xml"] =
      .ok .empty := by decide +kernel
  exact ⟨⟨_, collectSymbols_valuesFile readable_fieldLast, List.mem_cons_self .., by decide⟩,
    ⟨_, hswallowed, List.mem_singleton.2 rfl, rfl⟩⟩

end AndroidResources
