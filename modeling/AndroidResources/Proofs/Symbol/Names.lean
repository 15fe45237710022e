import AndroidResources.Proofs.Symbol.Documents

/-!
# Names with marks

Names of resources may hold dots and colons, names of fields may not. What a values document
declares is converted in some places only.

* `Marked`, `marked_replace_dot`, `marked_replace_colon` : the marks, and what a conversion leaves;
* `KeepsMark` : the places where a mark stays in a name;
* `exists_marked_contribution` : these are the marked names in what a child of a root contributes;
* `marks_kept` : so they are those in the table of values files, and in the `R` class.
-/

namespace AndroidResources

open Xml (Element)

variable {s name : Text} {child : Element} {children : List Element}

/-! ## Marks -/

/-- A name with a dot or a colon is no name of a field. -/
def Marked (name : Text) : Prop :=
  '.' ∈ name ∨ ':' ∈ name

theorem mem_replace {c old new : Char} (hnew : c ≠ new) :
    c ∈ Text.replace old new s ↔ c ≠ old ∧ c ∈ s := by
  unfold Text.replace
  rw [List.mem_map]
  constructor
  · rintro ⟨d, hd, heq⟩
    split at heq
    · exact absurd heq.symm hnew
    · next hold => exact heq ▸ ⟨hold, hd⟩
  · rintro ⟨hold, hc⟩
    exact ⟨c, hc, if_neg hold⟩

theorem marked_replace_dot : Marked (Text.replace '.' '_' s) ↔ ':' ∈ s := by
  unfold Marked
  rw [mem_replace (by decide), mem_replace (by decide)]
  simp

theorem marked_replace_colon : Marked (Text.replace ':' '_' s) ↔ '.' ∈ s := by
  unfold Marked
  rw [mem_replace (by decide), mem_replace (by decide)]
  simp

theorem marked_field {styleable : Text} :
    Marked (styleable ++ "_" ++ Text.replace ':' '_' name) ↔ Marked styleable ∨ '.' ∈ name := by
  rw [← marked_replace_colon]
  unfold Marked
  simp only [List.mem_append]
  have hline : '.' ∉ "_".toList ∧ ':' ∉ "_".toList := by decide
  tauto

/-! ## Places -/

/-- A child of a root declares a name in which a mark stays. -/
inductive KeepsMark (child : Element) : Prop
  /-- Dots are converted in the names of styleables, colons are not. -/
  | styleable {name : Text} (htag : child.name = "declare-styleable")
    (hname : child.value? "name" = some name) (h : ':' ∈ name)
  /-- Colons are converted in the fields of attributes, dots are not. -/
  | field {name attr : Text} {nested : Element} (htag : child.name = "declare-styleable")
    (hname : child.value? "name" = some name) (hnested : nested ∈ child.children)
    (hattr : nested.declaredName? ["attr"] = some attr) (h : '.' ∈ attr)
  /-- The symbols of attributes are not converted; those of the framework have none. -/
  | nestedAttr {name attr : Text} {nested : Element} (htag : child.name = "declare-styleable")
    (hname : child.value? "name" = some name) (hnested : nested ∈ child.children)
    (hattr : nested.declaredName? ["attr"] = some attr)
    (hown : List.isPrefixOf "android:".toList attr = false) (h : Marked attr)
  | nestedId {name attr id : Text} {nested inner : Element}
    (htag : child.name = "declare-styleable") (hname : child.value? "name" = some name)
    (hnested : nested ∈ child.children) (hattr : nested.declaredName? ["attr"] = some attr)
    (hinner : inner ∈ nested.children) (hid : inner.declaredName? ["enum", "flag"] = some id)
    (h : Marked id)
  | attr {name : Text} (htag : child.name = "attr") (hname : child.value? "name" = some name)
    (h : Marked name)
  /-- The ids of enums and flags are not converted. -/
  | id {name id : Text} {inner : Element} (htag : child.name = "attr")
    (hname : child.value? "name" = some name) (hinner : inner ∈ child.children)
    (hid : inner.declaredName? ["enum", "flag"] = some id) (h : Marked id)
  /-- The name of an item is not converted, whatever its type. -/
  | item {name type : Text} (htag : child.name = "item") (hname : child.value? "name" = some name)
    (htype : child.value? "type" = some type) (h : Marked name)
  /-- Of the elements that simply declare their names dots are converted, colons are not. -/
  | value {name type : Text} (htag : valuesType? child.name = some type)
    (hname : child.value? "name" = some name) (h : ':' ∈ name)

theorem exists_marked_idsIn : (∃ d ∈ idsIn children, Marked d.1.name) ↔
    ∃ inner ∈ children, ∃ id, inner.declaredName? ["enum", "flag"] = some id ∧ Marked id := by
  unfold idsIn
  simp only [List.mem_map, List.mem_filterMap]
  constructor
  · rintro ⟨_, ⟨id, ⟨inner, hinner, hid⟩, rfl⟩, hmarked⟩
    exact ⟨inner, hinner, id, hid, hmarked⟩
  · rintro ⟨inner, hinner, id, hid, hmarked⟩
    exact ⟨_, ⟨id, ⟨inner, hinner, hid⟩, rfl⟩, hmarked⟩

theorem exists_marked_fieldOf {styleable : Text} :
    (∃ d ∈ fieldOf styleable child, Marked d.1.name) ↔
      ∃ attr, child.declaredName? ["attr"] = some attr ∧ (Marked styleable ∨ '.' ∈ attr ∨
        List.isPrefixOf "android:".toList attr = false ∧ Marked attr ∨
        ∃ inner ∈ child.children, ∃ id, inner.declaredName? ["enum", "flag"] = some id ∧
          Marked id) := by
  have hsymbol : ∀ attr, (∃ d ∈ attrSymbol attr, Marked d.1.name) ↔
      List.isPrefixOf "android:".toList attr = false ∧ Marked attr := by
    intro attr
    unfold attrSymbol
    split
    · next hframework =>
      refine iff_of_false (by simp) fun h => ?_
      rw [hframework] at h
      cases h.1
    · next hown =>
      rw [and_iff_right (Bool.eq_false_iff.2 hown)]
      exact ⟨fun ⟨d, hd, h⟩ => by rwa [List.mem_singleton.1 hd] at h,
        fun h => ⟨_, List.mem_singleton_self _, h⟩⟩
  unfold fieldOf
  cases child.declaredName? ["attr"] with
  | none => simp
  | some attr =>
    have hfield : Marked (intSymbol "styleable"
        (styleable ++ "_" ++ Text.replace ':' '_' attr)).1.name ↔ Marked styleable ∨ '.' ∈ attr :=
      marked_field
    simp only [List.mem_cons, List.mem_append, or_and_right, exists_or, exists_eq_left, hfield,
      hsymbol, exists_marked_idsIn, Option.some.injEq, exists_eq_left', or_assoc]

/-- The marked names that a child contributes are those of the places where a mark stays. -/
theorem exists_marked_contribution :
    (∃ d ∈ contribution child, Marked d.1.name) ↔ KeepsMark child := by
  constructor
  · rintro ⟨d, hd, hmarked⟩
    obtain ⟨name, hname, ⟨htag, rfl | ⟨nested, hnested, hd⟩⟩ | ⟨htag, rfl | hd⟩ |
      ⟨htag, type, htype, rfl⟩ | ⟨type, htype, rfl⟩⟩ := mem_contribution.1 hd
    · exact .styleable htag hname (marked_replace_dot.1 hmarked)
    · obtain ⟨attr, hattr, hkept | hdot | ⟨hown, hmark⟩ | ⟨inner, hinner, id, hid, hmark⟩⟩ :=
        exists_marked_fieldOf.1 ⟨d, hd, hmarked⟩
      · exact .styleable htag hname (marked_replace_dot.1 hkept)
      · exact .field htag hname hnested hattr hdot
      · exact .nestedAttr htag hname hnested hattr hown hmark
      · exact .nestedId htag hname hnested hattr hinner hid hmark
    · exact .attr htag hname hmarked
    · obtain ⟨inner, hinner, id, hid, hmark⟩ := exists_marked_idsIn.1 ⟨d, hd, hmarked⟩
      exact .id htag hname hinner hid hmark
    · exact .item htag hname htype hmarked
    · exact .value htype hname (marked_replace_dot.1 hmarked)
  · have hfield : ∀ {name nested}, child.name = "declare-styleable" →
        child.value? "name" = some name → nested ∈ child.children →
        (∃ d ∈ fieldOf (Text.replace '.' '_' name) nested, Marked d.1.name) →
        ∃ d ∈ contribution child, Marked d.1.name := by
      rintro name nested htag hname hnested ⟨d, hd, hmarked⟩
      exact ⟨d, mem_contribution.2 ⟨name, hname, .inl ⟨htag, .inr ⟨nested, hnested, hd⟩⟩⟩, hmarked⟩
    intro h
    cases h with
    | styleable htag hname h =>
      exact ⟨_, mem_contribution.2 ⟨_, hname, .inl ⟨htag, .inl rfl⟩⟩, marked_replace_dot.2 h⟩
    | field htag hname hnested hattr h =>
      exact hfield htag hname hnested (exists_marked_fieldOf.2 ⟨_, hattr, .inr (.inl h)⟩)
    | nestedAttr htag hname hnested hattr hown h =>
      exact hfield htag hname hnested
        (exists_marked_fieldOf.2 ⟨_, hattr, .inr (.inr (.inl ⟨hown, h⟩))⟩)
    | nestedId htag hname hnested hattr hinner hid h =>
      exact hfield htag hname hnested
        (exists_marked_fieldOf.2 ⟨_, hattr, .inr (.inr (.inr ⟨_, hinner, _, hid, h⟩))⟩)
    | attr htag hname h =>
      exact ⟨_, mem_contribution.2 ⟨_, hname, .inr (.inl ⟨htag, .inl rfl⟩)⟩, h⟩
    | id htag hname hinner hid h =>
      obtain ⟨d, hd, hmarked⟩ := exists_marked_idsIn.2 ⟨_, hinner, _, hid, h⟩
      exact ⟨d, mem_contribution.2 ⟨_, hname, .inr (.inl ⟨htag, .inr hd⟩)⟩, hmarked⟩
    | item htag hname htype h =>
      exact ⟨_, mem_contribution.2 ⟨_, hname, .inr (.inr (.inl ⟨htag, _, htype, rfl⟩))⟩, h⟩
    | value htag hname h =>
      exact ⟨_, mem_contribution.2 ⟨_, hname, .inr (.inr (.inr ⟨_, htag, rfl⟩))⟩,
        marked_replace_dot.2 h⟩

/-! ## Names in the table and in the class -/

section

variable {declared : List Declaration} {table : SymbolTable}

theorem exists_marked_declare :
    (∃ id shape, (SymbolTable.declare .empty declared).get? id = some shape ∧ Marked id.name) ↔
      ∃ d ∈ declared, Marked d.1.name := by
  constructor
  · rintro ⟨id, shape, hget, hmarked⟩
    exact ⟨_, SymbolTable.mem_of_get?_declare hget, hmarked⟩
  · rintro ⟨d, hd, hmarked⟩
    obtain ⟨shape, -, hget⟩ := SymbolTable.get?_declare .empty hd
    exact ⟨d.1, shape, hget, hmarked⟩

theorem exists_marked_fields (table : SymbolTable) :
    (∃ group ∈ table.types, ∃ field ∈ group.2, Marked field.1) ↔
      ∃ id shape, table.get? id = some shape ∧ Marked id.name := by
  constructor
  · rintro ⟨group, hgroup, field, hfield, hmarked⟩
    exact ⟨_, _, SymbolTable.get?_of_mem_types hgroup hfield, hmarked⟩
  · rintro ⟨id, shape, hget, hmarked⟩
    obtain ⟨fields, hgroup, hfield⟩ := SymbolTable.exists_types hget
    exact ⟨_, hgroup, _, hfield, hmarked⟩

theorem RClass.fieldLine_mem_lines (package : Text) {group : Text × List (Text × Shape)}
    {field : Text × Shape} (hgroup : group ∈ table.types) (hfield : field ∈ group.2) :
    fieldLine field.1 field.2 ∈ lines package table := by
  have hget := SymbolTable.get?_of_mem_types hgroup hfield
  obtain ⟨fields, -, hlines, hline⟩ := fieldLine_mem package hget
  exact hlines.subset hline

end

structure MarksKept (children : List Element) (table : SymbolTable) : Prop where
  names : (∃ id shape, table.get? id = some shape ∧ Marked id.name) ↔
    ∃ child ∈ children, KeepsMark child
  fields : (∃ group ∈ table.types, ∃ field ∈ group.2, Marked field.1) ↔
    ∃ child ∈ children, KeepsMark child
  lines : ∀ package, ∀ group ∈ table.types, ∀ field ∈ group.2,
    RClass.fieldLine field.1 field.2 ∈ RClass.lines package table

/-- Values files leave a name with a dot or a colon exactly where they declare one in a place where
the mark is not converted. -/
theorem marks_kept (fs : FileSystem) (files : List Path) (documentOf : Path → Xml.Document)
    (table : SymbolTable) (hdocuments : HoldsDocuments fs files documentOf)
    (hvalues : ∀ file ∈ files, ResourceFolder.ofFile? file = some .values)
    (h : collectSymbols fs files = .ok table) :
    MarksKept (valuesChildren files documentOf) table := by
  have hnames : (∃ id shape, table.get? id = some shape ∧ Marked id.name) ↔
      ∃ child ∈ valuesChildren files documentOf, KeepsMark child := by
    rw [collectSymbols_values hdocuments hvalues h, exists_marked_declare]
    constructor
    · rintro ⟨d, hd, hmarked⟩
      obtain ⟨child, hchild, hd⟩ := List.mem_flatMap.1 hd
      exact ⟨child, hchild, exists_marked_contribution.1 ⟨d, hd, hmarked⟩⟩
    · rintro ⟨child, hchild, hkeeps⟩
      obtain ⟨d, hd, hmarked⟩ := exists_marked_contribution.2 hkeeps
      exact ⟨d, List.mem_flatMap.2 ⟨child, hchild, hd⟩, hmarked⟩
  exact
    { names := hnames
      fields := (exists_marked_fields table).trans hnames
      lines := fun package _ hgroup _ hfield => RClass.fieldLine_mem_lines package hgroup hfield }

theorem blank_ne_nil : [' '] ≠ [] :=
  List.cons_ne_nil _ _

theorem blank_isSpace : ([' '] ++ [] ++ []).all Xml.isSpace :=
  rfl

def spacedAttribute (name : Xml.Name) (value : Text) (h : '"' ∉ value) : Xml.SourceAttribute :=
  ⟨[' '], name, [], [], .double, value, blank_ne_nil, blank_isSpace, h⟩

/-- A style and an item of type `style`, both called `Theme.App`. -/
def twoThemes : Xml.Document :=
  resourcesAround none [
    .empty (namedTag (wordName "style" rfl rfl) "Theme.App" (by decide)),
    .empty ⟨wordName "item" rfl rfl, [
        spacedAttribute (wordName "type" rfl rfl) "style" (by decide),
        spacedAttribute (wordName "name" rfl rfl) "Theme.App" (by decide)],
      [], List.all_nil, by decide⟩]

/-- The name of the style is converted, that of the item is not. -/
theorem marks_kept_twoThemes :
    let table := SymbolTable.declare .empty
      [intSymbol "style" "Theme_App", intSymbol "style" "Theme.App"]
    HoldsDocuments (valuesFile twoThemes.render) ["res/values/a.xml"] (fun _ => twoThemes) ∧
      (∀ file ∈ (["res/values/a.xml"] : List Path),
        ResourceFolder.ofFile? file = some .values) ∧
      collectSymbols (valuesFile twoThemes.render) ["res/values/a.xml"] = .ok table ∧
      ∃ child ∈ valuesChildren ["res/values/a.xml"] (fun _ => twoThemes), KeepsMark child := by
  intro table
  have hreadable : twoThemes.Readable := ⟨⟨⟨trivial, trivial, trivial⟩, trivial⟩, nofun⟩
  have hcontributions : twoThemes.element.children.flatMap contribution =
      [intSymbol "style" "Theme_App", intSymbol "style" "Theme.App"] := by decide
  have hdocuments := holdsDocuments_valuesFile hreadable
  have hvalues : ∀ file ∈ (["res/values/a.xml"] : List Path),
      ResourceFolder.ofFile? file = some .values := by decide
  have hcollect :
      collectSymbols (valuesFile twoThemes.render) ["res/values/a.xml"] = .ok table := by
    rw [collectSymbols_valuesFile hreadable, hcontributions]
  have hkept := marks_kept _ _ _ _ hdocuments hvalues hcollect
  exact ⟨hdocuments, hvalues, hcollect,
    hkept.names.1 ⟨⟨"style", "Theme.App"⟩, .int, by decide, .inl (by decide)⟩⟩

end AndroidResources
