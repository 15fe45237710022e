import AndroidResources.Java.RClass
import Mathlib.Data.List.Dedup

/-!
# Laws of symbol tables

* `SymbolTable.declarations` : the symbols of a table with their shapes (`mem_declarations`), each
  once and in increasing order (`declarations_sorted`); `SymbolTable.size` counts them;
* `SymbolTable.ids` : the symbols without their shapes;
* `SymbolTable.extend_assoc`, `SymbolTable.extend_self` : extending is associative and idempotent,
  types without symbols included;
* `SymbolTable.Reached` : the tables that adding and extending lead to; each step keeps `FullTypes`,
  so no type in them is without symbols;
* `RClass.symbols_of_tables` : the first table with a symbol decides its shape in the `R` class.
-/

namespace AndroidResources

theorem SymbolId.compare_eq_lt {a b : SymbolId} : compare a b = .lt ↔
    compare a.type b.type = .lt ∨ a.type = b.type ∧ compare a.name b.name = .lt := by
  show compareLex (compareOn SymbolId.type) (compareOn SymbolId.name) a b = .lt ↔ _
  rw [compareLex, Ordering.then_eq_lt]
  simp [compareOn]

namespace SymbolTable

variable {table other : SymbolTable} {id : SymbolId} {shape : Shape}

/-! ## The symbols of a table -/

def ungroup (types : List (Text × List (Text × Shape))) : List Declaration :=
  types.flatMap fun group => group.2.map fun field => (⟨group.1, field.1⟩, field.2)

def declarations (table : SymbolTable) : List Declaration :=
  ungroup table.types

def ids (table : SymbolTable) : List SymbolId :=
  table.declarations.map (·.1)

theorem mem_declarations : (id, shape) ∈ table.declarations ↔ table.get? id = some shape := by
  unfold declarations ungroup
  rw [List.mem_flatMap]
  constructor
  · rintro ⟨group, hgroup, hid⟩
    obtain ⟨field, hfield, heq⟩ := List.mem_map.1 hid
    cases heq
    exact get?_of_mem_types hgroup hfield
  · intro h
    obtain ⟨fields, hgroup, hfield⟩ := exists_types h
    exact ⟨_, hgroup, List.mem_map.2 ⟨_, hfield, rfl⟩⟩

theorem mem_ids : id ∈ table.ids ↔ table.contains id := by
  unfold ids contains
  simp [mem_declarations, Option.isSome_iff_exists]

/-- Each symbol stands once, behind those of smaller types and those of its type with smaller
names. -/
theorem declarations_sorted (table : SymbolTable) :
    table.declarations.Pairwise fun a b => compare a.1 b.1 = .lt := by
  unfold declarations ungroup types
  rw [List.pairwise_flatMap]
  constructor
  · intro group hgroup
    obtain ⟨entry, -, rfl⟩ := List.mem_map.1 hgroup
    refine List.pairwise_map.2 (entry.2.sorted.imp ?_)
    exact fun hlt => SymbolId.compare_eq_lt.2 (.inr ⟨rfl, hlt⟩)
  · refine List.pairwise_map.2 (table.entries.sorted.imp fun hlt => ?_)
    rintro a ha b hb
    obtain ⟨-, -, rfl⟩ := List.mem_map.1 ha
    obtain ⟨-, -, rfl⟩ := List.mem_map.1 hb
    exact SymbolId.compare_eq_lt.2 (.inl hlt)

theorem nodup_ids (table : SymbolTable) : table.ids.Nodup :=
  List.pairwise_map.2 (table.declarations_sorted.imp fun hlt heq => by simp [heq] at hlt)

theorem size_eq_length_ids (table : SymbolTable) : table.size = table.ids.length := by
  unfold size ids declarations ungroup types OrderedMap.values
  rw [List.length_map]
  induction table.entries.toList with
  | nil => rfl
  | cons group rest ih =>
    rw [List.map_cons, List.foldr_cons, ih, List.map_cons, List.flatMap_cons, List.length_append,
      List.length_map]
    rfl

/-! ## Extending -/

theorem get?_entries_extend_eq_none {type : Text} :
    (table.extend other).entries.get? type = none ↔
      table.entries.get? type = none ∧ other.entries.get? type = none := by
  rw [get?_entries_extend]
  cases other.entries.get? type <;> simp

theorem extend_assoc (a b c : SymbolTable) : (a.extend b).extend c = a.extend (b.extend c) := by
  refine ext_get? (fun type => ?_) fun id => ?_
  · simp only [get?_entries_extend_eq_none, and_assoc]
  · simp only [get?_extend, Option.or_assoc]

theorem extend_self (table : SymbolTable) : table.extend table = table := by
  refine ext_get? (fun type => ?_) fun id => ?_
  · rw [get?_entries_extend_eq_none, and_self]
  · rw [get?_extend, Option.or_self]

/-! ## Types without symbols -/

def FullTypes (table : SymbolTable) : Prop :=
  ∀ group ∈ table.types, group.2 ≠ []

theorem fullTypes_iff : table.FullTypes ↔
    ∀ type symbols, table.entries.get? type = some symbols → ∃ name shape,
      symbols.get? name = some shape := by
  constructor
  · intro h type symbols hsymbols
    have hne := h _ (mem_types.2 ⟨symbols, hsymbols, rfl⟩)
    obtain ⟨field, hfield⟩ := List.exists_mem_of_ne_nil _ hne
    exact ⟨field.1, field.2, OrderedMap.mem_toList.1 hfield⟩
  · rintro h ⟨type, fields⟩ hgroup
    obtain ⟨symbols, hsymbols, rfl⟩ := mem_types.1 hgroup
    obtain ⟨name, shape, hname⟩ := h type symbols hsymbols
    exact List.ne_nil_of_mem (OrderedMap.mem_toList.2 hname)

theorem FullTypes.add (h : table.FullTypes) (type name : Text) (shape : Shape) :
    (table.add type name shape).FullTypes := by
  rw [fullTypes_iff] at h ⊢
  intro type' symbols hsymbols
  rw [SymbolTable.add, get?_entries_update] at hsymbols
  split at hsymbols
  · cases hsymbols
    exact ⟨name, shape, OrderedMap.get?_insert_self ..⟩
  · exact h type' symbols hsymbols

theorem FullTypes.extend (h : table.FullTypes) (hother : other.FullTypes) :
    (table.extend other).FullTypes := by
  rw [fullTypes_iff] at h hother ⊢
  intro type symbols hsymbols
  rw [get?_entries_extend] at hsymbols
  cases hget : other.entries.get? type with
  | none =>
    rw [hget] at hsymbols
    exact h type symbols hsymbols
  | some brought =>
    rw [hget] at hsymbols
    cases hsymbols
    obtain ⟨name, shape, hname⟩ := hother type brought hget
    refine ⟨name, ((((table.entries.get? type).getD .empty).get? name).getD shape), ?_⟩
    rw [OrderedMap.get?_union, hname]
    cases ((table.entries.get? type).getD .empty).get? name <;> rfl

/-- The tables that adding and extending lead to from the empty one. -/
inductive Reached : SymbolTable → Prop
  | empty : Reached .empty
  | add {table : SymbolTable} (h : Reached table) (type name : Text) (shape : Shape) :
    Reached (table.add type name shape)
  | extend {table other : SymbolTable} (h : Reached table) (hother : Reached other) :
    Reached (table.extend other)

theorem Reached.fullTypes (h : Reached table) : table.FullTypes := by
  induction h with
  | empty => exact fun group hgroup => nomatch hgroup
  | add _ type name shape ih => exact ih.add type name shape
  | extend _ _ ih ihOther => exact ih.extend ihOther

theorem Reached.declare (h : Reached table) (declarations : List Declaration) :
    Reached (table.declare declarations) := by
  induction declarations generalizing table with
  | nil => exact h
  | cons d rest ih => exact ih (h.add d.1.type d.1.name d.2)

end SymbolTable

/-! ## The `R` class -/

namespace RClass

open SymbolTable

variable {own : SymbolTable} {dependencies : List SymbolTable}

theorem get?_foldl_extend (own : SymbolTable) (dependencies : List SymbolTable) (id : SymbolId) :
    (dependencies.foldl extend own).get? id =
      (own :: dependencies).findSome? fun table => table.get? id := by
  induction dependencies generalizing own with
  | nil => simp
  | cons first rest ih =>
    rw [List.foldl_cons, ih, List.findSome?_cons, List.findSome?_cons, List.findSome?_cons,
      get?_extend]
    cases own.get? id <;> rfl

theorem reached_symbols (nonTransitive : Bool) (hown : Reached own)
    (hdependencies : ∀ table ∈ dependencies, Reached table) :
    Reached (symbols nonTransitive own dependencies) := by
  unfold symbols
  split
  · exact hown
  · induction dependencies generalizing own with
    | nil => exact hown
    | cons first rest ih =>
      obtain ⟨hfirst, hrest⟩ := List.forall_mem_cons.1 hdependencies
      exact ih (hown.extend hfirst) hrest

theorem mem_ids_symbols {id : SymbolId} : id ∈ (symbols false own dependencies).ids ↔
    id ∈ (own :: dependencies).flatMap ids := by
  rw [mem_ids, contains, symbols, if_neg Bool.false_ne_true, get?_foldl_extend,
    List.findSome?_isSome_iff, List.mem_flatMap]
  simp only [mem_ids, contains]

structure ClassSymbols (own : SymbolTable) (dependencies : List SymbolTable) : Prop where
  /-- A symbol has its shape in the first table with it, the module's own before all others. -/
  first : ∀ id, (symbols false own dependencies).get? id =
    (own :: dependencies).findSome? fun table => table.get? id
  size : (symbols false own dependencies).size =
    ((own :: dependencies).flatMap ids).dedup.length
  nonTransitive : symbols true own dependencies = own
  types : ∀ nonTransitive, ∀ group ∈ (symbols nonTransitive own dependencies).types, group.2 ≠ []

theorem classSymbols (hown : Reached own) (hdependencies : ∀ table ∈ dependencies, Reached table) :
    ClassSymbols own dependencies := by
  refine
    { first := get?_foldl_extend own dependencies
      size := ?_
      nonTransitive := rfl
      types := fun nonTransitive => (reached_symbols nonTransitive hown hdependencies).fullTypes }
  rw [size_eq_length_ids]
  refine ((List.perm_ext_iff_of_nodup (nodup_ids _) (List.nodup_dedup _)).2 fun id => ?_).length_eq
  rw [List.mem_dedup, mem_ids_symbols]

/-- Adding and extending never leave a type without symbols. Extending gives each symbol the shape
in the first table with it, is associative and idempotent, and the `R` class is made that way of the
tables of a module and of its dependencies. -/
theorem symbols_of_tables :
    (∀ table, Reached table → ∀ group ∈ table.types, group.2 ≠ []) ∧
    (∀ (a b : SymbolTable) (id : SymbolId), (a.extend b).get? id = (a.get? id).or (b.get? id)) ∧
    (∀ a b c : SymbolTable, (a.extend b).extend c = a.extend (b.extend c)) ∧
    (∀ a : SymbolTable, a.extend a = a) ∧
    ∀ own dependencies, Reached own → (∀ table ∈ dependencies, Reached table) →
      ClassSymbols own dependencies :=
  ⟨fun _ h => h.fullTypes, get?_extend, extend_assoc, extend_self,
    fun _ _ hown hdependencies => classSymbols hown hdependencies⟩

def titleTable : SymbolTable :=
  .add .empty "string" "title" .int

/-- A dependency with a symbol of the same name and another shape, and with one of another type. -/
def libraryTable : SymbolTable :=
  (SymbolTable.add .empty "string" "title" .intArray).add "color" "accent" .int

/-- Both declare the title: it keeps the shape of the module, and only the color is new. -/
theorem symbols_of_tables_title :
    Reached titleTable ∧ (∀ table ∈ [libraryTable], Reached table) ∧
      (symbols false titleTable [libraryTable]).get? ⟨"string", "title"⟩ = some .int ∧
      (symbols false titleTable [libraryTable]).size = 2 ∧
      ∀ group ∈ (symbols false titleTable [libraryTable]).types, group.2 ≠ [] := by
  have hown : Reached titleTable := .add .empty ..
  have hlibrary : ∀ table ∈ [libraryTable], Reached table := by
    intro table htable
    rw [List.mem_singleton.1 htable]
    exact .add (.add .empty ..) ..
  obtain ⟨-, -, -, -, hclass⟩ := symbols_of_tables
  have hsymbols := hclass titleTable [libraryTable] hown hlibrary
  exact ⟨hown, hlibrary, (hsymbols.first _).trans (by decide), hsymbols.size.trans (by decide),
    hsymbols.types false⟩

end RClass

end AndroidResources
