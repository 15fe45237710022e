import AndroidResources.OrderedMap
import AndroidResources.Text.Basic

/-!
# Symbol tables

* `SymbolId` : a resource symbol by type and name, ordered by type first;
* `Shape` : what a generated field holds;
* `SymbolTable` : a map of maps, the shapes of symbols by type and then by name;
* `SymbolTable.add` : the last declaration decides (`get?_add`, `get?_declare_eq`);
* `SymbolTable.extend` : what is there keeps its shape (`get?_extend`);
* `SymbolTable.types` : the types in order with their symbols in order (`mem_types`);
* `SymbolTable.ext_get?` : tables with the same types and the same look-ups are equal.
-/

namespace AndroidResources

structure SymbolId where
  type : Text
  name : Text
  deriving DecidableEq, Repr

namespace SymbolId

instance : Ord SymbolId := ⟨compareLex (compareOn SymbolId.type) (compareOn SymbolId.name)⟩

instance : Std.TransOrd SymbolId :=
  inferInstanceAs (Std.TransCmp (compareLex (compareOn SymbolId.type) (compareOn SymbolId.name)))

end SymbolId

/-- What the generated field of a symbol holds. -/
inductive Shape
  | int
  | intArray
  deriving DecidableEq, Repr

def Shape.keyword : Shape → Text
  | int => "int"
  | intArray => "int[]"

abbrev Declaration := SymbolId × Shape

/-- The shapes of symbols, by type and then by name. -/
structure SymbolTable where
  entries : OrderedMap Text (OrderedMap Text Shape)
  deriving DecidableEq

namespace SymbolTable

def empty : SymbolTable := ⟨.empty⟩

instance : Inhabited SymbolTable := ⟨empty⟩

def get? (table : SymbolTable) (id : SymbolId) : Option Shape :=
  (table.entries.get? id.type).bind fun symbols => symbols.get? id.name

def contains (table : SymbolTable) (id : SymbolId) : Bool :=
  (table.get? id).isSome

/-- The table with other symbols of a type; a type that is not there starts without symbols. -/
def update (table : SymbolTable) (type : Text)
    (change : OrderedMap Text Shape → OrderedMap Text Shape) : SymbolTable :=
  ⟨table.entries.insert type (change ((table.entries.get? type).getD .empty))⟩

/-- The table with one more symbol; an earlier shape of it is replaced. -/
def add (table : SymbolTable) (type name : Text) (shape : Shape) : SymbolTable :=
  table.update type fun symbols => symbols.insert name shape

def declare (table : SymbolTable) (declarations : List Declaration) : SymbolTable :=
  declarations.foldl (fun acc d => acc.add d.1.type d.1.name d.2) table

/-- Both tables together, one type of the other table after the next; a symbol that is there keeps
its shape. -/
def extend (table other : SymbolTable) : SymbolTable :=
  other.entries.toList.foldl
    (fun acc group => acc.update group.1 fun symbols => symbols.union group.2) table

def types (table : SymbolTable) : List (Text × List (Text × Shape)) :=
  table.entries.toList.map fun group => (group.1, group.2.toList)

def size (table : SymbolTable) : Nat :=
  table.entries.values.foldr (fun symbols n => symbols.size + n) 0

def isEmpty (table : SymbolTable) : Bool :=
  table.size == 0

/-! ## Look-up -/

@[simp] theorem get?_empty (id : SymbolId) : empty.get? id = none := rfl

theorem get?_entries_update (table : SymbolTable) (type : Text)
    (change : OrderedMap Text Shape → OrderedMap Text Shape) (type' : Text) :
    (table.update type change).entries.get? type' =
      if type' = type then some (change ((table.entries.get? type).getD .empty))
      else table.entries.get? type' :=
  OrderedMap.get?_insert ..

theorem get?_getD (table : SymbolTable) (id : SymbolId) :
    ((table.entries.get? id.type).getD .empty).get? id.name = table.get? id := by
  unfold get?
  cases table.entries.get? id.type <;> rfl

theorem get?_update (table : SymbolTable) (type : Text)
    (change : OrderedMap Text Shape → OrderedMap Text Shape) (id : SymbolId) :
    (table.update type change).get? id =
      if id.type = type then (change ((table.entries.get? type).getD .empty)).get? id.name
      else table.get? id := by
  rw [get?, get?_entries_update]
  split <;> rfl

theorem get?_add (table : SymbolTable) (type name : Text) (shape : Shape) (id : SymbolId) :
    (table.add type name shape).get? id =
      if id = ⟨type, name⟩ then some shape else table.get? id := by
  obtain ⟨type', name'⟩ := id
  rw [add, get?_update, OrderedMap.get?_insert]
  by_cases htype : type' = type
  · subst htype
    simp [get?_getD table ⟨type', name'⟩]
  · simp [htype]

/-- Of several declarations the last one decides; a symbol that is not declared keeps its shape. -/
theorem get?_declare_eq (table : SymbolTable) (declarations : List Declaration) (id : SymbolId) :
    (table.declare declarations).get? id =
      ((declarations.reverse.find? fun d => d.1 = id).map (·.2)).or (table.get? id) := by
  induction declarations generalizing table with
  | nil => simp [declare]
  | cons d rest ih =>
    rw [declare, List.foldl_cons, ← declare, ih, get?_add, List.reverse_cons, List.find?_append]
    by_cases h : d.1 = id
    · subst h
      cases rest.reverse.find? fun other => decide (other.1 = d.1) <;> simp
    · cases rest.reverse.find? fun other => decide (other.1 = id) <;> simp [h, Ne.symm h]

theorem mem_of_get?_declare {declarations : List Declaration} {id : SymbolId} {shape : Shape}
    (h : (empty.declare declarations).get? id = some shape) : (id, shape) ∈ declarations := by
  rw [get?_declare_eq, get?_empty, Option.or_none] at h
  obtain ⟨d, hfind, rfl⟩ := Option.map_eq_some_iff.1 h
  obtain rfl : d.1 = id := by simpa using List.find?_some hfind
  exact List.mem_reverse.1 (List.mem_of_find?_eq_some hfind)

theorem get?_entries_declare_eq_none (table : SymbolTable) (declarations : List Declaration)
    (type : Text) : (table.declare declarations).entries.get? type = none ↔
      table.entries.get? type = none ∧ ∀ d ∈ declarations, d.1.type ≠ type := by
  induction declarations generalizing table with
  | nil => simp [declare]
  | cons d rest ih =>
    rw [declare, List.foldl_cons, ← declare, ih, add, get?_entries_update, List.forall_mem_cons]
    by_cases h : d.1.type = type
    · simp [h]
    · simp [h, Ne.symm h]

/-- The step of `extend` over groups of different types: each of them is met once. -/
theorem get?_entries_foldl_update (table : SymbolTable) {type : Text}
    {groups : List (Text × OrderedMap Text Shape)} (h : groups.Pairwise fun a b => a.1 ≠ b.1) :
    (groups.foldl (fun acc group => acc.update group.1 fun symbols => symbols.union group.2)
        table).entries.get? type =
      match (groups.find? fun group => group.1 = type).map (·.2) with
      | none => table.entries.get? type
      | some symbols => some (((table.entries.get? type).getD .empty).union symbols) := by
  induction groups generalizing table with
  | nil => rfl
  | cons group rest ih =>
    obtain ⟨hgroup, hrest⟩ := List.pairwise_cons.1 h
    rw [List.foldl_cons, ih _ hrest, get?_entries_update, List.find?_cons]
    by_cases htype : group.1 = type
    · subst htype
      have hnone : (rest.find? fun other => other.1 = group.1) = none :=
        List.find?_eq_none.2 fun other hother => by simpa using (hgroup other hother).symm
      simp [hnone]
    · simp [htype, Ne.symm htype]

/-- A type has its symbols followed by those that are new in the other table. -/
theorem get?_entries_extend (table other : SymbolTable) (type : Text) :
    (table.extend other).entries.get? type =
      match other.entries.get? type with
      | none => table.entries.get? type
      | some symbols => some (((table.entries.get? type).getD .empty).union symbols) := by
  have hdistinct : other.entries.toList.Pairwise fun a b => a.1 ≠ b.1 :=
    other.entries.sorted.imp fun hlt heq => by simp [heq] at hlt
  rw [extend, get?_entries_foldl_update table hdistinct, OrderedMap.find?_key]

/-- A symbol keeps its shape; otherwise it has the one in the other table. -/
theorem get?_extend (table other : SymbolTable) (id : SymbolId) :
    (table.extend other).get? id = (table.get? id).or (other.get? id) := by
  have hother : other.get? id = (other.entries.get? id.type).bind fun symbols =>
      symbols.get? id.name := rfl
  rw [get?, get?_entries_extend, hother]
  cases other.entries.get? id.type with
  | none => simp [get?]
  | some symbols => simp [OrderedMap.get?_union, get?_getD]

theorem mem_types {table : SymbolTable} {type : Text} {fields : List (Text × Shape)} :
    (type, fields) ∈ table.types ↔
      ∃ symbols, table.entries.get? type = some symbols ∧ symbols.toList = fields := by
  unfold types
  constructor
  · intro h
    obtain ⟨group, hgroup, heq⟩ := List.mem_map.1 h
    cases heq
    exact ⟨group.2, OrderedMap.mem_toList.1 hgroup, rfl⟩
  · rintro ⟨symbols, hsymbols, rfl⟩
    exact List.mem_map.2 ⟨_, OrderedMap.mem_toList.2 hsymbols, rfl⟩

theorem exists_types {table : SymbolTable} {id : SymbolId} {shape : Shape}
    (h : table.get? id = some shape) :
    ∃ fields, (id.type, fields) ∈ table.types ∧ (id.name, shape) ∈ fields := by
  obtain ⟨symbols, hsymbols, hshape⟩ := Option.bind_eq_some_iff.1 h
  exact ⟨_, mem_types.2 ⟨symbols, hsymbols, rfl⟩, OrderedMap.mem_toList.2 hshape⟩

theorem get?_of_mem_types {table : SymbolTable} {group : Text × List (Text × Shape)}
    {field : Text × Shape} (hgroup : group ∈ table.types) (hfield : field ∈ group.2) :
    table.get? ⟨group.1, field.1⟩ = some field.2 := by
  obtain ⟨symbols, hsymbols, heq⟩ := mem_types.1 hgroup
  rw [← heq] at hfield
  exact Option.bind_eq_some_iff.2 ⟨symbols, hsymbols, OrderedMap.mem_toList.1 hfield⟩

/-- Tables with the same types and the same look-ups are equal. -/
theorem ext_get? {table other : SymbolTable}
    (htypes : ∀ type, table.entries.get? type = none ↔ other.entries.get? type = none)
    (h : ∀ id, table.get? id = other.get? id) : table = other := by
  have hentries : table.entries = other.entries := by
    refine OrderedMap.ext_get? fun type => ?_
    cases htable : table.entries.get? type with
    | none => exact ((htypes type).1 htable).symm
    | some symbols =>
      cases hother : other.entries.get? type with
      | none =>
        rw [(htypes type).2 hother] at htable
        cases htable
      | some others =>
        have hsymbols : symbols = others := OrderedMap.ext_get? fun name => by
          have hname := h ⟨type, name⟩
          simp only [get?, htable, hother] at hname
          exact hname
        rw [hsymbols]
  cases table
  cases other
  cases hentries
  rfl

theorem ext_types {table other : SymbolTable} (h : table.types = other.types) : table = other := by
  have hinj : ∀ group group' : Text × OrderedMap Text Shape,
      (group.1, group.2.toList) = (group'.1, group'.2.toList) → group = group' := by
    rintro ⟨type, ⟨symbols, sorted⟩⟩ ⟨type', ⟨symbols', sorted'⟩⟩ heq
    cases heq
    rfl
  have hlist : table.entries.toList = other.entries.toList :=
    (List.map_inj_right fun {group group'} => hinj group group').1 h
  obtain ⟨⟨groups, sorted⟩⟩ := table
  obtain ⟨⟨groups', sorted'⟩⟩ := other
  cases hlist
  rfl

end SymbolTable

end AndroidResources
