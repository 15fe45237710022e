/-!
# Finite maps in key order

* `OrderedMap κ α` : entries in strictly increasing key order, so that maps with the same look-ups
  are equal (`OrderedMap.ext_get?`);
* `get?`, `insert`, `insertIfNew`, `union`, `filterKeys`, `ofList` : each with its look-up law;
* `mem_toList`, `mem_keys` : the entries and the keys are what look-up finds;
* `OrderedSet κ` : a map to `Unit`.
-/

namespace AndroidResources

/-- A finite map whose entries stand in strictly increasing key order. -/
structure OrderedMap (κ α : Type) [Ord κ] where
  toList : List (κ × α)
  sorted : toList.Pairwise fun a b => compare a.1 b.1 = .lt

namespace OrderedMap

variable {κ α β : Type} [Ord κ]

def empty : OrderedMap κ α := ⟨[], .nil⟩

instance : EmptyCollection (OrderedMap κ α) := ⟨empty⟩

instance : Inhabited (OrderedMap κ α) := ⟨empty⟩

instance [DecidableEq κ] [DecidableEq α] : DecidableEq (OrderedMap κ α) := fun m n =>
  if h : m.toList = n.toList then
    isTrue (by cases m; cases n; cases h; rfl)
  else isFalse fun e => h (e ▸ rfl)

def get? (m : OrderedMap κ α) (k : κ) : Option α :=
  (m.toList.find? fun entry => compare k entry.1 == .eq).map (·.2)

def contains (m : OrderedMap κ α) (k : κ) : Bool :=
  (m.get? k).isSome

def size (m : OrderedMap κ α) : Nat :=
  m.toList.length

def isEmpty (m : OrderedMap κ α) : Bool :=
  m.toList.isEmpty

def keys (m : OrderedMap κ α) : List κ :=
  m.toList.map (·.1)

def values (m : OrderedMap κ α) : List α :=
  m.toList.map (·.2)

def filterKeys (m : OrderedMap κ α) (p : κ → Bool) : OrderedMap κ α :=
  ⟨m.toList.filter fun entry => p entry.1, m.sorted.filter _⟩

/-- An entry put in its place in a list of increasing keys, instead of one with the same key. -/
def insertEntry (k : κ) (a : α) : List (κ × α) → List (κ × α)
  | [] => [(k, a)]
  | (k', a') :: rest =>
    match compare k k' with
    | .lt => (k, a) :: (k', a') :: rest
    | .eq => (k, a) :: rest
    | .gt => (k', a') :: insertEntry k a rest

theorem mem_insertEntry {k : κ} {a : α} {x : κ × α} {l : List (κ × α)}
    (h : x ∈ insertEntry k a l) : x = (k, a) ∨ x ∈ l := by
  induction l with
  | nil => simpa [insertEntry] using h
  | cons y rest ih =>
    rw [insertEntry] at h
    split at h <;> grind

@[simp] theorem toList_empty : (empty : OrderedMap κ α).toList = [] := rfl

@[simp] theorem get?_empty (k : κ) : (empty : OrderedMap κ α).get? k = none := rfl

variable [Std.TransOrd κ] [Std.LawfulEqOrd κ]

theorem insertEntry_sorted (k : κ) (a : α) {l : List (κ × α)}
    (h : l.Pairwise fun a b => compare a.1 b.1 = .lt) :
    (insertEntry k a l).Pairwise fun a b => compare a.1 b.1 = .lt := by
  induction l with
  | nil => simp [insertEntry]
  | cons y rest ih =>
    obtain ⟨hy, hrest⟩ := List.pairwise_cons.1 h
    rw [insertEntry]
    split
    · next hlt =>
      refine List.pairwise_cons.2 ⟨fun x hx => ?_, h⟩
      rcases List.mem_cons.1 hx with rfl | hx
      · exact hlt
      · exact Std.TransCmp.lt_trans hlt (hy x hx)
    · next heq =>
      have hk : k = y.1 := Std.LawfulEqCmp.eq_of_compare heq
      exact List.pairwise_cons.2 ⟨fun x hx => hk ▸ hy x hx, hrest⟩
    · next hgt =>
      refine List.pairwise_cons.2 ⟨fun x hx => ?_, ih hrest⟩
      rcases mem_insertEntry hx with rfl | hx
      · exact Std.OrientedCmp.lt_of_gt hgt
      · exact hy x hx

def insert (m : OrderedMap κ α) (k : κ) (a : α) : OrderedMap κ α :=
  ⟨insertEntry k a m.toList, insertEntry_sorted k a m.sorted⟩

/-- The map with a value at a key that had none; an old value stays. -/
def insertIfNew (m : OrderedMap κ α) (k : κ) (a : α) : OrderedMap κ α :=
  if m.contains k then m else m.insert k a

/-- The entries of a list; the last one with a key decides. -/
def ofList (l : List (κ × α)) : OrderedMap κ α :=
  l.foldl (fun m entry => m.insert entry.1 entry.2) empty

/-- Both maps together; where both have a key, the first decides. -/
def union (m n : OrderedMap κ α) : OrderedMap κ α :=
  n.toList.foldl (fun acc entry => acc.insertIfNew entry.1 entry.2) m

/-! ## Look-up -/

omit [Std.TransOrd κ] in
theorem compare_beq_eq [DecidableEq κ] (k k' : κ) : (compare k k' == .eq) = decide (k = k') := by
  rw [Bool.eq_iff_iff]
  simp

omit [Std.TransOrd κ] in
theorem mem_toList {m : OrderedMap κ α} {k : κ} {a : α} :
    (k, a) ∈ m.toList ↔ m.get? k = some a := by
  obtain ⟨l, hl⟩ := m
  simp only [get?]
  induction l with
  | nil => simp
  | cons y rest ih =>
    obtain ⟨hy, hrest⟩ := List.pairwise_cons.1 hl
    obtain ⟨k', a'⟩ := y
    rw [List.mem_cons, List.find?_cons]
    by_cases hk : k = k'
    · subst hk
      have hnot : (k, a) ∉ rest := fun hmem => by
        simpa using hy _ hmem
      simp [hnot, eq_comm]
    · have hne : (compare k k' == .eq) = false := by
        simpa using hk
      simp only [hne, Prod.mk.injEq, hk, false_and, false_or]
      exact ih hrest

omit [Std.TransOrd κ] in
theorem mem_keys {m : OrderedMap κ α} {k : κ} : k ∈ m.keys ↔ ∃ a, m.get? k = some a := by
  unfold keys
  rw [List.mem_map]
  constructor
  · rintro ⟨⟨k', a⟩, hmem, rfl⟩
    exact ⟨a, mem_toList.1 hmem⟩
  · rintro ⟨a, ha⟩
    exact ⟨(k, a), mem_toList.2 ha, rfl⟩

omit [Std.TransOrd κ] [Std.LawfulEqOrd κ] in
theorem keys_sorted (m : OrderedMap κ α) : m.keys.Pairwise fun a b => compare a b = .lt :=
  List.pairwise_map.2 m.sorted

theorem mem_insertEntry_iff {k : κ} {a : α} {x : κ × α} {l : List (κ × α)}
    (h : l.Pairwise fun a b => compare a.1 b.1 = .lt) :
    x ∈ insertEntry k a l ↔ x = (k, a) ∨ x.1 ≠ k ∧ x ∈ l := by
  induction l with
  | nil => simp [insertEntry]
  | cons y rest ih =>
    obtain ⟨hy, hrest⟩ := List.pairwise_cons.1 h
    obtain ⟨k', a'⟩ := y
    have hfresh : ∀ k₀, compare k₀ k' = .lt ∨ k₀ = k' → ∀ z ∈ rest, z.1 ≠ k₀ := by
      rintro k₀ hk₀ z hz rfl
      have hz := hy z hz
      rcases hk₀ with hk₀ | hk₀
      · have := Std.TransCmp.lt_trans hz hk₀
        simp at this
      · subst hk₀
        simp at hz
    rw [insertEntry]
    split
    · next hlt =>
      have hne : k' ≠ k := by
        rintro rfl
        simp at hlt
      have := hfresh k (.inl hlt)
      grind
    · next heq =>
      obtain rfl : k = k' := Std.LawfulEqCmp.eq_of_compare heq
      have := hfresh k (.inr rfl)
      grind
    · next hgt =>
      have hne : k' ≠ k := by
        rintro rfl
        simp at hgt
      have := ih hrest
      grind

theorem get?_insert [DecidableEq κ] (m : OrderedMap κ α) (k k' : κ) (a : α) :
    (m.insert k a).get? k' = if k' = k then some a else m.get? k' := by
  refine Option.ext fun b => ?_
  rw [← mem_toList]
  show (k', b) ∈ insertEntry k a m.toList ↔ _
  rw [mem_insertEntry_iff m.sorted]
  by_cases h : k' = k
  · simp [h, eq_comm]
  · simp [h, mem_toList]

@[simp] theorem get?_insert_self (m : OrderedMap κ α) (k : κ) (a : α) :
    (m.insert k a).get? k = some a :=
  mem_toList.1 ((mem_insertEntry_iff m.sorted).2 (.inl rfl))

omit [Std.TransOrd κ] in
theorem get?_filterKeys (m : OrderedMap κ α) (p : κ → Bool) (k : κ) :
    (m.filterKeys p).get? k = if p k then m.get? k else none := by
  refine Option.ext fun b => ?_
  rw [← mem_toList]
  show (k, b) ∈ m.toList.filter _ ↔ _
  rw [List.mem_filter]
  cases p k <;> simp [mem_toList]

theorem get?_insertIfNew [DecidableEq κ] (m : OrderedMap κ α) (k k' : κ) (a : α) :
    (m.insertIfNew k a).get? k' = if k' = k then (m.get? k).or (some a) else m.get? k' := by
  rw [insertIfNew, contains]
  by_cases h : k' = k
  · subst h
    cases hget : m.get? k' <;> simp [hget]
  · rw [if_neg h]
    split
    · rfl
    · rw [get?_insert, if_neg h]

theorem get?_foldl_insertIfNew [DecidableEq κ] (l : List (κ × α)) (m : OrderedMap κ α) (k : κ) :
    (l.foldl (fun acc entry => acc.insertIfNew entry.1 entry.2) m).get? k =
      (m.get? k).or ((l.find? fun entry => entry.1 = k).map (·.2)) := by
  induction l generalizing m with
  | nil => simp
  | cons x rest ih =>
    rw [List.foldl_cons, ih, get?_insertIfNew, List.find?_cons]
    by_cases h : x.1 = k
    · subst h
      cases m.get? x.1 <;> simp
    · rw [if_neg (Ne.symm h)]
      simp [h]

omit [Std.TransOrd κ] in
theorem find?_key [DecidableEq κ] (m : OrderedMap κ α) (k : κ) :
    (m.toList.find? fun entry => entry.1 = k).map (·.2) = m.get? k := by
  simp only [get?, compare_beq_eq, eq_comm]

theorem get?_union [DecidableEq κ] (m n : OrderedMap κ α) (k : κ) :
    (m.union n).get? k = (m.get? k).or (n.get? k) := by
  rw [union, get?_foldl_insertIfNew, find?_key]

theorem get?_foldl_insert [DecidableEq κ] (l : List (κ × α)) (m : OrderedMap κ α) (k : κ) :
    (l.foldl (fun acc entry => acc.insert entry.1 entry.2) m).get? k =
      ((l.reverse.find? fun entry => entry.1 = k).map (·.2)).or (m.get? k) := by
  induction l generalizing m with
  | nil => simp
  | cons x rest ih =>
    rw [List.foldl_cons, ih, get?_insert, List.reverse_cons, List.find?_append]
    by_cases h : x.1 = k
    · subst h
      cases rest.reverse.find? fun entry => decide (entry.1 = x.1) <;> simp
    · cases rest.reverse.find? fun entry => decide (entry.1 = k) <;> simp [h, Ne.symm h]

theorem get?_ofList [DecidableEq κ] (l : List (κ × α)) (k : κ) :
    (ofList l).get? k = (l.reverse.find? fun entry => entry.1 = k).map (·.2) := by
  rw [ofList, get?_foldl_insert]
  simp

theorem get?_ofList_of_mem [DecidableEq κ] {l : List (κ × α)} {k : κ} {a : α} (h : (k, a) ∈ l)
    (unique : ∀ b, (k, b) ∈ l → b = a) : (ofList l).get? k = some a := by
  rw [get?_ofList]
  cases hfind : l.reverse.find? fun entry => entry.1 = k with
  | none => simpa using List.find?_eq_none.1 hfind (k, a) (by simpa using h)
  | some x =>
    have hkey : x.1 = k := by simpa using List.find?_some hfind
    have hmem : x ∈ l := by simpa using List.mem_of_find?_eq_some hfind
    rw [Option.map_some, unique x.2 (hkey ▸ hmem)]

theorem get?_ofList_eq_none [DecidableEq κ] {l : List (κ × α)} {k : κ} (h : ∀ a, (k, a) ∉ l) :
    (ofList l).get? k = none := by
  rw [get?_ofList, Option.map_eq_none_iff, List.find?_eq_none]
  rintro ⟨k', a⟩ hmem
  simp only [decide_eq_true_eq]
  rintro rfl
  exact h a (by simpa using hmem)

theorem mem_keys_ofList [DecidableEq κ] {l : List (κ × α)} {k : κ} :
    k ∈ (ofList l).keys ↔ ∃ a, (k, a) ∈ l := by
  rw [mem_keys, get?_ofList]
  constructor
  · rintro ⟨a, ha⟩
    obtain ⟨⟨k', a'⟩, hfind, rfl⟩ := Option.map_eq_some_iff.1 ha
    obtain rfl : k' = k := by simpa using List.find?_some hfind
    exact ⟨a', by simpa using List.mem_of_find?_eq_some hfind⟩
  · rintro ⟨a, ha⟩
    cases hfind : l.reverse.find? fun entry => entry.1 = k with
    | none => simpa using List.find?_eq_none.1 hfind (k, a) (by simpa using ha)
    | some entry => exact ⟨entry.2, rfl⟩

/-- Two maps with the same look-ups have the same entries in the same order. -/
theorem ext_get? {m n : OrderedMap κ α} (h : ∀ k, m.get? k = n.get? k) : m = n := by
  have hmem : ∀ x, x ∈ m.toList ↔ x ∈ n.toList := fun ⟨k, a⟩ => by
    rw [mem_toList, mem_toList, h k]
  have nodup : ∀ m : OrderedMap κ α, m.toList.Nodup := fun m =>
    m.sorted.imp fun hlt e => by
      rw [e] at hlt
      simp at hlt
  have hperm : m.toList.Perm n.toList :=
    (List.perm_ext_iff_of_nodup (nodup m) (nodup n)).2 hmem
  have hlist : m.toList = n.toList :=
    hperm.eq_of_pairwise (fun a b _ _ hab hba => by
      have := Std.TransCmp.lt_trans hab hba
      simp at this) m.sorted n.sorted
  cases m
  cases n
  cases hlist
  rfl

end OrderedMap

/-- A finite set listed in increasing order. -/
abbrev OrderedSet (κ : Type) [Ord κ] := OrderedMap κ Unit

end AndroidResources
