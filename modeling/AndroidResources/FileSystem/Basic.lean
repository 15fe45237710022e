import AndroidResources.OrderedMap
import AndroidResources.Path

/-!
# File systems

A file system is a finite tree of directories, files and symbolic links, kept as a map from
locations to entries. Every entry but the root lies in a directory, and every name is one that a
path can spell; both facts are part of the type.

* `Location`, `Entry`, `FileSystem` : names from the root down, what is there, the whole tree;
* `FileSystem.get?` : what is at a location, the view through which operations are described;
* `FileSystem.place`, `FileSystem.removeAt`, `FileSystem.clear`, `FileSystem.move` : the changes,
  each with the law of its view.
-/

namespace AndroidResources

/-- The names that lead from the root to a place. -/
abbrev Location := List Text

instance (priority := high) bytesDecidableEq : DecidableEq ByteArray := ByteArray.instDecidableEq

inductive Entry
  | file (content : ByteArray)
  | directory
  | link (target : Path)
  deriving DecidableEq

def Entry.isFile : Entry → Bool
  | file _ => true
  | directory => false
  | link _ => false

/-- A name that a path can spell. -/
def IsName (name : Text) : Prop :=
  name ≠ [] ∧ name ≠ ".".toList ∧ name ≠ "..".toList ∧ '/' ∉ name

instance (name : Text) : Decidable (IsName name) :=
  inferInstanceAs (Decidable (_ ∧ _))

/-- What the entries of a file system have at a location. The root is always a directory. -/
def entryAt? (entries : OrderedMap Location Entry) (l : Location) : Option Entry :=
  if l = [] then some .directory else entries.get? l

/-- Every entry has a proper name and lies in a directory. -/
def WellPlaced (entries : OrderedMap Location Entry) : Prop :=
  ∀ l e, entries.get? l = some e →
    l ≠ [] ∧ (∀ name ∈ l, IsName name) ∧ entryAt? entries l.dropLast = some .directory

/-- A tree of directories, files and links, and the directory from which relative paths are
read. -/
structure FileSystem where
  entries : OrderedMap Location Entry
  workingDirectory : Location
  wellPlaced : WellPlaced entries

namespace FileSystem

def empty : FileSystem :=
  ⟨.empty, [], fun _ _ h => by simp at h⟩

instance : Inhabited FileSystem := ⟨empty⟩

def get? (fs : FileSystem) (l : Location) : Option Entry :=
  entryAt? fs.entries l

@[simp] theorem get?_root (fs : FileSystem) : fs.get? [] = some .directory := rfl

theorem get?_of_ne {fs : FileSystem} {l : Location} (h : l ≠ []) :
    fs.get? l = fs.entries.get? l := if_neg h

theorem get?_dropLast {fs : FileSystem} {l : Location} {e : Entry} (h : fs.get? l = some e) :
    fs.get? l.dropLast = some .directory := by
  by_cases hl : l = []
  · subst hl
    rfl
  · exact (fs.wellPlaced l e (get?_of_ne hl ▸ h)).2.2

/-- Everything from the root down to an entry is a directory. -/
theorem get?_of_append {fs : FileSystem} {l : Location} (names : List Text) (hne : names ≠ [])
    {e : Entry} (h : fs.get? (l ++ names) = some e) : fs.get? l = some .directory := by
  obtain ⟨n, hn⟩ : ∃ n, names.length = n + 1 :=
    Nat.exists_eq_succ_of_ne_zero fun h0 => hne (List.length_eq_zero_iff.1 h0)
  induction n generalizing names e with
  | zero =>
    obtain ⟨name, rfl⟩ := List.length_eq_one_iff.1 hn
    simpa using get?_dropLast h
  | succ n ih =>
    have hlen : names.dropLast.length = n + 1 := by
      rw [List.length_dropLast, hn]
      rfl
    have hdir := get?_dropLast h
    rw [List.dropLast_append_of_ne_nil hne] at hdir
    exact ih names.dropLast (fun h0 => by simp [h0] at hlen) hdir hlen

theorem get?_above {fs : FileSystem} {l k : Location} (h : fs.get? k.dropLast = some .directory)
    (hlk : l <+: k) (hne : l ≠ k) : fs.get? l = some .directory := by
  obtain ⟨rest, rfl⟩ := hlk
  have hrest : rest ≠ [] := fun hnil => hne (by rw [hnil, List.append_nil])
  rw [List.dropLast_append_of_ne_nil hrest] at h
  by_cases hnil : rest.dropLast = []
  · rwa [hnil, List.append_nil] at h
  · exact get?_of_append _ hnil h

theorem get?_append_eq_none {fs : FileSystem} {l : Location} (h : fs.get? l ≠ some .directory)
    {rest : List Text} (hrest : rest ≠ []) : fs.get? (l ++ rest) = none := by
  cases he : fs.get? (l ++ rest) with
  | none => rfl
  | some e => exact absurd (get?_of_append rest hrest he) h

theorem get?_append_of_none {fs : FileSystem} {l : Location} (h : fs.get? l = none)
    (rest : List Text) : fs.get? (l ++ rest) = none := by
  by_cases hrest : rest = []
  · rw [hrest, List.append_nil, h]
  · exact get?_append_eq_none (by simp [h]) hrest

def hasChildren (fs : FileSystem) (l : Location) : Bool :=
  fs.entries.keys.any fun k => k.dropLast = l

/-! ## Putting an entry in place -/

/-- An entry may be put at a location: its directory is there, its name is proper, and no
directory has to give way. -/
def CanPlace (fs : FileSystem) (l : Location) : Prop :=
  l ≠ [] ∧ (∀ name ∈ l, IsName name) ∧ fs.get? l.dropLast = some .directory ∧
    fs.get? l ≠ some .directory

instance (fs : FileSystem) (l : Location) : Decidable (fs.CanPlace l) :=
  inferInstanceAs (Decidable (_ ∧ _))

theorem CanPlace.wellPlaced {fs : FileSystem} {l : Location} (h : fs.CanPlace l) (e : Entry) :
    WellPlaced (fs.entries.insert l e) := by
  obtain ⟨hne, hnames, hdir, hfree⟩ := h
  have hparent : ∀ k : Location, k ≠ [] → k.dropLast ≠ k := fun k hk he => by
    have := congrArg List.length he
    rw [List.length_dropLast] at this
    have := List.length_pos_iff.2 hk
    omega
  intro k e' hk
  rw [OrderedMap.get?_insert] at hk
  have keep : ∀ d : Location, fs.get? d = some .directory →
      entryAt? (fs.entries.insert l e) d = some .directory := fun d hd => by
    by_cases hroot : d = []
    · exact if_pos hroot
    · rw [entryAt?, if_neg hroot, OrderedMap.get?_insert, if_neg, ← get?_of_ne hroot, hd]
      rintro rfl
      exact hfree hd
  split at hk
  · next heq =>
    subst heq
    exact ⟨hne, hnames, keep _ hdir⟩
  · obtain ⟨hk1, hk2, hk3⟩ := fs.wellPlaced k e' hk
    exact ⟨hk1, hk2, keep _ hk3⟩

/-- The file system with an entry at a location; unchanged where none may be put. -/
def place (fs : FileSystem) (l : Location) (e : Entry) : FileSystem :=
  if h : fs.CanPlace l then
    { fs with entries := fs.entries.insert l e, wellPlaced := h.wellPlaced e }
  else fs

theorem get?_place {fs : FileSystem} {l : Location} (h : fs.CanPlace l) (e : Entry)
    (k : Location) : (fs.place l e).get? k = if k = l then some e else fs.get? k := by
  rw [place, dif_pos h]
  by_cases hk : k = []
  · have : k ≠ l := fun he => h.1 (he ▸ hk)
    simp [hk ▸ this, hk]
  · rw [get?_of_ne hk, get?_of_ne hk, OrderedMap.get?_insert]

/-! ## Removing entries -/

theorem wellPlaced_filterKeys {fs : FileSystem} {p : Location → Bool}
    (h : ∀ l, p l = true → l.dropLast ≠ [] → p l.dropLast = true) :
    WellPlaced (fs.entries.filterKeys p) := by
  intro l e hl
  rw [OrderedMap.get?_filterKeys] at hl
  split at hl
  · next hp =>
    obtain ⟨h1, h2, h3⟩ := fs.wellPlaced l e hl
    refine ⟨h1, h2, ?_⟩
    by_cases hroot : l.dropLast = []
    · exact if_pos hroot
    · rw [entryAt?, if_neg hroot] at h3 ⊢
      rw [OrderedMap.get?_filterKeys, if_pos (h l hp hroot), h3]
  · cases hl

/-- The file system with only the entries whose locations pass a test that holds for the directory
of every location for which it holds. -/
def keepOnly (fs : FileSystem) (p : Location → Bool)
    (h : ∀ l, p l = true → l.dropLast ≠ [] → p l.dropLast = true) : FileSystem :=
  { fs with entries := fs.entries.filterKeys p, wellPlaced := wellPlaced_filterKeys h }

theorem get?_keepOnly {fs : FileSystem} {p : Location → Bool}
    (h : ∀ l, p l = true → l.dropLast ≠ [] → p l.dropLast = true) (k : Location) :
    (fs.keepOnly p h).get? k = if k = [] ∨ p k = true then fs.get? k else none := by
  by_cases hk : k = []
  · simp [hk]
  · rw [get?_of_ne hk, get?_of_ne hk, keepOnly, OrderedMap.get?_filterKeys]
    simp [hk]

theorem isPrefixOf_of_dropLast {l k : Location} (h : List.isPrefixOf l k.dropLast = true) :
    List.isPrefixOf l k = true :=
  List.isPrefixOf_iff_prefix.2 ((List.isPrefixOf_iff_prefix.1 h).trans (List.dropLast_prefix k))

def removeAt (fs : FileSystem) (l : Location) : FileSystem :=
  fs.keepOnly (fun k => !List.isPrefixOf l k) fun k hk _ => by
    cases h : List.isPrefixOf l k.dropLast with
    | false => rfl
    | true => simp [isPrefixOf_of_dropLast h] at hk

theorem get?_removeAt (fs : FileSystem) {l : Location} (hl : l ≠ []) (k : Location) :
    (fs.removeAt l).get? k = if List.isPrefixOf l k then none else fs.get? k := by
  rw [removeAt, get?_keepOnly]
  by_cases hk : k = []
  · subst hk
    cases l with
    | nil => exact absurd rfl hl
    | cons name rest => rfl
  · cases List.isPrefixOf l k <;> simp [hk]

/-- The file system without what is strictly below a location. -/
def clear (fs : FileSystem) (l : Location) : FileSystem :=
  fs.keepOnly (fun k => !List.isPrefixOf l k.dropLast || k == l) fun k hk hroot => by
    cases h : List.isPrefixOf l k.dropLast.dropLast with
    | false => rfl
    | true =>
      have hbelow := isPrefixOf_of_dropLast h
      have hlen := (List.isPrefixOf_iff_prefix.1 h).length_le
      simp only [hbelow, Bool.not_true, Bool.false_or, beq_iff_eq] at hk
      subst hk
      simp only [List.length_dropLast] at hlen
      have := List.length_pos_iff.2 hroot
      rw [List.length_dropLast] at this
      omega

/-! ## Moving a tree -/

/-- The location that a location below `source` has once `source` stands at `destination`. -/
def rebase (source destination l : Location) : Location :=
  destination ++ l.drop source.length

/-- A tree may be moved: neither end is the root, the destination has a proper name in a directory
that is not moved itself, and no directory with entries has to give way. -/
def CanMove (fs : FileSystem) (source destination : Location) : Prop :=
  source ≠ [] ∧ destination ≠ [] ∧ (∀ name ∈ destination, IsName name) ∧
    fs.get? destination.dropLast = some .directory ∧
    List.isPrefixOf source destination = false ∧ List.isPrefixOf destination source = false

instance (fs : FileSystem) (source destination : Location) :
    Decidable (fs.CanMove source destination) :=
  inferInstanceAs (Decidable (_ ∧ _))

def movedEntries (fs : FileSystem) (source destination : Location) : List (Location × Entry) :=
  (fs.entries.toList.filter fun entry => List.isPrefixOf source entry.1).map fun entry =>
    (rebase source destination entry.1, entry.2)

def entriesAfterMove (fs : FileSystem) (source destination : Location) :
    OrderedMap Location Entry :=
  (OrderedMap.ofList (fs.movedEntries source destination)).union
    (fs.entries.filterKeys fun k =>
      !List.isPrefixOf source k && !List.isPrefixOf destination k)

theorem rebase_append (source destination names : Location) :
    rebase source destination (source ++ names) = destination ++ names := by
  simp [rebase]

theorem mem_movedEntries {fs : FileSystem} {source destination k : Location} {e : Entry} :
    (k, e) ∈ fs.movedEntries source destination ↔
      ∃ names, k = destination ++ names ∧ fs.entries.get? (source ++ names) = some e := by
  simp only [movedEntries, List.mem_map, List.mem_filter, Prod.exists, Prod.mk.injEq]
  constructor
  · rintro ⟨l, e', ⟨hmem, hpre⟩, rfl, rfl⟩
    obtain ⟨names, rfl⟩ := List.isPrefixOf_iff_prefix.1 hpre
    exact ⟨names, rebase_append .., OrderedMap.mem_toList.1 hmem⟩
  · rintro ⟨names, rfl, hget⟩
    exact ⟨source ++ names, e, ⟨OrderedMap.mem_toList.2 hget,
      List.isPrefixOf_iff_prefix.2 (List.prefix_append ..)⟩, rebase_append .., rfl⟩

/-- Below the destination is what was below the source, elsewhere what was there. -/
theorem get?_entriesAfterMove (fs : FileSystem) (source destination k : Location) :
    (fs.entriesAfterMove source destination).get? k =
      if List.isPrefixOf destination k then fs.entries.get? (rebase destination source k)
      else if List.isPrefixOf source k then none
      else fs.entries.get? k := by
  rw [entriesAfterMove, OrderedMap.get?_union, OrderedMap.get?_filterKeys]
  cases hd : List.isPrefixOf destination k with
  | true =>
    obtain ⟨names, rfl⟩ := List.isPrefixOf_iff_prefix.1 hd
    simp only [Bool.not_true, Bool.and_false, Bool.false_eq_true, if_false, if_true,
      Option.or_none, rebase_append]
    cases hget : fs.entries.get? (source ++ names) with
    | some e =>
      refine OrderedMap.get?_ofList_of_mem (mem_movedEntries.2 ⟨names, rfl, hget⟩) fun e' he' => ?_
      obtain ⟨names', heq, hget'⟩ := mem_movedEntries.1 he'
      obtain rfl := List.append_cancel_left heq
      rw [hget] at hget'
      exact (Option.some.inj hget').symm
    | none =>
      refine OrderedMap.get?_ofList_eq_none fun e he => ?_
      obtain ⟨names', heq, hget'⟩ := mem_movedEntries.1 he
      obtain rfl := List.append_cancel_left heq
      rw [hget] at hget'
      cases hget'
  | false =>
    rw [OrderedMap.get?_ofList_eq_none]
    · cases List.isPrefixOf source k <;> simp
    · intro e he
      obtain ⟨names, rfl, -⟩ := mem_movedEntries.1 he
      rw [List.isPrefixOf_iff_prefix.2 (List.prefix_append ..)] at hd
      cases hd

theorem isPrefixOf_false_of_dropLast {l k : Location} (h : List.isPrefixOf l k = false) :
    List.isPrefixOf l k.dropLast = false := by
  cases hl : List.isPrefixOf l k.dropLast with
  | false => rfl
  | true => rw [isPrefixOf_of_dropLast hl] at h; cases h

theorem CanMove.entryAt?_below {fs : FileSystem} {source destination : Location}
    (h : fs.CanMove source destination) (names : Location) :
    entryAt? (fs.entriesAfterMove source destination) (destination ++ names) =
      fs.get? (source ++ names) := by
  obtain ⟨hs, hd, -⟩ := h
  have hroot : destination ++ names ≠ [] := fun hnil => hd (List.append_eq_nil_iff.1 hnil).1
  have hroot' : source ++ names ≠ [] := fun hnil => hs (List.append_eq_nil_iff.1 hnil).1
  rw [entryAt?, if_neg hroot, get?_entriesAfterMove,
    if_pos (List.isPrefixOf_iff_prefix.2 (List.prefix_append ..)), rebase_append,
    get?_of_ne hroot']

theorem entryAt?_entriesAfterMove_of_not {fs : FileSystem} {source destination k : Location}
    (hd : List.isPrefixOf destination k = false) (hs : List.isPrefixOf source k = false) :
    entryAt? (fs.entriesAfterMove source destination) k = fs.get? k := by
  by_cases hroot : k = []
  · rw [hroot]
    rfl
  · rw [entryAt?, if_neg hroot, get?_entriesAfterMove, hd, hs, ← get?_of_ne hroot]
    rfl

theorem CanMove.wellPlaced {fs : FileSystem} {source destination : Location}
    (h : fs.CanMove source destination) :
    WellPlaced (fs.entriesAfterMove source destination) := by
  have hmoved := h.entryAt?_below
  obtain ⟨-, hd, hnames, hdir, hsd, -⟩ := h
  have hdd : List.isPrefixOf destination destination.dropLast = false := by
    cases hp : List.isPrefixOf destination destination.dropLast with
    | false => rfl
    | true =>
      have := (List.isPrefixOf_iff_prefix.1 hp).length_le
      have := List.length_pos_iff.2 hd
      simp only [List.length_dropLast] at *
      omega
  intro l e hl
  rw [get?_entriesAfterMove] at hl
  cases hdl : List.isPrefixOf destination l with
  | true =>
    rw [hdl, if_pos rfl] at hl
    obtain ⟨names, rfl⟩ := List.isPrefixOf_iff_prefix.1 hdl
    rw [rebase_append] at hl
    obtain ⟨-, hproper, hparent⟩ := fs.wellPlaced _ e hl
    refine ⟨fun hnil => hd (List.append_eq_nil_iff.1 hnil).1, fun name hname => ?_, ?_⟩
    · rcases List.mem_append.1 hname with hname | hname
      · exact hnames name hname
      · exact hproper name (List.mem_append.2 (.inr hname))
    · by_cases hne : names = []
      · rw [hne, List.append_nil,
          entryAt?_entriesAfterMove_of_not hdd (isPrefixOf_false_of_dropLast hsd)]
        exact hdir
      · rw [List.dropLast_append_of_ne_nil hne] at hparent ⊢
        exact (hmoved names.dropLast).trans hparent
  | false =>
    cases hsl : List.isPrefixOf source l with
    | true => simp [hdl, hsl] at hl
    | false =>
      simp only [hdl, hsl, Bool.false_eq_true, if_false] at hl
      obtain ⟨hne, hproper, hparent⟩ := fs.wellPlaced l e hl
      refine ⟨hne, hproper, ?_⟩
      rw [entryAt?_entriesAfterMove_of_not (isPrefixOf_false_of_dropLast hdl)
        (isPrefixOf_false_of_dropLast hsl)]
      exact hparent

/-- The file system with the tree at `source` moved to `destination`, in place of what was there;
unchanged where it may not be moved. -/
def move (fs : FileSystem) (source destination : Location) : FileSystem :=
  if h : fs.CanMove source destination then
    { fs with entries := fs.entriesAfterMove source destination, wellPlaced := h.wellPlaced }
  else fs

theorem get?_move {fs : FileSystem} {source destination : Location}
    (h : fs.CanMove source destination) (k : Location) :
    (fs.move source destination).get? k =
      if List.isPrefixOf destination k then fs.get? (rebase destination source k)
      else if List.isPrefixOf source k then none
      else fs.get? k := by
  rw [move, dif_pos h]
  obtain ⟨hs, hd, -, -, -, -⟩ := h
  by_cases hk : k = []
  · subst hk
    cases source with
    | nil => exact absurd rfl hs
    | cons _ _ =>
      cases destination with
      | nil => exact absurd rfl hd
      | cons _ _ => rfl
  · rw [get?_of_ne hk, get?_of_ne hk]
    show (fs.entriesAfterMove source destination).get? k = _
    rw [get?_entriesAfterMove]
    have hne : rebase destination source k ≠ [] := fun h0 => hs (List.append_eq_nil_iff.1 h0).1
    rw [get?_of_ne hne]

end FileSystem

end AndroidResources
