import AndroidResources.Proofs.Symbol.Shapes

/-!
# Symbols of several resource files

All files of a module declare into one table. A later file may give a symbol another shape, but none
takes a symbol away.

* `SymbolTable.contains_declare` : what is declared is in the table;
* `FileDeclares` : a file declares a symbol;
* `contains_collectSymbols` : the table has what the files declare;
* `exists_collectSymbols` : files are collected where each of them can be read;
* `collectSymbols_plain` : arrays are for styleables, whatever the files are;
* `collected_by_file` : the order and the repetition of files do not matter for what is declared.
-/

namespace AndroidResources

variable {fs : FileSystem} {file : Path} {files : List Path} {table : SymbolTable} {id : SymbolId}

theorem SymbolTable.contains_declare (table : SymbolTable) (declared : List Declaration) :
    (table.declare declared).contains id ↔ table.contains id ∨ ∃ d ∈ declared, d.1 = id := by
  unfold contains
  rw [get?_declare_eq, Option.isSome_or, Option.isSome_map, Bool.or_eq_true, List.find?_isSome,
    or_comm]
  simp

/-! ## Files one by one -/

/-- The file can be read, and one of its declarations is of the symbol. -/
def FileDeclares (fs : FileSystem) (file : Path) (id : SymbolId) : Prop :=
  ∃ declared, fileSymbols fs file = .ok declared ∧ ∃ d ∈ declared, d.1 = id

theorem contains_collectSymbols (h : collectSymbols fs files = .ok table) :
    table.contains id ↔ ∃ file ∈ files, FileDeclares fs file id := by
  obtain ⟨all, hall, rfl⟩ := collectSymbols_eq_ok h
  rw [SymbolTable.contains_declare]
  constructor
  · rintro (hempty | ⟨d, hd, hid⟩)
    · cases hempty
    · obtain ⟨declared, hdeclared, hd⟩ := List.mem_flatten.1 hd
      obtain ⟨file, hfile, hread⟩ := exists_of_mem_mapM hall hdeclared
      exact ⟨file, hfile, declared, hread, d, hd, hid⟩
  · rintro ⟨file, hfile, declared, hread, d, hd, hid⟩
    obtain ⟨found, hfound, hread'⟩ := exists_of_mem_of_mapM hall hfile
    obtain rfl : declared = found := Except.ok.inj (hread.symm.trans hread')
    exact .inr ⟨d, List.mem_flatten.2 ⟨declared, hfound, hd⟩, hid⟩

theorem exists_collectSymbols : (∃ table, collectSymbols fs files = .ok table) ↔
    ∀ file ∈ files, ∃ declared, fileSymbols fs file = .ok declared := by
  constructor
  · rintro ⟨table, h⟩ file hfile
    obtain ⟨all, hall, -⟩ := collectSymbols_eq_ok h
    obtain ⟨declared, -, hread⟩ := exists_of_mem_of_mapM hall hfile
    exact ⟨declared, hread⟩
  · intro h
    have hall : ∃ all, files.mapM (fileSymbols fs) = .ok all := by
      induction files with
      | nil => exact ⟨[], rfl⟩
      | cons first rest ih =>
        obtain ⟨⟨declared, hfirst⟩, hrest⟩ := List.forall_mem_cons.1 h
        obtain ⟨all, hall⟩ := ih hrest
        exact ⟨declared :: all, mapM_eq_ok.2 (.cons hfirst (mapM_eq_ok.1 hall))⟩
    obtain ⟨all, hall⟩ := hall
    unfold collectSymbols
    rw [hall]
    exact ⟨_, rfl⟩

theorem fileDeclares_iff : FileDeclares fs file id ↔
    ∃ own, collectSymbols fs [file] = .ok own ∧ own.contains id := by
  constructor
  · rintro ⟨declared, hread, hd⟩
    obtain ⟨own, hown⟩ : ∃ own, collectSymbols fs [file] = .ok own :=
      exists_collectSymbols.2 (List.forall_mem_singleton.2 ⟨declared, hread⟩)
    exact ⟨own, hown, (contains_collectSymbols hown).2 ⟨file, List.mem_singleton.2 rfl, declared,
      hread, hd⟩⟩
  · rintro ⟨own, hown, hid⟩
    obtain ⟨other, hother, hdeclares⟩ := (contains_collectSymbols hown).1 hid
    rwa [List.mem_singleton.1 hother] at hdeclares

theorem collectSymbols_plain {shape : Shape} (h : collectSymbols fs files = .ok table)
    (hget : table.get? id = some shape) (htype : id.type ≠ "styleable".toList) : shape = .int := by
  obtain ⟨all, hall, rfl⟩ := collectSymbols_eq_ok h
  obtain ⟨declared, hdeclared, hd⟩ := List.mem_flatten.1 (SymbolTable.mem_of_get?_declare hget)
  obtain ⟨file, -, hread⟩ := exists_of_mem_mapM hall hdeclared
  exact fileSymbols_plain hread _ hd htype

/-! ## Files together -/

structure CollectedByFile (fs : FileSystem) (files : List Path) (table : SymbolTable) : Prop where
  /-- A symbol is in the table if and only if it is in that of one of the files alone. -/
  contains : ∀ id, table.contains id ↔
    ∃ file ∈ files, ∃ own, collectSymbols fs [file] = .ok own ∧ own.contains id
  alone : ∀ file ∈ files, ∃ own, collectSymbols fs [file] = .ok own
  /-- The same files in another order or another number of times are collected as well, and lead to
  the same symbols in the `R` class. -/
  rearranged : ∀ others, (∀ file, file ∈ others ↔ file ∈ files) →
    ∃ other, collectSymbols fs others = .ok other ∧ (∀ id, other.contains id ↔ table.contains id) ∧
      ∀ nonTransitive dependencies id,
        (RClass.symbols nonTransitive other dependencies).contains id ↔
          (RClass.symbols nonTransitive table dependencies).contains id
  plain : ∀ id shape, table.get? id = some shape → id.type ≠ "styleable".toList → shape = .int

/-- The symbols of the class change only where those of the module do. -/
theorem RClass.contains_symbols_congr {other : SymbolTable}
    (h : ∀ id, other.contains id ↔ table.contains id) (nonTransitive : Bool)
    (dependencies : List SymbolTable) (id : SymbolId) :
    (symbols nonTransitive other dependencies).contains id ↔
      (symbols nonTransitive table dependencies).contains id := by
  cases nonTransitive with
  | true => exact h id
  | false =>
    rw [← SymbolTable.mem_ids, ← SymbolTable.mem_ids, mem_ids_symbols, mem_ids_symbols,
      List.flatMap_cons, List.flatMap_cons, List.mem_append, List.mem_append, SymbolTable.mem_ids,
      SymbolTable.mem_ids, h id]

/-- What is declared is what one of the files declares, in whatever order they are collected and how
often, and everything but styleables is an `int`. -/
theorem collected_by_file (fs : FileSystem) (files : List Path) (table : SymbolTable)
    (h : collectSymbols fs files = .ok table) : CollectedByFile fs files table := by
  have hread := exists_collectSymbols.1 ⟨table, h⟩
  refine
    { contains := fun id => ?_
      alone := fun file hfile => ?_
      rearranged := fun others hothers => ?_
      plain := fun _ _ hget htype => collectSymbols_plain h hget htype }
  · rw [contains_collectSymbols h]
    simp only [fileDeclares_iff]
  · exact exists_collectSymbols.2 (List.forall_mem_singleton.2 (hread file hfile))
  · obtain ⟨other, hother⟩ : ∃ other, collectSymbols fs others = .ok other :=
      exists_collectSymbols.2 fun file hfile => hread file ((hothers file).1 hfile)
    have hsame : ∀ id, other.contains id ↔ table.contains id := fun id => by
      rw [contains_collectSymbols hother, contains_collectSymbols h]
      simp only [hothers]
    exact ⟨other, hother, hsame, RClass.contains_symbols_congr hsame⟩

/-- A styleable with the field `A_b`. -/
def fieldSource : Text :=
  "<resources><declare-styleable name='A'><attr name='b'/></declare-styleable></resources>"

/-- A styleable called like that field. -/
def arraySource : Text :=
  "<resources><declare-styleable name='A_b'/></resources>"

def clashingFiles : FileSystem :=
  (((FileSystem.empty.place ["res"] .directory).place ["res", "values"] .directory).place
    ["res", "values", "a.xml"] (.file (Text.toUtf8 fieldSource))).place
    ["res", "values", "b.xml"] (.file (Text.toUtf8 arraySource))

/-- In the other order, and with one file twice, the field decides instead of the array, but the
symbols are the same. -/
theorem collected_by_file_clash :
    let table := SymbolTable.declare .empty [intSymbol "attr" "b", (⟨"styleable", "A"⟩, .intArray),
      (⟨"styleable", "A_b"⟩, .intArray)]
    collectSymbols clashingFiles ["res/values/a.xml", "res/values/b.xml"] = .ok table ∧
      ∃ other, collectSymbols clashingFiles
          ["res/values/b.xml", "res/values/b.xml", "res/values/a.xml"] = .ok other ∧
        other.get? ⟨"styleable", "A_b"⟩ = some .int ∧
        ∀ id, other.contains id ↔ table.contains id := by
  intro table
  have htable : collectSymbols clashingFiles ["res/values/a.xml", "res/values/b.xml"] =
      .ok table := by
    decide +kernel
  have hlast : collectSymbols clashingFiles
      ["res/values/b.xml", "res/values/b.xml", "res/values/a.xml"] =
        .ok (table.add "styleable" "A_b" .int) := by
    decide +kernel
  have hfiles : ∀ a b file : Path, file ∈ [b, b, a] ↔ file ∈ [a, b] := by grind
  obtain ⟨other, hother, hsame, -⟩ := (collected_by_file _ _ _ htable).rearranged _ (hfiles _ _)
  refine ⟨htable, other, hother, ?_, hsame⟩
  rw [hlast] at hother
  cases hother
  rw [SymbolTable.get?_add, if_pos rfl]

end AndroidResources
