import AndroidResources.Proofs.Symbol.Tables

/-!
# The text of the `R` class read back

* `ClassLine`, `readLine` : what a line of the class says by what it begins and ends with;
* `readTypes`, `typesOf`, `symbolsOf` : the types of a text, with the fields up to the next one;
* `splitOn_ofLines` : lines without line breaks are found again;
* `readLine_fieldLine`, `readLine_typeLine` : a field and a nested class are read as what they are,
  whatever their names are, and all other lines of the class as nothing;
* `symbols_of_source` : the text of a class says exactly what its table has.
-/

namespace AndroidResources

/-- Lines without line breaks are found again, and nothing stands behind the last one. -/
theorem Text.splitOn_ofLines {lines : List Text} (h : ∀ line ∈ lines, '\n' ∉ line) :
    (ofLines lines).splitOn '\n' = lines ++ [[]] := by
  induction lines with
  | nil => rfl
  | cons line rest ih =>
    obtain ⟨hline, hrest⟩ := List.forall_mem_cons.1 h
    have hlines : ofLines (line :: rest) = line ++ '\n' :: ofLines rest := by
      simp [ofLines]
    rw [hlines, List.splitOn_append_cons_self_of_not_mem hline, ih hrest, List.cons_append]

namespace RClass

/-! ## Reading -/

inductive ClassLine
  | type (name : Text)
  | field (name : Text) (shape : Shape)
  | other
  deriving DecidableEq, Repr

/-- What stands between the two ends of a line, if it has them. -/
def between? (front back line : Text) : Option Text :=
  (List.isPrefixOf? front line).bind fun rest => List.isSuffixOf? back rest

def readLine (line : Text) : ClassLine :=
  match between? "        public static int " " = 0;" line with
  | some name => .field name .int
  | none =>
    match between? "        public static int[] " " = \x7b\x7d;" line with
    | some name => .field name .intArray
    | none =>
      match between? "    public static final class " " \x7b" line with
      | some name => .type name
      | none => .other

/-- The fields before the first nested class, and the nested classes, each with the fields up to the
next one. -/
def readTypes : List Text → List (Text × Shape) × List (Text × List (Text × Shape))
  | [] => ([], [])
  | line :: rest =>
    let behind := readTypes rest
    match readLine line with
    | .type name => ([], (name, behind.1) :: behind.2)
    | .field name shape => ((name, shape) :: behind.1, behind.2)
    | .other => behind

def typesOf (source : Text) : List (Text × List (Text × Shape)) :=
  (readTypes (source.splitOn '\n')).2

def symbolsOf (source : Text) : List Declaration :=
  SymbolTable.ungroup (typesOf source)

/-! ## Lines -/

theorem between?_append (front name back : Text) :
    between? front back (front ++ name ++ back) = some name := by
  rw [between?, List.append_assoc, List.isPrefixOf?_eq_some_iff_append_eq.2 rfl]
  exact List.isSuffixOf?_eq_some_iff_append_eq.2 rfl

theorem readLine_fieldLine (name : Text) (shape : Shape) :
    readLine (fieldLine name shape) = .field name shape := by
  cases shape with
  | int =>
    have hint : between? "        public static int " " = 0;" (fieldLine name .int) = some name :=
      between?_append _ _ _
    rw [readLine, hint]
  | intArray =>
    have hint : between? "        public static int " " = 0;" (fieldLine name .intArray) = none :=
      rfl
    have harray : between? "        public static int[] " " = \x7b\x7d;"
        (fieldLine name .intArray) = some name := between?_append _ _ _
    rw [readLine, hint, harray]

def typeLine (type : Text) : Text :=
  "    public static final class " ++ type ++ " \x7b"

theorem readLine_typeLine (type : Text) : readLine (typeLine type) = .type type := by
  have hint : between? "        public static int " " = 0;" (typeLine type) = none := rfl
  have harray : between? "        public static int[] " " = \x7b\x7d;" (typeLine type) = none := rfl
  have htype : between? "    public static final class " " \x7b" (typeLine type) = some type :=
    between?_append _ _ _
  rw [readLine, hint, harray, htype]

theorem readLine_packageLines (package : Text) : ∀ line ∈ JavaSource.packageLines package,
    readLine line = .other := by
  unfold JavaSource.packageLines JavaSource.packageDeclaration
  split
  · simp
  · intro line hline
    rcases List.mem_pair.1 hline with rfl | rfl <;> rfl

/-! ## Texts -/

theorem readTypes_others {front : List Text} (h : ∀ line ∈ front, readLine line = .other)
    (rest : List Text) : readTypes (front ++ rest) = readTypes rest := by
  induction front with
  | nil => rfl
  | cons line front ih =>
    obtain ⟨hline, hfront⟩ := List.forall_mem_cons.1 h
    rw [List.cons_append, readTypes, hline, ih hfront]

theorem readTypes_fieldLines (fields : List (Text × Shape)) (rest : List Text) :
    readTypes (fields.map (fun field => fieldLine field.1 field.2) ++ rest) =
      (fields ++ (readTypes rest).1, (readTypes rest).2) := by
  induction fields with
  | nil => rfl
  | cons field fields ih =>
    rw [List.map_cons, List.cons_append, readTypes, readLine_fieldLine, ih]
    rfl

theorem readTypes_typeLines (type : Text) (fields : List (Text × Shape)) (rest : List Text) :
    readTypes (typeLines type fields ++ rest) =
      ([], (type, fields ++ (readTypes rest).1) :: (readTypes rest).2) := by
  have hend : readTypes (["    \x7d".toList] ++ rest) = readTypes rest :=
    readTypes_others (List.forall_mem_singleton.2 rfl) rest
  rw [show typeLines type fields = typeLine type :: _ from rfl, List.cons_append, readTypes,
    readLine_typeLine, List.append_assoc, readTypes_fieldLines, hend]

/-- The nested classes are found one after the other, where nothing stands behind them. -/
theorem readTypes_types (types : List (Text × List (Text × Shape))) {rest : List Text}
    (hrest : ∀ line ∈ rest, readLine line = .other) :
    readTypes (types.flatMap (fun group => typeLines group.1 group.2) ++ rest) = ([], types) := by
  induction types with
  | nil =>
    rw [List.flatMap_nil, List.nil_append, ← List.append_nil rest, readTypes_others hrest]
    rfl
  | cons group types ih =>
    rw [List.flatMap_cons, List.append_assoc, readTypes_typeLines, ih, List.append_nil]

theorem readTypes_lines (package : Text) (table : SymbolTable) :
    readTypes (lines package table ++ [[]]) = ([], table.types) := by
  have hfront : ∀ line ∈ JavaSource.header ::
      (JavaSource.packageLines package ++ ["public final class R \x7b".toList]),
      readLine line = .other := by
    have hopen : ∀ line ∈ ["public final class R \x7b".toList], readLine line = .other :=
      List.forall_mem_singleton.2 rfl
    exact List.forall_mem_cons.2
      ⟨rfl, List.forall_mem_append.2 ⟨readLine_packageLines package, hopen⟩⟩
  have hback : ∀ line ∈ ["\x7d".toList, []], readLine line = .other :=
    List.forall_mem_cons.2 ⟨rfl, List.forall_mem_singleton.2 rfl⟩
  have hlines : lines package table ++ [[]] =
      (JavaSource.header ::
        (JavaSource.packageLines package ++ ["public final class R \x7b".toList])) ++
      (table.types.flatMap (fun group => typeLines group.1 group.2) ++ ["\x7d".toList, []]) := by
    simp [lines]
  rw [hlines, readTypes_others hfront, readTypes_types _ hback]

/-! ## Line breaks -/

/-- No type and no name has a line break in it, as no identifier has. -/
def Printable (table : SymbolTable) : Prop :=
  ∀ group ∈ table.types, '\n' ∉ group.1 ∧ ∀ field ∈ group.2, '\n' ∉ field.1

variable {package : Text} {table : SymbolTable}

theorem break_not_mem_between {front name back : Text} (hfront : '\n' ∉ front) (hname : '\n' ∉ name)
    (hback : '\n' ∉ back) : '\n' ∉ front ++ name ++ back := by
  simp [hfront, hname, hback]

theorem break_not_mem_fieldLine {name : Text} (h : '\n' ∉ name) (shape : Shape) :
    '\n' ∉ fieldLine name shape := by
  cases shape <;> exact break_not_mem_between (by decide) h (by decide)

theorem break_not_mem_packageLines (h : '\n' ∉ package) :
    ∀ line ∈ JavaSource.packageLines package, '\n' ∉ line := by
  unfold JavaSource.packageLines JavaSource.packageDeclaration
  split
  · simp
  · intro line hline
    rcases List.mem_pair.1 hline with rfl | rfl
    · exact break_not_mem_between (by decide) h (by decide)
    · exact List.not_mem_nil

theorem break_not_mem_typeLines {type : Text} {fields : List (Text × Shape)} (htype : '\n' ∉ type)
    (hfields : ∀ field ∈ fields, '\n' ∉ field.1) : ∀ line ∈ typeLines type fields, '\n' ∉ line := by
  refine List.forall_mem_cons.2 ⟨break_not_mem_between (by decide) htype (by decide),
    List.forall_mem_append.2 ⟨fun line hline => ?_, List.forall_mem_singleton.2 (by decide)⟩⟩
  obtain ⟨field, hfield, rfl⟩ := List.mem_map.1 hline
  exact break_not_mem_fieldLine (hfields field hfield) field.2

theorem break_not_mem_lines (hpackage : '\n' ∉ package) (htable : Printable table) :
    ∀ line ∈ lines package table, '\n' ∉ line := by
  unfold lines
  refine List.forall_mem_cons.2 ⟨by decide, List.forall_mem_append.2
    ⟨break_not_mem_packageLines hpackage, List.forall_mem_cons.2 ⟨by decide,
      List.forall_mem_append.2 ⟨fun line hline => ?_, List.forall_mem_singleton.2 (by decide)⟩⟩⟩⟩
  obtain ⟨group, hgroup, hline⟩ := List.mem_flatMap.1 hline
  exact break_not_mem_typeLines (htable group hgroup).1 (htable group hgroup).2 line hline

/-! ## The table read back -/

theorem typesOf_source (hpackage : '\n' ∉ package) (htable : Printable table) :
    typesOf (source package table) = table.types := by
  rw [typesOf, source, Text.splitOn_ofLines (break_not_mem_lines hpackage htable), readTypes_lines]

structure SaysTable (package : Text) (table : SymbolTable) : Prop where
  types : typesOf (source package table) = table.types
  /-- A field stands for a symbol of the table, and every symbol has one. -/
  symbols : ∀ id shape,
    (id, shape) ∈ symbolsOf (source package table) ↔ table.get? id = some shape
  sorted : (symbolsOf (source package table)).Pairwise fun a b => compare a.1 b.1 = .lt
  /-- Another table has another text, in whatever package. -/
  injective : ∀ package' other, '\n' ∉ package' → Printable other →
    source package' other = source package table → other = table

/-- The text of a class, read line by line, says exactly what its table has. -/
theorem symbols_of_source (package : Text) (table : SymbolTable) (hpackage : '\n' ∉ package)
    (htable : Printable table) : SaysTable package table := by
  have htypes := typesOf_source hpackage htable
  have hsymbols : symbolsOf (source package table) = table.declarations := by
    rw [symbolsOf, htypes]
    rfl
  refine
    { types := htypes
      symbols := fun id shape => by rw [hsymbols, SymbolTable.mem_declarations]
      sorted := by
        rw [hsymbols]
        exact table.declarations_sorted
      injective := fun package' other hpackage' hother heq => ?_ }
  have hsame : other.types = table.types := by
    rw [← typesOf_source hpackage' hother, heq, htypes]
  exact SymbolTable.ext_types hsame

/-- A dependency with a symbol of each shape. -/
def chartTable : SymbolTable :=
  (SymbolTable.add .empty "styleable" "Chart" .intArray).add "styleable" "Chart_line" .int
    |>.add "attr" "line" .int

theorem symbols_of_source_chart :
    '\n' ∉ "com.app".toList ∧ Printable chartTable ∧
      (⟨"styleable", "Chart"⟩, .intArray) ∈ symbolsOf (source "com.app" chartTable) ∧
      typesOf (source "com.app" chartTable) =
        [("attr".toList, [("line".toList, .int)]),
          ("styleable".toList, [("Chart".toList, .intArray), ("Chart_line".toList, .int)])] := by
  have hpackage : '\n' ∉ "com.app".toList := by decide
  have htable : Printable chartTable := by
    unfold Printable
    decide
  have htext := symbols_of_source "com.app" chartTable hpackage htable
  exact ⟨hpackage, htable, (htext.symbols _ _).2 (by decide), htext.types.trans (by decide)⟩

end RClass

end AndroidResources
