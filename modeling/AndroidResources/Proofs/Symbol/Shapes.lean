import AndroidResources.Compile
import AndroidResources.Proofs.Build.Action
import AndroidResources.Proofs.Symbol.Tables

/-!
# The fields of declared symbols

* `PlainShape` : a symbol that is not of type `styleable` is an `int`; `visitEvent_plain` is the
  step and `readValues_plain` the run of it over any values document, `fileSymbols_plain` over the
  files of any folder;
* `SymbolTable.get?_declare` : a declared symbol is in the table, with a shape it was declared with;
* `RClass.get?_symbols` : the `R` class has the module's own symbols;
* `RClass.fieldLine_mem` : a symbol has its field in the class of its type;
* `CompileRequest.get?_content` : the `int` of whatever a resource file of a module declares.
-/

namespace AndroidResources

/-! ## Shapes -/

/-- Arrays are for styleables only. -/
def PlainShape (d : Declaration) : Prop :=
  d.1.type ≠ "styleable".toList → d.2 = .int

theorem plainShape_intSymbol (type name : Text) : PlainShape (intSymbol type name) :=
  fun _ => rfl

theorem plainShape_close (scope : ValuesScope) : ∀ d ∈ scope.close, PlainShape d := by
  cases scope with
  | other => simp [ValuesScope.close]
  | attr => simp [ValuesScope.close]
  | styleable name attributes =>
    intro d hd
    rcases List.mem_cons.1 hd with rfl | hd
    · exact fun hne => absurd rfl hne
    · obtain ⟨attr, -, rfl⟩ := List.mem_map.1 hd
      exact plainShape_intSymbol _ _

theorem plainShape_visitChild {tag : Xml.Tag} {name : Text} {declared : List Declaration}
    {scope : ValuesScope} (h : visitChild tag name = .ok (declared, scope)) :
    ∀ d ∈ declared, PlainShape d := by
  have hone : ∀ type name, ∀ d ∈ [intSymbol type name], PlainShape d := fun type name d hd =>
    List.mem_singleton.1 hd ▸ plainShape_intSymbol type name
  unfold visitChild at h
  split at h
  · cases h
    simp
  · split at h
    · cases h
      exact hone _ _
    · split at h
      · obtain ⟨type?, -, h⟩ := exists_of_bind_eq_ok h
        cases type? with
        | none =>
          cases h
          simp
        | some type =>
          cases h
          exact hone _ _
      · split at h
        · cases h
          exact hone _ _
        · cases h
          simp

namespace ValuesWalk

variable {walk next : ValuesWalk}

theorem visit_plain {tag : Xml.Tag} {scope : ValuesScope} (h : walk.visit tag = .ok (next, scope))
    (hwalk : ∀ d ∈ walk.declared, PlainShape d) : ∀ d ∈ next.declared, PlainShape d := by
  unfold visit at h
  obtain ⟨name?, -, h⟩ := exists_of_bind_eq_ok h
  cases name? with
  | none =>
    cases h
    exact hwalk
  | some name =>
    have happend : ∀ declared : List Declaration, (∀ d ∈ declared, PlainShape d) →
        ∀ d ∈ walk.declared ++ declared, PlainShape d := fun declared hdeclared d hd =>
      (List.mem_append.1 hd).elim (hwalk d) (hdeclared d)
    simp only at h
    split at h
    · obtain ⟨⟨declared, childScope⟩, hchild, h⟩ := exists_of_bind_eq_ok h
      cases h
      exact happend declared (plainShape_visitChild hchild)
    · split at h
      · cases h
        refine happend _ fun d hd => ?_
        split at hd
        · cases hd
        · exact List.mem_singleton.1 hd ▸ plainShape_intSymbol _ _
      · cases h
        exact hwalk
    · split at h
      · cases h
        exact happend _ fun d hd => List.mem_singleton.1 hd ▸ plainShape_intSymbol _ _
      · cases h
        exact hwalk
    · cases h
      exact hwalk

theorem visitEvent_plain {event : Xml.Event} (h : walk.visitEvent event = .ok next)
    (hwalk : ∀ d ∈ walk.declared, PlainShape d) : ∀ d ∈ next.declared, PlainShape d := by
  cases event with
  | opened tag =>
    obtain ⟨⟨after, scope⟩, hvisit, h⟩ := exists_of_bind_eq_ok h
    have hafter := visit_plain hvisit hwalk
    cases h
    exact hafter
  | empty tag =>
    obtain ⟨⟨after, scope⟩, hvisit, h⟩ := exists_of_bind_eq_ok h
    cases h
    intro d hd
    rcases List.mem_append.1 hd with hd | hd
    · exact visit_plain hvisit hwalk d hd
    · exact plainShape_close scope d hd
  | closed =>
    simp only [visitEvent] at h
    split at h
    · cases h
      exact hwalk
    · next scope outer _ =>
      cases h
      intro d hd
      rcases List.mem_append.1 hd with hd | hd
      · exact hwalk d hd
      · exact plainShape_close scope d hd

theorem foldlM_plain {events : List Xml.Event} (h : events.foldlM visitEvent walk = .ok next)
    (hwalk : ∀ d ∈ walk.declared, PlainShape d) : ∀ d ∈ next.declared, PlainShape d := by
  induction events generalizing walk with
  | nil =>
    cases h
    exact hwalk
  | cons event rest ih =>
    rw [List.foldlM_cons] at h
    obtain ⟨between, hevent, h⟩ := exists_of_bind_eq_ok h
    exact ih h (visitEvent_plain hevent hwalk)

end ValuesWalk

/-- Whatever a values document says, readable or not, arrays are for styleables. -/
theorem readValues_plain {contents : Text} {declared : List Declaration}
    (h : readValues contents = .ok declared) : ∀ d ∈ declared, PlainShape d := by
  obtain ⟨walk, hwalk, h⟩ := exists_of_bind_eq_ok h
  have hdeclared : walk.declared = declared := by
    split at h
    · cases h
    · cases h
      rfl
  obtain ⟨walk', hrun, rfl⟩ : ∃ walk',
      (Xml.read contents).events.foldlM ValuesWalk.visitEvent {} = .ok walk' ∧ walk' = walk := by
    cases hrun : (Xml.read contents).events.foldlM ValuesWalk.visitEvent {} with
    | error e =>
      rw [hrun] at hwalk
      cases hwalk
    | ok walk' =>
      rw [hrun] at hwalk
      cases hwalk
      exact ⟨_, rfl, rfl⟩
  rw [← hdeclared]
  exact ValuesWalk.foldlM_plain hrun (by simp)

/-! ## Declarations of a file -/

variable {fs : FileSystem} {file : Path} {declared : List Declaration}

/-- What a file in a folder other than `values` declares: itself, and behind that the new ids of a
document whose folder may declare ids. -/
theorem fileSymbols_eq_ok {folder : ResourceFolder} (hfolder : ResourceFolder.ofFile? file = some folder)
    (hvalues : folder ≠ .values) (h : fileSymbols fs file = .ok declared) :
    (∃ contents, fs.readSource file = .ok contents ∧ file.extension? = some "xml".toList ∧
        folder.mayDeclareIds ∧
        declared = namedResource folder file ++ (newIds contents).map (intSymbol "id")) ∨
      ¬ (file.extension? = some "xml".toList ∧ folder.mayDeclareIds) ∧
        declared = namedResource folder file := by
  unfold fileSymbols at h
  rw [hfolder] at h
  split at h
  · next hnone => cases hnone
  · next hsome =>
    cases hsome
    exact absurd rfl hvalues
  · next other _ hsome =>
    cases hsome
    split at h
    · next hreads =>
      obtain ⟨contents, hcontents, h⟩ := exists_of_bind_eq_ok h
      cases h
      exact .inl ⟨contents, hcontents, hreads.1, hreads.2, rfl⟩
    · next hreads =>
      cases h
      exact .inr ⟨hreads, rfl⟩

theorem plainShape_namedResource (folder : ResourceFolder) (file : Path) :
    ∀ d ∈ namedResource folder file, PlainShape d := by
  unfold namedResource
  intro d hd
  dsimp only at hd
  split at hd
  · cases hd
  · exact List.mem_singleton.1 hd ▸ plainShape_intSymbol _ _

theorem fileSymbols_plain (h : fileSymbols fs file = .ok declared) :
    ∀ d ∈ declared, PlainShape d := by
  cases hfolder : ResourceFolder.ofFile? file with
  | none =>
    unfold fileSymbols at h
    rw [hfolder] at h
    cases h
    simp
  | some folder =>
    by_cases hvalues : folder = .values
    · unfold fileSymbols at h
      rw [hfolder, hvalues] at h
      obtain ⟨contents, -, h⟩ := exists_of_bind_eq_ok h
      cases hread : readValues contents with
      | error e =>
        rw [hread] at h
        cases h
      | ok read =>
        rw [hread] at h
        cases h
        exact readValues_plain hread
    · obtain ⟨contents, -, -, -, rfl⟩ | ⟨-, rfl⟩ := fileSymbols_eq_ok hfolder hvalues h
      · intro d hd
        rcases List.mem_append.1 hd with hd | hd
        · exact plainShape_namedResource folder file d hd
        · obtain ⟨name, -, rfl⟩ := List.mem_map.1 hd
          exact plainShape_intSymbol _ _
      · exact plainShape_namedResource folder file

/-! ## Tables -/

namespace SymbolTable

variable {table : SymbolTable} {id : SymbolId} {shape : Shape}

theorem get?_declare (table : SymbolTable) (h : (id, shape) ∈ declared) :
    ∃ shape, (id, shape) ∈ declared ∧ (table.declare declared).get? id = some shape := by
  rw [get?_declare_eq]
  obtain ⟨d, hd⟩ : ∃ d, declared.reverse.find? (fun entry => entry.1 = id) = some d := by
    rw [← Option.isSome_iff_exists, List.find?_isSome]
    exact ⟨(id, shape), List.mem_reverse.2 h, by simp⟩
  have hid : d.1 = id := by simpa using List.find?_some hd
  refine ⟨d.2, ?_, by rw [hd]; rfl⟩
  rw [← hid]
  exact List.mem_reverse.1 (List.mem_of_find?_eq_some hd)

theorem get?_declare_plain (hplain : ∀ d ∈ declared, PlainShape d) (h : (id, shape) ∈ declared)
    (hid : id.type ≠ "styleable".toList) : (table.declare declared).get? id = some .int := by
  obtain ⟨shape', hmem, hget⟩ := get?_declare table h
  rw [hget, show shape' = .int from hplain _ hmem hid]

end SymbolTable

/-! ## The `R` class -/

namespace RClass

variable {own : SymbolTable} {id : SymbolId} {shape : Shape}

theorem get?_symbols (nonTransitive : Bool) (dependencies : List SymbolTable)
    (h : own.get? id = some shape) :
    (symbols nonTransitive own dependencies).get? id = some shape := by
  unfold symbols
  split
  · exact h
  · rw [get?_foldl_extend, List.findSome?_cons, h]

theorem fieldLine_mem {table : SymbolTable} (package : Text) (h : table.get? id = some shape) :
    ∃ fields, (id.type, fields) ∈ table.types ∧ typeLines id.type fields <:+: lines package table ∧
      fieldLine id.name shape ∈ typeLines id.type fields := by
  obtain ⟨fields, hgroup, hfield⟩ := SymbolTable.exists_types h
  refine ⟨fields, hgroup, ?_, ?_⟩
  · have hflat : typeLines id.type fields <:+:
        table.types.flatMap fun group => typeLines group.1 group.2 := by
      obtain ⟨before, after, hsplit⟩ := List.append_of_mem hgroup
      rw [hsplit, List.flatMap_append, List.flatMap_cons]
      exact ⟨_, _, List.append_assoc ..⟩
    unfold lines
    exact (hflat.trans (List.prefix_append ..).isInfix).trans
      (((List.suffix_cons ..).trans (List.suffix_append ..)).trans (List.suffix_cons ..)).isInfix
  · unfold typeLines
    exact List.mem_cons_of_mem _ (List.mem_append_left _ (List.mem_map.2 ⟨_, hfield, rfl⟩))

end RClass

/-! ## The symbols of a module -/

theorem collectSymbols_eq_ok {files : List Path} {table : SymbolTable}
    (h : collectSymbols fs files = .ok table) :
    ∃ declared, files.mapM (fileSymbols fs) = .ok declared ∧
      table = SymbolTable.declare .empty declared.flatten := by
  obtain ⟨declared, hdeclared, h⟩ := exists_of_bind_eq_ok h
  cases h
  exact ⟨declared, hdeclared, rfl⟩

namespace CompileRequest

variable {request : CompileRequest} {config : Config} {content : ModuleContent}

theorem content_eq_ok (h : request.content config fs = .ok content) :
    ∃ dependencies own, ClassInfo.layoutTypes fs request.classInfos = .ok dependencies ∧
      content.layouts = request.resourceFiles.filter isLayoutFile ∧
      (request.layoutModule config dependencies).readFiles fs content.layouts =
        .ok content.bindings ∧
      collectSymbols fs request.resourceFiles = .ok own ∧
      ∀ id shape, own.get? id = some shape → content.symbols.get? id = some shape := by
  unfold CompileRequest.content at h
  obtain ⟨dependencies, hdependencies, h⟩ := exists_of_bind_eq_ok h
  obtain ⟨bindings, hbindings, h⟩ := exists_of_bind_eq_ok h
  obtain ⟨own, hown, h⟩ := exists_of_bind_eq_ok h
  obtain ⟨others, -, h⟩ := exists_of_bind_eq_ok h
  cases h
  exact ⟨dependencies, own, hdependencies, rfl, hbindings, hown, fun id shape => RClass.get?_symbols _ others⟩

/-- A symbol that a resource file of the module declares is in the `R` class, as an `int` if it is
not a styleable. -/
theorem get?_content (h : request.content config fs = .ok content)
    (hfile : file ∈ request.resourceFiles) :
    ∃ declared, fileSymbols fs file = .ok declared ∧ ∀ id shape, (id, shape) ∈ declared →
      id.type ≠ "styleable".toList → content.symbols.get? id = some .int := by
  obtain ⟨-, own, -, -, -, hown, hsymbols⟩ := content_eq_ok h
  obtain ⟨all, hall, rfl⟩ := collectSymbols_eq_ok hown
  obtain ⟨declared, hmem, hdeclared⟩ := exists_of_mem_of_mapM hall hfile
  refine ⟨declared, hdeclared, fun id shape hid htype => hsymbols id .int ?_⟩
  refine SymbolTable.get?_declare_plain (fun d hd => ?_) (List.mem_flatten.2 ⟨_, hmem, hid⟩) htype
  obtain ⟨part, hpart, hd⟩ := List.mem_flatten.1 hd
  obtain ⟨source, -, hsource⟩ := exists_of_mem_mapM hall hpart
  exact fileSymbols_plain hsource d hd

end CompileRequest

end AndroidResources
