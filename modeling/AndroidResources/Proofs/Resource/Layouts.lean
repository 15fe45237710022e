import AndroidResources.Proofs.Java.Stubs
import AndroidResources.Proofs.Path.Steps
import AndroidResources.Proofs.Symbol.Shapes

/-!
# Which files are layouts

A module takes a file for a layout by the text of its path, and the symbols of a file depend on the
folder it lies in. Both are put in terms of the segments of the path.

* `ResourceFolder.ofFile?_eq` : the kind of a file is that of the last name of its path but one;
* `isLayoutFile_iff` : a layout ends in `.xml` and has a segment behind the first that starts with
  `layout`;
* `resourceName_eq_layoutName` : the name of the symbol is the name of the layout up to a dot;
* `ShowsLayout`, `LayoutsAgree`, `layouts_agree` : where the path shows the folder, the two tests
  agree, and so do the layouts, the stubs and the symbols of a module;
* `layouts_disagree` : three paths where they do not.
-/

namespace AndroidResources

/-! ## The folder of a file -/

namespace Path

variable {p q : Path}

/-- The file name is the last segment that means something, unless that is a double dot. -/
theorem fileName?_eq_getLast? (p : Path) :
    p.fileName? = (properNames p.segments).getLast?.filter (· ≠ "..".toList) := by
  unfold fileName?
  rw [components_eq_append, List.getLast?_append]
  rcases List.eq_nil_or_concat (properNames p.segments) with hnil | ⟨names, name, hnames⟩
  · have hidle := properNames_eq_nil.1 hnil
    rw [hnil, filterMap_component?_of_idle hidle]
    obtain hlead | hlead | hlead := p.leadingComponent_cases <;> rw [hlead] <;> rfl
  · rw [List.concat_eq_append] at hnames
    obtain ⟨before, idle, hsplit, -, hname, hidle⟩ := exists_of_properNames_concat hnames
    have hlast : ∀ step, component? name = some step →
        (p.segments.filterMap component?).getLast? = some step := fun step hstep => by
      rw [hsplit, List.filterMap_append, List.filterMap_cons_some hstep,
        filterMap_component?_of_idle hidle, List.getLast?_concat]
    rw [hnames, List.getLast?_concat]
    by_cases hup : name = "..".toList
    · rw [hlast .parent (by rw [component?, if_neg (by simp [hname]), if_pos hup]), hup]
      rfl
    · rw [hlast (.normal name) (by rw [component?, if_neg (by simp [hname]), if_neg hup])]
      exact (if_pos (decide_eq_true hup)).symm

/-- The name of the directory that the path puts its file in: the last name but one. -/
def folderName? (file : Path) : Option Text :=
  (properNames file.segments).dropLast.getLast?

theorem fileName?_parent? (p : Path) :
    p.parent?.bind fileName? = p.folderName?.filter (· ≠ "..".toList) := by
  unfold folderName?
  rcases List.eq_nil_or_concat (properNames p.segments) with hnil | ⟨names, name, hnames⟩
  · rw [hnil]
    cases hq : p.parent? with
    | none => rfl
    | some q =>
      have hidle : properNames q.segments = [] := properNames_eq_nil.2 fun segment hsegment => by
        rcases (segments_parent? hq).2 segment hsegment with rfl | hmem
        · rfl
        · exact properNames_eq_nil.1 hnil segment hmem
      rw [Option.bind_some, fileName?_eq_getLast?, hidle]
      rfl
  · rw [List.concat_eq_append] at hnames
    obtain ⟨q, hq⟩ := exists_parent? (p := p) (by simp [hnames])
    rw [hq, Option.bind_some, fileName?_eq_getLast?, properNames_parent? hq hnames, hnames,
      List.dropLast_concat]

end Path

namespace ResourceFolder

variable {directory : Text} {file : Path}

theorem ofFile?_eq (file : Path) : ofFile? file = file.folderName?.bind ofDirectory? := by
  unfold ofFile?
  rw [Path.fileName?_parent?]
  cases file.folderName? with
  | none => rfl
  | some folder =>
    by_cases hup : folder = "..".toList
    · rw [hup]
      rfl
    · rw [show (some folder).filter (· ≠ "..".toList) = some folder from
        if_pos (decide_eq_true hup)]

theorem ofDirectory?_eq_layout :
    ofDirectory? directory = some .layout ↔ directory.takeWhile (· ≠ '-') = "layout".toList := by
  unfold ofDirectory?
  constructor
  · intro h
    have hname := List.find?_some h
    exact (of_decide_eq_true hname).symm
  · intro h
    rw [h]
    decide

end ResourceFolder

def Path.inLayoutFolder (file : Path) : Bool :=
  file.folderName?.any fun folder => folder.takeWhile (· ≠ '-') == "layout".toList

theorem ofFile?_eq_layout {file : Path} :
    ResourceFolder.ofFile? file = some .layout ↔ file.inLayoutFolder = true := by
  rw [ResourceFolder.ofFile?_eq, Path.inLayoutFolder]
  cases file.folderName? with
  | none => simp
  | some folder =>
    rw [Option.bind_some, ResourceFolder.ofDirectory?_eq_layout, Option.any_some, beq_iff_eq]

/-! ## Layouts by the text of the path -/

def Path.slashed (file : Path) : Path :=
  ⟨Text.replace '\\' '/' file.text⟩

theorem replace_eq_self {old new : Char} {s : Text} (h : old ∉ s) : Text.replace old new s = s := by
  refine (List.map_congr_left fun c hc => if_neg ?_).trans (List.map_id' _)
  rintro rfl
  exact h hc

theorem suffix_replace {old new : Char} {word s : Text} (hold : old ∉ word) (hnew : new ∉ word) :
    word <:+ Text.replace old new s ↔ word <:+ s := by
  constructor
  · intro h
    obtain ⟨part, hpart, hword⟩ := List.suffix_map_iff.1 h
    have hclean : old ∉ part := fun hmem =>
      hnew (hword ▸ List.mem_map.2 ⟨old, hmem, if_pos rfl⟩)
    have heq : word = part := hword.trans (replace_eq_self hclean)
    rwa [heq]
  · intro h
    exact List.suffix_map_iff.2 ⟨word, h, (replace_eq_self hold).symm⟩

theorem isLayoutFile_iff_text (file : Path) :
    isLayoutFile file = true ↔
      ".xml".toList <:+ file.text ∧ "/layout".toList <:+: file.slashed.text := by
  unfold isLayoutFile
  rw [Bool.and_eq_true, List.isSuffixOf_iff_suffix, Text.holds_iff,
    suffix_replace (by decide) (by decide), and_comm]
  rfl

/-- A slash with `layout` behind it stands where a segment other than the first begins with it. -/
theorem layout_infix_iff (file : Path) :
    "/layout".toList <:+: file.text ↔ ∃ segment ∈ file.segments.tail, "layout".toList <+: segment :=
  Text.cons_infix_iff (show '/' ∉ "layout".toList by decide)

/-- A layout is a document with a segment behind the first that begins with `layout`. -/
theorem isLayoutFile_iff (file : Path) :
    isLayoutFile file = true ↔ ".xml".toList <:+ file.text ∧
      ∃ segment ∈ file.slashed.segments.tail, "layout".toList <+: segment := by
  rw [isLayoutFile_iff_text, layout_infix_iff]

theorem isLayoutFile_of_inLayoutFolder {file : Path} (hxml : ".xml".toList <:+ file.text)
    (hfolder : file.inLayoutFolder = true)
    (hbehind : 2 ≤ (Path.properNames file.segments.tail).length) : isLayoutFile file = true := by
  refine (isLayoutFile_iff_text file).2 ⟨hxml, ?_⟩
  unfold Path.inLayoutFolder at hfolder
  obtain ⟨folder, hname, hlayout⟩ := (Option.any_eq_true _ _).1 hfolder
  have hbegins : "layout".toList <+: folder := beq_iff_eq.1 hlayout ▸ List.takeWhile_prefix _
  have hmem : folder ∈ file.segments.tail := by
    obtain ⟨first, rest, hsegments⟩ := List.exists_cons_of_ne_nil file.segments_ne_nil
    rw [hsegments, List.tail_cons] at hbehind ⊢
    have hne : Path.properNames rest ≠ [] := by
      rintro hnil
      simp [hnil] at hbehind
    have hne' : (Path.properNames rest).dropLast ≠ [] := fun hnil => by
      have hlength := congrArg List.length hnil
      rw [List.length_dropLast, List.length_nil] at hlength
      omega
    unfold Path.folderName? at hname
    rw [hsegments, ← List.singleton_append, Path.properNames_append,
      List.dropLast_append_of_ne_nil hne, List.getLast?_append_of_ne_nil _ hne'] at hname
    exact List.mem_of_mem_filter (List.dropLast_subset _ (List.mem_of_getLast? hname))
  exact ((layout_infix_iff file).2 ⟨folder, hmem, hbegins⟩).map fun c => if c = '\\' then '/' else c

/-- The segments show whether the file lies in a layout folder: that folder stands behind another
segment, and where there is none no segment but the first begins with `layout`. -/
structure ShowsLayout (file : Path) : Prop where
  noBackslash : '\\' ∉ file.text
  elsewhere : file.inLayoutFolder = false →
    ∀ segment ∈ file.segments.tail, ¬ "layout".toList <+: segment
  behind : file.inLayoutFolder = true → 2 ≤ (Path.properNames file.segments.tail).length

theorem isLayoutFile_eq {file : Path} (h : ShowsLayout file) :
    isLayoutFile file = (List.isSuffixOf ".xml".toList file.text && file.inLayoutFolder) := by
  have hself : file.slashed = file := by
    unfold Path.slashed
    rw [replace_eq_self h.noBackslash]
  rw [Bool.eq_iff_iff, Bool.and_eq_true, List.isSuffixOf_iff_suffix]
  refine ⟨fun hlayout => ?_, fun hfolder =>
    isLayoutFile_of_inLayoutFolder hfolder.1 hfolder.2 (h.behind hfolder.2)⟩
  obtain ⟨hxml, segment, hsegment, hbegins⟩ := (isLayoutFile_iff file).1 hlayout
  rw [hself] at hsegment
  refine ⟨hxml, ?_⟩
  rw [← Bool.not_eq_false]
  exact fun hno => h.elsewhere hno segment hsegment hbegins

/-! ## The symbols of layouts -/

/-- A file is called by its name up to a dot as a resource, and up to `.xml` as a layout. -/
theorem resourceName_eq_layoutName (file : Path) :
    resourceName file = (Identifier.layoutName file).takeWhile (· ≠ '.') := by
  unfold resourceName Identifier.layoutName
  cases hcut : Text.beforeFirst? ".xml" (file.fileName?.getD []) with
  | none => simp only [hcut, Option.getD_none]
  | some before =>
    obtain ⟨after, hname⟩ := Text.beforeFirst?_eq_some hcut
    simp only [hcut, Option.getD_some]
    rw [hname, List.append_assoc]
    exact Text.takeWhile_append_stop (by decide) before ("xml".toList ++ after)

theorem filter_fileSymbols_layout {fs : FileSystem} {file : Path} {declared : List Declaration}
    (hfolder : ResourceFolder.ofFile? file = some .layout)
    (h : fileSymbols fs file = .ok declared) :
    declared.filter (fun d => d.1.type = "layout".toList) = namedResource .layout file := by
  have hown : (namedResource .layout file).filter (fun d => d.1.type = "layout".toList) =
      namedResource .layout file := by
    unfold namedResource
    dsimp only
    split <;> rfl
  have hids : ∀ names : List Text, (names.map (intSymbol "id")).filter
      (fun d => d.1.type = "layout".toList) = [] := fun names => by
    rw [List.filter_map]
    simp [Function.comp_def, intSymbol]
  obtain ⟨contents, -, -, -, rfl⟩ | ⟨-, rfl⟩ := fileSymbols_eq_ok hfolder (by decide) h
  · rw [List.filter_append, hown, hids, List.append_nil]
  · exact hown

theorem mem_fileSymbols_of_layout {fs : FileSystem} {file : Path} {declared : List Declaration}
    (hfolder : ResourceFolder.ofFile? file = some .layout) (hname : resourceName file ≠ [])
    (h : fileSymbols fs file = .ok declared) :
    intSymbol "layout" (resourceName file) ∈ declared := by
  refine List.mem_of_mem_filter (p := fun d => d.1.type = "layout".toList) ?_
  rw [filter_fileSymbols_layout hfolder h, namedResource, if_neg hname]
  exact List.mem_singleton_self _

theorem exists_layout_mem_fileSymbols {fs : FileSystem} {file : Path} {declared : List Declaration}
    (hvalues : ResourceFolder.ofFile? file ≠ some .values) (hname : resourceName file ≠ [])
    (h : fileSymbols fs file = .ok declared) :
    (∃ name, intSymbol "layout" name ∈ declared) ↔
      ResourceFolder.ofFile? file = some .layout := by
  constructor
  · rintro ⟨name, hmem⟩
    cases hfolder : ResourceFolder.ofFile? file with
    | none =>
      unfold fileSymbols at h
      rw [hfolder] at h
      cases h
      cases hmem
    | some folder =>
      have hown : intSymbol "layout" name ∈ namedResource folder file := by
        obtain ⟨contents, -, -, -, rfl⟩ | ⟨-, rfl⟩ := fileSymbols_eq_ok hfolder
          (fun heq => hvalues (heq ▸ hfolder)) h
        · refine (List.mem_append.1 hmem).resolve_right fun hid => ?_
          obtain ⟨id, -, hid⟩ := List.mem_map.1 hid
          exact absurd (congrArg (fun d : Declaration => d.1.type) hid) (by simp [intSymbol])
        · exact hmem
      unfold namedResource at hown
      rw [if_neg hname, List.mem_singleton] at hown
      have htype : "layout".toList = folder.name := congrArg (fun d : Declaration => d.1.type) hown
      revert htype
      cases folder <;> decide
  · exact fun hfolder => ⟨_, mem_fileSymbols_of_layout hfolder hname h⟩

/-! ## Both together -/

/-- Layouts by the text of the path, by the folder, and by the symbols agree on some files. -/
structure LayoutsAgree (files : List Path) : Prop where
  filter_eq : files.filter isLayoutFile = files.filter fun file =>
    List.isSuffixOf ".xml".toList file.text &&
      decide (ResourceFolder.ofFile? file = some .layout)
  /-- A layout declares one symbol of type `layout`: its name up to a dot. -/
  recorded : ∀ file ∈ files.filter isLayoutFile, ∀ fs declared,
    fileSymbols fs file = .ok declared →
      declared.filter (fun d => d.1.type = "layout".toList) =
        if (Identifier.layoutName file).takeWhile (· ≠ '.') = [] then []
        else [intSymbol "layout" ((Identifier.layoutName file).takeWhile (· ≠ '.'))]
  recordedName : ∀ file ∈ files.filter isLayoutFile, ∀ fs declared,
    fileSymbols fs file = .ok declared → Identifier.layoutName file ≠ [] →
      '.' ∉ Identifier.layoutName file →
        declared.filter (fun d => d.1.type = "layout".toList) =
          [intSymbol "layout" (Identifier.layoutName file)]
  /-- A module has a stub for each of the layouts, which are the documents that declare one, and its
  `R` class has their symbols. -/
  compiled : ∀ (request : CompileRequest) config fs content, request.resourceFiles = files →
    request.content config fs = .ok content →
      content.layouts = files.filter isLayoutFile ∧
      (∀ className, (∃ layout ∈ content.bindings, layout.className = className) ↔
        ∃ file ∈ content.layouts,
          Identifier.bindingClass (Identifier.layoutName file) = className) ∧
      (∀ file ∈ files, ".xml".toList <:+ file.text → resourceName file ≠ [] →
        ResourceFolder.ofFile? file ≠ some .values →
          ∃ declared, fileSymbols fs file = .ok declared ∧
            (file ∈ content.layouts ↔ ∃ name, intSymbol "layout" name ∈ declared)) ∧
      ∀ file ∈ content.layouts, resourceName file ≠ [] →
        content.symbols.get? ⟨"layout", resourceName file⟩ = some .int

variable {files : List Path}

theorem filter_isLayoutFile_eq (hshows : ∀ file ∈ files, ShowsLayout file) :
    files.filter isLayoutFile = files.filter fun file =>
      List.isSuffixOf ".xml".toList file.text &&
        decide (ResourceFolder.ofFile? file = some .layout) :=
  List.filter_congr fun file hfile => by
    rw [isLayoutFile_eq (hshows file hfile), decide_eq_decide.2 ofFile?_eq_layout, Bool.decide_coe]

theorem mem_layouts_iff (hshows : ∀ file ∈ files, ShowsLayout file) {file : Path} :
    file ∈ files.filter isLayoutFile ↔ file ∈ files ∧ ".xml".toList <:+ file.text ∧
      ResourceFolder.ofFile? file = some .layout := by
  rw [filter_isLayoutFile_eq hshows, List.mem_filter, Bool.and_eq_true, decide_eq_true_iff,
    List.isSuffixOf_iff_suffix]

/-- **Which files are layouts.** A layout is a document with a segment behind the first that begins
with `layout`. That is so for every document in a layout folder which is not the first segment, and
where all paths show their folders for no other: then the layouts, the stubs of a module and the
symbols of its `R` class agree. -/
theorem layouts_agree :
    (∀ file : Path, isLayoutFile file = true ↔ ".xml".toList <:+ file.text ∧
      ∃ segment ∈ file.slashed.segments.tail, "layout".toList <+: segment) ∧
    (∀ file : Path, ".xml".toList <:+ file.text → ResourceFolder.ofFile? file = some .layout →
      2 ≤ (Path.properNames file.segments.tail).length → isLayoutFile file = true) ∧
    ∀ files : List Path, (∀ file ∈ files, ShowsLayout file) → LayoutsAgree files := by
  refine ⟨isLayoutFile_iff, fun file hxml hfolder =>
    isLayoutFile_of_inLayoutFolder hxml (ofFile?_eq_layout.1 hfolder), fun files hshows => ?_⟩
  have hrecorded : ∀ file ∈ files.filter isLayoutFile, ∀ fs declared,
      fileSymbols fs file = .ok declared →
        declared.filter (fun d => d.1.type = "layout".toList) =
          if (Identifier.layoutName file).takeWhile (· ≠ '.') = [] then []
          else [intSymbol "layout" ((Identifier.layoutName file).takeWhile (· ≠ '.'))] := by
    intro file hfile fs declared hdeclared
    rw [filter_fileSymbols_layout ((mem_layouts_iff hshows).1 hfile).2.2 hdeclared,
      ← resourceName_eq_layoutName]
    rfl
  refine ⟨filter_isLayoutFile_eq hshows, hrecorded, ?_, ?_⟩
  · intro file hfile fs declared hdeclared hname hdot
    have hwhole : (Identifier.layoutName file).takeWhile (· ≠ '.') = Identifier.layoutName file :=
      List.takeWhile_eq_self_iff.2 fun c hc => decide_eq_true fun heq => hdot (heq ▸ hc)
    rw [hrecorded file hfile fs declared hdeclared, hwhole, if_neg hname]
  · rintro request config fs content rfl hcontent
    obtain ⟨dependencies, own, -, hlayouts, hbindings, -⟩ :=
      CompileRequest.content_eq_ok hcontent
    refine ⟨hlayouts, fun className => ?_, fun file hfile hxml hname hvalues => ?_,
      fun file hfile hname => ?_⟩
    · rw [← LayoutModule.mem_className_of_readFiles hbindings, List.mem_map]
    · obtain ⟨declared, hdeclared, -⟩ := CompileRequest.get?_content hcontent hfile
      refine ⟨declared, hdeclared, ?_⟩
      rw [hlayouts, mem_layouts_iff hshows, exists_layout_mem_fileSymbols hvalues hname hdeclared]
      exact ⟨fun h => h.2.2, fun h => ⟨hfile, hxml, h⟩⟩
    · rw [hlayouts] at hfile
      obtain ⟨hmem, hxml, hfolder⟩ := (mem_layouts_iff hshows).1 hfile
      obtain ⟨declared, hdeclared, hsymbols⟩ := CompileRequest.get?_content hcontent hmem
      exact hsymbols _ _ (mem_fileSymbols_of_layout hfolder hname hdeclared)
        (show "layout".toList ≠ "styleable".toList by decide)

/-- Three layouts, one with qualifiers and one called like its folder, among files that are none. -/
def shownFiles : List Path :=
  ["app/res/layout/row_item.xml", "app/res/layout-land/row_item.xml", "res/layout/layout_main.xml",
    "app/res/values/strings.xml", "app/res/layout/notes.txt"]

/-- All of the paths show their folders, so the three documents in layout folders are the layouts. -/
theorem layouts_agree_shown :
    (∀ file ∈ shownFiles, ShowsLayout file) ∧ LayoutsAgree shownFiles ∧
      shownFiles.filter isLayoutFile = shownFiles.take 3 := by
  have hshows : ∀ file ∈ shownFiles, ShowsLayout file := by
    unfold shownFiles
    simp only [List.forall_mem_cons]
    refine ⟨?_, ?_, ?_, ?_, ?_, by simp⟩
    all_goals exact ⟨by decide, by decide, by decide⟩
  exact ⟨hshows, layouts_agree.2.2 shownFiles hshows, by decide⟩

/-- A document in a layout folder that is no layout, since nothing stands in front of the folder; a
layout that lies in a folder for values; and a layout whose symbol has another name. -/
theorem layouts_disagree :
    (isLayoutFile "layout/a.xml" = false ∧
      ResourceFolder.ofFile? "layout/a.xml" = some .layout) ∧
    (isLayoutFile "res/values/layout_sizes.xml" = true ∧
      ResourceFolder.ofFile? "res/values/layout_sizes.xml" = some .values) ∧
    (isLayoutFile "res/layout/a.b.xml" = true ∧
      namedResource .layout "res/layout/a.b.xml" = [intSymbol "layout" "a"] ∧
      Identifier.layoutName "res/layout/a.b.xml" = "a.b".toList) := by
  decide

end AndroidResources
