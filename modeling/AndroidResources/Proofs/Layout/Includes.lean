import AndroidResources.ClassInfo.Library
import AndroidResources.Compile
import AndroidResources.Proofs.FileSystem.DepthFirst
import AndroidResources.Proofs.Java.Stubs
import AndroidResources.Proofs.Layout.Files

/-!
# Where the type of an include comes from

An included layout is looked up among the layout files of the module, then among the documents of
its dependencies, and its class is guessed where none of them knows it.

* `ClassInfo.walkDocuments` : the documents of a path, those in a directory by a walk through it;
* `ClassInfo.FirstMaps`, `ClassInfo.get?_layoutTypes` : of several documents the first one counts;
* `IncludeOf`, `IncludeOf.unique`, `includeOf_resolveInclude` : the type of an include, that it is
  the only one, and that includes are resolved to it;
* `includes_resolved` : the includes in the layout files of a module have these types.
-/

namespace AndroidResources

/-! ## Documents of dependencies -/

namespace ClassInfo

variable {fs : FileSystem} {files : List Path} {layout : Text} {info : LayoutClass}

/-- The documents that a path stands for: in a directory those that a walk through it meets, in the
order of the walk. -/
def walkDocuments (fs : FileSystem) (p : Path) : List Path :=
  match fs.locate? p with
  | none => [p]
  | some l =>
    if fs.get? l = some .directory then
      ((fs.walkFiles .keepAll l).map fun names => p.join (.ofNames names)).filter isDocument
    else [p]

theorem documents_eq_walkDocuments (fs : FileSystem) (p : Path) :
    documents fs p = walkDocuments fs p := by
  unfold documents walkDocuments FileSystem.isDirectory
  cases hlocate : fs.locate? p with
  | none => rfl
  | some l =>
    have hresolve : fs.resolve p = .ok (.present l) := by
      unfold FileSystem.locate? at hlocate
      split at hlocate
      · next h => rw [h, Option.some.inj hlocate]
      · cases hlocate
    by_cases hdir : fs.get? l = some .directory
    · simp [hdir, FileSystem.findFiles_eq_walkFiles .keepAll hresolve hdir, Function.comp_def]
    · simp [hdir]

def mapped? (fs : FileSystem) (layout : Text) (file : Path) : Option LayoutClass :=
  (readFile fs file).toOption.bind (·.get? layout)

/-- Of the documents in the files the first one that has the layout has this class for it. -/
def FirstMaps (fs : FileSystem) (files : List Path) (layout : Text) (info : LayoutClass) : Prop :=
  ∃ before file after, files = before ++ file :: after ∧ mapped? fs layout file = some info ∧
    ∀ earlier ∈ before, mapped? fs layout earlier = none

theorem findSome?_mapped? :
    files.findSome? (mapped? fs layout) = some info ↔ FirstMaps fs files layout info :=
  List.findSome?_eq_some_iff

theorem get?_addDocument (types : LayoutTypes) (document : Document) (layout : Text) :
    (addDocument types document).get? layout =
      (types.get? layout).or
        ((document.get? layout).map fun info => .ofClass info.qualifiedName) := by
  have hentries : addDocument types document =
      (document.toList.map fun entry => (entry.1, JavaType.ofClass entry.2.qualifiedName)).foldl
        (fun acc entry => acc.insertIfNew entry.1 entry.2) types := by
    unfold addDocument
    rw [List.foldl_map]
  rw [hentries, OrderedMap.get?_foldl_insertIfNew, List.find?_map, ← OrderedMap.find?_key document]
  simp [Function.comp_def]

theorem get?_foldl_addDocument (found : List Document) (types : LayoutTypes) (layout : Text) :
    (found.foldl addDocument types).get? layout =
      (types.get? layout).or ((found.findSome? (·.get? layout)).map fun info =>
        .ofClass info.qualifiedName) := by
  induction found generalizing types with
  | nil => simp
  | cons document rest ih =>
    rw [List.foldl_cons, ih, get?_addDocument, List.findSome?_cons, Option.or_assoc]
    cases document.get? layout <;> simp

theorem layoutTypes_eq_ok {paths : List Path} {types : LayoutTypes}
    (h : layoutTypes fs paths = .ok types) :
    ∃ found, List.Forall₂ (fun file document => readFile fs file = .ok document)
        (paths.flatMap (walkDocuments fs)) found ∧
      types = found.foldl addDocument .empty := by
  obtain ⟨found, hfound, h⟩ := exists_of_bind_eq_ok h
  cases h
  rw [funext (documents_eq_walkDocuments fs), mapM_eq_ok] at hfound
  exact ⟨found, hfound, rfl⟩

theorem exists_readFile_of_layoutTypes {paths : List Path} {types : LayoutTypes} {file : Path}
    (h : layoutTypes fs paths = .ok types) (hfile : file ∈ paths.flatMap (walkDocuments fs)) :
    ∃ document, readFile fs file = .ok document := by
  obtain ⟨found, hfound, -⟩ := layoutTypes_eq_ok h
  obtain ⟨document, -, hread⟩ := exists_of_mem_of_mapM (mapM_eq_ok.2 hfound) hfile
  exact ⟨document, hread⟩

/-- A layout of dependencies has the class in the first document that knows it. -/
theorem get?_layoutTypes {paths : List Path} {types : LayoutTypes}
    (h : layoutTypes fs paths = .ok types) (layout : Text) :
    types.get? layout = ((paths.flatMap (walkDocuments fs)).findSome? (mapped? fs layout)).map
      fun info => .ofClass info.qualifiedName := by
  obtain ⟨found, hfound, rfl⟩ := layoutTypes_eq_ok h
  rw [get?_foldl_addDocument, OrderedMap.get?_empty, Option.none_or]
  congr 1
  clear h
  generalize paths.flatMap (walkDocuments fs) = files at hfound ⊢
  induction hfound with
  | nil => rfl
  | cons hread _ ih =>
    rw [List.findSome?_cons, List.findSome?_cons, ih, mapped?, hread]
    rfl

end ClassInfo

/-! ## One include -/

theorem bindingClassOf_eq (package suffix layout : Text) : bindingClassOf package suffix layout =
    ⟨bindingPackage package suffix ++ "." ++ Identifier.bindingClass layout⟩ := by
  have hne : bindingPackage package suffix ≠ [] := by simp [bindingPackage]
  unfold bindingClassOf ClassName.inPackage
  rw [if_neg hne]

/-- The type of an included layout, and whether it has to be guessed: by the layout files of the
module, by the documents of its dependencies, or by neither. -/
inductive IncludeOf (package suffix : Text) (fs : FileSystem) (files documents : List Path)
    (layout : Text) : JavaType → Bool → Prop
  | own (h : layout ∈ files.map Identifier.layoutName) :
    IncludeOf package suffix fs files documents layout
      (.classRef ⟨bindingPackage package suffix ++ "." ++ Identifier.bindingClass layout⟩) false
  | dependency (info : ClassInfo.LayoutClass) (hown : layout ∉ files.map Identifier.layoutName)
    (h : ClassInfo.FirstMaps fs documents layout info) :
    IncludeOf package suffix fs files documents layout (.classRef ⟨info.qualifiedName⟩) false
  | guessed (hown : layout ∉ files.map Identifier.layoutName)
    (h : ∀ file ∈ documents, ClassInfo.mapped? fs layout file = none) :
    IncludeOf package suffix fs files documents layout
      (.classRef ⟨bindingPackage package suffix ++ "." ++ Identifier.bindingClass layout⟩) true

section

variable {package suffix : Text} {fs : FileSystem} {files paths : List Path} {layout : Text}
  {dependencies : LayoutTypes} {type : JavaType} {missing : Bool}

theorem IncludeOf.missing_iff {documents : List Path}
    (h : IncludeOf package suffix fs files documents layout type missing) :
    missing = true ↔ layout ∉ files.map Identifier.layoutName ∧
      ∀ file ∈ documents, ClassInfo.mapped? fs layout file = none := by
  cases h with
  | own h => simp [h]
  | dependency info hown h =>
    obtain ⟨before, file, after, rfl, hmaps, -⟩ := h
    refine iff_of_false Bool.false_ne_true fun hnone => ?_
    rw [hnone.2 file (by simp)] at hmaps
    cases hmaps
  | guessed hown h => exact iff_of_true rfl ⟨hown, h⟩

theorem Scopes.resolveInclude_ownFirst (own dependencies : LayoutTypes)
    (package suffix layout : Text) :
    (Scopes.ownFirst own dependencies).resolveInclude package suffix layout =
      match own.get? layout, dependencies.get? layout with
      | some type, _ => .known .ownModule type
      | none, some type => .known .dependencies type
      | none, none => .guessed (.classRef (bindingClassOf package suffix layout)) := by
  unfold resolveInclude lookup ownFirst
  simp only [List.findSome?_cons, List.findSome?_nil]
  cases own.get? layout with
  | some type => rfl
  | none => cases dependencies.get? layout <;> rfl

theorem IncludeOf.unique {documents : List Path} {other : JavaType} {guessed : Bool}
    (h : IncludeOf package suffix fs files documents layout type missing)
    (hother : IncludeOf package suffix fs files documents layout other guessed) :
    type = other ∧ missing = guessed := by
  have hguessed := h.missing_iff.trans hother.missing_iff.symm
  cases h with
  | own hown =>
    cases hother with
    | own => exact ⟨rfl, rfl⟩
    | dependency info hnot => exact absurd hown hnot
    | guessed hnot => exact absurd hown hnot
  | dependency info hnot hmaps =>
    cases hother with
    | own hown => exact absurd hown hnot
    | dependency info' _ hmaps' =>
      rw [← ClassInfo.findSome?_mapped?] at hmaps hmaps'
      obtain rfl : info = info' := Option.some.inj (hmaps.symm.trans hmaps')
      exact ⟨rfl, rfl⟩
    | guessed => exact absurd (hguessed.2 rfl) Bool.false_ne_true
  | guessed hnot =>
    cases hother with
    | own hown => exact absurd hown hnot
    | dependency => exact absurd (hguessed.1 rfl) Bool.false_ne_true
    | guessed => exact ⟨rfl, rfl⟩

/-- An include is resolved to the type of its layout. -/
theorem includeOf_resolveInclude (h : ClassInfo.layoutTypes fs paths = .ok dependencies)
    {found : IncludeType}
    (hfound : (Scopes.ownFirst (.ofLayouts package suffix files) dependencies).resolveInclude
      package suffix layout = found) :
    IncludeOf package suffix fs files (paths.flatMap (ClassInfo.walkDocuments fs)) layout found.type
      found.isGuessed := by
  rw [Scopes.resolveInclude_ownFirst, ClassInfo.get?_layoutTypes h layout, bindingClassOf_eq]
    at hfound
  by_cases hown : layout ∈ files.map Identifier.layoutName
  · obtain ⟨file, hfile, rfl⟩ := List.mem_map.1 hown
    rw [LayoutTypes.get?_ofLayouts package suffix hfile, bindingClassOf_eq] at hfound
    rw [← hfound]
    exact .own hown
  · rw [LayoutTypes.get?_ofLayouts_eq_none package suffix hown] at hfound
    cases hfirst : (paths.flatMap (ClassInfo.walkDocuments fs)).findSome?
        (ClassInfo.mapped? fs layout) with
    | none =>
      rw [hfirst] at hfound
      rw [← hfound]
      exact .guessed hown (List.findSome?_eq_none_iff.1 hfirst)
    | some info =>
      rw [hfirst] at hfound
      rw [← hfound]
      exact .dependency info hown (ClassInfo.findSome?_mapped?.1 hfirst)

end

/-! ## The includes of a module -/

def CompileRequest.Includes (request : CompileRequest) (config : Config) (fs : FileSystem) :
    Text → JavaType → Bool → Prop :=
  IncludeOf request.package config.binding.packageSuffix fs
    (request.resourceFiles.filter isLayoutFile)
    (request.classInfos.flatMap (ClassInfo.walkDocuments fs))

theorem LayoutTag.exists_layout_of_include {tag : LayoutTag} {name : Text}
    (hinclude : tag.name = "include") (hname : tag.newId? = some name)
    (h : tag.lacking? = none) : ∃ target, tag.value? "layout" = some target := by
  unfold lacking? at h
  rw [hname, hinclude] at h
  simp only [show "include".toList ≠ "import".toList by decide,
    show "include".toList ≠ "variable".toList by decide, if_false, if_true] at h
  split at h
  · cases h
  · simpa [absent?, Option.ne_none_iff_exists'] using h

structure IncludesResolved (request : CompileRequest) (config : Config) (fs : FileSystem)
    (m : LayoutModule) (bindings : List LayoutBindings) : Prop where
  /-- Every include with a new id in any layout file is bound, with the type of its layout. -/
  bound : ∀ file ∈ request.resourceFiles.filter isLayoutFile, ∃ contents layout,
    fs.readSource file = .ok contents ∧ m.readLayout file contents = .ok layout ∧
      ∀ tag ∈ (Xml.read contents).layoutTags, tag.name = "include" →
        ∀ name, tag.newId? = some name → ∃ target type missing,
          tag.value? "layout" = some target ∧
          ⟨name, type, .included (Text.afterLast "@layout/" target) missing⟩ ∈ layout.views ∧
          request.Includes config fs (Text.afterLast "@layout/" target) type missing
  /-- No include is bound with another type, and it is missing where nothing knows its layout. -/
  resolved : ∀ file ∈ request.resourceFiles.filter isLayoutFile, ∀ layout, m.Holds fs file layout →
    ∀ view ∈ layout.views, ∀ target missing, view.origin = .included target missing →
      request.Includes config fs target view.type missing ∧
      (missing = true ↔
        target ∉ (request.resourceFiles.filter isLayoutFile).map Identifier.layoutName ∧
        ∀ document ∈ request.classInfos.flatMap (ClassInfo.walkDocuments fs),
          ClassInfo.mapped? fs target document = none)
  unique : ∀ target type missing type' missing', request.Includes config fs target type missing →
    request.Includes config fs target type' missing' → type = type' ∧ missing = missing'
  readable : ∀ document ∈ request.classInfos.flatMap (ClassInfo.walkDocuments fs),
    ∃ read, ClassInfo.readFile fs document = .ok read
  kept : ∀ layout ∈ bindings, layout.source ∈ request.resourceFiles.filter isLayoutFile ∧
    m.Holds fs layout.source layout

/-- Whatever files, documents and directories there are, an include has the class of an own layout,
else that in the first document that knows the layout, else a guessed one. -/
theorem includes_resolved (request : CompileRequest) (config : Config) (fs : FileSystem)
    (dependencies : LayoutTypes) (bindings : List LayoutBindings)
    (hdependencies : ClassInfo.layoutTypes fs request.classInfos = .ok dependencies)
    (hread : (request.layoutModule config dependencies).readFiles fs
      (request.resourceFiles.filter isLayoutFile) = .ok bindings) :
    IncludesResolved request config fs (request.layoutModule config dependencies) bindings where
  bound := by
    intro file hfile
    obtain ⟨layout, contents, hsource, hlayout⟩ :=
      (LayoutModule.readFiles_eq_ok.1 hread).1 file hfile
    refine ⟨contents, layout, hsource, hlayout, fun tag htag hinclude name hname => ?_⟩
    have hlacking : tag.lacking? = none := by
      obtain ⟨written, hwritten, hvalues⟩ := List.mem_filterMap.1 htag
      obtain ⟨-, values, hread, hnone⟩ :=
        (LayoutModule.readLayout_iff.1 ⟨layout, hlayout⟩).2 written hwritten
      rw [LayoutTag.ofTag?, hread] at hvalues
      rwa [← Option.some.inj hvalues]
    obtain ⟨target, htarget⟩ := tag.exists_layout_of_include hinclude hname hlacking
    refine ⟨target, _, _, htarget, ?_, includeOf_resolveInclude hdependencies rfl⟩
    obtain ⟨-, -, rfl⟩ := LayoutModule.readLayout_eq_ok.1 hlayout
    refine List.mem_eraseDups.2 (List.mem_filterMap.2 ⟨tag, htag, ?_⟩)
    unfold LayoutModule.view?
    rw [hname, htarget, hinclude]
    rfl
  resolved := by
    rintro file hfile layout ⟨contents, -, hlayout⟩ view hview target missing horigin
    obtain ⟨htype, hmissing⟩ := LayoutModule.included_of_readLayout hlayout hview horigin
    have hincludes : request.Includes config fs target view.type missing := by
      rw [htype, hmissing]
      exact includeOf_resolveInclude hdependencies rfl
    exact ⟨hincludes, hincludes.missing_iff⟩
  unique := fun _ _ _ _ _ h hother => h.unique hother
  readable := fun _ hdocument => ClassInfo.exists_readFile_of_layoutTypes hdependencies hdocument
  kept := by
    intro layout hlayout
    obtain ⟨hfirst, hholds⟩ := LayoutModule.holds_of_mem hread hlayout
    exact ⟨(firstsBy_sublist classOfFile _).subset hfirst, hholds⟩

/-- Layout files with an include each, and two directories with a document each. -/
def dependentFiles : FileSystem :=
  ((((((((FileSystem.empty.place ["layout"] .directory).place
    ["layout", "a.xml"] (.file (Text.toUtf8
      "<include android:id='@+id/x' layout='@layout/b'/>"))).place
    ["layout", "b.xml"] (.file (Text.toUtf8
      "<include android:id='@+id/x' layout='@layout/c'/>"))).place
    ["layout", "d.xml"] (.file (Text.toUtf8
      "<include android:id='@+id/x' layout='@layout/e'/>"))).place ["lib"] .directory).place
    ["lib", "a"] .directory).place ["lib", "a", "i.json"] (.file (Text.toUtf8
      "\x7b\"mappings\":\x7b\"b\":[\"l.B\"],\"c\":[\"l.First\"]\x7d\x7d"))).place
    ["lib", "a-b"] .directory).place ["lib", "a-b", "i.bin"] (.file (Text.toUtf8
      "\x7b\"mappings\":\x7b\"c\":[\"l.Second\"]\x7d\x7d"))

def dependentRequest : CompileRequest where
  package := "com.app"
  resourceFiles := ["/layout/a.xml", "/layout/b.xml", "/layout/d.xml"]
  classInfos := ["lib"]
  symbolLists := []
  nonTransitive := false
  rClassOutput := "r"
  stubsOutput := "stubs"

/-- One include of an own layout that a document has too, one of a layout that both documents have,
and one of a layout that is nowhere. -/
theorem includes_resolved_dependent :
    let config : Config := {}
    let dependencies : LayoutTypes :=
      .ofList [("b", .classRef ⟨"l.B"⟩), ("c", .classRef ⟨"l.First"⟩)]
    let bindings : List LayoutBindings :=
      [⟨"ABinding", "/layout/a.xml",
          [⟨"x", .classRef ⟨"com.app.databinding.BBinding"⟩, .included "b" false⟩], []⟩,
        ⟨"BBinding", "/layout/b.xml", [⟨"x", .classRef ⟨"l.First"⟩, .included "c" false⟩], []⟩,
        ⟨"DBinding", "/layout/d.xml",
          [⟨"x", .classRef ⟨"com.app.databinding.EBinding"⟩, .included "e" true⟩], []⟩]
    ClassInfo.layoutTypes dependentFiles dependentRequest.classInfos = .ok dependencies ∧
      (dependentRequest.layoutModule config dependencies).readFiles dependentFiles
          (dependentRequest.resourceFiles.filter isLayoutFile) = .ok bindings ∧
      IncludesResolved dependentRequest config dependentFiles
        (dependentRequest.layoutModule config dependencies) bindings := by
  intro config dependencies bindings
  have hdependencies : ClassInfo.layoutTypes dependentFiles dependentRequest.classInfos =
      .ok dependencies := by decide +kernel
  have hread : (dependentRequest.layoutModule config dependencies).readFiles dependentFiles
      (dependentRequest.resourceFiles.filter isLayoutFile) = .ok bindings := by decide +kernel
  exact ⟨hdependencies, hread, includes_resolved _ _ _ _ _ hdependencies hread⟩

end AndroidResources
