import AndroidResources.Proofs.Java.SourceTree
import AndroidResources.Proofs.Symbol.NewIds
import AndroidResources.Proofs.Symbol.Shapes
import AndroidResources.Proofs.Xml.Acceptance
import AndroidResources.Proofs.Xml.Occurrence

/-!
# The ids of fields

The fields of a stub come from the attributes of a document, the ids of the `R` class from a search
of its text. A field with a plain name is found by both.

* `NamesField` : a tag gives a field a plain name by its id;
* `newIds_of_standsQuoted` : an id that stands in a text is found there, with its whole name;
* `mem_views_of_namesField` : the field is a view of the layout;
* `fields_have_ids` : it is a new id of the text, and a constant of the `R` class where the file may
  declare ids; `field_without_id` : a file that may not.
-/

namespace AndroidResources

variable {m : LayoutModule} {contents id name : Text} {tag : Xml.Tag} {view : Binding}

/-- The tag gives its field a plain name: its id is spelled without entities, and what becomes the
name consists of word characters. -/
structure NamesField (m : LayoutModule) (contents : Text) (tag : Xml.Tag) (id : Text)
    (view : Binding) : Prop where
  mem_tags : tag ∈ (Xml.read contents).tags
  notImport : tag.name ≠ "import"
  notVariable : tag.name ≠ "variable"
  raw_id : tag.raw? "android:id" = .ok (some id)
  noEntity : '&' ∉ id
  field : ∃ values, tag.values = .ok values ∧ m.binding? tag.name values = .ok (some view)
  word : ∀ c ∈ view.name, Text.isAsciiWordChar c = true

/-! ## The id of a tag -/

theorem Xml.Tag.exists_mem_of_raw? {key : Text} (h : tag.raw? key = .ok (some id)) :
    ∃ a ∈ tag.attributes, tag.attributes.find? (·.name = key) = some a ∧ a.value = id := by
  unfold raw? at h
  cases hfind : tag.attributes.find? (·.name = key) with
  | some a =>
    rw [hfind] at h
    cases h
    exact ⟨a, List.mem_of_find?_eq_some hfind, rfl, rfl⟩
  | none =>
    rw [hfind] at h
    split at h
    · next heq => cases heq
    · cases h
    · cases h

theorem lookup_unescaped {attributes : List Xml.Attribute} {values : List (Text × Text)}
    {a : Xml.Attribute} (hplain : '&' ∉ a.value)
    (hfind : attributes.find? (·.name = name) = some a)
    (h : attributes.mapM (fun a => match Xml.unescape a.value with
      | .ok value => .ok (a.name, value)
      | .error fault => .error (.badEntity fault) :
        Xml.Attribute → Except Xml.Fault (Text × Text)) = .ok values) :
    values.lookup name = some a.value := by
  induction attributes generalizing values with
  | nil => cases hfind
  | cons first rest ih =>
    rw [List.mapM_cons] at h
    obtain ⟨pair, hpair, h⟩ := exists_of_bind_eq_ok h
    obtain ⟨others, hothers, h⟩ := exists_of_bind_eq_ok h
    cases h
    have hname : pair.1 = first.name := by
      split at hpair <;> cases hpair
      rfl
    rw [List.find?_cons] at hfind
    split at hfind
    · next hsame =>
      cases hfind
      have hunescape : Xml.unescape a.value = .ok a.value := Xml.unescapeFrom_plain _ hplain
      rw [hunescape] at hpair
      cases hpair
      rw [List.lookup_cons, beq_iff_eq.2 (of_decide_eq_true hsame).symm]
    · next hother =>
      obtain ⟨pairName, pairValue⟩ := pair
      cases hname
      rw [List.lookup_cons, beq_eq_false_iff_ne.2 (Ne.symm (of_decide_eq_false hother))]
      exact ih hfind hothers

theorem Xml.Tag.lookup_values {key : Text} {values : List (Text × Text)}
    (hraw : tag.raw? key = .ok (some id)) (hplain : '&' ∉ id)
    (h : tag.values = .ok values) : values.lookup key = some id := by
  obtain ⟨a, -, hfind, rfl⟩ := exists_mem_of_raw? hraw
  unfold Xml.Tag.values at h
  obtain ⟨pairs, hpairs, h⟩ := exists_of_bind_eq_ok h
  split at h
  · cases h
  · cases h
    exact lookup_unescaped hplain hfind hpairs

/-- The name of a field is what follows the last marker in an id with a plus sign. -/
theorem name_of_binding? {tagName : Text} {values : List (Text × Text)}
    (h : m.binding? tagName values = .ok (some view)) :
    ∃ id, values.lookup "android:id".toList = some id ∧ '+' ∈ id ∧
      view.name = Text.afterLast "@+id/" id ∧ view.name ≠ [] := by
  unfold LayoutModule.binding? at h
  split at h
  · cases h
  · next id hid =>
    split at h
    · cases h
    · next hplus =>
      refine ⟨id, hid, not_not.1 hplus, ?_⟩
      dsimp only at h
      split at h
      · cases h
      · next hname =>
        split at h
        · obtain ⟨target, -, h⟩ := exists_of_bind_eq_ok h
          cases h
          exact ⟨rfl, hname⟩
        · cases h
          exact ⟨rfl, hname⟩

/-! ## The id in the text -/

/-- An id that stands in a text is found there, with its whole name. -/
theorem newIds_of_standsQuoted (hid : Xml.StandsQuoted id contents) (hplus : '+' ∈ id)
    (hname : name = Text.afterLast "@+id/" id) (hne : name ≠ [])
    (hword : ∀ c ∈ name, Text.isAsciiWordChar c = true) :
    ∃ before after, contents = before ++ (newIdMarker ++ (name ++ after)) ∧
      newIds contents = newIds before ++ name :: newIds after := by
  have hmarked : ∃ before, id = before ++ newIdMarker ++ name := by
    rw [hname] at hword ⊢
    refine Text.eq_append_of_afterLast hplus fun hmem => ?_
    exact absurd (hword _ hmem) (by decide)
  obtain ⟨front, hfront⟩ := hmarked
  obtain ⟨quote, hquote, outer, after, hcontents⟩ := hid
  have hstop : ∀ c ∈ (quote :: after).head?, Text.isAsciiWordChar c = false := by
    rintro c hc
    cases hc
    obtain rfl | rfl := hquote <;> decide
  have hsplit : contents = (outer ++ front) ++ (newIdMarker ++ (name ++ (quote :: after))) := by
    rw [← hcontents, hfront]
    simp
  refine ⟨outer ++ front, quote :: after, hsplit, ?_⟩
  rw [hsplit, ← newIds_marker hne hword hstop]
  exact newIds_append _ _

namespace NamesField

variable {file : Path} {layout : LayoutBindings}

theorem newIds_eq (h : NamesField m contents tag id view) :
    ∃ before after, contents = before ++ (newIdMarker ++ (view.name ++ after)) ∧
      newIds contents = newIds before ++ view.name :: newIds after := by
  obtain ⟨values, hvalues, hbinding⟩ := h.field
  obtain ⟨id', hid', hplus, hname, hne⟩ := name_of_binding? hbinding
  have hsame : id' = id := Option.some.inj
    (hid'.symm.trans (Xml.Tag.lookup_values h.raw_id h.noEntity hvalues))
  obtain ⟨a, ha, -, hvalue⟩ := Xml.Tag.exists_mem_of_raw? h.raw_id
  have hquoted : Xml.StandsQuoted id contents :=
    hvalue ▸ Xml.standsQuoted_of_mem_tags h.mem_tags ha
  exact newIds_of_standsQuoted hquoted (hsame ▸ hplus) (hsame ▸ hname) hne h.word

theorem mem_views (h : NamesField m contents tag id view)
    (hread : m.readLayout file contents = .ok layout) : view ∈ layout.views := by
  obtain ⟨-, -, rfl⟩ := LayoutModule.readLayout_eq_ok.1 hread
  obtain ⟨values, hvalues, hbinding⟩ := h.field
  have hview : m.view? ⟨tag.name, values⟩ = some view := by
    have heq := m.binding?_eq ⟨tag.name, values⟩ h.notImport h.notVariable
    rw [hbinding] at heq
    split at heq
    · cases heq
    · exact (Except.ok.inj heq).symm
  have hmem : (⟨tag.name, values⟩ : LayoutTag) ∈ (Xml.read contents).layoutTags := by
    refine List.mem_filterMap.2 ⟨tag, h.mem_tags, ?_⟩
    unfold LayoutTag.ofTag?
    rw [hvalues]
    rfl
  exact List.mem_eraseDups.2 (List.mem_filterMap.2 ⟨_, hmem, hview⟩)

end NamesField

/-! ## Fields and constants -/

theorem mem_fileSymbols_of_newIds {fs : FileSystem} {file : Path} {folder : ResourceFolder}
    {declared : List Declaration} (hfolder : ResourceFolder.ofFile? file = some folder)
    (hids : folder.mayDeclareIds = true) (hxml : file.extension? = some "xml".toList)
    (hcontents : fs.readSource file = .ok contents) (hname : name ∈ newIds contents)
    (h : fileSymbols fs file = .ok declared) : intSymbol "id" name ∈ declared := by
  have hvalues : folder ≠ .values := by
    rintro rfl
    cases hids
  obtain ⟨contents', hcontents', -, -, rfl⟩ | ⟨hnot, -⟩ := fileSymbols_eq_ok hfolder hvalues h
  · cases hcontents.symm.trans hcontents'
    exact List.mem_append_right _ (List.mem_map.2 ⟨name, hname, rfl⟩)
  · exact absurd ⟨hxml, hids⟩ hnot

/-- **Fields and their ids.** A tag with an id that is spelled without entities, whose name consists
of word characters, gives the layout a field; a search of the document finds this id, with its whole
name, between those in front of it and those behind it. In a module each such field has its constant
in the `R` class, if the layout is an XML file in a folder that may declare ids. -/
theorem fields_have_ids :
    (∀ (m : LayoutModule) file contents layout, m.readLayout file contents = .ok layout →
      ∀ tag id view, NamesField m contents tag id view → view ∈ layout.views ∧
        ∃ before after, contents = before ++ (newIdMarker ++ (view.name ++ after)) ∧
          newIds contents = newIds before ++ view.name :: newIds after ∧
          searchIds contents = searchIds before ++ view.name :: searchIds after) ∧
    ∀ (request : CompileRequest) config fs content, request.content config fs = .ok content →
      ∀ layout ∈ content.bindings, ∃ dependencies contents,
        ClassInfo.layoutTypes fs request.classInfos = .ok dependencies ∧
        fs.readSource layout.source = .ok contents ∧
        (request.layoutModule config dependencies).readLayout layout.source contents =
          .ok layout ∧
        ∀ tag id view folder,
          NamesField (request.layoutModule config dependencies) contents tag id view →
          ResourceFolder.ofFile? layout.source = some folder → folder.mayDeclareIds = true →
          layout.source.extension? = some "xml".toList →
            view ∈ layout.views ∧ content.symbols.get? ⟨"id", view.name⟩ = some .int ∧
            ∃ fields, RClass.typeLines "id" fields <:+:
                RClass.lines request.package content.symbols ∧
              RClass.fieldLine view.name .int ∈ RClass.typeLines "id" fields := by
  constructor
  · intro m file contents layout hread tag id view hfield
    obtain ⟨before, after, hsplit, hids⟩ := hfield.newIds_eq
    refine ⟨hfield.mem_views hread, before, after, hsplit, hids, ?_⟩
    rw [searchIds_eq_newIds, searchIds_eq_newIds, searchIds_eq_newIds, hids]
  · intro request config fs content hcontent layout hlayout
    obtain ⟨dependencies, own, hdependencies, hlayouts, hbindings, -⟩ :=
      CompileRequest.content_eq_ok hcontent
    obtain ⟨file, hfile, contents, hsource, hread⟩ :=
      LayoutModule.exists_readSource_of_readFiles hbindings hlayout
    obtain ⟨-, -, hparts⟩ := LayoutModule.readLayout_eq_ok.1 hread
    obtain rfl : layout.source = file := by rw [hparts]
    refine ⟨dependencies, contents, hdependencies, hsource, hread,
      fun tag id view folder hfield hfolder hids hxml => ?_⟩
    have hresource : layout.source ∈ request.resourceFiles :=
      List.mem_of_mem_filter (hlayouts ▸ hfile)
    obtain ⟨declared, hdeclared, hsymbols⟩ := CompileRequest.get?_content hcontent hresource
    have hnew : view.name ∈ newIds contents := by
      obtain ⟨before, after, -, hids⟩ := hfield.newIds_eq
      rw [hids]
      simp
    have hconstant : content.symbols.get? ⟨"id", view.name⟩ = some .int :=
      hsymbols _ _ (mem_fileSymbols_of_newIds hfolder hids hxml hsource hnew hdeclared)
        (show "id".toList ≠ "styleable".toList by decide)
    obtain ⟨fields, -, hlines, hline⟩ := RClass.fieldLine_mem request.package hconstant
    exact ⟨hfield.mem_views hread, hconstant, fields, hlines, hline⟩

/-! ## One page in two folders -/

/-- A layout with one view, behind an id in a comment. -/
def pageContents : Text :=
  "<!-- @+id/old --><layout><View android:id=\"@+id/x\"/></layout>"

def pageTag : Xml.Tag :=
  ⟨"View", [⟨"android:id", "@+id/x"⟩], none⟩

def pageField : Binding :=
  ⟨"x", .classRef ⟨"android.view.View"⟩, .view⟩

/-- The page as the only file, two directories deep. -/
def pageFiles (directory folder file : Text) : FileSystem :=
  ((FileSystem.empty.place [directory] .directory).place [directory, folder] .directory).place
    [directory, folder, file] (.file (Text.toUtf8 pageContents))

def pageRequest (file : Path) : CompileRequest where
  package := "com.app"
  resourceFiles := [file]
  classInfos := []
  symbolLists := []
  nonTransitive := false
  rClassOutput := "r"
  stubsOutput := "stubs"

theorem namesField_page (file : Path) :
    NamesField ((pageRequest file).layoutModule {} .empty) pageContents pageTag "@+id/x" pageField where
  mem_tags := by decide +kernel
  notImport := by decide
  notVariable := by decide
  raw_id := by decide +kernel
  noEntity := by decide
  field := ⟨[("android:id", "@+id/x")], by decide +kernel, rfl⟩
  word := List.all_eq_true.1 (by decide)

deriving instance DecidableEq for ModuleContent

/-- In a layout folder the field of the page has its constant. -/
theorem fields_have_ids_page :
    let content : ModuleContent := ⟨["res/layout/page.xml"],
      [⟨"PageBinding", "res/layout/page.xml", [pageField], []⟩],
      .declare .empty [intSymbol "layout" "page", intSymbol "id" "old", intSymbol "id" "x"]⟩
    (pageRequest "res/layout/page.xml").content {} (pageFiles "res" "layout" "page.xml") =
        .ok content ∧
      content.symbols.get? ⟨"id", "x"⟩ = some .int ∧
      ∃ before after, pageContents = before ++ (newIdMarker ++ ("x".toList ++ after)) ∧
        newIds pageContents = newIds before ++ "x".toList :: newIds after := by
  intro content
  have hcontent : (pageRequest "res/layout/page.xml").content {}
      (pageFiles "res" "layout" "page.xml") = .ok content := by
    decide +kernel
  obtain ⟨hfound, hconstant⟩ := fields_have_ids
  obtain ⟨dependencies, contents, hdependencies, hsource, hread, hfields⟩ :=
    hconstant _ _ _ _ hcontent _ (List.mem_singleton_self _)
  obtain rfl : OrderedMap.empty = dependencies := Except.ok.inj hdependencies
  obtain rfl : pageContents = contents := by
    have hpage : (pageFiles "res" "layout" "page.xml").readSource "res/layout/page.xml" =
        .ok pageContents := by decide +kernel
    exact Except.ok.inj (hpage.symm.trans hsource)
  obtain ⟨-, before, after, hsplit, hids, -⟩ :=
    hfound _ _ _ _ hread pageTag "@+id/x" pageField (namesField_page "res/layout/page.xml")
  exact ⟨hcontent, (hfields _ _ _ .layout (namesField_page _) (by decide) rfl (by decide)).2.1,
    before, after, hsplit, hids⟩

/-- In a folder whose files declare no ids the page is a layout too, and its field has none. -/
theorem field_without_id :
    let content : ModuleContent := ⟨["res/raw/layout_page.xml"],
      [⟨"LayoutPageBinding", "res/raw/layout_page.xml", [pageField], []⟩],
      .declare .empty [intSymbol "raw" "layout_page"]⟩
    (pageRequest "res/raw/layout_page.xml").content {} (pageFiles "res" "raw" "layout_page.xml") =
        .ok content ∧
      NamesField ((pageRequest "res/raw/layout_page.xml").layoutModule {} .empty) pageContents
        pageTag "@+id/x" pageField ∧
      "x".toList ∈ newIds pageContents ∧ content.symbols.get? ⟨"id", "x"⟩ = none := by
  exact ⟨by decide +kernel, namesField_page _, by decide, by decide⟩

end AndroidResources
