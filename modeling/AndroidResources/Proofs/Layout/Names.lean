import AndroidResources.Proofs.Xml.Acceptance

/-!
# Names of bindings

The name of a view is what its id has behind the last marker of a new id; the name of a variable is
the value of an attribute.

* `IsRawName` : a name that is not empty and has no marker of a reference in it;
* `LayoutTag.viewName?`, `LayoutTag.variableName?` : the name that a tag gives a view or a variable;
* `LayoutModule.exists_view_iff`, `LayoutModule.exists_variable_iff` : the bindings of a layout have
  these names and no others;
* `LayoutModule.names_of_readLayout` : which of them are raw names, in every accepted layout.
-/

namespace AndroidResources

/-- The name is not empty and has no marker of a reference in it. -/
def IsRawName (name : Text) : Prop :=
  name ≠ [] ∧ Text.holds "@+id/" name = false ∧ Text.holds "@layout/" name = false

instance (name : Text) : Decidable (IsRawName name) :=
  inferInstanceAs (Decidable (_ ∧ _))

namespace LayoutTag

variable {t : LayoutTag} {name : Text}

def viewName? (t : LayoutTag) : Option Text :=
  if t.name = "import" ∨ t.name = "variable" then none else t.newId?

def variableName? (t : LayoutTag) : Option Text :=
  if t.name = "variable" then t.value? "name" else none

theorem value?_of_absent? {names : List Text} (h : t.absent? names = none) (hname : name ∈ names) :
    ∃ value, t.value? name = some value := by
  unfold absent? at h
  have hnot := List.find?_eq_none.1 h name hname
  rwa [Bool.not_eq_true, Option.isNone_eq_false_iff, Option.isSome_iff_exists] at hnot

theorem holds_of_viewName? (h : t.viewName? = some name) : Text.holds "@+id/" name = false := by
  unfold viewName? newId? at h
  split at h
  · cases h
  · split at h
    · split at h
      · cases h
        exact Text.holds_afterLast (by decide) _
      · cases h
    · cases h

/-- The name of a view is empty only on a tag that counts as one without an id. -/
theorem ne_nil_of_viewName? (h : t.viewName? = some name) (hlacks : t.lacking? = none) :
    name ≠ [] := by
  unfold viewName? at h
  split at h
  · cases h
  · next hother =>
    obtain ⟨himport, hvariable⟩ := not_or.1 hother
    rintro rfl
    unfold lacking? at hlacks
    rw [if_neg himport, if_neg hvariable, h] at hlacks
    cases hlacks

/-- The view that a tag declares has the name that the tag gives it. -/
theorem map_name_view? (m : LayoutModule) (hlacks : t.lacking? = none) :
    (m.view? t).map (·.name) = t.viewName? := by
  unfold LayoutModule.view? viewName?
  by_cases hother : t.name = "import" ∨ t.name = "variable"
  · rw [if_pos hother, if_pos hother, Option.map_none]
  · rw [if_neg hother, if_neg hother]
    cases hid : t.newId? with
    | none => rfl
    | some id =>
      simp only
      by_cases hinclude : t.name = "include"
      · obtain ⟨himport, hvariable⟩ := not_or.1 hother
        have hlayout : t.absent? ["layout"] = none := by
          unfold lacking? at hlacks
          rw [if_neg himport, if_neg hvariable, hid] at hlacks
          simp only [if_pos hinclude] at hlacks
          split at hlacks
          · cases hlacks
          · exact hlacks
        obtain ⟨target, htarget⟩ := value?_of_absent? hlayout (List.mem_singleton_self _)
        rw [if_pos hinclude, htarget]
        rfl
      · rw [if_neg hinclude]
        rfl

theorem map_name_declared? (imports : Imports) (hlacks : t.lacking? = none) :
    (t.declared? imports).map (·.name) = t.variableName? := by
  unfold declared? variableName?
  by_cases hvariable : t.name = "variable"
  · have himport : ¬ t.name = "import" := by
      rw [hvariable]
      decide
    unfold lacking? at hlacks
    rw [if_neg himport, if_pos hvariable] at hlacks
    obtain ⟨value, hvalue⟩ := value?_of_absent? hlacks (List.mem_cons_self ..)
    obtain ⟨type, htype⟩ :=
      value?_of_absent? hlacks (List.mem_cons_of_mem _ (List.mem_singleton_self _))
    rw [if_pos hvariable, if_pos hvariable, hvalue, htype]
    rfl
  · rw [if_neg hvariable, if_neg hvariable, Option.map_none]

end LayoutTag

namespace LayoutModule

variable {m : LayoutModule} {file : Path} {contents : Text} {layout : LayoutBindings}
  {tags : List LayoutTag} {name : Text}

theorem exists_view_iff (hlacks : ∀ t ∈ tags, t.lacking? = none) (name : Text) :
    (∃ view ∈ m.viewsOf tags, view.name = name) ↔ ∃ t ∈ tags, t.viewName? = some name := by
  unfold viewsOf
  simp only [List.mem_eraseDups, List.mem_filterMap]
  constructor
  · rintro ⟨view, ⟨t, ht, hview⟩, hname⟩
    refine ⟨t, ht, ?_⟩
    rw [← t.map_name_view? m (hlacks t ht)]
    exact Option.map_eq_some_iff.2 ⟨view, hview, hname⟩
  · rintro ⟨t, ht, hname⟩
    rw [← t.map_name_view? m (hlacks t ht)] at hname
    obtain ⟨view, hview, hname⟩ := Option.map_eq_some_iff.1 hname
    exact ⟨view, ⟨t, ht, hview⟩, hname⟩

theorem exists_variable_iff (hlacks : ∀ t ∈ tags, t.lacking? = none) (name : Text) :
    (∃ binding ∈ variablesOf tags, binding.name = name) ↔
      ∃ t ∈ tags, t.variableName? = some name := by
  unfold variablesOf
  simp only [List.mem_eraseDups, List.mem_filterMap]
  constructor
  · rintro ⟨binding, ⟨⟨t, k⟩, htk, hbinding⟩, hname⟩
    have ht : t ∈ tags := List.fst_mem_of_mem_zipIdx htk
    refine ⟨t, ht, ?_⟩
    rw [← t.map_name_declared? (importsOf (tags.take k)) (hlacks t ht)]
    exact Option.map_eq_some_iff.2 ⟨binding, hbinding, hname⟩
  · rintro ⟨t, ht, hname⟩
    obtain ⟨k, hk, rfl⟩ := List.getElem_of_mem ht
    rw [← tags[k].map_name_declared? (importsOf (tags.take k)) (hlacks _ ht)] at hname
    obtain ⟨binding, hbinding, hname⟩ := Option.map_eq_some_iff.1 hname
    have hposition : (tags[k], k) ∈ tags.zipIdx :=
      List.mk_mem_zipIdx_iff_getElem?.2 (List.getElem?_eq_getElem hk)
    exact ⟨binding, ⟨_, hposition, hbinding⟩, hname⟩

theorem lacking?_of_readLayout (h : m.readLayout file contents = .ok layout) :
    ∀ t ∈ (Xml.read contents).layoutTags, t.lacking? = none := by
  intro t ht
  obtain ⟨tag, htag, hread⟩ := List.mem_filterMap.1 ht
  obtain ⟨-, values, hvalues, hlacks⟩ := (readLayout_iff.1 ⟨layout, h⟩).2 tag htag
  unfold LayoutTag.ofTag? at hread
  rw [hvalues] at hread
  cases hread
  exact hlacks

/-- **Names of bindings.** In an accepted layout the views have the names that tags give them by
new ids, and the variables those that tags give them by an attribute. The name of a view is never
empty and holds no marker of a new id, but it holds the marker of a layout where the id has one
behind its last marker; a variable may have any name. All names are raw names exactly if no id has
such a marker and the names of variables are raw names as they are written. -/
theorem names_of_readLayout (h : m.readLayout file contents = .ok layout) :
    (∀ name, (∃ view ∈ layout.views, view.name = name) ↔
      ∃ t ∈ (Xml.read contents).layoutTags, t.viewName? = some name) ∧
    (∀ name, (∃ binding ∈ layout.variables, binding.name = name) ↔
      ∃ t ∈ (Xml.read contents).layoutTags, t.variableName? = some name) ∧
    (∀ view ∈ layout.views, view.name ≠ [] ∧ Text.holds "@+id/" view.name = false) ∧
    ((∀ binding ∈ layout.views ++ layout.variables, IsRawName binding.name) ↔
      ∀ t ∈ (Xml.read contents).layoutTags,
        (∀ name ∈ t.viewName?, Text.holds "@layout/" name = false) ∧
        ∀ name ∈ t.variableName?, IsRawName name) := by
  have hlacks := lacking?_of_readLayout h
  obtain ⟨-, -, rfl⟩ := readLayout_eq_ok.1 h
  have hviews := m.exists_view_iff hlacks
  have hvariables := exists_variable_iff hlacks
  have hmarked : ∀ view ∈ m.viewsOf (Xml.read contents).layoutTags,
      view.name ≠ [] ∧ Text.holds "@+id/" view.name = false := by
    intro view hview
    obtain ⟨t, ht, hname⟩ := (hviews view.name).1 ⟨view, hview, rfl⟩
    exact ⟨t.ne_nil_of_viewName? hname (hlacks t ht), t.holds_of_viewName? hname⟩
  refine ⟨hviews, hvariables, hmarked, fun hraw t ht => ⟨?_, ?_⟩, fun hraw binding hbinding => ?_⟩
  · intro name hname
    obtain ⟨view, hview, rfl⟩ := (hviews name).2 ⟨t, ht, hname⟩
    exact (hraw view (List.mem_append_left _ hview)).2.2
  · intro name hname
    obtain ⟨binding, hbinding, rfl⟩ := (hvariables name).2 ⟨t, ht, hname⟩
    exact hraw binding (List.mem_append_right _ hbinding)
  · rcases List.mem_append.1 hbinding with hview | hvariable
    · obtain ⟨hne, hmarker⟩ := hmarked binding hview
      obtain ⟨t, ht, hname⟩ := (hviews binding.name).1 ⟨binding, hview, rfl⟩
      exact ⟨hne, hmarker, (hraw t ht).1 _ hname⟩
    · obtain ⟨t, ht, hname⟩ := (hvariables binding.name).1 ⟨binding, hvariable, rfl⟩
      exact (hraw t ht).2 _ hname

def wordOf (word : Text) (h : word.isEmpty = false ∧
    word.all fun c => Xml.isSpace c = false ∧ c ∉ Xml.nameMarks) : Xml.Name :=
  ⟨word, List.isEmpty_eq_false_iff.1 h.1, Text.forall_of_all h.2⟩

/-- A variable without a name, and a view whose id has a marker of a layout in it. -/
def unnamedVariable : List Xml.Node :=
  layoutAround [
    .empty (writtenTag (wordOf "variable" (by decide))
      [writtenAttribute (wordOf "name" (by decide)) [] (by decide),
        writtenAttribute (wordOf "type" (by decide)) (plainValue "int" (by decide)) (by decide)]
      (by decide)),
    .empty (writtenTag (wordOf "View" (by decide))
      [writtenAttribute (wordOf "android:id" (by decide)) (plainValue "@layout/+x" (by decide))
        (by decide)] (by decide))]

/-- The document is accepted, and neither name is a raw one. -/
theorem names_of_readLayout_unnamed :
    ∃ layout, readLayout ⟨"com.app", ⟨[]⟩, {}⟩ "main.xml" (Xml.renderNodes unnamedVariable) =
        .ok layout ∧
      layout.variables.map (·.name) = [[]] ∧ layout.views.map (·.name) = ["@layout/+x"] ∧
      ¬ ∀ t ∈ (Xml.read (Xml.renderNodes unnamedVariable)).layoutTags,
        (∀ name ∈ t.viewName?, Text.holds "@layout/" name = false) ∧
        ∀ name ∈ t.variableName?, IsRawName name := by
  have hreadable : Xml.Readable unnamedVariable :=
    ⟨⟨⟨trivial, trivial, trivial⟩, trivial⟩, by decide⟩
  have htags : layoutTags unnamedVariable = [⟨"layout", []⟩,
      ⟨"variable", [("name", []), ("type", "int")]⟩, ⟨"View", [("android:id", "@layout/+x")]⟩] := by
    decide
  have hread : readLayout ⟨"com.app", ⟨[]⟩, {}⟩ "main.xml" (Xml.renderNodes unnamedVariable) =
      .ok ⟨"MainBinding", "main.xml", [⟨"@layout/+x", .ofClass "android.view.View", .view⟩],
        [⟨[], JavaType.resolve .empty "int", .declared⟩]⟩ := by
    rw [readLayout_declarationsOf _ hreadable, htags]
    rfl
  obtain ⟨-, -, -, hraw⟩ := names_of_readLayout hread
  refine ⟨_, hread, rfl, rfl, fun htags => ?_⟩
  have hempty := hraw.2 htags _ (List.mem_append_right _ (List.mem_singleton_self _))
  exact hempty.1 rfl

end LayoutModule

end AndroidResources
