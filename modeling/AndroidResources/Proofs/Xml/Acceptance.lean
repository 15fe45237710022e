import AndroidResources.Proofs.Build.Action
import AndroidResources.Proofs.Layout.Declarations
import AndroidResources.Proofs.Xml.Truncation
import AndroidResources.Symbol.Values

/-!
# Which documents are accepted

Layouts and values documents are read tag by tag. A document is accepted if its markup has no fault
and each tag by itself is good enough; elements that are open at its end do not matter.

* `Xml.Tag.ReadTo` : an attribute list is well formed as far as a search reads it;
* `readLayout_eq` : a layout from the tags of its reading, or what is wrong with the first bad one;
* `ValuesWalk.visit_iff` : which tags of a values document are read how far;
* `AcceptedByTags` : which documents are accepted, and how much of one may be cut off;
* `acceptedByTags` : that is so for every text.
-/

namespace AndroidResources

/-! ## Attribute lists -/

namespace Xml.Tag

variable {tag : Tag} {name : Text}

/-- The attribute list is well formed as far as the search for a name reads it. -/
def ReadTo (tag : Tag) (name : Text) : Prop :=
  tag.fault? = none ∨ ∃ a ∈ tag.attributes, a.name = name

theorem raw?_iff : (∃ value?, tag.raw? name = .ok value?) ↔ tag.ReadTo name := by
  unfold raw? ReadTo
  cases hfind : tag.attributes.find? (·.name = name) with
  | some a =>
    have hname := List.find?_some hfind
    exact iff_of_true ⟨_, rfl⟩ (.inr ⟨a, List.mem_of_find?_eq_some hfind, by simpa using hname⟩)
  | none =>
    have hnot : ¬ ∃ a ∈ tag.attributes, a.name = name := by simpa using hfind
    cases tag.fault? with
    | none => exact iff_of_true ⟨_, rfl⟩ (.inl rfl)
    | some fault => simp [hnot]

/-- Where a search comes to the end of the list, all of it is well formed. -/
theorem fault?_of_raw? (h : tag.raw? name = .ok none) : tag.fault? = none := by
  unfold raw? at h
  split at h
  · cases h
  · cases h
  · assumption

theorem fault?_of_values {pairs : List (Text × Text)} (h : tag.values = .ok pairs) :
    tag.fault? = none := by
  unfold values at h
  obtain ⟨read, -, h⟩ := exists_of_bind_eq_ok h
  split at h
  · cases h
  · assumption

end Xml.Tag

/-! ## Layouts -/

def LayoutTag.ofTag? (tag : Xml.Tag) : Option LayoutTag :=
  tag.values.toOption.map fun values => ⟨tag.name, values⟩

def Xml.Reading.layoutTags (reading : Xml.Reading) : List LayoutTag :=
  reading.tags.filterMap LayoutTag.ofTag?

namespace LayoutModule

variable {m : LayoutModule} {file : Path} {contents : Text} {tag : Xml.Tag}

/-- What is wrong with a tag: its attribute list, an entity in it, or that an attribute is not
there. -/
def tagError? (m : LayoutModule) (file : Path) (tag : Xml.Tag) : Option BuildError :=
  match tag.values with
  | .error fault => some (.xml file fault)
  | .ok values => m.lackingError? file ⟨tag.name, values⟩

theorem tagError?_eq_none : m.tagError? file tag = none ↔
    tag.fault? = none ∧ ∃ values, tag.values = .ok values ∧
      (⟨tag.name, values⟩ : LayoutTag).lacking? = none := by
  unfold tagError? lackingError?
  cases hvalues : tag.values with
  | error fault => simp
  | ok values => simp [Xml.Tag.fault?_of_values hvalues]

/-- Bad tags are reported as malformed, unless they can be read and lack something. -/
theorem error_of_tagError? {e : BuildError} (h : m.tagError? file tag = some e) :
    (∃ fault, e = .xml file fault) ∨ ∃ values name, tag.values = .ok values ∧
      (⟨tag.name, values⟩ : LayoutTag).lacking? = some name ∧
        e = .missingAttribute name tag.name m.package file := by
  unfold tagError? lackingError? at h
  cases hvalues : tag.values with
  | error fault =>
    rw [hvalues] at h
    exact .inl ⟨fault, (Option.some.inj h).symm⟩
  | ok values =>
    rw [hvalues] at h
    obtain ⟨name, hname, rfl⟩ := Option.map_eq_some_iff.1 h
    exact .inr ⟨values, name, rfl, hname, rfl⟩

theorem visitEvent_walkOf (file : Path) (seen : List LayoutTag) (event : Xml.Event) :
    m.visitEvent file (m.walkOf seen) event =
      match event.tag?.bind (m.tagError? file) with
      | some e => .error e
      | none => .ok (m.walkOf (seen ++ (event.tag?.bind LayoutTag.ofTag?).toList)) := by
  have key : ∀ tag : Xml.Tag, m.visitEvent file (m.walkOf seen) (.opened tag) =
      match m.tagError? file tag with
      | some e => .error e
      | none => .ok (m.walkOf (seen ++ (LayoutTag.ofTag? tag).toList)) := by
    intro tag
    have hopened : m.visitEvent file (m.walkOf seen) (.opened tag) =
        tag.values.mapError (BuildError.xml file) >>= fun values =>
          m.visitTag file (m.walkOf seen) ⟨tag.name, values⟩ := rfl
    rw [hopened]
    unfold tagError? LayoutTag.ofTag?
    cases tag.values with
    | error fault => rfl
    | ok values => exact m.visitTag_walkOf file seen ⟨tag.name, values⟩
  cases event with
  | closed =>
    show Except.ok (m.walkOf seen) = Except.ok (m.walkOf (seen ++ []))
    rw [List.append_nil]
  | opened tag => exact key tag
  | empty tag => exact key tag

theorem foldlM_visitEvent (file : Path) (events : List Xml.Event) (seen : List LayoutTag) :
    events.foldlM (m.visitEvent file) (m.walkOf seen) =
      match (events.filterMap Xml.Event.tag?).findSome? (m.tagError? file) with
      | some e => .error e
      | none => .ok (m.walkOf
          (seen ++ (events.filterMap Xml.Event.tag?).filterMap LayoutTag.ofTag?)) := by
  induction events generalizing seen with
  | nil =>
    rw [List.filterMap_nil, List.filterMap_nil, List.append_nil]
    rfl
  | cons event rest ih =>
    rw [List.foldlM_cons, visitEvent_walkOf]
    cases htag : event.tag? with
    | none =>
      rw [List.filterMap_cons_none htag]
      show rest.foldlM _ (m.walkOf (seen ++ [])) = _
      rw [List.append_nil, ih]
    | some tag =>
      rw [List.filterMap_cons_some htag, List.findSome?_cons, Option.bind_some]
      cases m.tagError? file tag with
      | some e => rfl
      | none =>
        show rest.foldlM _ (m.walkOf (seen ++ (LayoutTag.ofTag? tag).toList)) = _
        rw [ih, List.append_assoc]
        cases hread : LayoutTag.ofTag? tag with
        | none => rw [List.filterMap_cons_none hread, Option.toList_none, List.nil_append]
        | some t =>
          rw [List.filterMap_cons_some hread, Option.toList_some, List.singleton_append]

/-- A layout declares what the tags of its reading declare, unless one of them or the markup is
bad. -/
theorem readLayout_eq (m : LayoutModule) (file : Path) (contents : Text) :
    m.readLayout file contents =
      match (Xml.read contents).tags.findSome? (m.tagError? file), (Xml.read contents).fault? with
      | some e, _ => .error e
      | none, some fault => .error (.xml file fault)
      | none, none =>
        .ok ⟨Identifier.bindingClass (Identifier.layoutName file), file,
          m.viewsOf (Xml.read contents).layoutTags, variablesOf (Xml.read contents).layoutTags⟩ := by
  have hwalk := m.foldlM_visitEvent file (Xml.read contents).events []
  rw [List.nil_append] at hwalk
  unfold readLayout
  show (((Xml.read contents).events.foldlM (m.visitEvent file) (m.walkOf [])) >>= _) = _
  rw [hwalk]
  unfold Xml.Reading.layoutTags Xml.Reading.tags
  cases ((Xml.read contents).events.filterMap Xml.Event.tag?).findSome? (m.tagError? file) with
  | some e => rfl
  | none => cases (Xml.read contents).fault? <;> rfl

theorem error_of_readLayout {e : BuildError} (h : m.readLayout file contents = .error e) :
    (∃ fault, e = .xml file fault) ∨ ∃ tag ∈ (Xml.read contents).tags, ∃ values name,
      tag.values = .ok values ∧ (⟨tag.name, values⟩ : LayoutTag).lacking? = some name ∧
        e = .missingAttribute name tag.name m.package file := by
  rw [m.readLayout_eq] at h
  cases hfind : (Xml.read contents).tags.findSome? (m.tagError? file) with
  | some e' =>
    rw [hfind] at h
    cases h
    obtain ⟨tag, htag, herror⟩ := List.exists_of_findSome?_eq_some hfind
    exact (error_of_tagError? herror).imp_right fun h => ⟨tag, htag, h⟩
  | none =>
    rw [hfind] at h
    cases hfault : (Xml.read contents).fault? with
    | some fault =>
      rw [hfault] at h
      exact .inl ⟨fault, (Except.error.inj h).symm⟩
    | none =>
      rw [hfault] at h
      cases h

theorem prefix_addNew {l : List Binding} (next? : Option Binding) : l <+: next?.elim l (addNew l) := by
  cases next? with
  | none => exact List.prefix_refl l
  | some a =>
    show l <+: addNew l a
    unfold addNew
    split
    · exact List.prefix_refl l
    · exact List.prefix_append l [a]

theorem prefix_declared (tags more : List LayoutTag) :
    m.viewsOf tags <+: m.viewsOf (tags ++ more) ∧ variablesOf tags <+: variablesOf (tags ++ more) := by
  induction more using List.reverseRecOn with
  | nil =>
    rw [List.append_nil]
    exact ⟨List.prefix_refl _, List.prefix_refl _⟩
  | append_singleton more t ih =>
    rw [← List.append_assoc, viewsOf_concat, variablesOf_concat]
    exact ⟨ih.1.trans (prefix_addNew _), ih.2.trans (prefix_addNew _)⟩

theorem readLayout_eq_ok {layout : LayoutBindings} : m.readLayout file contents = .ok layout ↔
    (Xml.read contents).tags.findSome? (m.tagError? file) = none ∧
      (Xml.read contents).fault? = none ∧
      layout = ⟨Identifier.bindingClass (Identifier.layoutName file), file,
        m.viewsOf (Xml.read contents).layoutTags, variablesOf (Xml.read contents).layoutTags⟩ := by
  rw [m.readLayout_eq]
  cases (Xml.read contents).tags.findSome? (m.tagError? file) with
  | some e => simp
  | none => cases (Xml.read contents).fault? <;> simp [eq_comm]

theorem readLayout_iff : (∃ layout, m.readLayout file contents = .ok layout) ↔
    (Xml.read contents).fault? = none ∧ ∀ tag ∈ (Xml.read contents).tags, tag.fault? = none ∧
      ∃ values, tag.values = .ok values ∧ (⟨tag.name, values⟩ : LayoutTag).lacking? = none := by
  have htags : (Xml.read contents).tags.findSome? (m.tagError? file) = none ↔
      ∀ tag ∈ (Xml.read contents).tags, tag.fault? = none ∧
        ∃ values, tag.values = .ok values ∧ (⟨tag.name, values⟩ : LayoutTag).lacking? = none := by
    rw [List.findSome?_eq_none_iff]
    exact forall₂_congr fun _ _ => tagError?_eq_none
  rw [← htags]
  simp [readLayout_eq_ok, and_comm]

/-- The first few events of an accepted layout are an accepted layout. -/
theorem readLayout_take {layout : LayoutBindings} {part : Text} {k : Nat}
    (hpart : Xml.read part = ⟨(Xml.read contents).events.take k, none⟩)
    (h : m.readLayout file contents = .ok layout) :
    ∃ cut, m.readLayout file part = .ok cut ∧
      cut.views <+: layout.views ∧ cut.variables <+: layout.variables := by
  obtain ⟨more, htags⟩ : ∃ more, (Xml.read contents).tags = (Xml.read part).tags ++ more := by
    unfold Xml.Reading.tags
    rw [hpart]
    exact ⟨((Xml.read contents).events.drop k).filterMap Xml.Event.tag?, by
      rw [← List.filterMap_append, List.take_append_drop]⟩
  obtain ⟨hfind, -, rfl⟩ := readLayout_eq_ok.1 h
  have hdeclared := m.prefix_declared (Xml.read part).layoutTags
    (more.filterMap LayoutTag.ofTag?)
  have hlayoutTags : (Xml.read contents).layoutTags =
      (Xml.read part).layoutTags ++ more.filterMap LayoutTag.ofTag? := by
    unfold Xml.Reading.layoutTags
    rw [htags, List.filterMap_append]
  rw [← hlayoutTags] at hdeclared
  rw [htags, List.findSome?_append, Option.or_eq_none_iff] at hfind
  exact ⟨_, readLayout_eq_ok.2 ⟨hfind.1, by rw [hpart], rfl⟩, hdeclared⟩

end LayoutModule

/-! ## Values documents -/

theorem visitChild_iff {tag : Xml.Tag} {name : Text} :
    (∃ result, visitChild tag name = .ok result) ↔ (tag.name = "item" → tag.ReadTo "type") := by
  unfold visitChild
  by_cases hstyleable : tag.name = "declare-styleable"
  · rw [if_pos hstyleable]
    exact iff_of_true ⟨_, rfl⟩ fun hitem => absurd (hstyleable.symm.trans hitem) (by decide)
  by_cases hattr : tag.name = "attr"
  · rw [if_neg hstyleable, if_pos hattr]
    exact iff_of_true ⟨_, rfl⟩ fun hitem => absurd (hattr.symm.trans hitem) (by decide)
  by_cases hitem : tag.name = "item"
  · rw [if_neg hstyleable, if_neg hattr, if_pos hitem, ← Xml.Tag.raw?_iff]
    cases htype : tag.raw? "type" with
    | error fault =>
      refine iff_of_false ?_ fun h => ?_
      · rintro ⟨result, h⟩
        cases h
      · obtain ⟨value?, hvalue⟩ := h hitem
        cases hvalue
    | ok type? =>
      refine iff_of_true ?_ fun _ => ⟨type?, rfl⟩
      cases type? <;> exact ⟨_, rfl⟩
  · rw [if_neg hstyleable, if_neg hattr, if_neg hitem]
    refine iff_of_true ?_ fun h => absurd h hitem
    cases valuesType? tag.name <;> exact ⟨_, rfl⟩

/-- The tags of some events, each with the elements that are open where it stands, innermost
first. -/
def Xml.tagsWithin (outer : List Xml.Tag) : List Xml.Event → List (List Xml.Tag × Xml.Tag)
  | [] => []
  | event :: rest =>
    (event.tag?.map fun tag => (outer, tag)).toList ++
      tagsWithin ((event.leaves? outer).getD []) rest

namespace ValuesWalk

variable {walk : ValuesWalk} {tag : Xml.Tag} {name : Text}

/-- A tag is read up to its name, and an item that is a child of the root up to its type. -/
def Reads (depth : Nat) (tag : Xml.Tag) : Prop :=
  tag.ReadTo "name" ∧ (tag.name = "item" → depth = 1 → tag.ReadTo "type")

/-- A tag takes the walk on: the open elements stay, and declarations are added behind those that
there are. -/
def GoesOn (walk : ValuesWalk) (tag : Xml.Tag) : Prop :=
  ∃ next scope, walk.visit tag = .ok (next, scope) ∧ next.scopes.length = walk.scopes.length ∧
    walk.declared <+: next.declared

theorem visit_child_of_root {declared : List Declaration} {root : ValuesScope}
    (hname : tag.raw? "name" = .ok (some name)) :
    (¬ Reads 1 tag ∧ ∃ fault, visit ⟨declared, [root]⟩ tag = .error fault) ∨
      (Reads 1 tag ∧ GoesOn ⟨declared, [root]⟩ tag) := by
  have hread : tag.ReadTo "name" := Xml.Tag.raw?_iff.1 ⟨_, hname⟩
  have hvisit : visit ⟨declared, [root]⟩ tag = visitChild tag name >>= fun result =>
      .ok (⟨declared ++ result.1, [root]⟩, result.2) := by
    unfold visit
    rw [hname]
    rfl
  unfold GoesOn
  rw [hvisit]
  cases hchild : visitChild tag name with
  | error fault =>
    refine .inl ⟨fun h => ?_, fault, rfl⟩
    obtain ⟨result, hresult⟩ := visitChild_iff.2 fun hitem => h.2 hitem rfl
    rw [hchild] at hresult
    cases hresult
  | ok result =>
    exact .inr ⟨⟨hread, fun hitem _ => visitChild_iff.1 ⟨result, hchild⟩ hitem⟩, _, result.2,
      rfl, rfl, List.prefix_append ..⟩

theorem goesOn_of_named (hname : tag.raw? "name" = .ok (some name))
    (hdepth : walk.scopes.length ≠ 1) : GoesOn walk tag := by
  obtain ⟨declared, scopes⟩ := walk
  unfold GoesOn visit
  rw [hname]
  match scopes with
  | [] => exact ⟨_, _, rfl, rfl, List.prefix_refl _⟩
  | [_] => exact absurd rfl hdepth
  | .other :: _ :: _ => exact ⟨_, _, rfl, rfl, List.prefix_refl _⟩
  | .styleable _ _ :: _ :: _ =>
    by_cases hattr : tag.name = "attr"
    · exact ⟨_, _, if_pos hattr, rfl, List.prefix_append ..⟩
    · exact ⟨_, _, if_neg hattr, rfl, List.prefix_refl _⟩
  | .attr :: _ :: _ =>
    by_cases hvalue : tag.name = "enum" ∨ tag.name = "flag"
    · exact ⟨_, _, if_pos hvalue, rfl, List.prefix_append ..⟩
    · exact ⟨_, _, if_neg hvalue, rfl, List.prefix_refl _⟩

/-- What can go wrong with a tag is its attribute list, as far as it is read. -/
theorem visit_cases (walk : ValuesWalk) (tag : Xml.Tag) :
    (¬ Reads walk.scopes.length tag ∧ ∃ fault, walk.visit tag = .error fault) ∨
      (Reads walk.scopes.length tag ∧ GoesOn walk tag) := by
  cases hname : tag.raw? "name" with
  | error fault =>
    refine .inl ⟨fun h => ?_, fault, ?_⟩
    · obtain ⟨value?, hvalue⟩ := Xml.Tag.raw?_iff.2 h.1
      rw [hname] at hvalue
      cases hvalue
    · unfold visit
      rw [hname]
      rfl
  | ok name? =>
    have hread : tag.ReadTo "name" := Xml.Tag.raw?_iff.1 ⟨_, hname⟩
    cases name? with
    | none =>
      refine .inr ⟨⟨hread, fun _ _ => .inl (Xml.Tag.fault?_of_raw? hname)⟩, walk, .other, ?_, rfl,
        List.prefix_refl _⟩
      unfold visit
      rw [hname]
      rfl
    | some name =>
      by_cases hdepth : walk.scopes.length = 1
      · obtain ⟨declared, scopes⟩ := walk
        obtain ⟨root, rfl⟩ := List.length_eq_one_iff.1 hdepth
        exact visit_child_of_root hname
      · exact .inr ⟨⟨hread, fun _ h => absurd h hdepth⟩, goesOn_of_named hname hdepth⟩

/-- So it is with what is done behind a tag, if that only adds declarations. -/
theorem visit_bind_cases {depth behind : Nat} (hdepth : walk.scopes.length = depth) (tag : Xml.Tag)
    {f : ValuesWalk × ValuesScope → ValuesWalk}
    (hf : ∀ next scope, next.scopes.length = depth →
      (f (next, scope)).scopes.length = behind ∧ next.declared <+: (f (next, scope)).declared) :
    (¬ Reads depth tag ∧
        ∃ fault, (walk.visit tag >>= fun result => .ok (f result)) = .error fault) ∨
      (Reads depth tag ∧ ∃ next, (walk.visit tag >>= fun result => .ok (f result)) = .ok next ∧
        next.scopes.length = behind ∧ walk.declared <+: next.declared) := by
  subst hdepth
  obtain ⟨hnot, fault, hfault⟩ | ⟨hreads, next, scope, hvisit, hscopes, hdeclared⟩ :=
    visit_cases walk tag
  · rw [hfault]
    exact .inl ⟨hnot, fault, rfl⟩
  · obtain ⟨hbehind, hadds⟩ := hf next scope hscopes
    rw [hvisit]
    exact .inr ⟨hreads, _, rfl, hbehind, hdeclared.trans hadds⟩

/-- So it is with an event. The open elements of the walk stay as many as those of the reading. -/
theorem visitEvent_cases {outer : List Xml.Tag} (hdepth : walk.scopes.length = outer.length)
    (event : Xml.Event) :
    ((∃ tag ∈ event.tag?, ¬ Reads outer.length tag) ∧
        ∃ fault, walk.visitEvent event = .error fault) ∨
      ((∀ tag ∈ event.tag?, Reads outer.length tag) ∧ ∃ next, walk.visitEvent event = .ok next ∧
        next.scopes.length = ((event.leaves? outer).getD []).length ∧
          walk.declared <+: next.declared) := by
  have hopened : ∀ tag, walk.visitEvent (.opened tag) = walk.visit tag >>= fun result =>
      .ok { result.1 with scopes := result.2 :: result.1.scopes } := fun _ => rfl
  have hempty : ∀ tag, walk.visitEvent (.empty tag) = walk.visit tag >>= fun result =>
      .ok { result.1 with declared := result.1.declared ++ result.2.close } := fun _ => rfl
  cases event with
  | opened tag =>
    simp only [hopened, Xml.Event.tag?, Option.mem_some_iff, exists_eq_left', forall_eq']
    exact visit_bind_cases hdepth tag fun next scope hscopes =>
      ⟨congrArg (· + 1) hscopes, List.prefix_refl _⟩
  | empty tag =>
    simp only [hempty, Xml.Event.tag?, Option.mem_some_iff, exists_eq_left', forall_eq']
    exact visit_bind_cases hdepth tag fun next scope hscopes =>
      ⟨hscopes, List.prefix_append ..⟩
  | closed =>
    refine .inr ⟨by rintro _ ⟨⟩, ?_⟩
    obtain ⟨declared, scopes⟩ := walk
    cases scopes with
    | nil =>
      obtain rfl := List.length_eq_zero_iff.1 hdepth.symm
      exact ⟨_, rfl, rfl, List.prefix_refl _⟩
    | cons scope scopes =>
      obtain ⟨tag, outer, rfl⟩ := List.exists_cons_of_length_eq_add_one hdepth.symm
      exact ⟨_, rfl, Nat.succ.inj hdepth, List.prefix_append ..⟩

/-- The walk fails where the attribute list of a tag is faulty as far as it is read, and otherwise
it only adds declarations. -/
theorem foldlM_visitEvent_cases {outer : List Xml.Tag}
    (hdepth : walk.scopes.length = outer.length) (events : List Xml.Event) :
    ((∃ p ∈ Xml.tagsWithin outer events, ¬ Reads p.1.length p.2) ∧
        ∃ fault, events.foldlM visitEvent walk = .error fault) ∨
      ((∀ p ∈ Xml.tagsWithin outer events, Reads p.1.length p.2) ∧
        ∃ next, events.foldlM visitEvent walk = .ok next ∧ walk.declared <+: next.declared) := by
  induction events generalizing walk outer with
  | nil => exact .inr ⟨by simp [Xml.tagsWithin], walk, rfl, List.prefix_refl _⟩
  | cons event rest ih =>
    have hmem : ∀ p, p ∈ Xml.tagsWithin outer (event :: rest) ↔
        (∃ tag ∈ event.tag?, p = (outer, tag)) ∨
          p ∈ Xml.tagsWithin ((event.leaves? outer).getD []) rest := fun p => by
      rw [Xml.tagsWithin, List.mem_append]
      cases event.tag? <;> simp
    rw [List.foldlM_cons]
    obtain ⟨⟨tag, htag, hnot⟩, fault, hfault⟩ | ⟨hreads, next, hnext, hdepth', hdeclared⟩ :=
      visitEvent_cases hdepth event
    · rw [hfault]
      exact .inl ⟨⟨_, (hmem _).2 (.inl ⟨tag, htag, rfl⟩), hnot⟩, fault, rfl⟩
    · rw [hnext]
      obtain ⟨⟨p, hp, hnot⟩, hfault⟩ | ⟨hreads', last, hlast, hdeclared'⟩ := ih hdepth'
      · exact .inl ⟨⟨p, (hmem p).2 (.inr hp), hnot⟩, hfault⟩
      · refine .inr ⟨fun p hp => ?_, last, hlast, hdeclared.trans hdeclared'⟩
        obtain ⟨tag, htag, rfl⟩ | hp := (hmem p).1 hp
        · exact hreads tag htag
        · exact hreads' p hp

end ValuesWalk

theorem readValues_eq_ok {contents : Text} {declared : List Declaration} :
    readValues contents = .ok declared ↔ (Xml.read contents).fault? = none ∧
      ∃ walk, (Xml.read contents).events.foldlM ValuesWalk.visitEvent {} = .ok walk ∧
        declared = walk.declared := by
  unfold readValues
  dsimp only
  cases (Xml.read contents).events.foldlM ValuesWalk.visitEvent {} with
  | error fault =>
    refine iff_of_false (fun h => ?_) (by simp)
    cases h
  | ok walk =>
    cases (Xml.read contents).fault? with
    | some fault => exact iff_of_false (fun h => by cases h) (by simp)
    | none =>
      show Except.ok walk.declared = _ ↔ _
      simp [eq_comm]

theorem readValues_iff {contents : Text} : (∃ declared, readValues contents = .ok declared) ↔
    (Xml.read contents).fault? = none ∧
      ∀ p ∈ Xml.tagsWithin [] (Xml.read contents).events, ValuesWalk.Reads p.1.length p.2 := by
  have hdepth : ({} : ValuesWalk).scopes.length = ([] : List Xml.Tag).length := rfl
  simp only [readValues_eq_ok]
  obtain ⟨⟨p, hp, hnot⟩, fault, hfault⟩ | ⟨hreads, walk, hwalk, -⟩ :=
    ValuesWalk.foldlM_visitEvent_cases hdepth (Xml.read contents).events
  · rw [hfault]
    refine iff_of_false (by simp) fun h => hnot (h.2 p hp)
  · rw [hwalk]
    constructor
    · rintro ⟨declared, hfault, -⟩
      exact ⟨hfault, hreads⟩
    · rintro ⟨hfault, -⟩
      exact ⟨walk.declared, hfault, walk, rfl, rfl⟩

theorem readValues_take {contents part : Text} {declared : List Declaration} {k : Nat}
    (hpart : Xml.read part = ⟨(Xml.read contents).events.take k, none⟩)
    (h : readValues contents = .ok declared) :
    ∃ cut, readValues part = .ok cut ∧ cut <+: declared := by
  obtain ⟨-, last, hlast, rfl⟩ := readValues_eq_ok.1 h
  rw [← List.take_append_drop k (Xml.read contents).events, List.foldlM_append] at hlast
  obtain ⟨walk, hwalk, hrest⟩ := exists_of_bind_eq_ok hlast
  refine ⟨walk.declared, readValues_eq_ok.2 ⟨by rw [hpart], walk, by rw [hpart, hwalk], rfl⟩, ?_⟩
  -- only the number of open elements matters, so any will do
  have hdepth : walk.scopes.length =
      (walk.scopes.map fun _ => (⟨[], [], none⟩ : Xml.Tag)).length := by simp
  obtain ⟨-, fault, hfault⟩ | ⟨-, next, hnext, hdeclared⟩ :=
    ValuesWalk.foldlM_visitEvent_cases hdepth ((Xml.read contents).events.drop k)
  · rw [hfault] at hrest
    cases hrest
  · obtain rfl : next = last := Except.ok.inj (hnext.symm.trans hrest)
    exact hdeclared

/-! ## Both kinds of documents -/

structure AcceptedByTags (m : LayoutModule) (file : Path) (contents : Text) : Prop where
  /-- As a layout, where the markup has no fault, all attribute lists are well formed, their values
  can be read, and no tag lacks an attribute that it needs. -/
  layout : (∃ layout, m.readLayout file contents = .ok layout) ↔
    (Xml.read contents).fault? = none ∧ ∀ tag ∈ (Xml.read contents).tags, tag.fault? = none ∧
      ∃ values, tag.values = .ok values ∧ (⟨tag.name, values⟩ : LayoutTag).lacking? = none
  /-- Only a tag that can be read is reported as lacking an attribute. -/
  layoutError : ∀ e, m.readLayout file contents = .error e →
    (∃ fault, e = .xml file fault) ∨ ∃ tag ∈ (Xml.read contents).tags, ∃ values name,
      tag.values = .ok values ∧ (⟨tag.name, values⟩ : LayoutTag).lacking? = some name ∧
        e = .missingAttribute name tag.name m.package file
  /-- As a values document, where the markup has no fault and attribute lists are well formed up to
  the name, and up to the type as well for items that are children of the root. -/
  values : (∃ declared, readValues contents = .ok declared) ↔
    (Xml.read contents).fault? = none ∧
      ∀ p ∈ Xml.tagsWithin [] (Xml.read contents).events, ValuesWalk.Reads p.1.length p.2
  /-- Markup without a fault closes elements in order, but it may leave any of them open. -/
  unclosed : ∃ left, Xml.unclosed? [] (Xml.read contents).events = some left
  /-- So a document can end behind any of its events: what is accepted as a whole is accepted up to
  there, with what has been declared by then. -/
  cut : ∀ k ≤ (Xml.read contents).events.length, ∃ part, part <+: contents ∧
    Xml.read part = ⟨(Xml.read contents).events.take k, none⟩ ∧
    (∀ layout, m.readLayout file contents = .ok layout → ∃ cut, m.readLayout file part = .ok cut ∧
      cut.views <+: layout.views ∧ cut.variables <+: layout.variables) ∧
    ∀ declared, readValues contents = .ok declared →
      ∃ cut, readValues part = .ok cut ∧ cut <+: declared

/-- A document is accepted for its tags, each of them by itself; that elements are closed is never
asked for. -/
theorem acceptedByTags (m : LayoutModule) (file : Path) (contents : Text) :
    AcceptedByTags m file contents where
  layout := LayoutModule.readLayout_iff
  layoutError := fun _ => LayoutModule.error_of_readLayout
  values := readValues_iff
  unclosed := Xml.exists_unclosed contents
  cut := by
    intro k hk
    obtain ⟨part, hpart, hread⟩ := Xml.exists_read_take contents k hk
    exact ⟨part, hpart, hread, fun _ => LayoutModule.readLayout_take hread,
      fun _ => readValues_take hread⟩

/-- A layout that is never closed. -/
example : ((⟨"com.app", ⟨[]⟩, {}⟩ : LayoutModule).readLayout "main.xml" "<layout>") =
    .ok ⟨"MainBinding", "main.xml", [], []⟩ := by
  decide +kernel

/-- A values document with a faulty attribute behind a name. -/
example : readValues "<resources><string name='a' b/></resources>" =
    .ok [intSymbol "string" "a"] := by
  decide +kernel

end AndroidResources
