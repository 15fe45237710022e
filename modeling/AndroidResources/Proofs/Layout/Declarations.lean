import AndroidResources.Layout.Document
import AndroidResources.Proofs.Java.TypeSpelling
import AndroidResources.Proofs.Xml.Reading
import Mathlib.Data.List.Basic

/-!
# What the tags of a layout declare

The bindings of a layout from the list of its tags, and the walk over a document that finds them.

* `LayoutTag` : a tag by its name and attributes, `layoutTags` those of a document in order;
* `LayoutTag.lacking?` : the first attribute that a tag needs and does not have;
* `importsOf`, `variablesOf`, `LayoutModule.viewsOf` : what a list of tags declares;
* `visit_walkOf` : one tag takes the walk of the tags before it to the walk with that tag;
* `readLayout_renderNodes` : a document declares what its tags declare, or the first tag that lacks
  something is reported.
-/

namespace AndroidResources

/-- A tag by its name and the values of its attributes. -/
structure LayoutTag where
  name : Text
  attributes : List (Text × Text)
  deriving DecidableEq, Repr

def LayoutTag.ofWritten (tag : Xml.WrittenTag) : LayoutTag :=
  ⟨tag.name.text, tag.values⟩

def layoutTags (document : List Xml.Node) : List LayoutTag :=
  (Xml.tagsOf document).map .ofWritten

namespace LayoutTag

def value? (t : LayoutTag) (name : Text) : Option Text :=
  t.attributes.lookup name

/-- The local name of the new id that the tag gives, which a plus sign marks. -/
def newId? (t : LayoutTag) : Option Text :=
  match t.value? "android:id" with
  | some id => if '+' ∈ id then some (Text.afterLast "@+id/" id) else none
  | none => none

/-- The first of some attributes that the tag does not have. -/
def absent? (t : LayoutTag) (names : List Text) : Option Text :=
  names.find? fun name => (t.value? name).isNone

/-- The first attribute that the tag needs and does not have. An import needs a type, a variable a
name and a type. Any other tag with a new id needs a local name in it, and an include with a new id
needs the layout. -/
def lacking? (t : LayoutTag) : Option Text :=
  if t.name = "import" then t.absent? ["type"]
  else if t.name = "variable" then t.absent? ["name", "type"]
  else
    match t.newId? with
    | none => none
    | some name =>
      if name = [] then some "android:id"
      else if t.name = "include" then t.absent? ["layout"]
      else none

/-- What an import tag makes visible, by its alias or by the last segment of the class. -/
def imported? (t : LayoutTag) : Option (Text × ClassName) :=
  if t.name = "import" then
    (t.value? "type").map fun type => (Imports.visibleName type (t.value? "alias"), ⟨type⟩)
  else none

def declared? (imports : Imports) (t : LayoutTag) : Option Binding :=
  if t.name = "variable" then
    match t.value? "name", t.value? "type" with
    | some name, some type => some ⟨name, JavaType.resolve imports type, .declared⟩
    | _, _ => none
  else none

end LayoutTag

/-- The imports that the tags make visible; the last one of a name decides. -/
def importsOf (tags : List LayoutTag) : Imports :=
  OrderedMap.ofList (tags.filterMap LayoutTag.imported?)

/-- The variables that the tags declare, each with the imports before it; a variable that is there
already does not count again. -/
def variablesOf (tags : List LayoutTag) : List Binding :=
  (tags.zipIdx.filterMap fun p => p.1.declared? (importsOf (tags.take p.2))).eraseDups

namespace LayoutModule

def view? (m : LayoutModule) (t : LayoutTag) : Option Binding :=
  if t.name = "import" ∨ t.name = "variable" then none
  else
    match t.newId? with
    | none => none
    | some name =>
      if t.name = "include" then
        (t.value? "layout").map fun target =>
          let layout := Text.afterLast "@layout/" target
          let found := m.scopes.resolveInclude m.package m.config.packageSuffix layout
          ⟨name, found.type, .included layout found.isGuessed⟩
      else some ⟨name, m.viewType t.name, .view⟩

/-- The views and includes that the tags declare; one that is there already does not count
again. -/
def viewsOf (m : LayoutModule) (tags : List LayoutTag) : List Binding :=
  (tags.filterMap m.view?).eraseDups

def lackingError? (m : LayoutModule) (file : Path) (t : LayoutTag) : Option BuildError :=
  t.lacking?.map fun name => .missingAttribute name t.name m.package file

def walkOf (m : LayoutModule) (tags : List LayoutTag) : LayoutWalk :=
  ⟨importsOf tags, m.viewsOf tags, variablesOf tags⟩

end LayoutModule

/-! ## One more tag in a list -/

/-- What is found next counts unless it has been found before. -/
theorem eraseDups_append_toList {α : Type} [DecidableEq α] (l : List α) (next? : Option α) :
    (l ++ next?.toList).eraseDups = next?.elim l.eraseDups (addNew l.eraseDups) := by
  cases next? with
  | none => simp
  | some a =>
    have hone : [a].eraseDups = [a] := by simp [List.eraseDups_cons]
    by_cases h : a ∈ l
    · simp [List.eraseDups_append, addNew, h, List.cons_removeAll]
    · simp [List.eraseDups_append, addNew, h, List.cons_removeAll, hone]

theorem filterMap_singleton_toList {α β : Type} (f : α → Option β) (a : α) :
    [a].filterMap f = (f a).toList := by
  cases h : f a with
  | none => simp [h]
  | some b => simp [h]

theorem importsOf_concat (tags : List LayoutTag) (t : LayoutTag) :
    importsOf (tags ++ [t]) =
      t.imported?.elim (importsOf tags) fun entry => (importsOf tags).insert entry.1 entry.2 := by
  unfold importsOf
  rw [List.filterMap_append, filterMap_singleton_toList]
  cases t.imported? with
  | none => simp
  | some entry => simp [OrderedMap.ofList]

theorem variablesOf_concat (tags : List LayoutTag) (t : LayoutTag) :
    variablesOf (tags ++ [t]) =
      (t.declared? (importsOf tags)).elim (variablesOf tags) (addNew (variablesOf tags)) := by
  have hfront : tags.zipIdx.filterMap (fun p => p.1.declared? (importsOf ((tags ++ [t]).take p.2))) =
      tags.zipIdx.filterMap fun p => p.1.declared? (importsOf (tags.take p.2)) := by
    apply List.filterMap_congr
    intro p hp
    have hlt := List.snd_lt_of_mem_zipIdx hp
    rw [List.take_append_of_le_length]
    omega
  unfold variablesOf
  rw [List.zipIdx_append, List.filterMap_append, hfront, List.zipIdx_singleton,
    filterMap_singleton_toList, eraseDups_append_toList]
  simp

theorem LayoutModule.viewsOf_concat (m : LayoutModule) (tags : List LayoutTag) (t : LayoutTag) :
    m.viewsOf (tags ++ [t]) = (m.view? t).elim (m.viewsOf tags) (addNew (m.viewsOf tags)) := by
  unfold LayoutModule.viewsOf
  rw [List.filterMap_append, filterMap_singleton_toList, eraseDups_append_toList]

/-! ## Attributes that a tag needs -/

namespace LayoutTag

variable (t : LayoutTag)

theorem require_of_some {name value : Text} (h : t.value? name = some value) (names : List Text) :
    require t.name t.attributes name = .ok value ∧ t.absent? (name :: names) = t.absent? names := by
  refine ⟨?_, ?_⟩
  · unfold require
    rw [show t.attributes.lookup name = some value from h]
  · unfold absent?
    rw [List.find?_cons_of_neg]
    simp [h]

theorem require_of_none {name : Text} (h : t.value? name = none) (names : List Text) :
    require t.name t.attributes name = .error ⟨name, t.name⟩ ∧
      t.absent? (name :: names) = some name := by
  refine ⟨?_, ?_⟩
  · unfold require
    rw [show t.attributes.lookup name = none from h]
  · unfold absent?
    rw [List.find?_cons_of_pos]
    simp [h]

end LayoutTag

/-! ## One more tag in the walk -/

namespace LayoutModule

variable (m : LayoutModule)

/-- A tag that is neither import nor variable gives its binding, or lacks something. -/
theorem binding?_eq (t : LayoutTag) (himport : t.name ≠ "import") (hvariable : t.name ≠ "variable") :
    m.binding? t.name t.attributes =
      match t.lacking? with
      | some name => .error ⟨name, t.name⟩
      | none => .ok (m.view? t) := by
  unfold binding? view? LayoutTag.lacking? LayoutTag.newId? LayoutTag.value?
  rw [if_neg (not_or.2 ⟨himport, hvariable⟩), if_neg himport, if_neg hvariable]
  cases t.attributes.lookup "android:id".toList with
  | none => rfl
  | some id =>
    by_cases hplus : '+' ∈ id
    · simp only [if_pos hplus, if_neg (not_not.2 hplus)]
      by_cases hname : Text.afterLast "@+id/" id = []
      · simp only [if_pos hname]
        rfl
      · simp only [if_neg hname]
        by_cases hinclude : t.name = "include"
        · simp only [if_pos hinclude]
          cases hlayout : t.value? "layout" with
          | none =>
            obtain ⟨hrequire, habsent⟩ := t.require_of_none hlayout []
            rw [hrequire, habsent]
            rfl
          | some target =>
            obtain ⟨hrequire, habsent⟩ := t.require_of_some hlayout []
            rw [hrequire, habsent, show t.attributes.lookup "layout".toList = some target from hlayout]
            rfl
        · simp only [if_neg hinclude]
          rfl
    · simp only [if_neg hplus, if_pos hplus]
      rfl

theorem visit_import {t : LayoutTag} (h : t.name = "import") (tags : List LayoutTag) :
    m.visit (m.walkOf tags) t.name t.attributes =
      match t.lacking? with
      | some name => .error ⟨name, t.name⟩
      | none => .ok (m.walkOf (tags ++ [t])) := by
  have hview : m.view? t = none := if_pos (.inl h)
  have hdeclared : ∀ imports, t.declared? imports = none := fun imports =>
    if_neg fun h' => absurd (h.symm.trans h') (by decide)
  have himported : t.imported? = (t.value? "type").map fun type =>
      (Imports.visibleName type (t.value? "alias"), ⟨type⟩) := if_pos h
  have hlacking : t.lacking? = t.absent? ["type"] := if_pos h
  unfold visit
  rw [if_pos h, hlacking]
  cases htype : t.value? "type" with
  | none =>
    obtain ⟨hrequire, habsent⟩ := t.require_of_none htype []
    rw [hrequire, habsent]
    rfl
  | some type =>
    obtain ⟨hrequire, habsent⟩ := t.require_of_some htype []
    rw [hrequire, habsent]
    unfold walkOf
    rw [importsOf_concat, viewsOf_concat, variablesOf_concat, hview, hdeclared, himported, htype]
    rfl

theorem visit_variable {t : LayoutTag} (h : t.name = "variable") (tags : List LayoutTag) :
    m.visit (m.walkOf tags) t.name t.attributes =
      match t.lacking? with
      | some name => .error ⟨name, t.name⟩
      | none => .ok (m.walkOf (tags ++ [t])) := by
  have himport : t.name ≠ "import" := fun h' => absurd (h.symm.trans h') (by decide)
  have hview : m.view? t = none := if_pos (.inr h)
  have himported : t.imported? = none := if_neg himport
  have hlacking : t.lacking? = t.absent? ["name", "type"] := by
    unfold LayoutTag.lacking?
    rw [if_neg himport, if_pos h]
  unfold visit
  rw [if_neg himport, if_pos h, hlacking]
  cases hname : t.value? "name" with
  | none =>
    obtain ⟨hrequire, habsent⟩ := t.require_of_none hname ["type"]
    rw [hrequire, habsent]
    rfl
  | some name =>
    obtain ⟨hrequire, habsent⟩ := t.require_of_some hname ["type"]
    rw [hrequire, habsent]
    cases htype : t.value? "type" with
    | none =>
      obtain ⟨hrequire', habsent'⟩ := t.require_of_none htype []
      rw [habsent']
      show (require t.name t.attributes "type" >>= _) = _
      rw [hrequire']
      rfl
    | some type =>
      obtain ⟨hrequire', habsent'⟩ := t.require_of_some htype []
      have hdeclared : t.declared? (importsOf tags) =
          some ⟨name, JavaType.resolve (importsOf tags) type, .declared⟩ := by
        unfold LayoutTag.declared?
        rw [if_pos h, hname, htype]
      rw [habsent']
      show (require t.name t.attributes "type" >>= _) = _
      rw [hrequire']
      unfold walkOf
      rw [importsOf_concat, viewsOf_concat, variablesOf_concat, hview, hdeclared, himported]
      rfl

/-- One tag takes the walk of the tags before it to the walk with that tag, or is reported. -/
theorem visit_walkOf (tags : List LayoutTag) (t : LayoutTag) :
    m.visit (m.walkOf tags) t.name t.attributes =
      match t.lacking? with
      | some name => .error ⟨name, t.name⟩
      | none => .ok (m.walkOf (tags ++ [t])) := by
  by_cases himport : t.name = "import"
  · exact m.visit_import himport tags
  by_cases hvariable : t.name = "variable"
  · exact m.visit_variable hvariable tags
  have himported : t.imported? = none := if_neg himport
  have hdeclared : ∀ imports, t.declared? imports = none := fun imports => if_neg hvariable
  unfold visit
  rw [if_neg himport, if_neg hvariable, m.binding?_eq t himport hvariable]
  cases t.lacking? with
  | some name => rfl
  | none =>
    unfold walkOf
    rw [importsOf_concat, viewsOf_concat, variablesOf_concat, hdeclared, himported]
    cases m.view? t <;> rfl

/-! ## The walk over a document -/

def visitTag (file : Path) (walk : LayoutWalk) (t : LayoutTag) : Except BuildError LayoutWalk :=
  (m.visit walk t.name t.attributes).mapError fun missing =>
    .missingAttribute missing.name missing.tag m.package file

/-- Values with short numbers can be read, so that only the tag itself counts. -/
theorem visitEvent_raw {tag : Xml.WrittenTag} (h : tag.Short) (file : Path) (walk : LayoutWalk) :
    m.visitEvent file walk (.opened tag.raw) = m.visitTag file walk (.ofWritten tag) ∧
      m.visitEvent file walk (.empty tag.raw) = m.visitTag file walk (.ofWritten tag) := by
  refine ⟨?_, ?_⟩
  · unfold visitEvent
    simp only [Xml.values_raw h]
    rfl
  · unfold visitEvent
    simp only [Xml.values_raw h]
    rfl

mutual

theorem foldlM_events (file : Path) :
    ∀ (node : Xml.Node), (∀ tag ∈ node.tags, tag.Short) → ∀ walk : LayoutWalk,
      node.events.foldlM (m.visitEvent file) walk =
        (node.tags.map LayoutTag.ofWritten).foldlM (m.visitTag file) walk
  | .text _ _, _, _ => rfl
  | .comment _ _, _, _ => rfl
  | .cdata _ _, _, _ => rfl
  | .instruction _ _ _, _, _ => rfl
  | .empty tag, hshort, walk => by
    have htag : tag.Short := hshort tag (by simp [Xml.Node.tags])
    simp only [Xml.Node.events, Xml.Node.tags, List.map_cons, List.map_nil, List.foldlM_cons]
    rw [(m.visitEvent_raw htag file walk).2]
    rfl
  | .element tag children _ _, hshort, walk => by
    have htag : tag.Short := hshort tag (by simp [Xml.Node.tags])
    have hchildren : ∀ child ∈ Xml.tagsOf children, child.Short := fun child hchild =>
      hshort child (by simp [Xml.Node.tags, hchild])
    simp only [Xml.Node.events, Xml.Node.tags, List.map_cons, List.foldlM_cons]
    rw [(m.visitEvent_raw htag file walk).1]
    congr 1
    funext walk'
    rw [List.foldlM_append, foldlM_eventsOf file children hchildren walk']
    -- an end tag changes nothing
    exact bind_pure _

theorem foldlM_eventsOf (file : Path) :
    ∀ (nodes : List Xml.Node), (∀ tag ∈ Xml.tagsOf nodes, tag.Short) → ∀ walk : LayoutWalk,
      (Xml.eventsOf nodes).foldlM (m.visitEvent file) walk =
        ((Xml.tagsOf nodes).map LayoutTag.ofWritten).foldlM (m.visitTag file) walk
  | [], _, _ => rfl
  | node :: rest, hshort, walk => by
    have hnode : ∀ tag ∈ node.tags, tag.Short := fun tag htag =>
      hshort tag (by simp [Xml.tagsOf, htag])
    have hrest : ∀ tag ∈ Xml.tagsOf rest, tag.Short := fun tag htag =>
      hshort tag (by simp [Xml.tagsOf, htag])
    simp only [Xml.eventsOf, Xml.tagsOf, List.map_append, List.foldlM_append]
    rw [foldlM_events file node hnode walk]
    congr 1
    funext walk'
    exact foldlM_eventsOf file rest hrest walk'

end

theorem visitTag_walkOf (file : Path) (seen : List LayoutTag) (t : LayoutTag) :
    m.visitTag file (m.walkOf seen) t =
      match m.lackingError? file t with
      | some error => .error error
      | none => .ok (m.walkOf (seen ++ [t])) := by
  unfold visitTag lackingError?
  rw [m.visit_walkOf seen t]
  cases t.lacking? <;> rfl

/-- The tags lead to the walk that they declare, or the first one that lacks something is
reported. -/
theorem foldlM_visitTag (file : Path) (tags : List LayoutTag) (seen : List LayoutTag) :
    tags.foldlM (m.visitTag file) (m.walkOf seen) =
      match tags.findSome? (m.lackingError? file) with
      | some error => .error error
      | none => .ok (m.walkOf (seen ++ tags)) := by
  -- the walk that has been reached is that of the tags seen so far
  induction tags generalizing seen with
  | nil =>
    rw [List.append_nil]
    rfl
  | cons t rest ih =>
    rw [List.foldlM_cons, m.visitTag_walkOf, List.findSome?_cons]
    cases m.lackingError? file t with
    | some error => rfl
    | none =>
      rw [List.append_cons seen t rest, ← ih (seen ++ [t])]
      rfl

/-- What a document declares: what its tags declare, or the error for the first tag that lacks an
attribute. -/
def declarationsOf (file : Path) (tags : List LayoutTag) : Except BuildError LayoutBindings :=
  match tags.findSome? (m.lackingError? file) with
  | some error => .error error
  | none =>
    .ok ⟨Identifier.bindingClass (Identifier.layoutName file), file, m.viewsOf tags,
      variablesOf tags⟩

theorem readLayout_declarationsOf {document : List Xml.Node} (h : Xml.Readable document)
    (file : Path) :
    m.readLayout file (Xml.renderNodes document) =
      m.declarationsOf file (layoutTags document) := by
  unfold readLayout declarationsOf
  rw [Xml.read_renderNodes h.closed]
  show ((Xml.eventsOf document).foldlM (m.visitEvent file) (m.walkOf []) >>= _) = _
  rw [m.foldlM_eventsOf file document h.short]
  show ((layoutTags document).foldlM (m.visitTag file) (m.walkOf []) >>= _) = _
  rw [m.foldlM_visitTag file (layoutTags document) [], List.nil_append]
  cases (layoutTags document).findSome? (m.lackingError? file) <;> rfl

theorem get?_importsOf (tags : List LayoutTag) (name : Text) :
    (importsOf tags).get? name =
      ((tags.filterMap LayoutTag.imported?).reverse.find? fun entry => entry.1 = name).map (·.2) :=
  OrderedMap.get?_ofList _ name

theorem viewsOf_filter (tags : List LayoutTag) :
    m.viewsOf (tags.filter fun t => ¬ (t.name = "import" ∨ t.name = "variable")) =
      m.viewsOf tags := by
  unfold viewsOf
  congr 1
  induction tags with
  | nil => rfl
  | cons t rest ih =>
    by_cases h : t.name = "import" ∨ t.name = "variable"
    · have hview : m.view? t = none := if_pos h
      rw [List.filter_cons_of_neg (by simp only [h]; decide), List.filterMap_cons_none hview, ih]
    · rw [List.filter_cons_of_pos (by simp only [h]; decide), List.filterMap_cons,
        List.filterMap_cons, ih]

/-- **What a layout declares.** The document declares what its tags declare, each variable with the
imports before it, or the first tag that lacks an attribute is reported. Nothing but the tags
counts, and for the views nothing but the tags that are neither import nor variable. -/
theorem readLayout_renderNodes {document : List Xml.Node} (h : Xml.Readable document)
    (file : Path) :
    (m.readLayout file (Xml.renderNodes document) =
      match (layoutTags document).findSome? (m.lackingError? file) with
      | some error => .error error
      | none =>
        .ok ⟨Identifier.bindingClass (Identifier.layoutName file), file,
          m.viewsOf (layoutTags document), variablesOf (layoutTags document)⟩) ∧
    ((∃ name tag package path, m.readLayout file (Xml.renderNodes document) =
        .error (.missingAttribute name tag package path)) ↔
      ∃ t ∈ layoutTags document, t.lacking? ≠ none) ∧
    m.viewsOf ((layoutTags document).filter fun t => ¬ (t.name = "import" ∨ t.name = "variable")) =
      m.viewsOf (layoutTags document) ∧
    (∀ k name, (importsOf ((layoutTags document).take k)).get? name =
      ((((layoutTags document).take k).filterMap LayoutTag.imported?).reverse.find? fun entry =>
        entry.1 = name).map (·.2)) ∧
    ∀ other, Xml.Readable other → layoutTags other = layoutTags document →
      m.readLayout file (Xml.renderNodes other) = m.readLayout file (Xml.renderNodes document) := by
  have hread := m.readLayout_declarationsOf h file
  refine ⟨hread, ?_, m.viewsOf_filter _, fun k name => get?_importsOf _ name, ?_⟩
  · rw [hread]
    unfold declarationsOf
    constructor
    · rintro ⟨name, tag, package, path, herror⟩
      cases hfind : (layoutTags document).findSome? (m.lackingError? file) with
      | none =>
        rw [hfind] at herror
        cases herror
      | some error =>
        obtain ⟨t, ht, hlacking⟩ := List.exists_of_findSome?_eq_some hfind
        refine ⟨t, ht, fun hnone => ?_⟩
        unfold lackingError? at hlacking
        rw [hnone] at hlacking
        cases hlacking
    · rintro ⟨t, ht, hlacking⟩
      cases hfind : (layoutTags document).findSome? (m.lackingError? file) with
      | none =>
        have hnone := List.findSome?_eq_none_iff.1 hfind t ht
        exact absurd (Option.map_eq_none_iff.1 hnone) hlacking
      | some error =>
        obtain ⟨t', -, hlacking'⟩ := List.exists_of_findSome?_eq_some hfind
        obtain ⟨name, -, rfl⟩ := Option.map_eq_some_iff.1 hlacking'
        exact ⟨name, t'.name, m.package, file, rfl⟩
  · intro other hother htags
    rw [hread, m.readLayout_declarationsOf hother file, htags]

/-! ## Three documents -/

def writtenAttribute (name : Xml.Name) (value : List Xml.ValuePart)
    (h : '"' ∉ value.flatMap Xml.ValuePart.render) : Xml.WrittenAttribute :=
  ⟨[' '], name, [], [], .double, value, by decide, by decide, h⟩

def plainValue (s : Text) (h : '&' ∉ s) : List Xml.ValuePart :=
  s.attach.map fun c => .plain c.1 fun hc => h (hc ▸ c.2)

def writtenTag (name : Xml.Name) (attributes : List Xml.WrittenAttribute)
    (h : (attributes.map fun a => a.name.text).Nodup) : Xml.WrittenTag :=
  ⟨name, attributes, [], rfl, h⟩

def layoutTag : Xml.WrittenTag :=
  writtenTag ⟨"layout", by decide, Text.forall_of_all (by decide)⟩ [] .nil

def layoutAround (children : List Xml.Node) : List Xml.Node :=
  [.element layoutTag children [] rfl]

/-- A variable behind the import of its type, an id in a comment, and a view with an id. -/
def variableAndView : List Xml.Node :=
  layoutAround [
    .empty (writtenTag ⟨"import", by decide, Text.forall_of_all (by decide)⟩
      [writtenAttribute ⟨"type", by decide, Text.forall_of_all (by decide)⟩ (plainValue "a.B" (by decide)) (by decide)]
      (by decide)),
    .comment "<View android:id='@+id/old'>"
      (fun h => absurd (h.subset (show '-' ∈ "--".toList by decide)) (by decide)),
    .element (writtenTag ⟨"variable", by decide, Text.forall_of_all (by decide)⟩
      [writtenAttribute ⟨"type", by decide, Text.forall_of_all (by decide)⟩ (plainValue "B" (by decide)) (by decide),
        writtenAttribute ⟨"name", by decide, Text.forall_of_all (by decide)⟩ (plainValue "x" (by decide)) (by decide)]
      (by decide)) [.text "\n" (by decide)] [] rfl,
    .empty (writtenTag ⟨"View", by decide, Text.forall_of_all (by decide)⟩
      [writtenAttribute ⟨"android:id", by decide, Text.forall_of_all (by decide)⟩ (plainValue "@+id/v" (by decide))
        (by decide)] (by decide))]

/-- The document is readable and declares the variable and the view. -/
theorem readLayout_variableAndView :
    let m : LayoutModule := ⟨"com.app", ⟨[]⟩, {}⟩
    let file : Path := "main.xml"
    Xml.Readable variableAndView ∧
      m.readLayout file (Xml.renderNodes variableAndView) =
        .ok ⟨"MainBinding", file, [⟨"v", .ofClass "android.view.View", .view⟩],
          [⟨"x", .ofClass "a.B", .declared⟩]⟩ := by
  intro m file
  have h : Xml.Readable variableAndView :=
    ⟨⟨⟨trivial, trivial, ⟨trivial, trivial⟩, trivial, trivial⟩, trivial⟩, by decide⟩
  have htags : layoutTags variableAndView =
      [⟨"layout", []⟩, ⟨"import", [("type", "a.B")]⟩,
        ⟨"variable", [("type", "B"), ("name", "x")]⟩, ⟨"View", [("android:id", "@+id/v")]⟩] := by
    decide
  have hresolve : JavaType.resolve (.add .empty "a.B" none) "B" = .ofClass "a.B" :=
    (JavaType.resolve_word _ ⟨"B", by decide, Text.forall_of_all (by decide)⟩).trans (by decide)
  have hvariables : variablesOf (layoutTags variableAndView) =
      [⟨"x", JavaType.resolve (.add .empty "a.B" none) "B", .declared⟩] := by
    rw [htags]
    rfl
  refine ⟨h, (m.readLayout_renderNodes h file).1.trans ?_⟩
  rw [hvariables, hresolve, htags]
  decide

/-- A processing instruction with `>` in it, in front of a variable that lacks its name. -/
def markInInstruction : List Xml.Node :=
  layoutAround [.instruction "note a>b" (by decide)
      (fun h => absurd (h.subset (show '?' ∈ "?>".toList by decide)) (by decide)),
    .empty (writtenTag ⟨"variable", by decide, Text.forall_of_all (by decide)⟩ [] .nil)]

/-- A variable that lacks its type, whose name is a reference with eight digits. -/
def longNamed : Xml.WrittenTag :=
  writtenTag ⟨"variable", by decide, Text.forall_of_all (by decide)⟩
    [writtenAttribute ⟨"name", by decide, Text.forall_of_all (by decide)⟩
      [.reference "#00000065" 'A' (.decimal (by decide) (by decide) rfl)] (by decide)] (by decide)

def longReference : List Xml.Node :=
  layoutAround [.empty longNamed]

/-- The two documents are not readable, and neither gives the error for the missing attribute. -/
theorem readLayout_not_readable :
    let m : LayoutModule := ⟨"com.app", ⟨[]⟩, {}⟩
    let file : Path := "main.xml"
    ((∃ t ∈ layoutTags markInInstruction, t.lacking? ≠ none) ∧
      m.readLayout file (Xml.renderNodes markInInstruction) =
        .error (.xml file (.unexpectedEnd .declaration))) ∧
    (∃ t ∈ layoutTags longReference, t.lacking? ≠ none) ∧
      m.readLayout file (Xml.renderNodes longReference) =
        .error (.xml file (.badEntity .decimalTooLong)) := by
  intro m file
  have htag : (⟨"variable", []⟩ : LayoutTag) ∈ layoutTags markInInstruction := by decide
  have htag' : (⟨"variable", [("name", "A")]⟩ : LayoutTag) ∈ layoutTags longReference := by decide
  refine ⟨⟨⟨_, htag, by decide⟩, ?_⟩, ⟨_, htag', by decide⟩, ?_⟩
  · have hread : Xml.read (Xml.renderNodes markInInstruction) =
        ⟨[.opened layoutTag.raw], some (.unexpectedEnd .declaration)⟩ := by
      rw [Xml.read_eq_readFrom]
      refine (Xml.readFrom_opened [] layoutTag _).trans ?_
      exact congrArg (Xml.Reading.cons _) (Xml.readFrom_markup _ _)
    unfold readLayout
    rw [hread]
    rfl
  · have hread : Xml.read (Xml.renderNodes longReference) = ⟨Xml.eventsOf longReference, none⟩ := by
      apply Xml.read_renderNodes
      exact ⟨⟨trivial, trivial⟩, trivial⟩
    have hunescape : Xml.unescape "&#00000065;" = .error .decimalTooLong := by
      unfold Xml.unescape
      rw [Xml.unescapeFrom]
      rfl
    have hvalues : longNamed.raw.values = .error (.badEntity .decimalTooLong) := by
      have hattributes : longNamed.raw.attributes = [⟨"name", "&#00000065;"⟩] := rfl
      unfold Xml.Tag.values
      rw [hattributes, List.mapM_cons]
      simp only [hunescape]
      rfl
    have hvisit : ∀ walk, m.visitEvent file walk (.empty longNamed.raw) =
        .error (.xml file (.badEntity .decimalTooLong)) := fun walk => by
      unfold visitEvent
      simp only [hvalues]
      rfl
    have hevents : Xml.eventsOf longReference =
        [.opened layoutTag.raw, .empty longNamed.raw, .closed] := rfl
    unfold readLayout
    rw [hread]
    simp only [hevents, List.foldlM_cons, hvisit]
    rfl

end LayoutModule

end AndroidResources
