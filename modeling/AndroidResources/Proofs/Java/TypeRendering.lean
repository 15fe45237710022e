import AndroidResources.Proofs.Java.TypeSpelling

/-!
# Types rendered and read back

Resolving an expression and rendering the type, and rendering a type and resolving the expression.

* `intercalate_splitParameters` : the pieces of an argument list with their commas are the list;
* `Applied` : an expression that is read as a generic application, with what follows the arguments;
* `LosesTail` : something follows the arguments of a generic application in an expression;
* `compact_render_resolve` : but for that an expression is rendered as it stands;
* `Spellable` : a type that a text can stand for, and `Spellable.exists_spells` its spelling;
* `resolve_render` : its rendering denotes the type itself, unless an import has a keyword's name.
-/

namespace AndroidResources

/-! ## An argument list and its pieces -/

theorem splitParametersAt_ne_nil (depth : Int) (s : Text) : splitParametersAt depth s ≠ [] := by
  induction s generalizing depth with
  | nil => simp [splitParametersAt]
  | cons c rest ih =>
    rw [splitParametersAt]
    split
    · simp
    · split
      · exact ih depth
      · obtain ⟨piece, pieces, hpieces⟩ :=
          List.exists_cons_of_ne_nil (ih (depth + bracketStep c))
        rw [hpieces]
        simp [consPiece]

theorem intercalate_consPiece {sep : Text} (c : Char) {pieces : List Text} (h : pieces ≠ []) :
    sep.intercalate (consPiece c pieces) = c :: sep.intercalate pieces := by
  obtain ⟨piece, others, rfl⟩ := List.exists_cons_of_ne_nil h
  unfold consPiece
  cases others with
  | nil => rw [List.intercalate_singleton, List.intercalate_singleton]
  | cons other others =>
    rw [List.intercalate_cons_cons, List.intercalate_cons_cons, List.cons_append, List.cons_append]

theorem intercalate_splitParametersAt (depth : Int) (s : Text) :
    List.intercalate [','] (splitParametersAt depth s) = Text.compact s := by
  induction s generalizing depth with
  | nil => rfl
  | cons c rest ih =>
    rw [splitParametersAt]
    split
    · next hcut =>
      obtain ⟨piece, pieces, hpieces⟩ :=
        List.exists_cons_of_ne_nil (splitParametersAt_ne_nil depth rest)
      have hcomma : Text.compact (c :: rest) = ',' :: Text.compact rest := by
        rw [hcut.1]
        rfl
      rw [hcomma, ← ih depth, hpieces, List.intercalate_cons_cons]
      rfl
    · split
      · next hblank => rw [ih, Text.compact, Text.compact, List.filter_cons_of_neg (by simp [hblank])]
      · next hblank =>
        rw [intercalate_consPiece c (splitParametersAt_ne_nil _ rest), ih, Text.compact, Text.compact,
          List.filter_cons_of_pos (by simp [hblank])]

theorem intercalate_splitParameters (s : Text) :
    List.intercalate [','] (splitParameters s) = Text.compact s :=
  intercalate_splitParametersAt 0 s

/-- Parts that have lost characters do not make up for each other. -/
theorem append_eq_append_of_sublist {α : Type} {a a' b b' : List α} (ha : a'.Sublist a)
    (hb : b'.Sublist b) : a' ++ b' = a ++ b ↔ a' = a ∧ b' = b := by
  constructor
  · intro h
    have hlength := congrArg List.length h
    have hfront := ha.length_le
    have hback := hb.length_le
    rw [List.length_append, List.length_append] at hlength
    exact List.append_inj h (by omega)
  · rintro ⟨rfl, rfl⟩
    rfl

/-- Shorter pieces make a shorter list, and the same list only if all are as long. -/
theorem intercalate_map_sublist (sep : Text) {f : Text → Text} {pieces : List Text}
    (h : ∀ piece ∈ pieces, (f piece).Sublist piece) :
    (sep.intercalate (pieces.map f)).Sublist (sep.intercalate pieces) ∧
      (sep.intercalate (pieces.map f) = sep.intercalate pieces ↔
        ∀ piece ∈ pieces, f piece = piece) := by
  induction pieces with
  | nil => simp
  | cons piece others ih =>
    obtain ⟨hsub, heq⟩ := ih fun p hp => h p (List.mem_cons_of_mem _ hp)
    have hpiece := h piece (List.mem_cons_self ..)
    cases others with
    | nil => simpa using hpiece
    | cons other others =>
      rw [List.map_cons, List.map_cons, List.intercalate_cons_cons, List.intercalate_cons_cons,
        ← List.map_cons, List.forall_mem_cons, ← heq]
      refine ⟨(hpiece.append (.refl sep)).append hsub, ?_⟩
      rw [append_eq_append_of_sublist (hpiece.append (.refl sep)) hsub, List.append_left_inj]

/-! ## Blanks -/

theorem compact_cons {c : Char} (hc : Text.isBlank c = false) (s : Text) :
    Text.compact (c :: s) = c :: Text.compact s := by
  unfold Text.compact
  exact List.filter_cons_of_pos (by simp [hc])

theorem compact_eq_nil_iff {s : Text} : Text.compact s = [] ↔ Text.allBlank s := by
  refine ⟨fun h => ?_, compact_eq_nil⟩
  unfold Text.compact at h
  rw [List.filter_eq_nil_iff] at h
  exact List.all_eq_true.2 fun c hc => by simpa using h c hc

theorem compact_dropWhile (s : Text) : Text.compact (s.dropWhile Text.isBlank) = Text.compact s := by
  have hfront : Text.allBlank (s.takeWhile Text.isBlank) := List.all_takeWhile
  rw [← List.takeWhile_append_dropWhile (p := Text.isBlank) (l := s), compact_append,
    compact_eq_nil hfront, List.nil_append, List.takeWhile_append_dropWhile]

theorem compact_reverse (s : Text) : Text.compact s.reverse = (Text.compact s).reverse := by
  unfold Text.compact
  exact List.filter_reverse

theorem compact_trim (s : Text) : Text.compact (Text.trim s) = Text.compact s := by
  unfold Text.trim Text.trimEnd
  rw [compact_reverse, compact_dropWhile, compact_reverse, List.reverse_reverse, compact_dropWhile]

theorem trim_sublist (s : Text) : (Text.trim s).Sublist s := by
  have hend : (Text.trim s).Sublist (s.dropWhile Text.isBlank) := by
    have h := (List.dropWhile_sublist Text.isBlank
      (l := (s.dropWhile Text.isBlank).reverse)).reverse
    rwa [List.reverse_reverse] at h
  exact hend.trans (List.dropWhile_sublist Text.isBlank)

theorem not_blank_of_mem_splitParametersAt {depth : Int} {s piece : Text}
    (h : piece ∈ splitParametersAt depth s) : ∀ c ∈ piece, Text.isBlank c = false := by
  induction s generalizing depth piece with
  | nil =>
    rw [splitParametersAt, List.mem_singleton] at h
    simp [h]
  | cons c rest ih =>
    rw [splitParametersAt] at h
    split at h
    · rcases List.mem_cons.1 h with rfl | h
      · simp
      · exact ih h
    · split at h
      · exact ih h
      · next hblank =>
        obtain ⟨first, others, hpieces⟩ :=
          List.exists_cons_of_ne_nil (splitParametersAt_ne_nil (depth + bracketStep c) rest)
        rw [hpieces] at h
        rcases List.mem_cons.1 h with rfl | h
        · rw [List.forall_mem_cons]
          exact ⟨by simpa using hblank, ih (hpieces ▸ List.mem_cons_self ..)⟩
        · exact ih (hpieces ▸ List.mem_cons_of_mem _ h)

theorem compact_of_mem_splitParameters {s piece : Text} (h : piece ∈ splitParameters s) :
    Text.compact piece = piece := by
  unfold Text.compact
  rw [List.filter_eq_self]
  intro c hc
  simp [not_blank_of_mem_splitParametersAt h c hc]

/-! ## Generic applications -/

/-- The text is read as a generic application: a raw name up to the first `<`, parameters up to the
last `>`, and a tail behind it. It is not an array. -/
structure Applied (s raw parameters tail : Text) : Prop where
  eq : s = raw ++ '<' :: parameters ++ '>' :: tail
  raw_ne_nil : raw ≠ []
  first : '<' ∉ raw
  last : '>' ∉ tail
  not_array : ¬ "[]".toList <:+ s

/-- Something other than blanks follows the arguments of a generic application: that of the
expression itself, of the component of an array, or of an argument. -/
inductive LosesTail : Text → Prop
  | tail {s raw parameters tail : Text} (h : Applied s raw parameters tail)
      (htail : ¬ Text.allBlank tail) : LosesTail s
  | component {s : Text} (hs : LosesTail (Text.trim s)) : LosesTail (s ++ "[]".toList)
  | argument {s raw parameters tail piece : Text} (h : Applied s raw parameters tail)
      (hpiece : piece ∈ splitParameters parameters) (hs : LosesTail piece) : LosesTail s

theorem arrayComponent?_eq_none_iff {s : Text} :
    arrayComponent? s = none ↔ ¬ "[]".toList <:+ s := by
  constructor
  · rintro h ⟨component, rfl⟩
    rw [arrayComponent?_append] at h
    cases h
  · intro h
    cases hs : arrayComponent? s with
    | none => rfl
    | some component => exact absurd ⟨component, (eq_append_of_arrayComponent? hs).symm⟩ h

namespace Applied

variable {s raw parameters tail : Text}

theorem genericParts?_eq (h : Applied s raw parameters tail) :
    genericParts? s = some (raw, parameters) := by
  unfold genericParts?
  rw [h.eq, List.append_assoc, List.cons_append, Text.splitFirst?_append h.first]
  show (if raw = [] then none else _) = _
  rw [if_neg h.raw_ne_nil, Text.splitLast?_append h.last]
  rfl

theorem exists_of_genericParts? (harray : arrayComponent? s = none)
    (h : genericParts? s = some (raw, parameters)) : ∃ tail, Applied s raw parameters tail := by
  unfold genericParts? at h
  split at h
  · next first rest hfirst =>
    split at h
    · cases h
    · next hraw =>
      obtain ⟨⟨front, tail⟩, hparts, heq⟩ := Option.map_eq_some_iff.1 h
      obtain ⟨rfl, rfl⟩ := Prod.mk.inj heq
      obtain ⟨hs, hnot⟩ := Text.eq_append_of_splitFirst? hfirst
      obtain ⟨hrest, hlast⟩ := Text.eq_append_of_splitLast? hparts
      exact ⟨tail, by rw [hs, hrest, List.append_assoc, List.cons_append], hraw, hnot, hlast,
        arrayComponent?_eq_none_iff.1 harray⟩
  · cases h

theorem unique {raw' parameters' tail' : Text} (h : Applied s raw parameters tail)
    (h' : Applied s raw' parameters' tail') :
    raw' = raw ∧ parameters' = parameters ∧ tail' = tail := by
  have hparts := h'.genericParts?_eq.symm.trans h.genericParts?_eq
  cases hparts
  have htail := List.append_cancel_left (h'.eq.symm.trans h.eq)
  exact ⟨rfl, rfl, (List.cons.inj htail).2⟩

theorem losesTail_iff (h : Applied s raw parameters tail) :
    LosesTail s ↔ ¬ Text.allBlank tail ∨ ∃ piece ∈ splitParameters parameters, LosesTail piece := by
  constructor
  · intro hs
    cases hs with
    | tail h' htail =>
      obtain ⟨-, -, rfl⟩ := h.unique h'
      exact .inl htail
    | component => exact absurd (List.suffix_append _ _) h.not_array
    | argument h' hpiece hs =>
      obtain ⟨-, rfl, -⟩ := h.unique h'
      exact .inr ⟨_, hpiece, hs⟩
  · rintro (htail | ⟨piece, hpiece, hs⟩)
    · exact .tail h htail
    · exact .argument h hpiece hs

end Applied

theorem losesTail_array (s : Text) : LosesTail (s ++ "[]".toList) ↔ LosesTail (Text.trim s) := by
  constructor
  · intro h
    generalize hs : s ++ "[]".toList = whole at h
    cases h with
    | tail h _ => exact absurd ⟨s, hs⟩ h.not_array
    | component h =>
      obtain rfl := List.append_cancel_right hs
      exact h
    | argument h _ _ => exact absurd ⟨s, hs⟩ h.not_array
  · exact .component

theorem not_losesTail_of_none {s : Text} (harray : arrayComponent? s = none)
    (h : genericParts? s = none) : ¬ LosesTail s := by
  intro hs
  cases hs with
  | tail h' _ => cases h.symm.trans h'.genericParts?_eq
  | component => exact arrayComponent?_eq_none_iff.1 harray (List.suffix_append _ _)
  | argument h' _ _ => cases h.symm.trans h'.genericParts?_eq

/-! ## An expression and the rendering of its type -/

namespace JavaType

theorem compact_renderArguments (ts : List JavaType) :
    Text.compact (renderArguments ts) =
      List.intercalate [','] (ts.map fun t => Text.compact t.render) := by
  induction ts with
  | nil => rfl
  | cons t rest ih =>
    cases rest with
    | nil => rw [renderArguments, List.map_cons, List.map_nil, List.intercalate_singleton]
    | cons next rest =>
      have hcomma : Text.compact ", ".toList = [','] := by decide
      rw [renderArguments, compact_append, compact_append, hcomma, ih, List.map_cons, List.map_cons,
        List.map_cons, List.intercalate_cons_cons]
      simp

/-- The expression that is rendered for a text, without blanks. -/
def respelled (s : Text) : Text :=
  Text.compact (resolve .empty s).render

theorem respelled_array (s : Text) :
    respelled (s ++ "[]".toList) = respelled (Text.trim s) ++ "[]".toList := by
  unfold respelled
  rw [resolve_of_arrayComponent? .empty (arrayComponent?_append s), render, compact_append]
  rfl

theorem render_ofName (name : Text) : (ofName .empty name).render = name := by
  unfold ofName
  rw [OrderedMap.get?_empty]
  cases hkind : Primitive.ofKeyword? name with
  | some kind => exact Primitive.keyword_of_ofKeyword? hkind
  | none => rfl

/-- Without imports a raw name is the class of that name, also where it is a keyword or an array. -/
theorem classOr_noImports {name : Text} (h : '<' ∉ name) :
    classOr name (resolve .empty name) = ⟨name⟩ := by
  have hparts : genericParts? name = none := by
    unfold genericParts?
    rw [Text.splitFirst?_eq_none h]
  cases harray : arrayComponent? name with
  | some component =>
    rw [resolve_of_arrayComponent? .empty harray]
    rfl
  | none =>
    rw [resolve_of_none .empty harray hparts]
    unfold ofName
    rw [OrderedMap.get?_empty]
    cases Primitive.ofKeyword? name <;> rfl

theorem respelled_applied {s raw parameters tail : Text} (h : Applied s raw parameters tail) :
    respelled s = Text.compact raw ++
      '<' :: (List.intercalate [','] ((splitParameters parameters).map respelled) ++ ['>']) := by
  have hraw : '<' ∉ Text.trim raw := fun hmem => h.first ((trim_sublist raw).subset hmem)
  have hopen : Text.compact "<".toList = ['<'] := by decide
  have hclose : Text.compact ">".toList = ['>'] := by decide
  unfold respelled
  rw [resolve_of_genericParts? .empty (arrayComponent?_eq_none_iff.2 h.not_array)
    h.genericParts?_eq, classOr_noImports hraw, render, compact_append, compact_append,
    compact_append, compact_renderArguments, hopen, hclose, compact_trim, List.map_map]
  simp [Function.comp_def]

theorem respelled_of_none {s : Text} (harray : arrayComponent? s = none)
    (h : genericParts? s = none) : respelled s = Text.compact s := by
  unfold respelled
  rw [resolve_of_none .empty harray h, render_ofName]

theorem compact_applied {s raw parameters tail : Text} (h : Applied s raw parameters tail) :
    Text.compact s = Text.compact raw ++
      '<' :: (List.intercalate [','] (splitParameters parameters) ++ '>' :: Text.compact tail) := by
  rw [h.eq, List.append_assoc, compact_append, List.cons_append, compact_cons (by decide),
    compact_append, compact_cons (by decide), intercalate_splitParameters]

/-- The rendering of the type has characters of the text only, in their order, and it has all that
are not blank unless a tail is lost. -/
def KeepsText (s : Text) : Prop :=
  (respelled s).Sublist (Text.compact s) ∧ (respelled s = Text.compact s ↔ ¬ LosesTail s)

theorem keepsText_array {s : Text} (h : KeepsText (Text.trim s)) :
    KeepsText (s ++ "[]".toList) := by
  have hmarks : Text.compact "[]".toList = "[]".toList := by decide
  unfold KeepsText
  rw [respelled_array, compact_append, ← compact_trim s, hmarks, losesTail_array,
    List.append_left_inj]
  exact ⟨h.1.append (.refl _), h.2⟩

theorem keepsText_applied {s raw parameters tail : Text} (h : Applied s raw parameters tail)
    (hpieces : ∀ piece ∈ splitParameters parameters, KeepsText piece) : KeepsText s := by
  have hsub : ∀ piece ∈ splitParameters parameters, (respelled piece).Sublist piece := by
    intro piece hpiece
    have hself := (hpieces piece hpiece).1
    rwa [compact_of_mem_splitParameters hpiece] at hself
  have hall : (∀ piece ∈ splitParameters parameters, respelled piece = piece) ↔
      ¬ ∃ piece ∈ splitParameters parameters, LosesTail piece := by
    rw [not_exists]
    refine forall_congr' fun piece => ?_
    rw [not_and]
    refine forall_congr' fun hpiece => ?_
    rw [← (hpieces piece hpiece).2, compact_of_mem_splitParameters hpiece]
  have htail : ['>'] = '>' :: Text.compact tail ↔ Text.allBlank tail := by
    rw [← compact_eq_nil_iff, List.cons.injEq, and_iff_right rfl, eq_comm]
  have hclose : ['>'].Sublist ('>' :: Text.compact tail) := (List.nil_sublist _).cons_cons '>'
  obtain ⟨harguments, heq⟩ := intercalate_map_sublist [','] hsub
  unfold KeepsText
  rw [respelled_applied h, compact_applied h]
  refine ⟨(List.Sublist.refl _).append ((harguments.append hclose).cons_cons '<'), ?_⟩
  rw [List.append_right_inj, List.cons.injEq, and_iff_right rfl,
    append_eq_append_of_sublist harguments hclose, heq, htail, hall, h.losesTail_iff, not_or,
    not_not, and_comm]

/-- **What is lost of an expression.** The rendering of its type has no characters but its own, in
their order, and it has all that are not blank unless something follows the arguments of a generic
application. -/
theorem compact_render_resolve (s : Text) :
    (Text.compact (resolve .empty s).render).Sublist (Text.compact s) ∧
      (Text.compact (resolve .empty s).render = Text.compact s ↔ ¬ LosesTail s) := by
  change KeepsText s
  -- components and arguments are shorter texts, but not parts of the text as it stands
  induction hn : s.length using Nat.strongRecOn generalizing s with
  | ind n ih =>
    cases harray : arrayComponent? s with
    | some component =>
      have hlength := length_trim_le component
      have hshorter := length_lt_of_arrayComponent? harray
      obtain rfl := eq_append_of_arrayComponent? harray
      exact keepsText_array (ih _ (by omega) _ rfl)
    | none =>
      cases hparts : genericParts? s with
      | none =>
        unfold KeepsText
        rw [respelled_of_none harray hparts]
        exact ⟨.refl _, iff_of_true rfl (not_losesTail_of_none harray hparts)⟩
      | some parts =>
        obtain ⟨tail, h⟩ := Applied.exists_of_genericParts? harray hparts
        refine keepsText_applied h fun piece hpiece => ih piece.length ?_ piece rfl
        have hlength := length_le_of_mem_splitParametersAt piece hpiece
        have hshorter := (length_lt_of_genericParts? hparts).2
        omega

/-- What follows the arguments is lost, be it a name or an array suffix with a blank behind it. -/
theorem resolve_loses_tail :
    resolve .empty "List<A>x" = .generic ⟨"List"⟩ [.ofClass "A"] ∧
    Text.compact (resolve .empty "List<A>x").render ≠ Text.compact "List<A>x" ∧
    resolve .empty "List<A>[] " = .generic ⟨"List"⟩ [.ofClass "A"] ∧
    Text.compact (resolve .empty "List<A>[] ").render ≠ Text.compact "List<A>[] " := by
  decide +kernel

/-! ## A type and the type of its rendering -/

mutual

def classNames : JavaType → List Text
  | .primitive _ => []
  | .classRef c => [c.fullName]
  | .array component => component.classNames
  | .generic raw arguments => raw.fullName :: classNamesOf arguments

def classNamesOf : List JavaType → List Text
  | [] => []
  | t :: rest => t.classNames ++ classNamesOf rest

end

mutual

def primitives : JavaType → List Primitive
  | .primitive kind => [kind]
  | .classRef _ => []
  | .array component => component.primitives
  | .generic _ arguments => primitivesOf arguments

def primitivesOf : List JavaType → List Primitive
  | [] => []
  | t :: rest => t.primitives ++ primitivesOf rest

end

mutual

/-- A text can stand for the type: its class names are words, no class that stands alone is named
like a primitive type, and no generic application is without arguments. -/
inductive Spellable : JavaType → Prop
  | primitive (kind : Primitive) : Spellable (.primitive kind)
  | classRef (word : TypeWord) (h : Primitive.ofKeyword? word.text = none) :
      Spellable (.classRef ⟨word.text⟩)
  | array {component : JavaType} (h : Spellable component) : Spellable (.array component)
  | generic (raw : TypeWord) {arguments : List JavaType} (h : SpellableArguments arguments) :
      Spellable (.generic ⟨raw.text⟩ arguments)

inductive SpellableArguments : List JavaType → Prop
  | last {t : JavaType} (h : Spellable t) : SpellableArguments [t]
  | more {t : JavaType} {others : List JavaType} (h : Spellable t)
      (hothers : SpellableArguments others) : SpellableArguments (t :: others)

end

theorem SpellableArguments.ne_nil {ts : List JavaType} (h : SpellableArguments ts) : ts ≠ [] := by
  cases h <;> simp

theorem renderArguments_cons (t : JavaType) {others : List JavaType} (h : others ≠ []) :
    renderArguments (t :: others) = t.render ++ ", " ++ renderArguments others := by
  obtain ⟨next, rest, rfl⟩ := List.exists_cons_of_ne_nil h
  rw [renderArguments]
  simp

def keywordWord (kind : Primitive) : TypeWord where
  text := kind.keyword
  ne_nil := by cases kind <;> decide
  plain := by cases kind <;> exact Text.forall_of_all (by decide)

theorem meaning_keywordWord (imports : Imports) (kind : Primitive) :
    (TypeExpression.name (keywordWord kind)).meaning imports = .primitive kind ↔
      imports.get? kind.keyword = none := by
  have hkind : Primitive.ofKeyword? (keywordWord kind).text = some kind :=
    Primitive.ofKeyword?_keyword kind
  have htext : (keywordWord kind).text = kind.keyword := rfl
  unfold TypeExpression.meaning
  rw [hkind, htext]
  cases imports.get? kind.keyword <;> simp

mutual

/-- The rendering of a type spells an expression. Its meaning is the type where no import has the
name of one of the classes, unless one has that of one of the primitive types. -/
theorem Spellable.exists_spells {t : JavaType} : Spellable t →
    ∃ e, Spells e t.render ∧ ∀ imports : Imports,
      (∀ name ∈ t.classNames, imports.get? name = none) →
        (e.meaning imports = t ↔ ∀ kind ∈ t.primitives, imports.get? kind.keyword = none)
  | .primitive kind => by
    refine ⟨.name (keywordWord kind), .name (keywordWord kind), fun imports _ => ?_⟩
    rw [meaning_keywordWord]
    simp [primitives]
  | .classRef word h => by
    refine ⟨.name word, .name word, fun imports hnames => ?_⟩
    have hword : imports.get? word.text = none := hnames word.text (by simp [classNames])
    unfold TypeExpression.meaning
    rw [hword, h]
    simp [primitives]
  | .array h => by
    obtain ⟨e, hspells, hmeaning⟩ := h.exists_spells
    refine ⟨.array e, ?_, fun imports hnames => ?_⟩
    · rw [render, ← List.append_nil (JavaType.render _)]
      exact .array hspells rfl
    · unfold TypeExpression.meaning primitives
      rw [array.injEq]
      exact hmeaning imports hnames
  | .generic raw h => by
    obtain ⟨es, hspells, hmeaning⟩ := h.exists_spells
    refine ⟨.generic raw es, ?_, fun imports hnames => ?_⟩
    · have hs := @Spells.generic raw es _ [] rfl (hspells [] rfl)
      rw [List.append_nil, List.nil_append] at hs
      rw [render, List.append_assoc raw.text "<".toList]
      exact hs
    · unfold classNames at hnames
      obtain ⟨hraw, hnames⟩ := List.forall_mem_cons.1 hnames
      unfold TypeExpression.meaning primitives
      rw [generic.injEq, hraw]
      simpa using hmeaning imports hnames

theorem SpellableArguments.exists_spells {ts : List JavaType} : SpellableArguments ts →
    ∃ es, (∀ gap, Text.allBlank gap → SpellsArguments es (gap ++ renderArguments ts)) ∧
      ∀ imports : Imports, (∀ name ∈ classNamesOf ts, imports.get? name = none) →
        (TypeExpression.meanings imports es = ts ↔
          ∀ kind ∈ primitivesOf ts, imports.get? kind.keyword = none)
  | .last h => by
    obtain ⟨e, hspells, hmeaning⟩ := h.exists_spells
    refine ⟨[e], fun gap hgap => ?_, fun imports hnames => ?_⟩
    · have hs := @SpellsArguments.last e gap _ [] hgap hspells rfl
      rw [List.append_nil] at hs
      exact hs
    · simp only [classNamesOf, List.append_nil] at hnames
      simpa [TypeExpression.meanings, primitivesOf] using hmeaning imports hnames
  | @SpellableArguments.more t others h hothers => by
    obtain ⟨e, hspells, hmeaning⟩ := h.exists_spells
    obtain ⟨es, hspellsOthers, hmeaningOthers⟩ := hothers.exists_spells
    refine ⟨e :: es, fun gap hgap => ?_, fun imports hnames => ?_⟩
    · have hs := @SpellsArguments.more e es gap _ [] _ hgap hspells rfl
        (hspellsOthers [' '] (by decide))
      rw [List.append_nil, List.append_assoc] at hs
      rw [renderArguments_cons t hothers.ne_nil, List.append_assoc]
      exact hs
    · simp only [classNamesOf, List.forall_mem_append] at hnames
      unfold TypeExpression.meanings primitivesOf
      rw [List.cons.injEq, hmeaning imports hnames.1, hmeaningOthers imports hnames.2,
        List.forall_mem_append]

end

/-- **A rendered type reads back.** Where no import has the name of one of its classes, the
rendering of a type denotes the type, unless an import has the keyword of one of its primitive
types as its name. -/
theorem resolve_render {t : JavaType} (h : Spellable t) {imports : Imports}
    (hnames : ∀ name ∈ t.classNames, imports.get? name = none) :
    resolve imports t.render = t ↔ ∀ kind ∈ t.primitives, imports.get? kind.keyword = none := by
  obtain ⟨e, hspells, hmeaning⟩ := h.exists_spells
  rw [resolve_of_spells imports hspells]
  exact hmeaning imports hnames

/-- An array of maps between a primitive type and an array, where an import has another name. -/
theorem resolve_render_map :
    let mapWord : TypeWord := ⟨"java.util.Map", by decide, Text.forall_of_all (by decide)⟩
    let intWord : TypeWord := ⟨"int", by decide, Text.forall_of_all (by decide)⟩
    let t : JavaType :=
      .array (.generic ⟨mapWord.text⟩
        [.primitive .int, .array (.generic ⟨intWord.text⟩ [.primitive .long])])
    let imports := Imports.add .empty "a.Map".toList none
    Spellable t ∧ (∀ name ∈ t.classNames, imports.get? name = none) ∧
      t.render = "java.util.Map<int, int<long>[]>[]".toList ∧ resolve imports t.render = t := by
  intro mapWord intWord t imports
  have h : Spellable t :=
    .array (.generic mapWord (.more (.primitive .int)
      (.last (.array (.generic intWord (.last (.primitive .long)))))))
  have hnames : ∀ name ∈ t.classNames, imports.get? name = none := by decide
  exact ⟨h, hnames, by decide, (resolve_render h hnames).2 (by decide)⟩

/-- An import named like a keyword stands for the primitive type, which is no class of the type. -/
theorem resolve_render_shadowed :
    let t : JavaType := .primitive .int
    let imports := Imports.add .empty "a.int".toList none
    Spellable t ∧ (∀ name ∈ t.classNames, imports.get? name = none) ∧
      resolve imports t.render = .ofClass "a.int" ∧ resolve imports t.render ≠ t := by
  intro t imports
  have hnames : ∀ name ∈ t.classNames, imports.get? name = none := by decide
  exact ⟨.primitive .int, hnames, by decide +kernel, by decide +kernel⟩

end JavaType

end AndroidResources
