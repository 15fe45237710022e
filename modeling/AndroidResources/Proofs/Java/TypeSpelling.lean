import AndroidResources.Java.TypeExpression
import AndroidResources.Proofs.Text.Split
import Mathlib.Data.List.Forall2

/-!
# Spellings of type expressions

A type expression as a tree, the texts that spell it, and the type that it means.

* `TypeWord`, `TypeExpression` : names, array suffixes and generic applications;
* `Spells e s`, `SpellsArguments es s` : the text `s` spells the tree `e`, with blanks before `<`,
  before `[]` and around every argument, but none at its two ends;
* `TypeExpression.meaning` : the type of a tree, from the types of its parts;
* `splitParameters_of_spells` : an argument list is cut into the spellings of its arguments;
* `resolve_of_spells` : a spelling denotes the meaning of its tree.
-/

namespace AndroidResources

def typeMarks : List Char := ['<', '>', ',', '[', ']']

structure TypeWord where
  text : Text
  ne_nil : text ≠ []
  plain : ∀ c ∈ text, Text.isBlank c = false ∧ c ∉ typeMarks

/-- A type expression: a name, an array of something, or a name applied to arguments. -/
inductive TypeExpression
  | name (word : TypeWord)
  | array (component : TypeExpression)
  | generic (raw : TypeWord) (arguments : List TypeExpression)

mutual

/-- The text spells the expression. Blanks may stand before `[]` and before `<`. -/
inductive Spells : TypeExpression → Text → Prop
  | name (word : TypeWord) : Spells (.name word) word.text
  | array {component : TypeExpression} {s gap : Text} (hs : Spells component s)
      (hgap : Text.allBlank gap) : Spells (.array component) (s ++ gap ++ "[]".toList)
  | generic (raw : TypeWord) {arguments : List TypeExpression} {s gap : Text}
      (hgap : Text.allBlank gap) (hs : SpellsArguments arguments s) :
      Spells (.generic raw arguments) (raw.text ++ gap ++ '<' :: s ++ ['>'])

/-- The text spells the arguments, of which there is at least one, with commas between them. Blanks
may stand around each of them. -/
inductive SpellsArguments : List TypeExpression → Text → Prop
  | last {e : TypeExpression} {before s after : Text} (hbefore : Text.allBlank before)
      (hs : Spells e s) (hafter : Text.allBlank after) :
      SpellsArguments [e] (before ++ s ++ after)
  | more {e : TypeExpression} {others : List TypeExpression} {before s after rest : Text}
      (hbefore : Text.allBlank before) (hs : Spells e s) (hafter : Text.allBlank after)
      (hrest : SpellsArguments others rest) :
      SpellsArguments (e :: others) (before ++ s ++ after ++ ',' :: rest)

end

namespace TypeExpression

mutual

/-- The type that an expression means: an imported class, else a primitive type, else the class of
the name as it stands. A generic application never takes its name for a primitive type. -/
def meaning (imports : Imports) : TypeExpression → JavaType
  | .name word =>
    match imports.get? word.text, Primitive.ofKeyword? word.text with
    | some c, _ => .classRef c
    | none, some kind => .primitive kind
    | none, none => .classRef ⟨word.text⟩
  | .array component => .array (meaning imports component)
  | .generic raw arguments =>
    .generic ((imports.get? raw.text).getD ⟨raw.text⟩) (meanings imports arguments)

def meanings (imports : Imports) : List TypeExpression → List JavaType
  | [] => []
  | e :: others => meaning imports e :: meanings imports others

end

end TypeExpression

/-! ## Blanks -/

theorem compact_eq_nil {gap : Text} (h : Text.allBlank gap) : Text.compact gap = [] := by
  unfold Text.compact
  rw [List.filter_eq_nil_iff]
  intro c hc
  simpa using List.all_eq_true.1 h c hc

theorem compact_append (s t : Text) :
    Text.compact (s ++ t) = Text.compact s ++ Text.compact t := by
  unfold Text.compact
  exact List.filter_append s t

theorem TypeWord.compact_text (word : TypeWord) : Text.compact word.text = word.text := by
  unfold Text.compact
  rw [List.filter_eq_self]
  intro c hc
  simp [(word.plain c hc).1]

theorem splitParametersAt_gap (depth : Int) {gap : Text} (h : Text.allBlank gap) (rest : Text) :
    splitParametersAt depth (gap ++ rest) = splitParametersAt depth rest := by
  induction gap with
  | nil => rfl
  | cons c gap ih =>
    unfold Text.allBlank at h ih
    rw [List.all_cons, Bool.and_eq_true] at h
    have hc : c ≠ ',' := by
      rintro rfl
      exact absurd h.1 (by decide)
    rw [List.cons_append, splitParametersAt, if_neg (fun hcomma => hc hcomma.1), if_pos h.1,
      ih h.2]

/-! ## Cutting an argument list -/

def prependPiece (s : Text) (pieces : List Text) : List Text :=
  s.foldr consPiece pieces

theorem prependPiece_append (s t : Text) (pieces : List Text) :
    prependPiece (s ++ t) pieces = prependPiece s (prependPiece t pieces) := by
  unfold prependPiece
  exact List.foldr_append

theorem prependPiece_cons (s piece : Text) (pieces : List Text) :
    prependPiece s (piece :: pieces) = (s ++ piece) :: pieces := by
  unfold prependPiece
  induction s with
  | nil => rfl
  | cons c s ih =>
    rw [List.foldr_cons, ih]
    rfl

theorem splitParametersAt_cons {c : Char} {depth : Int} (hcomma : c = ',' → depth ≠ 0)
    (hc : Text.isBlank c = false) (rest : Text) :
    splitParametersAt depth (c :: rest) =
      prependPiece [c] (splitParametersAt (depth + bracketStep c) rest) := by
  rw [splitParametersAt, if_neg (fun h => hcomma h.1 h.2), hc]
  rfl

theorem splitParametersAt_plain (depth : Int) {s : Text}
    (h : ∀ c ∈ s, Text.isBlank c = false ∧ c ≠ ',' ∧ bracketStep c = 0) (rest : Text) :
    splitParametersAt depth (s ++ rest) = prependPiece s (splitParametersAt depth rest) := by
  induction s with
  | nil => rfl
  | cons c s ih =>
    obtain ⟨hblank, hcomma, hstep⟩ := h c (by simp)
    rw [List.cons_append, splitParametersAt_cons (fun hc => absurd hc hcomma) hblank, hstep,
      Int.add_zero, ih fun d hd => h d (by simp [hd])]
    rfl

theorem bracketStep_of_not_mem {c : Char} (h : c ∉ typeMarks) : bracketStep c = 0 := by
  unfold bracketStep
  rw [if_neg, if_neg] <;> rintro rfl <;> exact h (by decide)

theorem splitParametersAt_word (depth : Int) (word : TypeWord) (rest : Text) :
    splitParametersAt depth (word.text ++ rest) =
      prependPiece word.text (splitParametersAt depth rest) := by
  refine splitParametersAt_plain depth (fun c hc => ?_) rest
  obtain ⟨hblank, hmarks⟩ := word.plain c hc
  refine ⟨hblank, ?_, bracketStep_of_not_mem hmarks⟩
  rintro rfl
  exact hmarks (by decide)

mutual

/-- At no negative depth does a cut fall into a spelling, and it leaves the depth as it was. -/
theorem splitParametersAt_spells {e : TypeExpression} {s : Text} :
    Spells e s → ∀ depth : Int, 0 ≤ depth → ∀ rest : Text,
      splitParametersAt depth (s ++ rest) =
        prependPiece (Text.compact s) (splitParametersAt depth rest)
  | .name word => fun depth _ rest => by
    rw [word.compact_text, splitParametersAt_word]
  | @Spells.array _ s gap hs hgap => fun depth hdepth rest => by
    have hsuffix : splitParametersAt depth ("[]".toList ++ rest) =
        prependPiece "[]".toList (splitParametersAt depth rest) :=
      splitParametersAt_plain depth (Text.forall_of_all (by decide)) rest
    rw [List.append_assoc, List.append_assoc, splitParametersAt_spells hs depth hdepth,
      splitParametersAt_gap depth hgap, hsuffix, compact_append, compact_append,
      compact_eq_nil hgap, List.append_nil, prependPiece_append]
    rfl
  | @Spells.generic raw _ s gap hgap hs => fun depth hdepth rest => by
    have hopen : ∀ t, splitParametersAt depth ('<' :: t) =
        prependPiece ['<'] (splitParametersAt (depth + 1) t) :=
      fun t => splitParametersAt_cons (by simp) (by decide) t
    have hclose : splitParametersAt (depth + 1) ('>' :: rest) =
        prependPiece ['>'] (splitParametersAt depth rest) := by
      rw [splitParametersAt_cons (by simp) (by decide) rest,
        show depth + 1 + bracketStep '>' = depth by rw [show bracketStep '>' = -1 by decide]; omega]
    have hcompact : Text.compact (raw.text ++ gap ++ '<' :: s ++ ['>']) =
        raw.text ++ (['<'] ++ (Text.compact s ++ ['>'])) := by
      rw [compact_append, compact_append, compact_append, compact_eq_nil hgap, raw.compact_text,
        show '<' :: s = ['<'] ++ s from rfl, compact_append,
        show Text.compact ['<'] = ['<'] by decide, show Text.compact ['>'] = ['>'] by decide]
      simp only [List.append_nil, List.append_assoc]
    rw [hcompact, List.append_assoc, List.append_assoc, List.append_assoc, splitParametersAt_word,
      splitParametersAt_gap depth hgap, List.cons_append, hopen,
      splitParametersAt_spellsArguments hs (depth + 1) (by omega), List.singleton_append, hclose]
    simp only [prependPiece_append]

theorem splitParametersAt_spellsArguments {es : List TypeExpression} {s : Text} :
    SpellsArguments es s → ∀ depth : Int, 0 < depth → ∀ rest : Text,
      splitParametersAt depth (s ++ rest) =
        prependPiece (Text.compact s) (splitParametersAt depth rest)
  | @SpellsArguments.last _ _ s _ hbefore hs hafter => fun depth hdepth rest => by
    rw [compact_append, compact_append, compact_eq_nil hbefore, compact_eq_nil hafter,
      List.append_assoc, List.append_assoc, splitParametersAt_gap depth hbefore,
      splitParametersAt_spells hs depth (by omega), splitParametersAt_gap depth hafter,
      List.nil_append, List.append_nil]
  | @SpellsArguments.more _ _ _ s _ others hbefore hs hafter hrest => fun depth hdepth rest => by
    have hcomma : ∀ t, splitParametersAt depth (',' :: t) =
        prependPiece [','] (splitParametersAt depth t) := fun t => by
      rw [splitParametersAt_cons (fun _ => by omega) (by decide) t,
        show bracketStep ',' = 0 by decide, Int.add_zero]
    rw [compact_append, compact_append, compact_append, compact_eq_nil hbefore,
      compact_eq_nil hafter, List.append_assoc, List.append_assoc, List.append_assoc,
      splitParametersAt_gap depth hbefore, splitParametersAt_spells hs depth (by omega),
      splitParametersAt_gap depth hafter, List.cons_append, hcomma,
      splitParametersAt_spellsArguments hrest depth hdepth, show ',' :: others = [','] ++ others from rfl,
      compact_append, show Text.compact [','] = [','] by decide]
    simp only [List.nil_append, List.append_nil, prependPiece_append]

end

mutual

theorem Spells.compact {e : TypeExpression} {s : Text} : Spells e s → Spells e (Text.compact s)
  | .name word => by
    rw [word.compact_text]
    exact .name word
  | @Spells.array _ s gap hs hgap => by
    rw [compact_append, compact_append, compact_eq_nil hgap]
    exact @Spells.array _ _ [] hs.compact rfl
  | @Spells.generic raw _ s gap hgap hs => by
    rw [compact_append, compact_append, compact_append, compact_eq_nil hgap, raw.compact_text,
      show '<' :: s = ['<'] ++ s from rfl, compact_append]
    exact @Spells.generic raw _ _ [] rfl hs.compact

theorem SpellsArguments.compact {es : List TypeExpression} {s : Text} :
    SpellsArguments es s → SpellsArguments es (Text.compact s)
  | @SpellsArguments.last _ _ s _ hbefore hs hafter => by
    rw [compact_append, compact_append, compact_eq_nil hbefore, compact_eq_nil hafter]
    exact @SpellsArguments.last _ [] _ [] rfl hs.compact rfl
  | @SpellsArguments.more _ _ _ s _ rest hbefore hs hafter hrest => by
    rw [compact_append, compact_append, compact_append, compact_eq_nil hbefore,
      compact_eq_nil hafter, show ',' :: rest = [','] ++ rest from rfl, compact_append]
    exact @SpellsArguments.more _ _ [] _ [] _ rfl hs.compact rfl hrest.compact

end

/-- A spelled argument list is cut into spellings of its arguments. -/
theorem splitParameters_of_spells {es : List TypeExpression} {s : Text}
    (h : SpellsArguments es s) : List.Forall₂ Spells es (splitParameters s) := by
  unfold splitParameters
  induction es generalizing s with
  | nil => cases h
  | cons e others ih =>
    cases h with
    | @last _ before s after hbefore hs hafter =>
      have hsplit := splitParametersAt_spells hs 0 (Int.le_refl 0) after
      have hend : splitParametersAt 0 after = [[]] := by
        simpa [splitParametersAt] using splitParametersAt_gap 0 hafter []
      rw [List.append_assoc, splitParametersAt_gap 0 hbefore, hsplit, hend, prependPiece_cons,
        List.append_nil]
      exact .cons hs.compact .nil
    | @more _ _ before s after rest hbefore hs hafter hrest =>
      have hcomma : splitParametersAt 0 (',' :: rest) = [] :: splitParametersAt 0 rest := by
        rw [splitParametersAt, if_pos ⟨rfl, rfl⟩]
      rw [List.append_assoc, List.append_assoc, splitParametersAt_gap 0 hbefore,
        splitParametersAt_spells hs 0 (Int.le_refl 0), splitParametersAt_gap 0 hafter, hcomma,
        prependPiece_cons, List.append_nil]
      exact .cons hs.compact (ih hrest)

/-! ## The three forms of an expression -/

theorem Spells.exists_cons {e : TypeExpression} {s : Text} :
    Spells e s → ∃ c t, s = c :: t ∧ Text.isBlank c = false
  | .name word => by
    obtain ⟨c, t, hword⟩ := List.exists_cons_of_ne_nil word.ne_nil
    exact ⟨c, t, hword, (word.plain c (by rw [hword]; simp)).1⟩
  | .array hs _ => by
    obtain ⟨c, t, rfl, hc⟩ := hs.exists_cons
    exact ⟨c, _, rfl, hc⟩
  | .generic raw _ _ => by
    obtain ⟨c, t, hword⟩ := List.exists_cons_of_ne_nil raw.ne_nil
    rw [hword]
    exact ⟨c, _, rfl, (raw.plain c (by rw [hword]; simp)).1⟩

theorem Spells.exists_concat {e : TypeExpression} {s : Text} (h : Spells e s) :
    ∃ t c, s = t ++ [c] ∧ Text.isBlank c = false := by
  cases h with
  | name word =>
    refine ⟨_, _, (List.dropLast_append_getLast word.ne_nil).symm, ?_⟩
    exact (word.plain _ (List.getLast_mem word.ne_nil)).1
  | @array _ s gap _ _ => exact ⟨s ++ gap ++ ['['], ']', by simp, by decide⟩
  | @generic raw _ s gap _ _ => exact ⟨raw.text ++ gap ++ '<' :: s, '>', rfl, by decide⟩

theorem Spells.trim_append {e : TypeExpression} {s gap : Text} (h : Spells e s)
    (hgap : Text.allBlank gap) : Text.trim (s ++ gap) = s := by
  obtain ⟨c, t, hcons, hc⟩ := h.exists_cons
  obtain ⟨u, d, hconcat, hd⟩ := h.exists_concat
  have hstart : (s ++ gap).dropWhile Text.isBlank = s ++ gap := by
    rw [hcons, List.cons_append, List.dropWhile_cons, hc]
    rfl
  have hgap' : ∀ x ∈ gap.reverse, Text.isBlank x = true := fun x hx =>
    List.all_eq_true.1 hgap x (List.mem_reverse.1 hx)
  unfold Text.trim Text.trimEnd
  rw [hstart, List.reverse_append, List.dropWhile_append_of_pos hgap', hconcat,
    List.reverse_concat, List.dropWhile_cons, hd]
  simp

theorem arrayComponent?_append (s : Text) : arrayComponent? (s ++ "[]".toList) = some s := by
  unfold arrayComponent?
  simp

theorem arrayComponent?_eq_none {s t : Text} {c : Char} (h : s = t ++ [c]) (hc : c ≠ ']') :
    arrayComponent? s = none := by
  unfold arrayComponent?
  rw [h, List.reverse_concat]
  split
  · next heq => exact absurd (List.cons.inj heq).1 hc
  · rfl

theorem TypeWord.not_mem (word : TypeWord) {c : Char} (h : c ∈ typeMarks) : c ∉ word.text :=
  fun hc => (word.plain c hc).2 h

namespace JavaType

theorem resolve_of_arrayComponent? (imports : Imports) {s component : Text}
    (h : arrayComponent? s = some component) :
    resolve imports s = .array (resolve imports (Text.trim component)) := by
  rw [resolve]
  split
  · next c hc =>
    rw [h] at hc
    cases hc
    rfl
  · next hc =>
    rw [h] at hc
    cases hc

/-- The class of a class reference; for any other type the class of a name as it stands. -/
def classOr (name : Text) : JavaType → ClassName
  | .classRef c => c
  | _ => ⟨name⟩

theorem resolve_of_genericParts? (imports : Imports) {s raw parameters : Text}
    (harray : arrayComponent? s = none) (h : genericParts? s = some (raw, parameters)) :
    resolve imports s =
      .generic (classOr (Text.trim raw) (resolve imports (Text.trim raw)))
        ((splitParameters parameters).map (resolve imports)) := by
  rw [resolve]
  split
  · next c hc =>
    rw [harray] at hc
    cases hc
  · split
    · next r p hparts =>
      rw [h] at hparts
      cases hparts
      simp only [generic.injEq]
      refine ⟨?_, List.attach_map_val (l := splitParameters parameters) (f := resolve imports)⟩
      cases resolve imports (Text.trim raw) <;> rfl
    · next hparts =>
      rw [h] at hparts
      cases hparts

theorem resolve_of_none (imports : Imports) {s : Text} (harray : arrayComponent? s = none)
    (h : genericParts? s = none) : resolve imports s = ofName imports s := by
  rw [resolve]
  split
  · next c hc =>
    rw [harray] at hc
    cases hc
  · split
    · next r p hparts =>
      rw [h] at hparts
      cases hparts
    · rfl

theorem resolve_word (imports : Imports) (word : TypeWord) :
    resolve imports word.text = (TypeExpression.name word).meaning imports := by
  have hlast := (List.dropLast_append_getLast word.ne_nil).symm
  have harray : arrayComponent? word.text = none :=
    arrayComponent?_eq_none hlast fun hc =>
      word.not_mem (by decide) (hc ▸ List.getLast_mem word.ne_nil)
  have hparts : genericParts? word.text = none := by
    unfold genericParts?
    rw [Text.splitFirst?_eq_none (word.not_mem (by decide))]
  rw [resolve_of_none imports harray hparts]
  unfold ofName TypeExpression.meaning
  cases imports.get? word.text with
  | some c => rfl
  | none => cases Primitive.ofKeyword? word.text <;> rfl

theorem classOr_word (imports : Imports) (word : TypeWord) :
    classOr word.text (resolve imports word.text) =
      (imports.get? word.text).getD ⟨word.text⟩ := by
  rw [resolve_word]
  unfold TypeExpression.meaning classOr
  cases imports.get? word.text with
  | some c => rfl
  | none => cases Primitive.ofKeyword? word.text <;> rfl

theorem genericParts?_spelled (raw : TypeWord) {gap : Text} (hgap : Text.allBlank gap) (s : Text) :
    genericParts? (raw.text ++ gap ++ '<' :: s ++ ['>']) = some (raw.text ++ gap, s) := by
  have hopen : '<' ∉ raw.text ++ gap := by
    rw [List.mem_append, not_or]
    refine ⟨raw.not_mem (by decide), fun hmem => ?_⟩
    exact absurd (List.all_eq_true.1 hgap _ hmem) (by decide)
  have hne : raw.text ++ gap ≠ [] := fun h => raw.ne_nil (List.append_eq_nil_iff.1 h).1
  unfold genericParts?
  rw [List.append_assoc, List.cons_append, Text.splitFirst?_append hopen]
  show (if raw.text ++ gap = [] then none else _) = _
  rw [if_neg hne, Text.splitLast?_append List.not_mem_nil]
  rfl

/-- **A spelling denotes the meaning of its tree**, wherever its blanks stand. -/
theorem resolve_of_spells (imports : Imports) {e : TypeExpression} {s : Text} (h : Spells e s) :
    resolve imports s = e.meaning imports := by
  -- the pieces of an argument list are not parts of the spelling but compacted copies of them, so
  -- the induction is on the length of the text
  induction hn : s.length using Nat.strongRecOn generalizing e s with
  | ind n ih =>
    cases h with
    | name word => exact resolve_word imports word
    | @array component s gap hs hgap =>
      have hlt : s.length < n := by
        rw [← hn]
        simp only [List.length_append]
        have : "[]".toList.length = 2 := rfl
        omega
      rw [resolve_of_arrayComponent? imports (arrayComponent?_append _), hs.trim_append hgap,
        ih _ hlt hs rfl]
      rfl
    | @generic raw arguments s gap hgap hs =>
      have harray : arrayComponent? (raw.text ++ gap ++ '<' :: s ++ ['>']) = none :=
        arrayComponent?_eq_none rfl (by decide)
      have hraw : Text.trim (raw.text ++ gap) = raw.text := (Spells.name raw).trim_append hgap
      have harguments : ∀ piece ∈ splitParameters s, piece.length < n := fun piece hp => by
        have := length_le_of_mem_splitParametersAt piece hp
        rw [← hn]
        simp only [List.length_append, List.length_cons]
        omega
      have hmap : ∀ {es : List TypeExpression} {pieces : List Text},
          List.Forall₂ Spells es pieces → (∀ piece ∈ pieces, piece.length < n) →
            pieces.map (resolve imports) = TypeExpression.meanings imports es := by
        intro es pieces hpieces hlt
        induction hpieces with
        | nil => rfl
        | @cons e piece es pieces he _ ihpieces =>
          rw [List.map_cons, ih _ (hlt piece (by simp)) he rfl,
            ihpieces fun p hp => hlt p (by simp [hp])]
          rfl
      rw [resolve_of_genericParts? imports harray (genericParts?_spelled raw hgap s), hraw,
        classOr_word, hmap (splitParameters_of_spells hs) harguments]
      rfl

/-- A raw name and a component with blanks behind them, an import, a keyword and a guess. -/
theorem resolve_of_spells_nested :
    let mapWord : TypeWord := ⟨"Map", by decide, Text.forall_of_all (by decide)⟩
    let intWord : TypeWord := ⟨"int", by decide, Text.forall_of_all (by decide)⟩
    let fooWord : TypeWord := ⟨"Foo", by decide, Text.forall_of_all (by decide)⟩
    let e : TypeExpression :=
      .array (.generic mapWord [.name intWord, .array (.generic intWord [.name fooWord])])
    let s : Text := "Map < int ,\u00a0int<Foo >[]> []".toList
    let imports := Imports.add .empty "java.util.Map".toList none
    Spells e s ∧ JavaType.resolve imports s =
      .array (.generic ⟨"java.util.Map".toList⟩
        [.primitive .int, .array (.generic ⟨"int".toList⟩ [.classRef ⟨"Foo".toList⟩])]) := by
  intro mapWord intWord fooWord e s imports
  have hfoo : SpellsArguments [.name fooWord] "Foo ".toList :=
    @SpellsArguments.last _ [] _ " ".toList rfl (.name fooWord) rfl
  have hinner : Spells (.array (.generic intWord [.name fooWord])) "int<Foo >[]".toList :=
    @Spells.array _ _ [] (@Spells.generic intWord _ _ [] rfl hfoo) rfl
  have hlist : SpellsArguments [.name intWord, .array (.generic intWord [.name fooWord])]
      " int ,\u00a0int<Foo >[]".toList :=
    @SpellsArguments.more _ _ " ".toList _ " ".toList _ rfl (.name intWord) rfl
      (@SpellsArguments.last _ "\u00a0".toList _ [] (by decide) hinner rfl)
  have hs : Spells e s :=
    @Spells.array _ _ " ".toList (@Spells.generic mapWord _ _ " ".toList rfl hlist) rfl
  exact ⟨hs, (resolve_of_spells imports hs).trans (by decide)⟩

end JavaType

end AndroidResources
