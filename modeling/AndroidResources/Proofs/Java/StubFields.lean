import AndroidResources.Java.BindingStub
import AndroidResources.Proofs.Xml.Acceptance
import Mathlib.Data.List.Basic
import Mathlib.Data.List.Nodup

/-!
# The fields of a stub

Bindings of a layout differ in their names, their types or their kinds. Fields have only names, and
several names of bindings may come to one field.

* `IsSnakeCase` : names of words in small letters, with `toSnakeCase_fieldName` to get such a name
  back from its field;
* `nodup_of_readLayout` : no binding of a layout is there twice;
* `BindingStub.fields`, `fields_distinct` : when no field of a stub is declared twice.
-/

namespace AndroidResources

/-! ## Names in snake case -/

namespace Identifier

def smallLetters : Text := "abcdefghijklmnopqrstuvwxyz"

def capitalLetters : Text := "ABCDEFGHIJKLMNOPQRSTUVWXYZ"

def StartsSmall (name : Text) : Prop :=
  ∃ c rest, name = c :: rest ∧ c ∈ smallLetters

instance (name : Text) : Decidable (StartsSmall name) :=
  match name with
  | [] => isFalse nofun
  | c :: rest => decidable_of_iff (c ∈ smallLetters)
      ⟨fun h => ⟨c, rest, rfl, h⟩, fun ⟨_, _, heq, h⟩ => (List.cons.inj heq).1 ▸ h⟩

/-- The name consists of words that begin with a letter from `a` to `z` and have no capital letter
from `A` to `Z`, with an underscore between two of them. It has no hyphen. -/
structure IsSnakeCase (name : Text) : Prop where
  words : ∀ word ∈ name.splitOn '_', StartsSmall word
  no_capital : ∀ c ∈ name, c ∉ capitalLetters
  no_hyphen : '-' ∉ name

instance (name : Text) : Decidable (IsSnakeCase name) :=
  decidable_of_iff ((∀ word ∈ name.splitOn '_', StartsSmall word) ∧
      name.all (· ∉ capitalLetters) = true ∧ '-' ∉ name)
    ⟨fun h => ⟨h.1, Text.forall_of_all h.2.1, h.2.2⟩, fun h => ⟨h.1, by simpa using h.2, h.3⟩⟩

/-- A capital letter from `A` to `Z` becomes an underscore with the small letter. -/
def toSnakeCase (field : Text) : Text :=
  field.flatMap fun c => if c ∈ capitalLetters then ['_', c.toLower] else [c]

theorem upperChar_small : ∀ c ∈ smallLetters, Text.upperChar c = [c.toUpper] ∧
    Text.lowerChar c.toUpper = [c] ∧ c.toUpper ∈ capitalLetters ∧ c.toUpper.toLower = c ∧
      c ∉ capitalLetters :=
  Text.forall_of_all (by decide +kernel)

theorem capitalize_cons {c : Char} (h : c ∈ smallLetters) (rest : Text) :
    Text.capitalize (c :: rest) = c.toUpper :: rest := by
  show Text.upperChar c ++ rest = _
  rw [(upperChar_small c h).1]
  rfl

theorem decapitalize_cons {c : Char} (h : c ∈ smallLetters) (rest : Text) :
    Text.decapitalize (c.toUpper :: rest) = c :: rest := by
  show Text.lowerChar c.toUpper ++ rest = _
  rw [(upperChar_small c h).2.1]
  rfl

theorem toSnakeCase_append (s t : Text) : toSnakeCase (s ++ t) = toSnakeCase s ++ toSnakeCase t :=
  List.flatMap_append

theorem toSnakeCase_cons {c : Char} (h : c ∉ capitalLetters) (rest : Text) :
    toSnakeCase (c :: rest) = c :: toSnakeCase rest := by
  unfold toSnakeCase
  rw [List.flatMap_cons, if_neg h]
  rfl

theorem toSnakeCase_toUpper {c : Char} (h : c ∈ smallLetters) (rest : Text) :
    toSnakeCase (c.toUpper :: rest) = '_' :: c :: toSnakeCase rest := by
  obtain ⟨-, -, hcapital, hlower, -⟩ := upperChar_small c h
  unfold toSnakeCase
  rw [List.flatMap_cons, if_pos hcapital, hlower]
  rfl

theorem toSnakeCase_self {s : Text} (h : ∀ c ∈ s, c ∉ capitalLetters) : toSnakeCase s = s := by
  induction s with
  | nil => rfl
  | cons c rest ih =>
    rw [toSnakeCase_cons (h c (List.mem_cons_self ..)),
      ih fun d hd => h d (List.mem_cons_of_mem _ hd)]

/-- Of words that are capitalized and joined, an underscore is left in front of each. -/
theorem toSnakeCase_capitalized {words : List Text}
    (hwords : ∀ word ∈ words, StartsSmall word ∧ ∀ c ∈ word, c ∉ capitalLetters) :
    toSnakeCase (words.flatMap Text.capitalize) = words.flatMap ('_' :: ·) := by
  induction words with
  | nil => rfl
  | cons word words ih =>
    obtain ⟨⟨c, rest, rfl, hc⟩, hplain⟩ := hwords word (List.mem_cons_self ..)
    have hrest : toSnakeCase rest = rest :=
      toSnakeCase_self fun d hd => hplain d (List.mem_cons_of_mem _ hd)
    rw [List.flatMap_cons, List.flatMap_cons, toSnakeCase_append, capitalize_cons hc,
      toSnakeCase_toUpper hc, hrest, ih fun w hw => hwords w (List.mem_cons_of_mem _ hw)]

theorem flatMap_cons_eq_intercalate {sep : Char} {words : List Text} (h : words ≠ []) :
    words.flatMap (sep :: ·) = sep :: List.intercalate [sep] words := by
  induction words with
  | nil => exact absurd rfl h
  | cons word words ih =>
    cases words with
    | nil => simp
    | cons next words =>
      rw [List.flatMap_cons, ih (by simp), List.intercalate_cons_cons]
      simp

theorem splitOnP_eq_splitOn {name : Text} (h : '-' ∉ name) :
    name.splitOnP (fun c => c == '_' || c == '-') = name.splitOn '_' := by
  rw [List.splitOn_eq_splitOnP]
  induction name with
  | nil => rfl
  | cons c rest ih =>
    rw [List.mem_cons, not_or] at h
    have hc : (c == '-') = false := by simpa using Ne.symm h.1
    rw [List.splitOnP_cons_eq_if_modifyHead, List.splitOnP_cons_eq_if_modifyHead, ih h.2, hc,
      Bool.or_false]

variable {name : Text}

theorem IsSnakeCase.className_eq (h : IsSnakeCase name) :
    className name = (name.splitOn '_').flatMap Text.capitalize := by
  have hall : (name.splitOn '_').filter (· ≠ []) = name.splitOn '_' := by
    rw [List.filter_eq_self]
    intro word hword
    obtain ⟨c, rest, rfl, -⟩ := h.words word hword
    simp
  unfold className
  rw [splitOnP_eq_splitOn h.no_hyphen, hall]

theorem IsSnakeCase.toSnakeCase_className (h : IsSnakeCase name) :
    toSnakeCase (className name) = '_' :: name := by
  rw [h.className_eq, toSnakeCase_capitalized, flatMap_cons_eq_intercalate, List.intercalate_splitOn]
  · exact List.splitOn_ne_nil '_' name
  · intro word hword
    refine ⟨h.words word hword, fun c hc => h.no_capital c ?_⟩
    exact (Text.mem_of_mem_splitOn hword c hc).1

/-- A name in snake case can be told from its field. -/
theorem toSnakeCase_fieldName (h : IsSnakeCase name) : toSnakeCase (fieldName name) = name := by
  obtain ⟨first, others, hwords⟩ := List.exists_cons_of_ne_nil (List.splitOn_ne_nil '_' name)
  obtain ⟨c, rest, rfl, hc⟩ := h.words first (hwords ▸ List.mem_cons_self ..)
  have hclass : className name = c.toUpper :: (rest ++ others.flatMap Text.capitalize) := by
    rw [h.className_eq, hwords, List.flatMap_cons, capitalize_cons hc, List.cons_append]
  have hsnake := h.toSnakeCase_className
  rw [hclass, toSnakeCase_toUpper hc] at hsnake
  unfold fieldName
  rw [hclass, decapitalize_cons hc, toSnakeCase_cons (upperChar_small c hc).2.2.2.2]
  exact (List.cons.inj hsnake).2

theorem decapitalize_capitalize (h : StartsSmall name) :
    Text.decapitalize (Text.capitalize name) = name := by
  obtain ⟨c, rest, rfl, hc⟩ := h
  rw [capitalize_cons hc, decapitalize_cons hc]

end Identifier

/-! ## Bindings and their fields -/

theorem nodup_eraseDups {α : Type} [DecidableEq α] (l : List α) : l.eraseDups.Nodup := by
  induction hn : l.length using Nat.strongRecOn generalizing l with
  | ind n ih =>
    cases l with
    | nil => exact List.nodup_nil
    | cons a rest =>
      rw [List.eraseDups_cons, List.nodup_cons, List.mem_eraseDups]
      refine ⟨by simp, ih _ ?_ _ rfl⟩
      rw [← hn, List.length_cons]
      exact Nat.lt_succ_of_le (List.length_filter_le _ _)

theorem LayoutModule.nodup_of_readLayout {m : LayoutModule} {file : Path} {contents : Text}
    {layout : LayoutBindings} (h : m.readLayout file contents = .ok layout) :
    layout.views.Nodup ∧ layout.variables.Nodup := by
  obtain ⟨-, -, rfl⟩ := readLayout_eq_ok.1 h
  exact ⟨nodup_eraseDups _, nodup_eraseDups _⟩

namespace BindingStub

/-- The fields that a stub declares, those of views first. -/
def fields (layout : LayoutBindings) : List Text :=
  layout.views.map viewField ++ layout.variables.map variableField

def fieldLines (config : BindingConfig) (layout : LayoutBindings) : List Text :=
  layout.views.flatMap (viewLines config) ++ layout.variables.flatMap variableLines

theorem fieldLines_infix (config : BindingConfig) (package : Text) (layout : LayoutBindings) :
    Text.ofLines (fieldLines config layout) <:+: source config package layout := by
  refine ⟨Text.ofLines (headLines config package layout.className),
    constructor config layout.className layout.views ++ Text.ofLines
      (layout.variables.flatMap accessorLines ++ factoryLines layout.className ++ ["\x7d".toList]), ?_⟩
  simp only [source, fieldLines, Text.ofLines, List.flatMap_append, List.append_assoc]

/-- A view in snake case has the field of a variable only if it is named `m_` and the variable. -/
theorem eq_of_viewField {view b : Binding} (hview : Identifier.IsSnakeCase view.name)
    (hb : Identifier.StartsSmall b.name) (h : viewField view = variableField b) :
    view.name = "m_" ++ Identifier.toSnakeCase b.name := by
  obtain ⟨c, rest, hname, hc⟩ := hb
  have hm : 'm' ∉ Identifier.capitalLetters := by decide
  have hcapital := (Identifier.upperChar_small c hc).2.2.2.2
  have hfield : variableField b = 'm' :: c.toUpper :: rest := by
    unfold variableField
    rw [hname, Identifier.capitalize_cons hc]
    rfl
  rw [← Identifier.toSnakeCase_fieldName hview, hname, Identifier.toSnakeCase_cons hcapital]
  show Identifier.toSnakeCase (viewField view) = _
  rw [h, hfield, Identifier.toSnakeCase_cons hm, Identifier.toSnakeCase_toUpper hc]
  rfl

theorem variableField_inj {a b : Binding} :
    variableField a = variableField b ↔ Text.capitalize a.name = Text.capitalize b.name := by
  unfold variableField
  exact List.append_right_inj _

/-- Where the binding's name can be told from `f`, it is as good as the name. -/
theorem nodup_map_iff_of_name {f : Binding → Text} {bindings : List Binding} (h : bindings.Nodup)
    (hname : ∀ a ∈ bindings, ∀ b ∈ bindings, f a = f b ↔ a.name = b.name) :
    (bindings.map f).Nodup ↔ (bindings.map (·.name)).Nodup := by
  rw [List.nodup_map_iff_inj_on h, List.nodup_map_iff_inj_on h]
  exact forall₂_congr fun a ha => forall₂_congr fun b hb => by rw [hname a ha b hb]

/-- **When no field is declared twice.** No binding is there twice, so the fields are distinct just
where different bindings have different fields. Where ids are in snake case and variables begin with
small letters, these are the layouts in which no id and no variable is declared in two ways. -/
theorem fields_distinct {m : LayoutModule} {file : Path} {contents : Text} {layout : LayoutBindings}
    (h : m.readLayout file contents = .ok layout) :
    ((fields layout).Nodup ↔
      (∀ view ∈ layout.views, ∀ other ∈ layout.views,
        Identifier.fieldName view.name = Identifier.fieldName other.name → view = other) ∧
      (∀ b ∈ layout.variables, ∀ other ∈ layout.variables,
        Text.capitalize b.name = Text.capitalize other.name → b = other) ∧
      ∀ view ∈ layout.views, ∀ b ∈ layout.variables,
        Identifier.fieldName view.name ≠ "m" ++ Text.capitalize b.name) ∧
    ((∀ view ∈ layout.views, Identifier.IsSnakeCase view.name) →
      (∀ b ∈ layout.variables, Identifier.StartsSmall b.name) →
      (∀ view ∈ layout.views, ∀ b ∈ layout.variables,
        view.name ≠ "m_" ++ Identifier.toSnakeCase b.name) →
      ((fields layout).Nodup ↔
        (layout.views.map (·.name)).Nodup ∧ (layout.variables.map (·.name)).Nodup)) := by
  obtain ⟨hviews, hvariables⟩ := LayoutModule.nodup_of_readLayout h
  have hsplit : (fields layout).Nodup ↔ (layout.views.map viewField).Nodup ∧
      (layout.variables.map variableField).Nodup ∧
        ∀ view ∈ layout.views, ∀ b ∈ layout.variables, viewField view ≠ variableField b := by
    unfold fields
    rw [List.nodup_append, List.forall_mem_map]
    simp only [List.forall_mem_map]
  refine ⟨?_, fun hsnake hsmall hapart => ?_⟩
  · rw [hsplit, List.nodup_map_iff_inj_on hviews, List.nodup_map_iff_inj_on hvariables]
    simp only [variableField_inj]
    rfl
  · have hview : ∀ view ∈ layout.views, ∀ other ∈ layout.views,
        viewField view = viewField other ↔ view.name = other.name := by
      intro view hv other ho
      refine ⟨fun heq => ?_, fun heq => congrArg Identifier.fieldName heq⟩
      rw [← Identifier.toSnakeCase_fieldName (hsnake view hv),
        ← Identifier.toSnakeCase_fieldName (hsnake other ho)]
      exact congrArg Identifier.toSnakeCase heq
    have hvariable : ∀ b ∈ layout.variables, ∀ other ∈ layout.variables,
        variableField b = variableField other ↔ b.name = other.name := by
      intro b hb other ho
      rw [variableField_inj]
      refine ⟨fun heq => ?_, fun heq => congrArg Text.capitalize heq⟩
      rw [← Identifier.decapitalize_capitalize (hsmall b hb),
        ← Identifier.decapitalize_capitalize (hsmall other ho), heq]
    rw [hsplit, nodup_map_iff_of_name hviews hview, nodup_map_iff_of_name hvariables hvariable]
    exact and_congr_right fun _ => and_iff_left fun view hv b hb heq =>
      hapart view hv b hb (eq_of_viewField (hsnake view hv) (hsmall b hb) heq)

/-- Two ids in snake case and a variable have three fields. -/
theorem fields_distinct_titles :
    let m : LayoutModule := ⟨"com.app", ⟨[]⟩, {}⟩
    let contents : Text := "<layout><variable name='user' type='a.B'/>" ++
      "<View android:id='@+id/title_text'/><View android:id='@+id/title'/></layout>"
    let layout : LayoutBindings :=
      ⟨"MainBinding", "main.xml", [⟨"title_text", .ofClass "android.view.View", .view⟩,
        ⟨"title", .ofClass "android.view.View", .view⟩], [⟨"user", .ofClass "a.B", .declared⟩]⟩
    m.readLayout "main.xml" contents = .ok layout ∧
      fields layout = ["titleText", "title", "mUser"] ∧ (fields layout).Nodup := by
  intro m contents layout
  have h : m.readLayout "main.xml" contents = .ok layout := by decide +kernel
  have hsnake : ∀ view ∈ layout.views, Identifier.IsSnakeCase view.name := by decide
  exact ⟨h, by decide +kernel, ((fields_distinct h).2 hsnake (by decide) (by decide)).2 (by decide)⟩

/-- Two ids that differ in an underscore have one field, and so has an id with two types. The stub
has the same declaration twice. -/
theorem fields_repeat :
    let m : LayoutModule := ⟨"com.app", ⟨[]⟩, {}⟩
    let contents : Text :=
      "<layout><View android:id='@+id/a_b'/><View android:id='@+id/aB'/></layout>"
    let layout : LayoutBindings :=
      ⟨"MainBinding", "main.xml", [⟨"a_b", .ofClass "android.view.View", .view⟩,
        ⟨"aB", .ofClass "android.view.View", .view⟩], []⟩
    let retyped : Text :=
      "<layout><View android:id='@+id/t'/><Button android:id='@+id/t'/></layout>"
    (m.readLayout "main.xml" contents = .ok layout ∧ fields layout = ["aB", "aB"] ∧
      ¬ (fields layout).Nodup ∧
      (fieldLines {} layout).count "    public final android.view.View aB;".toList = 2 ∧
      Text.ofLines (fieldLines {} layout) <:+: source {} "com.app" layout) ∧
    (m.readLayout "main.xml" retyped).map fields = .ok ["t", "t"] := by
  intro m contents layout retyped
  have hfields : fields layout = ["aB", "aB"] := by decide +kernel
  have hrepeat : ¬ (fields layout).Nodup := by
    rw [hfields]
    decide
  exact ⟨⟨by decide +kernel, hfields, hrepeat, by decide +kernel, fieldLines_infix _ _ _⟩,
    by decide +kernel⟩

end BindingStub

end AndroidResources
