import AndroidResources.Java.BrClass
import AndroidResources.Proofs.Java.RClassText
import AndroidResources.Proofs.Text.ByteOrder
import AndroidResources.Proofs.Text.Split
import AndroidResources.Text.Digits
import Mathlib.Data.List.Sort
import Mathlib.Logic.Relation

/-!
# The numbers of variables in the `BR` class

* `Declares` : the names of the variables of layouts;
* `mem_variableNames`, `variableNames_pairwise`, `variableNames_congr` : they are listed in the order
  of their bytes, and nothing but which names there are decides the list;
* `zipIdx_order` : numbers that are given in an order compare as what they are given to;
* `readField?`, `fieldsOf` : the fields of the class read back from its lines;
* `Rearranges` : layouts or variables in another order, or repeated;
* `fields_of_source` : the fields of the class, how they are numbered and what decides them.
-/

namespace AndroidResources

/-! ## Numbers -/

theorem Text.decimalDigit?_of_isDigit {c : Char} (h : c.isDigit = true) :
    decimalDigit? c = some (c.toNat - '0'.toNat) := by
  unfold Char.isDigit at h
  rw [Bool.and_eq_true, decide_eq_true_eq, decide_eq_true_eq] at h
  exact if_pos h

theorem Text.decimalNumber_ofNat (n : Nat) : decimalNumber (ofNat n) = n := by
  have hdigits : (ofNat n).filterMap decimalDigit? =
      (ofNat n).map fun c => c.toNat - '0'.toNat := by
    rw [← List.filterMap_eq_map]
    refine List.filterMap_congr fun c hc => decimalDigit?_of_isDigit ?_
    exact Nat.isDigit_of_mem_toDigits (by decide) (by decide) hc
  have hvalue : Nat.ofDigitChars 10 (ofNat n) 0 = n :=
    Nat.ofDigitChars_toDigits (by decide) (by decide)
  rw [Nat.ofDigitChars_eq_foldl] at hvalue
  rw [decimalNumber, hdigits, List.foldl_map, hvalue]

theorem Text.not_mem_ofNat {c : Char} (h : c.isDigit = false) (n : Nat) : c ∉ ofNat n := by
  intro hc
  rw [Nat.isDigit_of_mem_toDigits (by decide) (by decide) hc] at h
  cases h

theorem zipIdx_order {α : Type} {R : α → α → Prop} [Std.Asymm R] {l : List α} (h : l.Pairwise R)
    {first : Nat} {x y : α × Nat} (hx : x ∈ l.zipIdx first) (hy : y ∈ l.zipIdx first) :
    (x.2 < y.2 ↔ R x.1 y.1) ∧ (x.2 = y.2 ↔ x.1 = y.1) := by
  have hirrefl : ∀ a, ¬ R a a := fun a ha => Std.Asymm.asymm a a ha ha
  have hget := List.pairwise_iff_getElem.1 h
  obtain ⟨i, hi, rfl⟩ := List.mem_iff_getElem.1 hx
  obtain ⟨j, hj, rfl⟩ := List.mem_iff_getElem.1 hy
  rw [List.length_zipIdx] at hi hj
  rw [List.getElem_zipIdx, List.getElem_zipIdx]
  rcases Nat.lt_trichotomy i j with hlt | rfl | hlt
  · have hR := hget i j hi hj hlt
    have hne : l[i] ≠ l[j] := fun heq => hirrefl _ (heq ▸ hR)
    exact ⟨iff_of_true (by omega) hR, iff_of_false (by omega) hne⟩
  · exact ⟨iff_of_false (Nat.lt_irrefl _) (hirrefl _), iff_of_true rfl rfl⟩
  · have hR := hget j i hj hi hlt
    have hne : l[i] ≠ l[j] := fun heq => hirrefl _ (heq ▸ hR)
    exact ⟨iff_of_false (by omega) (Std.Asymm.asymm _ _ hR), iff_of_false (by omega) hne⟩

namespace BrClass

/-! ## The names -/

def Declares (layouts : List LayoutBindings) (name : Text) : Prop :=
  ∃ layout ∈ layouts, ∃ binding ∈ layout.variables, binding.name = name

theorem mem_variableNames {layouts : List LayoutBindings} {name : Text} :
    name ∈ variableNames layouts ↔ Declares layouts name := by
  unfold variableNames Declares
  rw [OrderedMap.mem_keys_ofList]
  simp

theorem variableNames_pairwise (layouts : List LayoutBindings) :
    (variableNames layouts).Pairwise Text.PrecedesInBytes :=
  (OrderedMap.keys_sorted _).imp Text.precedesInBytes_iff.2

theorem variableNames_congr {layouts others : List LayoutBindings}
    (h : ∀ name, Declares others name ↔ Declares layouts name) :
    variableNames others = variableNames layouts := by
  refine (variableNames_pairwise others).eq_of_mem_iff (variableNames_pairwise layouts) fun name => ?_
  rw [mem_variableNames, mem_variableNames, h]

/-! ## Reading -/

def readField? (line : Text) : Option (Text × Nat) :=
  (RClass.between? "    public static int " ";" line).bind fun field =>
    (Text.splitLast? '=' field).map fun sides => (sides.1.dropLast, Text.decimalNumber sides.2)

def fieldsOf (source : Text) : List (Text × Nat) :=
  (source.splitOn '\n').filterMap readField?

theorem readField?_fieldLine (name : Text) (number : Nat) :
    readField? (fieldLine name number) = some (name, number) := by
  have hline : fieldLine name number =
      "    public static int " ++ ((name ++ [' ']) ++ '=' :: ' ' :: Text.ofNat number) ++ ";" := by
    unfold fieldLine
    simp
  have hsign : '=' ∉ ' ' :: Text.ofNat number := by
    rw [List.mem_cons, not_or]
    exact ⟨by decide, Text.not_mem_ofNat rfl number⟩
  have hnumber : Text.decimalNumber (' ' :: Text.ofNat number) = number :=
    Text.decimalNumber_ofNat number
  rw [readField?, hline, RClass.between?_append, Option.bind_some, Text.splitLast?_append hsign,
    Option.map_some, List.dropLast_concat, hnumber]

theorem readField?_packageLines (package : Text) :
    ∀ line ∈ JavaSource.packageLines package, readField? line = none := by
  unfold JavaSource.packageLines JavaSource.packageDeclaration
  split
  · simp
  · intro line hline
    rcases List.mem_pair.1 hline with rfl | rfl <;> rfl

theorem break_not_mem_fieldLine {name : Text} (h : '\n' ∉ name) (number : Nat) :
    '\n' ∉ fieldLine name number := by
  have hnumber := Text.not_mem_ofNat (show '\n'.isDigit = false from rfl) number
  unfold fieldLine
  simp [h, hnumber]

def numberedLines (package : Text) (fields : List (Text × Nat)) : List Text :=
  JavaSource.header ::
    (JavaSource.packageLines package ++
      ("public class BR \x7b".toList ::
        (fields.map (fun field => fieldLine field.1 field.2) ++ ["\x7d".toList])))

theorem filterMap_readField?_numberedLines (package : Text) (fields : List (Text × Nat)) :
    (numberedLines package fields ++ [[]]).filterMap readField? = fields := by
  have hpackage : (JavaSource.packageLines package).filterMap readField? = [] :=
    List.filterMap_eq_nil_iff.2 (readField?_packageLines package)
  have hfields : (fields.map fun field => fieldLine field.1 field.2).filterMap readField? =
      fields := by
    rw [List.filterMap_map]
    simp only [Function.comp_def, readField?_fieldLine, Prod.mk.eta, List.filterMap_some]
  have hheader : readField? JavaSource.header = none := rfl
  have hopen : readField? "public class BR \x7b".toList = none := rfl
  have hclose : (["\x7d".toList] ++ [[]]).filterMap readField? = [] := rfl
  rw [numberedLines, List.cons_append, List.filterMap_cons_none hheader, List.append_assoc,
    List.filterMap_append, hpackage, List.nil_append, List.cons_append,
    List.filterMap_cons_none hopen, List.append_assoc, List.filterMap_append, hfields, hclose,
    List.append_nil]

theorem break_not_mem_numberedLines {package : Text} {fields : List (Text × Nat)}
    (hpackage : '\n' ∉ package) (hfields : ∀ field ∈ fields, '\n' ∉ field.1) :
    ∀ line ∈ numberedLines package fields, '\n' ∉ line := by
  refine List.forall_mem_cons.2 ⟨by decide, List.forall_mem_append.2
    ⟨RClass.break_not_mem_packageLines hpackage, List.forall_mem_cons.2 ⟨by decide,
      List.forall_mem_append.2 ⟨fun line hline => ?_, List.forall_mem_singleton.2 (by decide)⟩⟩⟩⟩
  obtain ⟨field, hfield, rfl⟩ := List.mem_map.1 hline
  exact break_not_mem_fieldLine (hfields field hfield) field.2

/-- Fields whose names have no line breaks are read back. -/
theorem fieldsOf_numberedLines {package : Text} {fields : List (Text × Nat)}
    (hpackage : '\n' ∉ package) (hfields : ∀ field ∈ fields, '\n' ∉ field.1) :
    fieldsOf (Text.ofLines (numberedLines package fields)) = fields := by
  rw [fieldsOf, Text.splitOn_ofLines (break_not_mem_numberedLines hpackage hfields),
    filterMap_readField?_numberedLines]

/-! ## Other orders -/

/-- Layouts, or the variables of a layout, stand in another order, or one of them is repeated. -/
inductive Rearranges : List LayoutBindings → List LayoutBindings → Prop
  | layouts {layouts others : List LayoutBindings} (h : layouts.Perm others) :
      Rearranges layouts others
  | repeatedLayout {layouts : List LayoutBindings} {layout : LayoutBindings}
      (h : layout ∈ layouts) : Rearranges layouts (layout :: layouts)
  | ofVariables {front back : List LayoutBindings} {layout : LayoutBindings}
      {bindings : List Binding} (h : layout.variables.Perm bindings) :
      Rearranges (front ++ layout :: back)
        (front ++ { layout with «variables» := bindings } :: back)
  | repeatedVariable {front back : List LayoutBindings} {layout : LayoutBindings}
      {binding : Binding} (h : binding ∈ layout.variables) :
      Rearranges (front ++ layout :: back)
        (front ++ { layout with «variables» := binding :: layout.variables } :: back)

theorem declares_replaced {front back : List LayoutBindings} {layout layout' : LayoutBindings}
    (h : ∀ binding, binding ∈ layout'.variables ↔ binding ∈ layout.variables) (name : Text) :
    Declares (front ++ layout' :: back) name ↔ Declares (front ++ layout :: back) name := by
  unfold Declares
  simp only [List.mem_append, List.mem_cons, or_and_right, exists_or, exists_eq_left, h]

theorem Rearranges.declares_iff {layouts others : List LayoutBindings}
    (h : Rearranges layouts others) (name : Text) :
    Declares others name ↔ Declares layouts name := by
  cases h with
  | layouts h =>
    unfold Declares
    simp only [h.mem_iff]
  | repeatedLayout h =>
    unfold Declares
    simp only [List.mem_cons, or_and_right, exists_or, exists_eq_left]
    exact or_iff_right_of_imp fun hlayout => ⟨_, h, hlayout⟩
  | ofVariables h => exact declares_replaced (fun binding => h.symm.mem_iff) name
  | repeatedVariable h =>
    refine declares_replaced (fun binding => ?_) name
    rw [List.mem_cons]
    exact or_iff_right_of_imp fun heq => heq ▸ h

theorem declares_iff_of_rearranged {layouts others : List LayoutBindings}
    (h : Relation.EqvGen Rearranges layouts others) (name : Text) :
    Declares others name ↔ Declares layouts name := by
  induction h with
  | rel _ _ h => exact h.declares_iff name
  | refl _ => rfl
  | symm _ _ _ ih => exact ih.symm
  | trans _ _ _ _ _ ih ih' => exact ih'.trans ih

/-! ## The fields of the class -/

structure NumbersVariables (package : Text) (layouts : List LayoutBindings)
    (fields : List (Text × Nat)) : Prop where
  /-- The fields stand behind that for all variables, each in a line. -/
  text : source package layouts = Text.ofLines (numberedLines package (("_all".toList, 0) :: fields))
  /-- They are read back where no name has a line break. -/
  read : '\n' ∉ package → (∀ name, Declares layouts name → '\n' ∉ name) →
    fieldsOf (source package layouts) = ("_all".toList, 0) :: fields
  names : ∀ name, name ∈ fields.map (·.1) ↔ Declares layouts name
  sorted : (fields.map (·.1)).Pairwise Text.PrecedesInBytes
  numbers : fields.map (·.2) = List.range' 1 fields.length
  /-- Numbers compare as the bytes of the names do, so that no two names share one. -/
  order : ∀ a ∈ fields, ∀ b ∈ fields,
    (a.2 < b.2 ↔ a.1.PrecedesInBytes b.1) ∧ (a.2 = b.2 ↔ a.1 = b.1)
  /-- Layouts with the same names have the same text. -/
  decided : ∀ others, (∀ name, Declares others name ↔ Declares layouts name) →
    source package others = source package layouts
  /-- In particular it is the same whatever the order and the repetitions are. -/
  rearranged : ∀ others, Relation.EqvGen Rearranges layouts others →
    source package others = source package layouts

theorem source_congr (package : Text) {layouts others : List LayoutBindings}
    (h : ∀ name, Declares others name ↔ Declares layouts name) :
    source package others = source package layouts := by
  rw [source, source, variableNames_congr h]

/-- **The fields of the class.** The variables of all layouts have the numbers from one on, in the
order of the bytes of their names, and nothing but these names decides the text. -/
theorem fields_of_source (package : Text) (layouts : List LayoutBindings) :
    ∃ fields, NumbersVariables package layouts fields := by
  have hnames : ((variableNames layouts).zipIdx 1).map (·.1) = variableNames layouts :=
    List.zipIdx_map_fst ..
  have htext : source package layouts = Text.ofLines
      (numberedLines package (("_all".toList, 0) :: (variableNames layouts).zipIdx 1)) := rfl
  refine ⟨(variableNames layouts).zipIdx 1,
    { text := htext
      read := fun hpackage hbreaks => ?_
      names := fun name => by rw [hnames, mem_variableNames]
      sorted := by
        rw [hnames]
        exact variableNames_pairwise layouts
      numbers := by
        rw [List.length_zipIdx]
        exact List.zipIdx_map_snd ..
      order := fun a ha b hb => zipIdx_order (variableNames_pairwise layouts) ha hb
      decided := fun others h => source_congr package h
      rearranged := fun others h => source_congr package (declares_iff_of_rearranged h) }⟩
  rw [htext]
  refine fieldsOf_numberedLines hpackage (List.forall_mem_cons.2 ⟨by decide, fun field hfield => ?_⟩)
  refine hbreaks field.1 (mem_variableNames.1 ?_)
  rw [← hnames]
  exact List.mem_map_of_mem hfield

def textVariable (name : Text) : Binding :=
  ⟨name, .ofClass "java.lang.String", .declared⟩

def layoutOf (className : Text) (names : List Text) : LayoutBindings :=
  ⟨className, ⟨"res/layout/" ++ className ++ ".xml"⟩, [], names.map textVariable⟩

/-- Two layouts share a variable; one is given twice and the variables of the other are turned. -/
theorem fields_of_source_rows :
    let row := layoutOf "RowItemBinding" ["item".toList, "handler".toList]
    let turned := layoutOf "RowItemBinding" ["handler".toList, "item".toList]
    let header := layoutOf "HeaderBinding" ["item".toList]
    row.variables.Perm turned.variables ∧
      source "com.app" [header, turned, header] = source "com.app" [row, header] ∧
      fieldsOf (source "com.app" [header, turned, header]) =
        [("_all".toList, 0), ("handler".toList, 1), ("item".toList, 2)] := by
  intro row turned header
  have hperm : row.variables.Perm turned.variables := List.Perm.swap ..
  have hrearranged : Relation.EqvGen Rearranges [row, header] [header, turned, header] :=
    .trans _ [header, row, header] _ (.rel _ _ (.repeatedLayout (by simp)))
      (.rel _ _ (@Rearranges.ofVariables [header] [header] row _ hperm))
  obtain ⟨fields, h⟩ := fields_of_source "com.app" [row, header]
  exact ⟨hperm, h.rearranged _ hrearranged, by decide +kernel⟩

end BrClass

end AndroidResources
