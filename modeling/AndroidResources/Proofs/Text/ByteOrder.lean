import AndroidResources.Text.Basic
import Mathlib.Tactic.SplitIfs

/-!
# The order of bytes

Texts are compared character by character. This is how their UTF-8 bytes compare.

* `compare_eq_lt_iff_lex` : lists compare by the first elements in which they differ;
* `Text.bytes`, `Text.PrecedesInBytes` : the UTF-8 bytes of a text and their order;
* `Text.utf8EncodeChar_lt` : the bytes of a smaller character are smaller, whatever follows them;
* `Text.precedesInBytes_iff` : texts compare as their bytes do.
-/

namespace AndroidResources

theorem compare_eq_lt_iff_lex {α : Type} [Ord α] [Std.LawfulEqOrd α] {a b : List α} :
    compare a b = .lt ↔ List.Lex (fun x y => compare x y = .lt) a b := by
  rw [List.compare_eq_compareLex]
  induction a generalizing b with
  | nil => cases b <;> simp [List.compareLex]
  | cons x a ih =>
    cases b with
    | nil => simp [List.compareLex]
    | cons y b =>
      rw [List.compareLex_cons_cons, List.cons_lex_cons_iff, ← ih, Ordering.then_eq_lt,
        Std.LawfulEqCmp.compare_eq_iff_eq]

theorem compare_char_eq_lt {c d : Char} : compare c d = .lt ↔ c.toNat < d.toNat := by
  have heq : compare c d = if c < d then .lt else if c = d then .eq else .gt := rfl
  rw [heq]
  split_ifs with hlt hsame
  · exact iff_of_true rfl hlt
  · exact iff_of_false nofun hlt
  · exact iff_of_false nofun hlt

namespace Text

def bytes (s : Text) : List UInt8 :=
  (toUtf8 s).data.toList

/-- The bytes of the first text are in front of those of the second in the order of bytes. -/
def PrecedesInBytes (s t : Text) : Prop :=
  s.bytes < t.bytes

instance : Std.Asymm PrecedesInBytes :=
  ⟨fun _ _ => List.lt_asymm⟩

theorem bytes_eq (s : Text) : s.bytes = s.flatMap String.utf8EncodeChar := by
  unfold bytes toUtf8
  rw [String.toUTF8_eq_toByteArray, String.toByteArray_ofList]
  exact List.toList_data_toByteArray

theorem toNat_lt (c : Char) : c.toNat < 0x110000 := by
  have h := c.valid
  unfold UInt32.isValidChar Nat.isValidChar at h
  show c.val.toNat < _
  omega

theorem ofNat_lt_iff {a b : Nat} (ha : a < 256) (hb : b < 256) :
    UInt8.ofNat a < UInt8.ofNat b ↔ a < b := by
  rw [UInt8.lt_iff_toNat_lt, UInt8.toNat_ofNat_of_lt' ha, UInt8.toNat_ofNat_of_lt' hb]

theorem ofNat_eq_iff {a b : Nat} (ha : a < 256) (hb : b < 256) :
    UInt8.ofNat a = UInt8.ofNat b ↔ a = b := by
  rw [← UInt8.toNat_inj, UInt8.toNat_ofNat_of_lt' ha, UInt8.toNat_ofNat_of_lt' hb]

/-- Numbers compare by the first digit in which they differ. -/
theorem div_mod_lt {m n : Nat} (k : Nat) (h : m < n) :
    m / k < n / k ∨ m / k = n / k ∧ m % k < n % k := by
  rcases Nat.lt_or_eq_of_le (Nat.div_le_div_right (Nat.le_of_lt h) : m / k ≤ n / k) with hlt | heq
  · exact .inl hlt
  · have hm := Nat.div_add_mod m k
    have hn := Nat.div_add_mod n k
    rw [heq] at hm
    exact .inr ⟨heq, by omega⟩

/-- A smaller character has smaller bytes, whatever follows them. -/
theorem utf8EncodeChar_lt {c d : Char} (h : c.toNat < d.toNat) (r r' : List UInt8) :
    String.utf8EncodeChar c ++ r < String.utf8EncodeChar d ++ r' := by
  have hbound : d.val.toNat < 0x110000 := toNat_lt d
  replace h : c.val.toNat < d.val.toNat := h
  -- the digits to the base 64, the last one first
  have hlast := div_mod_lt 64 h
  have hthird := fun hlt : c.val.toNat / 64 < d.val.toNat / 64 => div_mod_lt 64 hlt
  have hsecond := fun hlt : c.val.toNat / 64 / 64 < d.val.toNat / 64 / 64 => div_mod_lt 64 hlt
  simp only [Nat.div_div_eq_div_mul, Nat.reduceMul] at hthird hsecond
  unfold String.utf8EncodeChar
  dsimp only
  split_ifs <;> simp only [List.cons_append, List.cons_lt_cons_iff] <;>
    simp (disch := omega) only [ofNat_lt_iff, ofNat_eq_iff, Nat.mod_eq_of_lt] <;> omega

theorem precedesInBytes_iff {s t : Text} : s.PrecedesInBytes t ↔ compare s t = .lt := by
  have bytes_lt : ∀ {s t : Text}, compare s t = .lt → s.bytes < t.bytes := by
    intro s t h
    rw [compare_eq_lt_iff_lex] at h
    rw [bytes_eq, bytes_eq]
    induction h with
    | @nil d t =>
      obtain ⟨b, bs, hb⟩ := List.exists_cons_of_ne_nil (String.utf8EncodeChar_ne_nil (c := d))
      rw [List.flatMap_nil, List.flatMap_cons, hb]
      exact List.nil_lt_cons ..
    | @cons c s t _ ih =>
      rw [List.flatMap_cons, List.flatMap_cons]
      exact List.append_left_lt ih
    | @rel c s d t hcd =>
      rw [List.flatMap_cons, List.flatMap_cons]
      exact utf8EncodeChar_lt (compare_char_eq_lt.1 hcd) _ _
  refine ⟨fun h => ?_, bytes_lt⟩
  cases hcompare : compare s t with
  | lt => rfl
  | eq =>
    rw [Std.LawfulEqCmp.eq_of_compare hcompare] at h
    exact absurd h (List.lt_irrefl _)
  | gt => exact absurd h (List.lt_asymm (bytes_lt (Std.OrientedCmp.lt_of_gt hcompare)))

end Text

end AndroidResources
