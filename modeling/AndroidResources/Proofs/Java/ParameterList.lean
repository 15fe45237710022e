import AndroidResources.Proofs.Java.TypeRendering

/-!
# Where an argument list is cut

An argument list is cut at its top-level commas: those in front of which as many `<` as `>` stand.

* `topCommas`, `cutsAt` : the positions of these commas, in a text that starts at some depth;
* `slices` : what stands between given positions of a text;
* `splitParametersAt_eq_slices` : the pieces are the slices between the top-level commas, without
  their blanks;
* `splitParametersAt_uncut` : a text without a top-level comma goes to the first piece;
* `splitParameters_intercalate` : pieces that are joined by commas are found again;
* `cutAtTopCommas` : what is cut, where, and into how many pieces.
-/

namespace AndroidResources

/-! ## Top-level commas -/

/-- The `<` of a text less its `>`. -/
def signedDepth (s : Text) : Int :=
  s.count '<' - s.count '>'

/-- A comma stands at the position, and in front of it as many `<` as `>`. -/
def IsTopComma (s : Text) (i : Nat) : Prop :=
  s[i]? = some ',' ∧ (s.take i).count '<' = (s.take i).count '>'

instance (s : Text) (i : Nat) : Decidable (IsTopComma s i) :=
  inferInstanceAs (Decidable (_ ∧ _))

def topCommas (s : Text) : List Nat :=
  (List.range s.length).filter (IsTopComma s)

/-- The positions of the commas at depth zero in a text that starts at the given depth. -/
def cutsAt (depth : Int) (s : Text) : List Nat :=
  (List.range s.length).filter fun i => s[i]? = some ',' ∧ depth + signedDepth (s.take i) = 0

/-- What stands in front of, between and behind the characters at the given positions. -/
def slices (s : Text) (positions : List Nat) : List Text :=
  List.zipWith (fun start stop => (s.take stop).drop start) (0 :: positions.map (· + 1))
    (positions ++ [s.length])

theorem signedDepth_nil : signedDepth [] = 0 := rfl

theorem signedDepth_cons (c : Char) (s : Text) :
    signedDepth (c :: s) = bracketStep c + signedDepth s := by
  unfold signedDepth bracketStep
  rw [List.count_cons, List.count_cons]
  simp only [beq_iff_eq]
  split_ifs <;> grind

theorem signedDepth_eq_zero {s : Text} : signedDepth s = 0 ↔ s.count '<' = s.count '>' := by
  unfold signedDepth
  omega

theorem topCommas_eq (s : Text) : topCommas s = cutsAt 0 s := by
  refine List.filter_congr fun i _ => ?_
  rw [decide_eq_decide, IsTopComma, Int.zero_add, signedDepth_eq_zero]

theorem cutsAt_cons (depth : Int) (c : Char) (rest : Text) :
    cutsAt depth (c :: rest) =
      (if c = ',' ∧ depth = 0 then [0] else []) ++
        (cutsAt (depth + bracketStep c) rest).map (· + 1) := by
  have hshift : ∀ i, ((c :: rest)[i + 1]? = some ',' ∧
      depth + signedDepth ((c :: rest).take (i + 1)) = 0) ↔
      rest[i]? = some ',' ∧ depth + bracketStep c + signedDepth (rest.take i) = 0 := fun i => by
    rw [List.getElem?_cons_succ, List.take_succ_cons, signedDepth_cons, Int.add_assoc]
  unfold cutsAt
  rw [List.length_cons, List.range_succ_eq_map, List.filter_cons, List.filter_map]
  simp only [Function.comp_def, hshift]
  simp only [List.getElem?_cons_zero, Option.some.injEq, List.take_zero, signedDepth_nil,
    Int.add_zero, decide_eq_true_eq]
  split_ifs <;> rfl

/-! ## Slices -/

theorem length_slices (s : Text) (positions : List Nat) :
    (slices s positions).length = positions.length + 1 := by
  simp [slices]

theorem zipWith_shift (c : Char) (rest : Text) (starts stops : List Nat) :
    List.zipWith (fun start stop => ((c :: rest).take stop).drop start) (starts.map (· + 1))
        (stops.map (· + 1)) =
      List.zipWith (fun start stop => (rest.take stop).drop start) starts stops := by
  rw [List.zipWith_map]
  simp only [List.take_succ_cons, List.drop_succ_cons]

theorem slices_cut (c : Char) (rest : Text) (positions : List Nat) :
    slices (c :: rest) (0 :: positions.map (· + 1)) = [] :: slices rest positions := by
  have hshift := zipWith_shift c rest (0 :: positions.map (· + 1)) (positions ++ [rest.length])
  rw [List.map_append] at hshift
  unfold slices
  rw [List.cons_append, List.zipWith_cons_cons, ← hshift]
  rfl

theorem slices_keep (c : Char) (rest : Text) (positions : List Nat) :
    slices (c :: rest) (positions.map (· + 1)) = consPiece c (slices rest positions) := by
  unfold slices
  cases positions with
  | nil => simp [consPiece]
  | cons first others =>
    have hshift := zipWith_shift c rest ((first + 1) :: others.map (· + 1))
      (others ++ [rest.length])
    rw [List.map_append] at hshift
    rw [List.map_cons, List.cons_append, List.zipWith_cons_cons, List.cons_append,
      List.zipWith_cons_cons, consPiece, ← hshift]
    rfl

theorem compact_cons_blank {c : Char} (hc : Text.isBlank c = true) (s : Text) :
    Text.compact (c :: s) = Text.compact s := by
  unfold Text.compact
  exact List.filter_cons_of_neg (by simp [hc])

theorem map_compact_consPiece (c : Char) {pieces : List Text} (h : pieces ≠ []) :
    (consPiece c pieces).map Text.compact =
      if Text.isBlank c then pieces.map Text.compact else consPiece c (pieces.map Text.compact) := by
  obtain ⟨piece, others, rfl⟩ := List.exists_cons_of_ne_nil h
  unfold consPiece
  split_ifs with hblank
  · rw [List.map_cons, List.map_cons, compact_cons_blank hblank]
  · rw [List.map_cons, List.map_cons, compact_cons (by simpa using hblank)]

theorem bracketStep_of_isBlank {c : Char} (h : Text.isBlank c = true) : bracketStep c = 0 := by
  unfold bracketStep
  rw [if_neg, if_neg] <;> rintro rfl <;> exact absurd h (by decide)

/-- The pieces are what stands between the commas at depth zero, without blanks. -/
theorem splitParametersAt_eq_slices (depth : Int) (s : Text) :
    splitParametersAt depth s = (slices s (cutsAt depth s)).map Text.compact := by
  -- what is left of a text starts at the depth that its front has led to
  induction s generalizing depth with
  | nil => rfl
  | cons c rest ih =>
    have hne : slices rest (cutsAt (depth + bracketStep c) rest) ≠ [] := by
      rw [← List.length_pos_iff, length_slices]
      omega
    rw [splitParametersAt, cutsAt_cons]
    split_ifs with hcut hblank
    · have hstep : bracketStep c = 0 := by
        rw [hcut.1]
        decide
      rw [hstep, Int.add_zero, List.singleton_append, slices_cut, List.map_cons, ih]
      rfl
    · rw [List.nil_append, slices_keep, map_compact_consPiece c hne, if_pos hblank, ← ih,
        bracketStep_of_isBlank hblank, Int.add_zero]
    · rw [List.nil_append, slices_keep, map_compact_consPiece c hne, if_neg hblank, ← ih]

/-! ## Pieces found again -/

theorem splitParametersAt_compact (depth : Int) (s : Text) :
    splitParametersAt depth (Text.compact s) = splitParametersAt depth s := by
  induction s generalizing depth with
  | nil => rfl
  | cons c rest ih =>
    by_cases hblank : Text.isBlank c = true
    · have hgap : Text.allBlank [c] = true := by simp [Text.allBlank, hblank]
      rw [compact_cons_blank hblank, ih, ← List.singleton_append, splitParametersAt_gap depth hgap]
    · rw [compact_cons (by simpa using hblank), splitParametersAt, splitParametersAt, if_neg hblank,
        if_neg hblank, ih, ih]

/-- A text without a comma at depth zero goes to the first piece. -/
theorem splitParametersAt_uncut {depth : Int} {s : Text} (h : cutsAt depth s = []) (rest : Text) :
    splitParametersAt depth (s ++ rest) =
      prependPiece (Text.compact s) (splitParametersAt (depth + signedDepth s) rest) := by
  induction s generalizing depth with
  | nil => simp [signedDepth_nil, Text.compact, prependPiece]
  | cons c s ih =>
    rw [cutsAt_cons, List.append_eq_nil_iff, List.map_eq_nil_iff] at h
    have hcut : ¬ (c = ',' ∧ depth = 0) := fun hcut => by simp [hcut] at h
    have hrest := ih h.2
    rw [List.cons_append, splitParametersAt, if_neg hcut, signedDepth_cons, ← Int.add_assoc]
    split_ifs with hblank
    · rw [bracketStep_of_isBlank hblank, Int.add_zero] at hrest ⊢
      rw [hrest, compact_cons_blank hblank]
    · rw [hrest, compact_cons (by simpa using hblank)]
      rfl

structure IsPiece (piece : Text) : Prop where
  plain : ∀ c ∈ piece, Text.isBlank c = false
  balanced : piece.count '<' = piece.count '>'
  uncut : topCommas piece = []

theorem splitParametersAt_piece {piece : Text} (h : IsPiece piece) (rest : Text) :
    splitParametersAt 0 (piece ++ rest) = prependPiece piece (splitParametersAt 0 rest) := by
  have huncut : cutsAt 0 piece = [] := by
    rw [← topCommas_eq]
    exact h.uncut
  have hcompact : Text.compact piece = piece := List.filter_eq_self.2 fun c hc => by
    simp [h.plain c hc]
  rw [splitParametersAt_uncut huncut, signedDepth_eq_zero.2 h.balanced, hcompact, Int.add_zero]

/-- Pieces that are joined by commas are found again. -/
theorem splitParameters_intercalate {pieces : List Text} (hne : pieces ≠ [])
    (h : ∀ piece ∈ pieces, IsPiece piece) :
    splitParameters (List.intercalate [','] pieces) = pieces := by
  unfold splitParameters
  induction pieces with
  | nil => exact absurd rfl hne
  | cons piece others ih =>
    obtain ⟨hpiece, hothers⟩ := List.forall_mem_cons.1 h
    cases others with
    | nil =>
      have hlast := splitParametersAt_piece hpiece []
      rw [List.append_nil, splitParametersAt, prependPiece_cons, List.append_nil] at hlast
      rw [List.intercalate_singleton, hlast]
    | cons other others =>
      have hcomma : ∀ rest, splitParametersAt 0 (',' :: rest) = [] :: splitParametersAt 0 rest :=
        fun rest => by rw [splitParametersAt, if_pos ⟨rfl, rfl⟩]
      rw [List.intercalate_cons_cons, List.append_assoc, splitParametersAt_piece hpiece,
        List.singleton_append, hcomma, prependPiece_cons, List.append_nil, ih (by simp) hothers]

/-! ## Argument lists -/

structure CutAtTopCommas (s : Text) : Prop where
  /-- The pieces are what stands between the top-level commas, without its blanks. -/
  pieces : splitParameters s = (slices s (topCommas s)).map Text.compact
  joined : List.intercalate [','] (splitParameters s) = Text.compact s
  count : (splitParameters s).length = (topCommas s).length + 1
  /-- Pieces that are joined by commas are found again, wherever blanks stand in the list. -/
  found : ∀ pieces : List Text, pieces ≠ [] → (∀ piece ∈ pieces, IsPiece piece) →
    Text.compact s = List.intercalate [','] pieces → splitParameters s = pieces

/-- **An argument list is cut at its top-level commas and nowhere else.** -/
theorem cutAtTopCommas (s : Text) : CutAtTopCommas s := by
  have hpieces : splitParameters s = (slices s (topCommas s)).map Text.compact := by
    rw [topCommas_eq]
    exact splitParametersAt_eq_slices 0 s
  refine
    { pieces := hpieces
      joined := intercalate_splitParameters s
      count := by rw [hpieces, List.length_map, length_slices]
      found := fun pieces hne hall hjoin => ?_ }
  rw [splitParameters, ← splitParametersAt_compact, hjoin]
  exact splitParameters_intercalate hne hall

/-- Blanks around and inside pieces, a comma at depth one and one at depth minus one, and a last
piece without characters. -/
theorem cutAtTopCommas_nested :
    let s : Text := " Map<K,\u00a0V> ,\t>,<, ".toList
    let pieces : List Text := ["Map<K,V>".toList, ">,<".toList, []]
    (∀ piece ∈ pieces, IsPiece piece) ∧ Text.compact s = List.intercalate [','] pieces ∧
      topCommas s = [11, 16] ∧ splitParameters s = pieces := by
  intro s pieces
  have hpieces : ∀ piece ∈ pieces, IsPiece piece :=
    List.forall_mem_cons.2 ⟨⟨Text.forall_of_all (by decide), by decide, by decide⟩,
      List.forall_mem_cons.2 ⟨⟨Text.forall_of_all (by decide), by decide, by decide⟩,
        List.forall_mem_singleton.2 ⟨nofun, rfl, rfl⟩⟩⟩
  have hjoin : Text.compact s = List.intercalate [','] pieces := by decide
  exact ⟨hpieces, hjoin, by decide, (cutAtTopCommas s).found pieces (by simp [pieces]) hpieces hjoin⟩

end AndroidResources
