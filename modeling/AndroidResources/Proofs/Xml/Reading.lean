import AndroidResources.Proofs.Xml.Tag

/-!
# Reading a written document

* `markup_comment`, `markup_cdata`, `markup_instruction`, `markup_doctype`, `markup_tag` : what
  stands behind a `<` is recognized and ends where it was written to end;
* `readFrom_pieces` : pieces of a document are read as their events, whatever follows;
* `read_renderNodes`, `Document.read_render` : a document is read as its events, without a fault.

A byte order mark in front is text like any other (`read_eq_readFrom`).
-/

namespace AndroidResources.Xml

/-! ## What stands behind a `<` -/

theorem upToBangClose_append {complete : Text → Bool} {s before : Text}
    (hopen : ∀ t u, s = t ++ '>' :: u → complete (t.reverse ++ before) = false)
    (hclose : complete (s.reverse ++ before) = true) (rest : Text) :
    upToBangClose complete before (s ++ '>' :: rest) = some (before.reverse ++ s, rest) := by
  induction s generalizing before with
  | nil =>
    rw [List.nil_append, upToBangClose, if_pos ⟨rfl, hclose⟩, List.append_nil]
  | cons c s ih =>
    have hstep : ¬ (c = '>' ∧ complete before = true) := by
      rintro ⟨rfl, hcomplete⟩
      rw [show before = [].reverse ++ before from rfl, hopen [] s rfl] at hcomplete
      cases hcomplete
    have hopen' : ∀ t u, s = t ++ '>' :: u → complete (t.reverse ++ (c :: before)) = false := by
      intro t u hs
      have := hopen (c :: t) u (by rw [hs]; rfl)
      rwa [List.reverse_cons, List.append_assoc] at this
    have hclose' : complete (s.reverse ++ (c :: before)) = true := by
      rwa [List.reverse_cons, List.append_assoc] at hclose
    rw [List.cons_append, upToBangClose, if_neg hstep, ih hopen' hclose', List.reverse_cons,
      List.append_assoc]
    rfl

theorem bangMarkup_skipped {construct : Construct} {complete : Text → Bool} {lead s : Text}
    {verdict : Text → Option Fault}
    (hopen : ∀ t u, s = t ++ '>' :: u → complete t.reverse = false)
    (hclose : complete s.reverse = true) (hlead : List.isPrefixOf lead (s.map Char.toUpper) = true)
    (hverdict : verdict (s.drop lead.length) = none) (rest : Text) :
    bangMarkup construct complete lead (s ++ '>' :: rest) verdict = .skipped rest := by
  have hend : upToBangClose complete [] (s ++ '>' :: rest) = some (s, rest) := by
    apply upToBangClose_append
    · intro t u hs
      rw [List.append_nil]
      exact hopen t u hs
    · rw [List.append_nil]
      exact hclose
  unfold bangMarkup
  rw [hend]
  simp only [hlead, hverdict, if_true]

theorem isPrefixOf_reverse {a t : Text} (ha : a.reverse = a) :
    List.isPrefixOf a t.reverse = true ↔ a <:+ t := by
  rw [List.isPrefixOf_iff_prefix, ← List.reverse_prefix, ha]

theorem middle_of_append_eq {lead s stop t u : Text} (hlead : '>' ∉ lead) (hstop : '>' ∉ stop)
    (h : lead ++ (s ++ stop) = t ++ '>' :: u) :
    ∃ t' v, t = lead ++ t' ∧ s = t' ++ '>' :: v := by
  obtain ⟨t', rfl, h'⟩ | ⟨c, rfl, h'⟩ := List.append_eq_append_iff.1 h
  · obtain ⟨a, rfl, h''⟩ | ⟨c, rfl, h''⟩ := List.append_eq_append_iff.1 h'
    · exact absurd (by rw [h'']; simp) hstop
    · cases c with
      | nil => exact absurd (by rw [← List.nil_append stop, ← h'']; simp) hstop
      | cons d c =>
        cases h''
        exact ⟨t', c, rfl, rfl⟩
  · cases c with
    | nil =>
      rw [List.nil_append] at h'
      cases s with
      | nil => exact absurd (by rw [← List.nil_append stop, ← h']; simp) hstop
      | cons d s =>
        cases h'
        exact ⟨[], s, by simp, rfl⟩
    | cons d c =>
      cases h'
      exact absurd (by simp) hlead

theorem suffix_of_append {a lead t : Text} (h : a <:+ lead ++ t) (hlen : a.length ≤ t.length) :
    a <:+ t :=
  List.suffix_of_suffix_length_le h (List.suffix_append lead t) hlen

theorem markup_comment {s : Text} (h : ¬ "--".toList <:+: s) (rest : Text) :
    markup ("!--".toList ++ (s ++ ("-->".toList ++ rest))) = .skipped rest := by
  have happ : "!--".toList ++ (s ++ ("-->".toList ++ rest)) =
      '!' :: (("--".toList ++ (s ++ "--".toList)) ++ '>' :: rest) := by
    simp
  have hmarkup : markup ('!' :: (("--".toList ++ (s ++ "--".toList)) ++ '>' :: rest)) =
      bangMarkup .comment commentComplete "--"
        (("--".toList ++ (s ++ "--".toList)) ++ '>' :: rest) fun _ => none := rfl
  rw [happ, hmarkup]
  refine bangMarkup_skipped ?_ ?_ rfl rfl rest
  · intro t u hs
    obtain ⟨t', v, rfl, rfl⟩ := middle_of_append_eq (by decide) (by decide) hs
    rw [Bool.eq_false_iff]
    intro hcomplete
    unfold commentComplete at hcomplete
    rw [Bool.and_eq_true, isPrefixOf_reverse rfl, decide_eq_true_eq] at hcomplete
    obtain ⟨hsuffix, hsize⟩ := hcomplete
    -- the two hyphens in front count only with two more behind them
    match t' with
    | [] => exact absurd hsize (by decide)
    | [c] =>
      have hc : c = '-' := by
        have := List.reverse_prefix.2 hsuffix
        simpa [eq_comm] using this
      subst hc
      exact absurd hsize (by decide)
    | c :: d :: t' =>
      have hlast := suffix_of_append hsuffix (by simp)
      exact h (hlast.isInfix.trans (List.prefix_append _ _).isInfix)
  · unfold commentComplete
    rw [Bool.and_eq_true, isPrefixOf_reverse rfl, decide_eq_true_eq]
    refine ⟨⟨"--".toList ++ s, by simp⟩, ?_⟩
    have hmark : Text.utf8Size "--".toList = 2 := rfl
    rw [Text.utf8Size_reverse, Text.utf8Size_append, Text.utf8Size_append, hmark]
    omega

theorem markup_cdata {s : Text} (h : ¬ "]]>".toList <:+: s) (rest : Text) :
    markup ("![CDATA[".toList ++ (s ++ ("]]>".toList ++ rest))) = .skipped rest := by
  have happ : "![CDATA[".toList ++ (s ++ ("]]>".toList ++ rest)) =
      '!' :: (("[CDATA[".toList ++ (s ++ "]]".toList)) ++ '>' :: rest) := by
    simp
  have hmarkup : markup ('!' :: (("[CDATA[".toList ++ (s ++ "]]".toList)) ++ '>' :: rest)) =
      bangMarkup .cdata cdataComplete "[CDATA["
        (("[CDATA[".toList ++ (s ++ "]]".toList)) ++ '>' :: rest) fun _ => none := rfl
  rw [happ, hmarkup]
  refine bangMarkup_skipped ?_ ?_ rfl rfl rest
  · intro t u hs
    obtain ⟨t', v, rfl, rfl⟩ := middle_of_append_eq (by decide) (by decide) hs
    rw [Bool.eq_false_iff]
    intro hcomplete
    unfold cdataComplete at hcomplete
    rw [isPrefixOf_reverse rfl] at hcomplete
    match t' with
    | [] => exact absurd hcomplete (by decide)
    | [c] =>
      have := List.reverse_prefix.2 hcomplete
      simp at this
    | c :: d :: t' =>
      obtain ⟨w, hw⟩ := suffix_of_append hcomplete (by simp)
      refine h ⟨w, v, ?_⟩
      rw [← hw]
      simp
  · unfold cdataComplete
    rw [isPrefixOf_reverse rfl]
    exact ⟨"[CDATA[".toList ++ s, by simp⟩

theorem upToClose_append {s : Text} (h : '>' ∉ s) (rest : Text) :
    upToClose (s ++ '>' :: rest) = (s, rest) := by
  unfold upToClose
  rw [Text.splitFirst?_append h]
  rfl

/-- A processing instruction ends at the first `>`, where a question mark has to stand. -/
theorem markup_question (s : Text) : markup ('?' :: s) =
    if 2 ≤ Text.utf8Size (upToClose s).1 ∧ (upToClose s).1.getLast? = some '?' then
      .skipped (upToClose s).2
    else .fault (.unexpectedEnd .declaration) := rfl

theorem markup_slash (s : Text) :
    markup ('/' :: s) = .endTag (upToClose s).1 (upToClose s).2 := rfl

theorem markup_other {c : Char} (hc : c ≠ '!' ∧ c ≠ '?' ∧ c ≠ '/') (s : Text) :
    markup (c :: s) = .tag (upToTagClose none (c :: s)).1 (upToTagClose none (c :: s)).2 := by
  unfold markup
  split
  · next heq => cases heq
  · next heq => exact absurd (List.cons.inj heq).1 hc.1
  · next heq => exact absurd (List.cons.inj heq).1 hc.2.1
  · next heq => exact absurd (List.cons.inj heq).1 hc.2.2
  · rfl

theorem markup_instruction {s : Text} (hne : s ≠ []) (h : '>' ∉ s) (rest : Text) :
    markup ('?' :: (s ++ ("?>".toList ++ rest))) = .skipped rest := by
  have happ : s ++ ("?>".toList ++ rest) = (s ++ ['?']) ++ '>' :: rest := by
    simp
  have hclose : '>' ∉ s ++ ['?'] := by simp [h]
  have hsize : 2 ≤ Text.utf8Size (s ++ ['?']) := by
    obtain ⟨c, t, rfl⟩ := List.exists_cons_of_ne_nil hne
    have hc := c.utf8Size_pos
    have hq : Text.utf8Size ['?'] = 1 := rfl
    rw [Text.utf8Size_append, Text.utf8Size_cons, hq]
    omega
  rw [happ, markup_question, upToClose_append hclose, if_pos ⟨hsize, List.getLast?_concat⟩]

theorem markup_endTag {s : Text} (h : '>' ∉ s) (rest : Text) :
    markup ('/' :: (s ++ '>' :: rest)) = .endTag s rest := by
  rw [markup_slash, upToClose_append h]

theorem markup_tag {c : Char} {s : Text} (hc : c ∉ nameMarks) (h : KeepsOpen (c :: s))
    (rest : Text) : markup (c :: (s ++ '>' :: rest)) = .tag (c :: s) rest := by
  have hclose := h.upToTagClose rest
  rw [List.cons_append] at hclose
  have hmark : c ≠ '!' ∧ c ≠ '?' ∧ c ≠ '/' := by
    refine ⟨?_, ?_, ?_⟩ <;> rintro rfl <;> exact hc (by decide)
  rw [markup_other hmark, hclose]

/-! ## Documents -/

def Reading.prepend (events : List Event) (reading : Reading) : Reading :=
  ⟨events ++ reading.events, reading.fault?⟩

/-- The reading of what a `<` begins, inside the open elements. -/
def readMarkup (openNames : List Text) : Markup → Reading
  | .finished => ⟨[], none⟩
  | .fault fault => ⟨[], some fault⟩
  | .skipped rest => readFrom openNames rest
  | .endTag content rest =>
    match openNames with
    | [] => ⟨[], some (.mismatchedEnd [] content)⟩
    | name :: outer =>
      if endTagName content = name then (readFrom outer rest).cons .closed
      else ⟨[], some (.mismatchedEnd name (endTagName content))⟩
  | .tag content rest =>
    match tagOfContent content with
    | (tag, true) => (readFrom openNames rest).cons (.empty tag)
    | (tag, false) => (readFrom (tag.name :: openNames) rest).cons (.opened tag)

theorem readFrom_eq (openNames : List Text) (s : Text) :
    readFrom openNames s =
      ((Text.splitFirst? '<' s).map fun parts => readMarkup openNames (markup parts.2)).getD
        ⟨[], none⟩ := by
  rw [readFrom]
  split
  · next hs =>
    rw [hs]
    rfl
  · next before behind hs =>
    rw [hs, Option.map_some, Option.getD_some]
    cases markup behind <;> rfl

theorem readFrom_nil (openNames : List Text) : readFrom openNames [] = ⟨[], none⟩ :=
  readFrom_eq openNames []

theorem readFrom_cons (openNames : List Text) {c : Char} (h : c ≠ '<') (s : Text) :
    readFrom openNames (c :: s) = readFrom openNames s := by
  rw [readFrom_eq, readFrom_eq, Text.splitFirst?, if_neg h, Option.map_map]
  rfl

theorem readFrom_markup (openNames : List Text) (behind : Text) :
    readFrom openNames ('<' :: behind) = readMarkup openNames (markup behind) := by
  rw [readFrom_eq, Text.splitFirst?, if_pos rfl]
  rfl

theorem readFrom_text (openNames : List Text) {s : Text} (h : '<' ∉ s) (rest : Text) :
    readFrom openNames (s ++ rest) = readFrom openNames rest := by
  induction s with
  | nil => rfl
  | cons c s ih =>
    rw [List.mem_cons, not_or] at h
    rw [List.cons_append, readFrom_cons openNames (Ne.symm h.1), ih h.2]

theorem read_eq_readFrom (s : Text) : read s = readFrom [] s := by
  unfold read
  split
  · exact (readFrom_cons [] (by decide) _).symm
  · rfl

theorem readFrom_skipped (openNames : List Text) {behind rest : Text}
    (h : markup behind = .skipped rest) :
    readFrom openNames ('<' :: behind) = readFrom openNames rest := by
  rw [readFrom_markup, h]
  rfl

theorem SourceTag.exists_cons (t : SourceTag) :
    ∃ c s, t.content = c :: s ∧ c ∉ nameMarks := by
  obtain ⟨c, s, hname⟩ := List.exists_cons_of_ne_nil t.name.ne_nil
  unfold content
  rw [hname]
  exact ⟨c, _, rfl, (t.name.plain c (by rw [hname]; simp)).2⟩

theorem SourceAttribute.getLast?_render (a : SourceAttribute) :
    a.render.getLast? = some a.quote.char := by
  have happ : a.render = (a.gap ++ (a.name.text ++ (a.before ++ '=' :: (a.after ++
      a.quote.char :: a.value)))) ++ [a.quote.char] := by
    unfold render
    simp
  rw [happ, List.getLast?_concat]

theorem getLast?_flatMap_render (attributes : List SourceAttribute) :
    (attributes.flatMap SourceAttribute.render).getLast? ≠ some '/' := by
  induction attributes with
  | nil => simp
  | cons a others ih =>
    rw [List.flatMap_cons, List.getLast?_append, a.getLast?_render]
    intro h
    rcases Option.or_eq_some_iff.1 h with h | ⟨-, h⟩
    · exact ih h
    · cases hq : a.quote <;> rw [hq] at h <;> exact absurd h (by decide)

theorem SourceTag.getLast?_content (t : SourceTag) : t.content.getLast? ≠ some '/' := by
  unfold content
  rw [List.getLast?_append, List.getLast?_append]
  intro h
  rcases Option.or_eq_some_iff.1 h with h | ⟨-, h⟩
  · rcases Option.or_eq_some_iff.1 h with h | ⟨-, h⟩
    · have hspace := List.all_eq_true.1 t.gap_space _ (List.mem_of_getLast? h)
      exact absurd hspace (by decide)
    · exact getLast?_flatMap_render t.attributes h
  · exact t.name.not_mem (by decide) (List.mem_of_getLast? h)

theorem tagOfContent_content (t : SourceTag) : tagOfContent t.content = (t.tag, false) := by
  unfold tagOfContent
  rw [if_neg t.getLast?_content, ofContent_content]

theorem tagOfContent_empty (t : SourceTag) : tagOfContent (t.content ++ ['/']) = (t.tag, true) := by
  unfold tagOfContent
  rw [if_pos List.getLast?_concat, List.dropLast_concat, ofContent_content]

theorem SourceTag.readFrom_opened (openNames : List Text) (t : SourceTag) (rest : Text) :
    readFrom openNames ('<' :: (t.content ++ '>' :: rest)) =
      (readFrom (t.name.text :: openNames) rest).cons (.opened t.tag) := by
  obtain ⟨c, s, hcontent, hc⟩ := t.exists_cons
  have hopen := t.keepsOpen
  have htag := tagOfContent_content t
  rw [hcontent] at hopen htag ⊢
  rw [List.cons_append, readFrom_markup, markup_tag hc hopen]
  unfold readMarkup
  simp only [htag]
  rfl

theorem SourceTag.readFrom_empty (openNames : List Text) (t : SourceTag) (rest : Text) :
    readFrom openNames ('<' :: (t.content ++ ("/>".toList ++ rest))) =
      (readFrom openNames rest).cons (.empty t.tag) := by
  obtain ⟨c, s, hcontent, hc⟩ := t.exists_cons
  have hslash : KeepsOpen ['/'] := KeepsOpen.of_plain (Text.forall_of_all (by decide))
  have hopen := t.keepsOpen.append hslash
  have htag := tagOfContent_empty t
  have happ : t.content ++ ("/>".toList ++ rest) = c :: ((s ++ ['/']) ++ '>' :: rest) := by
    rw [hcontent]
    simp
  rw [hcontent, List.cons_append] at hopen htag
  rw [happ, readFrom_markup, markup_tag hc hopen]
  unfold readMarkup
  simp only [htag]

theorem endTagName_append (name : Name) {gap : Text} (hgap : gap.all isSpace) :
    endTagName (name.text ++ gap) = name.text := by
  obtain ⟨s, c, hname⟩ : ∃ s c, name.text = s ++ [c] :=
    ⟨_, _, (List.dropLast_concat_getLast name.ne_nil).symm⟩
  have hc : isSpace c = false := (name.plain c (by rw [hname]; simp)).1
  have hgap' : ∀ d ∈ gap.reverse, isSpace d = true := fun d hd =>
    List.all_eq_true.1 hgap d (List.mem_reverse.1 hd)
  have hall : (name.text ++ gap).all isSpace = false := by
    rw [hname]
    simp [hc]
  unfold endTagName
  rw [hall, List.reverse_append, List.dropWhile_append_of_pos hgap', hname, List.reverse_concat,
    List.dropWhile_cons, hc]
  simp

theorem readFrom_endTag (outer : List Text) (name : Name) {gap : Text} (hgap : gap.all isSpace)
    (rest : Text) :
    readFrom (name.text :: outer) ('<' :: '/' :: (name.text ++ (gap ++ '>' :: rest))) =
      (readFrom outer rest).cons .closed := by
  have hclose : '>' ∉ name.text ++ gap := by
    rw [List.mem_append, not_or]
    refine ⟨name.not_mem (by decide), fun hmem => ?_⟩
    exact absurd (List.all_eq_true.1 hgap _ hmem) (by decide)
  have hmarkup := markup_endTag hclose rest
  rw [List.append_assoc] at hmarkup
  rw [readFrom_markup, hmarkup]
  unfold readMarkup
  simp only [endTagName_append name hgap, if_true]

theorem Reading.prepend_prepend (events others : List Event) (reading : Reading) :
    (reading.prepend others).prepend events = reading.prepend (events ++ others) := by
  unfold prepend
  rw [List.append_assoc]

theorem Reading.cons_prepend (event : Event) (events : List Event) (reading : Reading) :
    (reading.prepend events).cons event = reading.prepend (event :: events) := rfl

mutual

theorem readFrom_piece : ∀ (piece : Piece), piece.Closed → ∀ (openNames : List Text) (rest : Text),
    readFrom openNames (piece.render ++ rest) = (readFrom openNames rest).prepend piece.events
  | .text s h, _ => by
    intro openNames rest
    rw [Piece.render, readFrom_text openNames h]
    rfl
  | .comment s h, _ => by
    intro openNames rest
    rw [Piece.render, commentText, List.cons_append, List.append_assoc, List.append_assoc]
    exact readFrom_skipped openNames (markup_comment h rest)
  | .cdata s h, _ => by
    intro openNames rest
    rw [Piece.render, cdataText, List.cons_append, List.append_assoc, List.append_assoc]
    exact readFrom_skipped openNames (markup_cdata h rest)
  | .instruction s hne h, hclosed => by
    intro openNames rest
    rw [Piece.Closed] at hclosed
    rw [Piece.render, instructionText, List.cons_append, List.cons_append, List.append_assoc]
    exact readFrom_skipped openNames (markup_instruction hne hclosed rest)
  | .empty tag, _ => by
    intro openNames rest
    rw [Piece.render, SourceTag.emptyText, List.cons_append, List.append_assoc, tag.readFrom_empty]
    rfl
  | .element tag children gap hgap, hclosed => by
    intro openNames rest
    rw [Piece.Closed] at hclosed
    have hend := readFrom_endTag openNames tag.name hgap rest
    rw [Piece.render, SourceTag.elementText, List.cons_append, List.append_assoc, List.cons_append,
      List.append_assoc, List.cons_append, List.cons_append, List.append_assoc, List.append_assoc,
      tag.readFrom_opened, readFrom_pieces children hclosed, List.singleton_append, hend,
      Reading.cons_prepend]
    unfold Reading.prepend Reading.cons
    simp [Piece.events]

/-- Pieces of a document are read as their events, inside any open elements and whatever
follows. -/
theorem readFrom_pieces : ∀ (pieces : List Piece), PiecesClosed pieces →
    ∀ (openNames : List Text) (rest : Text),
      readFrom openNames (renderPieces pieces ++ rest) =
        (readFrom openNames rest).prepend (eventsOfPieces pieces)
  | [], _ => fun _ _ => rfl
  | piece :: others, hclosed => by
    intro openNames rest
    rw [PiecesClosed] at hclosed
    rw [renderPieces, List.append_assoc, readFrom_piece piece hclosed.1,
      readFrom_pieces others hclosed.2, Reading.prepend_prepend, eventsOfPieces]

end

theorem read_renderPieces {pieces : List Piece} (h : PiecesClosed pieces) :
    read (renderPieces pieces) = ⟨eventsOfPieces pieces, none⟩ := by
  have key := readFrom_pieces pieces h [] []
  rw [List.append_nil, readFrom_nil] at key
  rw [read_eq_readFrom, key]
  unfold Reading.prepend
  rw [List.append_nil]

/-! ## Documents with values that stand for characters -/

theorem readFrom_opened (openNames : List Text) (t : WrittenTag) (rest : Text) :
    readFrom openNames ('<' :: (t.content ++ '>' :: rest)) =
      (readFrom (t.name.text :: openNames) rest).cons (.opened t.raw) := by
  rw [← t.content_source, ← t.tag_source]
  exact t.source.readFrom_opened openNames rest

/-- A document is read as its events, without a fault. -/
theorem read_renderNodes {document : List Node} (h : AllClosed document) :
    read (renderNodes document) = ⟨eventsOf document, none⟩ := by
  rw [← renderPieces_piecesOf, ← eventsOfPieces_piecesOf]
  exact read_renderPieces ((piecesClosed_piecesOf document).2 h)

/-! ## Documents with a document type -/

theorem markup_doctype {d : Doctype} (h : d.Balanced) (rest : Text) :
    markup ("!DOCTYPE".toList ++ (d.body ++ '>' :: rest)) = .skipped rest := by
  have hmarkup : markup ('!' :: (("DOCTYPE".toList ++ d.body) ++ '>' :: rest)) =
      bangMarkup .doctype doctypeComplete "DOCTYPE" (("DOCTYPE".toList ++ d.body) ++ '>' :: rest)
        fun body => if body.all isSpace then some .emptyDoctype else none := rfl
  have happ : "!DOCTYPE".toList ++ (d.body ++ '>' :: rest) =
      '!' :: (("DOCTYPE".toList ++ d.body) ++ '>' :: rest) := rfl
  have hkeyword : ∀ c ∈ ['<', '>'], "DOCTYPE".toList.count c = 0 := by simp
  rw [happ, hmarkup]
  refine bangMarkup_skipped ?_ ?_ rfl ?_ rest
  · intro t u hs
    have hs' : "DOCTYPE".toList ++ (d.body ++ []) = t ++ '>' :: u := by rw [List.append_nil, hs]
    obtain ⟨t', v, rfl, hbody⟩ := middle_of_append_eq (by decide) List.not_mem_nil hs'
    have hcount := h.inside t' v hbody
    unfold doctypeComplete
    rw [List.count_reverse, List.count_reverse, List.count_append, List.count_append,
      hkeyword _ (by simp), hkeyword _ (by simp), beq_eq_false_iff_ne]
    omega
  · unfold doctypeComplete
    rw [List.count_reverse, List.count_reverse, List.count_append, List.count_append,
      hkeyword _ (by simp), hkeyword _ (by simp), h.whole, beq_self_eq_true]
  · show (if d.body.all isSpace then some Fault.emptyDoctype else none) = none
    rw [d.not_blank]
    rfl

theorem eventsOfPieces_eq_nil {pieces : List Piece} (h : ∀ piece ∈ pieces, piece.element? = none) :
    eventsOfPieces pieces = [] := by
  induction pieces with
  | nil => rfl
  | cons piece rest ih =>
    have hpiece : piece.events = [] := by
      have hnone := h piece (List.mem_cons_self ..)
      cases piece with
      | empty tag => cases hnone
      | element tag children gap hgap => cases hnone
      | _ => rfl
    rw [eventsOfPieces, hpiece, ih fun p hp => h p (List.mem_cons_of_mem _ hp)]
    rfl

theorem Document.readFrom_doctype {d : Document}
    (hbalanced : ∀ doctype ∈ d.doctype?, doctype.Balanced) (rest : Text) :
    readFrom [] ((d.doctype?.elim [] Doctype.render) ++ rest) = readFrom [] rest := by
  cases hd : d.doctype? with
  | none => rfl
  | some doctype =>
    rw [Option.elim_some, Doctype.render, List.cons_append, List.append_assoc, List.append_assoc]
    exact readFrom_skipped [] (markup_doctype (hbalanced doctype hd) rest)

theorem Document.read_render {d : Document} (h : d.Readable) : read d.render = ⟨d.root.events, none⟩ := by
  obtain ⟨hclosed, hbalanced⟩ := h
  rw [piecesClosed_append, piecesClosed_append, PiecesClosed] at hclosed
  obtain ⟨hbefore, hbetween, hroot, hbehind⟩ := hclosed
  have hnone : ∀ pieces, (∀ piece ∈ pieces, piece ∈ d.before ++ (d.between ++ d.behind)) →
      eventsOfPieces pieces = [] := fun pieces hmem =>
    eventsOfPieces_eq_nil fun piece hpiece => d.misc piece (hmem piece hpiece)
  have hbehind' := readFrom_pieces d.behind hbehind [] []
  rw [List.append_nil, readFrom_nil, hnone d.behind (by simp +contextual)] at hbehind'
  unfold Document.render
  rw [read_eq_readFrom, readFrom_pieces d.before hbefore, readFrom_doctype hbalanced,
    readFrom_pieces d.between hbetween, readFrom_piece d.root hroot, hbehind',
    hnone d.before (by simp +contextual), hnone d.between (by simp +contextual)]
  unfold Reading.prepend
  simp only [List.nil_append, List.append_nil]

end AndroidResources.Xml
