import AndroidResources.Proofs.Xml.Reading

/-!
# Documents that end early

A reading knows which elements are open, but nothing asks whether they are closed before the input
ends.

* `Event.tag?`, `Reading.tags` : the tags of a reading in order;
* `unclosed?` : the elements that are open behind some events, innermost first;
* `exists_unclosed` : an end tag of a reading closes the innermost open element;
* `endsAt_markup` : markup is the same where the text behind it is cut off;
* `exists_read_take` : a front part of a text is read as any first few of its events.
-/

namespace AndroidResources.Xml

/-! ## Open elements -/

def Event.tag? : Event → Option Tag
  | opened tag => some tag
  | empty tag => some tag
  | closed => none

def Reading.tags (reading : Reading) : List Tag :=
  reading.events.filterMap Event.tag?

/-- The open elements behind an event, if there is one for it to close. -/
def Event.leaves? (unclosed : List Tag) : Event → Option (List Tag)
  | opened tag => some (tag :: unclosed)
  | empty _ => some unclosed
  | closed => unclosed.tail?

/-- The elements that are open behind some events, innermost first. -/
def unclosed? (unclosed : List Tag) (events : List Event) : Option (List Tag) :=
  events.foldlM Event.leaves? unclosed

theorem unclosed?_cons (unclosed : List Tag) (event : Event) (rest : List Event) :
    unclosed? unclosed (event :: rest) =
      (event.leaves? unclosed).bind fun next => unclosed? next rest :=
  List.foldlM_cons

/-- Inside open elements, whatever they are called, an end tag closes the innermost one. -/
theorem exists_unclosed_readFrom (unclosed : List Tag) (s : Text) :
    ∃ left, unclosed? unclosed (readFrom (unclosed.map (·.name)) s).events = some left := by
  have hnone : ∃ left, unclosed? unclosed [] = some left := ⟨unclosed, rfl⟩
  rw [readFrom_eq]
  cases hs : Text.splitFirst? '<' s with
  | none => exact hnone
  | some parts =>
    obtain ⟨before, behind⟩ := parts
    have hlen : behind.length < s.length := by
      rw [(Text.eq_append_of_splitFirst? hs).1, List.length_append, List.length_cons]
      omega
    have hrest : ∀ rest, (markup behind).rest? = some rest → rest.length < s.length :=
      fun rest h => (length_le_of_markup h).trans_lt hlen
    rw [Option.map_some, Option.getD_some]
    -- the induction is on the text, which is shorter behind the markup
    cases hm : markup behind with
    | finished => exact hnone
    | fault fault => exact hnone
    | skipped rest =>
      have := hrest rest (by rw [hm]; rfl)
      exact exists_unclosed_readFrom unclosed rest
    | endTag content rest =>
      have := hrest rest (by rw [hm]; rfl)
      cases unclosed with
      | nil => exact hnone
      | cons tag outer =>
        rw [List.map_cons, readMarkup]
        split
        · obtain ⟨left, hleft⟩ := exists_unclosed_readFrom outer rest
          exact ⟨left, (unclosed?_cons _ _ _).trans hleft⟩
        · exact hnone
    | tag content rest =>
      have := hrest rest (by rw [hm]; rfl)
      rw [readMarkup]
      split
      · obtain ⟨left, hleft⟩ := exists_unclosed_readFrom unclosed rest
        exact ⟨left, (unclosed?_cons _ _ _).trans hleft⟩
      · next tag _ =>
        obtain ⟨left, hleft⟩ := exists_unclosed_readFrom (tag :: unclosed) rest
        exact ⟨left, (unclosed?_cons _ _ _).trans hleft⟩
  termination_by s.length

theorem exists_unclosed (s : Text) : ∃ left, unclosed? [] (read s).events = some left := by
  rw [read_eq_readFrom]
  exact exists_unclosed_readFrom [] s

/-! ## Markup in a front part of a text -/

theorem upToClose_front (s : Text) :
    ∃ front, s = front ++ (upToClose s).2 ∧
      ∀ t, t <+: (upToClose s).2 → upToClose (front ++ t) = ((upToClose s).1, t) := by
  cases hs : Text.splitFirst? '>' s with
  | none =>
    have hall : upToClose s = (s, []) := by rw [upToClose, hs, Option.getD_none]
    rw [hall]
    refine ⟨s, (List.append_nil s).symm, fun t ht => ?_⟩
    obtain rfl := List.prefix_nil.1 ht
    rw [List.append_nil, hall]
  | some parts =>
    obtain ⟨content, rest⟩ := parts
    obtain ⟨rfl, hnot⟩ := Text.eq_append_of_splitFirst? hs
    have hsplit := upToClose_append hnot
    refine ⟨content ++ ['>'], by rw [hsplit]; simp, fun t _ => ?_⟩
    rw [hsplit rest, List.append_assoc]
    exact hsplit t

theorem upToTagClose_front (quote? : Option Char) (s : Text) :
    ∃ front, s = front ++ (upToTagClose quote? s).2 ∧ (s ≠ [] → front ≠ []) ∧
      ∀ t, t <+: (upToTagClose quote? s).2 →
        upToTagClose quote? (front ++ t) = ((upToTagClose quote? s).1, t) := by
  induction s generalizing quote? with
  | nil =>
    refine ⟨[], rfl, by simp, fun t ht => ?_⟩
    obtain rfl : t = [] := List.prefix_nil.1 ht
    rfl
  | cons c rest ih =>
    by_cases hclose : quote? = none ∧ c = '>'
    · have hstep : ∀ t, upToTagClose quote? (c :: t) = ([], t) := fun t => by
        rw [upToTagClose.eq_def]
        exact if_pos hclose
      refine ⟨[c], by rw [hstep]; rfl, by simp, fun t _ => ?_⟩
      rw [hstep rest]
      exact hstep t
    · obtain ⟨next?, hstep⟩ : ∃ next?, ∀ t, upToTagClose quote? (c :: t) =
          (c :: (upToTagClose next? t).1, (upToTagClose next? t).2) :=
        ⟨_, fun t => by rw [upToTagClose.eq_def]; exact if_neg hclose⟩
      obtain ⟨front, hfront, -, hcut⟩ := ih next?
      rw [hstep]
      refine ⟨c :: front, congrArg (c :: ·) hfront, by simp, fun t ht => ?_⟩
      rw [List.cons_append, hstep, hcut t ht]

theorem upToBangClose_front {complete : Text → Bool} {before s content rest : Text}
    (h : upToBangClose complete before s = some (content, rest)) :
    ∃ c front, s = c :: front ++ rest ∧
      ∀ t, upToBangClose complete before (c :: front ++ t) = some (content, t) := by
  induction s generalizing before with
  | nil => cases h
  | cons c tail ih =>
    by_cases hclose : c = '>' ∧ complete before = true
    · rw [upToBangClose, if_pos hclose] at h
      cases h
      exact ⟨c, [], rfl, fun t => by rw [List.cons_append, upToBangClose, if_pos hclose]; rfl⟩
    · rw [upToBangClose, if_neg hclose] at h
      obtain ⟨d, front, rfl, hcut⟩ := ih h
      refine ⟨c, d :: front, rfl, fun t => ?_⟩
      rw [List.cons_append, upToBangClose, if_neg hclose, hcut t]

def Markup.followedBy (t : Text) : Markup → Markup
  | finished => finished
  | fault reason => fault reason
  | skipped _ => skipped t
  | endTag content _ => endTag content t
  | tag content _ => tag content t

theorem Markup.followedBy_rest {m : Markup} {rest : Text} (h : m.rest? = some rest) :
    m.followedBy rest = m := by
  cases m <;> cases h <;> rfl

theorem bangMarkup_front {construct : Construct} {complete : Text → Bool} {lead s rest : Text}
    {verdict : Text → Option Fault}
    (h : (bangMarkup construct complete lead s verdict).rest? = some rest) :
    ∃ c front, s = c :: front ++ rest ∧ ∀ t,
      bangMarkup construct complete lead (c :: front ++ t) verdict =
        (bangMarkup construct complete lead s verdict).followedBy t := by
  unfold bangMarkup at h ⊢
  cases hclose : upToBangClose complete [] s with
  | none =>
    rw [hclose] at h
    cases h
  | some parts =>
    obtain ⟨content, tail⟩ := parts
    obtain ⟨c, front, rfl, hcut⟩ := upToBangClose_front hclose
    rw [hclose] at h
    have htail : tail = rest := by
      simp only at h
      split at h
      · split at h
        · cases h
        · exact Option.some.inj h
      · cases h
    refine ⟨c, front, by rw [htail], fun t => ?_⟩
    rw [hcut t]
    simp only
    split
    · split <;> rfl
    · rfl

/-- Markup is recognized in front of the rest: it is the same where the text ends earlier behind
it. -/
def EndsAt (s rest : Text) : Prop :=
  ∃ front, s = front ++ rest ∧ ∀ t, t <+: rest → markup (front ++ t) = (markup s).followedBy t

theorem endsAt_bang {tail rest : Text} (h : (markup ('!' :: tail)).rest? = some rest) :
    EndsAt ('!' :: tail) rest := by
  cases tail with
  | nil => cases h
  | cons c tail =>
    -- the character behind the exclamation mark says which kind of markup it is
    have key : ∀ construct complete lead verdict,
        (∀ t, markup ('!' :: c :: t) = bangMarkup construct complete lead (c :: t) verdict) →
          EndsAt ('!' :: c :: tail) rest := by
      intro construct complete lead verdict hmarkup
      rw [hmarkup] at h
      obtain ⟨d, front, hs, hcut⟩ := bangMarkup_front h
      obtain ⟨rfl, rfl⟩ := List.cons.inj hs
      refine ⟨'!' :: c :: front, rfl, fun t _ => ?_⟩
      rw [hmarkup]
      exact (hmarkup (front ++ t)).trans (hcut t)
    by_cases hcdata : c = '['
    · apply key .cdata cdataComplete "[CDATA[" fun _ => none
      intro t
      rw [markup]
      simp only [if_pos hcdata]
    by_cases hcomment : c = '-'
    · apply key .comment commentComplete "--" fun _ => none
      intro t
      rw [markup]
      simp only [if_neg hcdata, if_pos hcomment]
    by_cases hdoctype : c = 'D' ∨ c = 'd'
    · apply key .doctype doctypeComplete "DOCTYPE" fun body =>
        if body.all isSpace then some .emptyDoctype else none
      intro t
      rw [markup]
      simp only [if_neg hcdata, if_neg hcomment, if_pos hdoctype]
    · rw [markup] at h
      simp only [if_neg hcdata, if_neg hcomment, if_neg hdoctype] at h
      cases h

theorem endsAt_instruction {tail rest : Text} (h : (markup ('?' :: tail)).rest? = some rest) :
    EndsAt ('?' :: tail) rest := by
  obtain ⟨front, hfront, hcut⟩ := upToClose_front tail
  rw [markup_question] at h
  split at h
  · next hclosed =>
    obtain rfl : (upToClose tail).2 = rest := Option.some.inj h
    refine ⟨'?' :: front, congrArg ('?' :: ·) hfront, fun t ht => ?_⟩
    rw [List.cons_append, markup_question, markup_question, hcut t ht, if_pos hclosed,
      if_pos hclosed]
    rfl
  · cases h

theorem endsAt_endTag {tail rest : Text} (h : (markup ('/' :: tail)).rest? = some rest) :
    EndsAt ('/' :: tail) rest := by
  obtain ⟨front, hfront, hcut⟩ := upToClose_front tail
  obtain rfl : (upToClose tail).2 = rest := Option.some.inj h
  refine ⟨'/' :: front, congrArg ('/' :: ·) hfront, fun t ht => ?_⟩
  rw [List.cons_append, markup_slash, markup_slash, hcut t ht]
  rfl

theorem endsAt_tag {c : Char} {tail rest : Text} (hc : c ≠ '!' ∧ c ≠ '?' ∧ c ≠ '/')
    (h : (markup (c :: tail)).rest? = some rest) : EndsAt (c :: tail) rest := by
  obtain ⟨front, hfront, hne, hcut⟩ := upToTagClose_front none (c :: tail)
  rw [markup_other hc] at h
  obtain rfl : (upToTagClose none (c :: tail)).2 = rest := Option.some.inj h
  refine ⟨front, hfront, fun t ht => ?_⟩
  -- what is left begins like the tag did
  obtain ⟨d, front, rfl⟩ := List.exists_cons_of_ne_nil (hne (by simp))
  obtain rfl : c = d := (List.cons.inj hfront).1
  have hcut' := hcut t ht
  rw [List.cons_append] at hcut' ⊢
  rw [markup_other hc, markup_other hc, hcut']
  rfl

theorem endsAt_markup {s rest : Text} (h : (markup s).rest? = some rest) : EndsAt s rest := by
  cases s with
  | nil => cases h
  | cons c tail =>
    by_cases hbang : c = '!'
    · subst hbang
      exact endsAt_bang h
    by_cases hinstruction : c = '?'
    · subst hinstruction
      exact endsAt_instruction h
    by_cases hend : c = '/'
    · subst hend
      exact endsAt_endTag h
    exact endsAt_tag ⟨hbang, hinstruction, hend⟩ h

theorem exists_markup_front {s rest part : Text} (h : (markup s).rest? = some rest)
    (hpart : part <+: rest) :
    ∃ front, front <+: s ∧ markup front = (markup s).followedBy part := by
  obtain ⟨front, hs, hsame⟩ := endsAt_markup h
  refine ⟨front ++ part, ?_, hsame part hpart⟩
  rw [hs]
  exact (List.prefix_append_right_inj front).2 hpart

/-! ## Front parts of documents -/

/-- A text has a front part that is read as its first `k` events. -/
def CutsAfter (openNames : List Text) (s : Text) (k : Nat) : Prop :=
  ∃ part, part <+: s ∧ readFrom openNames part = ⟨(readFrom openNames s).events.take k, none⟩

/-- A text is cut behind an event of its markup where the rest is cut. -/
theorem cutsAfter_markup {openNames names : List Text} {behind rest : Text} {event : Event} {k : Nat}
    (hrest : (markup behind).rest? = some rest)
    (hcons : ∀ t, readMarkup openNames ((markup behind).followedBy t) = (readFrom names t).cons event)
    (h : CutsAfter names rest k) : CutsAfter openNames ('<' :: behind) (k + 1) := by
  obtain ⟨part, hpart, hread⟩ := h
  obtain ⟨front, hfront, hsame⟩ := exists_markup_front hrest hpart
  have hwhole := hcons rest
  rw [Markup.followedBy_rest hrest] at hwhole
  refine ⟨'<' :: front, List.cons_prefix_cons.2 ⟨rfl, hfront⟩, ?_⟩
  rw [readFrom_markup, readFrom_markup, hsame, hcons, hread, hwhole]
  rfl

theorem cutsAfter_skipped {openNames : List Text} {behind rest : Text} {k : Nat}
    (hm : markup behind = .skipped rest) (h : CutsAfter openNames rest k) :
    CutsAfter openNames ('<' :: behind) k := by
  obtain ⟨part, hpart, hread⟩ := h
  have hrest : (markup behind).rest? = some rest := by rw [hm]; rfl
  obtain ⟨front, hfront, hsame⟩ := exists_markup_front hrest hpart
  refine ⟨'<' :: front, List.cons_prefix_cons.2 ⟨rfl, hfront⟩, ?_⟩
  rw [readFrom_markup, readFrom_skipped openNames hm, hsame, hm]
  exact hread

theorem CutsAfter.of_text {openNames : List Text} {before s : Text} {k : Nat} (hbefore : '<' ∉ before)
    (h : CutsAfter openNames s k) : CutsAfter openNames (before ++ s) k := by
  obtain ⟨part, hpart, hread⟩ := h
  refine ⟨before ++ part, (List.prefix_append_right_inj before).2 hpart, ?_⟩
  rw [readFrom_text openNames hbefore, readFrom_text openNames hbefore, hread]

/-- Reading ends at markup, passes it over, or finds an event and goes on behind it. -/
theorem readMarkup_cases (openNames : List Text) (m : Markup) :
    (readMarkup openNames m).events = [] ∨ (∃ rest, m = .skipped rest) ∨
      ∃ rest names event, m.rest? = some rest ∧
        ∀ t, readMarkup openNames (m.followedBy t) = (readFrom names t).cons event := by
  cases m with
  | finished => exact .inl rfl
  | fault fault => exact .inl rfl
  | skipped rest => exact .inr (.inl ⟨rest, rfl⟩)
  | endTag content rest =>
    cases openNames with
    | nil => exact .inl rfl
    | cons name outer =>
      by_cases hname : endTagName content = name
      · exact .inr (.inr ⟨rest, outer, .closed, rfl, fun t => if_pos hname⟩)
      · rw [readMarkup, if_neg hname]
        exact .inl rfl
  | tag content rest =>
    right
    right
    cases htag : tagOfContent content with
    | mk tag isEmpty =>
      cases isEmpty with
      | true =>
        exact ⟨rest, openNames, .empty tag, rfl, fun t => by
          rw [Markup.followedBy, readMarkup, htag]⟩
      | false =>
        exact ⟨rest, tag.name :: openNames, .opened tag, rfl, fun t => by
          rw [Markup.followedBy, readMarkup, htag]⟩

theorem cutsAfter (openNames : List Text) (s : Text) (k : Nat)
    (hk : k ≤ (readFrom openNames s).events.length) : CutsAfter openNames s k := by
  cases k with
  | zero => exact ⟨[], List.nil_prefix, readFrom_nil openNames⟩
  | succ k =>
    cases hs : Text.splitFirst? '<' s with
    | none =>
      rw [readFrom_eq, hs] at hk
      cases hk
    | some parts =>
      obtain ⟨before, behind⟩ := parts
      obtain ⟨hsplit, hbefore⟩ := Text.eq_append_of_splitFirst? hs
      rw [hsplit, readFrom_text openNames hbefore, readFrom_markup] at hk
      have hlen : ∀ rest, (markup behind).rest? = some rest → rest.length < s.length := by
        intro rest hrest
        have := length_le_of_markup hrest
        rw [hsplit, List.length_append, List.length_cons]
        omega
      rw [hsplit]
      apply CutsAfter.of_text hbefore
      -- the induction is on the text, which is shorter behind the markup
      obtain hnone | ⟨rest, hm⟩ | ⟨rest, names, event, hrest, hcons⟩ :=
        readMarkup_cases openNames (markup behind)
      · rw [hnone] at hk
        cases hk
      · have := hlen rest (by rw [hm]; rfl)
        rw [hm] at hk
        exact cutsAfter_skipped hm (cutsAfter openNames rest (k + 1) hk)
      · have := hlen rest hrest
        have hwhole := hcons rest
        rw [Markup.followedBy_rest hrest] at hwhole
        rw [hwhole] at hk
        exact cutsAfter_markup hrest hcons (cutsAfter names rest k (Nat.le_of_succ_le_succ hk))
  termination_by s.length

/-- A front part of a text is read as any first few of its events. -/
theorem exists_read_take (s : Text) (k : Nat) (hk : k ≤ (read s).events.length) :
    ∃ part, part <+: s ∧ read part = ⟨(read s).events.take k, none⟩ := by
  rw [read_eq_readFrom] at hk ⊢
  obtain ⟨part, hpart, hread⟩ := cutsAfter [] s k hk
  exact ⟨part, hpart, (read_eq_readFrom part).trans hread⟩

end AndroidResources.Xml
