import AndroidResources.Proofs.Xml.Truncation

/-!
# Where attribute values stand

The reader takes a document apart piece by piece and changes nothing, so the raw value of an
attribute is found in the text of the document, with the quote that closes it right behind it.

* `StandsQuoted` : a value stands in a text in front of a quote;
* `standsQuoted_of_mem_readAttributes` : the values of an attribute list stand in it;
* `standsQuoted_of_mem_tags` : the values of all tags of a document stand in it.
-/

namespace AndroidResources.Xml

/-- The value stands somewhere in the text, with a quote behind it. -/
def StandsQuoted (value s : Text) : Prop :=
  ∃ quote, (quote = '"' ∨ quote = '\'') ∧ value ++ [quote] <:+: s

theorem StandsQuoted.mono {value s t : Text} (h : StandsQuoted value s) (hs : s <:+: t) :
    StandsQuoted value t := by
  obtain ⟨quote, hquote, hvalue⟩ := h
  exact ⟨quote, hquote, hvalue.trans hs⟩

/-! ## Attribute lists -/

variable {total position offset : Nat} {seen : List (Text × Nat)} {name s rest content : Text}
  {a : Attribute}

/-- A value stands where it was read, and so does what follows it. -/
theorem standsQuoted_of_readValue (h : readValue total name position s = .found a offset rest) :
    StandsQuoted a.value s ∧ rest <:+: s := by
  rw [readValue] at h
  split at h
  · cases h
  · next quote tail htail =>
    have hs : quote :: tail <:+ s := htail ▸ List.dropWhile_suffix _
    split at h
    · next hquote =>
      split at h
      · next value after hsplit =>
        cases h
        obtain ⟨htail', -⟩ := Text.eq_append_of_splitFirst? hsplit
        rw [htail'] at hs
        exact ⟨⟨quote, hquote, List.IsInfix.trans ⟨[quote], rest, by simp⟩ hs.isInfix⟩,
          List.IsInfix.trans ⟨quote :: (value ++ [quote]), [], by simp⟩ hs.isInfix⟩
      · cases h
    · cases h

theorem standsQuoted_of_nextAttribute (h : nextAttribute total seen s = .found a offset rest) :
    StandsQuoted a.value s ∧ rest <:+: s := by
  rw [nextAttribute] at h
  split at h
  · cases h
  · next c tail htail =>
    dsimp only at h
    split at h
    · next after hafter =>
      have hinner : after <:+: s := by
        have hequals : '=' :: after <:+ tail :=
          hafter ▸ (List.dropWhile_suffix _).trans (List.dropWhile_suffix _)
        have hs : c :: tail <:+ s := htail ▸ List.dropWhile_suffix _
        exact (((List.suffix_cons ..).trans hequals).trans ((List.suffix_cons ..).trans hs)).isInfix
      split at h
      · cases h
      · obtain ⟨hvalue, hrest⟩ := standsQuoted_of_readValue h
        exact ⟨hvalue.mono hinner, hrest.trans hinner⟩
    · cases h

theorem standsQuoted_of_mem_readAttributes (total : Nat) (seen : List (Text × Nat)) (s : Text)
    (h : a ∈ (readAttributes total seen s).1) : StandsQuoted a.value s := by
  rw [readAttributes] at h
  split at h
  · cases h
  · cases h
  · next first position rest hfound =>
    obtain ⟨hvalue, hrest⟩ := standsQuoted_of_nextAttribute hfound
    rcases List.mem_cons.1 h with rfl | h
    · exact hvalue
    · have := length_lt_of_nextAttribute hfound
      exact (standsQuoted_of_mem_readAttributes _ _ rest h).mono hrest
  termination_by s.length

theorem Tag.standsQuoted_of_mem (h : a ∈ (Tag.ofContent content).attributes) :
    StandsQuoted a.value content :=
  (standsQuoted_of_mem_readAttributes _ _ _ h).mono (List.dropWhile_suffix _).isInfix

theorem standsQuoted_of_mem_tagOfContent (h : a ∈ (tagOfContent content).1.attributes) :
    StandsQuoted a.value content := by
  unfold tagOfContent at h
  split at h
  · exact (Tag.standsQuoted_of_mem h).mono (List.dropLast_prefix _).isInfix
  · exact Tag.standsQuoted_of_mem h

/-! ## Documents -/

theorem prefix_upToTagClose (quote? : Option Char) (s : Text) : (upToTagClose quote? s).1 <+: s := by
  induction s generalizing quote? with
  | nil => simp [upToTagClose]
  | cons c rest ih =>
    rw [upToTagClose.eq_def]
    dsimp only
    split
    · exact List.nil_prefix
    · exact List.cons_prefix_cons.2 ⟨rfl, ih _⟩

theorem bangMarkup_ne_tag {construct : Construct} {complete : Text → Bool} {lead : Text}
    {verdict : Text → Option Fault} :
    bangMarkup construct complete lead s verdict ≠ .tag content rest := by
  intro h
  unfold bangMarkup at h
  split at h
  · cases h
  · split at h
    · split at h <;> cases h
    · cases h

/-- The content of a tag is what the text behind the `<` begins with. -/
theorem prefix_of_markup_tag (h : markup s = .tag content rest) : content <+: s := by
  unfold markup at h
  split at h
  · cases h
  · split at h
    · cases h
    · split at h
      · exact absurd h bangMarkup_ne_tag
      · split at h
        · exact absurd h bangMarkup_ne_tag
        · split at h
          · exact absurd h bangMarkup_ne_tag
          · cases h
  · dsimp only at h
    split at h <;> cases h
  · cases h
  · cases h
    exact prefix_upToTagClose none _

theorem suffix_of_markup (h : (markup s).rest? = some rest) : rest <:+ s := by
  obtain ⟨front, hfront, -⟩ := endsAt_markup h
  exact ⟨front, hfront.symm⟩

theorem mem_tags_readMarkup {openNames : List Text} {m : Markup} {tag : Tag}
    (h : tag ∈ (readMarkup openNames m).tags) :
    (∃ content rest, m = .tag content rest ∧ tag = (tagOfContent content).1) ∨
      ∃ names rest, m.rest? = some rest ∧ tag ∈ (readFrom names rest).tags := by
  cases m with
  | finished => cases h
  | fault fault => cases h
  | skipped rest => exact .inr ⟨openNames, rest, rfl, h⟩
  | endTag content rest =>
    cases openNames with
    | nil => cases h
    | cons name outer =>
      rw [readMarkup] at h
      split at h
      · exact .inr ⟨outer, rest, rfl, h⟩
      · cases h
  | tag content rest =>
    have hcons : ∃ names, tag = (tagOfContent content).1 ∨ tag ∈ (readFrom names rest).tags := by
      rw [readMarkup] at h
      split at h
      · next own hown =>
        rw [hown]
        exact ⟨openNames, List.mem_cons.1 h⟩
      · next own hown =>
        rw [hown]
        exact ⟨own.name :: openNames, List.mem_cons.1 h⟩
    obtain ⟨names, hown | hlater⟩ := hcons
    · exact .inl ⟨content, rest, rfl, hown⟩
    · exact .inr ⟨names, rest, rfl, hlater⟩

/-- The values of the tags of a document stand in it, whatever elements are open around it. -/
theorem standsQuoted_of_mem_readFrom (openNames : List Text) (s : Text) {tag : Tag}
    (htag : tag ∈ (readFrom openNames s).tags) (ha : a ∈ tag.attributes) :
    StandsQuoted a.value s := by
  cases hs : Text.splitFirst? '<' s with
  | none =>
    rw [readFrom_eq, hs] at htag
    cases htag
  | some parts =>
    obtain ⟨before, behind⟩ := parts
    obtain ⟨hsplit, hbefore⟩ := Text.eq_append_of_splitFirst? hs
    have hinner : behind <:+: s := ⟨before ++ ['<'], [], by simp [hsplit]⟩
    rw [hsplit, readFrom_text openNames hbefore, readFrom_markup] at htag
    obtain ⟨content, rest, hm, rfl⟩ | ⟨names, rest, hrest, hlater⟩ := mem_tags_readMarkup htag
    · exact (standsQuoted_of_mem_tagOfContent ha).mono
        ((prefix_of_markup_tag hm).isInfix.trans hinner)
    · -- the text behind the markup is shorter
      have hlen := length_le_of_markup hrest
      have : rest.length < s.length := by
        rw [hsplit, List.length_append, List.length_cons]
        omega
      exact (standsQuoted_of_mem_readFrom names rest hlater ha).mono
        ((suffix_of_markup hrest).isInfix.trans hinner)
  termination_by s.length

theorem standsQuoted_of_mem_tags {tag : Tag} (htag : tag ∈ (read s).tags) (ha : a ∈ tag.attributes) :
    StandsQuoted a.value s := by
  rw [read_eq_readFrom] at htag
  exact standsQuoted_of_mem_readFrom [] s htag ha

end AndroidResources.Xml
