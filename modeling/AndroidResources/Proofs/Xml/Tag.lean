import AndroidResources.Proofs.Xml.Source
import AndroidResources.Proofs.Text.Split

/-!
# Reading a written tag

* `KeepsOpen s` : a tag does not end inside `s`, and no quote stays open in it;
* `KeepsOpen.upToTagClose` : the content of a tag ends where its last character stands;
* `ofContent_content` : a tag is read as its name and its attributes as they are written;
* `unescapeFrom_render` : a value is read as the characters that its parts stand for;
* `values_raw` : so are all values of a tag.
-/

namespace AndroidResources.Xml

/-! ## Where a tag ends -/

/-- The end of a tag is looked for behind the text, outside of quotes. -/
def KeepsOpen (s : Text) : Prop :=
  ∀ rest, upToTagClose none (s ++ rest) =
    (s ++ (upToTagClose none rest).1, (upToTagClose none rest).2)

theorem KeepsOpen.append {s t : Text} (hs : KeepsOpen s) (ht : KeepsOpen t) :
    KeepsOpen (s ++ t) := by
  intro rest
  rw [List.append_assoc, hs, ht, List.append_assoc]

theorem KeepsOpen.nil : KeepsOpen [] := fun _ => rfl

theorem KeepsOpen.of_plain {s : Text} (h : ∀ c ∈ s, c ≠ '>' ∧ c ≠ '"' ∧ c ≠ '\'') :
    KeepsOpen s := by
  intro rest
  induction s with
  | nil => rfl
  | cons c s ih =>
    obtain ⟨hclose, hdouble, hsingle⟩ := h c (by simp)
    rw [List.cons_append, upToTagClose, if_neg (fun hc => hclose hc.2)]
    simp only [hdouble, hsingle, or_self, if_false]
    rw [ih fun d hd => h d (by simp [hd])]
    rfl

/-- Inside quotes only the quote itself counts. -/
theorem upToTagClose_quoted {q : Char} {v : Text} (h : q ∉ v) (rest : Text) :
    upToTagClose (some q) (v ++ q :: rest) =
      (v ++ q :: (upToTagClose none rest).1, (upToTagClose none rest).2) := by
  induction v with
  | nil =>
    rw [List.nil_append, upToTagClose, if_neg (by simp)]
    simp
  | cons c v ih =>
    rw [List.mem_cons, not_or] at h
    rw [List.cons_append, upToTagClose, if_neg (by simp)]
    simp only [if_neg (Ne.symm h.1)]
    rw [ih h.2]
    rfl

theorem KeepsOpen.quoted (q : Quote) {v : Text} (h : q.char ∉ v) :
    KeepsOpen (q.char :: (v ++ [q.char])) := by
  intro rest
  have hopen : upToTagClose none (q.char :: (v ++ q.char :: rest)) =
      (q.char :: (upToTagClose (some q.char) (v ++ q.char :: rest)).1,
        (upToTagClose (some q.char) (v ++ q.char :: rest)).2) := by
    cases q <;> rfl
  have happ : q.char :: (v ++ [q.char]) ++ rest = q.char :: (v ++ q.char :: rest) := by simp
  rw [happ, hopen, upToTagClose_quoted h]
  simp

theorem isSpace_plain {s : Text} (h : s.all isSpace) :
    ∀ c ∈ s, c ≠ '>' ∧ c ≠ '"' ∧ c ≠ '\'' := by
  intro c hc
  have hspace := List.all_eq_true.1 h c hc
  refine ⟨?_, ?_, ?_⟩ <;> rintro rfl <;> exact absurd hspace (by decide)

theorem Name.not_mem (name : Name) {c : Char} (h : c ∈ nameMarks) : c ∉ name.text :=
  fun hc => (name.plain c hc).2 h

theorem Name.keepsOpen (name : Name) : KeepsOpen name.text := by
  refine KeepsOpen.of_plain fun c hc => ⟨?_, ?_, ?_⟩ <;> rintro rfl <;>
    exact name.not_mem (by decide) hc

namespace SourceAttribute

theorem gap_space (a : SourceAttribute) : a.gap.all isSpace := by
  have h := a.spaces
  rw [List.all_append, List.all_append, Bool.and_eq_true, Bool.and_eq_true] at h
  exact h.1.1

theorem before_space (a : SourceAttribute) : a.before.all isSpace := by
  have h := a.spaces
  rw [List.all_append, List.all_append, Bool.and_eq_true, Bool.and_eq_true] at h
  exact h.1.2

theorem after_space (a : SourceAttribute) : a.after.all isSpace := by
  have h := a.spaces
  rw [List.all_append, List.all_append, Bool.and_eq_true, Bool.and_eq_true] at h
  exact h.2

theorem keepsOpen (a : SourceAttribute) : KeepsOpen a.render := by
  unfold render
  have hequals : KeepsOpen ['='] := KeepsOpen.of_plain (Text.forall_of_all (by decide))
  refine (KeepsOpen.of_plain (isSpace_plain a.gap_space)).append (a.name.keepsOpen.append ?_)
  refine (KeepsOpen.of_plain (isSpace_plain a.before_space)).append (hequals.append ?_)
  exact (KeepsOpen.of_plain (isSpace_plain a.after_space)).append (.quoted a.quote a.unquoted)

end SourceAttribute

theorem keepsOpen_flatMap (attributes : List SourceAttribute) :
    KeepsOpen (attributes.flatMap SourceAttribute.render) := by
  induction attributes with
  | nil => exact .nil
  | cons a others ih =>
    rw [List.flatMap_cons]
    exact a.keepsOpen.append ih

theorem SourceTag.keepsOpen (t : SourceTag) : KeepsOpen t.content := by
  unfold content
  refine t.name.keepsOpen.append ((keepsOpen_flatMap t.attributes).append ?_)
  exact KeepsOpen.of_plain (isSpace_plain t.gap_space)

theorem KeepsOpen.upToTagClose {s : Text} (h : KeepsOpen s) (rest : Text) :
    upToTagClose none (s ++ '>' :: rest) = (s, rest) := by
  rw [h, show Xml.upToTagClose none ('>' :: rest) = ([], rest) from rfl, List.append_nil]

/-! ## Attributes -/

theorem skipSpace_append {s : Text} (h : s.all isSpace) (rest : Text) :
    skipSpace (s ++ rest) = skipSpace rest := by
  unfold skipSpace
  exact List.dropWhile_append_of_pos fun c hc => List.all_eq_true.1 h c hc

theorem skipSpace_cons {c : Char} (h : isSpace c = false) (rest : Text) :
    skipSpace (c :: rest) = c :: rest := by
  unfold skipSpace
  rw [List.dropWhile_cons, h]
  rfl

theorem Quote.not_space (q : Quote) : isSpace q.char = false := by
  cases q <;> decide

theorem readValue_quoted (total : Nat) (name : Text) (position : Nat) {after : Text}
    (hafter : after.all isSpace) (q : Quote) {v : Text} (hv : q.char ∉ v) (rest : Text) :
    readValue total name position (after ++ q.char :: (v ++ q.char :: rest)) =
      .found ⟨name, v⟩ position rest := by
  have hquote : q.char = '"' ∨ q.char = '\'' := by cases q <;> decide
  unfold readValue
  rw [skipSpace_append hafter, skipSpace_cons q.not_space]
  simp only [if_pos hquote, Text.splitFirst?_append hv]

theorem Name.continues (name : Name) : ∀ c ∈ name.text, (c != '=' && !isSpace c) = true := by
  intro c hc
  have hne : c ≠ '=' := by
    rintro rfl
    exact name.not_mem (by decide) hc
  simp [hne, (name.plain c hc).1]

theorem span_name {s t : Text} (hs : ∀ c ∈ s, (c != '=' && !isSpace c) = true) {before : Text}
    (hbefore : before.all isSpace) :
    (s ++ (before ++ '=' :: t)).takeWhile (fun c => c != '=' && !isSpace c) = s ∧
      (s ++ (before ++ '=' :: t)).dropWhile (fun c => c != '=' && !isSpace c) =
        before ++ '=' :: t := by
  rw [List.takeWhile_append_of_pos hs, List.dropWhile_append_of_pos hs]
  cases before with
  | nil => simp
  | cons c before =>
    rw [List.all_cons, Bool.and_eq_true] at hbefore
    simp [hbefore.1]

/-- An attribute is read as it is written, if its name is new. -/
theorem nextAttribute_render (total : Nat) {seen : List (Text × Nat)} (a : SourceAttribute)
    (hseen : seen.lookup a.name.text = none) (rest : Text) :
    ∃ position, nextAttribute total seen (a.render ++ rest) =
      .found ⟨a.name.text, a.value⟩ position rest := by
  obtain ⟨c, s, hname⟩ := List.exists_cons_of_ne_nil a.name.ne_nil
  have hc : isSpace c = false := (a.name.plain c (by rw [hname]; simp)).1
  have hs : ∀ d ∈ s, (d != '=' && !isSpace d) = true := fun d hd =>
    a.name.continues d (by rw [hname]; simp [hd])
  obtain ⟨htake, hdrop⟩ :=
    span_name (t := a.after ++ a.quote.char :: (a.value ++ a.quote.char :: rest)) hs
      a.before_space
  have happ : a.render ++ rest = a.gap ++ (c :: (s ++ (a.before ++ '=' ::
      (a.after ++ a.quote.char :: (a.value ++ a.quote.char :: rest))))) := by
    unfold SourceAttribute.render
    rw [hname]
    simp
  refine ⟨total - Text.utf8Size (c :: (s ++ (a.before ++ '=' ::
    (a.after ++ a.quote.char :: (a.value ++ a.quote.char :: rest))))), ?_⟩
  unfold nextAttribute
  rw [happ, skipSpace_append a.gap_space, skipSpace_cons hc]
  simp only [htake, hdrop]
  rw [skipSpace_append a.before_space, skipSpace_cons (by decide)]
  simp only [← hname, hseen]
  exact readValue_quoted _ _ _ a.after_space a.quote a.unquoted rest

theorem nextAttribute_space (total : Nat) (seen : List (Text × Nat)) {s : Text}
    (h : s.all isSpace) : nextAttribute total seen s = .done := by
  have hskip : skipSpace s = [] := by
    have := skipSpace_append h []
    rwa [List.append_nil] at this
  unfold nextAttribute
  rw [hskip]

theorem lookup_eq_none {seen : List (Text × Nat)} {name : Text}
    (h : name ∉ seen.map Prod.fst) : seen.lookup name = none := by
  rw [List.lookup_eq_none_iff]
  intro entry hentry
  simp only [bne_iff_ne, ne_eq]
  rintro rfl
  exact h (List.mem_map_of_mem hentry)

theorem readAttributes_render (total : Nat) (attributes : List SourceAttribute) {gap : Text}
    (hgap : gap.all isSpace) :
    ∀ seen : List (Text × Nat),
      (seen.map Prod.fst ++ attributes.map fun a => a.name.text).Nodup →
      readAttributes total seen (attributes.flatMap SourceAttribute.render ++ gap) =
        (attributes.map fun a => ⟨a.name.text, a.value⟩, none) := by
  induction attributes with
  | nil =>
    intro seen _
    rw [List.flatMap_nil, List.nil_append, readAttributes]
    split
    · rfl
    · next fault hfault =>
      rw [nextAttribute_space _ _ hgap] at hfault
      cases hfault
    · next a position rest hfound =>
      rw [nextAttribute_space _ _ hgap] at hfound
      cases hfound
  | cons a others ih =>
    intro seen hnodup
    rw [List.map_cons] at hnodup
    have hnew : a.name.text ∉ seen.map Prod.fst := fun hmem =>
      (List.nodup_append.1 hnodup).2.2 _ hmem _ List.mem_cons_self rfl
    obtain ⟨position, hnext⟩ := nextAttribute_render total a (lookup_eq_none hnew)
      (others.flatMap SourceAttribute.render ++ gap)
    have hothers : ((seen ++ [(a.name.text, position)]).map Prod.fst ++
        others.map fun a => a.name.text).Nodup := by
      rw [List.map_append, List.append_assoc]
      exact hnodup
    rw [List.flatMap_cons, List.append_assoc, readAttributes]
    split
    · next hdone =>
      rw [hnext] at hdone
      cases hdone
    · next fault hfault =>
      rw [hnext] at hfault
      cases hfault
    · next b offset rest hfound =>
      rw [hnext] at hfound
      cases hfound
      simp only [ih _ hothers, List.map_cons]

theorem span_content (t : SourceTag) :
    t.content.takeWhile (fun c => !isSpace c) = t.name.text ∧
      t.content.dropWhile (fun c => !isSpace c) =
        t.attributes.flatMap SourceAttribute.render ++ t.gap := by
  have hname : ∀ c ∈ t.name.text, (!isSpace c) = true := fun c hc => by
    simp [(t.name.plain c hc).1]
  have hrest : ∀ c s, t.attributes.flatMap SourceAttribute.render ++ t.gap = c :: s →
      isSpace c = true := by
    intro c s hcons
    cases hattributes : t.attributes with
    | nil =>
      rw [hattributes, List.flatMap_nil, List.nil_append] at hcons
      exact List.all_eq_true.1 t.gap_space c (by rw [hcons]; simp)
    | cons a others =>
      obtain ⟨d, u, hgap⟩ := List.exists_cons_of_ne_nil a.gap_ne_nil
      rw [hattributes, List.flatMap_cons, SourceAttribute.render, hgap] at hcons
      simp only [List.cons_append, List.cons.injEq] at hcons
      rw [← hcons.1]
      exact List.all_eq_true.1 a.gap_space d (by rw [hgap]; simp)
  unfold SourceTag.content
  rw [List.takeWhile_append_of_pos hname, List.dropWhile_append_of_pos hname]
  cases hcons : t.attributes.flatMap SourceAttribute.render ++ t.gap with
  | nil => simp
  | cons c s => simp [hrest c s hcons]

/-- A tag is read as its name and its attributes as they are written. -/
theorem ofContent_content (t : SourceTag) : Tag.ofContent t.content = t.tag := by
  obtain ⟨hname, hrest⟩ := span_content t
  unfold Tag.ofContent SourceTag.tag SourceTag.values
  rw [hname, hrest]
  simp only [readAttributes_render _ t.attributes t.gap_space [] (by simpa using t.distinct)]

/-! ## References -/

theorem digits_of_readDigits {base value n : Nat} {digit? : Char → Option Nat} {digits : Text}
    (h : Text.readDigits base digit? value digits = .ok n) :
    ∀ c ∈ digits, (digit? c).isSome := by
  induction digits generalizing value with
  | nil => simp
  | cons c rest ih =>
    unfold Text.readDigits at h
    cases hc : digit? c with
    | none => simp [hc] at h
    | some d =>
      simp only [hc] at h
      intro x hx
      rcases List.mem_cons.1 hx with rfl | hx
      · simp [hc]
      · exact ih h x hx

theorem utf8Size_eq_length {s : Text} (h : ∀ c ∈ s, c.val ≤ 127) :
    Text.utf8Size s = s.length := by
  induction s with
  | nil => rfl
  | cons c s ih =>
    rw [Text.utf8Size_cons, ih fun d hd => h d (by simp [hd]),
      Char.utf8Size_eq_one_iff.2 (h c (by simp)), List.length_cons, Nat.add_comm]

/-- The characters of a number are no marks of a reference and take one byte each. -/
structure IsDigit (c : Char) : Prop where
  ne_ampersand : c ≠ '&'
  ne_semicolon : c ≠ ';'
  ne_x : c ≠ 'x'
  ascii : c.val ≤ 127

theorem isDigit_of_range {c lo hi : Char} (h : lo ≤ c ∧ c ≤ hi) (hlo : '&' < lo) (hhi : hi < 'x')
    (hsemi : hi < ';' ∨ ';' < lo) : IsDigit c := by
  have key : ∀ {a b : Char}, a ≤ b ↔ a.val.toNat ≤ b.val.toNat := Iff.rfl
  have key' : ∀ {a b : Char}, a < b ↔ a.val.toNat < b.val.toNat := Iff.rfl
  rw [key, key] at h
  rw [key'] at hlo hhi
  rw [key', key'] at hsemi
  have hx : 'x'.val.toNat = 120 := rfl
  have hs : ';'.val.toNat = 59 := rfl
  have ha : '&'.val.toNat = 38 := rfl
  refine ⟨?_, ?_, ?_, ?_⟩
  · rintro rfl
    omega
  · rintro rfl
    omega
  · rintro rfl
    omega
  · show c.val.toNat ≤ 127
    omega

theorem isDigit_of_decimalDigit? {c : Char} (h : (Text.decimalDigit? c).isSome) : IsDigit c := by
  unfold Text.decimalDigit? at h
  split at h
  · next hrange => exact isDigit_of_range hrange (by decide) (by decide) (by decide)
  · cases h

theorem isDigit_of_hexDigit? {c : Char} (h : (Text.hexDigit? c).isSome) : IsDigit c := by
  unfold Text.hexDigit? at h
  split at h
  · next hrange => exact isDigit_of_range hrange (by decide) (by decide) (by decide)
  · split at h
    · next hrange => exact isDigit_of_range hrange (by decide) (by decide) (by decide)
    · split at h
      · next hrange => exact isDigit_of_range hrange (by decide) (by decide) (by decide)
      · cases h

theorem decodeEntity_number (start stop : Nat) {digits : Text} {c : Char} (hc : c ≠ '\x00')
    (h : readCode digits = .ok c.toNat) : decodeEntity start stop ('#' :: digits) = .ok c := by
  have hne : c.toNat ≠ 0 := fun h0 => hc (Char.ext (UInt32.toNat_inj.1 h0))
  have hvalid : c.toNat.isValidChar := c.valid
  unfold decodeEntity
  simp only [h]
  show (if c.toNat = 0 then _ else if c.toNat.isValidChar then _ else _) = _
  rw [if_neg hne, if_pos hvalid, Char.ofNat_toNat]

theorem decodeEntity_of_denotes (start stop : Nat) {name : Text} {c : Char} (h : Denotes name c)
    (hshort : name.length ≤ 8) : decodeEntity start stop name = .ok c := by
  cases h with
  | predefined h =>
    simp only [Xml.predefined, List.mem_cons, List.not_mem_nil, or_false, Prod.mk.injEq] at h
    rcases h with ⟨rfl, rfl⟩ | ⟨rfl, rfl⟩ | ⟨rfl, rfl⟩ | ⟨rfl, rfl⟩ | ⟨rfl, rfl⟩ <;> rfl
  | @decimal digits _ hne hc h =>
    have hdigits : ∀ d ∈ digits, IsDigit d := fun d hd =>
      isDigit_of_decimalDigit? (digits_of_readDigits h d hd)
    have hsize : Text.utf8Size digits = digits.length :=
      utf8Size_eq_length fun d hd => (hdigits d hd).ascii
    rw [List.length_cons] at hshort
    refine decodeEntity_number start stop hc ?_
    unfold readCode
    split
    · next hex => exact absurd rfl (hdigits 'x' (by simp)).ne_x
    · rw [if_neg (by omega), h]
      rfl
  | @hexadecimal digits _ hne hc h =>
    have hsize : Text.utf8Size digits = digits.length :=
      utf8Size_eq_length fun d hd => (isDigit_of_hexDigit? (digits_of_readDigits h d hd)).ascii
    rw [List.length_cons, List.length_cons] at hshort
    refine decodeEntity_number start stop hc ?_
    unfold readCode
    show (if 6 < Text.utf8Size digits then _ else _) = _
    rw [if_neg (by omega), h]
    rfl

theorem Denotes.plain {name : Text} {c : Char} (h : Denotes name c) :
    ∀ d ∈ name, (d != '&' && d != ';') = true := by
  cases h with
  | predefined h =>
    simp only [Xml.predefined, List.mem_cons, List.not_mem_nil, or_false, Prod.mk.injEq] at h
    rcases h with ⟨rfl, -⟩ | ⟨rfl, -⟩ | ⟨rfl, -⟩ | ⟨rfl, -⟩ | ⟨rfl, -⟩ <;>
      exact Text.forall_of_all (by decide)
  | @decimal digits _ _ _ h =>
    intro d hd
    rcases List.mem_cons.1 hd with rfl | hd
    · decide
    · have hdigit := isDigit_of_decimalDigit? (digits_of_readDigits h d hd)
      simp [hdigit.ne_ampersand, hdigit.ne_semicolon]
  | @hexadecimal digits _ _ _ h =>
    intro d hd
    rcases List.mem_cons.1 hd with rfl | hd
    · decide
    · rcases List.mem_cons.1 hd with rfl | hd
      · decide
      · have hdigit := isDigit_of_hexDigit? (digits_of_readDigits h d hd)
        simp [hdigit.ne_ampersand, hdigit.ne_semicolon]

/-! ## Values -/

theorem unescapeFrom_plain (total : Nat) {s : Text} (h : '&' ∉ s) :
    unescapeFrom total s = .ok s := by
  have hsplit := Text.splitFirst?_eq_none h
  rw [unescapeFrom]
  split
  · rfl
  · next heq =>
    rw [hsplit] at heq
    cases heq

theorem unescapeFrom_reference (total : Nat) {before name after t : Text} {c : Char}
    (hbefore : '&' ∉ before) (hname : ∀ d ∈ name, (d != '&' && d != ';') = true)
    (hc : ∀ start stop, decodeEntity start stop name = .ok c)
    (hafter : unescapeFrom total after = .ok t) :
    unescapeFrom total (before ++ '&' :: (name ++ ';' :: after)) = .ok (before ++ c :: t) := by
  have hsplit := Text.splitFirst?_append hbefore (name ++ ';' :: after)
  have htake : (name ++ ';' :: after).takeWhile (fun d => d != '&' && d != ';') = name := by
    rw [List.takeWhile_append_of_pos hname]
    simp
  have hdrop : (name ++ ';' :: after).dropWhile (fun d => d != '&' && d != ';') =
      ';' :: after := by
    rw [List.dropWhile_append_of_pos hname]
    simp
  rw [unescapeFrom]
  split
  · next heq =>
    rw [hsplit] at heq
    cases heq
  · next first rest heq =>
    rw [hsplit] at heq
    cases heq
    split
    · next behind hbehind =>
      rw [hdrop] at hbehind
      cases hbehind
      rw [htake]
      simp only [hc, hafter]
      rfl
    · next hno => exact absurd hdrop (hno after)

/-- A value is read as the characters that its parts stand for, behind plain ones. -/
theorem unescapeFrom_render (total : Nat) {parts : List ValuePart} (h : ∀ part ∈ parts, part.Short)
    {before : Text} (hbefore : '&' ∉ before) :
    unescapeFrom total (before ++ parts.flatMap ValuePart.render) =
      .ok (before ++ parts.map ValuePart.char) := by
  -- plain characters are gathered in front until a reference comes
  induction parts generalizing before with
  | nil =>
    rw [List.flatMap_nil, List.map_nil, List.append_nil]
    exact unescapeFrom_plain total hbefore
  | cons part others ih =>
    have hothers : ∀ p ∈ others, p.Short := fun p hp => h p (by simp [hp])
    cases part with
    | plain c hc =>
      have hbefore' : '&' ∉ before ++ [c] := by simp [hbefore, Ne.symm hc]
      have key := ih hothers hbefore'
      rw [List.append_assoc, List.append_assoc] at key
      exact key
    | reference name c hdenotes =>
      have happ : before ++ (ValuePart.reference name c hdenotes :: others).flatMap
          ValuePart.render = before ++ '&' :: (name ++ ';' :: others.flatMap ValuePart.render) := by
        rw [List.flatMap_cons, ValuePart.render]
        simp
      have hrest := ih hothers List.not_mem_nil
      rw [List.nil_append, List.nil_append] at hrest
      rw [happ]
      exact unescapeFrom_reference total hbefore hdenotes.plain
        (fun start stop => decodeEntity_of_denotes start stop hdenotes
          (h (.reference name c hdenotes) (by simp)))
        hrest

theorem unescape_rawValue {a : WrittenAttribute} (h : ∀ part ∈ a.value, part.Short) :
    unescape a.rawValue = .ok (a.value.map ValuePart.char) :=
  unescapeFrom_render _ h List.not_mem_nil

theorem mapM_map_eq_ok {α β γ ε : Type} {f : β → Except ε γ} {mk : α → β} {g : α → γ} {l : List α}
    (h : ∀ a ∈ l, f (mk a) = .ok (g a)) : (l.map mk).mapM f = .ok (l.map g) := by
  induction l with
  | nil => rfl
  | cons a l ih =>
    rw [List.map_cons, List.mapM_cons, h a (by simp), ih fun b hb => h b (by simp [hb])]
    rfl

theorem values_raw {t : WrittenTag} (h : t.Short) : t.raw.values = .ok t.values := by
  unfold Tag.values WrittenTag.raw WrittenTag.values
  rw [mapM_map_eq_ok (g := fun a => (a.name.text, a.value.map ValuePart.char))]
  · rfl
  · intro a ha
    simp only [unescape_rawValue (h a ha)]

end AndroidResources.Xml
