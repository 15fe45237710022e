import AndroidResources.Config.Basic
import Mathlib.Data.List.Infix
import Mathlib.Data.List.Forall2

/-!
# Patterns of names

A pattern as a list of parts, and the names that parts match. Of the stars in a pattern only the one
at an end stands for a run of characters.

* `PatternPart`, `Matches` : characters up to their case and runs of characters, and what they match;
* `globParts` : the pattern with every star for a run, `endParts` : with only the one at an end;
* `StarAtEnd` : a pattern whose only star, if any, is its first or its last character;
* `patternAccepts_iff` : a pattern accepts what its parts match, with the star at an end for a run;
* `Matches.loosen` : with every star for a run a pattern matches no less;
* `endParts_matches_globParts` : both readings match the same names exactly for patterns with the
  star at an end;
* `skipsByPatterns` : the names that a configuration skips.
-/

namespace AndroidResources

inductive PatternPart
  /-- Any run of characters, also none at all. -/
  | run
  /-- The character, up to the case of ASCII letters. -/
  | char (c : Char)
  deriving DecidableEq, Repr

inductive Matches : List PatternPart → Text → Prop
  | nil : Matches [] []
  | run (s : Text) {parts : List PatternPart} {rest : Text} (h : Matches parts rest) :
      Matches (.run :: parts) (s ++ rest)
  | char {c d : Char} (hc : c.toLower = d.toLower) {parts : List PatternPart} {rest : Text}
      (h : Matches parts rest) : Matches (.char c :: parts) (d :: rest)

def globPart (c : Char) : PatternPart :=
  if c = '*' then .run else .char c

/-- The parts of a pattern that is read as a glob: every star stands for a run. -/
def globParts (pattern : Text) : List PatternPart :=
  pattern.map globPart

/-- The parts of a pattern with one star at most: the star in front stands for a run, else the one
at the end; all other stars stand for themselves. -/
def endParts (pattern : Text) : List PatternPart :=
  if pattern.head? = some '*' then .run :: pattern.tail.map .char
  else if pattern.getLast? = some '*' then pattern.dropLast.map .char ++ [.run]
  else pattern.map .char

/-- There is no star behind the first character, or none before the last one. -/
def StarAtEnd (pattern : Text) : Prop :=
  '*' ∉ pattern.tail ∨ '*' ∉ pattern.dropLast

instance (pattern : Text) : Decidable (StarAtEnd pattern) :=
  inferInstanceAs (Decidable (_ ∨ _))

/-! ## What parts match -/

theorem matches_run_cons {parts : List PatternPart} {name : Text} :
    Matches (.run :: parts) name ↔ ∃ rest, rest <:+ name ∧ Matches parts rest := by
  constructor
  · intro h
    cases h with
    | run s h => exact ⟨_, List.suffix_append .., h⟩
  · rintro ⟨rest, ⟨s, rfl⟩, h⟩
    exact .run s h

theorem matches_char_cons {c : Char} {parts : List PatternPart} {name : Text} :
    Matches (.char c :: parts) name ↔
      ∃ d rest, name = d :: rest ∧ c.toLower = d.toLower ∧ Matches parts rest := by
  constructor
  · intro h
    cases h with
    | char hc h => exact ⟨_, _, rfl, hc, h⟩
  · rintro ⟨d, rest, rfl, hc, h⟩
    exact .char hc h

theorem matches_nil {name : Text} : Matches [] name ↔ name = [] := by
  constructor
  · intro h
    cases h
    rfl
  · rintro rfl
    exact .nil

theorem matches_chars_append {s : Text} {parts : List PatternPart} {name : Text} :
    Matches (s.map .char ++ parts) name ↔
      ∃ front rest, name = front ++ rest ∧ Text.toLowerAscii s = Text.toLowerAscii front ∧
        Matches parts rest := by
  unfold Text.toLowerAscii
  induction s generalizing name with
  | nil =>
    constructor
    · intro h
      exact ⟨[], name, rfl, rfl, h⟩
    · rintro ⟨front, rest, rfl, hfront, h⟩
      obtain rfl : front = [] := List.map_eq_nil_iff.1 hfront.symm
      exact h
  | cons c s ih =>
    rw [List.map_cons, List.cons_append, matches_char_cons]
    constructor
    · rintro ⟨d, rest, rfl, hc, h⟩
      obtain ⟨front, rest, rfl, hfront, h⟩ := ih.1 h
      exact ⟨d :: front, rest, rfl, by rw [List.map_cons, List.map_cons, hc, hfront], h⟩
    · rintro ⟨front, rest, rfl, hfront, h⟩
      rw [List.map_cons, eq_comm, List.map_eq_cons_iff] at hfront
      obtain ⟨d, front, rfl, hc, hfront⟩ := hfront
      exact ⟨d, front ++ rest, rfl, hc.symm, ih.2 ⟨front, rest, rfl, hfront.symm, h⟩⟩

theorem matches_chars {s name : Text} :
    Matches (s.map .char) name ↔ Text.toLowerAscii s = Text.toLowerAscii name := by
  have h := @matches_chars_append s [] name
  rw [List.append_nil] at h
  simp [h, matches_nil]

theorem matches_run_chars {s name : Text} :
    Matches (.run :: s.map .char) name ↔ Text.toLowerAscii s <:+ Text.toLowerAscii name := by
  unfold Text.toLowerAscii
  rw [matches_run_cons, List.suffix_map_iff]
  simp only [matches_chars, Text.toLowerAscii]

theorem matches_chars_run {s name : Text} :
    Matches (s.map .char ++ [.run]) name ↔ Text.toLowerAscii s <+: Text.toLowerAscii name := by
  have hrun : ∀ rest, Matches [.run] rest := fun rest =>
    matches_run_cons.2 ⟨[], List.nil_suffix, .nil⟩
  unfold Text.toLowerAscii
  rw [matches_chars_append, List.prefix_map_iff]
  constructor
  · rintro ⟨front, rest, rfl, hfront, -⟩
    exact ⟨front, List.prefix_append .., hfront⟩
  · rintro ⟨front, ⟨rest, rfl⟩, hfront⟩
    exact ⟨front, rest, rfl, hfront, hrun rest⟩

/-- What parts match is decided along them; a run ends at any place of the name. -/
def decMatches : (parts : List PatternPart) → (name : Text) → Decidable (Matches parts name)
  | [], _ => decidable_of_iff _ matches_nil.symm
  | .run :: parts, name =>
    haveI := decMatches parts
    decidable_of_iff (∃ rest ∈ name.tails, Matches parts rest)
      (by simp only [List.mem_tails, matches_run_cons])
  | .char _ :: _, [] => isFalse nofun
  | .char c :: parts, d :: rest =>
    haveI := decMatches parts rest
    decidable_of_iff (c.toLower = d.toLower ∧ Matches parts rest)
      (by simp [matches_char_cons])

instance (parts : List PatternPart) (name : Text) : Decidable (Matches parts name) :=
  decMatches parts name

/-! ## What a pattern accepts -/

theorem patternAccepts_eq (pattern name : Text) :
    patternAccepts pattern name =
      if pattern.head? = some '*' then List.isSuffixOf pattern.tail name
      else if pattern.getLast? = some '*' then List.isPrefixOf pattern.dropLast name
      else pattern == name := by
  unfold patternAccepts
  split
  · rfl
  · next hhead =>
    have hne : pattern.head? ≠ some '*' := fun h => by
      obtain ⟨rest, hrest⟩ := List.head?_eq_some_iff.1 h
      exact hhead rest hrest
    rw [if_neg hne]
    split
    · next hlast => rw [if_pos hlast]
    · next hlast => rw [if_neg hlast]

theorem toLower_eq_star {c : Char} : c.toLower = '*' ↔ c = '*' := by
  constructor
  · intro h
    unfold Char.toLower at h
    split at h
    · next hupper =>
      have hval : c.val + 32 = 42 := congrArg Char.val h
      have hfirst : 65 ≤ c.val := hupper.1
      have hlast : c.val ≤ 90 := hupper.2
      grind
    · exact h
  · rintro rfl
    rfl

theorem map_toLower_eq_some_star {c? : Option Char} :
    c?.map Char.toLower = some '*' ↔ c? = some '*' := by
  rw [Option.map_eq_some_iff]
  simp only [toLower_eq_star, exists_eq_right]

/-- A pattern accepts a name up to the case of both exactly if its parts match the name. -/
theorem patternAccepts_iff (pattern name : Text) :
    patternAccepts (Text.toLowerAscii pattern) (Text.toLowerAscii name) = true ↔
      Matches (endParts pattern) name := by
  have hhead : (Text.toLowerAscii pattern).head? = some '*' ↔ pattern.head? = some '*' := by
    rw [Text.toLowerAscii, List.head?_map, map_toLower_eq_some_star]
  have hlast : (Text.toLowerAscii pattern).getLast? = some '*' ↔ pattern.getLast? = some '*' := by
    rw [Text.toLowerAscii, List.getLast?_map, map_toLower_eq_some_star]
  have htail : (Text.toLowerAscii pattern).tail = Text.toLowerAscii pattern.tail :=
    List.map_tail.symm
  have hfront : (Text.toLowerAscii pattern).dropLast = Text.toLowerAscii pattern.dropLast :=
    List.map_dropLast.symm
  rw [patternAccepts_eq, htail, hfront]
  simp only [hhead, hlast]
  unfold endParts
  split_ifs
  · rw [List.isSuffixOf_iff_suffix, matches_run_chars]
  · rw [List.isPrefixOf_iff_prefix, matches_chars_run]
  · rw [beq_iff_eq, matches_chars]

theorem ignores_iff (config : MergeConfig) (name : Text) :
    config.ignores name = true ↔
      ∃ pattern ∈ config.ignorePatterns, Matches (endParts pattern) name := by
  unfold MergeConfig.ignores
  rw [List.any_eq_true]
  simp only [patternAccepts_iff]

/-! ## Every star for a run -/

/-- A part that matches no less stands in the place of another. -/
def Loosens (old new : PatternPart) : Prop :=
  new = old ∨ new = .run

theorem Matches.loosen {parts : List PatternPart} {name : Text} (h : Matches parts name) :
    ∀ {others : List PatternPart}, List.Forall₂ Loosens parts others → Matches others name := by
  induction h with
  | nil =>
    intro others hothers
    cases hothers
    exact .nil
  | run s _ ih =>
    intro others hothers
    cases hothers with
    | cons hpart hothers =>
      obtain rfl | rfl := hpart <;> exact .run s (ih hothers)
  | @char c d hc _ _ _ ih =>
    intro others hothers
    cases hothers with
    | cons hpart hothers =>
      obtain rfl | rfl := hpart
      · exact .char hc (ih hothers)
      · exact .run [d] (ih hothers)

theorem loosens_chars (s : Text) : List.Forall₂ Loosens (s.map .char) (globParts s) := by
  unfold globParts
  rw [List.forall₂_map_left_iff, List.forall₂_map_right_iff, List.forall₂_same]
  intro c _
  unfold globPart Loosens
  split_ifs <;> simp

theorem loosens_endParts (pattern : Text) :
    List.Forall₂ Loosens (endParts pattern) (globParts pattern) := by
  have hrun : Loosens .run (globPart '*') := .inl rfl
  unfold endParts
  split_ifs with hhead hlast
  · obtain ⟨rest, rfl⟩ := List.head?_eq_some_iff.1 hhead
    exact .cons hrun (loosens_chars rest)
  · obtain ⟨front, rfl⟩ := List.getLast?_eq_some_iff.1 hlast
    rw [List.dropLast_concat, globParts, List.map_append]
    exact List.rel_append (loosens_chars front) (.cons hrun .nil)
  · exact loosens_chars pattern

theorem Matches.glob {pattern name : Text} (h : Matches (endParts pattern) name) :
    Matches (globParts pattern) name :=
  h.loosen (loosens_endParts pattern)

theorem globParts_of_no_star {s : Text} (h : '*' ∉ s) : globParts s = s.map .char := by
  unfold globParts
  refine List.map_congr_left fun c hc => ?_
  unfold globPart
  rw [if_neg]
  rintro rfl
  exact h hc

theorem mem_iff_head_or_tail {c : Char} {s : Text} : c ∈ s ↔ s.head? = some c ∨ c ∈ s.tail := by
  cases s with
  | nil => simp
  | cons d s => simp [eq_comm]

theorem mem_iff_dropLast_or_last {c : Char} {s : Text} :
    c ∈ s ↔ c ∈ s.dropLast ∨ s.getLast? = some c := by
  rcases List.eq_nil_or_concat s with rfl | ⟨front, d, rfl⟩
  · simp
  · simp [eq_comm]

/-- With the star at an end both readings are the same. -/
theorem globParts_of_starAtEnd {pattern : Text} (h : StarAtEnd pattern) :
    globParts pattern = endParts pattern := by
  unfold StarAtEnd at h
  unfold endParts
  split_ifs with hhead hlast
  · obtain ⟨rest, rfl⟩ := List.head?_eq_some_iff.1 hhead
    have hrest : '*' ∉ rest := by
      rcases h with h | h
      · exact h
      · cases rest <;> simp_all
    rw [List.tail_cons, ← globParts_of_no_star hrest]
    rfl
  · obtain ⟨front, rfl⟩ := List.getLast?_eq_some_iff.1 hlast
    have hfront : '*' ∉ front := by
      rcases h with h | h
      · cases front <;> simp_all
      · rwa [List.dropLast_concat] at h
    rw [List.dropLast_concat, ← globParts_of_no_star hfront]
    exact List.map_append
  · refine globParts_of_no_star fun hstar => ?_
    rcases h with h | h
    · exact (mem_iff_head_or_tail.1 hstar).elim hhead h
    · exact (mem_iff_dropLast_or_last.1 hstar).elim h hlast

/-! ## Other stars -/

theorem char_star_mem_endParts {pattern : Text} (h : ¬ StarAtEnd pattern) :
    .char '*' ∈ endParts pattern := by
  unfold StarAtEnd at h
  rw [not_or, not_not, not_not] at h
  have hchar : ∀ {s : Text}, '*' ∈ s → .char '*' ∈ s.map PatternPart.char := fun hs =>
    List.mem_map_of_mem hs
  unfold endParts
  split_ifs
  · exact List.mem_cons_of_mem _ (hchar h.1)
  · exact List.mem_append_left _ (hchar h.2)
  · exact hchar (List.mem_of_mem_tail h.1)

theorem Matches.exists_mem {parts : List PatternPart} {name : Text} (h : Matches parts name)
    {c : Char} (hc : .char c ∈ parts) : ∃ d ∈ name, c.toLower = d.toLower := by
  induction h with
  | nil => cases hc
  | run s _ ih =>
    obtain ⟨d, hd, hcd⟩ := ih (by simpa using hc)
    exact ⟨d, List.mem_append_right s hd, hcd⟩
  | @char c' d hcd _ _ _ ih =>
    rcases List.mem_cons.1 hc with heq | hc
    · obtain rfl := PatternPart.char.inj heq
      exact ⟨d, List.mem_cons_self .., hcd⟩
    · obtain ⟨e, he, hce⟩ := ih hc
      exact ⟨e, List.mem_cons_of_mem _ he, hce⟩

theorem matches_globParts_filter (pattern : Text) :
    Matches (globParts pattern) (pattern.filter (· ≠ '*')) := by
  unfold globParts
  induction pattern with
  | nil => exact .nil
  | cons c pattern ih =>
    rw [List.map_cons, globPart, List.filter_cons]
    by_cases hc : c = '*'
    · rw [if_pos hc, if_neg (by simp [hc])]
      exact .run [] ih
    · rw [if_neg hc, if_pos (by simp [hc])]
      exact .char rfl ih

/-- Both readings of a pattern match the same names exactly if its star is at an end. -/
theorem endParts_matches_globParts (pattern : Text) :
    (∀ name, Matches (endParts pattern) name ↔ Matches (globParts pattern) name) ↔
      StarAtEnd pattern := by
  constructor
  · intro h
    by_contra hstar
    -- the pattern's own text without stars has nothing that a star could be compared with
    have hmatch := (h _).2 (matches_globParts_filter pattern)
    obtain ⟨d, hd, heq⟩ := hmatch.exists_mem (char_star_mem_endParts hstar)
    obtain rfl : d = '*' := toLower_eq_star.1 heq.symm
    simp at hd
  · intro h name
    rw [globParts_of_starAtEnd h]

/-! ## The names that are skipped -/

/-- Which names the patterns of a configuration skip. -/
structure SkipsByPatterns (config : MergeConfig) : Prop where
  /-- A name is skipped exactly if some pattern, with the star at an end for a run, matches it. -/
  ends : ∀ name, config.ignores name = true ↔
    ∃ pattern ∈ config.ignorePatterns, Matches (endParts pattern) name
  sound : ∀ name, config.ignores name = true →
    ∃ pattern ∈ config.ignorePatterns, Matches (globParts pattern) name
  /-- Where no pattern has another star, a name is skipped exactly if some glob matches it. -/
  complete : (∀ pattern ∈ config.ignorePatterns, StarAtEnd pattern) → ∀ name,
    (config.ignores name = true ↔
      ∃ pattern ∈ config.ignorePatterns, Matches (globParts pattern) name)
  only : ∀ pattern ∈ config.ignorePatterns,
    (∀ name, Matches (endParts pattern) name ↔ Matches (globParts pattern) name) ↔
      StarAtEnd pattern

/-- **What is skipped.** Patterns are globs with one star, which is the first or the last character;
every other star stands for itself. -/
theorem skipsByPatterns (config : MergeConfig) : SkipsByPatterns config where
  ends name := ignores_iff config name
  sound name h := by
    obtain ⟨pattern, hpattern, hmatch⟩ := (ignores_iff config name).1 h
    exact ⟨pattern, hpattern, hmatch.glob⟩
  complete hends name := by
    rw [ignores_iff]
    refine exists_congr fun pattern => and_congr_right fun hpattern => ?_
    rw [globParts_of_starAtEnd (hends pattern hpattern)]
  only pattern _ := endParts_matches_globParts pattern

/-- The patterns that are skipped by default are globs, of which one matches a backup file. -/
theorem skipsByPatterns_default :
    (∀ pattern ∈ ({} : MergeConfig).ignorePatterns, StarAtEnd pattern) ∧
      Matches (globParts "*.orig") "Strings.xml.ORIG" ∧
      ({} : MergeConfig).ignores "Strings.xml.ORIG" = true := by
  have hends : ∀ pattern ∈ ({} : MergeConfig).ignorePatterns, StarAtEnd pattern := by decide
  have hmatch : Matches (globParts "*.orig") "Strings.xml.ORIG" := by decide
  exact ⟨hends, hmatch,
    ((skipsByPatterns {}).complete hends _).2 ⟨"*.orig", by decide, hmatch⟩⟩

/-- A star inside a pattern, and one at each end, are compared with the characters of the name. -/
theorem glob_not_skipped :
    let config : MergeConfig := ⟨["values*.xml".toList, "*cache*".toList]⟩
    (∃ pattern ∈ config.ignorePatterns, Matches (globParts pattern) "values-v21.xml") ∧
      config.ignores "values-v21.xml" = false ∧
      (∃ pattern ∈ config.ignorePatterns, Matches (globParts pattern) "my_cache.bin") ∧
      config.ignores "my_cache.bin" = false := by
  decide

end AndroidResources
