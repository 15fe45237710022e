import AndroidResources.Merge.Plan
import AndroidResources.Proofs.FileSystem.Search

/-!
# Winners and overridden places of a merge plan

* `provided?` : the file that a declared directory has for a place of the merged tree;
* `MergePlan.Counts` : what a plan says of the offers that it has accepted, kept by each further one;
* `MergePlan.make_decides` : the last directory with a file for a place wins it, a place is overridden
  when two directories have one, and the first directory that is not there is reported.
-/

namespace AndroidResources

def searchedFor (fs : FileSystem) (declared : MergeRoot × Path) : Path :=
  resolveRoot fs declared.2 declared.1.name

/-- The file that a declared directory has for a place: the place is the name of its root and then
the names that lead from the directory that is searched to the file, none of which is skipped. -/
def provided? (fs : FileSystem) (config : MergeConfig) (place : List Text)
    (declared : MergeRoot × Path) : Option Location :=
  match place, fs.locate? (searchedFor fs declared) with
  | root :: names, some l =>
    if root = declared.1.name ∧ names ≠ [] ∧ names.all (!config.ignores ·) = true ∧
        (fs.get? (l ++ names)).any Entry.isFile = true then
      some (l ++ names)
    else none
  | _, _ => none

def providedAt (fs : FileSystem) (place : List Text) (declared : MergeRoot × Path) : Path :=
  (searchedFor fs declared).join (.ofNames place.tail)

/-! ## One directory -/

section

variable {fs : FileSystem} {config : MergeConfig} {declared : MergeRoot × Path}

def offered (fs : FileSystem) (config : MergeConfig) (declared : MergeRoot × Path) : List Offer :=
  (fs.findFiles config (searchedFor fs declared)).map fun file =>
    ⟨declared.1.name :: file.names, file.path⟩

theorem offers_eq (fs : FileSystem) (config : MergeConfig) (declared : MergeRoot × Path) :
    offers fs config declared =
      if fs.isDirectory (searchedFor fs declared) then .ok (offered fs config declared)
      else .error (.missingSourceDirectory (searchedFor fs declared)) := rfl

theorem provided?_eq_some {place : List Text} {file : Location} :
    provided? fs config place declared = some file ↔
      ∃ l names content, fs.resolve (searchedFor fs declared) = .ok (.present l) ∧
        place = declared.1.name :: names ∧ names ≠ [] ∧ names.all (!config.ignores ·) = true ∧
        file = l ++ names ∧ fs.get? file = some (.file content) := by
  unfold provided?
  constructor
  · intro h
    split at h
    · next root names l hlocate =>
      split at h
      · next hcond =>
        obtain ⟨rfl, hne, hkept, hfile⟩ := hcond
        cases h
        obtain ⟨entry, hget, hisFile⟩ := (Option.any_eq_true _ _).1 hfile
        cases entry with
        | file content =>
          refine ⟨l, names, content, ?_, rfl, hne, hkept, rfl, hget⟩
          unfold FileSystem.locate? at hlocate
          split at hlocate
          · next hresolve =>
            cases hlocate
            exact hresolve
          · cases hlocate
        | directory => cases hisFile
        | link target => cases hisFile
      · cases h
    · cases h
  · rintro ⟨l, names, content, hresolve, rfl, hne, hkept, rfl, hget⟩
    have hlocate : fs.locate? (searchedFor fs declared) = some l := by
      unfold FileSystem.locate?
      rw [hresolve]
    rw [hlocate]
    exact if_pos ⟨rfl, hne, hkept, by rw [hget]; rfl⟩

theorem mem_offered (hdir : fs.isDirectory (searchedFor fs declared) = true) {offer : Offer} :
    offer ∈ offered fs config declared ↔
      (provided? fs config offer.place declared).isSome = true ∧
        offer.source = providedAt fs offer.place declared := by
  obtain ⟨l, hresolve, hget⟩ := FileSystem.isDirectory_iff.1 hdir
  unfold offered providedAt
  rw [List.mem_map]
  constructor
  · rintro ⟨file, hfile, rfl⟩
    obtain ⟨hpath, hne, hkept, hany⟩ := (FileSystem.mem_findFiles hresolve hget).1 hfile
    obtain ⟨entry, hentry, hisFile⟩ := (Option.any_eq_true _ _).1 hany
    cases entry with
    | file content =>
      have hprovided := provided?_eq_some.2
        ⟨l, file.names, content, hresolve, rfl, hne, hkept, rfl, hentry⟩
      exact ⟨by rw [hprovided]; rfl, hpath⟩
    | directory => cases hisFile
    | link target => cases hisFile
  · rintro ⟨hprovided, hsource⟩
    obtain ⟨file, hfile⟩ := Option.isSome_iff_exists.1 hprovided
    obtain ⟨l', names, content, hresolve', hplace, hne, hkept, rfl, hcontent⟩ :=
      provided?_eq_some.1 hfile
    obtain rfl : l = l' := Place.present.inj (Except.ok.inj (hresolve.symm.trans hresolve'))
    refine ⟨⟨offer.source, names⟩, (FileSystem.mem_findFiles hresolve hget).2
      ⟨?_, hne, hkept, by rw [hcontent]; rfl⟩, ?_⟩
    · rw [hsource, hplace]
      rfl
    · rw [← hplace]

theorem offered_pairwise (hdir : fs.isDirectory (searchedFor fs declared) = true) :
    (offered fs config declared).Pairwise fun a b => a.place ≠ b.place := by
  obtain ⟨l, hresolve, hget⟩ := FileSystem.isDirectory_iff.1 hdir
  unfold offered
  rw [FileSystem.findFiles_eq config hresolve hget]
  refine ((fs.below_pairwise l).filterMap (S := fun a b => a.names ≠ b.names) _ ?_).map _ ?_
  · intro x y hne a ha b hb
    simp only [Option.ite_none_right_eq_some, Option.some.injEq] at ha hb
    rw [← ha.2, ← hb.2]
    exact hne
  · intro a b hne heq
    exact hne (List.cons.inj heq).2

theorem filter_key {α κ : Type} [DecidableEq κ] (key : α → κ) {l : List α}
    (h : l.Pairwise fun a b => key a ≠ key b) {a : α} (ha : a ∈ l) :
    l.filter (fun b => key b = key a) = [a] := by
  induction l with
  | nil => cases ha
  | cons b rest ih =>
    obtain ⟨hb, hrest⟩ := List.pairwise_cons.1 h
    rcases List.mem_cons.1 ha with rfl | ha
    · rw [List.filter_cons_of_pos (by simp), List.filter_eq_nil_iff.2]
      intro c hc
      simpa using Ne.symm (hb c hc)
    · rw [List.filter_cons_of_neg (by simpa using hb a ha), ih hrest ha]

theorem filter_offered (hdir : fs.isDirectory (searchedFor fs declared) = true)
    (place : List Text) :
    (offered fs config declared).filter (·.place = place) =
      if (provided? fs config place declared).isSome then [⟨place, providedAt fs place declared⟩]
      else [] := by
  split
  · next hprovided =>
    have hmem : ⟨place, providedAt fs place declared⟩ ∈ offered fs config declared :=
      (mem_offered hdir).2 ⟨hprovided, rfl⟩
    exact filter_key Offer.place (offered_pairwise hdir) hmem
  · next hnot =>
    rw [List.filter_eq_nil_iff]
    intro offer hmem heq
    rw [decide_eq_true_eq] at heq
    exact hnot (heq ▸ ((mem_offered hdir).1 hmem).1)

end

/-! ## All directories -/

section

variable {fs : FileSystem} {config : MergeConfig}

/-- Either the first directory that is not there is reported, or each makes its offers. -/
theorem mapM_offers (fs : FileSystem) (config : MergeConfig) (dirs : List (MergeRoot × Path)) :
    dirs.mapM (offers fs config) =
      match dirs.find? fun declared => !fs.isDirectory (searchedFor fs declared) with
      | some declared => .error (.missingSourceDirectory (searchedFor fs declared))
      | none => .ok (dirs.map (offered fs config)) := by
  induction dirs with
  | nil => rfl
  | cons declared rest ih =>
    rw [List.mapM_cons, ih, offers_eq, List.find?_cons]
    cases fs.isDirectory (searchedFor fs declared) with
    | false => rfl
    | true =>
      simp only [Bool.not_true, if_true]
      cases rest.find? fun declared => !fs.isDirectory (searchedFor fs declared) <;> rfl

theorem filter_flatten_offered (config : MergeConfig) {dirs : List (MergeRoot × Path)}
    (hdirs : ∀ declared ∈ dirs, fs.isDirectory (searchedFor fs declared) = true)
    (place : List Text) :
    (dirs.map (offered fs config)).flatten.filter (·.place = place) =
      (dirs.filter fun declared => (provided? fs config place declared).isSome).map fun declared =>
        ⟨place, providedAt fs place declared⟩ := by
  induction dirs with
  | nil => rfl
  | cons declared rest ih =>
    rw [List.map_cons, List.flatten_cons, List.filter_append,
      filter_offered (hdirs _ (List.mem_cons_self ..)),
      ih fun d hd => hdirs d (List.mem_cons_of_mem _ hd), List.filter_cons]
    split <;> rfl

end

/-! ## Accepting offers -/

namespace MergePlan

variable {plan : MergePlan} {accepted : List Offer}

/-- What a plan says of the offers that it has accepted: the last one for a place has won it, and
the places with more than one are overridden. -/
structure Counts (plan : MergePlan) (accepted : List Offer) : Prop where
  winners : ∀ place, plan.winners.get? place =
    (accepted.filter (·.place = place)).getLast?.map (·.source)
  overridden : ∀ place, plan.overridden.contains place = true ↔
    1 < (accepted.filter (·.place = place)).length

theorem counts_empty : Counts {} [] :=
  ⟨fun _ => rfl, fun _ => by simp [OrderedMap.contains]⟩

theorem Counts.contains (h : plan.Counts accepted) (place : List Text) :
    plan.winners.contains place = true ↔ 0 < (accepted.filter (·.place = place)).length := by
  unfold OrderedMap.contains
  rw [h.winners, Option.isSome_map, List.getLast?_isSome, List.length_pos_iff]

/-- One more offer is accounted for. -/
theorem Counts.accept (h : plan.Counts accepted) (offer : Offer) :
    (plan.accept offer).Counts (accepted ++ [offer]) := by
  constructor
  · intro place
    rw [MergePlan.accept, OrderedMap.get?_insert, List.filter_append]
    by_cases hplace : place = offer.place
    · subst hplace
      simp
    · rw [if_neg hplace, h.winners, List.filter_cons_of_neg (by simpa using Ne.symm hplace)]
      simp
  · intro place
    have hcontains := h.contains offer.place
    rw [List.filter_append, List.length_append]
    by_cases hplace : place = offer.place
    · subst hplace
      have hone : [offer].filter (·.place = offer.place) = [offer] := by simp
      rw [hone, List.length_singleton, Nat.lt_add_left_iff_pos, ← hcontains]
      show OrderedMap.contains (if _ then _ else _) _ = true ↔ _
      split
      · next hthere =>
        simp only [hthere, iff_true]
        unfold OrderedMap.contains
        rw [OrderedMap.get?_insert_self]
        rfl
      · next hnew =>
        have hnone := mt hcontains.2 hnew
        rw [h.overridden]
        constructor
        · omega
        · exact fun hthere => absurd hthere hnew
    · have hnone : [offer].filter (·.place = place) = [] := by simpa using Ne.symm hplace
      rw [hnone, List.length_nil, Nat.add_zero, ← h.overridden]
      unfold MergePlan.accept
      split
      · unfold OrderedMap.contains
        rw [OrderedMap.get?_insert, if_neg hplace]
      · rfl

theorem Counts.foldl (h : plan.Counts accepted) (offered : List Offer) :
    (offered.foldl MergePlan.accept plan).Counts (accepted ++ offered) := by
  induction offered generalizing plan accepted with
  | nil => rwa [List.append_nil]
  | cons offer rest ih =>
    have hrest := ih (h.accept offer)
    rwa [List.append_assoc] at hrest

/-- What a plan decides about a place: it is a key if some declared directory has a file for it, the
path of the last such file wins it, and it is overridden if two declared directories have one. -/
structure Decides (plan : MergePlan) (fs : FileSystem) (config : MergeConfig)
    (sets : List SourceSet) (place : List Text) : Prop where
  key : plan.winners.contains place = true ↔
    ∃ declared ∈ SourceSet.directories sets, ∃ file, provided? fs config place declared = some file
  winner : ∀ source, plan.winners.get? place = some source ↔
    ∃ earlier declared later, SourceSet.directories sets = earlier ++ declared :: later ∧
      (∃ file, provided? fs config place declared = some file ∧
        fs.resolve source = .ok (.present file)) ∧
      source = providedAt fs place declared ∧ ∀ d ∈ later, provided? fs config place d = none
  overridden : plan.overridden.contains place = true ↔
    ∃ earlier first between second later, SourceSet.directories sets =
        earlier ++ first :: between ++ second :: later ∧
      (∃ file, provided? fs config place first = some file) ∧
      ∃ file, provided? fs config place second = some file

theorem filter_getLast?_eq_some {α : Type} {p : α → Bool} {l : List α} {a : α} :
    (l.filter p).getLast? = some a ↔
      ∃ earlier later, l = earlier ++ a :: later ∧ p a = true ∧ ∀ b ∈ later, p b = false := by
  rw [← List.head?_reverse, ← List.filter_reverse, List.head?_filter,
    List.find?_eq_some_iff_append]
  constructor
  · rintro ⟨ha, front, back, hl, hfront⟩
    refine ⟨back.reverse, front.reverse, ?_, ha, fun b hb => ?_⟩
    · rw [← List.reverse_reverse l, hl]
      simp
    · simpa using hfront b (List.mem_reverse.1 hb)
  · rintro ⟨earlier, later, rfl, ha, hlater⟩
    refine ⟨ha, later.reverse, earlier.reverse, by simp, fun b hb => ?_⟩
    simpa using hlater b (List.mem_reverse.1 hb)

theorem one_lt_length_filter {α : Type} {p : α → Bool} {l : List α} :
    1 < (l.filter p).length ↔
      ∃ earlier a between b later, l = earlier ++ a :: between ++ b :: later ∧ p a = true ∧
        p b = true := by
  constructor
  · intro h
    obtain ⟨a, b, rest, hfilter⟩ : ∃ a b rest, l.filter p = a :: b :: rest := by
      match hfilter : l.filter p with
      | [] | [_] => simp [hfilter] at h
      | a :: b :: rest => exact ⟨a, b, rest, rfl⟩
    obtain ⟨earlier, l', rfl, -, ha, hfilter'⟩ := List.filter_eq_cons_iff.1 hfilter
    obtain ⟨between, later, rfl, -, hb, -⟩ := List.filter_eq_cons_iff.1 hfilter'
    exact ⟨earlier, a, between, b, later, by simp, ha, hb⟩
  · rintro ⟨earlier, a, between, b, later, rfl, ha, hb⟩
    simp only [List.filter_append, List.filter_cons_of_pos ha, List.filter_cons_of_pos hb,
      List.length_append, List.length_cons]
    omega

section

variable {fs : FileSystem} {config : MergeConfig} {sets : List SourceSet}

/-- The file that a declared directory has for a place is where its path leads. -/
theorem resolve_providedAt {declared : MergeRoot × Path} {place : List Text} {file : Location}
    (h : provided? fs config place declared = some file) :
    fs.resolve (providedAt fs place declared) = .ok (.present file) := by
  obtain ⟨l, names, content, hresolve, rfl, hne, -, rfl, hget⟩ := provided?_eq_some.1 h
  exact FileSystem.resolve_join_ofNames hresolve hne hget

theorem Counts.decides {plan : MergePlan}
    (h : plan.Counts ((SourceSet.directories sets).map (offered fs config)).flatten)
    (hall : ∀ declared ∈ SourceSet.directories sets, fs.isDirectory (searchedFor fs declared) = true)
    (place : List Text) : plan.Decides fs config sets place := by
  have hfilter := filter_flatten_offered config hall place
  constructor
  · rw [h.contains, hfilter, List.length_map, List.length_filter_pos_iff]
    simp only [Option.isSome_iff_exists]
  · intro source
    rw [h.winners, hfilter, List.getLast?_map, Option.map_map, Option.map_eq_some_iff]
    simp only [filter_getLast?_eq_some, Option.isSome_iff_exists, Option.isSome_eq_false_iff,
      Option.isNone_iff_eq_none]
    constructor
    · rintro ⟨declared, ⟨earlier, later, hsplit, ⟨file, hfile⟩, hlater⟩, rfl⟩
      exact ⟨earlier, declared, later, hsplit, ⟨file, hfile, resolve_providedAt hfile⟩, rfl, hlater⟩
    · rintro ⟨earlier, declared, later, hsplit, ⟨file, hfile, -⟩, rfl, hlater⟩
      exact ⟨declared, ⟨earlier, later, hsplit, ⟨file, hfile⟩, hlater⟩, rfl⟩
  · rw [h.overridden, hfilter, List.length_map, one_lt_length_filter]
    simp only [Option.isSome_iff_exists]

theorem make_eq (fs : FileSystem) (config : MergeConfig) (sets : List SourceSet) :
    make fs config sets =
      match (SourceSet.directories sets).find? fun declared =>
        !fs.isDirectory (searchedFor fs declared) with
      | some declared => .error (.missingSourceDirectory (searchedFor fs declared))
      | none => .ok (((SourceSet.directories sets).map (offered fs config)).flatten.foldl accept {}) := by
  unfold make
  rw [mapM_offers]
  split <;> rfl

theorem decides_of_make {plan : MergePlan} (h : make fs config sets = .ok plan)
    (place : List Text) : plan.Decides fs config sets place := by
  rw [make_eq] at h
  split at h
  · cases h
  · next hfind =>
    cases h
    refine (counts_empty.foldl _).decides (fun declared hmem => ?_) place
    simpa using List.find?_eq_none.1 hfind declared hmem

/-- The first declared directory whose searched directory is not there is reported. A plan for
directories that are all there decides about every place. -/
theorem make_decides (fs : FileSystem) (config : MergeConfig) (sets : List SourceSet) :
    match (SourceSet.directories sets).find? fun declared =>
        !fs.isDirectory (searchedFor fs declared) with
    | some declared => make fs config sets = .error (.missingSourceDirectory (searchedFor fs declared))
    | none => ∃ plan, make fs config sets = .ok plan ∧ ∀ place, plan.Decides fs config sets place := by
  have hmake := make_eq fs config sets
  cases hfind : (SourceSet.directories sets).find? fun declared =>
      !fs.isDirectory (searchedFor fs declared) with
  | some declared =>
    rw [hfind] at hmake
    exact hmake
  | none =>
    rw [hfind] at hmake
    exact ⟨_, hmake, decides_of_make hmake⟩

end

end MergePlan

end AndroidResources
