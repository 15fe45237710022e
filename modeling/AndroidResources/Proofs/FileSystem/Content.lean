import AndroidResources.Proofs.FileSystem.Change

/-!
# What lies below a location

* `Besides l fs fs'` : two file systems that differ at most at a location and below it;
* `Spares l fs fs'` : nothing has come to a location;
* `Holds fs l files` : below a location are certain files, the directories they need and no more;
* `Holds.place`, `Holds.move` : one file more, and the whole tree somewhere else;
* `Holds.eq_of_besides` : with what is elsewhere the files settle the whole file system.
-/

namespace AndroidResources.FileSystem

variable {fs fs' fs'' : FileSystem} {p : Path} {l k : Location}

/-! ## Differences in one place -/

/-- The two file systems differ at most at the location and below it. -/
structure Besides (l : Location) (fs fs' : FileSystem) : Prop where
  origin : fs'.workingDirectory = fs.workingDirectory
  entries : ∀ k, ¬ l <+: k → fs'.get? k = fs.get? k

namespace Besides

theorem refl (l : Location) (fs : FileSystem) : Besides l fs fs :=
  ⟨rfl, fun _ _ => rfl⟩

theorem symm (h : Besides l fs fs') : Besides l fs' fs :=
  ⟨h.origin.symm, fun k hk => (h.entries k hk).symm⟩

theorem trans (h : Besides l fs fs') (h' : Besides l fs' fs'') : Besides l fs fs'' :=
  ⟨h'.origin.trans h.origin, fun k hk => (h'.entries k hk).trans (h.entries k hk)⟩

theorem of_adds {P : Location → Prop} (h : AddsDirectories P fs fs') (hP : ∀ k, P k → l <+: k) :
    Besides l fs fs' :=
  ⟨h.origin, fun _ hk => h.get?_of_not fun hp => hk (hP _ hp)⟩

theorem of_place (hplace : fs.CanPlace k) (e : Entry) (hkl : l <+: k) :
    Besides l fs (fs.place k e) := by
  refine ⟨workingDirectory_place fs k e, fun m hm => ?_⟩
  rw [get?_place hplace, if_neg]
  rintro rfl
  exact hm hkl

theorem clear (fs : FileSystem) (l : Location) : Besides l fs (fs.clear l) :=
  ⟨rfl, fun k hk => by rw [get?_clear, if_neg fun hp => hk hp.1]⟩

theorem removeAt (fs : FileSystem) (hl : l ≠ []) : Besides l fs (fs.removeAt l) :=
  ⟨rfl, fun k hk => by rw [get?_removeAt_iff fs hl, if_neg hk]⟩

theorem keeps {S : Text → Prop} (h : Besides l fs fs') (hl : ¬ ∀ name ∈ l, S name) :
    Keeps S fs fs' := by
  refine ⟨h.origin, fun k e hk hget => ?_⟩
  rw [h.entries k fun hp => hl fun name hname => hk name (hp.subset hname), hget]

theorem keeps_of_vacant (h : Besides l fs fs') (hnone : fs.get? l = none) :
    Keeps (fun _ => True) fs fs' := by
  refine ⟨h.origin, fun k e _ hget => ?_⟩
  rw [h.entries k ?_, hget]
  rintro ⟨rest, rfl⟩
  rw [get?_append_of_none hnone] at hget
  cases hget

theorem within {S : Text → Prop} (h : Besides l fs fs') (hl : ¬ ∀ name ∈ l, S name)
    (hw : Within S fs) : Within S fs' := by
  intro k target hk hget
  rw [h.entries k fun hp => hl fun name hname => hk name (hp.subset hname)] at hget
  exact hw k target hk hget

end Besides

/-- Where a tree is removed, nothing changes anywhere else, whether the removal succeeds or not. -/
theorem removeTree_elsewhere (fs : FileSystem) (p : Path) :
    (fs.removeTree p).1.workingDirectory = fs.workingDirectory ∧
      ∀ k, (∀ l, fs.resolveSegments .kept p p.segments = .ok (.present l) → ¬ l <+: k) →
        (fs.removeTree p).1.get? k = fs.get? k := by
  unfold removeTree
  split
  · exact ⟨rfl, fun _ _ => rfl⟩
  · exact ⟨rfl, fun _ _ => rfl⟩
  · next l hl =>
    have hclear := Besides.clear fs l
    split
    · next hdir =>
      simp only
      split
      · next after hafter =>
        -- what is removed in the end is the directory that has been emptied
        obtain ⟨m, hm, hne, hget, rfl⟩ := removeDirectory_eq_ok hafter
        have hkeeps := keeps_clear fs l
        have hm' : fs.resolve p = .ok (.present m) :=
          resolve_of_resolveEntry (present_of_keeps_all hkeeps hm)
            (hkeeps.entries m _ (fun _ _ => trivial) hget)
        obtain ⟨htext, horigin, hwalk⟩ := resolveSegments_eq_ok.1 hl
        have hl' : fs.resolve p = .ok (.present l) :=
          resolveSegments_eq_ok.2 ⟨htext, horigin, walk_followed_of_kept horigin hwalk hdir⟩
        obtain rfl : l = m := Place.present.inj (Except.ok.inj (hl'.symm.trans hm'))
        exact ⟨rfl, fun k hk => (hclear.trans (.removeAt _ hne)).entries k (hk l hl)⟩
      · exact ⟨rfl, fun k hk => hclear.entries k (hk l hl)⟩
      · exact ⟨rfl, fun k hk => hclear.entries k (hk l hl)⟩
    · next target hlink =>
      have hne : l ≠ [] := by
        rintro rfl
        cases hlink
      exact ⟨rfl, fun k hk => (Besides.removeAt fs hne).entries k (hk l hl)⟩
    · exact ⟨rfl, fun _ _ => rfl⟩

/-- Directories are made on both sides of a change that is taken back. -/
theorem AddsDirectories.removeAt {P : Location → Prop} {made staged above : FileSystem}
    (h : AddsDirectories P fs made) (hsame : Besides l made staged)
    (h' : AddsDirectories P staged above) (hl : l ≠ [])
    (hnone : ∀ k, l <+: k → made.get? k = none) : AddsDirectories P fs (above.removeAt l) := by
  refine ⟨h'.origin.trans (hsame.origin.trans h.origin), fun k => ?_⟩
  rw [get?_removeAt_iff _ hl]
  have hfree : made.get? k = none → fs.get? k = none := fun hmade => by
    obtain heq | ⟨-, hnone', -⟩ := h.entries k
    · rw [← heq, hmade]
    · exact hnone'
  by_cases hk : l <+: k
  · rw [if_pos hk]
    exact .inl (hfree (hnone k hk)).symm
  · rw [if_neg hk]
    obtain heq | ⟨hp, hstaged, hdir⟩ := h'.entries k
    · rw [heq, hsame.entries k hk]
      exact h.entries k
    · rw [hsame.entries k hk] at hstaged
      exact .inr ⟨hp, hfree hstaged, hdir⟩

theorem Direct.of_besides (h : fs.Direct p) (hsame : Besides l fs fs') (hl : ¬ l <+: fs.spelled p) :
    fs'.Direct p :=
  h.of_links hsame.origin fun k target hk hget => by
    rwa [hsame.entries k fun hp => hl (hp.trans hk)] at hget

theorem CanMove.not_prefix (h : fs.CanMove l k) : ¬ l <+: k ∧ ¬ k <+: l := by
  obtain ⟨-, -, -, -, hlk, hkl⟩ := h
  constructor
  · intro hp
    rw [List.isPrefixOf_iff_prefix.2 hp] at hlk
    cases hlk
  · intro hp
    rw [List.isPrefixOf_iff_prefix.2 hp] at hkl
    cases hkl

/-- Where a directory is moved to, nothing but an empty directory has been. -/
theorem keeps_move {S : Text → Prop} (hmove : fs.CanMove l k) (hl : ¬ ∀ name ∈ l, S name)
    (hdir : fs.get? l = some .directory) (hyields : fs.Yields .directory k) :
    Keeps S fs (fs.move l k) := by
  refine ⟨workingDirectory_move fs l k, fun m e hm hget => ?_⟩
  obtain ⟨hinside, -, houtside⟩ := get?_move_cases hmove m
  have hlm : ¬ l <+: m := fun hp => hl fun name hname => hm name (hp.subset hname)
  by_cases hkm : k <+: m
  · obtain ⟨rest, rfl, hrest⟩ := hinside hkm
    by_cases hnil : rest = []
    · subst hnil
      rw [List.append_nil] at hget hrest ⊢
      rw [hrest, List.append_nil, hdir, hyields.get?_self hget]
    · rw [hyields.get?_below hnil] at hget
      cases hget
  · rw [houtside hkm hlm, hget]

/-! ## Nothing new at a location -/

/-- At the location all is as it was, and on the way to it there are at most new directories. -/
structure Spares (l : Location) (fs fs' : FileSystem) : Prop where
  origin : fs'.workingDirectory = fs.workingDirectory
  entries : ∀ k, k <+: l → fs'.get? k = fs.get? k ∨ k ≠ l ∧ fs'.get? k = some .directory

namespace Spares

theorem refl (l : Location) (fs : FileSystem) : Spares l fs fs :=
  ⟨rfl, fun _ _ => .inl rfl⟩

theorem trans (h : Spares l fs fs') (h' : Spares l fs' fs'') : Spares l fs fs'' := by
  refine ⟨h'.origin.trans h.origin, fun k hk => ?_⟩
  obtain heq | hdir := h'.entries k hk
  · rw [heq]
    exact h.entries k hk
  · exact .inr hdir

theorem of_adds {P : Location → Prop} (h : AddsDirectories P fs fs') (hl : ¬ P l) :
    Spares l fs fs' := by
  refine ⟨h.origin, fun k _ => (h.entries k).imp_right ?_⟩
  rintro ⟨hk, -, hdir⟩
  refine ⟨?_, hdir⟩
  rintro rfl
  exact hl hk

theorem of_besides (h : Besides k fs fs') (hk : ¬ k <+: l) : Spares l fs fs' :=
  ⟨h.origin, fun _ hm => .inl (h.entries _ fun hp => hk (hp.trans hm))⟩

theorem not_pathExists (h : Spares (fs.spelled p) fs fs') (hdirect : fs.Direct p)
    (hnone : fs.get? (fs.spelled p) = none) : fs'.pathExists p = false := by
  rw [Bool.eq_false_iff]
  intro hexists
  have hdirect' : fs'.Direct p := by
    refine hdirect.of_links h.origin fun k target hk hget => ?_
    obtain heq | ⟨-, hdir⟩ := h.entries k hk
    · rwa [← heq]
    · rw [hdir] at hget
      cases hget
  obtain ⟨l, hl⟩ := pathExists_iff.1 hexists
  obtain ⟨k, hk⟩ := resolveKept_of_resolve hl
  obtain ⟨e, he⟩ := get?_of_present hk
  obtain rfl : k = fs'.spelled p := hdirect'.location (.inl rfl) hk
  rw [spelled_congr h.origin] at he
  obtain heq | ⟨hne, -⟩ := h.entries _ (List.prefix_refl _)
  · rw [heq, hnone] at he
    cases he
  · exact hne rfl

end Spares

/-! ## Files below a location -/

/-- Below the location are the given files, the directories in which they lie, and nothing else. -/
structure Holds (fs : FileSystem) (l : Location) (files : List Text → Option ByteArray) : Prop where
  file : ∀ names bytes, fs.get? (l ++ names) = some (.file bytes) ↔ files names = some bytes
  directory : ∀ names, fs.get? (l ++ names) = some .directory ↔
    names = [] ∨ ∃ name more, files (names ++ name :: more) ≠ none
  noLink : ∀ names target, fs.get? (l ++ names) ≠ some (.link target)

namespace Holds

variable {files : List Text → Option ByteArray} {names : List Text}

theorem directory_self (h : fs.Holds l files) : fs.get? l = some .directory := by
  have := (h.directory []).2 (.inl rfl)
  rwa [List.append_nil] at this

theorem noLinks (h : fs.Holds l files) (names : List Text) : fs.NoLinks l names :=
  fun front _ _ _ target => h.noLink front target

/-- What is in the tree has the names of a file, or some of its first names. -/
theorem not_mem (h : fs.Holds l files) {name : Text}
    (hname : ∀ names bytes, files names = some bytes → name ∉ names) {e : Entry}
    (hget : fs.get? (l ++ names) = some e) : name ∉ names := by
  cases e with
  | file bytes => exact hname names bytes ((h.file names bytes).1 hget)
  | directory =>
    obtain rfl | ⟨first, more, hsome⟩ := (h.directory names).1 hget
    · exact List.not_mem_nil
    · obtain ⟨bytes, hbytes⟩ := Option.ne_none_iff_exists'.1 hsome
      exact fun hmem => hname _ bytes hbytes (List.mem_append_left _ hmem)
  | link target => exact absurd hget (h.noLink names target)

theorem of_place (hplace : fs.CanPlace l) (hnone : fs.get? l = none) :
    (fs.place l .directory).Holds l fun _ => none := by
  have hget : ∀ names, (fs.place l .directory).get? (l ++ names) =
      if names = [] then some .directory else none := by
    intro names
    rw [get?_place hplace]
    by_cases hnames : names = []
    · simp [hnames]
    · rw [if_neg (by simp [hnames]), if_neg hnames]
      exact get?_append_of_none hnone names
  refine ⟨fun names bytes => ?_, fun names => ?_, fun names target => ?_⟩
  · rw [hget]
    split <;> simp
  · rw [hget]
    split <;> simp_all
  · rw [hget]
    split <;> simp

/-- Where a file is about to be placed, the directories besides are those above one of the files. -/
theorem directory_iff_update {mid : FileSystem} (bytes : ByteArray) (h : fs.Holds l files)
    (hne : names ≠ []) (hadds : AddsDirectories (OnTheWay l names.dropLast) fs mid)
    (hparent : mid.get? (l ++ names).dropLast = some .directory) {m : List Text} (hm : m ≠ names) :
    mid.get? (l ++ m) = some .directory ↔
      m = [] ∨ ∃ name more, Function.update files names (some bytes) (m ++ name :: more) ≠ none := by
  constructor
  · intro hget
    -- a directory was there before, or is one of those on the way
    obtain heq | ⟨⟨front, -, hfront, hfront'⟩, -⟩ := hadds.entries (l ++ m)
    · rw [heq] at hget
      refine ((h.directory m).1 hget).imp_right ?_
      rintro ⟨name, more, hsome⟩
      refine ⟨name, more, ?_⟩
      rw [Function.update_apply]
      split <;> simp [hsome]
    · obtain rfl := List.append_cancel_left hfront'
      obtain ⟨rest, hrest⟩ := hfront
      refine .inr ⟨(rest ++ [names.getLast hne]).head (by simp),
        (rest ++ [names.getLast hne]).tail, ?_⟩
      rw [List.cons_head_tail, ← List.append_assoc, hrest, List.dropLast_concat_getLast,
        Function.update_self]
      simp
  · rintro (rfl | ⟨name, more, hsome⟩)
    · exact hadds.get?_of_some ((h.directory []).2 (.inl rfl))
    · rw [Function.update_apply] at hsome
      split at hsome
      · next heq =>
        have habove : l ++ m <+: l ++ names := by
          rw [← heq, ← List.append_assoc]
          exact List.prefix_append ..
        exact get?_above hparent habove fun heq' => hm (List.append_cancel_left heq')
      · exact hadds.get?_of_some ((h.directory m).2 (.inr ⟨name, more, hsome⟩))

/-- One file more, or another content of one that is there, with new directories on its way. -/
theorem place {mid : FileSystem} {bytes : ByteArray} (h : fs.Holds l files) (hne : names ≠ [])
    (hadds : AddsDirectories (OnTheWay l names.dropLast) fs mid)
    (hplace : mid.CanPlace (l ++ names)) :
    (mid.place (l ++ names) (.file bytes)).Holds l (Function.update files names (some bytes)) := by
  have hself : ∀ m, l ++ m = l ++ names ↔ m = names := fun m => List.append_right_inj l
  have hbelow : ∀ name more, files (names ++ name :: more) = none := by
    intro name more
    by_contra hsome
    have hdir := (h.directory names).2 (.inr ⟨name, more, hsome⟩)
    exact hplace.2.2.2 (hadds.get?_of_some hdir)
  refine ⟨fun m b => ?_, fun m => ?_, fun m target => ?_⟩
  · rw [get?_place hplace]
    by_cases hm : m = names
    · rw [if_pos ((hself m).2 hm), hm, Function.update_self]
      simp
    · rw [if_neg (hm ∘ (hself m).1), Function.update_of_ne hm, ← h.file m b]
      exact ⟨fun hget => hadds.get?_of_ne_directory hget (by simp), hadds.get?_of_some⟩
  · rw [get?_place hplace]
    by_cases hm : m = names
    · rw [if_pos ((hself m).2 hm), hm]
      simp [hne, Function.update_of_ne, hbelow]
    · rw [if_neg (hm ∘ (hself m).1)]
      exact h.directory_iff_update bytes hne hadds hplace.2.2.1 hm
  · rw [get?_place hplace]
    split
    · simp
    · exact fun hget => h.noLink m target (hadds.get?_of_ne_directory hget (by simp))

theorem of_get?_eq {l' : Location} (h : fs.Holds l files)
    (heq : ∀ names, fs'.get? (l' ++ names) = fs.get? (l ++ names)) : fs'.Holds l' files :=
  ⟨fun names bytes => by rw [heq, h.file], fun names => by rw [heq, h.directory],
    fun names target => by rw [heq]; exact h.noLink names target⟩

theorem move (h : fs.Holds l files) (hmove : fs.CanMove l k) : (fs.move l k).Holds k files := by
  refine h.of_get?_eq fun names => ?_
  obtain ⟨rest, heq, hrest⟩ := (get?_move_cases hmove (k ++ names)).1 (List.prefix_append ..)
  rw [hrest, List.append_cancel_left heq]

/-- A file system is settled by what is elsewhere and by the files below the location. -/
theorem eq_of_besides {left right : FileSystem} (hleft : left.Holds l files)
    (hright : right.Holds l files) (hsame : Besides l fs left) (hsame' : Besides l fs right) :
    left = right := by
  have hget : ∀ k, left.get? k = right.get? k := by
    intro k
    by_cases hk : l <+: k
    · obtain ⟨names, rfl⟩ := hk
      apply Option.ext
      intro e
      cases e with
      | file bytes => rw [hleft.file, hright.file]
      | directory => rw [hleft.directory, hright.directory]
      | link target => exact iff_of_false (hleft.noLink names target) (hright.noLink names target)
    · rw [hsame.entries k hk, hsame'.entries k hk]
  have hentries : left.entries = right.entries := by
    apply OrderedMap.ext_get?
    intro k
    by_cases hk : k = []
    · -- the root has no entry of its own
      have hroot : ∀ fs : FileSystem, fs.entries.get? [] = none := fun fs => by
        cases h : fs.entries.get? [] with
        | none => rfl
        | some e => exact absurd rfl (fs.wellPlaced [] e h).1
      rw [hk, hroot, hroot]
    · rw [← get?_of_ne hk, ← get?_of_ne hk, hget]
  have horigin : left.workingDirectory = right.workingDirectory :=
    hsame.origin.trans hsame'.origin.symm
  cases left
  cases right
  cases hentries
  cases horigin
  rfl

theorem keeps_of_empty (h : fs.Holds l fun _ => none) (hsame : Besides l fs fs')
    (hdir : fs'.get? l = some .directory) : Keeps (fun _ => True) fs fs' := by
  refine ⟨hsame.origin, fun k e _ hget => ?_⟩
  by_cases hk : l <+: k
  · obtain ⟨names, rfl⟩ := hk
    cases e with
    | file bytes => cases (h.file names bytes).1 hget
    | directory =>
      obtain rfl : names = [] := by simpa using (h.directory names).1 hget
      rwa [List.append_nil]
    | link target => exact absurd hget (h.noLink names target)
  · rw [hsame.entries k hk, hget]

end Holds

end AndroidResources.FileSystem
