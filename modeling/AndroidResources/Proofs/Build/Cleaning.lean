import AndroidResources.Proofs.Build.Staging

/-!
# Cleaning up

Several temporary directories are in use at once. When all of them are gone, what else has happened
is left.

* `Grows` : directories are added, but for what happens in some places;
* `Short` : names that are shorter than those of temporary directories;
* `TemporaryPlace.Reserved` : a place where nothing is but a temporary directory;
* `TemporaryPlace.Removable` : such a place, or one that is gone for good;
* `TemporaryPlace.get?_clean`, `TemporaryPlace.holds_clean` : what is left when they are removed;
* `TemporaryPlace.InUse` : what has happened while temporary directories were in use.
-/

namespace AndroidResources

open FileSystem

namespace FileSystem

variable {fs fs' fs'' : FileSystem} {away away' P P' : Location → Prop}

/-- Directories are added at some of the free places that satisfy `P`, and nothing else changes but
what is away. -/
structure Grows (away P : Location → Prop) (fs fs' : FileSystem) : Prop where
  origin : fs'.workingDirectory = fs.workingDirectory
  entries : ∀ k, ¬ away k → fs'.get? k = fs.get? k ∨
    P k ∧ fs.get? k = none ∧ fs'.get? k = some .directory

namespace Grows

theorem of_besides {l : Location} (h : Besides l fs fs') (hl : ∀ k, l <+: k → away k) :
    Grows away P fs fs' :=
  ⟨h.origin, fun k hk => .inl (h.entries k fun hp => hk (hl k hp))⟩

theorem of_adds (h : AddsDirectories P fs fs') : Grows away P fs fs' :=
  ⟨h.origin, fun k _ => h.entries k⟩

theorem trans (h : Grows away P fs fs') (h' : Grows away P fs' fs'') : Grows away P fs fs'' := by
  refine ⟨h'.origin.trans h.origin, fun k hk => ?_⟩
  obtain heq | ⟨hp, hnone, hdir⟩ := h'.entries k hk
  · rw [heq]
    exact h.entries k hk
  · obtain heq | ⟨-, -, hdir'⟩ := h.entries k hk
    · exact .inr ⟨hp, heq ▸ hnone, hdir⟩
    · rw [hdir'] at hnone
      cases hnone

theorem mono (h : Grows away P fs fs') (haway : ∀ k, away k → away' k) (hP : ∀ k, P k → P' k) :
    Grows away' P' fs fs' :=
  ⟨h.origin, fun k hk => (h.entries k fun hk' => hk (haway k hk')).imp_right
    fun ⟨hp, rest⟩ => ⟨hP k hp, rest⟩⟩

end Grows

/-! ## Short names -/

def Short (limit : Nat) (name : Text) : Prop :=
  name.length < limit

/-- What is spelled in names that are shorter than a fresh one leads to places that are so, too. -/
theorem closed_short (fs : FileSystem) (mentioned : List Path) :
    Closed (Short (fs.freshName mentioned).length) fs := by
  refine ⟨fun name hname => length_lt_freshName fs mentioned
    (List.mem_append_left _ (List.mem_append_left _ hname)), fun l target _ hget segment hsegment => ?_⟩
  have hne : l ≠ [] := by
    rintro rfl
    cases hget
  rw [get?_of_ne hne] at hget
  have hspelled : target.text ∈ fs.spellings := List.mem_append_right _
    (List.mem_flatMap.2 ⟨_, OrderedMap.mem_toList.2 hget, List.mem_cons_self ..⟩)
  exact (Path.length_le_of_mem_segments hsegment).trans_lt
    (length_lt_freshName fs mentioned (List.mem_append_left _ hspelled))

theorem short_of_mem_segments (fs : FileSystem) {mentioned : List Path} {p : Path}
    (h : p ∈ mentioned) {segment : Text} (hsegment : segment ∈ p.segments) :
    Short (fs.freshName mentioned).length segment :=
  (Path.length_le_of_mem_segments hsegment).trans_lt
    (length_lt_freshName fs mentioned (List.mem_append_right _ (List.mem_map_of_mem h)))

theorem short_stagingParent {p : Path} {limit : Nat} (hlimit : 1 < limit)
    (hp : ∀ segment ∈ p.segments, Short limit segment) :
    ∀ segment ∈ (stagingParent p).segments, Short limit segment := by
  intro segment hsegment
  obtain rfl | rfl | hmem := segments_stagingParent hsegment
  · exact Nat.zero_lt_of_lt hlimit
  · exact hlimit
  · exact hp segment hmem

theorem Temporary.of_closed {S T : Text → Prop} {parent : Path} {l : Location} {name : Text}
    (h : Temporary T fs parent l name) (hidden : ¬ S name) (hclosed : Closed S fs)
    (hparent : ∀ segment ∈ parent.segments, S segment) : Temporary S fs parent l name :=
  ⟨h.isName, hidden, hclosed, hparent, h.leads⟩

end FileSystem

/-! ## Places of temporary directories -/

structure TemporaryPlace where
  parent : Path
  location : Location
  name : Text

namespace TemporaryPlace

def path (place : TemporaryPlace) : Path :=
  place.parent.join ⟨place.name⟩

def directory (place : TemporaryPlace) : Location :=
  place.location ++ [place.name]

/-- The place is hidden from paths that are spelled in `S`, and nothing but a directory is there. -/
structure Reserved (S : Text → Prop) (fs : FileSystem) (place : TemporaryPlace) : Prop where
  temporary : Temporary S fs place.parent place.location place.name
  free : fs.get? place.directory = some .directory ∨ fs.get? place.directory = none

def clean (places : List TemporaryPlace) (fs : FileSystem) : FileSystem :=
  places.foldl (fun fs place => (fs.removeTree place.path).1) fs

variable {S : Text → Prop} {fs fs' : FileSystem} {place place' : TemporaryPlace}
  {places : List TemporaryPlace}

namespace Reserved

theorem apart (h : place.Reserved S fs) (h' : place'.Reserved S fs)
    (hne : place.name ≠ place'.name) : ¬ place.directory <+: place'.directory := by
  intro hp
  obtain hconcat | hbelow := List.prefix_concat_iff.1 hp
  · have hlast := congrArg List.getLast? hconcat
    unfold directory at hlast
    rw [List.getLast?_concat, List.getLast?_concat] at hlast
    exact hne (Option.some.inj hlast)
  · exact h.temporary.hidden (h'.temporary.location _ (hbelow.subset (by simp [directory])))

theorem apart_below (h : place.Reserved S fs) (h' : place'.Reserved S fs)
    (hne : place.name ≠ place'.name) (names : List Text) :
    ¬ place.directory <+: place'.directory ++ names := fun hp => by
  obtain hp | hp := List.prefix_or_prefix_of_prefix hp (List.prefix_append place'.directory names)
  · exact h.apart h' hne hp
  · exact h'.apart h hne.symm hp

theorem not_reached (h : place.Reserved S fs) {k : Location} (hk : ∀ name ∈ k, S name) :
    ¬ place.directory <+: k := fun hp =>
  h.temporary.hidden (hk _ (hp.subset (by simp [directory])))

theorem not_below (h : place.Reserved S fs) {k : Location} (hk : ∀ name ∈ k, S name)
    (hlocation : ¬ k <+: place.location) : ¬ k <+: place.directory := fun hp => by
  obtain heq | hp := List.prefix_concat_iff.1 hp
  · exact h.not_reached hk (heq ▸ List.prefix_refl _)
  · exact hlocation hp

theorem of_adds {P : Location → Prop} (h : place.Reserved S fs)
    (hadds : AddsDirectories P fs fs') : place.Reserved S fs' := by
  refine ⟨h.temporary.of_adds hadds, ?_⟩
  obtain heq | ⟨-, -, hdir⟩ := hadds.entries place.directory
  · rw [heq]
    exact h.free
  · exact .inl hdir

/-- A place stays reserved whatever its directory is used for. -/
theorem of_self (h : place.Reserved S fs) (hsame : Besides place.directory fs fs')
    (hdir : fs'.get? place.directory = some .directory) : place.Reserved S fs' :=
  ⟨h.temporary.of_besides hsame, .inl hdir⟩

theorem of_besides (h : place.Reserved S fs) (h' : place'.Reserved S fs)
    (hne : place'.name ≠ place.name) (hsame : Besides place'.directory fs fs') :
    place.Reserved S fs' := by
  refine ⟨h.temporary.of_apart hsame h'.temporary.not_spelled, ?_⟩
  rw [hsame.entries _ (h'.apart h hne)]
  exact h.free

theorem removeTree (h : place.Reserved S fs) :
    Besides place.directory fs (fs.removeTree place.path).1 ∧
      ∀ k, place.directory <+: k → (fs.removeTree place.path).1.get? k = none := by
  obtain hdir | hnone := h.free
  · exact h.temporary.removeTree hdir
  · have hsame : (fs.removeTree place.path).1 = fs :=
      h.temporary.leads.removeTree_child_of_none h.temporary.isName hnone
    rw [hsame]
    refine ⟨.refl _ _, ?_⟩
    rintro k ⟨rest, rfl⟩
    exact get?_append_of_none hnone rest

end Reserved

def Gone (place : TemporaryPlace) (fs : FileSystem) : Prop :=
  ∀ k e, fs.get? k = some e → place.name ∉ k

theorem Gone.get?_below (h : place.Gone fs) {k : Location} (hk : place.directory <+: k) :
    fs.get? k = none := by
  by_contra hsome
  obtain ⟨e, he⟩ := Option.ne_none_iff_exists'.1 hsome
  exact h k e he (hk.subset (by simp [directory]))

theorem Gone.removeTree (h : place.Gone fs) (hname : IsName place.name) :
    (fs.removeTree place.path).1 = fs := by
  have hentry := (endsInName_child place.parent hname).entrySegments_eq
  unfold FileSystem.removeTree path
  rw [← hentry]
  split
  · rfl
  · rfl
  · next l hl =>
    obtain ⟨dir, -, hlocation⟩ :=
      exists_leads_of_resolveEntry (namesEntry_child place.parent hname) hl
    rw [lastSegment_child place.parent hname] at hlocation
    obtain rfl : l = dir ++ [place.name] := hlocation
    obtain ⟨e, he⟩ := get?_of_present hl
    exact absurd (by simp) (h _ e he)

/-- The place is still reserved, or nothing has its name any more. -/
def Removable (S : Text → Prop) (fs : FileSystem) (place : TemporaryPlace) : Prop :=
  place.Reserved S fs ∨ IsName place.name ∧ ¬ S place.name ∧ place.Gone fs

namespace Removable

theorem removeTree (h : place.Removable S fs) :
    Besides place.directory fs (fs.removeTree place.path).1 ∧
      ∀ k, place.directory <+: k → (fs.removeTree place.path).1.get? k = none := by
  obtain hreserved | ⟨hname, -, hgone⟩ := h
  · exact hreserved.removeTree
  · rw [hgone.removeTree hname]
    exact ⟨.refl _ _, fun k => hgone.get?_below⟩

theorem of_removeTree (h : place.Removable S fs) (h' : place'.Removable S fs)
    (hne : place'.name ≠ place.name) : place.Removable S (fs.removeTree place'.path).1 := by
  obtain ⟨hsame, hnone⟩ := h'.removeTree
  obtain hreserved | ⟨hname, hidden, hgone⟩ := h
  · obtain hreserved' | ⟨hname', -, hgone'⟩ := h'
    · exact .inl (hreserved.of_besides hreserved' hne hsame)
    · rw [hgone'.removeTree hname']
      exact .inl hreserved
  · refine .inr ⟨hname, hidden, fun k e hget => ?_⟩
    by_cases hk : place'.directory <+: k
    · rw [hnone k hk] at hget
      cases hget
    · rw [hsame.entries k hk] at hget
      exact hgone k e hget

theorem not_reached (h : place.Removable S fs) {k : Location} (hk : ∀ name ∈ k, S name) :
    ¬ place.directory <+: k := by
  obtain hreserved | ⟨-, hidden, -⟩ := h
  · exact hreserved.not_reached hk
  · exact fun hp => hidden (hk _ (hp.subset (by simp [directory])))

end Removable

/-- Temporary directories are removed one after the other, and nothing else goes. -/
theorem get?_clean (h : ∀ place ∈ places, place.Removable S fs)
    (hdistinct : places.Pairwise fun a b => a.name ≠ b.name) :
    (clean places fs).workingDirectory = fs.workingDirectory ∧
      ∀ k, (clean places fs).get? k =
        if ∃ place ∈ places, place.directory <+: k then none else fs.get? k := by
  induction places generalizing fs with
  | nil => exact ⟨rfl, fun k => by simp [clean]⟩
  | cons place rest ih =>
    obtain ⟨hplace, hrest⟩ := List.pairwise_cons.1 hdistinct
    have hremovable := h place (List.mem_cons_self ..)
    obtain ⟨hsame, hgone⟩ := hremovable.removeTree
    obtain ⟨horigin, hget⟩ := ih (fun other hother =>
      (h other (List.mem_cons_of_mem _ hother)).of_removeTree hremovable (hplace other hother)) hrest
    refine ⟨horigin.trans hsame.origin, fun k => (hget k).trans ?_⟩
    by_cases hk : place.directory <+: k
    · simp [hk, hgone k hk]
    · simp [hk, hsame.entries k hk]

theorem keeps_clean (h : ∀ place ∈ places, place.Removable S fs)
    (hdistinct : places.Pairwise fun a b => a.name ≠ b.name) : Keeps S fs (clean places fs) := by
  obtain ⟨horigin, hget⟩ := get?_clean h hdistinct
  refine ⟨horigin, fun k e hk he => ?_⟩
  rw [hget, if_neg, he]
  rintro ⟨place, hplace, hp⟩
  exact (h place hplace).not_reached hk hp

/-- A tree stays where no temporary directory lies in it. -/
theorem holds_clean (h : ∀ place ∈ places, place.Removable S fs)
    (hdistinct : places.Pairwise fun a b => a.name ≠ b.name) {l : Location}
    {files : List Text → Option ByteArray} (hfiles : fs.Holds l files) (hl : ∀ name ∈ l, S name)
    (hbelow : ∀ place ∈ places, place.Gone fs ∨ ¬ l <+: place.directory) :
    (clean places fs).Holds l files := by
  refine hfiles.of_get?_eq fun names => ?_
  rw [(get?_clean h hdistinct).2]
  split
  · next hp =>
    obtain ⟨place, hplace, hp⟩ := hp
    obtain hgone | hbelow := hbelow place hplace
    · exact (hgone.get?_below hp).symm
    · obtain hp | hp := List.prefix_or_prefix_of_prefix hp (List.prefix_append l names)
      · exact absurd hp ((h place hplace).not_reached hl)
      · exact absurd hp hbelow
  · rfl

/-- What has happened while the temporary directories were in use: directories were added outside of
them. -/
structure InUse (limit : Nat) (places : List TemporaryPlace) (P : Location → Prop)
    (fs fs' : FileSystem) : Prop where
  reserved : ∀ place ∈ places, place.Reserved (Short limit) fs'
  distinct : places.Pairwise fun a b => a.name ≠ b.name
  vacant : ∀ place ∈ places, fs.get? place.directory = none
  grows : Grows (fun k => ∃ place ∈ places, place.directory <+: k) P fs fs'

namespace InUse

variable {limit : Nat} {P Q : Location → Prop} {fs'' : FileSystem}

theorem nil (limit : Nat) (P : Location → Prop) (fs : FileSystem) : InUse limit [] P fs fs :=
  ⟨by simp, .nil, by simp, .of_adds (.refl _ _)⟩

theorem removable (h : InUse limit places P fs fs') :
    ∀ place ∈ places, place.Removable (Short limit) fs' :=
  fun place hplace => .inl (h.reserved place hplace)

theorem clean (h : InUse limit places P fs fs') :
    AddsDirectories P fs (TemporaryPlace.clean places fs') := by
  obtain ⟨horigin, hget⟩ := get?_clean h.removable h.distinct
  refine ⟨horigin.trans h.grows.origin, fun k => ?_⟩
  rw [hget]
  split
  · next hk =>
    obtain ⟨place, hplace, rest, rfl⟩ := hk
    exact .inl (get?_append_of_none (h.vacant place hplace) rest).symm
  · next hk => exact h.grows.entries k hk

theorem mono (h : InUse limit places P fs fs') (hP : ∀ k, P k → Q k) :
    InUse limit places Q fs fs' :=
  ⟨h.reserved, h.distinct, h.vacant, h.grows.mono (fun _ => id) hP⟩

theorem adds (h : InUse limit places P fs fs') (hadds : AddsDirectories P fs' fs'') :
    InUse limit places P fs fs'' :=
  ⟨fun place hplace => (h.reserved place hplace).of_adds hadds, h.distinct, h.vacant,
    h.grows.trans (.of_adds hadds)⟩

theorem besides (h : InUse limit (place :: places) P fs fs')
    (hsame : Besides place.directory fs' fs'') (hdir : fs''.get? place.directory = some .directory) :
    InUse limit (place :: places) P fs fs'' := by
  have hself := h.reserved place (List.mem_cons_self ..)
  refine ⟨fun other hother => ?_, h.distinct, h.vacant,
    h.grows.trans (.of_besides hsame fun k hk => ⟨place, List.mem_cons_self .., hk⟩)⟩
  rcases List.mem_cons.1 hother with rfl | hother
  · exact hself.of_self hsame hdir
  · exact (h.reserved _ (List.mem_cons_of_mem _ hother)).of_besides hself
      ((List.pairwise_cons.1 h.distinct).1 other hother) hsame

/-- One more temporary directory is made, with a new name. -/
theorem cons (h : InUse limit places P fs fs') (hplace : place.Reserved (Short limit) fs'')
    (hsame : Besides place.directory fs' fs'') (hnone : fs'.get? place.directory = none)
    (hne : ∀ other ∈ places, place.name ≠ other.name) : InUse limit (place :: places) P fs fs'' := by
  have hbefore : place.Reserved (Short limit) fs' :=
    ⟨hplace.temporary.of_besides hsame.symm, .inr hnone⟩
  refine ⟨fun other hother => ?_, List.pairwise_cons.2 ⟨hne, h.distinct⟩, fun other hother => ?_,
    (h.grows.mono (fun k => Exists.imp fun other => And.imp_left (List.mem_cons_of_mem _))
      fun _ => id).trans (.of_besides hsame fun k hk => ⟨place, List.mem_cons_self .., hk⟩)⟩
  · rcases List.mem_cons.1 hother with rfl | hother
    · exact hplace
    · exact (h.reserved _ hother).of_besides hbefore (hne other hother) hsame
  · rcases List.mem_cons.1 hother with rfl | hother
    · -- what is not away and was there would be there still
      have haway : ¬ ∃ inner ∈ places, inner.directory <+: other.directory := by
        rintro ⟨inner, hinner, hp⟩
        exact (h.reserved _ hinner).apart hbefore (hne inner hinner).symm hp
      obtain heq | ⟨-, hfree, -⟩ := h.grows.entries _ haway
      · rw [← heq, hnone]
      · exact hfree
    · exact h.vacant _ hother

theorem get?_link (h : InUse limit places P fs fs') {k : Location} (hk : ∀ n ∈ k, Short limit n)
    {target : Path} (hget : fs'.get? k = some (.link target)) : fs.get? k = some (.link target) := by
  obtain heq | ⟨-, -, hdir⟩ := h.grows.entries k fun ⟨place, hplace, hp⟩ =>
    (h.reserved place hplace).not_reached hk hp
  · rw [← heq, hget]
  · rw [hget] at hdir
    cases hdir

end InUse

end TemporaryPlace

end AndroidResources
