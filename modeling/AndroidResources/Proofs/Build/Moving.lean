import AndroidResources.Proofs.Build.StagedTree

/-!
# Temporary directories that are put in place

A tree is put in place by moving its temporary directory. The name of the directory goes with that
move, and nothing else can have it: it is longer than all names that were there.

* `TemporaryPlace.Sole` : only the directory has its name;
* `StagedAt.sole`, `StagedAt.sole_other` : this is so while trees are staged;
* `Moved.get?_of_mem` : what has a name after a move had it before;
* `Sole.gone`, `Sole.moved` : nothing has the name of what has been moved, and other places stay;
* `StagedTree.commit_cases` : a tree is put in place, or a file is there;
* `PutAt`, `StagedTree.commit_eq_ok` : where it has been put, whatever path led there.
-/

namespace AndroidResources

open FileSystem

variable {fs fs' : FileSystem} {place : TemporaryPlace} {source destination : Location}

/-- What there is with the name of the place is in its directory, and the name does not come again. -/
def TemporaryPlace.Sole (place : TemporaryPlace) (fs : FileSystem) : Prop :=
  ∀ k e, fs.get? k = some e → place.name ∈ k →
    ∃ names, k = place.directory ++ names ∧ place.name ∉ names

namespace TemporaryPlace.Sole

theorem of_adds {P : Location → Prop} (h : place.Sole fs) (hadds : AddsDirectories P fs fs')
    (hP : ∀ k, P k → place.name ∉ k) : place.Sole fs' := by
  intro k e hget hk
  obtain heq | ⟨hp, -⟩ := hadds.entries k
  · rw [heq] at hget
    exact h k e hget hk
  · exact absurd hk (hP k hp)

theorem of_besides {l : Location} (h : place.Sole fs) (hsame : Besides l fs fs')
    (hl : place.name ∉ l)
    (hinside : ∀ names e, fs'.get? (l ++ names) = some e → place.name ∉ names) : place.Sole fs' := by
  intro k e hget hk
  by_cases hp : l <+: k
  · obtain ⟨names, rfl⟩ := hp
    obtain hmem | hmem := List.mem_append.1 hk
    · exact absurd hmem hl
    · exact absurd hmem (hinside names e hget)
  · rw [hsame.entries k hp] at hget
    exact h k e hget hk

theorem not_mem_self (h : place.Sole fs) (names : List Text) (e : Entry)
    (hget : fs.get? (place.directory ++ names) = some e) : place.name ∉ names := by
  intro hmem
  obtain ⟨rest, heq, hrest⟩ := h _ e hget (List.mem_append_right _ hmem)
  rw [List.append_cancel_left heq] at hmem
  exact hrest hmem

theorem not_mem_apart (h : place.Sole fs) (hapart : ∀ names, ¬ place.directory <+: source ++ names)
    (names : List Text) (e : Entry) (hget : fs.get? (source ++ names) = some e) :
    place.name ∉ names := by
  intro hmem
  obtain ⟨rest, heq, -⟩ := h _ e hget (List.mem_append_right _ hmem)
  exact hapart names (heq ▸ List.prefix_append ..)

end TemporaryPlace.Sole

/-! ## Staged trees -/

namespace StagedAt

variable {limit : Nat} {tree files : List Text → Option ByteArray} {target : Path}
  {made staged : FileSystem}

theorem not_mem {P : Location → Prop} {l : Location} (h : StagedAt limit tree target made staged place)
    (hadds : AddsDirectories P fs made) (hfiles : fs.Holds l files) (names : List Text)
    (bytes : ByteArray) (hbytes : files names = some bytes) : place.name ∉ names := by
  intro hmem
  have hget := hadds.get?_of_some ((hfiles.file names bytes).2 hbytes)
  exact Nat.lt_irrefl _ (h.unused _ _ hget place.name (List.mem_append_right _ hmem))

theorem sole (h : StagedAt limit tree target made staged place)
    (htree : ∀ names bytes, tree names = some bytes → place.name ∉ names) : place.Sole staged := by
  intro k e hget hk
  by_cases hp : place.directory <+: k
  · obtain ⟨names, rfl⟩ := hp
    exact ⟨names, rfl, h.holds.not_mem htree hget⟩
  · rw [h.besides.entries k hp] at hget
    exact absurd (h.unused k e hget place.name hk) (Nat.lt_irrefl _)

theorem sole_other {other : TemporaryPlace} (h : StagedAt limit tree target made staged place)
    (hlimit : 1 < limit) (hcreate : fs.createDirectories (stagingParent target) = (made, none))
    (htarget : ∀ segment ∈ target.segments, Short limit segment)
    (hother : other.Reserved (Short limit) fs) (hdir : fs.get? other.directory = some .directory)
    (hsole : other.Sole fs) (htree : ∀ names bytes, tree names = some bytes → other.name ∉ names) :
    other.Sole staged := by
  have hadds := createDirectories_closed hother.temporary.closed (Nat.zero_lt_of_lt hlimit)
    (short_stagingParent hlimit htarget)
  rw [hcreate] at hadds
  have hmade := hsole.of_adds hadds fun k hk hmem => hother.temporary.hidden (hk _ hmem)
  refine hmade.of_besides h.besides (fun hmem => ?_) fun names e => h.holds.not_mem htree
  obtain hmem | hmem := List.mem_append.1 hmem
  · exact hother.temporary.hidden (h.reserved.temporary.location _ hmem)
  · exact h.name_ne (hadds.get?_of_some hdir) (List.mem_singleton.1 hmem).symm

end StagedAt

/-! ## Moves -/

/-- What has a name after a move, where neither the destination nor the tree that is moved has it in
theirs, had it before. -/
theorem FileSystem.Moved.get?_of_mem (h : Moved source destination fs fs') {name : Text}
    (hdestination : name ∉ destination)
    (hsource : ∀ names e, fs.get? (source ++ names) = some e → name ∉ names)
    {k : Location} {e : Entry} (hget : fs'.get? k = some e) (hk : name ∈ k) :
    ¬ destination <+: k ∧ ¬ source <+: k ∧ fs.get? k = some e := by
  have hinside : ¬ destination <+: k := by
    rintro ⟨names, rfl⟩
    rw [h.inside] at hget
    exact (List.mem_append.1 hk).elim hdestination (hsource names e hget)
  have hleft : ¬ source <+: k := by
    intro hp
    rw [h.gone k hinside hp] at hget
    cases hget
  rw [h.outside k hinside hleft] at hget
  exact ⟨hinside, hleft, hget⟩

namespace TemporaryPlace

theorem Sole.moved (h : place.Sole fs) (hmoved : Moved source destination fs fs')
    (hdestination : place.name ∉ destination)
    (hapart : ∀ names, ¬ place.directory <+: source ++ names) : place.Sole fs' := by
  intro k e hget hk
  obtain ⟨-, -, hbefore⟩ := hmoved.get?_of_mem hdestination (h.not_mem_apart hapart) hget hk
  exact h k e hbefore hk

theorem Sole.gone (h : place.Sole fs) (hmoved : Moved place.directory destination fs fs')
    (hdestination : place.name ∉ destination) : place.Gone fs' := by
  intro k e hget hk
  obtain ⟨-, hleft, hbefore⟩ := hmoved.get?_of_mem hdestination h.not_mem_self hget hk
  obtain ⟨names, rfl, -⟩ := h k e hbefore hk
  exact hleft (List.prefix_append ..)

theorem Gone.moved (h : place.Gone fs) (hmoved : Moved source destination fs fs')
    (hdestination : place.name ∉ destination) : place.Gone fs' := by
  intro k e hget hk
  have hsource : ∀ names e, fs.get? (source ++ names) = some e → place.name ∉ names :=
    fun names e he hmem => h _ e he (List.mem_append_right _ hmem)
  exact h k e (hmoved.get?_of_mem hdestination hsource hget hk).2.2 hk

end TemporaryPlace

/-- No path leads elsewhere when a tree without links is moved. -/
theorem FileSystem.Closed.of_moved {S : Text → Prop} {files : List Text → Option ByteArray}
    (h : Closed S fs) (hmoved : Moved source destination fs fs')
    (hsource : ¬ ∀ name ∈ source, S name) (hfiles : fs.Holds source files) : Closed S fs' := by
  refine ⟨hmoved.origin ▸ h.workingDirectory, fun l target hl hget => ?_⟩
  apply h.within l target hl
  by_cases hp : destination <+: l
  · obtain ⟨names, rfl⟩ := hp
    rw [hmoved.inside] at hget
    exact absurd hget (hfiles.noLink names target)
  · rwa [hmoved.outside l hp fun hp' => hsource fun name hname => hl name (hp'.subset hname)] at hget

/-! ## Commits -/

section

variable {s s' : BuildState} {p : Path}

theorem StagedTree.perform_commit (tree : StagedTree) (s : BuildState) :
    tree.commit.perform s =
      (((commitTree tree.directory tree.destination).perform s).1.map fun _ => tree.files,
        ((commitTree tree.directory tree.destination).perform s).2) :=
  Action.perform_replace _ _ _

/-- A copy next to its destination takes the place of what is there, unless that is a file. Then
nothing changes. -/
theorem StagedTree.commit_cases {limit : Nat}
    (hown : s.files.OwnName p) (hshort : ∀ n ∈ s.files.spelled p, Short limit n)
    (hplace : place.Reserved (Short limit) s.files) (hparent : place.parent = stagingParent p)
    (hlocation : place.location = (s.files.spelled p).dropLast)
    (hdir : s.files.get? place.directory = some .directory) (files : Nat) :
    (∃ e bytes, (StagedTree.commit ⟨place.path, p, files⟩).perform s = (.error e, s) ∧
        s.files.get? (s.files.spelled p) = some (.file bytes)) ∨
      ∃ after, (StagedTree.commit ⟨place.path, p, files⟩).perform s =
          (.ok files, { s with files := after }) ∧
        Moved place.directory (s.files.spelled p) s.files after ∧
        ∀ bytes, s.files.get? (s.files.spelled p) ≠ some (.file bytes) := by
  have hdirectory : place.directory = (s.files.spelled p).dropLast ++ [place.name] := by
    rw [TemporaryPlace.directory, hlocation]
  have hne : (s.files.spelled p).dropLast ++ [place.name] ≠ s.files.spelled p := fun heq =>
    hplace.not_reached hshort (by rw [hdirectory, heq])
  rw [hdirectory] at hdir ⊢
  simp only [StagedTree.perform_commit, TemporaryPlace.path, hparent]
  obtain ⟨e, bytes, hfail, hfile⟩ | ⟨after, hcommit, hmoved, hfree⟩ :=
    commitTree_cases hown hplace.temporary.isName hne hdir
  · exact .inl ⟨e, bytes, by rw [hfail]; rfl, hfile⟩
  · exact .inr ⟨after, by rw [hcommit]; rfl, hmoved, hfree⟩

/-- The tree of a temporary directory has been put where the path leads, next to where the directory
was. -/
structure PutAt (S : Text → Prop) (place : TemporaryPlace) (p : Path) (k : Location)
    (fs fs' : FileSystem) : Prop where
  leads : fs.Leads place.parent place.location []
  directory : fs.get? place.directory = some .directory
  moved : Moved place.directory k fs fs'
  beside : ∃ last, k = place.location ++ [last]
  spelled : ∀ n ∈ k, S n
  resolve : fs'.resolve p = .ok (.present k)
  named : fs.OwnName p → k = fs.spelled p

/-- Whatever path the destination is: a commit that succeeds has put the tree there. -/
theorem StagedTree.commit_eq_ok {S : Text → Prop} {files count : Nat} (hname : IsName place.name)
    (hidden : ¬ S place.name) (hclosed : Closed S s.files) (hp : ∀ segment ∈ p.segments, S segment)
    (hparent : place.parent = stagingParent p) (hsole : place.Sole s.files)
    (hdir : ∀ e, s.files.get? place.directory = some e → e = .directory)
    (h : (StagedTree.commit ⟨place.path, p, files⟩).perform s = (.ok count, s')) :
    ∃ k, PutAt S place p k s.files s'.files := by
  have hplace : ∀ dir e, s.files.get? (dir ++ [place.name]) = some e →
      dir ++ [place.name] = place.directory := by
    intro dir e hget
    obtain ⟨names, heq, hnames⟩ := hsole _ e hget (by simp)
    have hnil : names = [] := by
      by_contra hne
      have hlast := congrArg List.getLast? heq
      rw [List.getLast?_concat, List.getLast?_append_of_ne_nil _ hne] at hlast
      exact hnames (List.mem_of_getLast? hlast.symm)
    rw [heq, hnil, List.append_nil]
  obtain ⟨u, t, hcommit, hpure⟩ := Action.bind_eq_ok.1 h
  cases hpure
  rw [TemporaryPlace.path, hparent] at hcommit
  obtain ⟨dir, last, hleads, hget, hin, hmoved, hresolve⟩ := commitTree_eq_ok hname hidden hclosed hp
    (fun dir e hget => hdir e (hplace dir e hget ▸ hget)) hcommit
  obtain rfl : dir = place.location := (List.append_inj' (hplace dir _ hget) rfl).1
  refine ⟨_, ?_, hget, hmoved, ⟨last, rfl⟩, hin, hresolve, fun hown => hown.eq_spelled hleads⟩
  rw [hparent]
  exact hleads.stagingParent

end

end AndroidResources
