import AndroidResources.Proofs.Build.Moving
import Mathlib.Data.Set.Card

/-!
# Publishing a tree

A tree is copied next to its destination and then takes the place of what is there. Until then the
destination is as it was, and a publication that fails has made directories above the destination at
most.

* `copyFound_cases` : what is found at a source is copied, or nothing changes outside of the copy;
* `Ready`, `withStaged_direct` : the state in which a copy is ready;
* `Published`, `Unpublished` : what a publication leaves that succeeds or fails;
* `Ready.commit` : the copy is put in place, or the temporary directory is removed;
* `publish_replaces` : a tree replaces what is at its destination, or everything stays;
* `publish_dot_loses` : but not where the path of the destination ends in a dot.
-/

namespace AndroidResources

open FileSystem

variable {s s' : BuildState} {source destination : Path} {place : TemporaryPlace}
  {made staged : FileSystem} {tree : List Text → Option ByteArray} {limit : Nat}

/-! ## What is copied -/

theorem copyInto_directory {S : Text → Prop} {parent : Path} {l : Location} {name : Text}
    (htemp : Temporary S s.files parent l name) (source : Path) :
    ∃ e t, (copyInto source ((parent.join ⟨name⟩).join ⟨[]⟩)).perform s = (.error e, t) ∧
      Besides (l ++ [name]) s.files t.files ∧
      ∀ k entry, s.files.get? k = some entry → t.files.get? k = some entry := by
  have hslash : ((parent.join ⟨name⟩).join ⟨[]⟩).endsInSlash = true :=
    Path.endsInSlash_join_empty (htemp.leads.child htemp.isName).1
  have hleads : s.files.Leads ((parent.join ⟨name⟩).join ⟨[]⟩) l ([] ++ [name]) :=
    (htemp.leads.child htemp.isName).join rfl (by decide)
  obtain ⟨files, hparent, hadds, -⟩ := createParent_succeeds hleads
    (fun front rest heq hne => absurd (List.append_eq_nil_iff.1 heq.symm).1 hne)
    (not_fileOnTheWay (by rw [List.append_nil]; exact htemp.leads.2.2.1))
  have hsame : Besides (l ++ [name]) s.files files := .of_adds hadds fun k hk => by
    obtain ⟨front, hne, hfront, -⟩ := hk
    exact absurd (List.prefix_nil.1 hfront) hne
  unfold copyInto
  rw [Action.perform_bind, hparent]
  simp only
  rw [Action.perform_change]
  split
  · next after hcopy =>
    obtain ⟨-, -, target, -, htarget, -⟩ := copyFile_eq_ok hcopy
    exact absurd htarget (fileLocation_of_endsInSlash hslash target)
  · next fault hcopy => exact ⟨_, _, rfl, hsame, fun k entry => hadds.get?_of_some⟩

/-- What is found at the source is copied into a new directory. Only a source that is a file itself
cannot be copied. -/
theorem copyFound_cases
    (h : StagedAt place.name.length (fun _ => none) destination made s.files place)
    (hsource : ∀ segment ∈ source.segments, Short place.name.length segment) :
    (∃ e t, (copyFiles (s.files.findFiles .keepAll source) place.path).perform s = (.error e, t) ∧
      Besides place.directory s.files t.files ∧
      t.files.get? place.directory = some .directory ∧
      ∀ k, s.files.resolve source = .ok (.present k) → s.files.get? k ≠ some .directory) ∨
    ∃ t tree, (copyFiles (s.files.findFiles .keepAll source) place.path).perform s = (.ok (), t) ∧
      StagedAt place.name.length tree destination made t.files place ∧
      (∀ names bytes, tree names = some bytes → place.name ∉ names) ∧
      ∀ k, s.files.resolve source = .ok (.present k) → s.files.get? k = some .directory →
        tree = s.files.filesBelow k := by
  have htemp := h.reserved.temporary
  by_cases hpresent : ∃ k, s.files.resolve source = .ok (.present k) ∧
      s.files.get? k = some .directory
  · obtain ⟨k, hresolve, hdir⟩ := hpresent
    -- no file has the name of the new directory
    have hnames : ∀ names bytes, s.files.filesBelow k names = some bytes →
        ∀ n ∈ names, Short place.name.length n := by
      intro names bytes hbytes n hn
      have hget := filesBelow_eq_some.1 hbytes
      have hoff : ¬ place.directory <+: k ++ names := by
        rintro ⟨more, heq⟩
        rw [← heq, h.holds.file] at hget
        cases hget
      rw [h.besides.entries _ hoff] at hget
      exact h.unused _ _ hget n (List.mem_append_right _ hn)
    obtain ⟨t, hcopy, hsame, hcopied⟩ :=
      copyTree_succeeds hresolve hdir hsource hnames htemp h.holds
    refine .inr ⟨t, s.files.filesBelow k, hcopy, ⟨h.parent, h.unused,
      h.reserved.of_self hsame hcopied.directory_self, h.besides.trans hsame, hcopied⟩,
      fun names bytes hbytes hmem => Nat.lt_irrefl _ (hnames names bytes hbytes _ hmem),
      fun k' hresolve' _ => ?_⟩
    rw [hresolve] at hresolve'
    cases hresolve'
    rfl
  · have hnot : ∀ k, s.files.resolve source = .ok (.present k) →
        s.files.get? k ≠ some .directory := fun k hresolve hdir => hpresent ⟨k, hresolve, hdir⟩
    obtain hnone | hself := findFiles_cases .keepAll hnot
    · rw [hnone]
      exact .inr ⟨s, _, rfl, h, by simp, fun k hresolve hdir => absurd hdir (hnot k hresolve)⟩
    · obtain ⟨e, t, hfail, hsame, hkept⟩ := copyInto_directory htemp source
      refine .inl ⟨e, t, ?_, hsame, hkept _ _ h.holds.directory_self, hnot⟩
      have hsingle : copyFiles [⟨source, []⟩] place.path =
          (copyInto source ((place.parent.join ⟨place.name⟩).join ⟨[]⟩) >>= fun _ => pure ()) := rfl
      rw [hself, hsingle, Action.perform_replace, hfail]
      rfl

/-! ## Next to a destination with a last name -/

theorem length_findFiles {fs : FileSystem} {l : Location}
    (hresolve : fs.resolve source = .ok (.present l)) (hdir : fs.get? l = some .directory) :
    (fs.findFiles .keepAll source).length = {names | fs.filesBelow l names ≠ none}.ncard := by
  have hnodup := nodup_findFiles .keepAll hresolve hdir
  have hset : {names | fs.filesBelow l names ≠ none} =
      (((fs.findFiles .keepAll source).map (·.names)).toFinset : Set (List Text)) := by
    ext names
    simp only [Set.mem_ofPred_eq, List.coe_toFinset, List.mem_map]
    constructor
    · intro hsome
      obtain ⟨bytes, hbytes⟩ := Option.ne_none_iff_exists'.1 hsome
      exact ⟨⟨source.join (.ofNames names), names⟩,
        (mem_findFiles_keepAll hresolve hdir).2 ⟨rfl, bytes, hbytes⟩, rfl⟩
    · rintro ⟨file, hfile, rfl⟩
      obtain ⟨-, bytes, hbytes⟩ := (mem_findFiles_keepAll hresolve hdir).1 hfile
      simp [hbytes]
  rw [hset, Set.ncard_coe_finset, List.toFinset_card_of_nodup hnodup, List.length_map]

theorem StagedAt.filesBelow_eq {P : Location → Prop} {fs : FileSystem}
    (h : StagedAt limit (fun _ => none) destination made staged place)
    (hadds : AddsDirectories P fs made) (l : Location) :
    staged.filesBelow l = fs.filesBelow l := by
  rw [← filesBelow_of_adds hadds]
  funext names
  by_cases hin : place.directory <+: l ++ names
  · obtain ⟨more, heq⟩ := hin
    unfold filesBelow
    rw [← heq, get?_append_of_none h.vacant]
    split
    · next bytes hget => cases (h.holds.file more bytes).1 hget
    · rfl
  · exact filesBelow_congr (h.besides.entries _ hin)

theorem StagedAt.resolve_source {P : Location → Prop} {fs : FileSystem} {l : Location}
    (h : StagedAt place.name.length tree destination made staged place)
    (hadds : AddsDirectories P fs made)
    (hsource : ∀ segment ∈ source.segments, Short place.name.length segment)
    (hresolve : fs.resolve source = .ok (.present l)) (hdir : fs.get? l = some .directory) :
    staged.resolve source = .ok (.present l) ∧ staged.get? l = some .directory := by
  have hapart := h.reserved.temporary.not_spelled
  have hclosed := h.reserved.temporary.closed.of_besides h.besides.symm hapart
  have hmade := resolve_of_keeps_all (hadds.keeps _) hresolve
  refine ⟨hclosed.resolve (h.besides.keeps hapart) hsource hmade (.inl rfl), ?_⟩
  exact (h.besides.keeps hapart).entries _ _ (hclosed.location hsource hmade)
    (hadds.get?_of_some hdir)

/-- A tree has been copied next to a destination with a last name: all else is as it was, but for
directories above the destination. -/
structure Ready (tree : List Text → Option ByteArray) (destination : Path)
    (fs staged : FileSystem) (place : TemporaryPlace) : Prop where
  inUse : TemporaryPlace.InUse place.name.length [place] (Above (fs.spelled destination)) fs staged
  parent : place.parent = stagingParent destination
  location : place.location = (fs.spelled destination).dropLast
  spelled : ∀ n ∈ fs.spelled destination, Short place.name.length n
  holds : staged.Holds place.directory tree
  sole : place.Sole staged

theorem StagedAt.ready {fs : FileSystem}
    (h : StagedAt place.name.length tree destination made staged place)
    (hcreate : fs.createDirectories (stagingParent destination) = (made, none))
    (hlast : fs.LastNamed destination)
    (hdestination : ∀ segment ∈ destination.segments, Short place.name.length segment)
    (htree : ∀ names bytes, tree names = some bytes → place.name ∉ names) :
    Ready tree destination fs staged place := by
  have hadds := createDirectories_above hlast.direct
  rw [hcreate] at hadds
  have hspelled : staged.spelled destination = fs.spelled destination :=
    spelled_congr (h.besides.origin.trans hadds.origin) _
  exact {
    inUse := h.inUse (.nil _ _ _) hadds (by simp)
    parent := h.parent
    location := h.location_eq hcreate hlast
    spelled := hspelled ▸ h.reserved.temporary.closed.spelled hdestination
    holds := h.holds
    sole := h.sole htree }

/-- A tree is copied next to a destination with a last name, or all is as it was but for directories
above the destination. It fails only where something is in the way of these, or where there is no
tree. -/
theorem withStaged_direct (hlast : s.files.LastNamed destination) (source : Path) :
    (∃ e t, (∀ {α : Type} (body : StagedTree → Action α),
        (withStaged source destination body).perform s = (.error e, t)) ∧
      AddsDirectories (Above (s.files.spelled destination)) s.files t.files ∧
      ((s.files.createDirectories (stagingParent destination)).2 = none →
        ∀ l, s.files.resolve source = .ok (.present l) → s.files.get? l ≠ some .directory)) ∨
    ∃ t place tree count, Ready tree destination s.files t.files place ∧
      (∀ l, s.files.resolve source = .ok (.present l) → s.files.get? l = some .directory →
        tree = s.files.filesBelow l ∧
          count = {names | s.files.filesBelow l names ≠ none}.ncard) ∧
      ∀ {α : Type} (body : StagedTree → Action α), (withStaged source destination body).perform s =
        ((body ⟨place.path, destination, count⟩).thenAlways fun fs =>
          (fs.removeTree place.path).1).perform t := by
  have hadds := createDirectories_above hlast.direct
  obtain ⟨e, hfault, hperform⟩ | ⟨made, opened, place, count, hcreate, hopened, hshort, hcount,
    hperform⟩ := withStaged_fresh source destination s
  · exact .inl ⟨e, _, hperform, hadds, fun hnone => absurd hnone hfault⟩
  rw [hcreate] at hadds
  have hsource := hshort source (by simp)
  have hdestination := hshort destination (by simp)
  obtain ⟨e, t, hfail, hsame, hdir, hnot⟩ | ⟨t, tree, hcopy, hstaged, htree, hwhole⟩ :=
    copyFound_cases (s := { s with files := opened }) hopened hsource
  · have hready := hopened.ready hcreate hlast hdestination (by simp)
    refine .inl ⟨e, { t with files := (t.files.removeTree place.path).1 }, fun body => ?_,
      (hready.inUse.besides hsame hdir).clean, fun _ l hresolve hget => ?_⟩
    · rw [hperform, Action.perform_thenAlways, Action.perform_bind, hfail]
    · obtain ⟨hresolve', hget'⟩ := hopened.resolve_source hadds hsource hresolve hget
      exact hnot l hresolve' hget'
  · refine .inr ⟨t, place, tree, count, hstaged.ready hcreate hlast hdestination htree, ?_,
      fun body => ?_⟩
    · intro l hresolve hget
      obtain ⟨hresolve', hget'⟩ := hopened.resolve_source hadds hsource hresolve hget
      have hfiles := hopened.filesBelow_eq hadds l
      rw [hwhole l hresolve' hget', hcount, length_findFiles hresolve' hget', hfiles]
      exact ⟨rfl, rfl⟩
    · rw [hperform, Action.perform_thenAlways, Action.perform_bind, hcopy]
      rfl

/-! ## What is left -/

/-- While a copy is staged: what is at the destination and below it is as it was, and so is all else
but for a new directory and those above the destination. -/
structure StagedBeside (destination : Path) (fs staged : FileSystem) (dir : Location) : Prop where
  vacant : fs.get? dir = none
  untouched : ∀ k, fs.spelled destination <+: k → staged.get? k = fs.get? k
  elsewhere : Grows (dir <+: ·) (Above (fs.spelled destination)) fs staged

structure Published (source destination : Path) (fs after : FileSystem) (count : Nat) : Prop where
  /-- Below the destination are the files that were below the source, and nothing else. -/
  holds : ∀ l, fs.resolve source = .ok (.present l) → fs.get? l = some .directory →
    after.Holds (fs.spelled destination) (fs.filesBelow l)
  counts : ∀ l, fs.resolve source = .ok (.present l) → fs.get? l = some .directory →
    count = {names | fs.filesBelow l names ≠ none}.ncard
  /-- Elsewhere at most the missing directories above the destination have come. -/
  elsewhere : Grows (fs.spelled destination <+: ·) (Above (fs.spelled destination)) fs after

structure Unpublished (destination : Path) (fs after : FileSystem) : Prop where
  /-- At most the missing directories above the destination have come. Only a directory whose path
  ends in a dot may have been emptied. -/
  keeps : namesEntry destination = true ∨ fs.get? (fs.spelled destination) ≠ some .directory →
    AddsDirectories (Above (fs.spelled destination)) fs after
  elsewhere : Grows (fun k => fs.spelled destination <+: k ∧ k ≠ fs.spelled destination)
    (Above (fs.spelled destination)) fs after

theorem Unpublished.of_adds {fs after : FileSystem}
    (h : AddsDirectories (Above (fs.spelled destination)) fs after) :
    Unpublished destination fs after :=
  ⟨fun _ => h, .of_adds h⟩

namespace Ready

variable {fs after : FileSystem}

theorem reserved (h : Ready tree destination fs staged place) :
    place.Reserved (Short place.name.length) staged :=
  h.inUse.reserved place (List.mem_singleton_self _)

theorem spelled_eq (h : Ready tree destination fs staged place) :
    staged.spelled destination = fs.spelled destination :=
  spelled_congr h.inUse.grows.origin _

theorem lastNamed (h : Ready tree destination fs staged place) (hlast : fs.LastNamed destination) :
    staged.LastNamed destination :=
  hlast.of_links h.inUse.grows.origin fun _ _ hk hlink =>
    h.inUse.get?_link (fun n hn => h.spelled n (hk.subset hn)) hlink

theorem apart (h : Ready tree destination fs staged place) (hlast : fs.LastNamed destination) :
    ¬ place.directory <+: fs.spelled destination ∧ ¬ fs.spelled destination <+: place.directory := by
  rw [TemporaryPlace.directory, h.location]
  refine not_prefix_beside hlast.spelled_ne_nil fun heq => ?_
  have hmem : place.name ∈ fs.spelled destination := heq ▸ List.mem_append_right _ (by simp)
  exact Nat.lt_irrefl _ (h.spelled _ hmem)

theorem stagedBeside (h : Ready tree destination fs staged place)
    (hlast : fs.LastNamed destination) : StagedBeside destination fs staged place.directory := by
  have hgrows : Grows (place.directory <+: ·) (Above (fs.spelled destination)) fs staged :=
    h.inUse.grows.mono (by simp) fun _ => id
  refine ⟨h.inUse.vacant place (List.mem_singleton_self _), fun k hk => ?_, hgrows⟩
  obtain ⟨hapart, hapart'⟩ := h.apart hlast
  obtain heq | ⟨⟨habove, hne⟩, -⟩ := hgrows.entries k fun hp =>
    (List.prefix_or_prefix_of_prefix hp hk).elim hapart hapart'
  · exact heq
  · exact absurd (habove.eq_of_length_le hk.length_le) hne

theorem moved (h : Ready tree destination fs staged place)
    (hmoved : Moved place.directory (fs.spelled destination) staged after) :
    (after.removeTree place.path).1 = after ∧ after.Holds (fs.spelled destination) tree ∧
      Grows (fs.spelled destination <+: ·) (Above (fs.spelled destination)) fs after := by
  have hunspelled : place.name ∉ fs.spelled destination := fun hmem =>
    Nat.lt_irrefl _ (h.spelled _ hmem)
  refine ⟨(h.sole.gone hmoved hunspelled).removeTree h.reserved.temporary.isName,
    h.holds.of_get?_eq hmoved.inside, hmoved.origin.trans h.inUse.grows.origin, fun k hk => ?_⟩
  by_cases hplace : place.directory <+: k
  · have hvacant := h.inUse.vacant place (List.mem_singleton_self _)
    obtain ⟨rest, rfl⟩ := hplace
    rw [hmoved.gone _ hk (List.prefix_append ..), get?_append_of_none hvacant]
    exact .inl rfl
  · rw [hmoved.outside k hk hplace]
    exact h.inUse.grows.entries k (by simpa using hplace)

theorem leads_parent (h : Ready tree destination fs staged place) (hlast : fs.LastNamed destination)
    (hless : Keeps (fun _ => True) after staged)
    (hdir : after.get? place.location = some .directory) : after.Leads place.parent place.location [] := by
  have hlinks : ∀ k target, after.get? k = some (.link target) → staged.get? k = some (.link target) :=
    fun k target => hless.entries k _ fun _ _ => trivial
  have hafter : after.LastNamed destination :=
    (h.lastNamed hlast).of_links hless.origin.symm fun k target _ => hlinks k target
  have hspelled : after.spelled destination = fs.spelled destination :=
    (spelled_congr hless.origin.symm _).trans h.spelled_eq
  rw [h.location, ← hspelled] at hdir ⊢
  rw [h.parent]
  exact hafter.leads_stagingParent hdir

theorem cleared (h : Ready tree destination fs staged place) (hlast : fs.LastNamed destination) :
    Grows (fun k => fs.spelled destination <+: k ∧ k ≠ fs.spelled destination)
      (Above (fs.spelled destination)) fs
      ((staged.clear (fs.spelled destination)).removeTree place.path).1 := by
  obtain ⟨hapart, hapart'⟩ := h.apart hlast
  have hin : ¬ fs.spelled destination <+: place.location := fun hp =>
    hapart' (hp.trans (List.prefix_append ..))
  have hparent := h.reserved.temporary.leads.2.2.1
  have hdir : (staged.clear (fs.spelled destination)).get? place.location = some .directory := by
    rw [get?_clear, if_neg fun hp => hin hp.1, hparent]
  have hself : (staged.clear (fs.spelled destination)).get? place.directory = some .directory := by
    rw [get?_clear, if_neg fun hp => hapart' hp.1, h.holds.directory_self]
  have hemptied := keeps_clear staged (fs.spelled destination)
  have hboth := (keeps_clear (staged.clear (fs.spelled destination)) place.directory).trans hemptied
  have hdir' : ((staged.clear (fs.spelled destination)).clear place.directory).get? place.location =
      some .directory := by
    rw [get?_clear, if_neg, hdir]
    rintro ⟨hp, -⟩
    have := hp.length_le
    simp [TemporaryPlace.directory] at this
  obtain ⟨hsame, hgone⟩ := (h.leads_parent hlast hemptied hdir).removeTree_child
    h.reserved.temporary.isName (h.leads_parent hlast hboth hdir') hself
  refine ⟨hsame.origin.trans h.inUse.grows.origin, fun k hk => ?_⟩
  by_cases hplace : place.directory <+: k
  · have hvacant := h.inUse.vacant place (List.mem_singleton_self _)
    unfold TemporaryPlace.path
    rw [hgone k hplace]
    obtain ⟨rest, rfl⟩ := hplace
    exact .inl (get?_append_of_none hvacant rest).symm
  · have hkept : ((staged.clear (fs.spelled destination)).removeTree place.path).1.get? k =
        staged.get? k := by
      rw [TemporaryPlace.path, hsame.entries k hplace, get?_clear, if_neg hk]
    rw [hkept]
    exact h.inUse.grows.entries k (by simpa using hplace)

/-- A copy that is ready is put in place. Only a file at the destination or a dot at its end are in
the way. -/
theorem commit {t : BuildState} (hlast : s.files.LastNamed destination)
    (h : Ready tree destination s.files t.files place) (count : Nat) :
    (∃ e t', (((StagedTree.commit ⟨place.path, destination, count⟩).thenAlways fun fs =>
          (fs.removeTree place.path).1).perform t = (.error e, t')) ∧
        Unpublished destination s.files t'.files ∧ (namesEntry destination = true →
          ∃ bytes, s.files.get? (s.files.spelled destination) = some (.file bytes))) ∨
      ∃ t', (((StagedTree.commit ⟨place.path, destination, count⟩).thenAlways fun fs =>
          (fs.removeTree place.path).1).perform t = (.ok count, t')) ∧
        t'.files.Holds (s.files.spelled destination) tree ∧
        Grows (s.files.spelled destination <+: ·) (Above (s.files.spelled destination)) s.files
          t'.files := by
  have hspelled := h.spelled_eq
  have hstays := (h.stagedBeside hlast).untouched _ (List.prefix_refl _)
  cases hnamed : namesEntry destination with
  | false =>
    obtain ⟨e, files, hfail, hfiles⟩ := commitTree_unnamed (h.lastNamed hlast) hnamed place.path
    refine .inl ⟨e, { t with files := (files.removeTree place.path).1 }, ?_, ?_, by simp⟩
    · rw [Action.perform_thenAlways, StagedTree.perform_commit, hfail]
      rfl
    · rw [hspelled, hstays] at hfiles
      obtain rfl | ⟨hdir, rfl⟩ := hfiles
      · exact .of_adds h.inUse.clean
      · exact ⟨by simp [hnamed, hdir], h.cleared hlast⟩
  | true =>
    have hstaged := h.lastNamed hlast
    have hshort : ∀ n ∈ t.files.spelled destination, Short place.name.length n := by
      rw [hspelled]
      exact h.spelled
    obtain ⟨e, bytes, hfail, hfile⟩ | ⟨after, hcommit, hmoved, -⟩ :=
      StagedTree.commit_cases ⟨hstaged.direct, hnamed, hstaged.noLink⟩ hshort h.reserved h.parent
        (by rw [hspelled]; exact h.location) h.holds.directory_self count
    · rw [hspelled, hstays] at hfile
      refine .inl ⟨e, { t with files := (t.files.removeTree place.path).1 }, ?_,
        .of_adds h.inUse.clean, fun _ => ⟨bytes, hfile⟩⟩
      rw [Action.perform_thenAlways, hfail]
    · rw [hspelled] at hmoved
      obtain ⟨hclean, hholds, hgrows⟩ := h.moved hmoved
      refine .inr ⟨{ t with files := after }, ?_, hholds, hgrows⟩
      rw [Action.perform_thenAlways, hcommit]
      simp only [hclean]

end Ready

/-! ## Publication -/

/-- A tree is published at a path without double dots and links that has a last name. While it is
staged, the destination is as it was. A publication that fails leaves everything, unless the path ends
in a dot; then at most what was below the destination goes. One that succeeds puts exactly the files
of the tree at the destination. Nothing else changes but that missing directories above the destination
are made, and nothing but a file in the way or a dot at the end makes it fail. -/
theorem publish_replaces (hlast : s.files.LastNamed destination) (source : Path) :
    ((∃ e t, (∀ {α : Type} (body : StagedTree → Action α),
          (withStaged source destination body).perform s = (.error e, t)) ∧
        AddsDirectories (Above (s.files.spelled destination)) s.files t.files) ∨
      ∃ t copy dir, StagedBeside destination s.files t.files dir ∧
        ∀ {α : Type} (body : StagedTree → Action α), (withStaged source destination body).perform s =
          ((body copy).thenAlways fun fs => (fs.removeTree copy.directory).1).perform t) ∧
    (∀ e s', (publish source destination).perform s = (.error e, s') →
      Unpublished destination s.files s'.files) ∧
    (∀ count s', (publish source destination).perform s = (.ok count, s') →
      Published source destination s.files s'.files count) ∧
    ∀ l, s.files.resolve source = .ok (.present l) → s.files.get? l = some .directory →
      s.files.get? (s.files.origin destination) = some .directory → namesEntry destination = true →
      (∀ k bytes, k <+: s.files.spelled destination → s.files.get? k ≠ some (.file bytes)) →
      ∃ count s', (publish source destination).perform s = (.ok count, s') := by
  obtain ⟨names, name, hnames, hspelled⟩ := hlast.exists_names
  obtain ⟨e, t, hperform, hadds, hreason⟩ | ⟨t, place, tree, count, hready, htree, hperform⟩ :=
    withStaged_direct hlast source
  · refine ⟨.inl ⟨e, t, hperform, hadds⟩, fun e' s' h => ?_, fun count s' h => ?_,
      fun l hresolve hdir horigin _ hfree => ?_⟩
    · rw [publish, hperform] at h
      cases h
      exact .of_adds hadds
    · rw [publish, hperform] at h
      cases h
    · obtain ⟨made, hmade⟩ | ⟨-, hmissing | ⟨front, bytes, hfront, hfile⟩⟩ :=
        createDirectories_direct_cases hlast.direct hnames
      · exact absurd hdir (hreason (by rw [hmade]) l hresolve)
      · exact absurd horigin hmissing
      · refine absurd hfile (hfree _ bytes ?_)
        rw [hspelled, List.prefix_append_right_inj]
        exact hfront.trans (List.prefix_append ..)
  · refine ⟨.inr ⟨t, _, _, hready.stagedBeside hlast, hperform⟩, ?_⟩
    obtain ⟨e, t', hcommit, hleft, hreason⟩ | ⟨t', hcommit, hholds, hgrows⟩ :=
      hready.commit hlast count
    · refine ⟨fun e' s' h => ?_, fun count' s' h => ?_, fun l _ _ _ hnamed hfree => ?_⟩
      · rw [publish, hperform, hcommit] at h
        cases h
        exact hleft
      · rw [publish, hperform, hcommit] at h
        cases h
      · obtain ⟨bytes, hfile⟩ := hreason hnamed
        exact absurd hfile (hfree _ bytes (List.prefix_refl _))
    · refine ⟨fun e' s' h => ?_, fun count' s' h => ?_, fun _ _ _ _ _ _ => ⟨count, t', ?_⟩⟩
      · rw [publish, hperform, hcommit] at h
        cases h
      · rw [publish, hperform, hcommit] at h
        cases h
        refine ⟨fun l hresolve hdir => ?_, fun l hresolve hdir => (htree l hresolve hdir).2, hgrows⟩
        rw [← (htree l hresolve hdir).1]
        exact hholds
      · rw [publish, hperform, hcommit]

/-- A tree that has been published before, in a directory of its own. -/
def nestedFiles : FileSystem :=
  (((FileSystem.empty.place ["src"] .directory).place ["src", "a"] (.file (Text.toUtf8 "new"))).place
    ["src", "out"] .directory).place ["src", "out", "old"] (.file (Text.toUtf8 "previous"))

/-- The tree is published in a directory of its own. -/
theorem publish_replaces_nested :
    nestedFiles.LastNamed "src/out" ∧
      ∃ s', (publish "src" "src/out").perform ⟨nestedFiles, []⟩ = (.ok 2, s') ∧
        Published "src" "src/out" nestedFiles s'.files 2 := by
  have hown : nestedFiles.OwnName "src/out" := by decide +kernel
  have hrun : ((publish "src" "src/out").perform ⟨nestedFiles, []⟩).1.toOption = some 2 := by
    decide +kernel
  obtain ⟨-, -, hpublished, -⟩ := publish_replaces (s := ⟨nestedFiles, []⟩) hown.lastNamed "src"
  generalize h : (publish "src" "src/out").perform ⟨nestedFiles, []⟩ = outcome at *
  obtain ⟨_ | count, s'⟩ := outcome
  · cases hrun
  · obtain rfl := Option.some.inj hrun
    exact ⟨hown.lastNamed, s', rfl, hpublished 2 s' rfl⟩

/-- A publication fails where the destination ends in a dot, and the old tree is gone. -/
theorem publish_dot_loses :
    Path.fileName? "src/out/." = some "out".toList ∧ nestedFiles.Direct "src/out/." ∧
      nestedFiles.get? (nestedFiles.spelled "src/out/.") = some .directory ∧
      ((publish "src" "src/out/.").perform ⟨nestedFiles, []⟩).1.toOption = none ∧
      nestedFiles.get? ["src", "out", "old"] = some (.file (Text.toUtf8 "previous")) ∧
      ((publish "src" "src/out/.").perform ⟨nestedFiles, []⟩).2.files.get? ["src", "out", "old"] =
        none := by
  decide +kernel

end AndroidResources
