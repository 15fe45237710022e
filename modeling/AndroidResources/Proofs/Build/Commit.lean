import AndroidResources.Proofs.Build.Staging
import AndroidResources.Proofs.FileSystem.Success

/-!
# Committing a staged tree

What is at the destination is removed, and the staged directory is moved there. Only a file is in the
way, and then nothing happens.

* `OwnName fs p` : a path without double dots and links that ends in a name;
* `Moved source destination fs fs'` : the tree at one location has taken the place of that at another;
* `commitTree_cases` : a commit succeeds, or a file is at the destination and all is as it was;
* `commitTree_eq_ok` : a commit that has succeeded, whatever path leads to the destination.
-/

namespace AndroidResources

namespace FileSystem

variable {fs fs' : FileSystem} {p q : Path}

theorem not_prefix_beside {l : Location} {name : Text} (hl : l ≠ []) (hne : l.dropLast ++ [name] ≠ l) :
    ¬ l.dropLast ++ [name] <+: l ∧ ¬ l <+: l.dropLast ++ [name] := by
  have hlength : (l.dropLast ++ [name]).length = l.length := by
    have := List.length_pos_iff.2 hl
    rw [List.length_append, List.length_dropLast, List.length_singleton]
    omega
  exact ⟨fun hp => hne (hp.eq_of_length hlength), fun hp => hne (hp.eq_of_length hlength.symm).symm⟩

/-- The path spells a location with a last name, where no link is. There may be a dot at its end. -/
structure LastNamed (fs : FileSystem) (p : Path) : Prop where
  direct : fs.Direct p
  named : p.fileName? ≠ none
  noLink : ∀ target, fs.get? (fs.spelled p) ≠ some (.link target)

namespace LastNamed

theorem exists_names (h : fs.LastNamed p) :
    ∃ names name, Path.properNames p.segments = names ++ [name] ∧
      fs.spelled p = fs.origin p ++ (names ++ [name]) := by
  have hnil : Path.properNames p.segments ≠ [] := fun hnil => h.named (by
    rw [Path.fileName?_eq h.direct.noParent, hnil]
    rfl)
  have hnames := (List.dropLast_concat_getLast hnil).symm
  exact ⟨_, _, hnames, by rw [spelled, ← hnames]⟩

theorem spelled_ne_nil (h : fs.LastNamed p) : fs.spelled p ≠ [] := by
  obtain ⟨names, name, -, heq⟩ := h.exists_names
  simp [heq]

theorem leads_stagingParent (h : fs.LastNamed p)
    (hparent : fs.get? (fs.spelled p).dropLast = some .directory) :
    fs.Leads (stagingParent p) (fs.spelled p).dropLast [] := by
  obtain ⟨names, last, hnames, heq⟩ := h.exists_names
  have hlast : fs.spelled p = (fs.spelled p).dropLast ++ [last] := by
    rw [heq, ← List.append_assoc, List.dropLast_concat]
  exact AndroidResources.leads_stagingParent h.direct.noParent hnames hlast hparent

theorem of_links (h : fs.LastNamed p) (horigin : fs'.workingDirectory = fs.workingDirectory)
    (hlinks : ∀ k target, k <+: fs.spelled p → fs'.get? k = some (.link target) →
      fs.get? k = some (.link target)) : fs'.LastNamed p := by
  refine ⟨h.direct.of_links horigin hlinks, h.named, fun target hlink => ?_⟩
  rw [spelled_congr horigin] at hlink
  exact h.noLink target (hlinks _ target (List.prefix_refl _) hlink)

end LastNamed

/-- The path names the location that it spells, where no link is, by a name at its end. -/
structure OwnName (fs : FileSystem) (p : Path) : Prop where
  direct : fs.Direct p
  named : namesEntry p = true
  noLink : ∀ target, fs.get? (fs.spelled p) ≠ some (.link target)

instance (fs : FileSystem) (p : Path) : Decidable (fs.OwnName p) :=
  decidable_of_iff (fs.Direct p ∧ namesEntry p = true ∧
      (fs.get? (fs.spelled p)).all (fun entry => !(entry matches .link _)) = true) <| by
    constructor
    · rintro ⟨hdirect, hnamed, hlink⟩
      refine ⟨hdirect, hnamed, fun target hget => ?_⟩
      rw [hget] at hlink
      cases hlink
    · rintro ⟨hdirect, hnamed, hlink⟩
      refine ⟨hdirect, hnamed, ?_⟩
      rw [Option.all_eq_true]
      rintro (_ | _ | target) he
      · rfl
      · rfl
      · exact absurd he (hlink target)

namespace OwnName

theorem lastNamed (h : fs.OwnName p) : fs.LastNamed p := by
  obtain ⟨names, name, hnames⟩ := exists_names_of_namesEntry h.named
  refine ⟨h.direct, ?_, h.noLink⟩
  rw [Path.fileName?_eq h.direct.noParent, hnames, List.getLast?_concat]
  simp

theorem of_links (h : fs.OwnName p) (horigin : fs'.workingDirectory = fs.workingDirectory)
    (hlinks : ∀ k target, k <+: fs.spelled p → fs'.get? k = some (.link target) →
      fs.get? k = some (.link target)) : fs'.OwnName p :=
  have hlast := h.lastNamed.of_links horigin hlinks
  ⟨hlast.direct, h.named, hlast.noLink⟩

theorem exists_names (h : fs.OwnName p) :
    ∃ names name, Path.properNames p.segments = names ++ [name] ∧
      fs.spelled p = fs.origin p ++ (names ++ [name]) :=
  h.lastNamed.exists_names

theorem spelled_ne_nil (h : fs.OwnName p) : fs.spelled p ≠ [] :=
  h.lastNamed.spelled_ne_nil

theorem not_prefix_dropLast (h : fs.OwnName p) : ¬ fs.spelled p <+: (fs.spelled p).dropLast := by
  intro hp
  have hlen := hp.length_le
  have hpos := List.length_pos_iff.2 h.spelled_ne_nil
  rw [List.length_dropLast] at hlen
  omega

theorem text_ne_nil (h : fs.OwnName p) : p.text ≠ [] := by
  intro hnil
  obtain ⟨names, name, hnames, -⟩ := h.exists_names
  have hempty : Path.properNames [[]] = [] := rfl
  rw [(Path.text_eq_nil_iff p).1 hnil, hempty] at hnames
  exact absurd hnames.symm (by simp)

theorem resolve (h : fs.OwnName p) (horigin : fs'.workingDirectory = fs.workingDirectory)
    (hdir : fs'.get? (fs.spelled p) = some .directory) :
    fs'.resolve p = .ok (.present (fs.spelled p)) := by
  rw [← spelled_congr horigin] at hdir ⊢
  exact (Leads.of_spelled h.text_ne_nil h.direct.noParent hdir).resolve_nil

theorem eq_spelled (h : fs.OwnName p) {dir : Location} {last : Text} (hleads : fs.Leads p dir [last]) :
    dir ++ [last] = fs.spelled p := by
  obtain ⟨place, hplace, hlocation⟩ := hleads.resolveEntry_last (endsInName_of_namesEntry h.named)
  rw [← hlocation]
  exact h.direct.location (.inr rfl) hplace

theorem resolveEntry_vacant (h : fs.OwnName p)
    (hparent : fs.get? (fs.spelled p).dropLast = some .directory)
    (hnone : fs.get? (fs.spelled p) = none) :
    fs.resolveEntry p = .ok (.vacant (fs.spelled p) false) := by
  obtain ⟨names, name, hnames, heq⟩ := h.exists_names
  rw [heq, ← List.append_assoc, List.dropLast_concat] at hparent
  have horigin : fs.get? (fs.origin p) = some .directory := by
    by_cases hnil : names = []
    · rwa [hnil, List.append_nil] at hparent
    · exact get?_of_append names hnil hparent
  have hleads := Leads.of_origin h.text_ne_nil horigin h.direct.noParent
  rw [hnames] at hleads
  rw [heq] at hnone ⊢
  exact hleads.resolve_vacant (.inr rfl) (endsInName_of_namesEntry h.named) hparent hnone

theorem leads_stagingParent (h : fs.OwnName p)
    (hparent : fs.get? (fs.spelled p).dropLast = some .directory) :
    fs.Leads (stagingParent p) (fs.spelled p).dropLast [] :=
  h.lastNamed.leads_stagingParent hparent

theorem resolveEntry_staged (h : fs.OwnName p) {name : Text} (hname : IsName name)
    (hdir : fs.get? ((fs.spelled p).dropLast ++ [name]) = some .directory) :
    fs.resolveEntry ((stagingParent p).join ⟨name⟩) =
      .ok (.present ((fs.spelled p).dropLast ++ [name])) :=
  ((h.leads_stagingParent (get?_of_append [name] (by simp) hdir)).child hname).resolve_present
    (.inr (by simp)) (.inr rfl) hdir

theorem not_prefix_staged (h : fs.OwnName p) {name : Text}
    (hne : (fs.spelled p).dropLast ++ [name] ≠ fs.spelled p) :
    ¬ (fs.spelled p).dropLast ++ [name] <+: fs.spelled p ∧
      ¬ fs.spelled p <+: (fs.spelled p).dropLast ++ [name] :=
  not_prefix_beside h.spelled_ne_nil hne

end OwnName

/-- The tree at one location has taken the place of what was at another. -/
structure Moved (source destination : Location) (fs fs' : FileSystem) : Prop where
  origin : fs'.workingDirectory = fs.workingDirectory
  inside : ∀ names, fs'.get? (destination ++ names) = fs.get? (source ++ names)
  gone : ∀ k, ¬ destination <+: k → source <+: k → fs'.get? k = none
  outside : ∀ k, ¬ destination <+: k → ¬ source <+: k → fs'.get? k = fs.get? k

namespace Moved

variable {source destination : Location}

theorem of_move (h : fs.CanMove source destination) :
    Moved source destination fs (fs.move source destination) := by
  refine ⟨workingDirectory_move fs source destination, fun names => ?_,
    fun k => (get?_move_cases h k).2.1, fun k => (get?_move_cases h k).2.2⟩
  obtain ⟨rest, heq, hrest⟩ := (get?_move_cases h _).1 (List.prefix_append destination names)
  rw [hrest, List.append_cancel_left heq]

/-- What was at the destination may have gone before. -/
theorem of_removed {mid : FileSystem} (h : Moved source destination mid fs')
    (horigin : mid.workingDirectory = fs.workingDirectory) (hapart : ¬ destination <+: source)
    (hbelow : ¬ source <+: destination)
    (hget : ∀ k, mid.get? k = if destination <+: k then none else fs.get? k) :
    Moved source destination fs fs' := by
  refine ⟨h.origin.trans horigin, fun names => ?_, h.gone, fun k hk hk' => ?_⟩
  · rw [h.inside, hget, if_neg]
    intro hp
    obtain hp' | hp' := List.prefix_or_prefix_of_prefix hp (List.prefix_append source names)
    · exact hapart hp'
    · exact hbelow hp'
  · rw [h.outside k hk hk', hget, if_neg hk]

end Moved

end FileSystem

open FileSystem

variable {s s' : BuildState} {destination : Path} {name : Text}

/-- A directory that is staged next to its destination goes there if nothing is in the way. -/
theorem moved_of_vacant (h : s.files.OwnName destination) (hname : IsName name)
    (hne : (s.files.spelled destination).dropLast ++ [name] ≠ s.files.spelled destination)
    (hdir : s.files.get? ((s.files.spelled destination).dropLast ++ [name]) = some .directory)
    (hnone : s.files.get? (s.files.spelled destination) = none) :
    ∃ files, (Action.change destination
        (·.rename ((stagingParent destination).join ⟨name⟩) destination)).perform s =
        (.ok (), { s with files := files }) ∧
      Moved ((s.files.spelled destination).dropLast ++ [name]) (s.files.spelled destination)
        s.files files := by
  have hparent := get?_of_append [name] (by simp) hdir
  have hentry := h.resolveEntry_vacant hparent hnone
  have hsource := h.resolveEntry_staged hname hdir
  have hbelow := h.not_prefix_staged hne
  obtain ⟨files, hrename⟩ :=
    exists_rename hsource hdir (namesEntry_child _ hname) hentry h.named hbelow.1
  refine ⟨files, Action.change_eq_ok.2 ⟨files, hrename, rfl⟩, ?_⟩
  obtain ⟨l', place, e, hl', hplace, -, -, ⟨heq, -⟩ | ⟨hmove, -, rfl⟩⟩ := rename_eq_ok hrename
  all_goals
    rw [hsource] at hl'
    rw [hentry] at hplace
    cases hl'
    cases hplace
  · exact absurd heq.symm hne
  · exact .of_move hmove

theorem perform_commitTree (staged destination : Path) (s : BuildState) :
    (commitTree staged destination).perform s =
      if s.files.pathExists destination then
        (Action.changePartly destination (·.removeTree destination) >>= fun _ =>
          Action.change destination (·.rename staged destination)).perform s
      else (Action.change destination (·.rename staged destination)).perform s := by
  unfold commitTree
  rw [Action.perform_bind, Action.perform_ask]
  cases s.files.pathExists destination <;> rfl

theorem commitTree_file (h : s.files.OwnName destination) {staged : Path} {k : Location}
    (hstaged : s.files.resolveEntry staged = .ok (.present k))
    (hdir : s.files.get? k = some .directory) {content : ByteArray}
    (hfile : s.files.get? (s.files.spelled destination) = some (.file content)) :
    ∃ e, (commitTree staged destination).perform s = (.error e, s) := by
  rw [perform_commitTree]
  split
  · obtain ⟨fault, hremove⟩ := removeTree_of_file h.direct hfile
    refine ⟨.io destination fault, ?_⟩
    rw [Action.perform_bind, Action.perform_changePartly, hremove]
  · cases hrename : s.files.rename staged destination with
    | error fault => exact ⟨.io destination fault, by rw [Action.perform_change, hrename]⟩
    | ok files =>
      obtain ⟨l, place, e, hl, hplace, -, he, hcases⟩ := rename_eq_ok hrename
      have hlocation : place.location = s.files.spelled destination :=
        h.direct.location (.inr rfl) hplace
      rw [hstaged] at hl
      cases hl
      rw [hdir] at he
      cases he
      rw [hlocation] at hcases
      obtain ⟨heq, -⟩ | ⟨-, hyields, -⟩ := hcases
      · rw [← heq, hfile] at hdir
        cases hdir
      · cases hyields.get?_self hfile

theorem commitTree_vacant (h : s.files.OwnName destination) (hname : IsName name)
    (hne : (s.files.spelled destination).dropLast ++ [name] ≠ s.files.spelled destination)
    (hdir : s.files.get? ((s.files.spelled destination).dropLast ++ [name]) = some .directory)
    (hnone : s.files.get? (s.files.spelled destination) = none) :
    ∃ files, (commitTree ((stagingParent destination).join ⟨name⟩) destination).perform s =
        (.ok (), { s with files := files }) ∧
      Moved ((s.files.spelled destination).dropLast ++ [name]) (s.files.spelled destination)
        s.files files := by
  have hmissing : ¬ s.files.pathExists destination = true := fun hexists => by
    obtain ⟨k, hk⟩ := pathExists_iff.1 hexists
    obtain ⟨k', hk'⟩ := resolveKept_of_resolve hk
    obtain ⟨e, he⟩ := get?_of_present hk'
    obtain rfl : k' = s.files.spelled destination := h.direct.location (.inl rfl) hk'
    rw [hnone] at he
    cases he
  obtain ⟨files, hmove, hmoved⟩ := moved_of_vacant h hname hne hdir hnone
  refine ⟨files, ?_, hmoved⟩
  rw [perform_commitTree, if_neg hmissing, hmove]

theorem commitTree_directory (h : s.files.OwnName destination) (hname : IsName name)
    (hne : (s.files.spelled destination).dropLast ++ [name] ≠ s.files.spelled destination)
    (hdir : s.files.get? ((s.files.spelled destination).dropLast ++ [name]) = some .directory)
    (hold : s.files.get? (s.files.spelled destination) = some .directory) :
    ∃ files, (commitTree ((stagingParent destination).join ⟨name⟩) destination).perform s =
        (.ok (), { s with files := files }) ∧
      Moved ((s.files.spelled destination).dropLast ++ [name]) (s.files.spelled destination)
        s.files files := by
  obtain ⟨names, last, hnames, -⟩ := h.exists_names
  obtain ⟨hexists, removed, hremove⟩ := exists_removeTree_direct h.direct h.named hold
  obtain ⟨horigin, hremoved⟩ := removeTree_direct h.direct (by simp [hnames]) hremove
  have hspelled : removed.spelled destination = s.files.spelled destination :=
    spelled_congr horigin _
  have hown : removed.OwnName destination := h.of_links horigin fun k target _ hlink => by
    rw [hremoved] at hlink
    split at hlink
    · cases hlink
    · exact hlink
  obtain ⟨hbelow, habove⟩ := h.not_prefix_staged hne
  have hstaged : removed.get? ((s.files.spelled destination).dropLast ++ [name]) =
      some .directory := by
    rw [hremoved, if_neg habove, hdir]
  have hnone : removed.get? (s.files.spelled destination) = none := by
    rw [hremoved, if_pos (List.prefix_refl _)]
  rw [← hspelled] at hne hstaged hnone
  obtain ⟨files, hmove, hmoved⟩ :=
    moved_of_vacant (s := { s with files := removed }) hown hname hne hstaged hnone
  refine ⟨files, ?_, ?_⟩
  · rw [perform_commitTree, if_pos hexists, Action.perform_bind, Action.perform_changePartly,
      hremove]
    exact hmove
  · rw [hspelled] at hmoved
    exact hmoved.of_removed horigin habove hbelow hremoved

/-- A directory that is staged next to its destination takes the place of what is there, unless that
is a file. Then nothing changes. -/
theorem commitTree_cases (h : s.files.OwnName destination) (hname : IsName name)
    (hne : (s.files.spelled destination).dropLast ++ [name] ≠ s.files.spelled destination)
    (hdir : s.files.get? ((s.files.spelled destination).dropLast ++ [name]) = some .directory) :
    (∃ e content, (commitTree ((stagingParent destination).join ⟨name⟩) destination).perform s =
        (.error e, s) ∧ s.files.get? (s.files.spelled destination) = some (.file content)) ∨
      ∃ files, (commitTree ((stagingParent destination).join ⟨name⟩) destination).perform s =
          (.ok (), { s with files := files }) ∧
        Moved ((s.files.spelled destination).dropLast ++ [name]) (s.files.spelled destination)
          s.files files ∧
        ∀ content, s.files.get? (s.files.spelled destination) ≠ some (.file content) := by
  cases hget : s.files.get? (s.files.spelled destination) with
  | none =>
    obtain ⟨files, hcommit, hmoved⟩ := commitTree_vacant h hname hne hdir hget
    exact .inr ⟨files, hcommit, hmoved, by simp⟩
  | some entry =>
    cases entry with
    | link target => exact absurd hget (h.noLink target)
    | file content =>
      obtain ⟨e, hfail⟩ := commitTree_file h (h.resolveEntry_staged hname hdir) hdir hget
      exact .inl ⟨e, content, hfail, rfl⟩
    | directory =>
      obtain ⟨files, hcommit, hmoved⟩ := commitTree_directory h hname hne hdir hget
      exact .inr ⟨files, hcommit, hmoved, by simp⟩

/-- Where the destination ends in a dot no tree is put, but a directory there loses what is in it. -/
theorem commitTree_unnamed (h : s.files.LastNamed destination)
    (hunnamed : namesEntry destination = false) (staged : Path) :
    ∃ e files, (commitTree staged destination).perform s = (.error e, { s with files := files }) ∧
      (files = s.files ∨ s.files.get? (s.files.spelled destination) = some .directory ∧
        files = s.files.clear (s.files.spelled destination)) := by
  have hrename : ∀ t : BuildState, ∃ e,
      (Action.change destination (·.rename staged destination)).perform t = (.error e, t) := by
    intro t
    rw [Action.perform_change]
    cases hrename : t.files.rename staged destination with
    | error fault => exact ⟨_, rfl⟩
    | ok files =>
      obtain ⟨-, -, -, -, -, hnamed, -⟩ := rename_eq_ok hrename
      rw [hunnamed] at hnamed
      cases hnamed
  rw [perform_commitTree]
  split
  · rw [Action.perform_bind, Action.perform_changePartly]
    have hremoved : (s.files.removeTree destination).1 = s.files ∨
        s.files.get? (s.files.spelled destination) = some .directory ∧
          (s.files.removeTree destination).1 = s.files.clear (s.files.spelled destination) := by
      obtain ⟨names, name, hnames, -⟩ := h.exists_names
      have hlocation : ∀ l, s.files.resolveSegments .kept destination destination.segments =
          .ok (.present l) → l = s.files.spelled destination := fun l => h.direct.location (.inl rfl)
      obtain hsame | ⟨l, hl, hdir, hclear⟩ := removeTree_unnamed hunnamed (by simp [hnames])
        fun l target hl => hlocation l hl ▸ h.noLink target
      · exact .inl hsame
      · rw [hlocation l hl] at hdir hclear
        exact .inr ⟨hdir, hclear⟩
    cases hfault : (s.files.removeTree destination).2 with
    | some fault => exact ⟨_, _, rfl, hremoved⟩
    | none =>
      obtain ⟨e, hfail⟩ := hrename { s with files := (s.files.removeTree destination).1 }
      exact ⟨e, _, hfail, hremoved⟩
  · obtain ⟨e, hfail⟩ := hrename s
    exact ⟨e, s.files, hfail, .inl rfl⟩

/-! ## Commits that succeed -/

section

variable {fs removed after : FileSystem} {p : Path} {dir : Location} {last : Text}

theorem exists_get?_of_pathExists (h : fs.Leads p dir [last]) (hend : EndsInName (entrySegments p))
    (hexists : fs.pathExists p = true) : ∃ e, fs.get? (dir ++ [last]) = some e := by
  obtain ⟨l, hl⟩ := pathExists_iff.1 hexists
  obtain ⟨l', hl'⟩ := resolveEntry_of_resolve hl
  obtain rfl : l' = dir ++ [last] := h.location_of_resolveEntry hend hl'
  exact get?_of_present hl'

/-- What is not found when a directory has been emptied was in it, and so was what lay beside it. -/
theorem get?_beside_of_clear {m : Location} {e : Entry} (h : (fs.clear m).Leads p dir [last])
    (hend : EndsInName (entrySegments p))
    (hnone : ∀ l, (fs.clear m).resolveEntry p ≠ .ok (.present l))
    (he : fs.get? (dir ++ [last]) = some e) : (fs.clear m).get? (dir ++ [name]) = none := by
  obtain ⟨place, hplace, hlocation⟩ := h.resolveEntry_last hend
  cases place with
  | present l => exact absurd hplace (hnone l)
  | vacant l c =>
    obtain ⟨-, hgone⟩ := canPlace_of_vacant
      (fun _ hmem => Path.slash_not_mem_segment (mem_segments_of_mem_entrySegments hmem)) hplace
    obtain rfl : l = dir ++ [last] := hlocation
    rw [get?_clear, he] at hgone
    split at hgone
    · next hbelow =>
      have habove : m <+: dir := (List.prefix_concat_iff.1 hbelow.1).resolve_left hbelow.2.symm
      rw [get?_clear, if_pos]
      refine ⟨habove.trans (List.prefix_append ..), ?_⟩
      rintro rfl
      have hlen := habove.length_le
      rw [List.length_append, List.length_singleton] at hlen
      omega
    · cases hgone

/-- Where something beside the last name stays, a removal takes what has the last name and nothing
else. A slash behind a link asks for what it leads to, but then the link itself is in the way. -/
theorem get?_of_removeTree (h : fs.Leads p dir [last]) (hend : EndsInName (entrySegments p))
    (hexists : fs.pathExists p = true) (hremove : fs.removeTree p = (removed, none))
    (h' : removed.Leads p dir [last]) (hbeside : removed.get? (dir ++ [name]) ≠ none)
    (hyields : removed.Yields .directory (dir ++ [last])) (k : Location) :
    removed.get? k = if dir ++ [last] <+: k then none else fs.get? k := by
  obtain ⟨e, he⟩ := exists_get?_of_pathExists h hend hexists
  have hne : dir ++ [last] ≠ [] := by simp
  obtain ⟨m, hm, hcases⟩ := removeTree_eq_none hremove
  have hdirectory : fs.get? (dir ++ [last]) = some .directory → m = dir ++ [last] := fun hdir => by
    have hfound : fs.resolveSegments .kept p p.segments = .ok (.present (dir ++ [last])) :=
      h.resolve_present (.inr (by simp)) (.inl rfl) hdir
    exact Place.present.inj (Except.ok.inj (hm.symm.trans hfound))
  obtain ⟨target, hlink, rfl⟩ | ⟨hdir, ⟨l, hl, hne', hdir', rfl⟩ | ⟨hnone, rfl⟩⟩ := hcases
  · have hm' : m ≠ [] := by
      rintro rfl
      cases hlink
    -- another link would have left what has the last name, so a directory, and that would have gone
    have heq : m = dir ++ [last] := by
      by_contra hother
      have hkept : (fs.removeAt m).get? (dir ++ [last]) = some e := by
        rw [get?_removeAt_iff fs hm', if_neg, he]
        rintro ⟨rest, hrest⟩
        rw [← hrest] at he hother
        rw [get?_of_append rest (fun hnil => hother (by rw [hnil, List.append_nil])) he] at hlink
        cases hlink
      obtain rfl := hyields.get?_self hkept
      exact hother (hdirectory he)
    rw [get?_removeAt_iff fs hm', heq]
  · have heq : l = dir ++ [last] :=
      h.location_of_resolveEntry hend (present_of_keeps_all (keeps_clear fs m) hl)
    rw [heq] at hdir' ⊢
    obtain rfl := hdirectory ((keeps_clear fs m).entries _ _ (fun _ _ => trivial) hdir')
    exact get?_removeAt_clear hne k
  · exact absurd (get?_beside_of_clear h' hend hnone he) hbeside

/-- What a rename of a staged tree finds: both names are in the directory in which the path is
staged. -/
theorem exists_leads_of_rename (hname : IsName name)
    (h : fs.rename ((stagingParent p).join ⟨name⟩) p = .ok after) :
    ∃ dir last place e, fs.Leads p dir [last] ∧ EndsInName (entrySegments p) ∧
      fs.resolveEntry p = .ok place ∧ place.location = dir ++ [last] ∧
      fs.get? (dir ++ [name]) = some e ∧ (dir ++ [last] = dir ++ [name] ∨
        fs.CanMove (dir ++ [name]) (dir ++ [last]) ∧ fs.Yields e (dir ++ [last]) ∧
          after = fs.move (dir ++ [name]) (dir ++ [last])) := by
  obtain ⟨l, place, e, hl, hplace, hnamed, he, hcases⟩ := rename_eq_ok h
  obtain ⟨dir, hleads, hlocation⟩ := exists_leads_of_resolveEntry hnamed hplace
  obtain rfl : l = dir ++ [name] := (hleads.stagingParent.child hname).location_of_resolveEntry
    (endsInName_child _ hname).entrySegments hl
  rw [hlocation] at hcases
  exact ⟨dir, _, place, e, hleads, endsInName_of_namesEntry hnamed, hplace, hlocation, he,
    hcases.imp_left And.left⟩

/-- Whatever path the destination is: a commit that succeeds has put the staged tree where the path
names its last name, in the place of what was there, and the path leads to it. -/
theorem commitTree_eq_ok {S : Text → Prop} {u : Unit} (hname : IsName name) (hidden : ¬ S name)
    (hclosed : Closed S s.files) (hspelled : ∀ segment ∈ destination.segments, S segment)
    (hstaged : ∀ dir e, s.files.get? (dir ++ [name]) = some e → e = .directory)
    (h : (commitTree ((stagingParent destination).join ⟨name⟩) destination).perform s = (.ok u, s')) :
    ∃ dir last, s.files.Leads destination dir [last] ∧
      s.files.get? (dir ++ [name]) = some .directory ∧ (∀ n ∈ dir ++ [last], S n) ∧
      Moved (dir ++ [name]) (dir ++ [last]) s.files s'.files ∧
      s'.files.resolve destination = .ok (.present (dir ++ [last])) := by
  obtain ⟨removed, after, hrename, rfl, hcases⟩ : ∃ removed after,
      removed.rename ((stagingParent destination).join ⟨name⟩) destination = .ok after ∧
      s' = { s with files := after } ∧ (removed = s.files ∨ s.files.pathExists destination = true ∧
        s.files.removeTree destination = (removed, none)) := by
    rw [perform_commitTree] at h
    split at h
    · next hexists =>
      obtain ⟨_, t, hchanged, hchange⟩ := Action.bind_eq_ok.1 h
      obtain ⟨removed, hremove, rfl⟩ := Action.changePartly_eq_ok.1 hchanged
      obtain ⟨after, hrename, rfl⟩ := Action.change_eq_ok.1 hchange
      exact ⟨removed, after, hrename, rfl, .inr ⟨hexists, hremove⟩⟩
    · obtain ⟨after, hrename, rfl⟩ := Action.change_eq_ok.1 h
      exact ⟨s.files, after, hrename, rfl, .inl rfl⟩
  have hkeeps : Keeps (fun _ => True) removed s.files := by
    obtain rfl | ⟨-, hremove⟩ := hcases
    · exact .refl _ _
    · exact keeps_removeTree hremove
  have hclosed' := hclosed.of_keeps hkeeps
  obtain ⟨dir, last, place, e, hleads, hend, hplace, hlocation, he, hmove⟩ :=
    exists_leads_of_rename hname hrename
  have hin : ∀ n ∈ dir ++ [last], S n := hlocation ▸ hclosed'.location
    (fun segment hmem => hspelled segment (mem_segments_of_mem_entrySegments hmem)) hplace
  have hout : ¬ ∀ n ∈ dir ++ [name], S n := fun hall => hidden (hall name (by simp))
  have hleads' := hleads.of_keeps_all hkeeps
  have he' := hkeeps.entries _ _ (fun _ _ => trivial) he
  obtain rfl := hstaged dir e he'
  obtain heq | ⟨hmove, hyields, rfl⟩ := hmove
  · exact absurd (heq ▸ hin) hout
  refine ⟨dir, last, hleads', he', hin, ?_, ?_⟩
  · obtain ⟨hbelow, habove⟩ := hmove.not_prefix
    obtain rfl | ⟨hexists, hremove⟩ := hcases
    · exact .of_move hmove
    · exact (Moved.of_move hmove).of_removed hkeeps.origin.symm habove hbelow
        (get?_of_removeTree hleads' hend hexists hremove hleads (he ▸ Option.some_ne_none _)
          hyields)
  · have hdir : (removed.move (dir ++ [name]) (dir ++ [last])).get? (dir ++ [last]) =
        some .directory := by
      have hinside := (Moved.of_move hmove).inside []
      rwa [List.append_nil, List.append_nil, he] at hinside
    exact (hclosed'.leads (keeps_move hmove hout he hyields) hspelled hleads).resolve_present
      (.inl rfl) (.inl rfl) hdir

end

end AndroidResources
