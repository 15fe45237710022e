import AndroidResources.Proofs.Merge.Outcome

/-!
# What a merge leaves that fails

A merge removes the old output first, and moves the new one to its place before it moves a manifest
that is not below it.

* `Action.FailsLike` : an action that fails as far as others go that leave something out;
* `Publishes`, `Remains` : the merge up to the last move, and the merge without moves;
* `rehearsed_runWith`, `not_remains` : without moves nothing comes to the output;
* `run_failed` : where the output is after a merge that fails.
-/

namespace AndroidResources

namespace Action

variable {α β : Type} {s s' : BuildState}

/-- Where the action fails, it leaves what `first` leaves. That has either succeeded, or it has
failed as the action did and leaves what `second` leaves. -/
def FailsLike (act first second : Action α) (s : BuildState) : Prop :=
  ∀ e s', act.perform s = (.error e, s') →
    (∃ a, first.perform s = (.ok a, s')) ∨
      first.perform s = (.error e, s') ∧ (second.perform s).2 = s'

namespace FailsLike

theorem bind {x : Action α} {f g h : α → Action β}
    (hrest : ∀ a t, x.perform s = (.ok a, t) → FailsLike (f a) (g a) (h a) t) :
    FailsLike (x >>= f) (x >>= g) (x >>= h) s := by
  intro e s' hfail
  simp only [perform_bind] at hfail ⊢
  cases hx : x.perform s with
  | mk r t =>
    rw [hx] at hfail
    cases r with
    | error e' => exact .inr ⟨hfail, (Prod.mk.inj hfail).2⟩
    | ok a => exact hrest a t hx e s' hfail

theorem thenAlways {x y z : Action α} (h : FailsLike x y z s) (cleanUp : FileSystem → FileSystem) :
    FailsLike (x.thenAlways cleanUp) (y.thenAlways cleanUp) (z.thenAlways cleanUp) s := by
  intro e s' hfail
  obtain ⟨t, hx, rfl⟩ := thenAlways_eq.1 hfail
  obtain ⟨a, hy⟩ | ⟨hy, hz⟩ := h e t hx
  · exact .inl ⟨a, thenAlways_eq.2 ⟨t, hy, rfl⟩⟩
  · refine .inr ⟨thenAlways_eq.2 ⟨t, hy, rfl⟩, ?_⟩
    rw [perform_thenAlways, hz]

theorem bind_pure {x y z : Action α} (h : FailsLike x y z s) (b : β) :
    FailsLike (x >>= fun _ => pure b) (y >>= fun _ => pure b) (z >>= fun _ => pure b) s := by
  intro e s' hfail
  rw [perform_bind] at hfail
  cases hx : x.perform s with
  | mk r t =>
    rw [hx] at hfail
    cases r with
    | ok a => cases hfail
    | error e' =>
      cases hfail
      obtain ⟨a, hy⟩ | ⟨hy, hz⟩ := h e s' hx
      · exact .inl ⟨b, bind_eq_ok.2 ⟨a, s', hy, rfl⟩⟩
      · refine .inr ⟨by rw [perform_bind, hy], ?_⟩
        rw [perform_bind_pure, hz]

theorem withTemporary {parent blamed : Path} {mentioned : List Path} {f g h : Path → Action α}
    (hbody : ∀ dir t, FailsLike (f dir) (g dir) (h dir) t) :
    FailsLike (withTemporary parent blamed mentioned f) (withTemporary parent blamed mentioned g)
      (withTemporary parent blamed mentioned h) s := by
  unfold AndroidResources.withTemporary
  exact .bind fun name t _ => .bind fun u t' _ => (hbody _ t').thenAlways _

end FailsLike

end Action

namespace ResourceMerge

open FileSystem

variable {m : ResourceMerge} {output : Path} {manifest? : Option Path} {s : BuildState}

/-- Leaves what has been staged where it is. -/
def skip (_ _ : Path) : Action Unit :=
  pure ()

theorem move_failsLike (staged destination : Path) (s : BuildState) :
    Action.FailsLike (move staged destination) (move staged destination) (skip staged destination)
      s := by
  intro e s' hfail
  obtain rfl := Action.change_eq_error hfail
  exact .inr ⟨hfail, rfl⟩

theorem moves_failsLike (staged destination staged' destination' : Path) (s : BuildState) :
    Action.FailsLike (move staged destination >>= fun _ => move staged' destination')
      (move staged destination >>= fun _ => skip staged' destination')
      (skip staged destination >>= fun _ => skip staged' destination') s := by
  intro e s' hfail
  rw [Action.perform_bind] at hfail
  cases hfirst : (move staged destination).perform s with
  | mk r t =>
    rw [hfirst] at hfail
    cases r with
    | ok u =>
      obtain rfl := Action.change_eq_error hfail
      exact .inl ⟨(), Action.bind_eq_ok.2 ⟨u, s', hfirst, rfl⟩⟩
    | error e' =>
      cases hfail
      obtain rfl := Action.change_eq_error hfirst
      exact .inr ⟨by rw [Action.perform_bind, hfirst], rfl⟩

theorem stageManifest_failsLike (m : ResourceMerge) (output staging : Path)
    (manifest? : Option Path) (s : BuildState) :
    Action.FailsLike (m.stageManifest output staging manifest? (move staging output) move)
      (m.stageManifest output staging manifest? (move staging output) skip)
      (m.stageManifest output staging manifest? (skip staging output) skip) s := by
  unfold stageManifest
  cases manifest? with
  | none => exact move_failsLike staging output s
  | some manifest =>
    cases hstrip : Path.stripBase? output manifest with
    | some steps =>
      simp only [hstrip]
      exact .bind fun _ t _ => move_failsLike staging output t
    | none =>
      simp only [hstrip]
      refine .bind fun _ t _ => .withTemporary fun dir t => .bind fun _ t _ => ?_
      exact moves_failsLike staging output (dir.join ⟨manifest.fileName?.getD defaultManifestName⟩) manifest t

theorem runWith_failsLike (m : ResourceMerge) (output : Path) (manifest? : Option Path)
    (s : BuildState) :
    Action.FailsLike (m.runWith output manifest? move move) (m.runWith output manifest? move skip)
      (m.runWith output manifest? skip skip) s := by
  have hrebuild : ∀ t, Action.FailsLike (m.rebuild output manifest? move move)
      (m.rebuild output manifest? move skip) (m.rebuild output manifest? skip skip) t := fun t => by
    refine .bind fun plan t _ => .bind fun _ t _ => .bind_pure (.withTemporary fun staging t => ?_) _
    exact .bind fun _ t _ => stageManifest_failsLike m output staging manifest? t
  unfold runWith
  refine .bind fun b t _ => ?_
  cases b with
  | false => exact hrebuild t
  | true => exact .bind fun _ t _ => hrebuild t

/-! ## After the output has been published -/

section Published

variable {manifest : Path} {fs removed made staged above opened s s₁ : FileSystem} {plan : MergePlan}
  {l l' : Location} {name name' : Text} {calls : List ManifestCall}

theorem Opened.pathExists (hstaged : m.Staged output (some manifest) plan removed made staged l name)
    (hopened : m.Opened output manifest staged above opened l name l' name')
    (hsame : Besides (l' ++ [name']) opened s) (hdir : s.get? (l' ++ [name']) = some .directory)
    (hrename : s.rename ((stagingParent output).join ⟨name⟩) output = .ok s₁) :
    (((s₁.removeTree ((stagingParent manifest).join ⟨name'⟩)).1).removeTree
      ((stagingParent output).join ⟨name⟩)).1.pathExists output = true := by
  have hadds := createDirectories_adds hopened.createDirectories
  have habove : above.get? (l ++ [name]) = some .directory :=
    hadds.get?_of_some hstaged.holds.directory_self
  obtain ⟨hapart, hapart'⟩ := hopened.apart habove
  have htemp := hopened.output.of_apart hsame hopened.manifest.not_spelled
  have htemp' := hopened.manifest.of_besides hsame
  have hstaging : s.get? (l ++ [name]) = some .directory := by
    rw [hsame.entries _ hapart', hopened.besides.entries _ hapart', habove]
  have houtput := hopened.segments hstaged (m.output_mem_mentioned ..)
  obtain ⟨place, hplace, -, hspelled, hmove, hyields, rfl⟩ :=
    htemp.rename hstaging houtput hrename
  have hkeeps := keeps_move hmove htemp.not_spelled hstaging hyields
  have hdestination : (s.move (l ++ [name]) place.location).get? place.location = some .directory := by
    obtain ⟨rest, heq, hrest⟩ := (get?_move_cases hmove _).1 (List.prefix_refl _)
    rw [hrest, List.self_eq_append_right.1 heq, List.append_nil, hstaging]
  have hgone : (s.move (l ++ [name]) place.location).get? (l ++ [name]) = none :=
    (get?_move_cases hmove _).2.1 hmove.not_prefix.2 (List.prefix_refl _)
  have hunled : ¬ l' ++ [name'] <+: place.location := fun hp =>
    (hspelled name' (hp.subset (by simp))).2 rfl
  have hleft : (s.move (l ++ [name]) place.location).get? (l' ++ [name']) = some .directory := by
    rw [(get?_move_cases hmove _).2.2 ?_ hapart, hdir]
    rintro ⟨rest, hrest⟩
    by_cases hnil : rest = []
    · exact hunled (by rw [← hrest, hnil, List.append_nil])
    · have hbelow := hyields.get?_below hnil
      rw [hrest, hdir] at hbelow
      cases hbelow
  generalize s.move (l ++ [name]) place.location = s₁ at *
  have hleads : s₁.Leads (stagingParent manifest) l' [] :=
    htemp'.closed.leads hkeeps htemp'.spelled htemp'.leads
  have hclear : (s₁.clear (l' ++ [name'])).Leads (stagingParent manifest) l' [] :=
    htemp'.closed.leads (hkeeps.trans ((Besides.clear s₁ _).keeps htemp'.not_spelled))
      htemp'.spelled htemp'.leads
  obtain ⟨hsame₂, -⟩ := hleads.removeTree_child htemp'.isName hclear hleft
  generalize (s₁.removeTree ((stagingParent manifest).join ⟨name'⟩)).1 = s₂ at *
  have hkeeps₂ := hkeeps.trans (hsame₂.keeps htemp'.not_spelled)
  have hleads₂ : s₂.Leads (stagingParent output) l [] :=
    htemp.closed.leads hkeeps₂ htemp.spelled htemp.leads
  rw [hleads₂.removeTree_child_of_none htemp.isName (by rw [hsame₂.entries _ hapart', hgone])]
  have hdestination₂ : s₂.get? place.location = some .directory := by
    rw [hsame₂.entries _ hunled, hdestination]
  have hentry : s₂.resolveEntry output = .ok (.present place.location) :=
    htemp.closed.resolve hkeeps₂
      (fun segment hmem => houtput segment (mem_segments_of_mem_entrySegments hmem)) hplace
      (.inr hdestination₂)
  exact pathExists_iff.2 ⟨_, resolve_of_resolveEntry hentry hdestination₂⟩

end Published

/-! ## Without publishing -/

section Rehearsal

variable {l : Location} {name : Text} {files : List Text → Option ByteArray}

/-- The temporary directory is still there, and the output is as it has been. -/
structure Rehearsed (output : Path) (l : Location) (name : Text) (fs fs' : FileSystem) : Prop where
  temporary : ∃ S, Temporary S fs' (stagingParent output) l name
  directory : fs'.get? (l ++ [name]) = some .directory
  spares : Spares (fs.spelled output) fs fs'

namespace Rehearsed

variable {S : Text → Prop} {fs fs' : FileSystem}

theorem of_besides (htemp : Temporary S fs (stagingParent output) l name)
    (houtput : ∀ segment ∈ output.segments, S segment) (hsame : Besides (l ++ [name]) fs fs')
    (hdir : fs'.get? (l ++ [name]) = some .directory) : Rehearsed output l name fs fs' :=
  ⟨⟨S, htemp.of_besides hsame⟩, hdir, .of_besides hsame fun hp =>
    htemp.hidden (htemp.closed.spelled houtput name (hp.subset (by simp)))⟩

theorem of_adds {P : Location → Prop} (htemp : Temporary S fs (stagingParent output) l name)
    (hdir : fs.get? (l ++ [name]) = some .directory) (hadds : AddsDirectories P fs fs')
    (hnot : ¬ P (fs.spelled output)) : Rehearsed output l name fs fs' :=
  ⟨⟨S, htemp.of_adds hadds⟩, hadds.get?_of_some hdir, .of_adds hadds hnot⟩

theorem after {mid : FileSystem} (h : Rehearsed output l name mid fs')
    (hspares : Spares (fs.spelled output) fs mid) : Rehearsed output l name fs fs' := by
  refine ⟨h.temporary, h.directory, hspares.trans ?_⟩
  rw [← spelled_congr hspares.origin]
  exact h.spares

end Rehearsed

theorem rehearsed_manifest {manifest : Path} (output staging : Path) (hmerger : m.merger.Confined)
    (hdir : s.files.isDirectory (stagingParent manifest) = true) :
    ∃ l, Besides (l ++ [s.files.freshName (m.mentioned output (some manifest))]) s.files
      ((withTemporary (stagingParent manifest) manifest (m.mentioned output (some manifest))
        fun dir => do
          let staged := dir.join ⟨manifest.fileName?.getD defaultManifestName⟩
          mergeManifests m.merger m.kind m.sets staged
          skip staging output
          skip staged manifest).perform s).2.files := by
  have hmanifest : manifest ∈ m.mentioned output (some manifest) := manifest_mem_mentioned rfl
  refine withTemporary_besides rfl hdir (not_mem_segments_stagingParent (isName_freshName ..)
    (freshName_not_mem_segments s.files hmanifest)) fun l files htemp hempty => ?_
  unfold skip Action.KeepsTo
  simp only [pure_bind]
  rw [Action.perform_bind_pure]
  have hleads := (htemp.leads.into htemp.isName hempty.directory_self).child
    (isName_fileName?_getD manifest)
  exact mergeManifests_besides m.kind m.sets (s := { s with files := files }) hmerger hleads
    (hempty.noLinks _) (by simp)

theorem rehearsed_beside {manifest staging : Path} (hmerger : m.merger.Confined)
    (htemp : Temporary (· ≠ name) s.files (stagingParent output) l name)
    (hdir : s.files.get? (l ++ [name]) = some .directory)
    (hdirect : s.files.Direct manifest) (hstrip : Path.stripBase? output manifest = none)
    (hbeside : ¬ s.files.spelled output <+: s.files.spelled manifest) :
    Rehearsed output l name s.files ((m.stageManifest output staging (some manifest)
      (skip staging output) skip).perform s).2.files := by
  unfold stageManifest
  simp only [hstrip]
  have hadds := createDirectories_above hdirect
  have hnot : ¬ Above (s.files.spelled manifest) (s.files.spelled output) := fun h => hbeside h.1
  have hfiles : ((Action.createDirectories (stagingParent manifest)).perform s).2.files =
      (s.files.createDirectories (stagingParent manifest)).1 := rfl
  rw [← hfiles] at hadds
  rw [Action.perform_bind]
  cases hcreate : (Action.createDirectories (stagingParent manifest)).perform s with
  | mk r t =>
    rw [hcreate] at hadds
    cases r with
    | error e => exact .of_adds htemp hdir hadds hnot
    | ok u =>
      have hdirectory : t.files.isDirectory (stagingParent manifest) = true := by
        obtain ⟨files, hmake, rfl⟩ := Action.changePartly_eq_ok.1 hcreate
        exact isDirectory_of_createDirectories (text_stagingParent manifest) hmake
      obtain ⟨l', hsame⟩ := rehearsed_manifest output staging hmerger hdirectory
      have habove := hadds.get?_of_some hdir
      have hunused := freshName_not_mem_location (m.mentioned output (some manifest)) habove
      have hclosed := closed_freshName t.files (m.mentioned output (some manifest))
      have hisName := isName_freshName t.files (m.mentioned output (some manifest))
      have hfresh := freshName_not_mem_segments t.files (m.output_mem_mentioned output (some manifest))
      generalize t.files.freshName (m.mentioned output (some manifest)) = name' at *
      have hparent : ∀ segment ∈ (stagingParent output).segments, segment ≠ name' :=
        fun segment hsegment => ne_of_mem_of_not_mem hsegment
          (not_mem_segments_stagingParent hisName hfresh)
      refine ⟨⟨_, ((htemp.of_adds hadds).inter hclosed hparent).of_apart hsame fun hall =>
        (hall name' (by simp)).2 rfl⟩, ?_, (Spares.of_adds hadds hnot).trans (.of_besides hsame ?_)⟩
      · exact (hsame.entries _ fun hp => hunused (hp.subset (by simp))).trans habove
      · intro hp
        rw [← spelled_congr hadds.origin] at hp
        exact hclosed.spelled (fun segment hsegment => ne_of_mem_of_not_mem hsegment hfresh) name'
          (hp.subset (by simp)) rfl

/-- Output and manifest are written without double dots and without links on the way, and the
manifest is not at the output, nor below it but where it is written so. -/
structure Plain (output : Path) (manifest? : Option Path) (fs : FileSystem) : Prop where
  named : namesEntry output = true
  direct : fs.Direct output
  directManifest : ∀ manifest ∈ manifest?, fs.Direct manifest
  below : ∀ manifest ∈ manifest?, fs.spelled output <+: fs.spelled manifest →
    fs.spelled manifest ≠ fs.spelled output ∧ (Path.stripBase? output manifest).isSome = true

theorem Plain.names_ne_nil {fs : FileSystem} (h : Plain output manifest? fs) :
    Path.properNames output.segments ≠ [] := by
  obtain ⟨names, name, hnames⟩ := exists_names_of_namesEntry h.named
  rw [hnames]
  simp

theorem Plain.of_direct {fs fs' : FileSystem} (h : Plain output manifest? fs)
    (horigin : fs'.workingDirectory = fs.workingDirectory)
    (hdirect : ∀ p ∈ m.mentioned output manifest?, fs.Direct p → fs'.Direct p) :
    Plain output manifest? fs' := by
  refine ⟨h.named, hdirect _ (m.output_mem_mentioned ..) h.direct, fun manifest hmem =>
    hdirect _ (manifest_mem_mentioned hmem) (h.directManifest manifest hmem), fun manifest hmem => ?_⟩
  rw [spelled_congr horigin, spelled_congr horigin]
  exact h.below manifest hmem

theorem rehearsed_stageManifest (hmerger : m.merger.Confined)
    (htemp : Temporary (· ≠ name) s.files (stagingParent output) l name)
    (hfiles : s.files.Holds (l ++ [name]) files) (hfresh : name ∉ output.segments)
    (hplain : Plain output manifest? s.files) :
    Rehearsed output l name s.files ((m.stageManifest output ((stagingParent output).join ⟨name⟩)
      manifest? (skip ((stagingParent output).join ⟨name⟩) output) skip).perform s).2.files := by
  have houtput : ∀ segment ∈ output.segments, segment ≠ name := fun segment hsegment =>
    ne_of_mem_of_not_mem hsegment hfresh
  cases manifest? with
  | none => exact .of_besides htemp houtput (.refl _ _) hfiles.directory_self
  | some manifest =>
    cases hstrip : Path.stripBase? output manifest with
    | none =>
      refine rehearsed_beside hmerger htemp hfiles.directory_self (hplain.directManifest manifest rfl) hstrip
        fun hbelow => ?_
      have := (hplain.below manifest rfl hbelow).2
      rw [hstrip] at this
      cases this
    | some steps =>
      obtain ⟨rest, hsteps, hisName, hspelled⟩ :=
        exists_of_stripBase? hplain.direct (hplain.directManifest manifest rfl) hplain.names_ne_nil hstrip
      have hne : rest ≠ [] := by
        rintro rfl
        rw [List.append_nil] at hspelled
        exact (hplain.below manifest rfl (by rw [hspelled])).1 hspelled
      unfold stageManifest skip
      simp only [hstrip]
      rw [Action.perform_bind_pure, hsteps]
      obtain ⟨hsame, hdir⟩ := mergeManifests_besides m.kind m.sets hmerger
        (htemp.leads_ofNames hfiles.directory_self hne hisName) (hfiles.noLinks _) hne
      exact .of_besides htemp houtput hsame hdir

theorem rehearsed_copying {winners : List (List Text × Path)} {g : FileSystem}
    (hmerger : m.merger.Confined) (hplain : Plain output manifest? g)
    (hempty : s.files.Holds (l ++ [name]) fun _ => none) (hsame : Besides (l ++ [name]) g s.files)
    (htemp : Temporary (· ≠ name) s.files (stagingParent output) l name)
    (hfresh : ∀ p ∈ m.mentioned output manifest?, name ∉ p.segments)
    (hwinners : ∀ winner ∈ winners, winner.1 ≠ [] ∧ (∀ n ∈ winner.1, IsName n) ∧
      ∀ segment ∈ winner.2.segments, segment ≠ name) :
    Rehearsed output l name g ((do
      copyWinners winners ((stagingParent output).join ⟨name⟩)
      m.stageManifest output ((stagingParent output).join ⟨name⟩) manifest?
        (skip ((stagingParent output).join ⟨name⟩) output) skip).perform s).2.files := by
  have hmentioned : ∀ p ∈ m.mentioned output manifest?, ∀ segment ∈ p.segments, segment ≠ name :=
    fun p hp segment hsegment => ne_of_mem_of_not_mem hsegment (hfresh p hp)
  have hclosed := htemp.closed.of_besides hsame.symm htemp.not_spelled
  have hunled : ∀ p ∈ m.mentioned output manifest?, ¬ l ++ [name] <+: g.spelled p := fun p hp hbelow =>
    hclosed.spelled (hmentioned p hp) name (hbelow.subset (by simp)) rfl
  obtain ⟨hcopied, hdir⟩ := copyWinners_besides htemp hempty hwinners
  have hspares : Spares (g.spelled output) g
      ((copyWinners winners ((stagingParent output).join ⟨name⟩)).perform s).2.files :=
    .of_besides (hsame.trans hcopied) (hunled output (m.output_mem_mentioned ..))
  rw [Action.perform_bind]
  cases hcopy : (copyWinners winners ((stagingParent output).join ⟨name⟩)).perform s with
  | mk r t =>
    rw [hcopy] at hcopied hdir hspares
    cases r with
    | error e => exact ⟨⟨_, htemp.of_besides hcopied⟩, hdir, hspares⟩
    | ok u =>
      obtain ⟨-, -, hholds⟩ := copyWinners_holds htemp hempty (.refl _ _) hwinners hcopy
      exact (rehearsed_stageManifest hmerger (htemp.of_besides hcopied) hholds
        (hfresh output (m.output_mem_mentioned ..)) (hplain.of_direct hspares.origin fun p hp hdirect =>
          hdirect.of_besides (hsame.trans hcopied) (hunled p hp))).after hspares

/-- Whatever goes wrong, nothing comes to the output that is not moved there. -/
theorem rehearsed_rebuild {removed : FileSystem} {calls : List ManifestCall}
    (hmerger : m.merger.Confined) (hplain : Plain output manifest? removed) :
    Spares (removed.spelled output) removed
      ((m.rebuild output manifest? skip skip).perform ⟨removed, calls⟩).2.files := by
  have hadds := createDirectories_above hplain.direct
  have hnot : ¬ Above (removed.spelled output) (removed.spelled output) := fun h => h.2 rfl
  unfold rebuild
  rw [Action.perform_bind, Action.perform_inspect]
  cases hmake : MergePlan.make removed m.config m.sets with
  | error e => exact .refl _ _
  | ok plan =>
    have hfiles : ((Action.createDirectories (stagingParent output)).perform ⟨removed, calls⟩).2.files =
        (removed.createDirectories (stagingParent output)).1 := rfl
    rw [← hfiles] at hadds
    simp only
    rw [Action.perform_bind]
    cases hcreate : (Action.createDirectories (stagingParent output)).perform ⟨removed, calls⟩ with
    | mk r t =>
      rw [hcreate] at hadds
      cases r with
      | error e => exact .of_adds hadds hnot
      | ok u =>
        simp only at hadds ⊢
        rw [Action.perform_bind_pure]
        have hspares := Spares.of_adds hadds hnot
        have hdirectory : t.files.isDirectory (stagingParent output) = true := by
          obtain ⟨files, hmade, rfl⟩ := Action.changePartly_eq_ok.1 hcreate
          exact isDirectory_of_createDirectories (text_stagingParent output) hmade
        have houtput := m.output_mem_mentioned output manifest?
        have hfresh : ∀ p ∈ m.mentioned output manifest?,
            t.files.freshName (m.mentioned output manifest?) ∉ p.segments := fun p hp =>
          freshName_not_mem_segments t.files hp
        obtain ⟨l, files, htemp, hsame, -, hempty, hperform⟩ := withTemporary_fresh rfl hdirectory
          (not_mem_segments_stagingParent (isName_freshName ..) (hfresh output houtput))
        have hrehearsed := rehearsed_copying (s := ⟨files, t.calls⟩) hmerger
          (hplain.of_direct (m := m) hadds.origin fun p _ hdirect => hdirect.of_adds hadds) hempty hsame htemp
          hfresh (winners_spelled hmake hadds output manifest?)
        rw [hperform, Action.perform_thenAlways]
        obtain ⟨⟨S, htemp'⟩, hleft, hspares'⟩ := hrehearsed
        rw [spelled_congr hadds.origin] at hspares'
        refine hspares.trans (hspares'.trans (.of_besides (htemp'.removeTree hleft).1 fun hp => ?_))
        rw [← spelled_congr hadds.origin] at hp
        exact (closed_freshName t.files (m.mentioned output manifest?)).spelled
          (fun segment hsegment => ne_of_mem_of_not_mem hsegment (hfresh output houtput)) _
          (hp.subset (by simp)) rfl

theorem rehearsed_runWith {fs : FileSystem} {calls : List ManifestCall} (hmerger : m.merger.Confined)
    (hplain : Plain output manifest? (withoutOutput fs output)) :
    Spares ((withoutOutput fs output).spelled output) (withoutOutput fs output)
      ((m.runWith output manifest? skip skip).perform ⟨fs, calls⟩).2.files := by
  unfold runWith
  rw [Action.perform_bind, Action.perform_ask]
  cases hexists : fs.pathExists output with
  | false =>
    have hsame : withoutOutput fs output = fs := if_neg (by simp [hexists])
    rw [hsame] at hplain ⊢
    exact rehearsed_rebuild hmerger hplain
  | true =>
    have hremoved : withoutOutput fs output = (fs.removeTree output).1 := if_pos hexists
    have hfiles : ((Action.changePartly output (·.removeTree output)).perform ⟨fs, calls⟩).2 =
        ⟨withoutOutput fs output, calls⟩ := by
      rw [hremoved]
      rfl
    simp only [if_true]
    rw [Action.perform_bind]
    cases hremove : (Action.changePartly output (·.removeTree output)).perform ⟨fs, calls⟩ with
    | mk r t =>
      rw [hremove] at hfiles
      obtain rfl : t = ⟨withoutOutput fs output, calls⟩ := hfiles
      cases r with
      | error e => exact .refl _ _
      | ok u => exact rehearsed_rebuild hmerger hplain

end Rehearsal

/-! ## The whole merge -/

/-- All is done but for the move of a manifest that is not below the output: the output has been
published. -/
def Publishes (m : ResourceMerge) (output : Path) (manifest? : Option Path) (fs : FileSystem) : Prop :=
  ∃ report, ((m.runWith output manifest? move skip).onFiles fs).1 = .ok report

/-- The output is there although nothing has been moved to it. -/
def Remains (m : ResourceMerge) (output : Path) (manifest? : Option Path) (fs : FileSystem) : Prop :=
  ((m.runWith output manifest? skip skip).onFiles fs).2.pathExists output = true

/-- Only a manifest that is not below the output is put in place on its own. -/
theorem runWith_of_within {publish place place' : Path → Path → Action Unit}
    (h : ∀ manifest ∈ manifest?, Path.stripBase? output manifest ≠ none) :
    m.runWith output manifest? publish place = m.runWith output manifest? publish place' := by
  have hstage : ∀ staging publish, m.stageManifest output staging manifest? publish place =
      m.stageManifest output staging manifest? publish place' := by
    intro staging publish
    unfold stageManifest
    cases manifest? with
    | none => rfl
    | some manifest =>
      cases hstrip : Path.stripBase? output manifest with
      | none => exact absurd hstrip (h manifest rfl)
      | some steps => simp only [hstrip]
  unfold runWith rebuild
  simp only [hstage]

theorem get?_withoutOutput {fs : FileSystem} (hplain : Plain output manifest? fs)
    (hold : fs.get? (fs.spelled output) = none ∨ fs.get? (fs.spelled output) = some .directory) :
    (withoutOutput fs output).workingDirectory = fs.workingDirectory ∧
      ∀ k, (withoutOutput fs output).get? k = if fs.spelled output <+: k then none else fs.get? k := by
  have hdirect := hplain.direct
  have hne := hplain.names_ne_nil
  obtain hnone | hdir := hold
  · have hmissing := (Spares.refl _ fs).not_pathExists hdirect hnone
    have hsame : withoutOutput fs output = fs := if_neg (by simp [hmissing])
    rw [hsame]
    refine ⟨rfl, fun k => ?_⟩
    split
    · next hk =>
      obtain ⟨rest, rfl⟩ := hk
      exact get?_append_of_none hnone rest
    · rfl
  · obtain ⟨hexists, removed, hremove⟩ := exists_removeTree_direct hdirect hplain.named hdir
    have hremoved : withoutOutput fs output = removed := by
      unfold withoutOutput
      rw [if_pos hexists, hremove]
    rw [hremoved]
    exact removeTree_direct hdirect hne hremove

/-- With plain paths and a collaborator that keeps to its own path nothing is at the output, unless
something has been moved there. -/
theorem not_remains {fs : FileSystem} (hmerger : m.merger.Confined)
    (hplain : Plain output manifest? fs)
    (hold : fs.get? (fs.spelled output) = none ∨ fs.get? (fs.spelled output) = some .directory) :
    ¬ m.Remains output manifest? fs := by
  obtain ⟨horigin, hget⟩ := get?_withoutOutput hplain hold
  have hplain' : Plain output manifest? (withoutOutput fs output) :=
    hplain.of_direct (m := m) horigin fun p _ hdirect => hdirect.of_links horigin
      fun k target _ hlink => by
        rw [hget] at hlink
        split at hlink
        · cases hlink
        · exact hlink
  have hgone : (withoutOutput fs output).get? ((withoutOutput fs output).spelled output) = none := by
    rw [spelled_congr horigin, hget, if_pos (List.prefix_refl _)]
  unfold Remains
  rw [Action.onFiles_eq_perform,
    (rehearsed_runWith hmerger hplain').not_pathExists hplain'.direct hgone]
  simp

theorem Publishes.pathExists {manifest : Path} {fs : FileSystem} {calls : List ManifestCall}
    {report : MergeReport} {after : BuildState} (hmerger : m.merger.Confined)
    (hstrip : Path.stripBase? output manifest = none)
    (h : (m.runWith output (some manifest) move skip).perform ⟨fs, calls⟩ = (.ok report, after)) :
    after.files.pathExists output = true := by
  obtain ⟨-, -, hrebuild⟩ := runWith_eq_ok h
  obtain ⟨plan, made, staged, l, name, t, hstaged, -, hstage, rfl⟩ := rebuild_eq_ok hrebuild
  obtain ⟨above, opened, l', name', s₁, s₂, s₃, hopened, hmerge, hpublish, hplace, rfl⟩ :=
    stageManifest_beside hstaged hstrip hstage
  cases hplace
  obtain ⟨files, hrename, rfl⟩ := Action.change_eq_ok.1 hpublish
  have hmerged := mergeManifests_besides m.kind m.sets (s := ⟨opened, calls⟩) hmerger hopened.leads
    (hopened.holds.noLinks _) (by simp)
  rw [hmerge] at hmerged
  exact hopened.pathExists hstaged hmerged.1 hmerged.2 hrename

structure Failed (m : ResourceMerge) (output : Path) (manifest? : Option Path)
    (fs after : FileSystem) : Prop where
  /-- Once published, the output stays, whatever becomes of its manifest. -/
  published : m.Publishes output manifest? fs → m.merger.Confined → after.pathExists output = true
  /-- Otherwise it is there only where it is with nothing moved to it. -/
  unpublished : ¬ m.Publishes output manifest? fs →
    (after.pathExists output = true ↔ m.Remains output manifest? fs)
  /-- With plain paths and no old output but a directory this does not happen. -/
  plain : m.merger.Confined → Plain output manifest? fs →
    (fs.get? (fs.spelled output) = none ∨ fs.get? (fs.spelled output) = some .directory) →
      (after.pathExists output = true ↔ m.Publishes output manifest? fs)

/-- A merge that fails leaves an output where only the move of the manifest has gone wrong, and else
where the output is there without having been published. -/
theorem run_failed {fs after : FileSystem} {e : BuildError}
    (h : (m.run (some output) manifest?).onFiles fs = (.error e, after)) :
    m.Failed output manifest? fs after := by
  obtain ⟨calls, hperform⟩ := Action.onFiles_eq h
  rw [run_eq_runWith] at hperform
  have hpublished : m.Publishes output manifest? fs → m.merger.Confined →
      after.pathExists output = true := by
    rintro ⟨report, hreport⟩ hmerger
    obtain ⟨report', hpublished⟩ | ⟨hfailed, -⟩ :=
      runWith_failsLike m output manifest? ⟨fs, []⟩ _ _ hperform
    · -- only a manifest beside the output is moved once that has been published
      obtain ⟨manifest, rfl, hstrip⟩ : ∃ manifest, manifest? = some manifest ∧
          Path.stripBase? output manifest = none := by
        by_contra hwithin
        have hsame : m.runWith output manifest? move move = m.runWith output manifest? move skip :=
          runWith_of_within fun manifest hmem hstrip => hwithin ⟨manifest, hmem, hstrip⟩
        rw [hsame, hpublished] at hperform
        cases hperform
      exact Publishes.pathExists hmerger hstrip hpublished
    · rw [Action.onFiles_eq_perform, hfailed] at hreport
      cases hreport
  have hunpublished : ¬ m.Publishes output manifest? fs →
      (after.pathExists output = true ↔ m.Remains output manifest? fs) := by
    intro hnot
    obtain ⟨report, hreport⟩ | ⟨-, hrehearsed⟩ :=
      runWith_failsLike m output manifest? ⟨fs, []⟩ _ _ hperform
    · exact absurd ⟨report, congrArg Prod.fst hreport⟩ hnot
    · unfold Remains
      rw [Action.onFiles_eq_perform, hrehearsed]
  refine ⟨hpublished, hunpublished, fun hmerger hplain hold => ⟨fun hexists => ?_, fun hpub =>
    hpublished hpub hmerger⟩⟩
  by_contra hnot
  exact not_remains hmerger hplain hold ((hunpublished hnot).1 hexists)

/-- The manifest cannot take the place of a directory, and the output has been published by then. -/
theorem run_failed_directory :
    ∃ after, (variantMerge.run (some "out") (some "debug")).onFiles variantFiles =
        (.error (.io "debug" .isADirectory), after) ∧
      variantMerge.Failed "out" (some "debug") variantFiles after ∧
        after.pathExists "out" = true := by
  have hrun : ((variantMerge.run (some "out") (some "debug")).onFiles variantFiles).1 =
      .error (.io "debug" .isADirectory) := by
    decide +kernel
  have hpublishes : variantMerge.Publishes "out" (some "debug") variantFiles := by
    refine ⟨⟨1, ["res/values/a.xml"]⟩, ?_⟩
    decide +kernel
  generalize h : (variantMerge.run (some "out") (some "debug")).onFiles variantFiles = outcome at *
  obtain ⟨result, after⟩ := outcome
  obtain rfl := hrun
  have hfailed := run_failed h
  exact ⟨after, rfl, hfailed, hfailed.published hpublishes ManifestMerger.confined_lastDeclared⟩

end ResourceMerge

end AndroidResources
