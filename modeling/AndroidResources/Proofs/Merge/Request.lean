import AndroidResources.Proofs.Merge.Stages

/-!
# When the collaborator is asked

A merge asks its merger at one place at most: behind the plan and all copies, if there is an output.

* `Action.Quiet` : an action that calls no merger;
* `Action.Ignores`, `Action.Asks` : an action that has one and does not ask it, or asks it once;
* `mergeManifests_asks` : the manifests of source sets are merged by one call, if there are any;
* `ResourceMerge.Route` : where a merge into an output directory asks, and what it cleans up;
* `ResourceMerge.MayAsk`, `ResourceMerge.run_mayAsk` : it does not depend on its merger, or comes by
  there.
-/

namespace AndroidResources

namespace Action

variable {α β : Type} {s t : BuildState}

/-- The action calls no merger. -/
def Quiet (act : Action α) : Prop :=
  ∀ s, (act.perform s).2.calls = s.calls

namespace Quiet

theorem perform_eq {act : Action α} (h : Quiet act) (s : BuildState) :
    act.perform s = ((act.perform s).1, ⟨(act.perform s).2.files, s.calls⟩) :=
  Prod.ext rfl (congrArg (BuildState.mk _) (h s))

theorem pure (a : α) : Quiet (Pure.pure a : Action α) := fun _ => rfl

theorem change (blamed : Path) (operation : FileSystem → Except IoFault FileSystem) :
    Quiet (Action.change blamed operation) := fun s => by
  rw [perform_change]
  cases operation s.files <;> rfl

theorem changePartly (blamed : Path) (operation : FileSystem → FileSystem × Option IoFault) :
    Quiet (Action.changePartly blamed operation) := fun _ => rfl

theorem bind {x : Action α} {f : α → Action β} (hx : Quiet x) (hf : ∀ a, Quiet (f a)) :
    Quiet (x >>= f) := fun s => by
  have hcalls := hx s
  rw [perform_bind]
  cases hperform : x.perform s with
  | mk r t =>
    rw [hperform] at hcalls
    cases r with
    | error e => exact hcalls
    | ok a => exact (hf a t).trans hcalls

theorem copyInto (source destination : Path) :
    Quiet (AndroidResources.copyInto source destination) := by
  refine .bind ?_ fun _ => change _ _
  unfold createParent
  split
  · exact changePartly _ _
  · exact pure _

end Quiet

/-! ## Actions with a merger -/

variable {act act' : ManifestMerger → Action α} {call : ManifestCall} {target : Path}
  {seen : FileSystem} {cleanUp : FileSystem → FileSystem}

/-- Whatever merger there is, the action does the same and calls none. -/
def Ignores (act : ManifestMerger → Action α) (s : BuildState) : Prop :=
  ∃ result files, ∀ merger, (act merger).perform s = (result, ⟨files, s.calls⟩)

/-- Whatever merger there is, the action calls it once, to write to `target` when the files are
those of `seen`. Where it fails, so does the action, and all that is done after that is to clean
up. -/
structure Asks (act : ManifestMerger → Action α) (s : BuildState) (call : ManifestCall)
    (target : Path) (seen : FileSystem) (cleanUp : FileSystem → FileSystem) : Prop where
  calls : ∀ merger, ((act merger).perform s).2.calls = s.calls ++ [call]
  fault : ∀ merger e after, merger call target seen = (.error e, after) →
    (act merger).perform s = (.error e, ⟨cleanUp after, s.calls ++ [call]⟩)

namespace Ignores

theorem of_perform (h : Ignores act' t) (hcalls : t.calls = s.calls)
    (hperform : ∀ merger, (act merger).perform s = (act' merger).perform t) : Ignores act s := by
  obtain ⟨result, files, hsame⟩ := h
  exact ⟨result, files, fun merger => by rw [hperform, hsame, hcalls]⟩

theorem thenAlways (h : Ignores act s) (cleanUp : FileSystem → FileSystem) :
    Ignores (fun merger => (act merger).thenAlways cleanUp) s := by
  obtain ⟨result, files, hsame⟩ := h
  exact ⟨result, cleanUp files, fun merger => by rw [perform_thenAlways, hsame]⟩

theorem bind (h : Ignores act s) {f : α → Action β} (hf : ∀ a, Quiet (f a)) :
    Ignores (fun merger => act merger >>= f) s := by
  obtain ⟨result, files, hsame⟩ := h
  cases result with
  | error e => exact ⟨.error e, files, fun merger => by rw [perform_bind, hsame]⟩
  | ok a =>
    exact ⟨_, _, fun merger => by rw [perform_bind, hsame]; exact (hf a).perform_eq _⟩

end Ignores

namespace Asks

theorem of_perform (h : Asks act' t call target seen cleanUp) (hcalls : t.calls = s.calls)
    (hperform : ∀ merger, (act merger).perform s = (act' merger).perform t) :
    Asks act s call target seen cleanUp := by
  refine ⟨fun merger => ?_, fun merger e after hfail => ?_⟩
  · rw [hperform, h.calls, hcalls]
  · rw [hperform, h.fault merger e after hfail, hcalls]

theorem thenAlways (h : Asks act s call target seen cleanUp) (last : FileSystem → FileSystem) :
    Asks (fun merger => (act merger).thenAlways last) s call target seen fun fs =>
      last (cleanUp fs) := by
  refine ⟨fun merger => ?_, fun merger e after hfail => ?_⟩
  · rw [perform_thenAlways]
    exact h.calls merger
  · rw [perform_thenAlways, h.fault merger e after hfail]

theorem bind (h : Asks act s call target seen cleanUp) {f : α → Action β} (hf : ∀ a, Quiet (f a)) :
    Asks (fun merger => act merger >>= f) s call target seen cleanUp := by
  refine ⟨fun merger => ?_, fun merger e after hfail => ?_⟩
  · have hcalls := h.calls merger
    rw [perform_bind]
    cases hperform : (act merger).perform s with
    | mk r t =>
      rw [hperform] at hcalls
      cases r with
      | error e => exact hcalls
      | ok a => exact (hf a t).trans hcalls
  · rw [perform_bind, h.fault merger e after hfail]

end Asks

theorem ignores_of_error {x : Action β} {f : ManifestMerger → β → Action α} {e : BuildError}
    (hx : x.perform s = (.error e, t)) (hcalls : t.calls = s.calls) :
    Ignores (fun merger => x >>= f merger) s :=
  ⟨.error e, t.files, fun merger => by rw [perform_bind, hx, ← hcalls]⟩

end Action

open FileSystem

/-! ## The manifests of source sets -/

/-- The manifests, the one that was declared last in front, make up the one call, if there are
any. -/
theorem manifestCall?_eq_some {kind : MergeKind} {sets : List SourceSet} {call : ManifestCall} :
    SourceSet.manifestCall? kind sets = some call ↔
      call.kind = kind ∧ call.main :: call.overlays = (sets.filterMap (·.manifest?)).reverse := by
  unfold SourceSet.manifestCall?
  split
  · next hnone => simp [hnone]
  · next main overlays hsome =>
    rw [hsome, Option.some.injEq]
    constructor
    · rintro rfl
      exact ⟨rfl, rfl⟩
    · rintro ⟨rfl, heq⟩
      obtain ⟨rfl, rfl⟩ := List.cons.inj heq
      rfl

theorem manifestCall?_eq_none {kind : MergeKind} {sets : List SourceSet} :
    SourceSet.manifestCall? kind sets = none ↔ ∀ set ∈ sets, set.manifest? = none := by
  unfold SourceSet.manifestCall?
  rw [← List.filterMap_eq_nil_iff, ← List.reverse_eq_nil_iff]
  split
  · next hnone => simp [hnone]
  · next main overlays hsome => simp [hsome]

theorem perform_mergeManifests {merger : ManifestMerger} {kind : MergeKind} {sets : List SourceSet}
    {call : ManifestCall} (hcall : SourceSet.manifestCall? kind sets = some call) (target : Path)
    (s : BuildState) : (mergeManifests merger kind sets target).perform s =
      ((merger call target s.files).1, ⟨(merger call target s.files).2, s.calls ++ [call]⟩) := by
  unfold mergeManifests
  rw [hcall]
  rfl

theorem perform_mergeManifests_of_none {merger : ManifestMerger} {kind : MergeKind}
    {sets : List SourceSet} (hcall : SourceSet.manifestCall? kind sets = none) (target : Path)
    (s : BuildState) :
    (mergeManifests merger kind sets target).perform s = (.error .missingManifest, s) := by
  unfold mergeManifests
  rw [hcall]
  rfl

theorem mergeManifests_asks (kind : MergeKind) (sets : List SourceSet) (target : Path)
    (s : BuildState) :
    Action.Ignores (mergeManifests · kind sets target) s ∨
      ∃ call, SourceSet.manifestCall? kind sets = some call ∧
        Action.Asks (mergeManifests · kind sets target) s call target s.files fun fs => fs := by
  cases hcall : SourceSet.manifestCall? kind sets with
  | none => exact .inl ⟨_, _, fun merger => perform_mergeManifests_of_none hcall target s⟩
  | some call =>
    refine .inr ⟨call, rfl, fun merger => ?_, fun merger e after hfail => ?_⟩
    · rw [perform_mergeManifests hcall]
    · rw [perform_mergeManifests hcall, hfail]

namespace ResourceMerge

variable {m : ResourceMerge} {output manifest : Path} {manifest? : Option Path}
  {fs removed made staged : FileSystem} {plan : MergePlan} {l : Location} {name : Text}
  {calls : List ManifestCall}

theorem quiet_copyWinners (winners : List (List Text × Path)) (dir : Path) :
    (copyWinners winners dir).Quiet := by
  induction winners with
  | nil => exact Action.Quiet.pure ()
  | cons winner rest ih => exact Action.Quiet.bind (.copyInto _ _) fun _ => ih

theorem quiet_move (staged destination : Path) : (move staged destination).Quiet :=
  Action.Quiet.change _ _

/-- Where the merger of a merge into an output directory is asked to write, what it sees there, and
what is cleaned up when it fails. -/
inductive Route (m : ResourceMerge) (output manifest : Path) (removed : FileSystem) :
    Path → FileSystem → (FileSystem → FileSystem) → Prop
  /-- Below the output the manifest is staged among the winners. -/
  | within {plan : MergePlan} {made staged : FileSystem} {l : Location} {name : Text}
      {steps : List Path.Component}
      (hstaged : m.Staged output (some manifest) plan removed made staged l name)
      (hstrip : Path.stripBase? output manifest = some steps) :
      Route m output manifest removed
        (((stagingParent output).join ⟨name⟩).join (.ofComponents steps)) staged
        fun fs => (fs.removeTree ((stagingParent output).join ⟨name⟩)).1
  /-- Anywhere else it has a temporary directory of its own. -/
  | beside {plan : MergePlan} {made staged above opened : FileSystem} {l l' : Location}
      {name name' : Text}
      (hstaged : m.Staged output (some manifest) plan removed made staged l name)
      (hstrip : Path.stripBase? output manifest = none)
      (hopened : m.Opened output manifest staged above opened l name l' name') :
      Route m output manifest removed (stagedManifest manifest name') opened
        fun fs => ((fs.removeTree ((stagingParent manifest).join ⟨name'⟩)).1.removeTree
          ((stagingParent output).join ⟨name⟩)).1

/-- The action does not depend on its merger, or it asks on the route of a merge, which knows what
is done last. -/
inductive MayAsk {α : Type} (m : ResourceMerge) (output : Path) (manifest? : Option Path)
    (removed : FileSystem) (act : ManifestMerger → Action α) (s : BuildState)
    (last : FileSystem → FileSystem) : Prop
  | ignores (hignores : Action.Ignores act s) : MayAsk m output manifest? removed act s last
  | asks {manifest target : Path} {call : ManifestCall} {seen : FileSystem}
      {cleanUp : FileSystem → FileSystem} (hmanifest : manifest? = some manifest)
      (hcall : SourceSet.manifestCall? m.kind m.sets = some call)
      (hasks : Action.Asks act s call target seen cleanUp)
      (hroute : Route m output manifest removed target seen fun fs => last (cleanUp fs)) :
      MayAsk m output manifest? removed act s last

namespace MayAsk

variable {α β : Type} {act act' : ManifestMerger → Action α} {s t : BuildState}
  {last : FileSystem → FileSystem}

theorem of_perform (h : MayAsk m output manifest? removed act' t last) (hcalls : t.calls = s.calls)
    (hperform : ∀ merger, (act merger).perform s = (act' merger).perform t) :
    MayAsk m output manifest? removed act s last := by
  cases h with
  | ignores hignores => exact .ignores (hignores.of_perform hcalls hperform)
  | asks hmanifest hcall hasks hroute =>
    exact .asks hmanifest hcall (hasks.of_perform hcalls hperform) hroute

theorem bind (h : MayAsk m output manifest? removed act s last) {f : α → Action β}
    (hf : ∀ a, (f a).Quiet) :
    MayAsk m output manifest? removed (fun merger => act merger >>= f) s last := by
  cases h with
  | ignores hignores => exact .ignores (hignores.bind hf)
  | asks hmanifest hcall hasks hroute => exact .asks hmanifest hcall (hasks.bind hf) hroute

theorem thenAlways (cleanUp : FileSystem → FileSystem)
    (h : MayAsk m output manifest? removed act s fun fs => last (cleanUp fs)) :
    MayAsk m output manifest? removed (fun merger => (act merger).thenAlways cleanUp) s last := by
  cases h with
  | ignores hignores => exact .ignores (hignores.thenAlways cleanUp)
  | asks hmanifest hcall hasks hroute =>
    exact .asks hmanifest hcall (hasks.thenAlways cleanUp) hroute

end MayAsk

theorem Opened.mayAsk {above opened : FileSystem} {l' : Location} {name' : Text}
    (hopened : m.Opened output manifest staged above opened l name l' name')
    (hstaged : m.Staged output (some manifest) plan removed made staged l name)
    (hstrip : Path.stripBase? output manifest = none) (calls : List ManifestCall) :
    MayAsk m output (some manifest) removed (fun merger =>
      mergeManifests merger m.kind m.sets (stagedManifest manifest name') >>= fun _ =>
        move ((stagingParent output).join ⟨name⟩) output >>= fun _ =>
          move (stagedManifest manifest name') manifest) ⟨opened, calls⟩ fun fs =>
            ((fs.removeTree ((stagingParent manifest).join ⟨name'⟩)).1.removeTree
              ((stagingParent output).join ⟨name⟩)).1 := by
  have hquiet : ∀ _ : Unit, (move ((stagingParent output).join ⟨name⟩) output >>= fun _ =>
      move (stagedManifest manifest name') manifest).Quiet := fun _ =>
    .bind (quiet_move _ _) fun _ => quiet_move _ _
  obtain hignores | ⟨call, hcall, hasks⟩ := mergeManifests_asks m.kind m.sets
    (stagedManifest manifest name') ⟨opened, calls⟩
  · exact .ignores (hignores.bind hquiet)
  · exact .asks rfl hcall (hasks.bind hquiet) (.beside hstaged hstrip hopened)

/-- What is staged is published without the merger, or the merger is asked first. -/
theorem stageManifest_mayAsk
    (hstaged : m.Staged output manifest? plan removed made staged l name)
    (calls : List ManifestCall) :
    MayAsk m output manifest? removed (fun merger =>
      (m.withMerger merger).stageManifest output ((stagingParent output).join ⟨name⟩) manifest?
        (move ((stagingParent output).join ⟨name⟩) output) move) ⟨staged, calls⟩
      fun fs => (fs.removeTree ((stagingParent output).join ⟨name⟩)).1 := by
  unfold stageManifest
  cases manifest? with
  | none => exact .ignores ⟨_, _, fun _ => (quiet_move _ _).perform_eq _⟩
  | some manifest =>
    cases hstrip : Path.stripBase? output manifest with
    | some steps =>
      simp only [hstrip, withMerger_merger, withMerger_kind, withMerger_sets]
      obtain hignores | ⟨call, hcall, hasks⟩ := mergeManifests_asks m.kind m.sets
        (((stagingParent output).join ⟨name⟩).join (.ofComponents steps)) ⟨staged, calls⟩
      · exact .ignores (hignores.bind fun _ => quiet_move _ _)
      · exact .asks rfl hcall (hasks.bind fun _ => quiet_move _ _) (.within hstaged hstrip)
    | none =>
      simp only [hstrip, withMerger_merger, withMerger_kind, withMerger_sets,
        withMerger_mentioned]
      cases hcreate : staged.createDirectories (stagingParent manifest) with
      | mk above fault? =>
        have hperform := Action.perform_createDirectories (stagingParent manifest) ⟨staged, calls⟩
        simp only [hcreate] at hperform
        cases fault? with
        | some fault => exact .ignores (Action.ignores_of_error hperform rfl)
        | none =>
          obtain ⟨opened, l', name', hopened, hwith⟩ := hstaged.exists_opened hcreate calls
          refine MayAsk.of_perform (.thenAlways (fun fs =>
            (fs.removeTree ((stagingParent manifest).join ⟨name'⟩)).1)
              (hopened.mayAsk hstaged hstrip calls)) rfl fun merger => ?_
          rw [Action.perform_bind, hperform]
          exact hwith manifest _

theorem Prepared.mayAsk {opened : FileSystem}
    (h : m.Prepared output manifest? plan removed made opened l name) (calls : List ManifestCall) :
    MayAsk m output manifest? removed (fun merger =>
      copyWinners plan.winners.toList ((stagingParent output).join ⟨name⟩) >>= fun _ =>
        (m.withMerger merger).stageManifest output ((stagingParent output).join ⟨name⟩)
          manifest? (move ((stagingParent output).join ⟨name⟩) output) move)
      ⟨opened, calls⟩ fun fs => (fs.removeTree ((stagingParent output).join ⟨name⟩)).1 := by
  cases hcopy : (copyWinners plan.winners.toList
      ((stagingParent output).join ⟨name⟩)).perform ⟨opened, calls⟩ with
  | mk r t =>
    cases r with
    | error e =>
      have hquiet := quiet_copyWinners plan.winners.toList
        ((stagingParent output).join ⟨name⟩) ⟨opened, calls⟩
      rw [hcopy] at hquiet
      exact .ignores (Action.ignores_of_error hcopy hquiet)
    | ok u =>
      obtain ⟨hcalls, hstaged⟩ := h.staged hcopy
      refine (stageManifest_mayAsk hstaged calls).of_perform rfl fun merger => ?_
      rw [Action.perform_bind, hcopy, ← hcalls]

/-- The merge that goes on without the old output may fail before it asks its merger. -/
theorem rebuild_mayAsk (m : ResourceMerge) (output : Path) (manifest? : Option Path)
    (removed : FileSystem) (calls : List ManifestCall) :
    MayAsk m output manifest? removed
      (fun merger => (m.withMerger merger).rebuild output manifest? move move) ⟨removed, calls⟩
      fun fs => fs := by
  cases hmake : MergePlan.make removed m.config m.sets with
  | error e =>
    refine .ignores ⟨.error e, removed, fun merger => ?_⟩
    unfold rebuild
    rw [Action.perform_bind, Action.perform_inspect]
    simp only [withMerger_config, withMerger_sets, hmake]
  | ok plan =>
    cases hcreate : removed.createDirectories (stagingParent output) with
    | mk made fault? =>
      have hperform := Action.perform_createDirectories (stagingParent output) ⟨removed, calls⟩
      simp only [hcreate] at hperform
      cases fault? with
      | some fault =>
        refine .ignores ⟨.error (.io (stagingParent output) fault), made, fun merger => ?_⟩
        unfold rebuild
        rw [Action.perform_bind, Action.perform_inspect]
        simp only [withMerger_config, withMerger_sets, hmake]
        rw [Action.perform_bind, hperform]
      | none =>
        obtain ⟨opened, l, name, hprepared, hrebuild⟩ :=
          exists_prepared hmake hcreate manifest? calls
        exact MayAsk.of_perform (t := ⟨opened, calls⟩) (.bind (.thenAlways (fun fs =>
          (fs.removeTree ((stagingParent output).join ⟨name⟩)).1) (hprepared.mayAsk calls))
            fun _ => .pure _) rfl fun merger => hrebuild merger move move

/-- So may the whole merge; the old output is gone when it asks. -/
theorem run_mayAsk (m : ResourceMerge) (output : Path) (manifest? : Option Path) (fs : FileSystem)
    (calls : List ManifestCall) :
    Action.Ignores (fun merger => (m.withMerger merger).run (some output) manifest?) ⟨fs, calls⟩ ∨
      (withoutOutput fs output).pathExists output = false ∧
        MayAsk m output manifest? (withoutOutput fs output)
          (fun merger => (m.withMerger merger).run (some output) manifest?) ⟨fs, calls⟩
          fun fs => fs := by
  by_cases hremove : fs.pathExists output = true →
      fs.removeTree output = (withoutOutput fs output, none)
  · refine .inr ⟨?_, ?_⟩
    · by_cases hexists : fs.pathExists output = true
      · exact not_pathExists_of_removeTree (hremove hexists)
      · rw [withoutOutput, if_neg hexists]
        simpa using hexists
    · refine (rebuild_mayAsk m output manifest? (withoutOutput fs output) calls).of_perform rfl
        fun merger => ?_
      rw [run_eq_runWith]
      exact perform_runWith hremove
  · obtain ⟨hexists, hfault⟩ := Classical.not_imp.1 hremove
    cases hremoved : fs.removeTree output with
    | mk left fault? =>
      cases fault? with
      | none =>
        refine absurd ?_ hfault
        rw [withoutOutput, if_pos hexists, hremoved]
      | some fault =>
        refine .inl ⟨.error (.io output fault), left, fun merger => ?_⟩
        simp only [run_eq_runWith]
        unfold runWith
        rw [Action.perform_bind, Action.perform_ask]
        simp only [hexists, if_true]
        rw [Action.perform_bind, Action.perform_changePartly]
        simp only [hremoved]

end ResourceMerge

end AndroidResources
