import AndroidResources.Build.Action
import AndroidResources.Proofs.FileSystem.Change
import Mathlib.Data.List.Forall2

/-!
# What actions do

An action is described by its result and the state that it leaves. An action that succeeds is taken
apart at the state between its steps.

* `exists_of_bind_eq_ok`, `mapM_eq_ok`, `mapM_eq_error`, `exists_of_mem_mapM`,
  `exists_of_mem_of_mapM` : questions, one after the other;
* `bind_eq_ok`, `change_eq_ok`, `changePartly_eq_ok` : steps, one after the other;
* `thenAlways_eq` : an action with what is done after it;
* `onFiles_eq` : an action run on a file system.
-/

namespace AndroidResources

theorem exists_of_bind_eq_ok {ε α β : Type} {x : Except ε α} {f : α → Except ε β} {b : β}
    (h : (x >>= f) = .ok b) : ∃ a, x = .ok a ∧ f a = .ok b := by
  cases x with
  | error e => cases h
  | ok a => exact ⟨a, rfl, h⟩

theorem mapM_eq_ok {ε α β : Type} {f : α → Except ε β} {l : List α} {answers : List β} :
    l.mapM f = .ok answers ↔ List.Forall₂ (fun a b => f a = .ok b) l answers := by
  induction l generalizing answers with
  | nil =>
    rw [List.mapM_nil, List.forall₂_nil_left_iff]
    exact ⟨fun h => by cases h; rfl, fun h => by rw [h]; rfl⟩
  | cons a rest ih =>
    rw [List.mapM_cons]
    constructor
    · intro h
      obtain ⟨b, hb, h⟩ := exists_of_bind_eq_ok h
      obtain ⟨others, hothers, h⟩ := exists_of_bind_eq_ok h
      cases h
      exact .cons hb (ih.1 hothers)
    · rintro (_ | ⟨hb, hothers⟩)
      rw [hb, ih.2 hothers]
      rfl

theorem exists_of_mem_forall₂ {α β : Type} {R : α → β → Prop} {l : List α} {l' : List β}
    (h : List.Forall₂ R l l') {b : β} (hb : b ∈ l') : ∃ a ∈ l, R a b := by
  induction h with
  | nil => cases hb
  | @cons a _ _ _ hab _ ih =>
    rcases List.mem_cons.1 hb with rfl | hb
    · exact ⟨a, List.mem_cons_self .., hab⟩
    · obtain ⟨a', ha', hab'⟩ := ih hb
      exact ⟨a', List.mem_cons_of_mem _ ha', hab'⟩

theorem exists_of_mem_mapM {ε α β : Type} {f : α → Except ε β} {l : List α} {answers : List β} {b : β}
    (h : l.mapM f = .ok answers) (hb : b ∈ answers) : ∃ a ∈ l, f a = .ok b :=
  exists_of_mem_forall₂ (mapM_eq_ok.1 h) hb

theorem exists_of_mem_of_mapM {ε α β : Type} {f : α → Except ε β} {l : List α} {answers : List β}
    {a : α} (h : l.mapM f = .ok answers) (ha : a ∈ l) : ∃ b ∈ answers, f a = .ok b :=
  exists_of_mem_forall₂ (mapM_eq_ok.1 h).flip ha

theorem exists_first_cons {α : Type} {P Q : α → Prop} {first : α} {rest : List α} :
    (∃ before a after, first :: rest = before ++ a :: after ∧ (∀ b ∈ before, P b) ∧ Q a) ↔
      Q first ∨ P first ∧
        ∃ before a after, rest = before ++ a :: after ∧ (∀ b ∈ before, P b) ∧ Q a := by
  constructor
  · rintro ⟨before, a, after, hsplit, hbefore, ha⟩
    cases before with
    | nil =>
      obtain ⟨rfl, -⟩ := List.cons.inj hsplit
      exact .inl ha
    | cons b before =>
      obtain ⟨rfl, hrest⟩ := List.cons.inj hsplit
      obtain ⟨hfirst, hbefore⟩ := List.forall_mem_cons.1 hbefore
      exact .inr ⟨hfirst, before, a, after, hrest, hbefore, ha⟩
  · rintro (hfirst | ⟨hfirst, before, a, after, rfl, hbefore, ha⟩)
    · exact ⟨[], first, rest, rfl, by simp, hfirst⟩
    · exact ⟨first :: before, a, after, rfl, List.forall_mem_cons.2 ⟨hfirst, hbefore⟩, ha⟩

/-- Of several questions the first one without a good answer decides the error. -/
theorem mapM_eq_error {ε α β : Type} {f : α → Except ε β} {l : List α} {e : ε} :
    l.mapM f = .error e ↔ ∃ before a after, l = before ++ a :: after ∧
      (∀ b ∈ before, ∃ answer, f b = .ok answer) ∧ f a = .error e := by
  induction l with
  | nil => exact ⟨nofun, fun ⟨before, a, after, h, _⟩ => absurd h (by simp)⟩
  | cons first rest ih =>
    rw [List.mapM_cons, exists_first_cons, ← ih]
    cases f first with
    | error found => simp [bind, Except.bind]
    | ok answer => cases rest.mapM f <;> simp [bind, Except.bind, pure, Except.pure]

namespace Action

variable {α β : Type} {s s' : BuildState}

@[simp] theorem perform_ask (question : FileSystem → α) (s : BuildState) :
    (ask question).perform s = (.ok (question s.files), s) := rfl

@[simp] theorem perform_inspect (question : FileSystem → Except BuildError α) (s : BuildState) :
    (inspect question).perform s = (question s.files, s) := rfl

theorem perform_bind (x : Action α) (f : α → Action β) (s : BuildState) :
    (x >>= f).perform s =
      match x.perform s with
      | (.ok a, t) => (f a).perform t
      | (.error e, t) => (.error e, t) := by
  cases h : x.perform s with
  | mk r t =>
    replace h : (ExceptT.run x).run s = (r, t) := h
    unfold perform
    rw [ExceptT.run_bind, StateT.run_bind, h]
    cases r <;> rfl

theorem perform_replace (x : Action α) (b : β) (s : BuildState) :
    (x >>= fun _ => pure b : Action β).perform s =
      ((x.perform s).1.map fun _ => b, (x.perform s).2) := by
  rw [perform_bind]
  cases x.perform s with
  | mk r t => cases r <;> rfl

theorem perform_bind_pure (x : Action α) (b : β) (s : BuildState) :
    ((x >>= fun _ => pure b : Action β).perform s).2 = (x.perform s).2 := by
  rw [perform_replace]

/-- Both steps of a sequence that succeeds have succeeded. -/
theorem bind_eq_ok {x : Action α} {f : α → Action β} {b : β} :
    (x >>= f).perform s = (.ok b, s') ↔
      ∃ a t, x.perform s = (.ok a, t) ∧ (f a).perform t = (.ok b, s') := by
  rw [perform_bind]
  cases h : x.perform s with
  | mk r t => cases r <;> simp

theorem perform_change (blamed : Path) (operation : FileSystem → Except IoFault FileSystem)
    (s : BuildState) : (change blamed operation).perform s =
      match operation s.files with
      | .ok files => (.ok (), { s with files := files })
      | .error fault => (.error (.io blamed fault), s) := rfl

theorem change_eq_ok {blamed : Path} {operation : FileSystem → Except IoFault FileSystem}
    {u : Unit} : (change blamed operation).perform s = (.ok u, s') ↔
      ∃ files, operation s.files = .ok files ∧ s' = { s with files := files } := by
  rw [perform_change]
  cases operation s.files <;> simp [eq_comm]

theorem change_eq_error {blamed : Path} {operation : FileSystem → Except IoFault FileSystem}
    {e : BuildError} (h : (change blamed operation).perform s = (.error e, s')) : s' = s := by
  rw [perform_change] at h
  cases hop : operation s.files with
  | ok files =>
    rw [hop] at h
    cases h
  | error fault =>
    rw [hop] at h
    cases h
    rfl

theorem perform_changePartly (blamed : Path) (operation : FileSystem → FileSystem × Option IoFault)
    (s : BuildState) : (changePartly blamed operation).perform s =
      (match (operation s.files).2 with
        | none => .ok ()
        | some fault => .error (.io blamed fault),
        { s with files := (operation s.files).1 }) := rfl

theorem perform_createDirectories (dir : Path) (s : BuildState) :
    (createDirectories dir).perform s =
      (match (s.files.createDirectories dir).2 with
        | none => .ok ()
        | some fault => .error (.io dir fault),
        { s with files := (s.files.createDirectories dir).1 }) := rfl

theorem changePartly_eq_ok {blamed : Path} {operation : FileSystem → FileSystem × Option IoFault}
    {u : Unit} : (changePartly blamed operation).perform s = (.ok u, s') ↔
      ∃ files, operation s.files = (files, none) ∧ s' = { s with files := files } := by
  rw [perform_changePartly]
  cases h : operation s.files with
  | mk files fault? => cases fault? <;> simp [eq_comm]

theorem perform_thenAlways (act : Action α) (cleanUp : FileSystem → FileSystem) (s : BuildState) :
    (act.thenAlways cleanUp).perform s =
      ((act.perform s).1, { (act.perform s).2 with files := cleanUp (act.perform s).2.files }) := rfl

theorem thenAlways_eq {act : Action α} {cleanUp : FileSystem → FileSystem}
    {r : Except BuildError α} : (act.thenAlways cleanUp).perform s = (r, s') ↔
      ∃ t, act.perform s = (r, t) ∧ s' = { t with files := cleanUp t.files } := by
  rw [perform_thenAlways]
  cases act.perform s with
  | mk result after => simp [eq_comm]

theorem onFiles_eq_perform (act : Action α) (fs : FileSystem) :
    act.onFiles fs = ((act.perform ⟨fs, []⟩).1, (act.perform ⟨fs, []⟩).2.files) := rfl

theorem onFiles_eq {act : Action α} {fs fs' : FileSystem} {r : Except BuildError α}
    (h : act.onFiles fs = (r, fs')) : ∃ calls, act.perform ⟨fs, []⟩ = (r, ⟨fs', calls⟩) := by
  obtain ⟨rfl, rfl⟩ := Prod.mk.inj h
  exact ⟨(act.perform ⟨fs, []⟩).2.calls, rfl⟩

end Action

end AndroidResources
