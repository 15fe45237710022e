import AndroidResources.Layout.Files
import AndroidResources.Proofs.Build.Action
import AndroidResources.Proofs.Xml.Acceptance
import Mathlib.Data.List.Forall2
import Mathlib.Data.List.Nodup

/-!
# Several layout files

The layouts of several files, from what each file holds on its own.

* `firstsBy` : the elements of a list before which none has their key; `keepFirst_eq` : this is what
  is kept of layouts;
* `LayoutModule.Holds`, `LayoutModule.FailsWith` : what one file comes to, whatever else is read;
* `firstFiles` : the files before which none has their class;
* `readFiles_firsts` : the layouts in these files, or the error of the first file that fails.
-/

namespace AndroidResources

/-! ## The first of each key -/

section Firsts

variable {α β γ : Type} [DecidableEq γ]

/-- The elements before which none has their key, in order. -/
def firstsBy (key : α → γ) (l : List α) : List α :=
  (l.zipIdx.filter fun p => key p.1 ∉ (l.take p.2).map key).map (·.1)

/-- The first element stays and takes the place of all others with its key. -/
theorem firstsBy_cons (key : α → γ) (a : α) (rest : List α) :
    firstsBy key (a :: rest) = a :: (firstsBy key rest).filter fun b => key b ≠ key a := by
  have hrest : (rest.zipIdx 1).filter (fun p => key p.1 ∉ ((a :: rest).take p.2).map key) =
      ((rest.zipIdx.filter fun p => key p.1 ∉ (rest.take p.2).map key).filter
        fun p => key p.1 ≠ key a).map fun p => (p.1, p.2 + 1) := by
    rw [List.zipIdx_succ, List.filter_map, List.filter_filter]
    congr 1
    apply List.filter_congr
    intro p _
    simp
  unfold firstsBy
  rw [List.zipIdx_cons, List.filter_cons_of_pos (by simp), hrest, List.map_cons, List.map_map,
    List.filter_map]
  rfl

theorem firstsBy_sublist (key : α → γ) (l : List α) : (firstsBy key l).Sublist l := by
  have h : ((l.zipIdx.filter fun p => key p.1 ∉ (l.take p.2).map key).map Prod.fst).Sublist
      (l.zipIdx.map Prod.fst) := List.filter_sublist.map Prod.fst
  rwa [List.zipIdx_map_fst] at h

theorem nodup_map_firstsBy (key : α → γ) (l : List α) : ((firstsBy key l).map key).Nodup := by
  induction l with
  | nil => exact List.nodup_nil
  | cons a rest ih =>
    rw [firstsBy_cons, List.map_cons, List.nodup_cons]
    refine ⟨fun hmem => ?_, ih.sublist (List.filter_sublist.map _)⟩
    obtain ⟨b, hb, heq⟩ := List.mem_map.1 hmem
    simpa [heq] using (List.mem_filter.1 hb).2

theorem mem_map_firstsBy {key : α → γ} {l : List α} {k : γ} :
    k ∈ (firstsBy key l).map key ↔ k ∈ l.map key := by
  induction l with
  | nil => rfl
  | cons a rest ih =>
    rw [firstsBy_cons, List.map_cons, List.map_cons, List.mem_cons, List.mem_cons, ← ih]
    by_cases hk : k = key a
    · simp [hk]
    · simp only [hk, false_or, List.mem_map, List.mem_filter]
      constructor
      · rintro ⟨b, ⟨hb, -⟩, rfl⟩
        exact ⟨b, hb, rfl⟩
      · rintro ⟨b, hb, rfl⟩
        exact ⟨b, ⟨hb, by simpa using hk⟩, rfl⟩

theorem exists_append_of_mem_firstsBy {key : α → γ} {l : List α} {a : α} (h : a ∈ firstsBy key l) :
    ∃ before after, l = before ++ a :: after ∧ ∀ b ∈ before, key b ≠ key a := by
  induction l with
  | nil => cases h
  | cons first rest ih =>
    rw [firstsBy_cons] at h
    rcases List.mem_cons.1 h with rfl | h
    · exact ⟨[], rest, rfl, by simp⟩
    · obtain ⟨hmem, hkey⟩ := List.mem_filter.1 h
      obtain ⟨before, after, rfl, hbefore⟩ := ih hmem
      refine ⟨first :: before, after, rfl, fun b hb => ?_⟩
      rcases List.mem_cons.1 hb with rfl | hb
      · exact fun heq => of_decide_eq_true hkey heq.symm
      · exact hbefore b hb

theorem forall₂_firstsBy {R : α → β → Prop} {key : α → γ} {key' : β → γ}
    (hkey : ∀ a b, R a b → key' b = key a) {l : List α} {l' : List β} (h : List.Forall₂ R l l') :
    List.Forall₂ R (firstsBy key l) (firstsBy key' l') := by
  induction h with
  | nil => exact .nil
  | @cons a b rest rest' hab _ ih =>
    have hother : ∀ c d, R c d →
        (decide (key c ≠ key a) = true ↔ decide (key' d ≠ key' b) = true) := by
      intro c d hcd
      rw [hkey a b hab, hkey c d hcd]
    rw [firstsBy_cons, firstsBy_cons]
    exact .cons hab (List.rel_filter hother ih)

end Firsts

theorem keepFirst_eq (layouts : List LayoutBindings) :
    keepFirst layouts = firstsBy (·.className) layouts := by
  induction layouts with
  | nil => rfl
  | cons layout rest ih => rw [keepFirst, ih, firstsBy_cons]

/-! ## One file on its own -/

def classOfFile (file : Path) : Text :=
  Identifier.bindingClass (Identifier.layoutName file)

/-- The files before which none has their class, in order. -/
def firstFiles (files : List Path) : List Path :=
  firstsBy classOfFile files

namespace LayoutModule

variable {m : LayoutModule} {fs : FileSystem} {file : Path}

def Holds (m : LayoutModule) (fs : FileSystem) (file : Path) (layout : LayoutBindings) : Prop :=
  ∃ contents, fs.readSource file = .ok contents ∧ m.readLayout file contents = .ok layout

def FailsWith (m : LayoutModule) (fs : FileSystem) (file : Path) (error : BuildError) : Prop :=
  fs.readSource file = .error error ∨
    ∃ contents, fs.readSource file = .ok contents ∧ m.readLayout file contents = .error error

theorem readFile_eq_ok {layout : LayoutBindings} :
    m.readFile fs file = .ok layout ↔ m.Holds fs file layout := by
  unfold readFile Holds
  cases fs.readSource file with
  | error error => exact ⟨nofun, nofun⟩
  | ok contents =>
    constructor
    · intro h
      exact ⟨contents, rfl, h⟩
    · rintro ⟨_, h, hread⟩
      cases h
      exact hread

theorem readFile_eq_error {error : BuildError} :
    m.readFile fs file = .error error ↔ m.FailsWith fs file error := by
  unfold readFile FailsWith
  cases fs.readSource file with
  | error found =>
    constructor
    · intro h
      cases h
      exact .inl rfl
    · rintro (h | ⟨_, h, _⟩)
      · cases h
        rfl
      · cases h
  | ok contents =>
    constructor
    · intro h
      exact .inr ⟨contents, rfl, h⟩
    · rintro (h | ⟨_, h, hread⟩)
      · cases h
      · cases h
        exact hread

theorem Holds.named {layout : LayoutBindings} (h : m.Holds fs file layout) :
    layout.className = classOfFile file ∧ layout.source = file := by
  obtain ⟨contents, -, hread⟩ := h
  obtain ⟨-, -, rfl⟩ := readLayout_eq_ok.1 hread
  exact ⟨rfl, rfl⟩

theorem Holds.eq {layout other : LayoutBindings} (h : m.Holds fs file layout)
    (hother : m.Holds fs file other) : layout = other := by
  rw [← readFile_eq_ok] at h hother
  exact Except.ok.inj (h.symm.trans hother)

/-! ## Several files -/

variable {files : List Path}

theorem readFiles_eq_error {error : BuildError} :
    m.readFiles fs files = .error error ↔ ∃ before file after, files = before ++ file :: after ∧
      (∀ other ∈ before, ∃ layout, m.Holds fs other layout) ∧ m.FailsWith fs file error := by
  have hread : m.readFiles fs files = .error error ↔
      files.mapM (m.readFile fs) = .error error := by
    unfold readFiles
    cases files.mapM (m.readFile fs) with
    | error found => exact Iff.rfl
    | ok read => exact ⟨nofun, nofun⟩
  rw [hread, mapM_eq_error]
  simp only [readFile_eq_ok, readFile_eq_error]

/-- Where every file holds a layout, those in the first file of each class are kept. -/
theorem readFiles_eq_ok {layouts : List LayoutBindings} :
    m.readFiles fs files = .ok layouts ↔ (∀ file ∈ files, ∃ layout, m.Holds fs file layout) ∧
      List.Forall₂ (m.Holds fs) (firstFiles files) layouts := by
  have hfirsts : ∀ {read : List LayoutBindings}, files.mapM (m.readFile fs) = .ok read →
      List.Forall₂ (m.Holds fs) (firstFiles files) (keepFirst read) := by
    intro read hread
    have hall : List.Forall₂ (m.Holds fs) files read :=
      (mapM_eq_ok.1 hread).imp fun _ _ => readFile_eq_ok.1
    rw [keepFirst_eq]
    exact forall₂_firstsBy (fun _ _ h => h.named.1) hall
  constructor
  · intro h
    obtain ⟨read, hread, h⟩ := exists_of_bind_eq_ok h
    cases h
    refine ⟨fun file hfile => ?_, hfirsts hread⟩
    obtain ⟨layout, -, hlayout⟩ := exists_of_mem_of_mapM hread hfile
    exact ⟨layout, readFile_eq_ok.1 hlayout⟩
  · rintro ⟨hall, hkept⟩
    cases hread : files.mapM (m.readFile fs) with
    | error error =>
      obtain ⟨before, file, after, rfl, -, hfile⟩ := mapM_eq_error.1 hread
      obtain ⟨layout, hlayout⟩ := hall file (by simp)
      rw [readFile_eq_ok.2 hlayout] at hfile
      cases hfile
    | ok read =>
      have hunique : Relator.RightUnique (m.Holds fs) := fun _ _ _ h hother => h.eq hother
      have heq : keepFirst read = layouts :=
        List.right_unique_forall₂' hunique (hfirsts hread) hkept
      unfold readFiles
      rw [hread, ← heq]
      rfl

theorem map_className_of_holds {layouts : List LayoutBindings}
    (h : List.Forall₂ (m.Holds fs) files layouts) :
    layouts.map (·.className) = files.map classOfFile := by
  induction h with
  | nil => rfl
  | cons hfirst _ ih => rw [List.map_cons, List.map_cons, hfirst.named.1, ih]

theorem nodup_of_readFiles {layouts : List LayoutBindings} (h : m.readFiles fs files = .ok layouts) :
    (layouts.map (·.className)).Nodup := by
  rw [map_className_of_holds (readFiles_eq_ok.1 h).2]
  exact nodup_map_firstsBy classOfFile files

theorem mem_className_of_readFiles {layouts : List LayoutBindings}
    (h : m.readFiles fs files = .ok layouts) (name : Text) :
    name ∈ layouts.map (·.className) ↔
      ∃ file ∈ files, Identifier.bindingClass (Identifier.layoutName file) = name := by
  rw [map_className_of_holds (readFiles_eq_ok.1 h).2]
  exact mem_map_firstsBy.trans List.mem_map

theorem holds_of_mem {layouts : List LayoutBindings} (h : m.readFiles fs files = .ok layouts)
    {layout : LayoutBindings} (hlayout : layout ∈ layouts) :
    layout.source ∈ firstFiles files ∧ m.Holds fs layout.source layout := by
  obtain ⟨file, hfile, hholds⟩ := exists_of_mem_forall₂ (readFiles_eq_ok.1 h).2 hlayout
  rw [hholds.named.2]
  exact ⟨hfile, hholds⟩

theorem readFiles_single {layout : LayoutBindings} (h : m.Holds fs file layout) :
    m.readFiles fs [file] = .ok [layout] := by
  refine readFiles_eq_ok.2 ⟨fun other hother => ?_, .cons h .nil⟩
  rw [List.mem_singleton] at hother
  exact ⟨layout, hother ▸ h⟩

structure ReadsFirsts (m : LayoutModule) (fs : FileSystem) (files : List Path) : Prop where
  /-- The error is that of the first file that fails, also of one that would not have been kept. -/
  fails : ∀ error, m.readFiles fs files = .error error ↔
    ∃ before file after, files = before ++ file :: after ∧
      (∀ other ∈ before, ∃ layout, m.Holds fs other layout) ∧ m.FailsWith fs file error
  /-- Where no file fails, the layouts are those that the first files of their classes hold. -/
  keeps : ∀ layouts, m.readFiles fs files = .ok layouts ↔
    (∀ file ∈ files, ∃ layout, m.Holds fs file layout) ∧
      List.Forall₂ (m.Holds fs) (firstFiles files) layouts
  ordered : (firstFiles files).Sublist files
  classes : ∀ layouts, m.readFiles fs files = .ok layouts →
    (layouts.map (·.className)).Nodup ∧
      ∀ name, name ∈ layouts.map (·.className) ↔ ∃ file ∈ files, classOfFile file = name
  /-- A layout comes from the first file of its class, and that file alone gives the same. -/
  alone : ∀ layouts, m.readFiles fs files = .ok layouts → ∀ layout ∈ layouts,
    layout.className = classOfFile layout.source ∧
    (∃ before after, files = before ++ layout.source :: after ∧
      ∀ other ∈ before, classOfFile other ≠ layout.className) ∧
    m.readFiles fs [layout.source] = .ok [layout]

/-- **Of each class the first file, each read on its own.** What several files declare is what the
first file of each class declares by itself, unless one of them all fails. -/
theorem readFiles_firsts (m : LayoutModule) (fs : FileSystem) (files : List Path) :
    ReadsFirsts m fs files where
  fails := fun _ => readFiles_eq_error
  keeps := fun _ => readFiles_eq_ok
  ordered := firstsBy_sublist classOfFile files
  classes := fun _ h => ⟨nodup_of_readFiles h, mem_className_of_readFiles h⟩
  alone := by
    intro layouts h layout hlayout
    obtain ⟨hfirst, hholds⟩ := holds_of_mem h hlayout
    obtain ⟨before, after, hsplit, hbefore⟩ := exists_append_of_mem_firstsBy hfirst
    refine ⟨hholds.named.1, ⟨before, after, hsplit, fun other hother => ?_⟩, readFiles_single hholds⟩
    rw [hholds.named.1]
    exact hbefore other hother

end LayoutModule

end AndroidResources
