import AndroidResources.Proofs.Build.Staging
import AndroidResources.Proofs.FileSystem.NewDirectory

/-!
# Where a destination lies

A destination need not be there, nor the directories above it.

* `exists_leads_of_stagingParent` : a path leads down its last name from where it is staged;
* `not_pathExists_of_createDirectories` : a destination is not there when it can be staged;
* `Denotes fs p l` : the path is that of the location, where a link is met only at its end;
* `createDirectories_denotes` : directories are made above that location only.
-/

namespace AndroidResources

open FileSystem

variable {fs fs' : FileSystem} {p : Path} {l : Location} {name : Text}

theorem isAbsolute_stagingParent (h : p.isAbsolute = false) :
    (stagingParent p).isAbsolute = false := by
  unfold stagingParent
  cases hq : p.parent? with
  | none => rfl
  | some q =>
    simp only
    split
    · rfl
    · rw [(Path.segments_parent? hq).1, h]

namespace FileSystem

theorem exists_leads_of_stagingParent (hup : "..".toList ∉ p.segments)
    (hnames : Path.properNames p.segments ≠ []) (h : fs.Leads (stagingParent p) l []) :
    ∃ name, fs.Leads p l [name] := by
  obtain ⟨names, name, hconcat⟩ : ∃ names name, Path.properNames p.segments = names ++ [name] :=
    ⟨_, _, (List.dropLast_append_getLast hnames).symm⟩
  cases hq : p.parent? with
  | none => exact absurd (Path.properNames_of_parent?_eq_none hq) hnames
  | some q =>
    by_cases htext : q.text = []
    · have hhere : stagingParent p = "." := by
        unfold stagingParent
        simp only [hq, if_pos htext]
      have horigin := origin_stagingParent fs hconcat
      obtain rfl : names = [] := by
        rw [← properNames_stagingParent hconcat, hhere]
        decide
      rw [hhere] at h horigin
      obtain rfl : l = fs.origin p :=
        h.eq_of_nil (horigin ▸ .of_origin (p := ".") (by decide) h.2.1 (by decide))
      have htext' : p.text ≠ [] := fun hnil => by
        rw [(Path.text_eq_nil_iff p).1 hnil] at hnames
        exact hnames rfl
      have hleads := Leads.of_origin htext' h.2.2.1 hup
      rw [hconcat] at hleads
      exact ⟨name, hleads⟩
    · have hparent : stagingParent p = q := by
        unfold stagingParent
        simp only [hq, if_neg htext]
      rw [hparent] at h
      exact Leads.of_parent? hq hup h

theorem properNames_ne_nil_of_createDirectories (htext : p.text ≠ [])
    (hmissing : fs.pathExists p = false)
    (hcreate : fs.createDirectories (stagingParent p) = (fs', none)) :
    Path.properNames p.segments ≠ [] := by
  intro hnil
  have horigin : fs.get? (fs.origin p) = some .directory := by
    cases habsolute : p.isAbsolute with
    | true =>
      unfold origin
      rw [habsolute]
      rfl
    | false =>
      have hdir := origin_of_createDirectories (text_stagingParent p) hcreate
      unfold origin at hdir ⊢
      rwa [habsolute, ← isAbsolute_stagingParent habsolute]
  have hup : "..".toList ∉ p.segments := fun hmem =>
    absurd (Path.properNames_eq_nil.1 hnil _ hmem) (by decide)
  have hleads := Leads.of_origin htext horigin hup
  rw [hnil] at hleads
  rw [pathExists_iff.2 ⟨_, hleads.resolve_nil⟩] at hmissing
  cases hmissing

/-- A path without double dots that was not there is not there either when the directories above it
have been made. -/
theorem not_pathExists_of_createDirectories (hup : "..".toList ∉ p.segments)
    (hmissing : fs.pathExists p = false)
    (hcreate : fs.createDirectories (stagingParent p) = (fs', none)) :
    fs'.pathExists p = false := by
  obtain rfl | ⟨l, hleads, hempty⟩ :=
    createDirectories_new (parent_not_mem_stagingParent hup) hcreate
  · exact hmissing
  · rw [Bool.eq_false_iff]
    intro hexists
    obtain ⟨k, hk⟩ := pathExists_iff.1 hexists
    have hnames := properNames_ne_nil_of_createDirectories (resolveSegments_eq_ok.1 hk).1 hmissing
      hcreate
    obtain ⟨name, hname⟩ := exists_leads_of_stagingParent hup hnames hleads
    obtain rfl : k = l ++ [name] := hname.location (noLinks_child fun target hlink => by
      rw [hempty] at hlink; cases hlink) (.inl rfl) (.inl rfl) hk
    obtain ⟨e, he⟩ := get?_of_present hk
    rw [hempty] at he
    cases he

/-! ## The location of a path -/

/-- From a directory the path leads down names to the location, and no link is in front of the last
one. A path without names is that of the directory that it is read from. -/
def Denotes (fs : FileSystem) (p : Path) (l : Location) : Prop :=
  ∃ base names, fs.Leads p base names ∧ fs.NoLinks base names.dropLast ∧ l = base ++ names ∧
    (names = [] → Path.properNames p.segments = [])

/-- A path without double dots and links is that of the location that it spells. -/
theorem Direct.denotes (h : fs.Direct p) (htext : p.text ≠ [])
    (horigin : fs.get? (fs.origin p) = some .directory) : fs.Denotes p (fs.spelled p) := by
  refine ⟨fs.origin p, Path.properNames p.segments, .of_origin htext horigin h.noParent, ?_, rfl,
    id⟩
  by_cases hnil : Path.properNames p.segments = []
  · rw [hnil]
    exact fun front rest heq hne => absurd (List.append_eq_nil_iff.1 heq.symm).1 hne
  · exact h.noLinks (List.dropLast_concat_getLast hnil).symm (by simp)

namespace Denotes

theorem of_keeps (h : fs.Denotes p l) (hk : Keeps (fun _ => True) fs fs')
    (hlinks : ∀ k target, k <+: l → fs'.get? k = some (.link target) →
      fs.get? k = some (.link target)) : fs'.Denotes p l := by
  obtain ⟨base, names, hleads, hnolinks, rfl, hnil⟩ := h
  refine ⟨base, names, hleads.of_keeps_all hk, fun front rest heq hne target hget => ?_, rfl, hnil⟩
  have hprefix : front <+: names := (heq ▸ List.prefix_append front rest).trans
    (List.dropLast_prefix names)
  exact hnolinks front rest heq hne target
    (hlinks _ target ((List.prefix_append_right_inj base).2 hprefix) hget)

theorem mem (h : fs.Denotes p l) (hname : name ∈ l) :
    name ∈ p.segments ∨ ∃ k e, fs.get? k = some e ∧ name ∈ k := by
  obtain ⟨base, names, hleads, -, rfl, -⟩ := h
  rcases List.mem_append.1 hname with hbase | hnames
  · exact .inr ⟨base, _, hleads.2.2.1, hbase⟩
  · exact .inl (hleads.mem_segments hnames)

theorem eq_of_leads (h : fs.Denotes p l) {dir : Location} (h' : fs.Leads p dir [name]) :
    l = dir ++ [name] := by
  obtain ⟨base, names, hleads, hnolinks, rfl, hnil⟩ := h
  obtain rfl | ⟨init, last, rfl⟩ := List.eq_nil_or_concat names
  · exact absurd (h'.names_eq_nil (hnil rfl)) (by simp)
  · rw [List.concat_eq_append] at hleads hnolinks ⊢
    rw [List.dropLast_concat] at hnolinks
    have hdir : dir = base ++ init := hleads.stagingParent_concat.location hnolinks (.inl rfl)
      (.inl rfl) h'.stagingParent.resolve_nil
    have hlast : (Path.properNames p.segments).getLast? = some last := by
      obtain ⟨-, -, -, front, back, happ, -, -, -, hback⟩ := hleads
      rw [happ, Path.properNames_append, hback, ← List.append_assoc, List.getLast?_concat]
    have hname : (Path.properNames p.segments).getLast? = some name := by
      obtain ⟨-, -, -, front, back, happ, -, -, -, hback⟩ := h'
      rw [happ, Path.properNames_append, hback, List.getLast?_concat]
    obtain rfl : last = name := Option.some.inj (hlast.symm.trans hname)
    rw [hdir, List.append_assoc]

end Denotes

/-- Above a path that has a location directories are made only above that, as far as nothing goes
wrong. -/
theorem createDirectories_denotes (h : fs.Denotes p l) :
    AddsDirectories (Above l) fs (fs.createDirectories (stagingParent p)).1 := by
  obtain ⟨base, names, hleads, hnolinks, rfl, hnil⟩ := h
  obtain rfl | ⟨init, last, rfl⟩ := List.eq_nil_or_concat names
  · rw [createDirectories_stagingParent_of_nil fs (hnil rfl)]
    exact .refl _ fs
  · rw [List.concat_eq_append] at hleads hnolinks ⊢
    rw [List.dropLast_concat] at hnolinks
    refine (createAlong_leads hleads.stagingParent_concat hnolinks _).1.mono fun k hk => ?_
    exact hk.above last

end FileSystem

end AndroidResources
