import AndroidResources.Proofs.FileSystem.Passage

/-!
# Directories that were not there

A path without double dots that leads to a directory which has just been made leads to an empty one.
So a file behind it is a new file, whatever links are on the way.

* `LeadsToEmpty fs p` : the path leads to a directory with nothing in it;
* `Leads.of_parent?` : a path leads down its last name from where its directory leads;
* `createDirectories_new` : nothing has been made, or the path leads to an empty directory now;
* `get?_fileLocation_of_made` : a file that is written behind it does not replace another.
-/

namespace AndroidResources.FileSystem

variable {fs fs' : FileSystem} {p q : Path} {l : Location}

def LeadsToEmpty (fs : FileSystem) (p : Path) : Prop :=
  ∃ l, fs.Leads p l [] ∧ ∀ name, fs.get? (l ++ [name]) = none

theorem Leads.of_parent? (hq : p.parent? = some q) (hup : "..".toList ∉ p.segments)
    (h : fs.Leads q l []) : ∃ name, fs.Leads p l [name] := by
  obtain ⟨htext, horigin, hwalk⟩ := resolveSegments_eq_ok.1 h.resolve_nil
  cases Path.isParent_of_parent? hq with
  | empty _ _ _ hempty =>
    rw [hempty] at htext
    exact absurd rfl htext
  | @above name front between idle hp _ hbetween hname hidle habsolute hsegments =>
    rw [fs.origin_congr habsolute] at horigin hwalk
    have hfront : fs.walk .followed linkLimit (fs.origin p) front = .ok (.present l) := by
      obtain hsegments | ⟨rfl, hsegments⟩ := hsegments <;> rw [hsegments] at hwalk
      · exact hwalk
      · rw [walk_of_arrived (descend_all_idle fs _ (by decide))] at hwalk ⊢
        exact hwalk
    have hnames := Path.properNames_around hbetween hname hidle
    have htext' : p.text ≠ [] := fun hnil => by
      have hnone : Path.properNames p.segments = [] := by
        rw [(Path.text_eq_nil_iff p).1 hnil]
        rfl
      rw [hp, Path.properNames_append, hnames] at hnone
      simp at hnone
    refine ⟨name, hnames ▸ Leads.of_walk htext' horigin h.2.2.1 hp hfront fun hmem => hup ?_⟩
    rw [hp]
    exact List.mem_append_right _ hmem

/-! ## What has been made -/

theorem leadsToEmpty_of_makeDirectory (h : fs.makeDirectory p = .ok fs') : fs'.LeadsToEmpty p := by
  obtain ⟨l, hl, hdir, hempty⟩ := resolve_of_makeDirectory h
  exact ⟨l, .of_resolve hl hdir, hempty⟩

theorem Leads.free_of_empty (hq : p.parent? = some q) (hup : "..".toList ∉ p.segments)
    (h : fs.LeadsToEmpty q) :
    ∃ l name, fs.Leads p l [name] ∧ fs.NoLinks l [name] ∧ fs.get? (l ++ [name]) = none := by
  obtain ⟨l, hleads, hempty⟩ := h
  obtain ⟨name, hname⟩ := Leads.of_parent? hq hup hleads
  refine ⟨l, name, hname, noLinks_child fun target hlink => ?_, hempty name⟩
  rw [hempty] at hlink
  cases hlink

/-- One path of a chain: it is made last. If it had not to be made although those above it have
been, it would lie in an empty directory. -/
theorem createAlong_step_new (hup : "..".toList ∉ p.segments) {above : List Path}
    (habove : ∀ between, fs.createAlong above = (between, none) →
      between = fs ∨ ∃ q, p.parent? = some q ∧ between.LeadsToEmpty q)
    (h : fs.createAlong (p :: above) = (fs', none)) : fs' = fs ∨ fs'.LeadsToEmpty p := by
  cases makesAlong h with
  | empty => exact .inl rfl
  | new _ _ hmake => exact .inr (leadsToEmpty_of_makeDirectory hmake)
  | kept _ hg _ hfault =>
    obtain ⟨rfl, -⟩ | ⟨-, hcreate⟩ := hg
    · exact .inl rfl
    · obtain heq | ⟨q, hq, hempty⟩ := habove fs' hcreate
      · exact .inl heq
      · obtain ⟨l, name, hleads, hlinks, hnone⟩ := Leads.free_of_empty hq hup hempty
        have hget := isDirectory_location hleads hlinks (by simpa using hfault)
        rw [hnone] at hget
        cases hget

/-- Where nothing goes wrong on a path without double dots, nothing has been made, or the path leads
to a new directory. The induction is on the paths above it. -/
theorem createDirectories_new (hup : "..".toList ∉ p.segments)
    (h : fs.createDirectories p = (fs', none)) : fs' = fs ∨ fs'.LeadsToEmpty p := by
  unfold createDirectories at h
  generalize p.text.length = steps at h
  induction steps generalizing p fs' with
  | zero =>
    refine createAlong_step_new hup (fun between hbetween => .inl ?_) h
    rw [ancestors_zero] at hbetween
    cases hbetween
    rfl
  | succ steps ih =>
    refine createAlong_step_new hup (fun between hbetween => ?_) h
    cases hq : p.parent? with
    | none =>
      rw [ancestors_of_none hq] at hbetween
      cases hbetween
      exact .inl rfl
    | some q =>
      rw [ancestors_of_some hq] at hbetween
      have hup' : "..".toList ∉ q.segments := fun hmem =>
        ((Path.segments_parent? hq).2 _ hmem).elim (by decide) hup
      exact (ih hup' hbetween).imp_right fun hempty => ⟨q, rfl, hempty⟩

/-! ## A file behind it -/

/-- A path that leads nowhere leads to a free place, if a file can be written there. -/
theorem get?_fileLocation_of_missing (hmissing : fs.pathExists p = false)
    (h : fs.fileLocation p = .ok l) : fs.get? l = none := by
  obtain ⟨place, hresolve, rfl, -⟩ := fileLocation_eq_ok h
  cases place with
  | vacant k c => exact (canPlace_of_vacant (fun _ => Path.slash_not_mem_segment) hresolve).2
  | present k =>
    rw [pathExists_iff.2 ⟨k, hresolve⟩] at hmissing
    cases hmissing

theorem get?_fileLocation_of_made (hup : "..".toList ∉ p.segments) (hq : p.parent? = some q)
    (hmissing : fs.pathExists p = false) (hcreate : fs.createDirectories q = (fs', none))
    (h : fs'.fileLocation p = .ok l) : fs'.get? l = none := by
  have hup' : "..".toList ∉ q.segments := fun hmem =>
    ((Path.segments_parent? hq).2 _ hmem).elim (by decide) hup
  obtain rfl | hempty := createDirectories_new hup' hcreate
  · exact get?_fileLocation_of_missing hmissing h
  · obtain ⟨dir, name, hleads, hlinks, hnone⟩ := Leads.free_of_empty hq hup hempty
    rw [(fileLocation_leads hleads hlinks h).1, hnone]

end AndroidResources.FileSystem
