import AndroidResources.Proofs.Merge.Offers

/-!
# Winners of a merge plan as files

* `Found` : a file found below a directory that is searched, with its path and its place;
* `MergePlan.found_of_make` : every winner of a plan is such a file;
* `Found.readBytes` : it can be read at its path.
-/

namespace AndroidResources

def Found (fs : FileSystem) (sets : List SourceSet) (place : List Text) (source : Path) : Prop :=
  ∃ root : MergeRoot, ∃ dir l names content, (root, dir) ∈ SourceSet.directories sets ∧
    fs.resolve (resolveRoot fs dir root.name) = .ok (.present l) ∧
    fs.get? l = some .directory ∧ names ≠ [] ∧ fs.get? (l ++ names) = some (.file content) ∧
    place = root.name :: names ∧ source = (resolveRoot fs dir root.name).join (.ofNames names)

theorem MergePlan.found_of_make {fs : FileSystem} {config : MergeConfig} {sets : List SourceSet}
    {plan : MergePlan} {place : List Text} {source : Path} (hmake : make fs config sets = .ok plan)
    (h : plan.winners.get? place = some source) : Found fs sets place source := by
  obtain ⟨earlier, ⟨root, dir⟩, later, hsplit, ⟨file, hfile, -⟩, rfl, -⟩ :=
    ((decides_of_make hmake place).winner source).1 h
  obtain ⟨l, names, content, hresolve, rfl, hne, -, rfl, hget⟩ := provided?_eq_some.1 hfile
  exact ⟨root, dir, l, names, content, by rw [hsplit]; simp, hresolve,
    FileSystem.get?_of_append names hne hget, hne, hget, rfl, rfl⟩

namespace Found

open FileSystem

variable {fs : FileSystem} {sets : List SourceSet} {place : List Text} {source : Path}

theorem isName (h : Found fs sets place source) : ∀ name ∈ place, IsName name := by
  obtain ⟨root, dir, l, names, content, -, -, -, hne, hget, rfl, -⟩ := h
  rw [get?_of_ne (by simp [hne])] at hget
  have hnames := (fs.wellPlaced _ _ hget).2.1
  intro name hname
  rcases List.mem_cons.1 hname with rfl | hname
  · cases root <;> decide
  · exact hnames name (List.mem_append_right _ hname)

theorem ne_nil (h : Found fs sets place source) : place ≠ [] := by
  obtain ⟨root, dir, l, names, content, -, -, -, -, -, rfl, -⟩ := h
  simp

theorem readBytes (h : Found fs sets place source) : ∃ bytes, fs.readBytes source = .ok bytes := by
  obtain ⟨root, dir, l, names, content, -, hresolve, -, hne, hget, rfl, rfl⟩ := h
  exact ⟨content, readBytes_eq_ok.2 ⟨_, resolve_join_ofNames hresolve hne hget, hget⟩⟩

/-- The path of a file mentions no name but those of the declared directory, of the roots and of
what is there. -/
theorem not_mem_segments (h : Found fs sets place source) {name : Text}
    (hroot : ∀ root : MergeRoot, name ≠ root.name)
    (hdeclared : ∀ root dir, (root, dir) ∈ SourceSet.directories sets → name ∉ dir.segments)
    (hthere : ∀ l e, fs.get? l = some e → name ∉ l) : name ∉ source.segments := by
  have hnames := h.isName
  obtain ⟨root, dir, l, names, content, hmem, -, -, hne, hget, rfl, rfl⟩ := h
  have hall : ∀ name ∈ names, IsName name := fun name hname =>
    hnames name (List.mem_cons_of_mem _ hname)
  have hlead : ∀ {p : Path}, name ∉ p.segments → name ∉ p.leadingSegments := by
    intro p hp hmem
    obtain heq | heq := Path.segments_eq_leadingSegments p
    · exact hp (heq ▸ hmem)
    · exact hp (heq ▸ List.mem_append_left _ hmem)
  have hsearched : name ∉ (resolveRoot fs dir root.name).segments := by
    have hrootName : IsName root.name := by cases root <;> decide
    unfold resolveRoot
    simp only
    split
    · rw [Path.segments_join _ (Path.isAbsolute_single hrootName.2.2.2),
        Path.segments_single hrootName.2.2.2, List.mem_append, List.mem_singleton, not_or]
      exact ⟨hlead (hdeclared root dir hmem), hroot root⟩
    · exact hdeclared root dir hmem
  rw [Path.segments_join _ (Path.isAbsolute_ofNames hall), Path.segments_ofNames hall hne,
    List.mem_append, not_or]
  exact ⟨hlead hsearched, fun hmem => hthere _ _ hget (List.mem_append_right _ hmem)⟩

end Found

end AndroidResources
