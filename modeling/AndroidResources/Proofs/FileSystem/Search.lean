import AndroidResources.FileSystem.Search
import AndroidResources.Proofs.FileSystem.Change
import AndroidResources.Proofs.Path.Components

/-!
# What a search finds

* `mem_below`, `mem_findFiles` : the entries and files below a directory;
* `resolve_join_ofNames` : a file that has been found is where its path leads;
* `filesBelow`, `mem_findFiles_keepAll` : a search that skips nothing finds all files below a
  directory.
-/

namespace AndroidResources.FileSystem

variable {fs : FileSystem} {l : Location} {p : Path}

theorem mem_below {names : List Text} {e : Entry} :
    (names, e) ∈ fs.below l ↔ names ≠ [] ∧ fs.get? (l ++ names) = some e := by
  unfold below
  rw [List.mem_filterMap]
  constructor
  · rintro ⟨⟨k, e'⟩, hmem, hmatch⟩
    simp only at hmatch
    split at hmatch
    · next name more hbelow =>
      cases hmatch
      rw [← List.isPrefixOf?_eq_some_iff_append_eq.1 hbelow] at hmem
      rw [get?_of_ne (by simp)]
      exact ⟨by simp, OrderedMap.mem_toList.1 hmem⟩
    · cases hmatch
  · rintro ⟨hne, hget⟩
    obtain ⟨name, more, rfl⟩ := List.exists_cons_of_ne_nil hne
    rw [get?_of_ne (by simp)] at hget
    refine ⟨(l ++ name :: more, e), OrderedMap.mem_toList.2 hget, ?_⟩
    simp only [List.isPrefixOf?_eq_some_iff_append_eq.2 rfl]

theorem below_pairwise (fs : FileSystem) (l : Location) :
    (fs.below l).Pairwise fun a b => a.1 ≠ b.1 := by
  have hkeys : fs.entries.toList.Pairwise fun a b => a.1 ≠ b.1 :=
    fs.entries.sorted.imp fun {a b} hlt heq => by
      rw [heq] at hlt
      simp at hlt
  refine hkeys.filterMap _ fun x y hne a ha b hb heq => hne ?_
  simp only at ha hb
  split at ha
  · next hx =>
    split at hb
    · next hy =>
      cases ha
      cases hb
      rw [← List.isPrefixOf?_eq_some_iff_append_eq.1 hx,
        ← List.isPrefixOf?_eq_some_iff_append_eq.1 hy, show _ :: _ = _ from heq]
    · cases hb
  · cases ha

theorem findFiles_eq (config : MergeConfig) (h : fs.resolve p = .ok (.present l))
    (hdir : fs.get? l = some .directory) :
    fs.findFiles config p = (fs.below l).filterMap fun (names, entry) =>
      if entry.isFile && names.all (!config.ignores ·) then some ⟨p.join (.ofNames names), names⟩
      else none := by
  have hlocate : fs.locate? p = some l := by
    unfold locate?
    rw [h]
  unfold findFiles
  rw [hlocate]
  simp only [hdir]

/-- A search of a directory finds the files below it, none of whose names are skipped. -/
theorem mem_findFiles {config : MergeConfig} {file : FoundFile}
    (h : fs.resolve p = .ok (.present l)) (hdir : fs.get? l = some .directory) :
    file ∈ fs.findFiles config p ↔
      file.path = p.join (.ofNames file.names) ∧ file.names ≠ [] ∧
        file.names.all (!config.ignores ·) = true ∧
        (fs.get? (l ++ file.names)).any Entry.isFile = true := by
  rw [findFiles_eq config h hdir, List.mem_filterMap, Prod.exists]
  simp only [mem_below, Option.ite_none_right_eq_some, Bool.and_eq_true, Option.some.injEq]
  constructor
  · rintro ⟨names, entry, ⟨hne, hget⟩, ⟨hfile, hkept⟩, rfl⟩
    exact ⟨rfl, hne, hkept, by rw [hget]; exact hfile⟩
  · rintro ⟨hpath, hne, hkept, hany⟩
    obtain ⟨entry, hget, hfile⟩ := (Option.any_eq_true _ _).1 hany
    exact ⟨file.names, entry, ⟨hne, hget⟩, ⟨hfile, hkept⟩, by rw [← hpath]⟩

/-- Names that lead to a file from a directory also do so behind a path of that directory. -/
theorem resolve_join_ofNames {names : List Text} {content : ByteArray}
    (h : fs.resolve p = .ok (.present l)) (hne : names ≠ [])
    (hget : fs.get? (l ++ names) = some (.file content)) :
    fs.resolve (p.join (.ofNames names)) = .ok (.present (l ++ names)) := by
  have hall : ∀ name ∈ names, IsName name := fun name hname =>
    isName_of_mem hget (List.mem_append_right _ hname)
  have hsegments := Path.segments_ofNames hall hne
  have hup : "..".toList ∉ (Path.ofNames names).segments := by
    rw [hsegments]
    exact fun hmem => (hall _ hmem).2.2.1 rfl
  have hleads := (Leads.of_resolve h (get?_of_append names hne hget)).join
    (Path.isAbsolute_ofNames hall) hup
  rw [hsegments, List.nil_append,
    Path.properNames_eq_self fun name hname => Path.isIdle_of_isName (hall name hname)] at hleads
  refine hleads.resolve_file ?_ hne hget
  intro segment hlast
  rw [Path.segments_join _ (Path.isAbsolute_ofNames hall), hsegments,
    List.getLast?_append_of_ne_nil _ hne] at hlast
  exact Path.isIdle_of_isName (hall _ (List.mem_of_getLast? hlast))

/-! ## All files -/

/-- The files below a location, by the names that lead to them. -/
def filesBelow (fs : FileSystem) (l : Location) (names : List Text) : Option ByteArray :=
  match fs.get? (l ++ names) with
  | some (.file content) => some content
  | _ => none

section

variable {fs' : FileSystem} {l' : Location} {names : List Text} {content : ByteArray}

theorem filesBelow_eq_some :
    fs.filesBelow l names = some content ↔ fs.get? (l ++ names) = some (.file content) := by
  unfold filesBelow
  split
  · next bytes hget => simp [hget]
  · next hnot =>
    refine iff_of_false (by simp) fun hget => hnot content hget

theorem filesBelow_congr (h : fs'.get? (l' ++ names) = fs.get? (l ++ names)) :
    fs'.filesBelow l' names = fs.filesBelow l names := by
  unfold filesBelow
  rw [h]

theorem filesBelow_of_adds {P : Location → Prop} (h : AddsDirectories P fs fs') :
    fs'.filesBelow l = fs.filesBelow l := by
  funext names
  obtain heq | ⟨-, hnone, hdir⟩ := h.entries (l ++ names)
  · exact filesBelow_congr heq
  · unfold filesBelow
    rw [hnone, hdir]

theorem names_ne_nil_of_filesBelow (hdir : fs.get? l = some .directory)
    (h : fs.filesBelow l names = some content) : names ≠ [] := by
  rintro rfl
  rw [filesBelow_eq_some, List.append_nil, hdir] at h
  cases h

theorem isName_of_filesBelow (h : fs.filesBelow l names = some content) :
    ∀ name ∈ names, IsName name := fun _ hname =>
  isName_of_mem (filesBelow_eq_some.1 h) (List.mem_append_right _ hname)

theorem mem_findFiles_keepAll {file : FoundFile} (h : fs.resolve p = .ok (.present l))
    (hdir : fs.get? l = some .directory) :
    file ∈ fs.findFiles .keepAll p ↔ file.path = p.join (.ofNames file.names) ∧
      ∃ content, fs.filesBelow l file.names = some content := by
  rw [mem_findFiles h hdir]
  constructor
  · rintro ⟨hpath, -, -, hany⟩
    obtain ⟨entry, hget, hfile⟩ := (Option.any_eq_true _ _).1 hany
    cases entry with
    | file content => exact ⟨hpath, content, filesBelow_eq_some.2 hget⟩
    | directory => cases hfile
    | link target => cases hfile
  · rintro ⟨hpath, content, hbelow⟩
    refine ⟨hpath, names_ne_nil_of_filesBelow hdir hbelow, by simp [MergeConfig.ignores,
      MergeConfig.keepAll], ?_⟩
    rw [filesBelow_eq_some.1 hbelow]
    rfl

theorem readBytes_of_filesBelow (h : fs.resolve p = .ok (.present l))
    (hdir : fs.get? l = some .directory) (hbelow : fs.filesBelow l names = some content) :
    fs.readBytes (p.join (.ofNames names)) = .ok content :=
  have hget := filesBelow_eq_some.1 hbelow
  readBytes_eq_ok.2
    ⟨_, resolve_join_ofNames h (names_ne_nil_of_filesBelow hdir hbelow) hget, hget⟩

theorem nodup_findFiles (config : MergeConfig) (h : fs.resolve p = .ok (.present l))
    (hdir : fs.get? l = some .directory) :
    ((fs.findFiles config p).map (·.names)).Nodup := by
  rw [findFiles_eq config h hdir, List.Nodup, List.pairwise_map]
  refine (fs.below_pairwise l).filterMap _ fun x y hne a ha b hb => ?_
  simp only [Option.ite_none_right_eq_some, Option.some.injEq] at ha hb
  rw [← ha.2, ← hb.2]
  exact hne

theorem findFiles_of_missing (config : MergeConfig) (h : ∀ l, fs.resolve p ≠ .ok (.present l)) :
    fs.findFiles config p = [] := by
  have hlocate : fs.locate? p = none := by
    unfold locate?
    split
    · next l hresolve => exact absurd hresolve (h l)
    · rfl
  unfold findFiles
  rw [hlocate]

/-- Where there is no directory, at most what the path itself names is found. -/
theorem findFiles_cases (config : MergeConfig)
    (h : ∀ l, fs.resolve p = .ok (.present l) → fs.get? l ≠ some .directory) :
    fs.findFiles config p = [] ∨ fs.findFiles config p = [⟨p, []⟩] := by
  by_cases hpresent : ∃ l, fs.resolve p = .ok (.present l)
  · obtain ⟨l, hresolve⟩ := hpresent
    have hlocate : fs.locate? p = some l := by
      unfold locate?
      rw [hresolve]
    unfold findFiles
    rw [hlocate]
    simp only
    split
    · next hget => exact absurd hget (h l hresolve)
    · split
      · exact .inl rfl
      · exact .inr rfl
  · exact .inl (findFiles_of_missing config fun l hresolve => hpresent ⟨l, hresolve⟩)

end

end AndroidResources.FileSystem
