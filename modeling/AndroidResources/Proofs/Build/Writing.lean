import AndroidResources.Proofs.Build.StagedTree
import AndroidResources.Proofs.FileSystem.Passage

/-!
# Files written into a directory

Several files are written into one directory, one after the other, whatever path leads there.

* `FileSystem.Reaches` : names read from a path lead into a directory;
* `exists_reaches` : they do once a file has been written there;
* `writeInto_readBytes` : a text that has been written at a path is read there;
* `writeNamed`, `writeNamed_cases` : what a run of such writes leaves;
* `writeNamed_readBytes` : without links among the names, each file keeps its text to the end;
* `writeNamed_succeeds` : when nothing goes wrong.
-/

namespace AndroidResources

open FileSystem

/-! ## A directory by any path -/

namespace FileSystem

variable {fs fs' : FileSystem} {dir : Path} {l : Location} {name other : Text}

/-- A name read from the path leads to the directory and from there down the name. -/
def Reaches (fs : FileSystem) (dir : Path) (l : Location) : Prop :=
  ∀ name, IsName name → fs.Leads (dir.join ⟨name⟩) l [name]

theorem text_child_ne_nil (dir : Path) (hname : IsName name) : (dir.join ⟨name⟩).text ≠ [] := by
  intro hnil
  have hsegments := segments_child dir hname
  rw [(Path.text_eq_nil_iff _).1 hnil, ← List.nil_append [[]]] at hsegments
  obtain ⟨-, heq⟩ := List.append_inj' hsegments rfl
  exact hname.1 (List.cons.inj heq).1.symm

theorem isAbsolute_child (dir : Path) (hname : IsName name) :
    (dir.join ⟨name⟩).isAbsolute = dir.isAbsolute := by
  have hrelative : Path.isAbsolute ⟨name⟩ = false := Path.isAbsolute_single hname.2.2.2
  by_cases htext : dir.text = []
  · obtain ⟨text⟩ := dir
    obtain rfl : text = [] := htext
    unfold Path.join
    rw [hrelative, if_neg Bool.false_ne_true, if_pos (.inl rfl)]
    exact hrelative
  · exact Path.isAbsolute_join hrelative htext

theorem exists_reaches {k : Location} (hname : IsName name)
    (h : fs.fileLocation (dir.join ⟨name⟩) = .ok k) : ∃ l, fs.Reaches dir l := by
  obtain ⟨place, hresolve, -⟩ := fileLocation_eq_ok h
  obtain ⟨-, horigin, hwalk⟩ := resolveSegments_eq_ok.1 hresolve
  rw [segments_child dir hname] at hwalk
  obtain ⟨l, hfront, hl⟩ :=
    walk_front_of_name horigin (List.mem_singleton_self name) hname.1 hwalk
  refine ⟨l, fun other hother => ?_⟩
  have horigin' : fs.origin (dir.join ⟨other⟩) = fs.origin (dir.join ⟨name⟩) :=
    fs.origin_congr ((isAbsolute_child dir hother).trans (isAbsolute_child dir hname).symm)
  rw [← horigin'] at horigin hfront
  have hup : "..".toList ∉ [other] := by
    rw [List.mem_singleton]
    exact Ne.symm hother.2.2.1
  have hleads := Leads.of_walk (text_child_ne_nil dir hother) horigin hl
    (segments_child dir hother) hfront hup
  rwa [Path.properNames_eq_self (by simpa using Path.isIdle_of_isName hother)] at hleads

namespace Reaches

theorem of_leads {base : Location} {names : List Text} (h : fs.Leads dir base names)
    (hdir : fs.get? (base ++ names) = some .directory) : fs.Reaches dir (base ++ names) := by
  have hdirectory : fs.Leads dir (base ++ names) [] :=
    .of_resolve (h.resolve_present (.inl rfl) (.inl rfl) hdir) hdir
  exact fun _ hname => hdirectory.child hname

theorem of_ways (h : fs.Reaches dir l) (hways : KeepsWays fs fs') : fs'.Reaches dir l :=
  fun name hname => (h name hname).of_ways hways

/-- A file is written at the name itself where that is free or names a file. -/
theorem fileLocation (h : fs.Reaches dir l) (hname : IsName name)
    (hfree : fs.get? (l ++ [name]) = none ∨ ∃ content, fs.get? (l ++ [name]) = some (.file content)) :
    fs.fileLocation (dir.join ⟨name⟩) = .ok (l ++ [name]) := by
  have hleads : fs.Leads (dir.join ⟨name⟩) l ([] ++ [name]) := h name hname
  have hend := endsInName_child dir hname
  obtain hnone | ⟨content, hfile⟩ := hfree
  · refine hleads.fileLocation_free hend ?_ hnone
    rw [List.append_nil]
    exact hleads.2.2.1
  · exact hleads.fileLocation_file hend hfile

theorem location_eq (h : fs.Reaches dir l) (hname : IsName name)
    (hlink : ∀ target, fs.get? (l ++ [name]) ≠ some (.link target)) {k : Location}
    (hk : fs.fileLocation (dir.join ⟨name⟩) = .ok k) : k = l ++ [name] :=
  (fileLocation_leads (h name hname) (noLinks_child hlink) hk).1

theorem not_link (h : fs.Reaches dir l) (hname : IsName name)
    (hlink : fs.isLink (dir.join ⟨name⟩) = false) (target : Path) :
    fs.get? (l ++ [name]) ≠ some (.link target) := by
  intro hget
  have hleads : fs.Leads (dir.join ⟨name⟩) l ([] ++ [name]) := h name hname
  obtain ⟨left, hresolve⟩ : ∃ left, fs.resolveSegments .kept _ (dir.join ⟨name⟩).segments = _ := by
    refine hleads.resolve_last (.inl rfl) (endsInName_child dir hname) ?_
    rw [List.append_nil]
    exact hleads.2.2.1
  have hfound : fs.resolveSegments .kept (dir.join ⟨name⟩) (dir.join ⟨name⟩).segments =
      .ok (.present (l ++ [name])) := by
    rw [hresolve, List.append_nil]
    apply walk_of_kept
    rw [descend_single hname, hget]
  unfold isLink at hlink
  rw [hfound] at hlink
  simp [hget] at hlink

theorem readBytes (h : fs.Reaches dir l) (hname : IsName name) {content : ByteArray}
    (hget : fs.get? (l ++ [name]) = some (.file content)) :
    fs.readBytes (dir.join ⟨name⟩) = .ok content := by
  have hleads : fs.Leads (dir.join ⟨name⟩) l ([] ++ [name]) := h name hname
  apply readBytes_eq_ok.2
  exact ⟨_, hleads.resolve_present_file (.inl rfl) (endsInName_child dir hname) hget, hget⟩

end Reaches

end FileSystem

/-! ## One file -/

section

variable {s s' : BuildState} {dir p : Path} {l : Location} {name text : Text} {u : Unit}

theorem writeInto_eq_ok : (writeInto p text).perform s = (.ok u, s') ↔
    ∃ mid, (Action.createParent p).perform s = (.ok (), mid) ∧
      ∃ files, mid.files.writeFile p (Text.toUtf8 text) = .ok files ∧
        s' = { mid with files := files } := by
  unfold writeInto
  rw [Action.bind_eq_ok]
  simp only [Action.change_eq_ok]
  exact ⟨fun ⟨_, h⟩ => h, fun h => ⟨(), h⟩⟩

/-- What has been written is read at the same path. -/
theorem writeInto_readBytes (h : (writeInto p text).perform s = (.ok u, s')) :
    s'.files.readBytes p = .ok (Text.toUtf8 text) := by
  obtain ⟨mid, -, files, hwrite, rfl⟩ := writeInto_eq_ok.1 h
  exact readBytes_writeFile hwrite

theorem FileSystem.Reaches.createParent (h : s.files.Reaches dir l) (hname : IsName name) :
    (Action.createParent (dir.join ⟨name⟩)).perform s = (.ok (), s) := by
  have hleads : s.files.Leads (dir.join ⟨name⟩) l ([] ++ [name]) := h name hname
  obtain ⟨q, hq, hparent⟩ := hleads.parent?
  have hcreate : s.files.createDirectories q = (s.files, none) := by
    unfold createDirectories
    obtain ⟨htext, -, -⟩ | hqleads := hparent
    · rw [createAlong, if_pos htext]
    · exact createAlong_of_nil hqleads _
  unfold Action.createParent
  rw [hq]
  exact Action.changePartly_eq_ok.2 ⟨_, hcreate, rfl⟩

theorem exists_reaches_of_writeInto (hname : IsName name)
    (h : (writeInto (dir.join ⟨name⟩) text).perform s = (.ok u, s')) :
    ∃ mid l, mid.files.Reaches dir l ∧
      (writeInto (dir.join ⟨name⟩) text).perform mid = (.ok u, s') := by
  obtain ⟨mid, -, files, hwrite, rfl⟩ := writeInto_eq_ok.1 h
  obtain ⟨target, htarget, -⟩ := writeFile_eq_ok hwrite
  obtain ⟨l, hreaches⟩ := exists_reaches hname htarget
  exact ⟨mid, l, hreaches,
    writeInto_eq_ok.2 ⟨mid, hreaches.createParent hname, files, hwrite, rfl⟩⟩

/-- A write into a directory that is reached keeps all ways, and it changes only the file with the
name, unless that is a link. -/
theorem writeInto_of_reaches (hreaches : s.files.Reaches dir l) (hname : IsName name)
    (h : (writeInto (dir.join ⟨name⟩) text).perform s = (.ok u, s')) :
    KeepsWays s.files s'.files ∧
      ((∀ target, s.files.get? (l ++ [name]) ≠ some (.link target)) → ∀ k, s'.files.get? k =
        if k = l ++ [name] then some (.file (Text.toUtf8 text)) else s.files.get? k) := by
  obtain ⟨mid, hparent, files, hwrite, rfl⟩ := writeInto_eq_ok.1 h
  rw [hreaches.createParent hname] at hparent
  cases hparent
  refine ⟨writeFile_keepsWays hwrite, fun hlink k => ?_⟩
  obtain ⟨target, htarget, rfl⟩ := writeFile_eq_ok hwrite
  obtain ⟨-, -, -, -, hplace, -⟩ := fileLocation_eq_ok htarget
  obtain rfl := hreaches.location_eq hname hlink htarget
  exact get?_place hplace _ k

end

/-! ## Several files -/

/-- Writes texts with names into a directory; the results are the paths. -/
def writeNamed (dir : Path) (sources : List (Text × Text)) : Action (List Path) :=
  sources.mapM fun source => do
    writeInto (dir.join ⟨source.1⟩) source.2
    return dir.join ⟨source.1⟩

section

variable {s s' : BuildState} {dir : Path} {l : Location} {sources : List (Text × Text)}
  {written : List Path}

theorem writeNamed_cons {source : Text × Text} {rest : List (Text × Text)} :
    (writeNamed dir (source :: rest)).perform s = (.ok written, s') ↔
      ∃ t others, (writeInto (dir.join ⟨source.1⟩) source.2).perform s = (.ok (), t) ∧
        (writeNamed dir rest).perform t = (.ok others, s') ∧
          written = dir.join ⟨source.1⟩ :: others := by
  unfold writeNamed
  rw [List.mapM_cons]
  constructor
  · intro h
    obtain ⟨file, t, hwrite, h⟩ := Action.bind_eq_ok.1 h
    obtain ⟨others, t', hothers, h⟩ := Action.bind_eq_ok.1 h
    obtain ⟨u, t'', hwrite, hfile⟩ := Action.bind_eq_ok.1 hwrite
    cases hfile
    cases h
    exact ⟨t, others, hwrite, hothers, rfl⟩
  · rintro ⟨t, others, hwrite, hothers, rfl⟩
    exact Action.bind_eq_ok.2 ⟨_, t, Action.bind_eq_ok.2 ⟨(), t, hwrite, rfl⟩,
      Action.bind_eq_ok.2 ⟨others, s', hothers, rfl⟩⟩

theorem writeNamed_paths (h : (writeNamed dir sources).perform s = (.ok written, s')) :
    written = sources.map fun source => dir.join ⟨source.1⟩ := by
  induction sources generalizing s written with
  | nil =>
    cases h
    rfl
  | cons source rest ih =>
    obtain ⟨t, others, -, hothers, rfl⟩ := writeNamed_cons.1 h
    rw [ih hothers, List.map_cons]

/-- A run of writes into a directory that is reached keeps all ways. If none of the names is that of
a link afterwards, each name has its own text, and elsewhere nothing has changed. The induction is on
the files; a link that is not there in the end was not there before. -/
theorem writeNamed_cases (hreaches : s.files.Reaches dir l)
    (hnames : ∀ source ∈ sources, IsName source.1) (hnodup : (sources.map Prod.fst).Nodup)
    (h : (writeNamed dir sources).perform s = (.ok written, s')) :
    KeepsWays s.files s'.files ∧
      ((∀ source ∈ sources, ∀ target, s'.files.get? (l ++ [source.1]) ≠ some (.link target)) →
        (∀ source ∈ sources,
            s'.files.get? (l ++ [source.1]) = some (.file (Text.toUtf8 source.2))) ∧
          ∀ k, (∀ source ∈ sources, k ≠ l ++ [source.1]) → s'.files.get? k = s.files.get? k) := by
  induction sources generalizing s written with
  | nil =>
    cases h
    exact ⟨.refl _, fun _ => ⟨by simp, fun _ _ => rfl⟩⟩
  | cons source rest ih =>
    obtain ⟨t, others, hwrite, hothers, -⟩ := writeNamed_cons.1 h
    rw [List.map_cons, List.nodup_cons] at hnodup
    obtain ⟨hways, hwritten⟩ :=
      writeInto_of_reaches hreaches (hnames source (List.mem_cons_self ..)) hwrite
    obtain ⟨hways', hrest⟩ := ih (hreaches.of_ways hways)
      (fun other hother => hnames other (List.mem_cons_of_mem _ hother)) hnodup.2 hothers
    refine ⟨hways.trans hways', fun hlinks => ?_⟩
    have hget := hwritten fun target hlink =>
      hlinks source (List.mem_cons_self ..) target ((hways.trans hways').entries _ _ rfl hlink)
    obtain ⟨htexts, hkept⟩ := hrest fun other hother => hlinks other (List.mem_cons_of_mem _ hother)
    have hother : ∀ other ∈ rest, l ++ [source.1] ≠ l ++ [other.1] := fun other hother heq => by
      apply hnodup.1
      rw [(List.cons.inj (List.append_cancel_left heq)).1]
      exact List.mem_map_of_mem hother
    refine ⟨fun file hfile => ?_, fun k hk => ?_⟩
    · rcases List.mem_cons.1 hfile with rfl | hfile
      · rw [hkept _ hother, hget, if_pos rfl]
      · exact htexts file hfile
    · rw [hkept k fun other hother => hk other (List.mem_cons_of_mem _ hother), hget,
        if_neg (hk source (List.mem_cons_self ..))]

/-- Whatever path leads to the directory: if in the end none of the files is a link, each is read as
it was written. -/
theorem writeNamed_readBytes (hnames : ∀ source ∈ sources, IsName source.1)
    (hnodup : (sources.map Prod.fst).Nodup)
    (h : (writeNamed dir sources).perform s = (.ok written, s'))
    (hlinks : ∀ source ∈ sources, s'.files.isLink (dir.join ⟨source.1⟩) = false) :
    ∀ source ∈ sources, s'.files.readBytes (dir.join ⟨source.1⟩) = .ok (Text.toUtf8 source.2) := by
  cases sources with
  | nil => simp
  | cons first rest =>
    -- the first write makes the directory; the whole run starts behind that
    obtain ⟨t, others, hwrite, hothers, rfl⟩ := writeNamed_cons.1 h
    obtain ⟨mid, l, hreaches, hwrite'⟩ :=
      exists_reaches_of_writeInto (hnames first (List.mem_cons_self ..)) hwrite
    obtain ⟨hways, hwritten⟩ := writeNamed_cases hreaches hnames hnodup
      (writeNamed_cons.2 ⟨t, others, hwrite', hothers, rfl⟩)
    have hreaches' := hreaches.of_ways hways
    obtain ⟨htexts, -⟩ := hwritten fun source hsource =>
      hreaches'.not_link (hnames source hsource) (hlinks source hsource)
    exact fun source hsource =>
      hreaches'.readBytes (hnames source hsource) (htexts source hsource)

theorem writeNamed_of_reaches (hreaches : s.files.Reaches dir l)
    (hnames : ∀ source ∈ sources, IsName source.1)
    (hfree : ∀ source ∈ sources, s.files.get? (l ++ [source.1]) = none ∨
      ∃ content, s.files.get? (l ++ [source.1]) = some (.file content)) :
    ∃ written s', (writeNamed dir sources).perform s = (.ok written, s') := by
  induction sources generalizing s with
  | nil => exact ⟨_, _, rfl⟩
  | cons source rest ih =>
    have hname := hnames source (List.mem_cons_self ..)
    have hlocation := hreaches.fileLocation hname (hfree source (List.mem_cons_self ..))
    have hwrite : (writeInto (dir.join ⟨source.1⟩) source.2).perform s =
        (.ok (), ⟨s.files.place (l ++ [source.1]) (.file (Text.toUtf8 source.2)), s.calls⟩) := by
      refine writeInto_eq_ok.2 ⟨s, hreaches.createParent hname, _, ?_, rfl⟩
      unfold writeFile
      rw [hlocation]
      rfl
    obtain ⟨hways, -⟩ := writeInto_of_reaches hreaches hname hwrite
    obtain ⟨-, -, -, -, hplace, -⟩ := fileLocation_eq_ok hlocation
    obtain ⟨others, s', hothers⟩ := ih (hreaches.of_ways hways)
      (fun other hother => hnames other (List.mem_cons_of_mem _ hother)) fun other hother => by
        rw [get?_place hplace]
        split
        · exact .inr ⟨_, rfl⟩
        · exact hfree other (List.mem_cons_of_mem _ hother)
    exact ⟨_, s', writeNamed_cons.2 ⟨_, others, hwrite, hothers, rfl⟩⟩

theorem writeNamed_succeeds {base : Location} {names : List Text}
    (hleads : s.files.Leads dir base names) (hlinks : s.files.NoLinks base names)
    (hfile : ¬ s.files.FileOnTheWay base names) (hnames : ∀ source ∈ sources, IsName source.1)
    (hfree : ∀ source ∈ sources, s.files.get? (base ++ names ++ [source.1]) = none ∨
      ∃ content, s.files.get? (base ++ names ++ [source.1]) = some (.file content)) :
    ∃ written s', (writeNamed dir sources).perform s = (.ok written, s') := by
  cases sources with
  | nil => exact ⟨_, _, rfl⟩
  | cons first rest =>
    have hchild := hleads.concat (hnames first (List.mem_cons_self ..))
    obtain ⟨made, hparent, hadds, hdir⟩ := createParent_succeeds hchild hlinks hfile
    have hreaches : made.Reaches dir (base ++ names) :=
      .of_leads (hleads.of_keeps_all (hadds.keeps _)) hdir
    -- directories have come to places on the way only
    have hfree' : ∀ source ∈ first :: rest, made.get? (base ++ names ++ [source.1]) = none ∨
        ∃ content, made.get? (base ++ names ++ [source.1]) = some (.file content) := by
      intro source hsource
      rw [hadds.get?_of_not]
      · exact hfree source hsource
      · rintro ⟨front, -, hfront, heq⟩
        rw [List.append_assoc] at heq
        have hlen := hfront.length_le
        rw [← List.append_cancel_left heq, List.length_append, List.length_singleton] at hlen
        omega
    obtain ⟨written, s', hrun⟩ :
        ∃ written s', (writeNamed dir (first :: rest)).perform { s with files := made } = _ :=
      writeNamed_of_reaches hreaches hnames hfree'
    obtain ⟨t, others, hwrite, hothers, rfl⟩ := writeNamed_cons.1 hrun
    obtain ⟨mid, hmid, hwritten⟩ := writeInto_eq_ok.1 hwrite
    rw [hreaches.createParent (hnames first (List.mem_cons_self ..))] at hmid
    cases hmid
    exact ⟨_, s', writeNamed_cons.2
      ⟨t, others, writeInto_eq_ok.2 ⟨_, hparent, hwritten⟩, hothers, rfl⟩⟩

end

end AndroidResources
