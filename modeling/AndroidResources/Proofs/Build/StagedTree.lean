import AndroidResources.Proofs.Build.Cleaning
import AndroidResources.Proofs.Build.Commit
import AndroidResources.Proofs.FileSystem.Search

/-!
# Copying a tree next to its destination

* `PrefixFree` : files none of which lies below another;
* `copyInto_succeeds` : a file can be copied where no file and no directory is in the way;
* `copyFiles_succeeds` : files that are found in one tree can all be copied to their places in a new
  directory;
* `copyTree_succeeds`, `copyPart_succeeds` : all files below a directory are copied, or those of a part
  of a tree;
* `withStaged_fresh` : a tree is copied into a new directory next to its destination, unless the
  directories above that cannot be made;
* `withStaged_cases` : so is a part of a tree in a temporary directory.
-/

namespace AndroidResources

open FileSystem

/-- No file lies below another. -/
def PrefixFree (files : List Text → Option ByteArray) : Prop :=
  ∀ names more, files names ≠ none → more ≠ [] → files (names ++ more) = none

theorem FileSystem.Holds.prefixFree {fs : FileSystem} {l : Location}
    {files : List Text → Option ByteArray} (h : fs.Holds l files) : PrefixFree files := by
  intro names more hfile hmore
  obtain ⟨bytes, hbytes⟩ := Option.ne_none_iff_exists'.1 hfile
  have hget := (h.file names bytes).2 hbytes
  by_contra hbelow
  obtain ⟨bytes', hbytes'⟩ := Option.ne_none_iff_exists'.1 hbelow
  have hget' := (h.file (names ++ more) bytes').2 hbytes'
  rw [← List.append_assoc] at hget'
  rw [get?_of_append more hmore hget'] at hget
  cases hget

theorem PrefixFree.update {files : List Text → Option ByteArray} {names : List Text}
    (h : PrefixFree files)
    (hplaces : ∀ place, files place ≠ none → ¬ place <+: names ∧ ¬ names <+: place)
    (content? : Option ByteArray) : PrefixFree (Function.update files names content?) := by
  intro place more hfile hmore
  by_contra hbelow
  by_cases hplace : place = names
  · rw [hplace, Function.update_of_ne (by simpa using hmore)] at hbelow
    exact (hplaces _ hbelow).2 (List.prefix_append ..)
  · rw [Function.update_of_ne hplace] at hfile
    rw [Function.update_of_ne] at hbelow
    · exact hbelow (h place more hfile hmore)
    · rintro rfl
      exact (hplaces place hfile).1 (List.prefix_append ..)

variable {s s' : BuildState} {source destination parent : Path} {l : Location} {names : List Text}
  {name : Text} {bytes : ByteArray}

/-! ## One file -/

theorem createParent_succeeds (hleads : s.files.Leads destination l (names ++ [name]))
    (hlinks : s.files.NoLinks l names) (hfile : ¬ s.files.FileOnTheWay l names) :
    ∃ files, (Action.createParent destination).perform s = (.ok (), { s with files := files }) ∧
      AddsDirectories (OnTheWay l names) s.files files ∧
      files.get? (l ++ names) = some .directory := by
  obtain ⟨q, hq, hparent⟩ := hleads.parent?
  have hmade : ∃ files, s.files.createDirectories q = (files, none) ∧
      AddsDirectories (OnTheWay l names) s.files files ∧
      files.get? (l ++ names) = some .directory := by
    obtain ⟨htext, rfl, -⟩ | hqleads := hparent
    · refine ⟨s.files, ?_, .refl _ _, ?_⟩
      · unfold createDirectories
        rw [createAlong, if_pos htext]
      · rw [List.append_nil]
        exact hleads.2.2.1
    · have hend : names = [] ∨ EndsInName q.segments :=
        (endsInName_parent? hq).imp_left hqleads.names_eq_nil
      obtain ⟨files, hcreate⟩ :=
        (createDirectories_cases hqleads hlinks hend).resolve_right fun h => hfile h.2
      exact ⟨files, hcreate, createDirectories_leads hqleads hlinks hcreate⟩
  obtain ⟨files, hcreate, hadds, hdir⟩ := hmade
  refine ⟨files, ?_, hadds, hdir⟩
  unfold Action.createParent
  rw [hq]
  exact Action.changePartly_eq_ok.2 ⟨files, hcreate, rfl⟩

theorem copyInto_succeeds (hleads : s.files.Leads destination l (names ++ [name]))
    (hlinks : s.files.NoLinks l (names ++ [name])) (hend : EndsInName destination.segments)
    (hfile : ¬ s.files.FileOnTheWay l names)
    (htarget : s.files.get? (l ++ (names ++ [name])) ≠ some .directory)
    (hread : s.files.readBytes source = .ok bytes) :
    ∃ t, (copyInto source destination).perform s = (.ok (), t) := by
  obtain ⟨mid, hparent, hadds, hdir⟩ := createParent_succeeds hleads hlinks.of_append hfile
  have hleads' := hleads.of_keeps_all (hadds.keeps _)
  obtain ⟨k, hk, hcontent⟩ := readBytes_eq_ok.1 hread
  have hsource : mid.copySource source = .ok (k, bytes) := by
    unfold copySource
    rw [resolve_of_keeps_all (hadds.keeps _) hk]
    simp only [hadds.get?_of_some hcontent]
  have hlocation : mid.fileLocation destination = .ok (l ++ (names ++ [name])) := by
    cases hget : mid.get? (l ++ (names ++ [name])) with
    | none => exact hleads'.fileLocation_free hend hdir hget
    | some entry =>
      cases entry with
      | file content => exact hleads'.fileLocation_file hend hget
      | directory =>
        obtain heq | ⟨⟨front, -, hfront, heq⟩, -⟩ := hadds.entries (l ++ (names ++ [name]))
        · exact absurd (heq.symm.trans hget) htarget
        · have hlen := hfront.length_le
          rw [← List.append_cancel_left heq, List.length_append, List.length_singleton] at hlen
          omega
      | link target =>
        exact absurd hget (hadds.noLinks hlinks _ [] (List.append_nil _).symm (by simp) target)
  have hcopy : ∃ after, mid.copyFile source destination = .ok after := by
    unfold copyFile
    simp only [hsource, hlocation, bind, Except.bind]
    exact ⟨_, rfl⟩
  obtain ⟨after, hcopy⟩ := hcopy
  exact ⟨_, Action.bind_eq_ok.2 ⟨(), _, hparent, Action.change_eq_ok.2 ⟨after, hcopy, rfl⟩⟩⟩

/-! ## All files -/

def copyFiles (found : List FoundFile) (dir : Path) : Action Unit :=
  found.forM fun file => copyInto file.path (dir.join file.relative)

theorem endsInName_join_ofNames (p : Path) (hne : names ≠ []) (hnames : ∀ n ∈ names, IsName n) :
    EndsInName (p.join (.ofNames names)).segments := by
  intro segment hlast
  rw [Path.segments_join _ (Path.isAbsolute_ofNames hnames), Path.segments_ofNames hnames hne,
    List.getLast?_append_of_ne_nil _ hne] at hlast
  exact Path.isIdle_of_isName (hnames _ (List.mem_of_getLast? hlast))

/-- A file of a tree is copied to its place in a directory. What is there already is part of the
tree, so nothing is in the way. -/
theorem copyInto_succeeds_of_tree {source dir : Path} {bytes : ByteArray}
    {tree files : List Text → Option ByteArray} (htree : PrefixFree tree)
    (hdir : s.files.Leads dir l []) (hfiles : s.files.Holds l files)
    (hpart : ∀ names bytes, files names = some bytes → tree names = some bytes) (hne : names ≠ [])
    (hnames : ∀ n ∈ names, IsName n) (hbytes : tree names = some bytes)
    (hread : s.files.readBytes source = .ok bytes) :
    ∃ t, (copyInto source (dir.join (.ofNames names))).perform s = (.ok (), t) := by
  have hleads := hdir.ofNames hne hnames
  have hend := endsInName_join_ofNames dir hne hnames
  obtain ⟨init, last, rfl⟩ : ∃ init last, names = init ++ [last] :=
    ⟨_, _, (List.dropLast_concat_getLast hne).symm⟩
  refine copyInto_succeeds hleads (hfiles.noLinks _) hend ?_ ?_ hread
  · -- a file above the place would be in the tree, with the copied one below it
    rintro ⟨front, content, ⟨more, rfl⟩, hget⟩
    have hfront := hpart _ _ ((hfiles.file front content).1 hget)
    rw [List.append_assoc, htree front (more ++ [last]) (by simp [hfront]) (by simp)] at hbytes
    cases hbytes
  · -- and a directory at the place would hold a file of the tree below the copied one
    rw [Ne, hfiles.directory]
    rintro (hnil | ⟨next, more, hsome⟩)
    · simp at hnil
    · obtain ⟨content, hcontent⟩ := Option.ne_none_iff_exists'.1 hsome
      have hbelow := hpart _ _ hcontent
      rw [htree _ (next :: more) (by simp [hbytes]) (by simp)] at hbelow
      cases hbelow

theorem copyFiles_succeeds {S : Text → Prop} {found : List FoundFile}
    {tree files : List Text → Option ByteArray} (htree : PrefixFree tree)
    (htemp : Temporary S s.files parent l name) (hfiles : s.files.Holds (l ++ [name]) files)
    (hpart : ∀ names bytes, files names = some bytes → tree names = some bytes)
    (hfound : ∀ file ∈ found, file.names ≠ [] ∧ (∀ n ∈ file.names, IsName n) ∧
      (∀ segment ∈ file.path.segments, S segment) ∧
      ∃ bytes, tree file.names = some bytes ∧ s.files.readBytes file.path = .ok bytes) :
    ∃ t files', (copyFiles found (parent.join ⟨name⟩)).perform s = (.ok (), t) ∧
      t.calls = s.calls ∧ Besides (l ++ [name]) s.files t.files ∧
      t.files.Holds (l ++ [name]) files' ∧
      (∀ names bytes, files names = some bytes → files' names = some bytes) ∧
      (∀ names bytes, files' names = some bytes → tree names = some bytes) ∧
      ∀ file ∈ found, files' file.names = tree file.names := by
  induction found generalizing s files with
  | nil =>
    exact ⟨s, files, rfl, rfl, .refl _ _, hfiles, fun _ _ h => h, hpart, by simp⟩
  | cons file rest ih =>
    obtain ⟨hne, hnames, hsource, bytes, htreeBytes, hread⟩ := hfound file (List.mem_cons_self ..)
    have hleads := htemp.leads_ofNames hfiles.directory_self hne hnames
    obtain ⟨t, hcopy⟩ := copyInto_succeeds_of_tree htree
      (htemp.leads.into htemp.isName hfiles.directory_self) hfiles hpart hne hnames htreeBytes hread
    obtain ⟨hcalls, hsame, bytes', hread', hholds⟩ :=
      copyInto_holds hfiles htemp.closed htemp.not_spelled hsource hleads hne hcopy
    obtain rfl : bytes' = bytes := Except.ok.inj (hread'.symm.trans hread)
    have hpart' : ∀ names b, Function.update files file.names (some bytes') names = some b →
        tree names = some b := by
      intro names b hb
      rw [Function.update_apply] at hb
      split at hb
      · next heq => rw [heq, htreeBytes, hb]
      · exact hpart names b hb
    obtain ⟨t', files', hrest, hcalls', hsame', hholds', hkept, hpart'', hcopied⟩ :=
      ih (htemp.of_besides hsame) hholds hpart' fun other hother => by
        obtain ⟨hne, hnames, hsource, b, htreeB, hreadB⟩ :=
          hfound other (List.mem_cons_of_mem _ hother)
        exact ⟨hne, hnames, hsource, b, htreeB,
          htemp.closed.readBytes (hsame.keeps htemp.not_spelled) hsource hreadB⟩
    have hself : files' file.names = some bytes' := hkept _ _ (Function.update_self ..)
    refine ⟨t', files', Action.bind_eq_ok.2 ⟨(), t, hcopy, hrest⟩, hcalls'.trans hcalls,
      hsame.trans hsame', hholds', fun names b hb => hkept names b ?_, hpart'', ?_⟩
    · -- what was at the place was the file of the tree already
      by_cases hplace : names = file.names
      · rw [hplace, Function.update_self]
        rw [← hpart _ _ hb, hplace, htreeBytes]
      · rw [Function.update_of_ne hplace, hb]
    · rintro other hother
      rcases List.mem_cons.1 hother with rfl | hother
      · rw [hself, htreeBytes]
      · exact hcopied other hother

/-! ## A whole tree -/

section

variable {fs : FileSystem} {files : List Text → Option ByteArray} {sub : Text} {limit : Nat}

theorem prefixFree_filesBelow (fs : FileSystem) (l : Location) : PrefixFree (fs.filesBelow l) := by
  intro names more hfile hmore
  obtain ⟨bytes, hbytes⟩ := Option.ne_none_iff_exists'.1 hfile
  by_contra hbelow
  obtain ⟨bytes', hbytes'⟩ := Option.ne_none_iff_exists'.1 hbelow
  rw [filesBelow_eq_some] at hbytes hbytes'
  rw [← List.append_assoc] at hbytes'
  rw [get?_of_append more hmore hbytes'] at hbytes
  cases hbytes

theorem copyTree_succeeds {S : Text → Prop} {k : Location}
    (hresolve : s.files.resolve source = .ok (.present k))
    (hdir : s.files.get? k = some .directory) (hsource : ∀ segment ∈ source.segments, S segment)
    (hnames : ∀ names bytes, s.files.filesBelow k names = some bytes → ∀ n ∈ names, S n)
    (htemp : Temporary S s.files parent l name)
    (hempty : s.files.Holds (l ++ [name]) fun _ => none) :
    ∃ t, (copyFiles (s.files.findFiles .keepAll source) (parent.join ⟨name⟩)).perform s =
        (.ok (), t) ∧ Besides (l ++ [name]) s.files t.files ∧
      t.files.Holds (l ++ [name]) (s.files.filesBelow k) := by
  have hfound : ∀ file ∈ s.files.findFiles .keepAll source,
      file.names ≠ [] ∧ (∀ n ∈ file.names, IsName n) ∧ (∀ segment ∈ file.path.segments, S segment) ∧
        ∃ bytes, s.files.filesBelow k file.names = some bytes ∧
          s.files.readBytes file.path = .ok bytes := by
    intro file hfile
    obtain ⟨hpath, bytes, hbytes⟩ := (mem_findFiles_keepAll hresolve hdir).1 hfile
    have hne := names_ne_nil_of_filesBelow hdir hbytes
    have hisName := isName_of_filesBelow hbytes
    refine ⟨hne, hisName, fun segment hsegment => ?_, bytes, hbytes, ?_⟩
    · rw [hpath, Path.segments_join _ (Path.isAbsolute_ofNames hisName),
        Path.segments_ofNames hisName hne, List.mem_append] at hsegment
      obtain hsegment | hsegment := hsegment
      · exact hsource segment (Path.mem_segments_of_mem_leadingSegments hsegment)
      · exact hnames _ _ hbytes segment hsegment
    · rw [hpath]
      exact readBytes_of_filesBelow hresolve hdir hbytes
  obtain ⟨t, copied, hcopy, -, hsame, hcopied, -, hpart, hall⟩ :=
    copyFiles_succeeds (prefixFree_filesBelow _ _) htemp hempty (by simp) hfound
  have hwhole : copied = s.files.filesBelow k := by
    funext names
    cases hbytes : s.files.filesBelow k names with
    | none =>
      cases hcopy : copied names with
      | none => rfl
      | some bytes =>
        rw [hpart names bytes hcopy] at hbytes
        cases hbytes
    | some bytes =>
      rw [← hbytes]
      exact hall ⟨source.join (.ofNames names), names⟩
        ((mem_findFiles_keepAll hresolve hdir).2 ⟨rfl, bytes, hbytes⟩)
  rw [hwhole] at hcopied
  exact ⟨t, hcopy, hsame, hcopied⟩

/-- A part of a tree is copied to a new temporary directory. It may be missing. -/
theorem copyPart_succeeds {S : Text → Prop} {l' : Location} {fresh : Text}
    (hfiles : s.files.Holds l files) (hsub : files [sub] = none)
    (hleads : s.files.Leads source l [sub]) (hsource : ∀ segment ∈ source.segments, S segment)
    (hnames : ∀ names bytes, files names = some bytes → ∀ n ∈ names, S n)
    (htemp : Temporary S s.files parent l' fresh)
    (hempty : s.files.Holds (l' ++ [fresh]) fun _ => none) :
    ∃ t, (copyFiles (s.files.findFiles .keepAll source) (parent.join ⟨fresh⟩)).perform s = (.ok (), t) ∧
      Besides (l' ++ [fresh]) s.files t.files ∧
      t.files.Holds (l' ++ [fresh]) fun names => files (sub :: names) := by
  have hpart : s.files.filesBelow (l ++ [sub]) = fun names => files (sub :: names) := by
    funext names
    apply Option.ext
    intro bytes
    rw [filesBelow_eq_some, List.append_assoc, hfiles.file]
    rfl
  cases hget : s.files.get? (l ++ [sub]) with
  | some entry =>
    have hdir : s.files.get? (l ++ [sub]) = some .directory := by
      cases entry with
      | file content => exact absurd ((hfiles.file _ _).1 hget) (by simp [hsub])
      | directory => exact hget
      | link target => exact absurd hget (hfiles.noLink _ _)
    rw [← hpart]
    refine copyTree_succeeds (hleads.resolve_present (.inl rfl) (.inl rfl) hdir) hdir hsource
      (fun names bytes hbytes n hn => ?_) htemp hempty
    rw [hpart] at hbytes
    exact hnames _ _ hbytes n (List.mem_cons_of_mem _ hn)
  | none =>
    -- the part has no files
    have hfound : s.files.findFiles .keepAll source = [] := by
      refine findFiles_of_missing _ fun place hplace => ?_
      obtain ⟨e, he⟩ := get?_of_present hplace
      obtain rfl : place = l ++ [sub] :=
        hleads.location (hfiles.noLinks _) (.inl rfl) (.inl rfl) hplace
      rw [hget] at he
      cases he
    have hmissing : (fun names => files (sub :: names)) = fun _ => none := by
      rw [← hpart]
      funext names
      unfold filesBelow
      rw [get?_append_of_none hget]
    rw [hfound, hmissing]
    exact ⟨s, rfl, .refl _ _, hempty⟩

/-- A tree has been copied to a temporary directory next to its destination. -/
structure StagedAt (limit : Nat) (tree : List Text → Option ByteArray) (destination : Path)
    (made staged : FileSystem) (place : TemporaryPlace) : Prop where
  parent : place.parent = stagingParent destination
  unused : ∀ k e, made.get? k = some e → ∀ text ∈ k, text.length < place.name.length
  reserved : place.Reserved (Short limit) staged
  besides : Besides place.directory made staged
  holds : staged.Holds place.directory tree

namespace StagedAt

variable {tree : List Text → Option ByteArray} {made staged : FileSystem}
  {place other : TemporaryPlace}

theorem vacant (h : StagedAt limit tree destination made staged place) :
    made.get? place.directory = none := by
  by_contra hsome
  obtain ⟨e, hget⟩ := Option.ne_none_iff_exists'.1 hsome
  exact Nat.lt_irrefl _ (h.unused _ e hget place.name (by simp [TemporaryPlace.directory]))

theorem name_ne (h : StagedAt limit tree destination made staged place)
    (hdir : made.get? other.directory = some .directory) : place.name ≠ other.name :=
  ne_of_apply_ne List.length
    (h.unused _ _ hdir other.name (by simp [TemporaryPlace.directory])).ne'

theorem inUse {places : List TemporaryPlace} {P : Location → Prop} {fs' : FileSystem}
    (h : StagedAt limit tree destination made staged place)
    (hbefore : TemporaryPlace.InUse limit places P fs fs') (hadds : AddsDirectories P fs' made)
    (hdirs : ∀ other ∈ places, fs'.get? other.directory = some .directory) :
    TemporaryPlace.InUse limit (place :: places) P fs staged :=
  (hbefore.adds hadds).cons h.reserved h.besides h.vacant fun other hother =>
    h.name_ne (hadds.get?_of_some (hdirs other hother))

theorem holds_other (h : StagedAt limit tree destination made staged place) (hlimit : 1 < limit)
    (hcreate : fs.createDirectories (stagingParent destination) = (made, none))
    (hdestination : ∀ segment ∈ destination.segments, Short limit segment)
    (hother : other.Reserved (Short limit) fs) (hfiles : fs.Holds other.directory files) :
    staged.Holds other.directory files := by
  have hadds := createDirectories_closed hother.temporary.closed (Nat.zero_lt_of_lt hlimit)
    (short_stagingParent hlimit hdestination)
  rw [hcreate] at hadds
  have hother' := hother.of_adds hadds
  have hplace : place.Reserved (Short limit) made :=
    ⟨h.reserved.temporary.of_besides h.besides.symm, .inr h.vacant⟩
  have hne := h.name_ne (hadds.get?_of_some hfiles.directory_self)
  refine hfiles.of_get?_eq fun names => ?_
  rw [h.besides.entries _ (hplace.apart_below hother' hne names)]
  refine hadds.get?_of_not fun hall => ?_
  exact hother.temporary.hidden (hall _ (by simp [TemporaryPlace.directory]))

theorem location_eq (h : StagedAt limit tree destination made staged place)
    (hcreate : fs.createDirectories (stagingParent destination) = (made, none))
    (hlast : fs.LastNamed destination) : place.location = (fs.spelled destination).dropLast := by
  obtain ⟨names, name, hnames, hspelled⟩ := hlast.exists_names
  have hleads := (h.reserved.temporary.of_besides h.besides.symm).leads
  rw [h.parent] at hleads
  rw [hspelled, ← List.append_assoc, List.dropLast_concat]
  exact hleads.eq_of_nil (leads_of_createDirectories hlast.direct hnames hcreate)

end StagedAt

/-- A tree is copied into a new directory next to its destination, unless the directories above that
cannot be made. Nothing depends on what comes next. -/
theorem withStaged_fresh (source destination : Path) (s : BuildState) :
    (∃ e, (s.files.createDirectories (stagingParent destination)).2 ≠ none ∧
      ∀ {α : Type} (body : StagedTree → Action α), (withStaged source destination body).perform s =
        (.error e, { s with files := (s.files.createDirectories (stagingParent destination)).1 })) ∨
    ∃ made opened place count,
      s.files.createDirectories (stagingParent destination) = (made, none) ∧
      StagedAt place.name.length (fun _ => none) destination made opened place ∧
      (∀ p ∈ [source, destination], ∀ segment ∈ p.segments, Short place.name.length segment) ∧
      count = (opened.findFiles .keepAll source).length ∧
      ∀ {α : Type} (body : StagedTree → Action α), (withStaged source destination body).perform s =
        ((copyFiles (opened.findFiles .keepAll source) place.path >>= fun _ =>
          body ⟨place.path, destination, count⟩).thenAlways fun fs =>
            (fs.removeTree place.path).1).perform { s with files := opened } := by
  cases hcreate : s.files.createDirectories (stagingParent destination) with
  | mk made fault? =>
  cases fault? with
  | some fault =>
    refine .inl ⟨.io (stagingParent destination) fault, by simp, fun body => ?_⟩
    unfold withStaged
    rw [Action.perform_bind, Action.perform_createDirectories, hcreate]
  | none =>
    right
    obtain ⟨fresh, hfresh⟩ : ∃ fresh, fresh = made.freshName [source, destination] := ⟨_, rfl⟩
    have hshort : ∀ p ∈ [source, destination], ∀ segment ∈ p.segments, Short fresh.length segment :=
      fun p hp segment hsegment => hfresh ▸ short_of_mem_segments made hp hsegment
    have hlimit : 1 < fresh.length := by
      rw [hfresh]
      unfold freshName
      simp
    have hstage := short_stagingParent hlimit (hshort destination (by simp))
    have hself : ¬ Short fresh.length fresh := Nat.lt_irrefl _
    obtain ⟨l, opened, htemp, hsame, hnone, hempty, hperform⟩ :=
      withTemporary_fresh (s := { s with files := made }) hfresh
        (isDirectory_of_createDirectories (text_stagingParent destination) hcreate)
        fun hmem => hself (hstage fresh hmem)
    have hclosed : Closed (Short fresh.length) made := hfresh ▸ closed_short made _
    refine ⟨made, opened, ⟨stagingParent destination, l, fresh⟩, _, rfl, ⟨rfl, ?_, ⟨?_, ?_⟩, hsame,
      hempty⟩, hshort, rfl, fun body => ?_⟩
    · exact fun k e hget text hmem => hfresh ▸ length_lt_freshName_of_location _ hget hmem
    · exact htemp.of_closed hself (hclosed.of_besides hsame fun hall => hself (hall fresh (by simp)))
        hstage
    · exact .inl hempty.directory_self
    · unfold withStaged
      rw [Action.perform_bind, Action.perform_createDirectories, hcreate]
      simp only
      rw [hperform, Action.perform_thenAlways, Action.perform_bind, Action.perform_ask]
      rfl

/-- A part of a tree in a temporary directory is copied next to a destination that is spelled in
short names. Only the directories there may be in the way, and nothing depends on what comes next. -/
theorem withStaged_cases (hscratch : Temporary (Short limit) s.files parent l name)
    (hfiles : s.files.Holds (l ++ [name]) files) (hlimit : 1 < limit) (hname : IsName sub)
    (hsub : files [sub] = none) (hsource : source = (parent.join ⟨name⟩).join ⟨sub⟩)
    (hdestination : ∀ segment ∈ destination.segments, Short limit segment) :
    (∃ e, (s.files.createDirectories (stagingParent destination)).2 ≠ none ∧
      ∀ {α : Type} (body : StagedTree → Action α), (withStaged source destination body).perform s =
        (.error e, { s with files := (s.files.createDirectories (stagingParent destination)).1 })) ∨
    ∃ made place t count,
      s.files.createDirectories (stagingParent destination) = (made, none) ∧
      StagedAt limit (fun names => files (sub :: names)) destination made t.files place ∧
      ∀ {α : Type} (body : StagedTree → Action α), (withStaged source destination body).perform s =
        ((body ⟨place.path, destination, count⟩).thenAlways fun fs =>
          (fs.removeTree place.path).1).perform t := by
  refine (withStaged_fresh source destination s).imp_right ?_
  rintro ⟨made, opened, place, count, hcreate, hopened, hshort, -, hperform⟩
  have hstage := short_stagingParent hlimit hdestination
  have hadds := createDirectories_closed hscratch.closed (Nat.zero_lt_of_lt hlimit) hstage
  rw [hcreate] at hadds
  have hmade : made.Holds (l ++ [name]) files := hfiles.of_get?_eq fun names =>
    hadds.get?_of_not fun hall => hscratch.hidden (hall name (by simp))
  have hlonger := hopened.unused _ _ hmade.directory_self name (by simp)
  have hlong : ¬ Short limit place.name := fun hshort => hscratch.hidden (hlonger.trans hshort)
  have hreserved : TemporaryPlace.Reserved (Short limit) made ⟨parent, l, name⟩ :=
    ⟨hscratch.of_adds hadds, .inl hmade.directory_self⟩
  have hvacant : place.Reserved (Short limit) made :=
    ⟨(hopened.reserved.temporary.of_besides hopened.besides.symm).of_closed hlong
      hreserved.temporary.closed (hopened.parent ▸ hstage), .inr hopened.vacant⟩
  have hne : place.name ≠ name := ne_of_apply_ne List.length hlonger.ne'
  have htemp := (hreserved.of_besides hvacant hne hopened.besides).temporary
  have hholds : opened.Holds (l ++ [name]) files := hmade.of_get?_eq fun names =>
    hopened.besides.entries _ (hvacant.apart_below hreserved hne names)
  have hleads : opened.Leads source (l ++ [name]) [sub] := by
    rw [hsource]
    exact (htemp.leads.into htemp.isName hholds.directory_self).child hname
  have hnames : ∀ names bytes, files names = some bytes → ∀ n ∈ names, Short place.name.length n :=
    fun names bytes hbytes n hn =>
      hopened.unused _ _ ((hmade.file _ _).2 hbytes) n (List.mem_append_right _ hn)
  obtain ⟨t, hcopy, hsame, hcopied⟩ := copyPart_succeeds (s := { s with files := opened }) hholds hsub
    hleads (hshort source (by simp)) hnames hopened.reserved.temporary hopened.holds
  refine ⟨made, place, t, count, hcreate, ⟨hopened.parent, hopened.unused,
    hvacant.of_self (hopened.besides.trans hsame) hcopied.directory_self,
    hopened.besides.trans hsame, hcopied⟩, fun body => ?_⟩
  rw [hperform, Action.perform_thenAlways, Action.perform_bind]
  unfold TemporaryPlace.path
  rw [hcopy]
  rfl

end

end AndroidResources
