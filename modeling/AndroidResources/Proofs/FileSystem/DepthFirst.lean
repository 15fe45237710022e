import AndroidResources.Proofs.FileSystem.Search
import AndroidResources.Proofs.Path.Steps
import AndroidResources.Proofs.Text.ByteOrder
import Mathlib.Data.List.Lex
import Mathlib.Data.List.Nodup
import Mathlib.Data.List.Perm.Subperm

/-!
# Searches from directory to directory

A search picks files out of all entries below a directory. A walk takes the entries of a directory
in the order of their names and goes down into each directory before it goes on; what it skips, it
does not go down into. Both find the same files in the same order.

* `ReachesFile` : names that lead to a file through directories;
* `entriesIn`, `walkFiles` : what lies directly in a location, and the walk;
* `mem_walkFiles`, `walkFiles_pairwise` : the walk finds what can be reached, in order;
* `findFiles_eq_walkFiles` : so does the search, `findFiles_reachable` says what it finds.
-/

namespace AndroidResources.FileSystem

variable {fs : FileSystem} {config : MergeConfig} {l : Location} {p : Path} {name : Text}
  {names : List Text} {entry : Entry}

/-! ## Names that lead to a file -/

/-- The names lead from a location to a file, through directories that are there themselves and no
links to directories. -/
inductive ReachesFile (fs : FileSystem) : Location → List Text → Prop
  | file {l : Location} {name : Text} {content : ByteArray}
      (h : fs.get? (l ++ [name]) = some (.file content)) : ReachesFile fs l [name]
  | inside {l : Location} {name : Text} {names : List Text}
      (h : fs.get? (l ++ [name]) = some .directory) (rest : ReachesFile fs (l ++ [name]) names) :
      ReachesFile fs l (name :: names)

theorem reachesFile_cons : fs.ReachesFile l (name :: names) ↔
    (∃ content, fs.get? (l ++ [name]) = some (.file content)) ∧ names = [] ∨
      fs.get? (l ++ [name]) = some .directory ∧ fs.ReachesFile (l ++ [name]) names := by
  constructor
  · rintro (⟨hfile⟩ | ⟨hdirectory, hrest⟩)
    · exact .inl ⟨⟨_, hfile⟩, rfl⟩
    · exact .inr ⟨hdirectory, hrest⟩
  · rintro (⟨⟨content, hfile⟩, rfl⟩ | ⟨hdirectory, hrest⟩)
    · exact .file hfile
    · exact .inside hdirectory hrest

/-- Every file lies in directories, so its names lead to it. -/
theorem reachesFile_iff : fs.ReachesFile l names ↔
    names ≠ [] ∧ ∃ content, fs.get? (l ++ names) = some (.file content) := by
  induction names generalizing l with
  | nil => exact iff_of_false nofun fun h => h.1 rfl
  | cons name rest ih =>
    rw [reachesFile_cons, ih, List.append_cons l name rest, and_iff_right (List.cons_ne_nil _ _)]
    constructor
    · rintro (⟨hfile, rfl⟩ | ⟨-, -, hfile⟩)
      · rwa [List.append_nil]
      · exact hfile
    · rintro ⟨content, hfile⟩
      by_cases hrest : rest = []
      · rw [hrest, List.append_nil] at hfile
        exact .inl ⟨⟨content, hfile⟩, hrest⟩
      · exact .inr ⟨get?_of_append rest hrest hfile, hrest, content, hfile⟩

/-! ## The order of names -/

theorem compare_append_left (k a b : List Text) : compare (k ++ a) (k ++ b) = compare a b := by
  induction k with
  | nil => rfl
  | cons name k ih =>
    rw [List.compare_eq_compareLex] at ih ⊢
    rw [List.cons_append, List.cons_append, List.compareLex_cons_cons, ih]
    simp

/-- The entries below a location stand in the order of the names that lead to them. -/
theorem below_sorted (fs : FileSystem) (l : Location) :
    (fs.below l).Pairwise fun a b => compare a.1 b.1 = .lt := by
  refine fs.entries.sorted.filterMap _ fun x y hlt a ha b hb => ?_
  simp only at ha hb
  split at ha
  · next hx =>
    split at hb
    · next hy =>
      cases ha
      cases hb
      rwa [← List.isPrefixOf?_eq_some_iff_append_eq.1 hx,
        ← List.isPrefixOf?_eq_some_iff_append_eq.1 hy, compare_append_left] at hlt
    · cases hb
  · cases ha

/-! ## The walk -/

def entriesIn (fs : FileSystem) (l : Location) : List (Text × Entry) :=
  (fs.below l).filterMap fun
    | ([name], entry) => some (name, entry)
    | _ => none

theorem mem_entriesIn : (name, entry) ∈ fs.entriesIn l ↔ fs.get? (l ++ [name]) = some entry := by
  unfold entriesIn
  rw [List.mem_filterMap]
  constructor
  · rintro ⟨⟨names, e⟩, hmem, hmatch⟩
    split at hmatch
    · next hsingle =>
      cases hsingle
      cases hmatch
      exact (mem_below.1 hmem).2
    · cases hmatch
  · exact fun hget => ⟨([name], entry), mem_below.2 ⟨List.cons_ne_nil _ _, hget⟩, rfl⟩

theorem entriesIn_sorted (fs : FileSystem) (l : Location) :
    (fs.entriesIn l).Pairwise fun a b => compare a.1 b.1 = .lt := by
  refine (fs.below_sorted l).filterMap _ fun x y hlt a ha b hb => ?_
  split at ha
  · split at hb
    · cases ha
      cases hb
      simpa [List.compare_eq_compareLex, List.compareLex_cons_cons, List.compareLex] using hlt
    · cases hb
  · cases ha

theorem length_below_lt (h : (name, entry) ∈ fs.entriesIn l) :
    (fs.below (l ++ [name])).length < (fs.below l).length := by
  have hnodup : ∀ k, ((fs.below k).map Prod.fst).Nodup := fun k =>
    List.pairwise_map.2 (fs.below_pairwise k)
  have hinside : ([name] :: ((fs.below (l ++ [name])).map Prod.fst).map (name :: ·)).Nodup := by
    refine List.nodup_cons.2 ⟨fun hmem => ?_, (hnodup _).map fun _ _ heq => (List.cons.inj heq).2⟩
    obtain ⟨names, hnames, heq⟩ := List.mem_map.1 hmem
    obtain ⟨⟨_, e⟩, hbelow, rfl⟩ := List.mem_map.1 hnames
    exact (mem_below.1 hbelow).1 (List.cons.inj heq).2
  have hsubset : [name] :: ((fs.below (l ++ [name])).map Prod.fst).map (name :: ·) ⊆
      (fs.below l).map Prod.fst := by
    rintro names hmem
    rcases List.mem_cons.1 hmem with rfl | hmem
    · exact List.mem_map.2 ⟨_, mem_below.2 ⟨List.cons_ne_nil _ _, mem_entriesIn.1 h⟩, rfl⟩
    · obtain ⟨rest, hrest, rfl⟩ := List.mem_map.1 hmem
      obtain ⟨⟨_, e⟩, hbelow, rfl⟩ := List.mem_map.1 hrest
      refine List.mem_map.2 ⟨(_, e), mem_below.2 ⟨List.cons_ne_nil _ _, ?_⟩, rfl⟩
      rw [List.append_cons]
      exact (mem_below.1 hbelow).2
  have hle := (hinside.subperm hsubset).length_le
  simpa [Nat.add_one_le_iff] using hle

/-- The files that a walk finds at one name, where `inside` is what it finds below it. -/
def filesAt (config : MergeConfig) (name : Text) (entry : Entry) (inside : List (List Text)) :
    List (List Text) :=
  if config.ignores name then []
  else
    match entry with
    | .file _ => [[name]]
    | .directory => inside.map (name :: ·)
    | .link _ => []

/-- The files that a walk from a location finds, by the names that lead to them. -/
def walkFiles (fs : FileSystem) (config : MergeConfig) (l : Location) : List (List Text) :=
  (fs.entriesIn l).attach.flatMap fun ⟨(name, entry), _h⟩ =>
    filesAt config name entry (fs.walkFiles config (l ++ [name]))
  termination_by (fs.below l).length
  decreasing_by exact length_below_lt _h

theorem walkFiles_eq (fs : FileSystem) (config : MergeConfig) (l : Location) :
    fs.walkFiles config l = (fs.entriesIn l).flatMap fun child =>
      filesAt config child.1 child.2 (fs.walkFiles config (l ++ [child.1])) := by
  rw [walkFiles]
  conv_rhs => rw [← (fs.entriesIn l).attach_map_subtype_val]
  rw [List.flatMap_map]

theorem cons_mem_filesAt {inside : List (List Text)} {first : Text} :
    first :: names ∈ filesAt config name entry inside ↔ first = name ∧ config.ignores name = false ∧
      (entry.isFile = true ∧ names = [] ∨ entry = .directory ∧ names ∈ inside) := by
  unfold filesAt
  split
  · next hskipped => simp [hskipped]
  · next hkept =>
    cases entry with
    | file content => simp [hkept, Entry.isFile]
    | directory => simp [hkept, Entry.isFile, and_comm, eq_comm]
    | link target => simp [Entry.isFile]

theorem nil_not_mem_filesAt {inside : List (List Text)} :
    [] ∉ filesAt config name entry inside := by
  unfold filesAt
  split
  · simp
  · cases entry <;> simp

/-- The walk finds the files that can be reached by names that are not skipped. -/
theorem mem_walkFiles : names ∈ fs.walkFiles config l ↔
    fs.ReachesFile l names ∧ ∀ name ∈ names, config.ignores name = false := by
  induction names generalizing l with
  | nil =>
    rw [walkFiles_eq, List.mem_flatMap]
    exact iff_of_false (fun ⟨_, _, hmem⟩ => nil_not_mem_filesAt hmem) (fun h => nomatch h.1)
  | cons name rest ih =>
    rw [walkFiles_eq, List.mem_flatMap, reachesFile_cons, List.forall_mem_cons]
    constructor
    · rintro ⟨⟨found, entry⟩, hentry, hmem⟩
      obtain ⟨rfl, hkept, hcases⟩ := cons_mem_filesAt.1 hmem
      have hget := mem_entriesIn.1 hentry
      obtain ⟨hfile, rfl⟩ | ⟨rfl, hinside⟩ := hcases
      · cases entry with
        | file content => exact ⟨.inl ⟨⟨content, hget⟩, rfl⟩, hkept, by simp⟩
        | directory => cases hfile
        | link target => cases hfile
      · obtain ⟨hreaches, hall⟩ := ih.1 hinside
        exact ⟨.inr ⟨hget, hreaches⟩, hkept, hall⟩
    · rintro ⟨⟨⟨content, hget⟩, rfl⟩ | ⟨hget, hreaches⟩, hkept, hall⟩
      · exact ⟨_, mem_entriesIn.2 hget, cons_mem_filesAt.2 ⟨rfl, hkept, .inl ⟨rfl, rfl⟩⟩⟩
      · exact ⟨_, mem_entriesIn.2 hget,
          cons_mem_filesAt.2 ⟨rfl, hkept, .inr ⟨rfl, ih.2 ⟨hreaches, hall⟩⟩⟩⟩

/-- What a walk finds stands in the order of names: whatever is at a name comes before what is at a
later one, and what is below a directory is compared behind its name. -/
theorem walkFiles_pairwise (fs : FileSystem) (config : MergeConfig) (l : Location) :
    (fs.walkFiles config l).Pairwise fun a b => compare a b = .lt := by
  induction l using walkFiles.induct fs with
  | case1 l ih =>
    rw [walkFiles_eq, List.pairwise_flatMap]
    constructor
    · rintro ⟨name, entry⟩ hentry
      have hinside := ih name entry hentry
      unfold filesAt
      split
      · exact .nil
      · cases entry with
        | file content => exact List.pairwise_singleton ..
        | directory =>
          refine hinside.map _ fun a b hlt => ?_
          exact (compare_append_left [name] a b).trans hlt
        | link target => exact .nil
    · refine (fs.entriesIn_sorted l).imp ?_
      rintro ⟨name, entry⟩ ⟨later, entry'⟩ hlt a ha b hb
      cases a with
      | nil => exact absurd ha nil_not_mem_filesAt
      | cons first a =>
        cases b with
        | nil => exact absurd hb nil_not_mem_filesAt
        | cons second b =>
          obtain ⟨rfl, -⟩ := cons_mem_filesAt.1 ha
          obtain ⟨rfl, -⟩ := cons_mem_filesAt.1 hb
          exact compare_eq_lt_iff_lex.2 (.rel hlt)

/-! ## The search -/

theorem findFiles_pairwise (config : MergeConfig) (h : fs.resolve p = .ok (.present l))
    (hdir : fs.get? l = some .directory) :
    ((fs.findFiles config p).map FoundFile.names).Pairwise fun a b => compare a b = .lt := by
  rw [findFiles_eq config h hdir, List.pairwise_map]
  refine (fs.below_sorted l).filterMap _ fun x y hlt a ha b hb => ?_
  simp only [Option.ite_none_right_eq_some, Option.some.injEq] at ha hb
  rw [← ha.2, ← hb.2]
  exact hlt

theorem mem_names_findFiles (h : fs.resolve p = .ok (.present l))
    (hdir : fs.get? l = some .directory) :
    names ∈ (fs.findFiles config p).map FoundFile.names ↔
      fs.ReachesFile l names ∧ ∀ name ∈ names, config.ignores name = false := by
  have hfile : (fs.get? (l ++ names)).any Entry.isFile = true ↔
      ∃ content, fs.get? (l ++ names) = some (.file content) := by
    cases fs.get? (l ++ names) with
    | none => simp
    | some entry => cases entry <;> simp [Entry.isFile]
  rw [List.mem_map, reachesFile_iff, ← hfile]
  constructor
  · rintro ⟨file, hmem, rfl⟩
    obtain ⟨-, hne, hkept, hany⟩ := (mem_findFiles h hdir).1 hmem
    exact ⟨⟨hne, hany⟩, by simpa using hkept⟩
  · rintro ⟨⟨hne, hany⟩, hkept⟩
    exact ⟨⟨p.join (.ofNames names), names⟩,
      (mem_findFiles h hdir).2 ⟨rfl, hne, by simpa using hkept, hany⟩, rfl⟩

/-- The search finds what the walk finds, in the order of the walk. -/
theorem findFiles_eq_walkFiles (config : MergeConfig) (h : fs.resolve p = .ok (.present l))
    (hdir : fs.get? l = some .directory) :
    fs.findFiles config p =
      (fs.walkFiles config l).map fun names => ⟨p.join (.ofNames names), names⟩ := by
  have hnames : (fs.findFiles config p).map FoundFile.names = fs.walkFiles config l := by
    have hdistinct : ∀ {k : List (List Text)}, k.Pairwise (compare · · = .lt) → k.Nodup :=
      fun hk => hk.imp fun hlt heq => by
        rw [heq, Std.ReflOrd.compare_self] at hlt
        cases hlt
    have hsorted := findFiles_pairwise config h hdir
    have hwalk := fs.walkFiles_pairwise config l
    refine List.Perm.eq_of_pairwise (fun a b _ _ hab hba => ?_) hsorted hwalk
      ((List.perm_ext_iff_of_nodup (hdistinct hsorted) (hdistinct hwalk)).2 fun names => ?_)
    · rw [Std.OrientedCmp.gt_of_lt hab] at hba
      cases hba
    · rw [mem_names_findFiles h hdir, mem_walkFiles]
  have hpath : ∀ file ∈ fs.findFiles config p, ⟨p.join (.ofNames file.names), file.names⟩ = file :=
    fun file hfile => by rw [← ((mem_findFiles h hdir).1 hfile).1]
  rw [← hnames, List.map_map]
  exact (List.map_id _).symm.trans (List.map_congr_left hpath).symm

structure FindsReachable (fs : FileSystem) (config : MergeConfig) (root : Path) (l : Location)
    (found : List FoundFile) : Prop where
  mem_iff : ∀ names, names ∈ found.map FoundFile.names ↔
    fs.ReachesFile l names ∧ ∀ name ∈ names, config.ignores name = false
  nodup : (found.map FoundFile.path).Nodup
  /-- The relative paths grow by the bytes of the first component in which two differ. -/
  increasing : (found.map FoundFile.names).Pairwise (List.Lex Text.PrecedesInBytes)
  path_eq : ∀ file ∈ found, file.path = root.join file.relative
  relative_eq : ∀ file ∈ found, file.relative.components = file.names.map .normal ∧
    root.stripBase? file.path = some file.relative.components
  resolve_eq : ∀ file ∈ found, fs.resolve file.path = .ok (.present (l ++ file.names))

/-- Names that lead to a file are the components of the path made of them, which is what a path read
from it has behind it. -/
theorem components_of_reachesFile (h : fs.ReachesFile l names) (root : Path) :
    (Path.ofNames names).components = names.map .normal ∧
      root.stripBase? (root.join (.ofNames names)) = some (names.map .normal) := by
  obtain ⟨hne, content, hcontent⟩ := reachesFile_iff.1 h
  have hnames : ∀ name ∈ names, IsName name := fun name hname =>
    isName_of_mem hcontent (List.mem_append_right _ hname)
  have hsegments : (Path.ofNames names).segments = names := Path.segments_ofNames hnames hne
  have hlead : (Path.ofNames names).leadingComponent = [] := by
    refine Path.leadingComponent_eq_nil.2 ⟨Path.isAbsolute_ofNames hnames, fun hdot => ?_⟩
    rw [hsegments] at hdot
    exact (hnames _ (List.mem_of_head? hdot)).2.1 rfl
  have hup : "..".toList ∉ (Path.ofNames names).segments := by
    rw [hsegments]
    exact fun hmem => (hnames _ hmem).2.2.1 rfl
  have hcomponents : (Path.ofNames names).components = names.map .normal := by
    rw [Path.components_eq hup, hlead, List.nil_append, hsegments, Path.properNames_eq_self
      fun name hname => Path.isIdle_of_isName (hnames name hname)]
  refine ⟨hcomponents, List.isPrefixOf?_eq_some_iff_append_eq.2 ?_⟩
  rw [Path.components_join root hlead, hcomponents]

/-- A search below a directory finds the files that can be reached by names that are not skipped,
each once and in the order of their components. -/
theorem findFiles_reachable (fs : FileSystem) (config : MergeConfig) (root : Path) (l : Location)
    (h : fs.resolve root = .ok (.present l)) (hdir : fs.get? l = some .directory) :
    FindsReachable fs config root l (fs.findFiles config root) := by
  have hpath : ∀ file ∈ fs.findFiles config root, file.path = root.join (.ofNames file.names) :=
    fun file hfile => ((mem_findFiles h hdir).1 hfile).1
  have hreaches : ∀ file ∈ fs.findFiles config root, fs.ReachesFile l file.names :=
    fun file hfile => ((mem_names_findFiles h hdir).1 (List.mem_map_of_mem hfile)).1
  have hstrip : ∀ file ∈ fs.findFiles config root,
      root.stripBase? file.path = some (file.names.map .normal) := fun file hfile => by
    rw [hpath file hfile]
    exact (components_of_reachesFile (hreaches file hfile) root).2
  refine
    { mem_iff := fun names => mem_names_findFiles h hdir
      nodup := ?_
      increasing := ?_
      path_eq := hpath
      relative_eq := fun file hfile => ?_
      resolve_eq := fun file hfile => ?_ }
  · -- the names can be read from the path, and no names come twice
    have hdistinct := nodup_findFiles config h hdir
    refine hdistinct.of_map.map_on fun a ha b hb heq => List.inj_on_of_nodup_map hdistinct ha hb ?_
    have hnames := hstrip a ha
    rw [heq, hstrip b hb, Option.some.injEq] at hnames
    exact (List.map_injective_iff.2 (fun _ _ => Path.Component.normal.inj) hnames).symm
  · exact (findFiles_pairwise config h hdir).imp fun hlt =>
      (compare_eq_lt_iff_lex.1 hlt).imp fun _ _ hname => Text.precedesInBytes_iff.2 hname
  · have hcomponents := (components_of_reachesFile (hreaches file hfile) root).1
    exact ⟨hcomponents, (hstrip file hfile).trans (congrArg some hcomponents.symm)⟩
  · obtain ⟨hne, content, hcontent⟩ := reachesFile_iff.1 (hreaches file hfile)
    rw [hpath file hfile]
    exact resolve_join_ofNames h hne hcontent

/-- A directory with two directories, a file, a link and a directory that is skipped. -/
def siblings : FileSystem :=
  ((((((((FileSystem.empty.place ["r"] .directory).place ["r", "a"] .directory).place
    ["r", "a", "x"] (.file .empty)).place ["r", "a-b"] .directory).place
    ["r", "a-b", "x"] (.file .empty)).place ["r", "a.txt"] (.file .empty)).place
    ["r", ".svn"] .directory).place ["r", ".svn", "entries"] (.file .empty)).place
    ["r", "b"] (.link "a")

/-- By their components `a/x` comes first; as texts both others do. -/
theorem findFiles_reachable_siblings :
    siblings.resolve "r" = .ok (.present ["r"]) ∧ siblings.get? ["r"] = some .directory ∧
      siblings.findFiles {} "r" = [⟨"r/a/x", ["a", "x"]⟩, ⟨"r/a-b/x", ["a-b", "x"]⟩,
        ⟨"r/a.txt", ["a.txt"]⟩] ∧
      FindsReachable siblings {} "r" ["r"] (siblings.findFiles {} "r") := by
  have hresolve : siblings.resolve "r" = .ok (.present ["r"]) := by decide +kernel
  have hdir : siblings.get? ["r"] = some .directory := by decide +kernel
  exact ⟨hresolve, hdir, by decide +kernel, findFiles_reachable siblings {} "r" ["r"] hresolve hdir⟩

end AndroidResources.FileSystem
