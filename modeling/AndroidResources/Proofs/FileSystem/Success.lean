import AndroidResources.Proofs.FileSystem.Content

/-!
# When operations succeed

* `Leads.resolve_last` : what is found at the last of the names that a path leads down;
* `exists_leads_of_resolveEntry` : a path with a last name leads down that name;
* `createAlong_cases` : directories are made, or a file is in the way and nothing is made;
* `Leads.fileLocation_free` : a file can be written where nothing is;
* `exists_rename_of_yields`, `exists_rename` : a directory can be moved to a place that yields to it,
  so to where nothing is;
* `removeTree_of_file` : a removal that fails.
-/

namespace AndroidResources.FileSystem

variable {fs fs' : FileSystem} {p q : Path} {base : Location} {names : List Text} {name : Text}

/-! ## The last name -/

theorem Leads.isName (h : fs.Leads p base names) : ∀ name ∈ names, IsName name := by
  obtain ⟨-, -, -, front, back, happ, -, -, hup, rfl⟩ := h
  refine fun name hname => Path.isName_of_mem_properNames (fun segment hmem => ?_) hup hname
  refine Path.slash_not_mem_segment (p := p) ?_
  rw [happ]
  exact List.mem_append_right _ hmem

theorem descend_single (hname : IsName name) :
    fs.descend base [name] =
      match fs.get? (base ++ [name]) with
      | some .directory => .ok (.arrived (.present (base ++ [name])))
      | some (.file _) => .ok (.arrived (.present (base ++ [name])))
      | some (.link target) => .ok (.link (base ++ [name]) target [])
      | none => .ok (.arrived (.vacant (base ++ [name]) false)) := by
  rw [descend_name _ (by simp [Path.isIdle_of_isName hname]) hname.2.2.1]
  cases fs.get? (base ++ [name]) with
  | none => rfl
  | some entry => cases entry <;> rfl

/-- From the directory in which the last name lies, only that name is left to walk. -/
theorem Leads.resolve_last (h : fs.Leads p base (names ++ [name])) {last : LastLink}
    {segments : List Text} (hsegments : segments = p.segments ∨ segments = entrySegments p)
    (hend : EndsInName segments) (hdir : fs.get? (base ++ names) = some .directory) :
    ∃ left, fs.resolveSegments last p segments = fs.walk last left (base ++ names) [name] := by
  have hlast : last = .followed ∨ names ++ [name] ≠ [] := .inr (by simp)
  obtain ⟨left, back, hwalk, ⟨front, rfl⟩, hup, hnames⟩ := h.exists_walk hlast hsegments
  obtain ⟨init, final, rfl⟩ : ∃ init final, back = init ++ [final] := by
    refine ⟨_, _, (List.dropLast_append_getLast fun hnil => ?_).symm⟩
    rw [hnil, Path.properNames_nil] at hnames
    exact absurd hnames.symm (by simp)
  have hfinal : Path.isIdle final = false := hend final (by simp)
  rw [Path.properNames_append, Path.properNames_cons_name hfinal, Path.properNames_nil] at hnames
  obtain ⟨rfl, heq⟩ := List.append_inj' hnames rfl
  cases heq
  rw [List.mem_append, not_or] at hup
  refine ⟨left, ?_⟩
  unfold resolveSegments
  rw [if_neg (by simp [h.1, h.2.1]), hwalk]
  exact walk_congr (descend_append_directory _ h.2.2.1 (descend_present hup.1 hdir) hdir) left

theorem Leads.resolve_vacant (h : fs.Leads p base (names ++ [name])) {last : LastLink}
    {segments : List Text} (hsegments : segments = p.segments ∨ segments = entrySegments p)
    (hend : EndsInName segments) (hdir : fs.get? (base ++ names) = some .directory)
    (hnone : fs.get? (base ++ (names ++ [name])) = none) :
    fs.resolveSegments last p segments = .ok (.vacant (base ++ (names ++ [name])) false) := by
  rw [← List.append_assoc] at hnone ⊢
  obtain ⟨left, hresolve⟩ : ∃ left, fs.resolveSegments last p segments = _ :=
    h.resolve_last hsegments hend hdir
  rw [hresolve]
  refine walk_of_arrived ?_
  rw [descend_single (h.isName name (by simp)), hnone]

theorem Leads.resolve_present_file (h : fs.Leads p base (names ++ [name])) {last : LastLink}
    {segments : List Text} (hsegments : segments = p.segments ∨ segments = entrySegments p)
    (hend : EndsInName segments) {content : ByteArray}
    (hget : fs.get? (base ++ (names ++ [name])) = some (.file content)) :
    fs.resolveSegments last p segments = .ok (.present (base ++ (names ++ [name]))) := by
  rw [← List.append_assoc] at hget ⊢
  obtain ⟨left, hresolve⟩ : ∃ left, fs.resolveSegments last p segments = _ :=
    h.resolve_last hsegments hend (get?_of_append [name] (by simp) hget)
  rw [hresolve]
  refine walk_of_arrived ?_
  rw [descend_single (h.isName name (by simp)), hget]

theorem descend_last_congr {dir : Location} {back : List Text} (hup : "..".toList ∉ back)
    (hnames : Path.properNames back = [name])
    (hsame : fs'.get? (dir ++ [name]) = fs.get? (dir ++ [name]))
    (hlink : ∀ target, fs.get? (dir ++ [name]) ≠ some (.link target)) :
    fs'.descend dir back = fs.descend dir back ∧
      ∀ l target rest, fs.descend dir back ≠ .ok (.link l target rest) := by
  induction back with
  | nil => cases hnames
  | cons segment rest ih =>
    rw [List.mem_cons, not_or] at hup
    by_cases hidle : Path.isIdle segment = true
    · rw [Path.properNames_cons_idle hidle] at hnames
      rw [descend_idle _ hidle, descend_idle _ hidle]
      exact ih hup.2 hnames
    · rw [Path.properNames_cons_name (by simpa using hidle)] at hnames
      obtain ⟨rfl, hrest⟩ := List.cons.inj hnames
      have hall := Path.properNames_eq_nil.1 hrest
      rw [descend_name _ hidle (Ne.symm hup.1), descend_name _ hidle (Ne.symm hup.1), hsame,
        descend_all_idle fs _ hall, descend_all_idle fs' _ hall]
      refine ⟨rfl, fun l target others heq => ?_⟩
      split at heq
      · cases heq
      · split at heq <;> cases heq
      · next target' hget => exact hlink target' hget
      · split at heq <;> cases heq

/-- Where nothing goes and nothing changes at the last name of a path, which is not that of a link,
something is found or not as before. -/
theorem Leads.pathExists_of_keeps (h : fs.Leads p base [name]) (hk : Keeps (fun _ => True) fs fs')
    (hsame : fs'.get? (base ++ [name]) = fs.get? (base ++ [name]))
    (hlink : ∀ target, fs.get? (base ++ [name]) ≠ some (.link target)) :
    fs'.pathExists p = fs.pathExists p := by
  obtain ⟨htext, horigin, hdir, front, back, happ, hwalk, -, hup, hnames⟩ := h
  have hkept : ∀ {l e}, fs.get? l = some e → fs'.get? l = some e := fun hget =>
    hk.entries _ _ (fun _ _ => trivial) hget
  have hwalk' : fs'.walk .followed linkLimit (fs.origin p) front = .ok (.present base) :=
    (walk_of_keeps (within_true fs) hk (fun _ _ => trivial) (fun _ _ => trivial) hwalk
      horigin).2 (.inl rfl)
  obtain ⟨left, hleft⟩ := walk_append horigin hwalk hdir back (.inl rfl)
  obtain ⟨left', hleft'⟩ := walk_append (hkept horigin) hwalk' (hkept hdir) back (.inl rfl)
  have hresolve : fs.resolve p = fs.walk .followed left base back := by
    unfold resolve resolveSegments
    rw [if_neg (by simp [htext, horigin]), happ, hleft]
  have hresolve' : fs'.resolve p = fs'.walk .followed left' base back := by
    unfold resolve resolveSegments
    rw [origin_of_keeps hk, if_neg (by simp [htext, hkept horigin]), happ, hleft']
  obtain ⟨hdescend, hnolink⟩ := descend_last_congr hup hnames hsame hlink
  unfold pathExists locate?
  rw [hresolve, hresolve', walk_eq, walk_eq, hdescend]
  cases hd : fs.descend base back with
  | error fault => rfl
  | ok d =>
    cases d with
    | arrived place => rfl
    | link l target rest => exact absurd hd (hnolink l target rest)

theorem endsInName_of_namesEntry (h : namesEntry p = true) : EndsInName (entrySegments p) := by
  intro segment hlast
  unfold namesEntry lastSegment at h
  rw [hlast] at h
  simp only [Option.getD_some, List.mem_cons, decide_eq_true_eq, not_or] at h
  simpa [Path.isIdle] using ⟨h.1, h.2.1⟩

theorem Leads.resolveEntry_last (h : fs.Leads p base [name])
    (hend : EndsInName (entrySegments p)) :
    ∃ place, fs.resolveEntry p = .ok place ∧ place.location = base ++ [name] := by
  have hlast : fs.Leads p base ([] ++ [name]) := h
  obtain ⟨left, hresolve⟩ : ∃ left, fs.resolveEntry p = fs.walk .kept left (base ++ []) [name] :=
    hlast.resolve_last (.inr rfl) hend (by rw [List.append_nil]; exact h.2.2.1)
  rw [hresolve, List.append_nil, walk_eq, descend_single (h.isName name (List.mem_singleton_self _))]
  cases fs.get? (base ++ [name]) with
  | none => exact ⟨_, rfl, rfl⟩
  | some entry => cases entry <;> exact ⟨_, rfl, rfl⟩

theorem Leads.location_of_resolveEntry (h : fs.Leads p base [name])
    (hend : EndsInName (entrySegments p)) {place : Place} (hplace : fs.resolveEntry p = .ok place) :
    place.location = base ++ [name] := by
  obtain ⟨place', hplace', hlocation⟩ := h.resolveEntry_last hend
  rw [hplace] at hplace'
  cases hplace'
  exact hlocation

theorem exists_leads_of_resolveEntry {place : Place} (hname : namesEntry p = true)
    (h : fs.resolveEntry p = .ok place) :
    ∃ dir, fs.Leads p dir [lastSegment p] ∧ place.location = dir ++ [lastSegment p] := by
  have hend := endsInName_of_namesEntry hname
  obtain ⟨front, hentry⟩ : ∃ front, entrySegments p = front ++ [lastSegment p] := by
    have hne : entrySegments p ≠ [] := by
      intro hnil
      unfold namesEntry lastSegment at hname
      rw [hnil] at hname
      exact absurd hname (by decide)
    refine ⟨(entrySegments p).dropLast, ?_⟩
    unfold lastSegment
    rw [List.getLast?_eq_some_getLast hne]
    exact (List.dropLast_append_getLast hne).symm
  have hlast : Path.isIdle (lastSegment p) = false := hend _ (by simp [hentry])
  have hup : lastSegment p ≠ "..".toList := by
    intro heq
    unfold namesEntry at hname
    rw [heq] at hname
    exact absurd hname (by decide)
  obtain ⟨htext, horigin, hwalk⟩ := resolveSegments_eq_ok.1 h
  rw [hentry] at hwalk
  obtain ⟨dir, hfront, hdir⟩ := walk_front_of_name horigin (List.mem_singleton_self _)
    (fun hnil => by rw [hnil] at hlast; cases hlast) hwalk
  obtain ⟨empty, hsegments, hempty⟩ := segments_eq_entrySegments p
  rw [hentry, List.append_assoc] at hsegments
  have hleads := Leads.of_walk htext horigin hdir hsegments hfront (by
    rw [List.mem_append, List.mem_singleton, not_or]
    exact ⟨hup.symm, fun hmem => absurd (hempty _ hmem) (by decide)⟩)
  have hnames : Path.properNames ([lastSegment p] ++ empty) = [lastSegment p] := by
    have hnil : Path.properNames empty = [] := Path.properNames_eq_nil.2 fun s hs => by
      rw [hempty s hs]
      rfl
    rw [List.singleton_append, Path.properNames_cons_name hlast, hnil]
  rw [hnames] at hleads
  exact ⟨dir, hleads, hleads.location_of_resolveEntry hend h⟩

/-- Where only directories are in the way and one of them is missing, nothing is found. -/
theorem descend_missing {back : List Text} (hup : "..".toList ∉ back)
    (hclear : ∀ front, front <+: Path.properNames back →
      fs.get? (base ++ front) = none ∨ fs.get? (base ++ front) = some .directory)
    (hbase : fs.get? base = some .directory)
    (hnone : fs.get? (base ++ (Path.properNames back).dropLast) = none) :
    fs.descend base back = .error .notFound := by
  induction back generalizing base with
  | nil =>
    rw [Path.properNames_nil, List.dropLast_nil, List.append_nil, hbase] at hnone
    cases hnone
  | cons segment rest ih =>
    rw [List.mem_cons, not_or] at hup
    by_cases hidle : Path.isIdle segment = true
    · rw [Path.properNames_cons_idle hidle] at hclear hnone
      rw [descend_idle _ hidle]
      exact ih hup.2 hclear hbase hnone
    · have hname : Path.isIdle segment = false := by simpa using hidle
      rw [Path.properNames_cons_name hname] at hclear hnone
      have hne : Path.properNames rest ≠ [] := by
        intro hnil
        rw [hnil, List.dropLast_singleton, List.append_nil, hbase] at hnone
        cases hnone
      rw [List.dropLast_cons_of_ne_nil hne, List.append_cons] at hnone
      rw [descend_name _ hidle (Ne.symm hup.1)]
      obtain hnext | hnext := hclear [segment] (by simp)
      · rw [hnext]
        refine if_neg fun hall => hne (Path.properNames_eq_nil.2 fun s hs => ?_)
        rw [of_decide_eq_true (List.all_eq_true.1 hall s hs)]
        rfl
      · rw [hnext]
        refine ih hup.2 (fun front hfront => ?_) hnext hnone
        have := hclear (segment :: front) (List.cons_prefix_cons.2 ⟨rfl, hfront⟩)
        rwa [List.append_cons] at this

/-! ## Directories -/

theorem makeDirectory_of_vacant {l : Location} {c : Bool}
    (h : fs.resolveEntry p = .ok (.vacant l c)) :
    fs.makeDirectory p = .ok (fs.place l .directory) := by
  unfold makeDirectory
  rw [h]

theorem makeDirectory_of_present {l : Location} (h : fs.resolveEntry p = .ok (.present l)) :
    fs.makeDirectory p = .error .alreadyExists := by
  unfold makeDirectory
  rw [h]

theorem EndsInName.entrySegments_eq (h : EndsInName p.segments) : entrySegments p = p.segments := by
  obtain ⟨empty, hsegments, hempty⟩ := segments_eq_entrySegments p
  obtain rfl | hne := eq_or_ne empty []
  · rw [hsegments, List.append_nil]
  · have hlast := h (empty.getLast hne) (by
      rw [hsegments, List.getLast?_append_of_ne_nil _ hne, List.getLast?_eq_some_getLast hne]
      exact rfl)
    rw [hempty _ (List.getLast_mem hne)] at hlast
    cases hlast

theorem EndsInName.entrySegments (h : EndsInName p.segments) : EndsInName (entrySegments p) := by
  rwa [h.entrySegments_eq]

theorem endsInName_parent? (h : p.parent? = some q) :
    Path.properNames q.segments = [] ∨ EndsInName q.segments := by
  cases Path.isParent_of_parent? h with
  | empty _ _ _ hq =>
    rw [hq]
    exact .inl (by decide)
  | above _ hfront _ _ _ _ hq =>
    obtain hq | ⟨-, hq⟩ := hq <;> rw [hq]
    · exact hfront
    · exact .inl (by decide)

/-- At a last name in a directory a directory is made, or found, or a file is in the way. -/
theorem makeDirectory_last (h : fs.Leads p base (names ++ [name]))
    (hlinks : fs.NoLinks base (names ++ [name])) (hend : EndsInName p.segments)
    (hdir : fs.get? (base ++ names) = some .directory) :
    (∃ fs', fs.makeDirectory p = .ok fs') ∨
      fs.makeDirectory p = .error .alreadyExists ∧
        (fs.isDirectory p = true ∨
          ∃ content, fs.get? (base ++ (names ++ [name])) = some (.file content)) := by
  cases hget : fs.get? (base ++ (names ++ [name])) with
  | none =>
    exact .inl ⟨_, makeDirectory_of_vacant
      (h.resolve_vacant (.inr rfl) hend.entrySegments hdir hget)⟩
  | some entry =>
    cases entry with
    | file content =>
      exact .inr ⟨makeDirectory_of_present
        (h.resolve_present_file (.inr rfl) hend.entrySegments hget), .inr ⟨content, rfl⟩⟩
    | directory =>
      exact .inr ⟨makeDirectory_of_present (h.resolve_present (.inr (by simp)) (.inr rfl) hget),
        .inl (isDirectory_iff.2 ⟨_, h.resolve_present (.inl rfl) (.inl rfl) hget, hget⟩)⟩
    | link target => exact absurd hget (hlinks _ [] (List.append_nil _).symm (by simp) target)

def FileOnTheWay (fs : FileSystem) (base : Location) (names : List Text) : Prop :=
  ∃ front content, front <+: names ∧ fs.get? (base ++ front) = some (.file content)

theorem FileOnTheWay.of_append {more : List Text} (h : fs.FileOnTheWay base names) :
    fs.FileOnTheWay base (names ++ more) := by
  obtain ⟨front, content, hfront, hget⟩ := h
  exact ⟨front, content, hfront.trans (List.prefix_append ..), hget⟩

theorem not_fileOnTheWay (hdir : fs.get? (base ++ names) = some .directory) :
    ¬ fs.FileOnTheWay base names := by
  rintro ⟨front, content, ⟨rest, rfl⟩, hget⟩
  rw [← List.append_assoc] at hdir
  by_cases hrest : rest = []
  · rw [hrest, List.append_nil, hget] at hdir
    cases hdir
  · rw [get?_of_append rest hrest hdir] at hget
    cases hget

/-- Without files and links on the way, and without the directory of the last name, a directory
cannot be made before those above it. -/
theorem makeDirectory_missing (h : fs.Leads p base (names ++ [name]))
    (hlinks : fs.NoLinks base names) (hfile : ¬ fs.FileOnTheWay base names)
    (hdir : fs.get? (base ++ names) ≠ some .directory) :
    fs.makeDirectory p = .error .notFound := by
  have hclear : ∀ front, front <+: names →
      fs.get? (base ++ front) = none ∨ fs.get? (base ++ front) = some .directory := by
    intro front hfront
    cases hget : fs.get? (base ++ front) with
    | none => exact .inl rfl
    | some entry =>
      cases entry with
      | file content => exact absurd ⟨front, content, hfront, hget⟩ hfile
      | directory => exact .inr rfl
      | link target =>
        obtain ⟨rest, hrest⟩ := hfront
        obtain rfl | hne := eq_or_ne front []
        · rw [List.append_nil, h.2.2.1] at hget
          cases hget
        · exact absurd hget (hlinks front rest hrest.symm hne target)
  have hnone : fs.get? (base ++ names) = none :=
    (hclear names (List.prefix_refl _)).resolve_right hdir
  have hlast : LastLink.kept = .followed ∨ names ++ [name] ≠ [] := .inr (by simp)
  obtain ⟨left, back, hwalk, -, hup, hnames⟩ := h.exists_walk hlast (.inr rfl)
  have hdescend : fs.descend base back = .error .notFound := by
    refine descend_missing hup ?_ h.2.2.1 ?_
    · rw [hnames]
      intro front hfront
      rcases List.prefix_concat_iff.1 hfront with rfl | hfront
      · rw [← List.append_assoc]
        exact .inl (get?_append_of_none hnone [name])
      · exact hclear front hfront
    · rw [hnames, List.dropLast_concat]
      exact hnone
  have hentry : fs.resolveEntry p = .error .notFound := by
    unfold resolveEntry resolveSegments
    rw [if_neg (by simp [h.1, h.2.1]), hwalk, walk.eq_def, hdescend]
  unfold makeDirectory
  rw [hentry]

/-- One path of a chain, where those above it have been made or a file is in their way. -/
theorem createAlong_step_cases (h : fs.Leads p base (names ++ [name]))
    (hlinks : fs.NoLinks base (names ++ [name])) (hend : EndsInName p.segments) {above : List Path}
    (hadds : AddsDirectories (OnTheWay base names) fs (fs.createAlong above).1)
    (hmade : (fs.createAlong above).2 = none →
      (fs.createAlong above).1.get? (base ++ names) = some .directory)
    (habove : (fs.createAlong above).2 = none ∨
      (fs.createAlong above).1 = fs ∧ fs.FileOnTheWay base names) :
    (fs.createAlong (p :: above)).2 = none ∨
      (fs.createAlong (p :: above)).1 = fs ∧ fs.FileOnTheWay base (names ++ [name]) := by
  generalize hresult : fs.createAlong (p :: above) = result
  cases makesAlong hresult with
  | empty => exact .inl rfl
  | blocked _ _ hcreate =>
    rw [hcreate] at habove
    obtain ⟨hsame, hfile⟩ := habove.resolve_left (by simp)
    exact .inr ⟨hsame, hfile.of_append⟩
  | new => exact .inl rfl
  | @kept g fault fault? _ hg hmake hfault =>
    -- the directory in which the last name lies, unless a file is in the way
    have hdir : g = fs ∧ fs.FileOnTheWay base names ∨
        AddsDirectories (OnTheWay base names) fs g ∧
          g.get? (base ++ names) = some .directory := by
      obtain ⟨rfl, hfound⟩ | ⟨-, hcreate⟩ := hg
      · by_cases hfile : g.FileOnTheWay base names
        · exact .inl ⟨rfl, hfile⟩
        · refine .inr ⟨.refl _ g, ?_⟩
          by_contra hdir
          exact hfound (makeDirectory_missing h hlinks.of_append hfile hdir)
      · rw [hcreate] at hadds hmade
        exact .inr ⟨hadds, hmade rfl⟩
    obtain ⟨rfl, hfile⟩ | ⟨hadds', hdir⟩ := hdir
    · exact .inr ⟨rfl, hfile.of_append⟩
    obtain ⟨after, hafter⟩ | ⟨-, hdirectory | ⟨content, hget⟩⟩ := makeDirectory_last
      (h.of_keeps_all (hadds'.keeps _)) (hadds'.noLinks hlinks) hend hdir
    · rw [hafter] at hmake
      cases hmake
    · exact .inl (hfault.trans (if_pos hdirectory))
    · -- that file has been there before, and so has the directory in which it is
      have hget' := hadds'.get?_of_ne_directory hget (by simp)
      refine .inr ⟨?_, _, content, List.prefix_refl _, hget'⟩
      obtain ⟨rfl, -⟩ | ⟨hmissing, -⟩ := hg
      · rfl
      · rw [← List.append_assoc] at hget'
        have hdir' := get?_of_append [name] (by simp) hget'
        obtain ⟨after, hafter⟩ | ⟨hexists, -⟩ := makeDirectory_last h hlinks hend hdir'
        · rw [hafter] at hmissing
          cases hmissing
        · rw [hexists] at hmissing
          cases hmissing

theorem createAlong_of_nil (h : fs.Leads p base []) (above : List Path) :
    fs.createAlong (p :: above) = (fs, none) := by
  obtain ⟨l, hl⟩ := h.exists_resolveEntry
  have hdirectory : fs.isDirectory p = true := isDirectory_iff.2 ⟨_, h.resolve_nil, h.2.2.1⟩
  rw [createAlong, if_neg h.1, makeDirectory_of_present hl]
  exact congrArg (Prod.mk fs) (if_pos hdirectory)

theorem Leads.names_eq_nil (h : fs.Leads p base names) (hnil : Path.properNames p.segments = []) :
    names = [] := by
  obtain ⟨-, -, -, front, back, happ, -, -, -, rfl⟩ := h
  rw [happ, Path.properNames_append] at hnil
  exact (List.append_eq_nil_iff.1 hnil).2

/-- Directories are made up to the end of the names, or a file is in the way and nothing is made. The
induction is on the paths that lie above; where making one of them fails, nothing has been made. -/
theorem createAlong_cases (h : fs.Leads p base names) (hlinks : fs.NoLinks base names)
    (hend : names = [] ∨ EndsInName p.segments) {steps : Nat} (hsteps : names.length ≤ steps + 1) :
    (fs.createAlong (p :: ancestors steps p)).2 = none ∨
      (fs.createAlong (p :: ancestors steps p)).1 = fs ∧ fs.FileOnTheWay base names := by
  obtain rfl | ⟨init, name, rfl⟩ := names.eq_nil_or_concat'
  · exact .inl (by rw [createAlong_of_nil h])
  replace hend := hend.resolve_left (by simp)
  rw [List.length_append, List.length_singleton] at hsteps
  induction steps generalizing p init name with
  | zero =>
    obtain rfl : init = [] := List.length_eq_zero_iff.1 (by omega)
    rw [ancestors_zero]
    refine createAlong_step_cases h hlinks hend (.refl _ fs) (fun _ => ?_) (.inl rfl)
    rw [List.append_nil]
    exact h.2.2.1
  | succ steps ih =>
    obtain ⟨q, hq, hparent⟩ := h.parent?
    rw [ancestors_of_some hq]
    obtain ⟨htext, rfl, -⟩ | hleads := hparent
    · -- a single name has the empty path above it, where the chain ends
      have hchain : fs.createAlong (q :: ancestors steps q) = (fs, none) := by
        rw [createAlong, if_pos htext]
      refine createAlong_step_cases h hlinks hend ?_ ?_ ?_ <;> rw [hchain]
      · exact .refl _ fs
      · rw [List.append_nil]
        exact fun _ => h.2.2.1
      · exact .inl rfl
    · have habove := createAlong_leads hleads hlinks.of_append steps
      refine createAlong_step_cases h hlinks hend habove.1 habove.2 ?_
      obtain rfl | ⟨init, last, rfl⟩ := init.eq_nil_or_concat'
      · exact .inl (by rw [createAlong_of_nil hleads])
      · rw [List.length_append, List.length_singleton] at hsteps
        refine ih init last hleads hlinks.of_append (by omega) ?_
        refine (endsInName_parent? hq).resolve_left fun hnil => ?_
        exact absurd (hleads.names_eq_nil hnil) (by simp)

theorem Leads.length_le (h : fs.Leads p base names) : names.length ≤ p.text.length + 1 := by
  obtain ⟨-, -, -, front, back, happ, -, -, -, rfl⟩ := h
  have hback : back.length ≤ p.segments.length := by
    rw [happ, List.length_append]
    omega
  exact (List.length_filter_le ..).trans (hback.trans p.length_segments_le)

/-- The directory above a path without double dots and links is made with those above it, or a file is
in the way and nothing is made. -/
theorem createDirectories_cases (h : fs.Leads p base names) (hlinks : fs.NoLinks base names)
    (hend : names = [] ∨ EndsInName p.segments) :
    (∃ fs', fs.createDirectories p = (fs', none)) ∨
      (fs.createDirectories p).1 = fs ∧ fs.FileOnTheWay base names := by
  refine (createAlong_cases h hlinks hend h.length_le).imp_left fun hnone => ?_
  exact ⟨(fs.createDirectories p).1, Prod.ext rfl hnone⟩

/-! ## Files -/

theorem endsInSlash_of_endsInName (h : EndsInName p.segments) : p.endsInSlash = false := by
  rw [Bool.eq_false_iff]
  intro hslash
  unfold Path.endsInSlash at hslash
  rw [beq_iff_eq, List.getLast?_eq_some_iff] at hslash
  obtain ⟨s, hs⟩ := hslash
  have hlast : p.segments.getLast? = some [] := by
    unfold Path.segments
    rw [hs, List.splitOn_append_cons_self]
    simp
  exact absurd (h _ hlast) (by decide)

theorem Leads.fileLocation_free (h : fs.Leads p base (names ++ [name])) (hend : EndsInName p.segments)
    (hdir : fs.get? (base ++ names) = some .directory)
    (hnone : fs.get? (base ++ (names ++ [name])) = none) :
    fs.fileLocation p = .ok (base ++ (names ++ [name])) := by
  have hresolve : fs.resolve p = .ok (.vacant (base ++ (names ++ [name])) false) :=
    h.resolve_vacant (.inl rfl) hend hdir hnone
  unfold fileLocation
  rw [endsInSlash_of_endsInName hend, hresolve]
  rfl

theorem Leads.fileLocation_file (h : fs.Leads p base (names ++ [name])) (hend : EndsInName p.segments)
    {content : ByteArray} (hget : fs.get? (base ++ (names ++ [name])) = some (.file content)) :
    fs.fileLocation p = .ok (base ++ (names ++ [name])) := by
  have hresolve : fs.resolve p = .ok (.present (base ++ (names ++ [name]))) :=
    h.resolve_present_file (.inl rfl) hend hget
  unfold fileLocation
  rw [endsInSlash_of_endsInName hend, hresolve]
  simp [hget]

/-! ## Trees -/

/-- A directory can be moved to a place that yields to it. -/
theorem exists_rename_of_yields {l : Location} {place : Place}
    (h : fs.resolveEntry p = .ok (.present l)) (hdir : fs.get? l = some .directory)
    (hnamed : namesEntry p = true) (hentry : fs.resolveEntry q = .ok place)
    (hnamed' : namesEntry q = true) (hbelow : ¬ l <+: place.location)
    (habove : ¬ place.location <+: l) (hyields : fs.Yields .directory place.location) :
    ∃ fs', fs.rename p q = .ok fs' := by
  have hne : place.location ≠ l := by
    rintro rfl
    exact hbelow (List.prefix_refl _)
  have hfault : fs.moveFault? .directory l place.location = none := by
    unfold moveFault?
    rw [if_pos rfl, if_neg (by simpa using hbelow), if_neg (by simpa using habove)]
    obtain hnone | ⟨hempty, hchildren⟩ := hyields
    · rw [hnone]
    · simp [hempty, hchildren]
  refine ⟨fs.move l place.location, ?_⟩
  unfold rename
  rw [h]
  simp only [bind, Except.bind, hentry, hnamed, hnamed', hdir, Option.getD_some, hne, hfault]
  rfl

theorem exists_rename {l k : Location} {c : Bool} (h : fs.resolveEntry p = .ok (.present l))
    (hdir : fs.get? l = some .directory) (hnamed : namesEntry p = true)
    (hentry : fs.resolveEntry q = .ok (.vacant k c)) (hnamed' : namesEntry q = true)
    (hbelow : ¬ l <+: k) : ∃ fs', fs.rename p q = .ok fs' := by
  have hnone := (canPlace_of_vacant
    (fun _ hmem => Path.slash_not_mem_segment (mem_segments_of_mem_entrySegments hmem)) hentry).2
  have habove : ¬ k <+: l := by
    rintro ⟨rest, rfl⟩
    rw [get?_append_of_none hnone] at hdir
    cases hdir
  exact exists_rename_of_yields h hdir hnamed hentry hnamed' hbelow habove (.inl hnone)

theorem removeTree_of_file (h : fs.Direct p) {content : ByteArray}
    (hfile : fs.get? (fs.spelled p) = some (.file content)) :
    ∃ fault, fs.removeTree p = (fs, some fault) := by
  unfold removeTree
  split
  · exact ⟨_, rfl⟩
  · exact ⟨_, rfl⟩
  · next l hl =>
    obtain rfl : l = fs.spelled p := h.location (.inl rfl) hl
    rw [hfile]
    exact ⟨_, rfl⟩

theorem lastSegment_ne_nil (h : Path.properNames p.segments ≠ []) : lastSegment p ≠ [] := by
  obtain ⟨empty, happ, hempty⟩ := segments_eq_entrySegments p
  have hne : entrySegments p ≠ [] := by
    intro hnil
    rw [happ, hnil, List.nil_append] at h
    refine h (Path.properNames_eq_nil.2 fun segment hsegment => ?_)
    rw [hempty segment hsegment]
    rfl
  obtain ⟨last, hlast⟩ : ∃ last, (entrySegments p).getLast? = some last :=
    ⟨_, List.getLast?_eq_some_getLast hne⟩
  unfold lastSegment
  rw [hlast, Option.getD_some]
  unfold entrySegments at hlast
  rw [List.getLast?_reverse] at hlast
  have hhead := List.head?_dropWhile_not (fun segment : Text => decide (segment = []))
    p.segments.reverse
  rw [hlast] at hhead
  simpa using hhead

/-- A directory does not go by a dot at the end of its path, but all in it does. -/
theorem removeTree_unnamed (hunnamed : namesEntry p = false)
    (hnames : Path.properNames p.segments ≠ []) (hlink : ∀ l target,
      fs.resolveSegments .kept p p.segments = .ok (.present l) → fs.get? l ≠ some (.link target)) :
    (fs.removeTree p).1 = fs ∨ ∃ l, fs.resolveSegments .kept p p.segments = .ok (.present l) ∧
      fs.get? l = some .directory ∧ (fs.removeTree p).1 = fs.clear l := by
  have hkept : ∀ g g' : FileSystem, g.removeDirectory p ≠ .ok g' := by
    intro g g' h
    have hlast := lastSegment_ne_nil hnames
    unfold namesEntry at hunnamed
    unfold removeDirectory at h
    split at h
    · cases h
    · cases h
    · split at h
      · cases h
      · next hdot =>
        split at h
        · cases h
        · next hup =>
          rw [decide_eq_false_iff_not, not_not] at hunnamed
          have hnot : lastSegment p ∉ [[], ".".toList, "..".toList] := by
            rw [List.mem_cons, List.mem_cons, List.mem_singleton]
            exact fun hin => hin.elim hlast fun hin => hin.elim hdot hup
          exact hnot hunnamed
  unfold removeTree
  split
  · exact .inl rfl
  · exact .inl rfl
  · next l hl =>
    cases hget : fs.get? l with
    | none => exact .inl rfl
    | some entry =>
      cases entry with
      | link target => exact absurd hget (hlink l target hl)
      | file content => exact .inl rfl
      | directory =>
        refine .inr ⟨l, hl, hget, ?_⟩
        simp only
        split
        · next after hafter => exact absurd hafter (hkept _ _)
        · rfl
        · rfl

end AndroidResources.FileSystem
