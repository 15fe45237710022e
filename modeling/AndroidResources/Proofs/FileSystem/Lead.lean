import AndroidResources.FileSystem.Operation
import AndroidResources.Proofs.FileSystem.Walk

/-!
# Where paths lead

* `resolveEntry_of_resolve`, `resolve_of_resolveEntry` : a link at the end followed or not;
* `resolveSegments_of_keeps` : a path leads to the same place where the entries on its way are kept;
* `Leads p base names` : a path leads to a directory and from there down some names;
* `Leads.parent?`, `Leads.join` : the paths above and below it;
* `Leads.location` : without links on the way the path leads to the place with these names;
* `Direct fs p` : a path without double dots and without links on its way.
-/

namespace AndroidResources.FileSystem

variable {fs fs' : FileSystem} {p q : Path}

/-! ## Walks that paths ask for -/

theorem resolveSegments_eq_ok {last : LastLink} {segments : List Text} {place : Place} :
    fs.resolveSegments last p segments = .ok place ↔
      p.text ≠ [] ∧ fs.get? (fs.origin p) = some .directory ∧
        fs.walk last linkLimit (fs.origin p) segments = .ok place := by
  unfold resolveSegments
  by_cases htext : p.text = []
  · simp [htext]
  · by_cases horigin : fs.get? (fs.origin p) = some .directory
    · simp [htext, horigin]
    · simp [htext, horigin]

theorem segments_eq_entrySegments (p : Path) :
    ∃ empty, p.segments = entrySegments p ++ empty ∧ ∀ segment ∈ empty, segment = [] := by
  refine ⟨(p.segments.reverse.takeWhile (· = [])).reverse, ?_, fun segment h => ?_⟩
  · unfold entrySegments
    rw [← List.reverse_append, List.takeWhile_append_dropWhile, List.reverse_reverse]
  · simpa using List.mem_takeWhile_imp (List.mem_reverse.1 h)

theorem mem_segments_of_mem_entrySegments {segment : Text} (h : segment ∈ entrySegments p) :
    segment ∈ p.segments := by
  obtain ⟨empty, hsegments, -⟩ := segments_eq_entrySegments p
  rw [hsegments]
  exact List.mem_append_left _ h

theorem resolveKept_of_resolve {l : Location} (h : fs.resolve p = .ok (.present l)) :
    ∃ l', fs.resolveSegments .kept p p.segments = .ok (.present l') := by
  obtain ⟨htext, horigin, hwalk⟩ := resolveSegments_eq_ok.1 h
  rw [← List.append_nil p.segments] at hwalk
  obtain ⟨l', hl'⟩ := walk_kept_of_followed horigin hwalk
  exact ⟨l', resolveSegments_eq_ok.2 ⟨htext, horigin, hl'⟩⟩

theorem resolveEntry_of_resolve {l : Location} (h : fs.resolve p = .ok (.present l)) :
    ∃ l', fs.resolveEntry p = .ok (.present l') := by
  obtain ⟨htext, horigin, hwalk⟩ := resolveSegments_eq_ok.1 h
  obtain ⟨empty, hsegments, -⟩ := segments_eq_entrySegments p
  rw [hsegments] at hwalk
  obtain ⟨l', hl'⟩ := walk_kept_of_followed horigin hwalk
  exact ⟨l', resolveSegments_eq_ok.2 ⟨htext, horigin, hl'⟩⟩

theorem resolve_of_resolveEntry {l : Location} (h : fs.resolveEntry p = .ok (.present l))
    (hl : fs.get? l = some .directory) : fs.resolve p = .ok (.present l) := by
  obtain ⟨htext, horigin, hwalk⟩ := resolveSegments_eq_ok.1 h
  obtain ⟨empty, hsegments, hempty⟩ := segments_eq_entrySegments p
  obtain ⟨left, hleft⟩ := walk_append horigin (walk_followed_of_kept horigin hwalk hl) hl
    empty (.inl rfl)
  refine resolveSegments_eq_ok.2 ⟨htext, horigin, ?_⟩
  have hidle : ∀ segment ∈ empty, Path.isIdle segment = true := fun segment hmem => by
    rw [hempty segment hmem]
    rfl
  rw [hsegments, hleft]
  exact walk_of_arrived (descend_all_idle fs l hidle)

theorem pathExists_iff : fs.pathExists p = true ↔ ∃ l, fs.resolve p = .ok (.present l) := by
  unfold pathExists locate?
  cases h : fs.resolve p with
  | error fault => simp
  | ok place => cases place <;> simp

theorem isDirectory_iff : fs.isDirectory p = true ↔
    ∃ l, fs.resolve p = .ok (.present l) ∧ fs.get? l = some .directory := by
  unfold isDirectory locate?
  cases h : fs.resolve p with
  | error fault => simp
  | ok place => cases place <;> simp

/-! ## What is at the end -/

theorem get?_directory_upward {l k : Location} (hp : l <+: k)
    (hdir : fs.get? k = some .directory) : fs.get? l = some .directory := by
  obtain ⟨rest, rfl⟩ := hp
  by_cases hrest : rest = []
  · rwa [hrest, List.append_nil] at hdir
  · exact get?_of_append rest hrest hdir

theorem isName_of_mem {l : Location} {e : Entry} {name : Text} (h : fs.get? l = some e)
    (hname : name ∈ l) : IsName name := by
  rw [get?_of_ne (List.ne_nil_of_mem hname)] at h
  exact (fs.wellPlaced l e h).2.1 name hname

theorem slash_not_mem_of_vacant {last : LastLink} {segments : List Text} {l : Location} {c : Bool}
    (hsegments : ∀ segment ∈ segments, '/' ∉ segment)
    (h : fs.resolveSegments last p segments = .ok (.vacant l c)) : ∀ name ∈ l, '/' ∉ name := by
  obtain ⟨-, horigin, hwalk⟩ := resolveSegments_eq_ok.1 h
  have hnames : ∀ {l : Location} {e : Entry}, fs.get? l = some e → ∀ name ∈ l, '/' ∉ name := by
    intro l e hget name hname
    exact (isName_of_mem hget hname).2.2.2
  have hwithin : Within (fun s => '/' ∉ s) fs := fun _ target _ _ _ hmem =>
    Path.slash_not_mem_segment hmem
  exact (walk_of_keeps hwithin (Keeps.refl _ fs) (hnames horigin) hsegments hwalk horigin).1

theorem canPlace_of_vacant {last : LastLink} {segments : List Text} {l : Location} {c : Bool}
    (hsegments : ∀ segment ∈ segments, '/' ∉ segment)
    (h : fs.resolveSegments last p segments = .ok (.vacant l c)) :
    fs.CanPlace l ∧ fs.get? l = none := by
  have hslash := slash_not_mem_of_vacant hsegments h
  obtain ⟨-, horigin, hwalk⟩ := resolveSegments_eq_ok.1 h
  obtain ⟨parent, name, rfl, hidle, hup, hparent, hnone⟩ | ⟨_, _, -, heq, -⟩ :=
    walk_honest horigin hwalk
  · refine ⟨⟨by simp, fun n hn => ?_, ?_, ?_⟩, hnone⟩
    · rcases List.mem_append.1 hn with hn' | hn'
      · exact isName_of_mem hparent hn'
      · rw [List.mem_singleton.1 hn']
        exact Path.isName_of_not_idle hidle hup (hslash name (by simp))
    · rw [List.dropLast_concat]
      exact hparent
    · rw [hnone]
      simp
  · cases heq

theorem get?_of_present {last : LastLink} {segments : List Text} {l : Location}
    (h : fs.resolveSegments last p segments = .ok (.present l)) : ∃ e, fs.get? l = some e := by
  obtain ⟨-, horigin, hwalk⟩ := resolveSegments_eq_ok.1 h
  obtain ⟨e, he, -⟩ | ⟨l', target, -, heq, hlink⟩ := walk_honest horigin hwalk
  · exact ⟨e, he⟩
  · cases heq
    exact ⟨_, hlink⟩

/-! ## Paths in two file systems -/

/-- Where a path is read from depends on its first character only. -/
theorem origin_congr (fs : FileSystem) (h : q.isAbsolute = p.isAbsolute) :
    fs.origin q = fs.origin p := by
  unfold origin
  rw [h]

theorem origin_of_workingDirectory (h : fs'.workingDirectory = fs.workingDirectory) (p : Path) :
    fs'.origin p = fs.origin p := by
  unfold origin
  rw [h]

theorem origin_of_keeps {S : Text → Prop} (h : Keeps S fs fs') (p : Path) :
    fs'.origin p = fs.origin p :=
  origin_of_workingDirectory h.origin p

/-- A path leads to the same place where the entries on its way are kept. -/
theorem resolveSegments_of_keeps {S : Text → Prop} (hw : Within S fs) (h : Keeps S fs fs')
    (horigin : ∀ name ∈ fs.origin p, S name) {last : LastLink} {segments : List Text}
    (hsegments : ∀ segment ∈ segments, S segment) {place : Place}
    (hp : fs.resolveSegments last p segments = .ok place) :
    (∀ name ∈ place.location, S name) ∧ (fs'.Settled place →
      fs'.resolveSegments last p segments = .ok (.present place.location)) := by
  obtain ⟨htext, hget, hwalk⟩ := resolveSegments_eq_ok.1 hp
  obtain ⟨hin, hsame⟩ := walk_of_keeps hw h horigin hsegments hwalk hget
  refine ⟨hin, fun hsettled => resolveSegments_eq_ok.2 ⟨htext, ?_, ?_⟩⟩
  · rw [origin_of_keeps h]
    exact h.entries _ _ horigin hget
  · rw [origin_of_keeps h]
    exact hsame hsettled

theorem present_of_keeps_all (h : Keeps (fun _ => True) fs fs') {last : LastLink}
    {segments : List Text} {l : Location}
    (hp : fs.resolveSegments last p segments = .ok (.present l)) :
    fs'.resolveSegments last p segments = .ok (.present l) :=
  (resolveSegments_of_keeps (within_true fs) h (fun _ _ => trivial) (fun _ _ => trivial) hp).2
    (.inl rfl)

theorem resolve_of_keeps_all (h : Keeps (fun _ => True) fs fs') {l : Location}
    (hp : fs.resolve p = .ok (.present l)) : fs'.resolve p = .ok (.present l) :=
  present_of_keeps_all h hp

/-! ## Down from a directory -/

/-- A descent along names, with no link in front of the last one, ends at the place with these
names. -/
theorem descend_location {base : Location} {back : List Text} {d : Descent}
    (hup : "..".toList ∉ back)
    (hlink : ∀ front rest, back = front ++ rest → rest ≠ [] → ∀ target,
      fs.get? (base ++ Path.properNames front) ≠ some (.link target))
    (h : fs.descend base back = .ok d) :
    d = .arrived (.present (base ++ Path.properNames back)) ∨
      (∃ c, d = .arrived (.vacant (base ++ Path.properNames back) c)) ∨
      ∃ target, d = .link (base ++ Path.properNames back) target [] := by
  induction back generalizing base with
  | nil =>
    cases h
    rw [Path.properNames_nil, List.append_nil]
    exact .inl rfl
  | cons segment rest ih =>
    rw [List.mem_cons, not_or] at hup
    by_cases hidle : Path.isIdle segment = true
    · rw [descend_idle _ hidle] at h
      rw [Path.properNames_cons_idle hidle]
      refine ih hup.2 (fun front rest' heq hne target => ?_) h
      have := hlink (segment :: front) rest' (by rw [heq]; rfl) hne target
      rwa [Path.properNames_cons_idle hidle] at this
    · have hname : Path.isIdle segment = false := by simpa using hidle
      have happ : base ++ segment :: Path.properNames rest =
          (base ++ [segment]) ++ Path.properNames rest := by simp
      rw [descend_name _ hidle (Ne.symm hup.1)] at h
      rw [Path.properNames_cons_name hname, happ]
      split at h
      · refine ih hup.2 (fun front rest' heq hne target => ?_) h
        have := hlink (segment :: front) rest' (by rw [heq]; rfl) hne target
        rwa [Path.properNames_cons_name hname, List.append_cons] at this
      · split at h
        · next hrest =>
          cases h
          rw [hrest, Path.properNames_nil, List.append_nil]
          exact .inl rfl
        · cases h
      · next target hget =>
        cases h
        by_cases hrest : rest = []
        · subst hrest
          rw [Path.properNames_nil, List.append_nil]
          exact .inr (.inr ⟨target, rfl⟩)
        · have := hlink [segment] rest rfl hrest target
          rw [Path.properNames_cons_name hname, Path.properNames_nil] at this
          exact absurd hget this
      · split at h
        · next hempty =>
          cases h
          have hrest : Path.properNames rest = [] := by
            rw [Path.properNames_eq_nil]
            intro s hs
            rw [of_decide_eq_true (List.all_eq_true.1 hempty s hs)]
            rfl
          rw [hrest, List.append_nil]
          exact .inr (.inl ⟨_, rfl⟩)
        · cases h

theorem walk_location {last : LastLink} {links : Nat} {base : Location} {back : List Text}
    {place : Place} (hup : "..".toList ∉ back)
    (hlink : ∀ front rest, back = front ++ rest → rest ≠ [] → ∀ target,
      fs.get? (base ++ Path.properNames front) ≠ some (.link target))
    (hlast : last = .kept ∨
      ∀ target, fs.get? (base ++ Path.properNames back) ≠ some (.link target))
    (hbase : fs.get? base = some .directory)
    (h : fs.walk last links base back = .ok place) :
    place.location = base ++ Path.properNames back := by
  obtain hd | ⟨l, target, rfl, hd, rfl⟩ | ⟨l, target, rest, left, hkept, rfl, hd, hleft⟩ :=
    walk_cases h
  · obtain heq | ⟨c, heq⟩ | ⟨target, heq⟩ := descend_location hup hlink hd
    · cases heq
      rfl
    · cases heq
      rfl
    · cases heq
  · obtain heq | ⟨c, heq⟩ | ⟨target, heq⟩ := descend_location hup hlink hd
    · cases heq
    · cases heq
    · cases heq
      rfl
  · have hget : fs.get? l = some (.link target) := descend_honest hbase hd
    obtain heq | ⟨c, heq⟩ | ⟨target, heq⟩ := descend_location hup hlink hd
    · cases heq
    · cases heq
    · cases heq
      obtain rfl | hlast := hlast
      · exact absurd ⟨rfl, rfl⟩ hkept
      · exact absurd hget (hlast target)

theorem descend_present {base : Location} {back : List Text} (hup : "..".toList ∉ back)
    (hdir : fs.get? (base ++ Path.properNames back) = some .directory) :
    fs.descend base back = .ok (.arrived (.present (base ++ Path.properNames back))) := by
  induction back generalizing base with
  | nil =>
    rw [Path.properNames_nil, List.append_nil]
    rfl
  | cons segment rest ih =>
    rw [List.mem_cons, not_or] at hup
    by_cases hidle : Path.isIdle segment = true
    · rw [Path.properNames_cons_idle hidle] at hdir ⊢
      rw [descend_idle _ hidle]
      exact ih hup.2 hdir
    · have hname : Path.isIdle segment = false := by simpa using hidle
      rw [Path.properNames_cons_name hname, List.append_cons] at hdir ⊢
      have hnext : fs.get? (base ++ [segment]) = some .directory := by
        by_cases hnil : Path.properNames rest = []
        · rwa [hnil, List.append_nil] at hdir
        · exact get?_of_append _ hnil hdir
      rw [descend_name _ hidle (Ne.symm hup.1), hnext]
      exact ih hup.2 hdir

/-- The last segment, if there is one, means something. -/
def EndsInName (segments : List Text) : Prop :=
  ∀ segment ∈ segments.getLast?, Path.isIdle segment = false

/-- Idle segments at the end are not those of a front part that ends in a name. -/
theorem EndsInName.exists_append {front back kept idle : List Text} (hfront : EndsInName front)
    (happ : front ++ back = kept ++ idle) (hidle : ∀ segment ∈ idle, Path.isIdle segment = true) :
    ∃ between, kept = front ++ between ∧ back = between ++ idle := by
  obtain ⟨between, hkept, hback⟩ | ⟨extra, hfront', hidle'⟩ := List.append_eq_append_iff.1 happ
  · exact ⟨between, hkept, hback⟩
  · have hnil : extra = [] := by
      by_contra hne
      obtain ⟨name, hlast⟩ : ∃ name, extra.getLast? = some name :=
        ⟨_, List.getLast?_eq_some_getLast hne⟩
      have hname : Path.isIdle name = false := by
        apply hfront name
        rw [hfront', List.getLast?_append_of_ne_nil kept hne, hlast]
        rfl
      rw [hidle name (by rw [hidle']; exact List.mem_append_left _ (List.mem_of_getLast? hlast))]
        at hname
      cases hname
    subst hnil
    exact ⟨[], by rw [hfront', List.append_nil, List.append_nil], hidle'.symm⟩

/-- A path that keeps the segments in front of its last name keeps those that lead to a directory,
and the names behind them. -/
theorem EndsInName.exists_kept {front back before kept : List Text} {first : Text}
    (hfront : EndsInName front) (happ : front ++ back = first :: before)
    (hup : "..".toList ∉ back)
    (hkept : kept = first :: (before.reverse.dropWhile Path.isIdle).reverse ∨
      first = [] ∧ Path.properNames before = [] ∧ kept = [[], []]) :
    ∃ back', kept = front ++ back' ∧ "..".toList ∉ back' ∧
      Path.properNames back' = Path.properNames back := by
  obtain hkept | ⟨rfl, hnil, hkept⟩ := hkept
  · obtain ⟨idle, hbefore, hidle⟩ := Path.dropWhile_idle_reverse before
    have happ' : front ++ back =
        first :: (before.reverse.dropWhile Path.isIdle).reverse ++ idle := by
      rw [happ, List.cons_append, ← hbefore]
    obtain ⟨back', hkept', rfl⟩ := hfront.exists_append happ' hidle
    refine ⟨back', hkept.trans hkept', fun hmem => hup (List.mem_append_left _ hmem), ?_⟩
    rw [Path.properNames_append, Path.properNames_eq_nil.2 hidle, List.append_nil]
  · have hall : ∀ segment ∈ [] :: before, Path.isIdle segment = true := by
      rw [← Path.properNames_eq_nil, Path.properNames_cons_idle rfl, hnil]
    obtain ⟨back', hnone, hback⟩ := hfront.exists_append (happ.trans (List.nil_append _).symm) hall
    obtain ⟨rfl, rfl⟩ := List.append_eq_nil_iff.1 hnone.symm
    rw [hback, List.nil_append, Path.properNames_eq_nil.2 hall]
    exact ⟨[[], []], hkept, by decide, by decide⟩

/-- The path leads to a directory and from there down the names. -/
def Leads (fs : FileSystem) (p : Path) (base : Location) (names : List Text) : Prop :=
  p.text ≠ [] ∧ fs.get? (fs.origin p) = some .directory ∧ fs.get? base = some .directory ∧
    ∃ front back, p.segments = front ++ back ∧
      fs.walk .followed linkLimit (fs.origin p) front = .ok (.present base) ∧
      EndsInName front ∧ "..".toList ∉ back ∧ Path.properNames back = names

/-- No link is met on the way down the names, and none at their end. -/
def NoLinks (fs : FileSystem) (base : Location) (names : List Text) : Prop :=
  ∀ front rest, names = front ++ rest → front ≠ [] → ∀ target,
    fs.get? (base ++ front) ≠ some (.link target)

theorem NoLinks.of_append {base : Location} {names more : List Text}
    (h : fs.NoLinks base (names ++ more)) : fs.NoLinks base names :=
  fun front rest heq hne target =>
    h front (rest ++ more) (by rw [heq, List.append_assoc]) hne target

theorem noLinks_child {l : Location} {name : Text}
    (hlink : ∀ target, fs.get? (l ++ [name]) ≠ some (.link target)) : fs.NoLinks l [name] := by
  intro front rest heq hne target
  obtain ⟨rfl, rfl⟩ | ⟨rfl, rfl⟩ := List.singleton_eq_append_iff.1 heq
  · exact absurd rfl hne
  · exact hlink target

namespace Leads

variable {base : Location} {names : List Text}

/-- A path whose segments are names and no double dots leads down from where it is read. -/
theorem of_origin (htext : p.text ≠ []) (horigin : fs.get? (fs.origin p) = some .directory)
    (hup : "..".toList ∉ p.segments) :
    fs.Leads p (fs.origin p) (Path.properNames p.segments) :=
  ⟨htext, horigin, horigin, [], p.segments, rfl, walk_of_arrived rfl, by simp [EndsInName], hup, rfl⟩

theorem mem_segments {name : Text} (h : fs.Leads p base names) (hname : name ∈ names) :
    name ∈ p.segments := by
  obtain ⟨-, -, -, front, back, hsegments, -, -, -, rfl⟩ := h
  rw [hsegments]
  exact List.mem_append_right _ (List.mem_of_mem_filter hname)

theorem of_keeps {S : Text → Prop} (h : fs.Leads p base names) (hw : Within S fs)
    (hk : Keeps S fs fs') (hin : ∀ name ∈ fs.origin p, S name)
    (hsegments : ∀ segment ∈ p.segments, S segment) : fs'.Leads p base names := by
  obtain ⟨htext, horigin, hbase, front, back, happ, hwalk, hfront, hup, hnames⟩ := h
  have hin' : ∀ segment ∈ front, S segment := fun segment hmem => by
    apply hsegments
    rw [happ]
    exact List.mem_append_left _ hmem
  obtain ⟨hinBase, hsame⟩ := walk_of_keeps hw hk hin hin' hwalk horigin
  refine ⟨htext, ?_, hk.entries _ _ hinBase hbase, front, back, happ, ?_, hfront, hup, hnames⟩
  · rw [origin_of_keeps hk]
    exact hk.entries _ _ hin horigin
  · rw [origin_of_keeps hk]
    exact hsame (.inl rfl)

theorem of_keeps_all (h : fs.Leads p base names) (hk : Keeps (fun _ => True) fs fs') :
    fs'.Leads p base names :=
  h.of_keeps (within_true fs) hk (fun _ _ => trivial) (fun _ _ => trivial)

/-- A walk to the end of a path goes on down the names from the directory. Where there are no names,
the path may name a link to the directory. -/
theorem exists_walk (h : fs.Leads p base names) {last : LastLink}
    (hlast : last = .followed ∨ names ≠ []) {segments : List Text}
    (hsegments : segments = p.segments ∨ segments = entrySegments p) :
    ∃ left back, fs.walk last linkLimit (fs.origin p) segments = fs.walk last left base back ∧
      back <:+ segments ∧ "..".toList ∉ back ∧ Path.properNames back = names := by
  obtain ⟨-, horigin, hbase, front, back, happ, hwalk, hfront, hup, rfl⟩ := h
  have key : ∀ back' empty, back = back' ++ empty → (∀ segment ∈ empty, segment = []) →
      segments = front ++ back' →
      ∃ left back', fs.walk last linkLimit (fs.origin p) segments = fs.walk last left base back' ∧
        back' <:+ segments ∧ "..".toList ∉ back' ∧
        Path.properNames back' = Path.properNames back := by
    rintro back' empty rfl hempty rfl
    have hnames : Path.properNames (back' ++ empty) = Path.properNames back' := by
      have hnil : Path.properNames empty = [] := Path.properNames_eq_nil.2 fun s hs => by
        rw [hempty s hs]
        rfl
      rw [Path.properNames_append, hnil, List.append_nil]
    rw [hnames] at hlast
    have hback : last = .followed ∨ back' ≠ [] := hlast.imp_right fun hne hnil => by
      rw [hnil] at hne
      exact hne rfl
    obtain ⟨left, hleft⟩ := walk_append horigin hwalk hbase back' hback
    exact ⟨left, back', hleft, List.suffix_append .., fun hmem => hup (List.mem_append_left _ hmem),
      hnames.symm⟩
  obtain rfl | rfl := hsegments
  · exact key back [] (List.append_nil _).symm (by simp) happ
  · obtain ⟨empty, hentry, hempty⟩ := segments_eq_entrySegments p
    have hidle : ∀ segment ∈ empty, Path.isIdle segment = true := fun segment hmem => by
      rw [hempty segment hmem]
      rfl
    obtain ⟨back', hfront', hback⟩ := hfront.exists_append (happ.symm.trans hentry) hidle
    exact key back' empty hback hempty hfront'

/-- Without links on the way a path leads to the place with these names. -/
theorem location (h : fs.Leads p base names) (hlinks : fs.NoLinks base names) {last : LastLink}
    (hlast : last = .followed ∨ names ≠ [])
    {segments : List Text} (hsegments : segments = p.segments ∨ segments = entrySegments p)
    {place : Place} (hp : fs.resolveSegments last p segments = .ok place) :
    place.location = base ++ names := by
  obtain ⟨left, back, hwalk, -, hup, rfl⟩ := h.exists_walk hlast hsegments
  obtain ⟨-, -, hplace⟩ := resolveSegments_eq_ok.1 hp
  have hbase := h.2.2.1
  have hnolink : ∀ front rest, back = front ++ rest → ∀ target,
      fs.get? (base ++ Path.properNames front) ≠ some (.link target) := by
    rintro front rest rfl target
    by_cases hnil : Path.properNames front = []
    · rw [hnil, List.append_nil, hbase]
      simp
    · exact hlinks _ _ (Path.properNames_append ..) hnil target
  rw [hwalk] at hplace
  exact walk_location hup (fun front rest heq _ => hnolink front rest heq)
    (.inr (hnolink back [] (List.append_nil _).symm)) hbase hplace

theorem resolve_present (h : fs.Leads p base names) {last : LastLink}
    (hlast : last = .followed ∨ names ≠ []) {segments : List Text}
    (hsegments : segments = p.segments ∨ segments = entrySegments p)
    (hdir : fs.get? (base ++ names) = some .directory) :
    fs.resolveSegments last p segments = .ok (.present (base ++ names)) := by
  obtain ⟨left, back, hwalk, -, hup, rfl⟩ := h.exists_walk hlast hsegments
  refine resolveSegments_eq_ok.2 ⟨h.1, h.2.1, ?_⟩
  rw [hwalk]
  exact walk_of_arrived (descend_present hup hdir)

theorem resolve_nil (h : fs.Leads p base []) : fs.resolve p = .ok (.present base) := by
  have hbase : fs.get? (base ++ []) = some .directory := by
    rw [List.append_nil]
    exact h.2.2.1
  rw [← List.append_nil base]
  exact h.resolve_present (.inl rfl) (.inl rfl) hbase

theorem resolve_file (h : fs.Leads p base names) (hend : EndsInName p.segments) (hne : names ≠ [])
    {content : ByteArray} (hget : fs.get? (base ++ names) = some (.file content)) :
    fs.resolve p = .ok (.present (base ++ names)) := by
  obtain ⟨htext, horigin, hbase, front, back, happ, hwalk, -, hup, rfl⟩ := h
  obtain ⟨left, hleft⟩ := walk_append horigin hwalk hbase back (.inl rfl)
  refine resolveSegments_eq_ok.2 ⟨htext, horigin, ?_⟩
  rw [happ, hleft]
  apply walk_of_arrived
  obtain ⟨init, last, rfl⟩ : ∃ init last, back = init ++ [last] :=
    ⟨_, _, (List.dropLast_concat_getLast (fun hnil => hne (by rw [hnil]; rfl))).symm⟩
  have hlast : Path.isIdle last = false := hend last (by rw [happ]; simp)
  have hnames : Path.properNames (init ++ [last]) = Path.properNames init ++ [last] := by
    rw [Path.properNames_append, Path.properNames_cons_name hlast, Path.properNames_nil]
  rw [hnames, ← List.append_assoc] at hget ⊢
  have hdir : fs.get? (base ++ Path.properNames init) = some .directory :=
    get?_of_append [last] (by simp) hget
  rw [List.mem_append, not_or] at hup
  rw [descend_append_directory [last] hbase (descend_present hup.1 hdir) hdir,
    descend_name _ (by simp [hlast]) (fun heq => hup.2 (by simp [heq])), hget]
  rfl

theorem parent? {name : Text} (h : fs.Leads p base (names ++ [name])) :
    ∃ q, p.parent? = some q ∧
      (q.text = [] ∧ names = [] ∧ base = fs.workingDirectory ∨ fs.Leads q base names) := by
  obtain ⟨htext, horigin, hbase, front, back, happ, hwalk, hfront, hup, hnames⟩ := h
  obtain ⟨before, idle, rfl, hbefore, hname, hidle⟩ := Path.exists_of_properNames_concat hnames
  have hup' : "..".toList ∉ before := fun hmem => hup (List.mem_append_left _ hmem)
  have hsplit : p.segments = (front ++ before) ++ name :: idle := by
    rw [happ, List.append_assoc]
  cases hcons : front ++ before with
  | nil =>
    rw [hcons] at hsplit
    obtain ⟨rfl, hnil⟩ := List.append_eq_nil_iff.1 hcons
    refine ⟨⟨[]⟩, Path.parent?_of_single hsplit hname hidle, .inl ⟨rfl, ?_, ?_⟩⟩
    · rw [← hbefore, hnil]
      rfl
    · have hrelative : p.isAbsolute = false := by
        rw [Bool.eq_false_iff, Ne, Path.isAbsolute_iff, hsplit]
        rintro ⟨second, others, heq⟩
        rw [(List.cons.inj heq).1] at hname
        cases hname
      have hroot : fs.origin p = fs.workingDirectory := if_neg (by simp [hrelative])
      rw [← hroot]
      have hhere : fs.descend (fs.origin p) [] = .ok (.arrived (.present (fs.origin p))) := rfl
      rw [walk_of_arrived hhere] at hwalk
      cases hwalk
      rfl
  | cons first others =>
    rw [hcons, List.cons_append] at hsplit
    obtain ⟨q, hq, hqtext, habsolute, hsegments⟩ := Path.parent?_of_segments hsplit hname hidle
    have horigin' : fs.origin q = fs.origin p := fs.origin_congr habsolute
    obtain ⟨back, hback, hup'', hnames'⟩ := hfront.exists_kept hcons hup' hsegments
    rw [← horigin'] at horigin hwalk
    exact ⟨q, hq, .inr ⟨hqtext, horigin, hbase, front, back, hback, hwalk, hfront, hup'',
      hnames'.trans hbefore⟩⟩

theorem join (h : fs.Leads p base names) (hq : q.isAbsolute = false)
    (hq' : "..".toList ∉ q.segments) :
    fs.Leads (p.join q) base (names ++ Path.properNames q.segments) := by
  obtain ⟨htext, horigin, hbase, front, back, happ, hwalk, hfront, hup, rfl⟩ := h
  have horigin' : fs.origin (p.join q) = fs.origin p :=
    fs.origin_congr (Path.isAbsolute_join hq htext)
  have htext' : (p.join q).text ≠ [] := by
    unfold Path.join
    rw [hq, if_neg Bool.false_ne_true]
    split <;> simp [htext]
  have hlead : ∃ back', p.leadingSegments = front ++ back' ∧ "..".toList ∉ back' ∧
      Path.properNames back' = Path.properNames back := by
    obtain heq | heq := Path.segments_eq_leadingSegments p
    · exact ⟨back, heq.symm.trans happ, hup, rfl⟩
    · obtain ⟨back', hkept, rfl⟩ := hfront.exists_append (happ.symm.trans heq) (by decide)
      refine ⟨back', hkept, fun hmem => hup (List.mem_append_left _ hmem), ?_⟩
      rw [Path.properNames_append]
      exact (List.append_nil _).symm
  obtain ⟨back', hkept, hup', hnames⟩ := hlead
  rw [← horigin'] at horigin hwalk
  refine ⟨htext', horigin, hbase, front, back' ++ q.segments, ?_, hwalk, hfront, ?_, ?_⟩
  · rw [Path.segments_join p hq, hkept, List.append_assoc]
  · rw [List.mem_append, not_or]
    exact ⟨hup', hq'⟩
  · rw [Path.properNames_append, hnames]

/-- A path leads on from the directory to which its front part leads; what is idle at the end of that
part does not count. -/
theorem of_walk {l : Location} {front back : List Text} (htext : p.text ≠ [])
    (horigin : fs.get? (fs.origin p) = some .directory) (hl : fs.get? l = some .directory)
    (happ : p.segments = front ++ back)
    (hwalk : fs.walk .followed linkLimit (fs.origin p) front = .ok (.present l))
    (hup : "..".toList ∉ back) : fs.Leads p l (Path.properNames back) := by
  obtain ⟨idle, hfront, hidle⟩ := Path.dropWhile_idle_reverse front
  have hend : EndsInName (front.reverse.dropWhile Path.isIdle).reverse := by
    intro segment hmem
    rw [List.getLast?_reverse, Option.mem_def] at hmem
    have hnot := List.head?_dropWhile_not Path.isIdle front.reverse
    rw [hmem] at hnot
    exact hnot
  rw [hfront] at happ hwalk
  rw [List.append_assoc] at happ
  refine ⟨htext, horigin, hl, _, idle ++ back, happ, walk_front_of_idle horigin hidle hwalk, hend,
    ?_, ?_⟩
  · rw [List.mem_append, not_or]
    exact ⟨fun hmem => absurd (hidle _ hmem) (by decide), hup⟩
  · rw [Path.properNames_append, Path.properNames_eq_nil.2 hidle, List.nil_append]

theorem of_resolve {l : Location} (h : fs.resolve p = .ok (.present l))
    (hl : fs.get? l = some .directory) : fs.Leads p l [] := by
  obtain ⟨htext, horigin, hwalk⟩ := resolveSegments_eq_ok.1 h
  exact of_walk htext horigin hl (List.append_nil _).symm hwalk (by simp)

theorem eq_of_nil {l l' : Location} (h : fs.Leads p l []) (h' : fs.Leads p l' []) : l = l' :=
  Place.present.inj (Except.ok.inj (h.resolve_nil.symm.trans h'.resolve_nil))

theorem exists_resolveEntry (h : fs.Leads p base []) : ∃ l, fs.resolveEntry p = .ok (.present l) := by
  obtain ⟨htext, horigin, hbase, front, back, happ, hwalk, -, -, hnames⟩ := h
  obtain ⟨left, hleft⟩ := walk_append horigin hwalk hbase back (.inl rfl)
  have hpresent : fs.resolve p = .ok (.present base) := by
    refine resolveSegments_eq_ok.2 ⟨htext, horigin, ?_⟩
    rw [happ, hleft]
    exact walk_of_arrived (descend_all_idle fs base (Path.properNames_eq_nil.1 hnames))
  exact resolveEntry_of_resolve hpresent

end Leads

/-! ## Paths without double dots and links -/

/-- The location that a path spells: its names, read from the root or the working directory. -/
def spelled (fs : FileSystem) (p : Path) : Location :=
  fs.origin p ++ Path.properNames p.segments

/-- The path has no double dots and passes through no link: none of its segments but the last leads
to one. -/
structure Direct (fs : FileSystem) (p : Path) : Prop where
  noParent : "..".toList ∉ p.segments
  noLink : ∀ front rest, p.segments = front ++ rest → rest ≠ [] → ∀ target,
    fs.get? (fs.origin p ++ Path.properNames front) ≠ some (.link target)

/-- A path without double dots leads to the directory that it spells. -/
theorem Leads.of_spelled (htext : p.text ≠ []) (hup : "..".toList ∉ p.segments)
    (hdir : fs.get? (fs.spelled p) = some .directory) : fs.Leads p (fs.spelled p) [] := by
  have horigin : fs.get? (fs.origin p) = some .directory := by
    by_cases hnames : Path.properNames p.segments = []
    · unfold spelled at hdir
      rwa [hnames, List.append_nil] at hdir
    · exact get?_of_append _ hnames hdir
  exact of_resolve ((of_origin htext horigin hup).resolve_present (.inl rfl) (.inl rfl) hdir) hdir

theorem spelled_congr (h : fs'.workingDirectory = fs.workingDirectory) (p : Path) :
    fs'.spelled p = fs.spelled p := by
  unfold spelled origin
  rw [h]

namespace Direct

theorem of_links (h : fs.Direct p) (horigin : fs'.workingDirectory = fs.workingDirectory)
    (hlinks : ∀ k target, k <+: fs.spelled p → fs'.get? k = some (.link target) →
      fs.get? k = some (.link target)) : fs'.Direct p := by
  have horigin' : fs'.origin p = fs.origin p := origin_of_workingDirectory horigin p
  refine ⟨h.noParent, fun front rest hsegments hne target hget => ?_⟩
  rw [horigin'] at hget
  refine h.noLink front rest hsegments hne target (hlinks _ target ?_ hget)
  unfold spelled
  rw [hsegments, Path.properNames_append, ← List.append_assoc]
  exact List.prefix_append ..

theorem noLinks (h : fs.Direct p) {names more : List Text}
    (hnames : Path.properNames p.segments = names ++ more) (hmore : more ≠ []) :
    fs.NoLinks (fs.origin p) names := by
  rintro front rest rfl hne target
  rw [List.append_assoc] at hnames
  obtain ⟨start, others, hsegments, rfl, hothers⟩ := List.filter_eq_append_iff.1 hnames
  refine h.noLink start others hsegments ?_ target
  rintro rfl
  exact hmore (List.append_eq_nil_iff.1 hothers.symm).2

theorem location (h : fs.Direct p) {segments : List Text}
    (hsegments : segments = p.segments ∨ segments = entrySegments p) {place : Place}
    (hp : fs.resolveSegments .kept p segments = .ok place) : place.location = fs.spelled p := by
  obtain ⟨-, horigin, hwalk⟩ := resolveSegments_eq_ok.1 hp
  have key : ∀ empty, p.segments = segments ++ empty → (∀ segment ∈ empty, segment = []) →
      place.location = fs.spelled p := by
    intro empty happ hempty
    have hnames : Path.properNames p.segments = Path.properNames segments := by
      have hnil : Path.properNames empty = [] := Path.properNames_eq_nil.2 fun s hs => by
        rw [hempty s hs]
        rfl
      rw [happ, Path.properNames_append, hnil, List.append_nil]
    unfold spelled
    rw [hnames]
    refine walk_location (fun hmem => h.noParent ?_) (fun front rest heq hne target => ?_)
      (.inl rfl) horigin hwalk
    · rw [happ]
      exact List.mem_append_left _ hmem
    · refine h.noLink front (rest ++ empty) ?_ (by simp [hne]) target
      rw [happ, heq, List.append_assoc]
  obtain rfl | rfl := hsegments
  · exact key [] (List.append_nil _).symm (by simp)
  · obtain ⟨empty, hentry, hempty⟩ := segments_eq_entrySegments p
    exact key empty hentry hempty

end Direct

instance (fs : FileSystem) (p : Path) : Decidable (fs.Direct p) :=
  decidable_of_iff ("..".toList ∉ p.segments ∧ ∀ front ∈ p.segments.inits, front ≠ p.segments →
      (fs.get? (fs.origin p ++ Path.properNames front)).all (fun entry => !(entry matches .link _)) = true) <| by
    constructor
    · rintro ⟨hup, hlink⟩
      refine ⟨hup, fun front rest hsegments hne target hget => ?_⟩
      have h := hlink front ((List.mem_inits ..).2 ⟨rest, hsegments.symm⟩) fun heq =>
        hne (List.self_eq_append_right.1 (heq.trans hsegments))
      rw [hget] at h
      cases h
    · rintro ⟨hup, hlink⟩
      refine ⟨hup, fun front hfront hne => ?_⟩
      obtain ⟨rest, hrest⟩ := (List.mem_inits ..).1 hfront
      have hnot := hlink front rest hrest.symm (by rintro rfl; exact hne (by simpa using hrest))
      rw [Option.all_eq_true]
      rintro (_ | _ | target) he
      · rfl
      · rfl
      · exact absurd he (hnot target)

end AndroidResources.FileSystem
