import AndroidResources.Proofs.FileSystem.Lead

/-!
# What operations change

Each operation that succeeds is described by what is at each location afterwards.

* `makesAlong` : what making a chain of directories comes to;
* `makeDirectory_eq_ok`, `createAlong_leads` : new directories, `AddsDirectories` and nothing else;
* `fileLocation_eq_ok`, `fileLocation_leads` : the place of a file that is written;
* `rename_eq_ok` : a tree moved, `CanMove` is what the checks establish;
* `removeTree_direct`, `exists_removeTree_direct` : a tree gone, and when it goes;
* `not_pathExists_of_removeTree` : its path leads nowhere.
-/

namespace AndroidResources.FileSystem

variable {fs fs' : FileSystem} {p q : Path} {base : Location} {names : List Text}

/-! ## Directories -/

theorem workingDirectory_place (fs : FileSystem) (l : Location) (e : Entry) :
    (fs.place l e).workingDirectory = fs.workingDirectory := by
  unfold place
  split <;> rfl

theorem makeDirectory_eq_ok (h : fs.makeDirectory p = .ok fs') :
    ∃ l c, fs.resolveEntry p = .ok (.vacant l c) ∧ fs.CanPlace l ∧ fs.get? l = none ∧
      fs' = fs.place l .directory := by
  unfold makeDirectory at h
  split at h
  · cases h
  · cases h
  · next l c hl =>
    cases h
    obtain ⟨hplace, hnone⟩ := canPlace_of_vacant
      (fun _ hmem => Path.slash_not_mem_segment (mem_segments_of_mem_entrySegments hmem)) hl
    exact ⟨l, c, hl, hplace, hnone, rfl⟩

/-- Directories are added at some of the free places that satisfy `P`, and nothing else changes. -/
structure AddsDirectories (P : Location → Prop) (fs fs' : FileSystem) : Prop where
  origin : fs'.workingDirectory = fs.workingDirectory
  entries : ∀ l, fs'.get? l = fs.get? l ∨
    P l ∧ fs.get? l = none ∧ fs'.get? l = some .directory

namespace AddsDirectories

variable {P Q : Location → Prop} {fs'' : FileSystem}

theorem refl (P : Location → Prop) (fs : FileSystem) : AddsDirectories P fs fs :=
  ⟨rfl, fun _ => .inl rfl⟩

theorem trans (h : AddsDirectories P fs fs') (h' : AddsDirectories P fs' fs'') :
    AddsDirectories P fs fs'' := by
  refine ⟨h'.origin.trans h.origin, fun l => ?_⟩
  obtain heq | ⟨hp, hnone, hdir⟩ := h'.entries l
  · rw [heq]
    exact h.entries l
  · obtain heq | ⟨-, -, hdir'⟩ := h.entries l
    · rw [heq] at hnone
      exact .inr ⟨hp, hnone, hdir⟩
    · rw [hdir'] at hnone
      cases hnone

theorem mono (h : AddsDirectories P fs fs') (hsub : ∀ l, P l → Q l) : AddsDirectories Q fs fs' :=
  ⟨h.origin, fun l => (h.entries l).imp_right fun ⟨hp, rest⟩ => ⟨hsub l hp, rest⟩⟩

/-- What is known of the new directories may depend on what is there before and afterwards. -/
theorem restrict (h : AddsDirectories P fs fs')
    (hsub : ∀ l, P l → fs.get? l = none → fs'.get? l = some .directory → Q l) :
    AddsDirectories Q fs fs' :=
  ⟨h.origin, fun l => (h.entries l).imp_right fun ⟨hp, hnone, hdir⟩ =>
    ⟨hsub l hp hnone hdir, hnone, hdir⟩⟩

theorem get?_of_some (h : AddsDirectories P fs fs') {l : Location} {e : Entry}
    (hget : fs.get? l = some e) : fs'.get? l = some e := by
  obtain heq | ⟨-, hnone, -⟩ := h.entries l
  · rw [heq, hget]
  · rw [hget] at hnone
    cases hnone

theorem get?_of_ne_directory (h : AddsDirectories P fs fs') {l : Location} {e : Entry}
    (hget : fs'.get? l = some e) (he : e ≠ .directory) : fs.get? l = some e := by
  obtain heq | ⟨-, -, hdir⟩ := h.entries l
  · rw [← heq, hget]
  · rw [hget] at hdir
    exact absurd (Option.some.inj hdir) he

theorem get?_of_not (h : AddsDirectories P fs fs') {l : Location} (hl : ¬ P l) :
    fs'.get? l = fs.get? l := by
  obtain heq | ⟨hp, -⟩ := h.entries l
  · exact heq
  · exact absurd hp hl

theorem keeps (h : AddsDirectories P fs fs') (S : Text → Prop) : Keeps S fs fs' :=
  ⟨h.origin, fun _ _ _ hget => h.get?_of_some hget⟩

theorem noLinks (h : AddsDirectories P fs fs') (hlinks : fs.NoLinks base names) :
    fs'.NoLinks base names := fun front rest heq hne target hget =>
  hlinks front rest heq hne target (h.get?_of_ne_directory hget (by simp))

theorem of_place {l : Location} (hplace : fs.CanPlace l) (hnone : fs.get? l = none) (hl : P l) :
    AddsDirectories P fs (fs.place l .directory) := by
  refine ⟨workingDirectory_place fs l _, fun k => ?_⟩
  rw [get?_place hplace]
  split
  · next heq =>
    subst heq
    exact .inr ⟨hl, hnone, rfl⟩
  · exact .inl rfl

end AddsDirectories

/-- A place on the way from the directory down the names. -/
def OnTheWay (base : Location) (names : List Text) (l : Location) : Prop :=
  ∃ front, front ≠ [] ∧ front <+: names ∧ l = base ++ front

theorem OnTheWay.of_append {l : Location} {more : List Text} (h : OnTheWay base names l) :
    OnTheWay base (names ++ more) l := by
  obtain ⟨front, hne, hfront, rfl⟩ := h
  exact ⟨front, hne, hfront.trans (List.prefix_append ..), rfl⟩

theorem Direct.of_adds (h : fs.Direct p) (hadds : AddsDirectories P fs fs') : fs'.Direct p :=
  h.of_links hadds.origin fun _ _ _ hget => hadds.get?_of_ne_directory hget (by simp)

/-- A place where a directory is needed for the location to be there. -/
def Above (l k : Location) : Prop :=
  k <+: l ∧ k ≠ l

instance (l k : Location) : Decidable (Above l k) :=
  inferInstanceAs (Decidable (_ ∧ _))

theorem OnTheWay.above {l : Location} (h : OnTheWay base names l) (last : Text) :
    Above (base ++ (names ++ [last])) l := by
  obtain ⟨front, -, hfront, rfl⟩ := h
  refine ⟨(List.prefix_append_right_inj base).2 (hfront.trans (List.prefix_append ..)), fun heq => ?_⟩
  have hlen := hfront.length_le
  rw [List.append_cancel_left heq, List.length_append, List.length_singleton] at hlen
  omega

theorem isDirectory_location (h : fs.Leads p base names) (hlinks : fs.NoLinks base names)
    (hdir : fs.isDirectory p = true) : fs.get? (base ++ names) = some .directory := by
  obtain ⟨l, hresolve, hl⟩ := isDirectory_iff.1 hdir
  rw [← h.location hlinks (.inl rfl) (.inl rfl) hresolve]
  exact hl

theorem makeDirectory_leads (h : fs.Leads p base names) (hlinks : fs.NoLinks base names)
    (hmake : fs.makeDirectory p = .ok fs') :
    AddsDirectories (OnTheWay base names) fs fs' ∧
      fs'.get? (base ++ names) = some .directory := by
  obtain ⟨l, c, hentry, hplace, hnone, rfl⟩ := makeDirectory_eq_ok hmake
  have hne : names ≠ [] := by
    rintro rfl
    obtain ⟨l', hl'⟩ := h.exists_resolveEntry
    rw [hl'] at hentry
    cases hentry
  have hl : l = base ++ names := h.location hlinks (.inr hne) (.inr rfl) hentry
  subst hl
  refine ⟨.of_place hplace hnone ⟨names, hne, List.prefix_refl names, rfl⟩, ?_⟩
  rw [get?_place hplace, if_pos rfl]

@[simp] theorem ancestors_zero (p : Path) : ancestors 0 p = [] := by
  unfold ancestors
  cases p.parent? <;> rfl

theorem ancestors_of_none (h : p.parent? = none) (steps : Nat) : ancestors steps p = [] := by
  unfold ancestors
  rw [h]

theorem ancestors_of_some (h : p.parent? = some q) (steps : Nat) :
    ancestors (steps + 1) p = q :: ancestors steps q := by
  rw [ancestors.eq_def, h]

/-- The file system in which the first directory of a chain is made: those above it have been made
where they are missing. -/
def Prepares (fs : FileSystem) (p : Path) (above : List Path) (g : FileSystem) : Prop :=
  g = fs ∧ fs.makeDirectory p ≠ .error .notFound ∨
    fs.makeDirectory p = .error .notFound ∧ fs.createAlong above = (g, none)

inductive MakesAlong (fs : FileSystem) (p : Path) (above : List Path) :
    FileSystem × Option IoFault → Prop
  /-- The chain ends at the empty path. -/
  | empty (htext : p.text = []) : MakesAlong fs p above (fs, none)
  /-- Something above is in the way. -/
  | blocked {between : FileSystem} {fault : IoFault} (htext : p.text ≠ [])
      (hmissing : fs.makeDirectory p = .error .notFound)
      (habove : fs.createAlong above = (between, some fault)) :
      MakesAlong fs p above (between, some fault)
  /-- A new directory is made. -/
  | new {g after : FileSystem} (htext : p.text ≠ []) (hg : fs.Prepares p above g)
      (hmake : g.makeDirectory p = .ok after) : MakesAlong fs p above (after, none)
  /-- None is made, which is no fault where there is one. -/
  | kept {g : FileSystem} {fault : IoFault} {fault? : Option IoFault} (htext : p.text ≠ [])
      (hg : fs.Prepares p above g) (hmake : g.makeDirectory p = .error fault)
      (hfault : fault? = if g.isDirectory p then none else some fault) :
      MakesAlong fs p above (g, fault?)

theorem makesAlong {above : List Path} {result : FileSystem × Option IoFault}
    (h : fs.createAlong (p :: above) = result) : fs.MakesAlong p above result := by
  subst h
  rw [createAlong]
  split
  · next htext => exact .empty htext
  · next htext =>
    split
    · next after hmake => exact .new htext (.inl ⟨rfl, by simp [hmake]⟩) hmake
    · next hmissing =>
      split
      · next between fault habove => exact .blocked htext hmissing habove
      · next between habove =>
        split
        · next after hmake => exact .new htext (.inr ⟨hmissing, habove⟩) hmake
        · next fault hmake => exact .kept htext (.inr ⟨hmissing, habove⟩) hmake rfl
    · next fault hfound hmake =>
      exact .kept htext (.inl ⟨rfl, by simpa [hmake] using hfound⟩) hmake rfl

/-- One path of a chain: the directories above it first, where it lies in none. -/
theorem createAlong_step (h : fs.Leads p base names) (hlinks : fs.NoLinks base names)
    {above : List Path}
    (habove : names ≠ [] → AddsDirectories (OnTheWay base names) fs (fs.createAlong above).1) :
    AddsDirectories (OnTheWay base names) fs (fs.createAlong (p :: above)).1 ∧
      ((fs.createAlong (p :: above)).2 = none →
        (fs.createAlong (p :: above)).1.get? (base ++ names) = some .directory) := by
  have hne : fs.makeDirectory p = .error .notFound → names ≠ [] := by
    rintro hmissing rfl
    obtain ⟨l, hl⟩ := h.exists_resolveEntry
    unfold makeDirectory at hmissing
    rw [hl] at hmissing
    cases hmissing
  have hprepares : ∀ {g : FileSystem}, fs.Prepares p above g →
      AddsDirectories (OnTheWay base names) fs g := by
    rintro g (⟨rfl, -⟩ | ⟨hmissing, hcreate⟩)
    · exact .refl _ g
    · have hbetween := habove (hne hmissing)
      rwa [hcreate] at hbetween
  generalize hresult : fs.createAlong (p :: above) = result
  cases makesAlong hresult with
  | empty htext => exact absurd htext h.1
  | blocked _ hmissing hcreate =>
    have hbetween := habove (hne hmissing)
    rw [hcreate] at hbetween
    exact ⟨hbetween, fun hnone => by cases hnone⟩
  | new _ hg hmake =>
    have hbetween := hprepares hg
    obtain ⟨hadds, hdir⟩ := makeDirectory_leads (h.of_keeps_all (hbetween.keeps _))
      (hbetween.noLinks hlinks) hmake
    exact ⟨hbetween.trans hadds, fun _ => hdir⟩
  | @kept g fault fault? _ hg _ hfault =>
    have hbetween := hprepares hg
    refine ⟨hbetween, fun hnone => isDirectory_location (h.of_keeps_all (hbetween.keeps _))
      (hbetween.noLinks hlinks) ?_⟩
    obtain rfl : fault? = none := hnone
    simpa using hfault

theorem createAlong_leads (h : fs.Leads p base names) (hlinks : fs.NoLinks base names)
    (steps : Nat) :
    AddsDirectories (OnTheWay base names) fs (fs.createAlong (p :: ancestors steps p)).1 ∧
      ((fs.createAlong (p :: ancestors steps p)).2 = none →
        (fs.createAlong (p :: ancestors steps p)).1.get? (base ++ names) = some .directory) := by
  induction steps generalizing p names with
  | zero =>
    refine createAlong_step h hlinks fun _ => ?_
    rw [ancestors_zero]
    exact .refl _ fs
  | succ steps ih =>
    refine createAlong_step h hlinks fun hne => ?_
    obtain ⟨init, name, rfl⟩ : ∃ init name, names = init ++ [name] :=
      ⟨_, _, (List.dropLast_concat_getLast hne).symm⟩
    obtain ⟨q, hq, hparent⟩ := h.parent?
    rw [ancestors_of_some hq]
    -- a single name has the empty path above it, where the chain ends
    obtain ⟨htext, -, -⟩ | hleads := hparent
    · rw [createAlong, if_pos htext]
      exact .refl _ fs
    · exact (ih hleads hlinks.of_append).1.mono fun l => OnTheWay.of_append

theorem createDirectories_leads (h : fs.Leads p base names) (hlinks : fs.NoLinks base names)
    (hcreate : fs.createDirectories p = (fs', none)) :
    AddsDirectories (OnTheWay base names) fs fs' ∧
      fs'.get? (base ++ names) = some .directory := by
  have := createAlong_leads h hlinks p.text.length
  unfold createDirectories at hcreate
  rw [hcreate] at this
  exact ⟨this.1, this.2 rfl⟩

/-- Whatever path is given, nothing but directories is made. -/
theorem createAlong_adds (fs : FileSystem) (paths : List Path) :
    AddsDirectories (fun _ => True) fs (fs.createAlong paths).1 := by
  induction paths generalizing fs with
  | nil => exact .refl _ fs
  | cons p above ih =>
    have hprepares : ∀ {g : FileSystem}, fs.Prepares p above g →
        AddsDirectories (fun _ => True) fs g := by
      rintro g (⟨rfl, -⟩ | ⟨-, hcreate⟩)
      · exact .refl _ g
      · have hbetween := ih fs
        rwa [hcreate] at hbetween
    generalize hresult : fs.createAlong (p :: above) = result
    cases makesAlong hresult with
    | empty => exact .refl _ fs
    | blocked _ _ hcreate =>
      have hbetween := ih fs
      rwa [hcreate] at hbetween
    | new _ hg hmake =>
      obtain ⟨l, c, -, hplace, hnone, rfl⟩ := makeDirectory_eq_ok hmake
      exact (hprepares hg).trans (.of_place hplace hnone trivial)
    | kept _ hg => exact hprepares hg

theorem createDirectories_adds (h : fs.createDirectories p = (fs', none)) :
    AddsDirectories (fun _ => True) fs fs' := by
  have hadds := createAlong_adds fs (p :: ancestors p.text.length p)
  unfold createDirectories at h
  rwa [h] at hadds

theorem resolve_of_makeDirectory (h : fs.makeDirectory p = .ok fs') :
    ∃ l, fs'.resolve p = .ok (.present l) ∧ fs'.get? l = some .directory ∧
      ∀ name, fs'.get? (l ++ [name]) = none := by
  obtain ⟨l, c, hentry, hplace, hnone, rfl⟩ := makeDirectory_eq_ok h
  have hl : (fs.place l .directory).get? l = some .directory := by
    rw [get?_place hplace, if_pos rfl]
  have hadds : AddsDirectories (fun _ => True) fs (fs.place l .directory) :=
    .of_place hplace hnone trivial
  have hpresent := (resolveSegments_of_keeps (within_true fs) (hadds.keeps _)
    (fun _ _ => trivial) (fun _ _ => trivial) hentry).2 (.inr hl)
  refine ⟨l, resolve_of_resolveEntry hpresent hl, hl, fun name => ?_⟩
  rw [get?_place hplace, if_neg (by simp)]
  exact get?_append_of_none hnone [name]

theorem isDirectory_of_createDirectories (htext : p.text ≠ [])
    (h : fs.createDirectories p = (fs', none)) : fs'.isDirectory p = true := by
  unfold createDirectories at h
  cases makesAlong h with
  | empty htext' => exact absurd htext' htext
  | new _ _ hmake =>
    obtain ⟨l, hl, hdir, -⟩ := resolve_of_makeDirectory hmake
    exact isDirectory_iff.2 ⟨l, hl, hdir⟩
  | kept _ _ _ hfault => simpa using hfault

/-- What passes from each path to its parent passes to all that lies above. -/
theorem of_mem_ancestors (P : Path → Prop) {steps : Nat} (h : q ∈ ancestors steps p) (hp : P p)
    (hparent : ∀ a b : Path, a.parent? = some b → P a → P b) : P q := by
  induction steps generalizing p with
  | zero =>
    rw [ancestors_zero] at h
    cases h
  | succ steps ih =>
    cases hq : p.parent? with
    | none =>
      rw [ancestors_of_none hq] at h
      cases h
    | some parent =>
      rw [ancestors_of_some hq] at h
      rcases List.mem_cons.1 h with rfl | h
      · exact hparent p q hq hp
      · exact ih h (hparent p parent hq hp)

theorem segments_of_mem_ancestors {steps : Nat} (h : q ∈ ancestors steps p) :
    ∀ segment ∈ q.segments, segment = [] ∨ segment ∈ p.segments := by
  refine of_mem_ancestors (fun a => ∀ segment ∈ a.segments, segment = [] ∨ segment ∈ p.segments) h
    (fun _ => .inr) fun a b hb ha segment hsegment => ?_
  exact ((Path.segments_parent? hb).2 segment hsegment).elim .inl (ha segment)

theorem isAbsolute_of_mem_ancestors {steps : Nat} (h : q ∈ ancestors steps p) :
    q.isAbsolute = p.isAbsolute :=
  of_mem_ancestors (fun a => a.isAbsolute = p.isAbsolute) h rfl fun _ _ hb ha =>
    (Path.segments_parent? hb).1.trans ha

theorem createAlong_of_missing {paths : List Path}
    (h : ∀ q ∈ paths, fs.get? (fs.origin q) ≠ some .directory) :
    (fs.createAlong paths).1 = fs := by
  induction paths with
  | nil => rfl
  | cons p above ih =>
    have habove := ih fun q hq => h q (List.mem_cons_of_mem _ hq)
    have hprepares : ∀ {g : FileSystem}, fs.Prepares p above g → g = fs := by
      rintro g (⟨rfl, -⟩ | ⟨-, hcreate⟩)
      · rfl
      · rwa [hcreate] at habove
    generalize hresult : fs.createAlong (p :: above) = result
    cases makesAlong hresult with
    | empty => rfl
    | blocked _ _ hcreate => rwa [hcreate] at habove
    | new _ hg hmake =>
      obtain rfl := hprepares hg
      obtain ⟨l, c, hentry, -⟩ := makeDirectory_eq_ok hmake
      obtain ⟨-, horigin, -⟩ := resolveSegments_eq_ok.1 hentry
      exact absurd horigin (h p (List.mem_cons_self ..))
    | kept _ hg => exact hprepares hg

theorem createDirectories_of_missing (h : fs.get? (fs.origin p) ≠ some .directory) :
    (fs.createDirectories p).1 = fs := by
  refine createAlong_of_missing fun q hq => ?_
  rcases List.mem_cons.1 hq with rfl | hq
  · exact h
  · rwa [fs.origin_congr (isAbsolute_of_mem_ancestors hq)]

theorem origin_of_createDirectories (htext : p.text ≠ [])
    (h : fs.createDirectories p = (fs', none)) : fs.get? (fs.origin p) = some .directory := by
  by_contra hmissing
  have hsame := createDirectories_of_missing hmissing
  rw [h] at hsame
  obtain rfl : fs' = fs := hsame
  have hdir := isDirectory_of_createDirectories htext h
  obtain ⟨l, hresolve, -⟩ := isDirectory_iff.1 hdir
  exact hmissing (resolveSegments_eq_ok.1 hresolve).2.1

/-! ## Files -/

theorem canPlace_of_present {l : Location} {e : Entry} (h : fs.get? l = some e)
    (he : e ≠ .directory) : fs.CanPlace l := by
  have hne : l ≠ [] := by
    rintro rfl
    exact he (Option.some.inj h).symm
  have hentry := h
  rw [get?_of_ne hne] at hentry
  obtain ⟨-, hnames, hparent⟩ := fs.wellPlaced l e hentry
  refine ⟨hne, hnames, hparent, ?_⟩
  rw [h]
  exact fun heq => he (Option.some.inj heq)

theorem copySource_eq_ok {l : Location} {content : ByteArray}
    (h : fs.copySource p = .ok (l, content)) :
    fs.resolve p = .ok (.present l) ∧ fs.get? l = some (.file content) := by
  unfold copySource at h
  split at h
  · cases h
  · cases h
  · next l' hl' =>
    split at h
    · next content' hget =>
      cases h
      exact ⟨hl', hget⟩
    · cases h

theorem readBytes_eq_ok {content : ByteArray} : fs.readBytes p = .ok content ↔
    ∃ l, fs.resolve p = .ok (.present l) ∧ fs.get? l = some (.file content) := by
  unfold readBytes
  split
  · next hp => simp [hp]
  · next hp => simp [hp]
  · next l hp =>
    rw [hp]
    split
    · next hget => simp [hget]
    · next hget => simp [hget]
    · next hfile hdir => simpa using hfile content

theorem readBytes_of_keeps_all {content : ByteArray} (h : Keeps (fun _ => True) fs fs')
    (hread : fs.readBytes p = .ok content) : fs'.readBytes p = .ok content := by
  obtain ⟨l, hl, hget⟩ := readBytes_eq_ok.1 hread
  exact readBytes_eq_ok.2 ⟨l, resolve_of_keeps_all h hl, h.entries _ _ (fun _ _ => trivial) hget⟩

/-- A file is written where the path leads, to a free place or over another file. -/
theorem fileLocation_eq_ok {l : Location} (h : fs.fileLocation p = .ok l) :
    ∃ place, fs.resolve p = .ok place ∧ place.location = l ∧ (∀ k, place ≠ .vacant k true) ∧
      fs.CanPlace l ∧ (fs.get? l = none ∨ ∃ content, fs.get? l = some (.file content)) := by
  unfold fileLocation at h
  split at h
  · split at h <;> cases h
  · split at h
    · cases h
    · next k asDirectory hresolve =>
      split at h
      · cases h
      · next hfree =>
        cases h
        obtain ⟨hplace, hnone⟩ := canPlace_of_vacant (fun _ => Path.slash_not_mem_segment) hresolve
        refine ⟨_, hresolve, rfl, fun k heq => hfree ?_, hplace, .inl hnone⟩
        exact (Place.vacant.inj heq).2
    · next k hresolve =>
      split at h
      · cases h
      · next hdir =>
        cases h
        obtain ⟨-, horigin, hwalk⟩ := resolveSegments_eq_ok.1 hresolve
        obtain ⟨e, he, hlink⟩ | ⟨_, _, hkept, -⟩ := walk_honest horigin hwalk
        · refine ⟨_, hresolve, rfl, by simp, canPlace_of_present he ?_, .inr ?_⟩
          · rintro rfl
            exact hdir he
          · cases e with
            | file content => exact ⟨content, he⟩
            | directory => exact absurd he hdir
            | link target => exact absurd rfl (hlink target)
        · cases hkept

theorem fileLocation_leads (h : fs.Leads p base names) (hlinks : fs.NoLinks base names)
    {target : Location} (hloc : fs.fileLocation p = .ok target) :
    target = base ++ names ∧ fs.CanPlace target := by
  obtain ⟨place, hresolve, rfl, -, hplace, -⟩ := fileLocation_eq_ok hloc
  exact ⟨h.location hlinks (.inl rfl) (.inl rfl) hresolve, hplace⟩

theorem fileLocation_of_endsInSlash (h : p.endsInSlash = true) (l : Location) :
    fs.fileLocation p ≠ .ok l := by
  unfold fileLocation
  rw [if_pos h]
  split <;> simp

theorem writeFile_eq_ok {content : ByteArray} (h : fs.writeFile p content = .ok fs') :
    ∃ target, fs.fileLocation p = .ok target ∧ fs' = fs.place target (.file content) := by
  unfold writeFile at h
  cases htarget : fs.fileLocation p with
  | error fault =>
    rw [htarget] at h
    cases h
  | ok target =>
    rw [htarget] at h
    cases h
    exact ⟨target, rfl, rfl⟩

theorem copyFile_eq_ok (h : fs.copyFile p q = .ok fs') :
    ∃ l content target, fs.copySource p = .ok (l, content) ∧ fs.fileLocation q = .ok target ∧
      fs' = fs.place target (.file (if target = l then .empty else content)) := by
  unfold copyFile at h
  cases hsource : fs.copySource p with
  | error fault =>
    rw [hsource] at h
    cases h
  | ok source =>
    rw [hsource] at h
    cases htarget : fs.fileLocation q with
    | error fault =>
      replace h : (fs.fileLocation q >>= _) = _ := h
      rw [htarget] at h
      cases h
    | ok target =>
      replace h : (fs.fileLocation q >>= _) = _ := h
      rw [htarget] at h
      cases h
      exact ⟨source.1, source.2, target, rfl, rfl, rfl⟩

/-! ## Trees -/

theorem exists_names_of_namesEntry (h : namesEntry p = true) :
    ∃ names name, Path.properNames p.segments = names ++ [name] := by
  have hne : Path.properNames p.segments ≠ [] := by
    intro hnil
    unfold namesEntry lastSegment at h
    cases hlast : (entrySegments p).getLast? with
    | none =>
      rw [hlast] at h
      exact absurd h (by decide)
    | some segment =>
      rw [hlast] at h
      have hidle := Path.properNames_eq_nil.1 hnil segment
        (mem_segments_of_mem_entrySegments (List.mem_of_getLast? hlast))
      unfold Path.isIdle at hidle
      simp_all
  exact ⟨_, _, (List.dropLast_concat_getLast hne).symm⟩

theorem get?_clear (fs : FileSystem) (l k : Location) :
    (fs.clear l).get? k = if l <+: k ∧ k ≠ l then none else fs.get? k := by
  have hbelow : l <+: k ∧ k ≠ l → l <+: k.dropLast := by
    rintro ⟨⟨rest, rfl⟩, hne⟩
    have hrest : rest ≠ [] := fun h => hne (by rw [h, List.append_nil])
    rw [List.dropLast_append_of_ne_nil hrest]
    exact List.prefix_append ..
  unfold clear
  rw [get?_keepOnly]
  by_cases hk : l <+: k ∧ k ≠ l
  · have hne : k ≠ [] := by
      rintro rfl
      exact hk.2 (List.prefix_nil.1 hk.1).symm
    rw [if_pos hk, if_neg]
    simp [hne, hk.2, List.isPrefixOf_iff_prefix.2 (hbelow hk)]
  · rw [if_neg hk, if_pos]
    by_cases heq : k = l
    · simp [heq]
    · have hnot : List.isPrefixOf l k.dropLast = false := by
        rw [Bool.eq_false_iff]
        intro hbelow
        exact hk ⟨List.isPrefixOf_iff_prefix.1 (isPrefixOf_of_dropLast hbelow), heq⟩
      simp [hnot]

theorem get?_removeAt_iff (fs : FileSystem) {l : Location} (hl : l ≠ []) (k : Location) :
    (fs.removeAt l).get? k = if l <+: k then none else fs.get? k := by
  rw [get?_removeAt fs hl k]
  by_cases h : l <+: k
  · rw [if_pos h, if_pos (List.isPrefixOf_iff_prefix.2 h)]
  · rw [if_neg h, if_neg (fun hp => h (List.isPrefixOf_iff_prefix.1 hp))]

theorem workingDirectory_move (fs : FileSystem) (l k : Location) :
    (fs.move l k).workingDirectory = fs.workingDirectory := by
  unfold move
  split <;> rfl

theorem hasChildren_iff {l : Location} :
    fs.hasChildren l = true ↔ ∃ name e, fs.get? (l ++ [name]) = some e := by
  unfold hasChildren
  rw [List.any_eq_true]
  constructor
  · rintro ⟨k, hk, hparent⟩
    obtain ⟨e, he⟩ := OrderedMap.mem_keys.1 hk
    have hne : k ≠ [] := (fs.wellPlaced k e he).1
    refine ⟨k.getLast hne, e, ?_⟩
    rw [← of_decide_eq_true hparent, List.dropLast_concat_getLast hne, get?_of_ne hne, he]
  · rintro ⟨name, e, he⟩
    rw [get?_of_ne (by simp)] at he
    exact ⟨l ++ [name], OrderedMap.mem_keys.2 ⟨e, he⟩, by simp⟩

/-- What has to be at a place for an entry to be moved there. -/
def Yields (fs : FileSystem) (entry : Entry) (k : Location) : Prop :=
  if entry = .directory then
    fs.get? k = none ∨ fs.get? k = some .directory ∧ fs.hasChildren k = false
  else fs.get? k ≠ some .directory

theorem Yields.get?_below {k : Location} (h : fs.Yields .directory k) {rest : List Text}
    (hrest : rest ≠ []) : fs.get? (k ++ rest) = none := by
  unfold Yields at h
  rw [if_pos rfl] at h
  obtain hnone | ⟨-, hchildren⟩ := h
  · exact get?_append_of_none hnone rest
  · obtain ⟨name, more, rfl⟩ := List.exists_cons_of_ne_nil hrest
    have hchild : fs.get? (k ++ [name]) = none := by
      cases he : fs.get? (k ++ [name]) with
      | none => rfl
      | some e =>
        rw [hasChildren_iff.2 ⟨name, e, he⟩] at hchildren
        cases hchildren
    rw [List.append_cons]
    exact get?_append_of_none hchild more

theorem Yields.get?_self {k : Location} (h : fs.Yields .directory k) {e : Entry}
    (he : fs.get? k = some e) : e = .directory := by
  unfold Yields at h
  rw [if_pos rfl] at h
  obtain hnone | ⟨hdir, -⟩ := h
  · rw [hnone] at he
    cases he
  · rw [hdir] at he
    exact (Option.some.inj he).symm

theorem Yields.of_get?_eq {entry : Entry} {k : Location} (h : fs.Yields entry k)
    (heq : ∀ rest, fs'.get? (k ++ rest) = fs.get? (k ++ rest)) : fs'.Yields entry k := by
  have hself := heq []
  rw [List.append_nil] at hself
  have hchildren : fs'.hasChildren k = fs.hasChildren k := by
    rw [Bool.eq_iff_iff, hasChildren_iff, hasChildren_iff]
    simp only [heq]
  unfold Yields at h ⊢
  rwa [hself, hchildren]

theorem wellPlaced_location {place : Place} (hq : fs.resolveEntry q = .ok place)
    (hne : place.location ≠ []) :
    (∀ name ∈ place.location, IsName name) ∧
      fs.get? place.location.dropLast = some .directory := by
  cases place with
  | vacant k c =>
    obtain ⟨hcan, -⟩ := canPlace_of_vacant
      (fun _ hmem => Path.slash_not_mem_segment (mem_segments_of_mem_entrySegments hmem)) hq
    exact ⟨hcan.2.1, hcan.2.2.1⟩
  | present k =>
    obtain ⟨e, he⟩ := get?_of_present hq
    rw [Place.location, get?_of_ne hne] at *
    exact (fs.wellPlaced k e he).2

/-- The checks before a directory is moved: neither end is above the other, so neither is the
root. -/
theorem moveFault?_directory {l k : Location} (h : fs.moveFault? .directory l k = none) :
    l ≠ [] ∧ k ≠ [] ∧ List.isPrefixOf l k = false ∧ List.isPrefixOf k l = false ∧
      fs.Yields .directory k := by
  unfold moveFault? at h
  rw [if_pos rfl] at h
  unfold Yields
  rw [if_pos rfl]
  split at h
  · cases h
  · next hlk =>
    split at h
    · cases h
    · next hkl =>
      refine ⟨?_, ?_, eq_false_of_ne_true hlk, eq_false_of_ne_true hkl, ?_⟩
      · rintro rfl
        exact hlk rfl
      · rintro rfl
        exact hkl rfl
      · split at h
        · next hnone => exact .inl hnone
        · next hdir =>
          split at h
          · cases h
          · next hchildren => exact .inr ⟨hdir, by simpa using hchildren⟩
        · cases h

theorem moveFault?_of_ne {e : Entry} (he : e ≠ .directory) {l k : Location}
    (h : fs.moveFault? e l k = none) : fs.get? k ≠ some .directory := by
  unfold moveFault? at h
  rw [if_neg he] at h
  split at h
  · cases h
  · next hdir => exact hdir

/-- The checks before a move establish what a move needs. -/
theorem canMove_of_moveFault? {l : Location} {e : Entry} {place : Place} (hl : fs.get? l = some e)
    (hq : fs.resolveEntry q = .ok place) (hne : place.location ≠ l)
    (hfault : fs.moveFault? e l place.location = none) :
    fs.CanMove l place.location ∧ fs.Yields e place.location := by
  have hdestination := wellPlaced_location hq
  generalize place.location = k at hne hfault hdestination
  by_cases he : e = .directory
  · subst he
    obtain ⟨hlne, hkne, hlk, hkl, hyields⟩ := moveFault?_directory hfault
    exact ⟨⟨hlne, hkne, (hdestination hkne).1, (hdestination hkne).2, hlk, hkl⟩, hyields⟩
  · -- What is no directory has nothing below it, and what is above it is one.
    have hdir := moveFault?_of_ne he hfault
    have hkne : k ≠ [] := by
      rintro rfl
      exact hdir rfl
    have hlne : l ≠ [] := by
      rintro rfl
      exact he (Option.some.inj hl).symm
    have hlk : ¬ l <+: k := fun hlk => by
      rw [get?_above (hdestination hkne).2 hlk (Ne.symm hne)] at hl
      exact he (Option.some.inj hl).symm
    have hkl : ¬ k <+: l := fun hkl => hdir (get?_above (get?_dropLast hl) hkl hne)
    refine ⟨⟨hlne, hkne, (hdestination hkne).1, (hdestination hkne).2, ?_, ?_⟩, ?_⟩
    · rw [Bool.eq_false_iff]
      exact fun h => hlk (List.isPrefixOf_iff_prefix.1 h)
    · rw [Bool.eq_false_iff]
      exact fun h => hkl (List.isPrefixOf_iff_prefix.1 h)
    · unfold Yields
      rwa [if_neg he]

/-- A tree is moved to a place that yields to it, unless it is there already. -/
theorem rename_eq_ok (h : fs.rename p q = .ok fs') :
    ∃ l place e, fs.resolveEntry p = .ok (.present l) ∧ fs.resolveEntry q = .ok place ∧
      namesEntry q = true ∧ fs.get? l = some e ∧
      (place.location = l ∧ fs' = fs ∨
        fs.CanMove l place.location ∧ fs.Yields e place.location ∧
          fs' = fs.move l place.location) := by
  unfold rename at h
  cases hp : fs.resolveEntry p with
  | error fault =>
    rw [hp] at h
    cases h
  | ok old =>
    cases hq : fs.resolveEntry q with
    | error fault =>
      rw [hp] at h
      replace h : (fs.resolveEntry q >>= _) = _ := h
      rw [hq] at h
      cases h
    | ok place =>
      rw [hp] at h
      replace h : (fs.resolveEntry q >>= _) = _ := h
      rw [hq] at h
      simp only [bind, Except.bind] at h
      split at h
      · cases h
      · next hnames =>
        cases old with
        | vacant l c => cases h
        | present l =>
          obtain ⟨e, he⟩ := get?_of_present hp
          simp only [he, Option.getD_some] at h
          have hname : namesEntry q = true := by
            simp only [Bool.not_eq_true', Bool.not_eq_false, Bool.and_eq_true] at hnames
            exact hnames.2
          refine ⟨l, place, e, rfl, rfl, hname, he, ?_⟩
          split at h
          · cases h
          · split at h
            · next hk =>
              cases h
              exact .inl ⟨hk, rfl⟩
            · next hk =>
              split at h
              · cases h
              · next hfault =>
                cases h
                obtain ⟨hmove, hyields⟩ := canMove_of_moveFault? he hq hk hfault
                exact .inr ⟨hmove, hyields, rfl⟩

theorem get?_move_cases {l k : Location} (h : fs.CanMove l k) (m : Location) :
    (k <+: m → ∃ rest, m = k ++ rest ∧ (fs.move l k).get? m = fs.get? (l ++ rest)) ∧
      (¬ k <+: m → l <+: m → (fs.move l k).get? m = none) ∧
      (¬ k <+: m → ¬ l <+: m → (fs.move l k).get? m = fs.get? m) := by
  rw [get?_move h]
  refine ⟨?_, ?_, ?_⟩
  · rintro ⟨rest, rfl⟩
    refine ⟨rest, rfl, ?_⟩
    rw [if_pos (List.isPrefixOf_iff_prefix.2 (List.prefix_append ..)), rebase_append]
  · intro hk hl
    rw [if_neg (fun hp => hk (List.isPrefixOf_iff_prefix.1 hp)),
      if_pos (List.isPrefixOf_iff_prefix.2 hl)]
  · intro hk hl
    rw [if_neg (fun hp => hk (List.isPrefixOf_iff_prefix.1 hp)),
      if_neg (fun hp => hl (List.isPrefixOf_iff_prefix.1 hp))]

theorem removeDirectory_eq_ok (h : fs.removeDirectory p = .ok fs') :
    ∃ l, fs.resolveEntry p = .ok (.present l) ∧ l ≠ [] ∧ fs.get? l = some .directory ∧
      fs' = fs.removeAt l := by
  unfold removeDirectory at h
  split at h
  · cases h
  · cases h
  · next l hl =>
    refine ⟨l, hl, ?_⟩
    split at h
    · cases h
    · split at h
      · cases h
      · split at h
        · cases h
        · next hne =>
          split at h
          · cases h
          · next hdir =>
            split at h
            · cases h
            · cases h
              exact ⟨hne, not_not.1 hdir, rfl⟩

/-- Only where a path names nothing is a missing directory reported. -/
theorem resolveEntry_of_removeDirectory_notFound (h : fs.removeDirectory p = .error .notFound)
    (l : Location) : fs.resolveEntry p ≠ .ok (.present l) := by
  intro hl
  unfold removeDirectory at h
  rw [hl] at h
  simp only at h
  repeat' split at h
  all_goals cases h

/-- How a tree is removed: a link goes, a directory is emptied and goes, unless it cannot be reached
any more. -/
theorem removeTree_eq_none (h : fs.removeTree p = (fs', none)) :
    ∃ l, fs.resolveSegments .kept p p.segments = .ok (.present l) ∧
      ((∃ target, fs.get? l = some (.link target) ∧ fs' = fs.removeAt l) ∨
        fs.get? l = some .directory ∧
          ((∃ m, (fs.clear l).resolveEntry p = .ok (.present m) ∧ m ≠ [] ∧
            (fs.clear l).get? m = some .directory ∧ fs' = (fs.clear l).removeAt m) ∨
          (∀ m, (fs.clear l).resolveEntry p ≠ .ok (.present m)) ∧ fs' = fs.clear l)) := by
  unfold removeTree at h
  split at h
  · cases h
  · cases h
  · next l hl =>
    refine ⟨l, hl, ?_⟩
    split at h
    · next hdir =>
      refine .inr ⟨hdir, ?_⟩
      simp only at h
      split at h
      · next after hafter =>
        cases h
        obtain ⟨m, hm, hne, hdir', rfl⟩ := removeDirectory_eq_ok hafter
        exact .inl ⟨m, hm, hne, hdir', rfl⟩
      · next hmissing =>
        cases h
        exact .inr ⟨resolveEntry_of_removeDirectory_notFound hmissing, rfl⟩
      · cases h
    · next target hlink =>
      cases h
      exact .inl ⟨target, hlink, rfl⟩
    · cases h

theorem keeps_removeAt (fs : FileSystem) {l : Location} (hl : l ≠ []) :
    Keeps (fun _ => True) (fs.removeAt l) fs := by
  refine ⟨rfl, fun m e _ hm => ?_⟩
  rw [get?_removeAt_iff fs hl] at hm
  split at hm
  · cases hm
  · exact hm

theorem keeps_clear (fs : FileSystem) (l : Location) : Keeps (fun _ => True) (fs.clear l) fs := by
  refine ⟨rfl, fun m e _ hm => ?_⟩
  rw [get?_clear] at hm
  split at hm
  · cases hm
  · exact hm

theorem keeps_removeTree (h : fs.removeTree p = (fs', none)) : Keeps (fun _ => True) fs' fs := by
  obtain ⟨l, -, ⟨target, hlink, rfl⟩ | ⟨-, ⟨m, -, hne, -, rfl⟩ | ⟨-, rfl⟩⟩⟩ := removeTree_eq_none h
  · apply keeps_removeAt
    rintro rfl
    cases hlink
  · exact (keeps_removeAt _ hne).trans (keeps_clear fs l)
  · exact keeps_clear fs l

/-- Where a path leads when a tree is gone it led before, and not to this tree. -/
theorem present_of_removeAt {l k : Location} {last : LastLink} {segments : List Text} (hl : l ≠ [])
    (h : (fs.removeAt l).resolveSegments last p segments = .ok (.present k)) :
    fs.resolveSegments last p segments = .ok (.present k) ∧ k ≠ l := by
  refine ⟨present_of_keeps_all (keeps_removeAt fs hl) h, ?_⟩
  rintro rfl
  obtain ⟨e, he⟩ := get?_of_present h
  rw [get?_removeAt_iff fs hl, if_pos (List.prefix_refl _)] at he
  cases he

theorem not_pathExists_of_removeTree (h : fs.removeTree p = (fs', none)) :
    fs'.pathExists p = false := by
  rw [Bool.eq_false_iff]
  intro hexists
  obtain ⟨x, hx⟩ := pathExists_iff.1 hexists
  obtain ⟨l, hl, ⟨target, hlink, rfl⟩ | ⟨hdir, ⟨m, hm, hne, -, rfl⟩ | ⟨hnone, rfl⟩⟩⟩ :=
    removeTree_eq_none h
  · -- a link was removed, not what it leads to
    have hne : l ≠ [] := by
      rintro rfl
      cases hlink
    obtain ⟨k, hk⟩ := resolveKept_of_resolve hx
    obtain ⟨hk', hkl⟩ := present_of_removeAt hne hk
    exact hkl (Place.present.inj (Except.ok.inj (hk'.symm.trans hl)))
  · obtain ⟨k, hk⟩ := resolveEntry_of_resolve hx
    obtain ⟨hk', hkm⟩ := present_of_removeAt hne hk
    exact hkm (Place.present.inj (Except.ok.inj (hk'.symm.trans hm)))
  · obtain ⟨k, hk⟩ := resolveEntry_of_resolve hx
    exact hnone k hk

theorem removeDirectory_clear {l : Location} (hl : l ≠ []) (hdir : fs.get? l = some .directory)
    (hentry : (fs.clear l).resolveEntry p = .ok (.present l))
    (hsegment : lastSegment p ≠ ".".toList ∧ lastSegment p ≠ "..".toList) :
    (fs.clear l).removeDirectory p = .ok ((fs.clear l).removeAt l) := by
  have hdir' : (fs.clear l).get? l = some .directory := by
    rw [get?_clear, if_neg (fun h => h.2 rfl), hdir]
  have hchildren : ¬ (fs.clear l).hasChildren l = true := by
    intro h
    obtain ⟨name, e, he⟩ := hasChildren_iff.1 h
    rw [get?_clear, if_pos ⟨List.prefix_append .., by simp⟩] at he
    cases he
  unfold removeDirectory
  rw [hentry]
  simp only
  rw [if_neg hsegment.1, if_neg hsegment.2, if_neg hl, if_neg (not_not.2 hdir'), if_neg hchildren]

theorem get?_removeAt_clear {l : Location} (hl : l ≠ []) (k : Location) :
    ((fs.clear l).removeAt l).get? k = if l <+: k then none else fs.get? k := by
  rw [get?_removeAt_iff _ hl]
  split
  · rfl
  · next hk => rw [get?_clear, if_neg (fun h => hk h.1)]

/-- A directory goes with all below it. -/
theorem removeTree_leads {l : Location} (h : fs.Leads p base names) (hne : names ≠ [])
    (hl : l = base ++ names) (hdir : fs.get? l = some .directory)
    (hclear : (fs.clear l).Leads p base names)
    (hsegment : lastSegment p ≠ ".".toList ∧ lastSegment p ≠ "..".toList) :
    fs.removeTree p = ((fs.clear l).removeAt l, none) := by
  have hdir' : (fs.clear l).get? l = some .directory := by
    rw [get?_clear, if_neg (fun h => h.2 rfl), hdir]
  have hne' : l ≠ [] := fun hnil => hne (List.append_eq_nil_iff.1 (hl.symm.trans hnil)).2
  have hkept : fs.resolveSegments .kept p p.segments = .ok (.present l) := by
    subst hl
    exact h.resolve_present (.inr hne) (.inl rfl) hdir
  have hentry : (fs.clear l).resolveEntry p = .ok (.present l) := by
    subst hl
    exact hclear.resolve_present (.inr hne) (.inr rfl) hdir'
  unfold removeTree
  rw [hkept]
  simp only [hdir, removeDirectory_clear hne' hdir hentry hsegment]

theorem Direct.leads_clear (h : fs.Direct p) (hname : Path.properNames p.segments ≠ [])
    (htext : p.text ≠ []) (horigin : fs.get? (fs.origin p) = some .directory) :
    (fs.clear (fs.spelled p)).Leads p (fs.origin p) (Path.properNames p.segments) := by
  refine .of_origin htext ?_ h.noParent
  have horigin' : (fs.clear (fs.spelled p)).origin p = fs.origin p := rfl
  rw [horigin', get?_clear, if_neg, horigin]
  rintro ⟨hbelow, -⟩
  have hlen := hbelow.length_le
  unfold spelled at hlen
  rw [List.length_append] at hlen
  have := List.length_pos_iff.2 hname
  omega

/-- A path without double dots and links loses all below its location and keeps the rest. -/
theorem removeTree_direct (h : fs.Direct p) (hname : Path.properNames p.segments ≠ [])
    (hremove : fs.removeTree p = (fs', none)) :
    fs'.workingDirectory = fs.workingDirectory ∧
      ∀ k, fs'.get? k = if fs.spelled p <+: k then none else fs.get? k := by
  obtain ⟨l, hl, hcases⟩ := removeTree_eq_none hremove
  obtain rfl : l = fs.spelled p := h.location (.inl rfl) hl
  have hne : fs.spelled p ≠ [] := fun hnil => hname (List.append_eq_nil_iff.1 hnil).2
  obtain ⟨target, hlink, rfl⟩ | ⟨hdir, hcases⟩ := hcases
  · exact ⟨rfl, get?_removeAt_iff fs hne⟩
  · obtain ⟨htext, horigin, -⟩ := resolveSegments_eq_ok.1 hl
    have hdir' : (fs.clear (fs.spelled p)).get? (fs.spelled p) = some .directory := by
      rw [get?_clear, if_neg (fun h => h.2 rfl), hdir]
    have hentry : (fs.clear (fs.spelled p)).resolveEntry p = .ok (.present (fs.spelled p)) :=
      (h.leads_clear hname htext horigin).resolve_present (.inr hname) (.inr rfl) hdir'
    obtain ⟨m, hm, -, -, rfl⟩ | ⟨hnone, -⟩ := hcases
    · rw [hentry] at hm
      cases hm
      exact ⟨rfl, get?_removeAt_clear hne⟩
    · exact absurd hentry (hnone _)

theorem exists_removeTree_direct (h : fs.Direct p) (hentry : namesEntry p = true)
    (hdir : fs.get? (fs.spelled p) = some .directory) :
    fs.pathExists p = true ∧ ∃ fs', fs.removeTree p = (fs', none) := by
  have hname : Path.properNames p.segments ≠ [] := by
    obtain ⟨names, name, hnames⟩ := exists_names_of_namesEntry hentry
    rw [hnames]
    simp
  have htext : p.text ≠ [] := fun hnil => hname (by rw [(Path.text_eq_nil_iff p).1 hnil]; rfl)
  have horigin : fs.get? (fs.origin p) = some .directory := get?_of_append _ hname hdir
  have hleads : fs.Leads p (fs.origin p) (Path.properNames p.segments) :=
    .of_origin htext horigin h.noParent
  have hsegment : lastSegment p ≠ ".".toList ∧ lastSegment p ≠ "..".toList := by
    unfold namesEntry at hentry
    simp only [List.mem_cons, decide_eq_true_eq, not_or] at hentry
    exact ⟨hentry.2.1, hentry.2.2.1⟩
  exact ⟨pathExists_iff.2 ⟨_, hleads.resolve_present (.inr hname) (.inl rfl) hdir⟩,
    _, removeTree_leads hleads hname rfl hdir (h.leads_clear hname htext horigin) hsegment⟩

end AndroidResources.FileSystem
