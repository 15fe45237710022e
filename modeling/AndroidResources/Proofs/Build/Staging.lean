import AndroidResources.Build.Staging
import AndroidResources.Proofs.Build.Action
import AndroidResources.Proofs.FileSystem.Success
import AndroidResources.Proofs.Path.Components

/-!
# Staging in temporary directories

A temporary directory has a name that no path mentions and no link leads to, so what happens in it
is not seen by any other path.

* `FileSystem.Closed` : paths spelled in certain names lead only to places spelled in them;
* `FileSystem.closed_freshName` : all names but a fresh one are such names;
* `FileSystem.Temporary` : a path to a directory, and a name in it that is not led to;
* `Leads.removeTree_child`, `Temporary.makeDirectory` : how a temporary directory goes and comes;
* `Temporary.rename` : it is put in place somewhere else;
* `putInto_besides`, `copyInto_holds`, `writeInto_holds` : a file put into it;
* `withTemporary_fresh` : an action that uses it;
* `withTemporary_besides` : nothing else has changed after an action that keeps to it.
-/

namespace AndroidResources

open FileSystem

namespace FileSystem

variable {fs fs' : FileSystem} {p q parent : Path} {name : Text} {l : Location}

/-! ## Names that are not led to -/

/-- Paths that are spelled in `S` lead to places that are spelled in `S`. -/
structure Closed (S : Text → Prop) (fs : FileSystem) : Prop where
  workingDirectory : ∀ name ∈ fs.workingDirectory, S name
  within : Within S fs

namespace Closed

variable {S : Text → Prop}

theorem origin (h : Closed S fs) (p : Path) : ∀ name ∈ fs.origin p, S name := by
  intro name hname
  unfold FileSystem.origin at hname
  split at hname
  · cases hname
  · exact h.workingDirectory name hname

theorem of_besides (h : Closed S fs) (hsame : Besides l fs fs') (hl : ¬ ∀ name ∈ l, S name) :
    Closed S fs' :=
  ⟨hsame.origin ▸ h.workingDirectory, hsame.within hl h.within⟩

theorem of_adds {P : Location → Prop} (h : Closed S fs) (hadds : AddsDirectories P fs fs') :
    Closed S fs' :=
  ⟨hadds.origin ▸ h.workingDirectory, fun l target hl hget =>
    h.within l target hl (hadds.get?_of_ne_directory hget (by simp))⟩

theorem of_keeps (h : Closed S fs) (hk : Keeps (fun _ => True) fs' fs) : Closed S fs' :=
  ⟨hk.origin ▸ h.workingDirectory, fun l target hl hget =>
    h.within l target hl (hk.entries l _ (fun _ _ => trivial) hget)⟩

theorem inter {T : Text → Prop} (h : Closed S fs) (h' : Closed T fs) :
    Closed (fun name => S name ∧ T name) fs :=
  ⟨fun name hname => ⟨h.workingDirectory name hname, h'.workingDirectory name hname⟩,
    fun l target hl hget segment hsegment =>
      ⟨h.within l target (fun name hname => (hl name hname).1) hget segment hsegment,
        h'.within l target (fun name hname => (hl name hname).2) hget segment hsegment⟩⟩

theorem location (h : Closed S fs) {last : LastLink} {segments : List Text}
    (hsegments : ∀ segment ∈ segments, S segment) {place : Place}
    (hp : fs.resolveSegments last p segments = .ok place) : ∀ name ∈ place.location, S name :=
  (resolveSegments_of_keeps h.within (Keeps.refl _ fs) (h.origin p) hsegments hp).1

theorem resolve (h : Closed S fs) (hk : Keeps S fs fs') {last : LastLink} {segments : List Text}
    (hsegments : ∀ segment ∈ segments, S segment) {place : Place}
    (hp : fs.resolveSegments last p segments = .ok place) (hsettled : fs'.Settled place) :
    fs'.resolveSegments last p segments = .ok (.present place.location) :=
  (resolveSegments_of_keeps h.within hk (h.origin p) hsegments hp).2 hsettled

/-- A change at a place that is not spelled in `S` brings nothing to a path that is, and takes nothing
from it. -/
theorem pathExists (h : Closed S fs) (hsame : Besides l fs fs') (hl : ¬ ∀ name ∈ l, S name)
    (hp : ∀ segment ∈ p.segments, S segment) : fs'.pathExists p = fs.pathExists p := by
  rw [Bool.eq_iff_iff, pathExists_iff, pathExists_iff]
  constructor
  · rintro ⟨k, hk⟩
    exact ⟨k, (h.of_besides hsame hl).resolve (hsame.symm.keeps hl) hp hk (.inl rfl)⟩
  · rintro ⟨k, hk⟩
    exact ⟨k, h.resolve (hsame.keeps hl) hp hk (.inl rfl)⟩

theorem readBytes (h : Closed S fs) (hk : Keeps S fs fs') (hp : ∀ segment ∈ p.segments, S segment)
    {bytes : ByteArray} (hread : fs.readBytes p = .ok bytes) : fs'.readBytes p = .ok bytes := by
  obtain ⟨l, hl, hget⟩ := readBytes_eq_ok.1 hread
  exact readBytes_eq_ok.2
    ⟨l, h.resolve hk hp hl (.inl rfl), hk.entries _ _ (h.location hp hl) hget⟩

theorem spelled (h : Closed S fs) (hp : ∀ segment ∈ p.segments, S segment) :
    ∀ name ∈ fs.spelled p, S name := by
  intro name hname
  unfold FileSystem.spelled at hname
  rcases List.mem_append.1 hname with hname | hname
  · exact h.origin p name hname
  · exact hp name (List.mem_filter.1 hname).1

theorem leads (h : Closed S fs) (hk : Keeps S fs fs') (hp : ∀ segment ∈ p.segments, S segment)
    {names : List Text} (hleads : fs.Leads p l names) : fs'.Leads p l names :=
  hleads.of_keeps h.within hk (h.origin p) hp

end Closed

/-! ## Fresh names -/

theorem isName_freshName (fs : FileSystem) (mentioned : List Path) :
    IsName (fs.freshName mentioned) := by
  unfold freshName
  refine ⟨by simp, ?_, ?_, ?_⟩
  · rw [List.replicate_succ]
    simp
  · rw [List.replicate_succ]
    intro h
    cases h
  · rw [List.mem_cons, List.mem_replicate]
    simp

/-- A fresh name is longer than all that is spelled anywhere. -/
theorem length_lt_freshName (fs : FileSystem) (mentioned : List Path) {text : Text}
    (h : text ∈ fs.spellings ++ mentioned.map (·.text)) :
    text.length < (fs.freshName mentioned).length := by
  have hmax : ∀ {lengths : List Nat} {n : Nat}, n ∈ lengths → n ≤ lengths.foldr max 0 := by
    intro lengths n hn
    induction lengths with
    | nil => cases hn
    | cons m rest ih =>
      rw [List.foldr_cons]
      rcases List.mem_cons.1 hn with rfl | hn
      · exact Nat.le_max_left ..
      · exact (ih hn).trans (Nat.le_max_right ..)
  have := hmax (List.mem_map_of_mem (f := List.length) h)
  unfold freshName
  rw [List.length_cons, List.length_replicate]
  omega

theorem freshName_not_mem_segments (fs : FileSystem) {mentioned : List Path} (h : p ∈ mentioned) :
    fs.freshName mentioned ∉ p.segments := fun hmem => by
  have hle := Path.length_le_of_mem_segments hmem
  have hlt := length_lt_freshName fs mentioned
    (List.mem_append_right _ (List.mem_map_of_mem (f := Path.text) h))
  omega

theorem length_lt_freshName_of_location (mentioned : List Path) {e : Entry} (h : fs.get? l = some e)
    {text : Text} (hmem : text ∈ l) : text.length < (fs.freshName mentioned).length := by
  rw [get?_of_ne (List.ne_nil_of_mem hmem)] at h
  refine length_lt_freshName fs mentioned (List.mem_append_left _ (List.mem_append_right _
    (List.mem_flatMap.2 ⟨_, OrderedMap.mem_toList.2 h, ?_⟩)))
  cases e <;> simp [hmem]

theorem freshName_not_mem_location (mentioned : List Path) {e : Entry} (h : fs.get? l = some e) :
    fs.freshName mentioned ∉ l := fun hmem =>
  Nat.lt_irrefl _ (length_lt_freshName_of_location mentioned h hmem)

/-- No path leads to a place with a fresh name but by mentioning it. -/
theorem closed_freshName (fs : FileSystem) (mentioned : List Path) :
    Closed (· ≠ fs.freshName mentioned) fs := by
  refine ⟨fun name hname => ?_, fun l target _ hget segment hsegment => ?_⟩
  · rintro rfl
    have := length_lt_freshName fs mentioned
      (List.mem_append_left _ (List.mem_append_left _ hname))
    omega
  · rintro rfl
    have hne : l ≠ [] := by
      rintro rfl
      cases hget
    rw [get?_of_ne hne] at hget
    have hspelled : target.text ∈ fs.spellings :=
      List.mem_append_right _
        (List.mem_flatMap.2 ⟨_, OrderedMap.mem_toList.2 hget, List.mem_cons_self ..⟩)
    have hlt := length_lt_freshName fs mentioned (List.mem_append_left _ hspelled)
    have hle := Path.length_le_of_mem_segments hsegment
    omega

end FileSystem

/-! ## Where a path is staged -/

theorem text_stagingParent (p : Path) : (stagingParent p).text ≠ [] := by
  unfold stagingParent
  split
  · split
    · decide
    · assumption
  · decide

theorem segments_stagingParent {p : Path} {segment : Text}
    (h : segment ∈ (stagingParent p).segments) :
    segment = [] ∨ segment = ".".toList ∨ segment ∈ p.segments := by
  have hdot : segment ∈ Path.segments "." → segment = ".".toList := by
    have : Path.segments "." = [".".toList] := by decide
    rw [this, List.mem_singleton]
    exact id
  unfold stagingParent at h
  cases hp : p.parent? with
  | none =>
    rw [hp] at h
    exact .inr (.inl (hdot h))
  | some q =>
    obtain ⟨-, hsegments⟩ := Path.segments_parent? hp
    rw [hp] at h
    simp only at h
    split at h
    · exact .inr (.inl (hdot h))
    · exact (hsegments segment h).imp_right .inr

theorem not_mem_segments_stagingParent {p : Path} {name : Text} (hname : IsName name)
    (h : name ∉ p.segments) : name ∉ (stagingParent p).segments := fun hmem =>
  (segments_stagingParent hmem).elim hname.1 fun h' => h'.elim hname.2.1 h

theorem origin_stagingParent (fs : FileSystem) {p : Path} {names : List Text} {name : Text}
    (h : Path.properNames p.segments = names ++ [name]) :
    fs.origin (stagingParent p) = fs.origin p := by
  cases hp : p.parent? with
  | none =>
    rw [Path.properNames_of_parent?_eq_none hp] at h
    cases names <;> cases h
  | some q =>
    obtain ⟨habsolute, -⟩ := Path.segments_parent? hp
    unfold stagingParent FileSystem.origin
    rw [hp, ← habsolute]
    by_cases htext : q.text = []
    · have hrelative : q.isAbsolute = false := by
        unfold Path.isAbsolute
        rw [htext]
        rfl
      rw [hrelative]
      simp only [if_pos htext]
      rfl
    · simp only [if_neg htext]

theorem properNames_stagingParent {p : Path} {names : List Text} {name : Text}
    (h : Path.properNames p.segments = names ++ [name]) :
    Path.properNames (stagingParent p).segments = names := by
  unfold stagingParent
  cases hp : p.parent? with
  | none =>
    rw [Path.properNames_of_parent?_eq_none hp] at h
    cases names <;> cases h
  | some q =>
    have hnames := Path.properNames_parent? hp h
    simp only
    split
    · next htext =>
      rw [(Path.text_eq_nil_iff q).1 htext] at hnames
      rw [← hnames]
      decide
    · exact hnames

theorem spelled_stagingParent (fs : FileSystem) {p : Path} {names : List Text} {name : Text}
    (h : Path.properNames p.segments = names ++ [name]) :
    fs.spelled (stagingParent p) = fs.origin p ++ names := by
  unfold FileSystem.spelled
  rw [properNames_stagingParent h, origin_stagingParent fs h]

theorem parent_not_mem_stagingParent {p : Path} (h : "..".toList ∉ p.segments) :
    "..".toList ∉ (stagingParent p).segments := fun hmem => by
  rcases segments_stagingParent hmem with heq | heq | hmem
  · cases heq
  · exact absurd heq (by decide)
  · exact h hmem

theorem endsInName_stagingParent (p : Path) :
    Path.properNames (stagingParent p).segments = [] ∨ EndsInName (stagingParent p).segments := by
  have hdot : Path.properNames (Path.segments ".") = [] := by decide
  unfold stagingParent
  split
  · next q hq =>
    split
    · exact .inl hdot
    · exact endsInName_parent? hq
  · exact .inl hdot

theorem properNames_stagingParent_of_nil {p : Path} (h : Path.properNames p.segments = []) :
    Path.properNames (stagingParent p).segments = [] := by
  rw [Path.properNames_eq_nil] at h ⊢
  intro segment hsegment
  rcases segments_stagingParent hsegment with rfl | rfl | hmem
  · rfl
  · decide
  · exact h segment hmem

theorem createDirectories_stagingParent_of_nil {p : Path} (fs : FileSystem)
    (h : Path.properNames p.segments = []) : (fs.createDirectories (stagingParent p)).1 = fs := by
  have hnone := properNames_stagingParent_of_nil h
  by_cases horigin : fs.get? (fs.origin (stagingParent p)) = some .directory
  · have hup : "..".toList ∉ (stagingParent p).segments := fun hmem =>
      absurd (Path.properNames_eq_nil.1 hnone _ hmem) (by decide)
    have hleads := Leads.of_origin (text_stagingParent p) horigin hup
    rw [hnone] at hleads
    unfold createDirectories
    rw [createAlong_of_nil hleads]
  · rw [createDirectories_of_missing horigin]

/-- Above a path without double dots and links directories are made, as far as nothing goes wrong. -/
theorem createDirectories_above {fs : FileSystem} {p : Path} (hdirect : fs.Direct p) :
    AddsDirectories (Above (fs.spelled p)) fs (fs.createDirectories (stagingParent p)).1 := by
  by_cases hnil : Path.properNames p.segments = []
  · rw [createDirectories_stagingParent_of_nil fs hnil]
    exact .refl _ _
  · by_cases horigin : fs.get? (fs.origin (stagingParent p)) = some .directory
    · have hleads := Leads.of_origin (text_stagingParent p) horigin
        (parent_not_mem_stagingParent hdirect.noParent)
      obtain ⟨names, name, hnames⟩ : ∃ names name, Path.properNames p.segments = names ++ [name] :=
        ⟨_, _, (List.dropLast_concat_getLast hnil).symm⟩
      rw [origin_stagingParent fs hnames, properNames_stagingParent hnames] at hleads
      refine (createAlong_leads hleads (hdirect.noLinks hnames (by simp)) _).1.mono fun k hk => ?_
      unfold FileSystem.spelled
      rw [hnames]
      exact hk.above name
    · rw [createDirectories_of_missing horigin]
      exact .refl _ _

theorem leads_of_createDirectories {fs fs' : FileSystem} {p : Path} {names : List Text}
    {name : Text} (hdirect : fs.Direct p) (hnames : Path.properNames p.segments = names ++ [name])
    (h : fs.createDirectories (stagingParent p) = (fs', none)) :
    fs'.Leads (stagingParent p) (fs.origin p ++ names) [] := by
  have hup := parent_not_mem_stagingParent hdirect.noParent
  have hleads := Leads.of_origin (text_stagingParent p)
    (origin_of_createDirectories (text_stagingParent p) h) hup
  rw [origin_stagingParent fs hnames, properNames_stagingParent hnames] at hleads
  obtain ⟨hadds, hdir⟩ := createDirectories_leads hleads (hdirect.noLinks hnames (by simp)) h
  have hspelled := (spelled_congr hadds.origin _).trans (spelled_stagingParent fs hnames)
  rw [← hspelled] at hdir ⊢
  exact .of_spelled (text_stagingParent p) hup hdir

theorem FileSystem.Leads.stagingParent_concat {fs : FileSystem} {p : Path} {dir : Location}
    {names : List Text} {last : Text} (h : fs.Leads p dir (names ++ [last])) :
    fs.Leads (stagingParent p) dir names := by
  obtain ⟨q, hq, ⟨htext, rfl, rfl⟩ | hleads⟩ := h.parent?
  · have hhere : AndroidResources.stagingParent p = "." := by
      unfold AndroidResources.stagingParent
      simp only [hq, if_pos htext]
    rw [hhere]
    exact .of_origin (p := ".") (by decide) h.2.2.1 (by decide)
  · have hparent : AndroidResources.stagingParent p = q := by
      unfold AndroidResources.stagingParent
      simp only [hq, if_neg hleads.1]
    rwa [hparent]

theorem FileSystem.Leads.stagingParent {fs : FileSystem} {p : Path} {dir : Location} {last : Text}
    (h : fs.Leads p dir [last]) : fs.Leads (stagingParent p) dir [] := by
  have hlast : fs.Leads p dir ([] ++ [last]) := h
  exact hlast.stagingParent_concat

theorem leads_stagingParent {fs : FileSystem} {p : Path} {l : Location} {names : List Text}
    {name : Text} (hup : "..".toList ∉ p.segments)
    (hnames : Path.properNames p.segments = names ++ [name]) (hl : fs.spelled p = l ++ [name])
    (hdir : fs.get? l = some .directory) : fs.Leads (stagingParent p) l [] := by
  have hspelled : fs.spelled (stagingParent p) = l := by
    rw [spelled_stagingParent fs hnames]
    unfold FileSystem.spelled at hl
    rw [hnames, ← List.append_assoc] at hl
    exact List.append_cancel_right hl
  rw [← hspelled] at hdir ⊢
  exact .of_spelled (text_stagingParent p) (parent_not_mem_stagingParent hup) hdir

/-- The directory above a path with a name, without double dots and links, is made or there already,
or a file is in the way and nothing is made. -/
theorem createDirectories_direct_cases {fs : FileSystem} {p : Path} {names : List Text} {name : Text}
    (hdirect : fs.Direct p) (hnames : Path.properNames p.segments = names ++ [name]) :
    (∃ fs', fs.createDirectories (stagingParent p) = (fs', none)) ∨
      (fs.createDirectories (stagingParent p)).1 = fs ∧
        (fs.get? (fs.origin p) ≠ some .directory ∨ fs.FileOnTheWay (fs.origin p) names) := by
  have horigin := origin_stagingParent fs hnames
  by_cases hdir : fs.get? (fs.origin (stagingParent p)) = some .directory
  · have hleads := Leads.of_origin (text_stagingParent p) hdir
      (parent_not_mem_stagingParent hdirect.noParent)
    have hend : names = [] ∨ EndsInName (stagingParent p).segments := by
      rw [← properNames_stagingParent hnames]
      exact endsInName_stagingParent p
    rw [horigin, properNames_stagingParent hnames] at hleads
    exact (createDirectories_cases hleads (hdirect.noLinks hnames (by simp)) hend).imp_right
      fun ⟨hsame, hfile⟩ => ⟨hsame, .inr hfile⟩
  · exact .inr ⟨createDirectories_of_missing hdir, .inl (horigin ▸ hdir)⟩

theorem createDirectories_direct {fs : FileSystem} {p : Path} {names : List Text} {name : Text}
    (hdirect : fs.Direct p) (hnames : Path.properNames p.segments = names ++ [name]) :
    (∃ fs', fs.createDirectories (stagingParent p) = (fs', none)) ∨
      (fs.createDirectories (stagingParent p)).1 = fs ∧
        fs.get? (fs.origin p ++ names) ≠ some .directory := by
  refine (createDirectories_direct_cases hdirect hnames).imp_right fun ⟨hsame, hcause⟩ =>
    ⟨hsame, fun hdir => ?_⟩
  obtain hmissing | hfile := hcause
  · exact hmissing (get?_directory_upward (List.prefix_append ..) hdir)
  · exact not_fileOnTheWay hdir hfile

/-- Directories are made where the names of the path lead, so only at places that are spelled as it
is. -/
theorem createDirectories_closed {S : Text → Prop} {fs : FileSystem} {p : Path} (h : Closed S fs)
    (hempty : S []) (hp : ∀ segment ∈ p.segments, S segment) :
    AddsDirectories (fun k => ∀ n ∈ k, S n) fs (fs.createDirectories p).1 := by
  have hmake : ∀ {g g' : FileSystem} {q : Path}, Closed S g → (∀ segment ∈ q.segments, S segment) →
      g.makeDirectory q = .ok g' → AddsDirectories (fun k => ∀ n ∈ k, S n) g g' := by
    intro g g' q hclosed hq hmake
    obtain ⟨k, c, hk, hplace, hnone, rfl⟩ := makeDirectory_eq_ok hmake
    exact .of_place hplace hnone (hclosed.location
      (fun segment hmem => hq segment (mem_segments_of_mem_entrySegments hmem)) hk)
  have halong : ∀ paths : List Path, (∀ q ∈ paths, ∀ segment ∈ q.segments, S segment) →
      AddsDirectories (fun k => ∀ n ∈ k, S n) fs (fs.createAlong paths).1 := by
    intro paths hpaths
    induction paths with
    | nil => exact .refl _ fs
    | cons q above ih =>
      have hq := hpaths q (List.mem_cons_self ..)
      have hbetween := ih fun r hr => hpaths r (List.mem_cons_of_mem _ hr)
      have hprepares : ∀ {g : FileSystem}, fs.Prepares q above g →
          AddsDirectories (fun k => ∀ n ∈ k, S n) fs g := by
        rintro g (⟨rfl, -⟩ | ⟨-, hcreate⟩)
        · exact .refl _ g
        · rwa [hcreate] at hbetween
      generalize hresult : fs.createAlong (q :: above) = result
      cases makesAlong hresult with
      | empty => exact .refl _ fs
      | blocked _ _ hcreate => rwa [hcreate] at hbetween
      | new _ hg hafter =>
        exact (hprepares hg).trans (hmake (h.of_adds (hprepares hg)) hq hafter)
      | kept _ hg => exact hprepares hg
  refine halong _ fun q hq => ?_
  rcases List.mem_cons.1 hq with rfl | hq
  · exact hp
  · exact fun segment hsegment => (segments_of_mem_ancestors hq segment hsegment).elim
      (fun hnil => hnil ▸ hempty) (hp segment)

/-! ## Names in a directory -/

namespace FileSystem

variable {fs fs' : FileSystem} {p q parent : Path} {name : Text} {l : Location}

theorem segments_child (parent : Path) (hname : IsName name) :
    (parent.join ⟨name⟩).segments = parent.leadingSegments ++ [name] := by
  rw [Path.segments_join _ (Path.isAbsolute_single hname.2.2.2),
    Path.segments_single hname.2.2.2]

theorem endsInName_child (parent : Path) (hname : IsName name) :
    EndsInName (parent.join ⟨name⟩).segments := by
  rw [segments_child parent hname]
  simpa [EndsInName] using Path.isIdle_of_isName hname

theorem lastSegment_child (parent : Path) (hname : IsName name) :
    lastSegment (parent.join ⟨name⟩) = name := by
  unfold lastSegment entrySegments
  rw [segments_child parent hname, List.reverse_append, List.reverse_singleton,
    List.singleton_append, List.dropWhile_cons_of_neg (by simp [hname.1]), List.reverse_cons,
    List.getLast?_concat]
  rfl

theorem namesEntry_child (parent : Path) (hname : IsName name) :
    namesEntry (parent.join ⟨name⟩) = true := by
  unfold namesEntry
  rw [lastSegment_child parent hname]
  simpa using ⟨hname.1, hname.2.1, hname.2.2.1⟩

namespace Leads

theorem concat {names : List Text} (h : fs.Leads parent l names) (hname : IsName name) :
    fs.Leads (parent.join ⟨name⟩) l (names ++ [name]) := by
  have hsegments : Path.segments ⟨name⟩ = [name] := Path.segments_single hname.2.2.2
  have hchild := h.join (Path.isAbsolute_single hname.2.2.2) (by
    rw [hsegments, List.mem_singleton]
    exact Ne.symm hname.2.2.1)
  rw [hsegments, Path.properNames_eq_self] at hchild
  · exact hchild
  · simpa using Path.isIdle_of_isName hname

theorem child (h : fs.Leads parent l []) (hname : IsName name) :
    fs.Leads (parent.join ⟨name⟩) l [name] :=
  h.concat hname

theorem into (h : fs.Leads parent l []) (hname : IsName name)
    (hdir : fs.get? (l ++ [name]) = some .directory) :
    fs.Leads (parent.join ⟨name⟩) (l ++ [name]) [] :=
  .of_resolve ((h.child hname).resolve_present (.inl rfl) (.inl rfl) hdir) hdir

theorem ofNames (h : fs.Leads p l []) {names : List Text} (hne : names ≠ [])
    (hnames : ∀ n ∈ names, IsName n) : fs.Leads (p.join (.ofNames names)) l names := by
  have hsegments := Path.segments_ofNames hnames hne
  have hleads := h.join (Path.isAbsolute_ofNames hnames)
    (by rw [hsegments]; exact fun hmem => (hnames _ hmem).2.2.1 rfl)
  rwa [hsegments, List.nil_append,
    Path.properNames_eq_self fun n hn => Path.isIdle_of_isName (hnames n hn)] at hleads

/-- Removing a directory with the name changes nothing elsewhere, and nothing is left of it. -/
theorem removeTree_child (h : fs.Leads parent l []) (hname : IsName name)
    (hclear : (fs.clear (l ++ [name])).Leads parent l [])
    (hdir : fs.get? (l ++ [name]) = some .directory) :
    Besides (l ++ [name]) fs (fs.removeTree (parent.join ⟨name⟩)).1 ∧
      ∀ k, l ++ [name] <+: k → (fs.removeTree (parent.join ⟨name⟩)).1.get? k = none := by
  have hsegment : lastSegment (parent.join ⟨name⟩) ≠ ".".toList ∧
      lastSegment (parent.join ⟨name⟩) ≠ "..".toList := by
    rw [lastSegment_child parent hname]
    exact ⟨hname.2.1, hname.2.2.1⟩
  rw [removeTree_leads (h.child hname) (by simp) rfl hdir (hclear.child hname) hsegment]
  refine ⟨⟨rfl, fun k hk => ?_⟩, fun k hk => ?_⟩
  · rw [get?_removeAt_clear (by simp), if_neg hk]
  · rw [get?_removeAt_clear (by simp), if_pos hk]

theorem removeTree_child_of_none (h : fs.Leads parent l []) (hname : IsName name)
    (hnone : fs.get? (l ++ [name]) = none) : (fs.removeTree (parent.join ⟨name⟩)).1 = fs := by
  unfold removeTree
  split
  · rfl
  · rfl
  · next k hk =>
    obtain ⟨e, he⟩ := get?_of_present hk
    obtain rfl : k = l ++ [name] := (h.child hname).location
      (noLinks_child fun target hlink => by rw [hnone] at hlink; cases hlink)
      (.inr (by simp)) (.inl rfl) hk
    rw [hnone] at he
    cases he

end Leads

/-! ## Temporary directories -/

/-- The path leads to a directory, and the name is one that no path spelled in `S` leads to. -/
structure Temporary (S : Text → Prop) (fs : FileSystem) (parent : Path) (l : Location)
    (name : Text) : Prop where
  isName : IsName name
  hidden : ¬ S name
  closed : Closed S fs
  spelled : ∀ segment ∈ parent.segments, S segment
  leads : fs.Leads parent l []

namespace Temporary

variable {S : Text → Prop} {fs fs' : FileSystem} {p q parent : Path} {name : Text} {l : Location}

theorem of_keeps (h : Temporary S fs parent l name) (hk : Keeps S fs fs') (hclosed : Closed S fs') :
    Temporary S fs' parent l name :=
  ⟨h.isName, h.hidden, hclosed, h.spelled, h.closed.leads hk h.spelled h.leads⟩

theorem not_spelled (h : Temporary S fs parent l name) : ¬ ∀ n ∈ l ++ [name], S n := fun hall =>
  h.hidden (hall name (by simp))

theorem of_apart {k : Location} (h : Temporary S fs parent l name) (hsame : Besides k fs fs')
    (hk : ¬ ∀ n ∈ k, S n) : Temporary S fs' parent l name :=
  h.of_keeps (hsame.keeps hk) (h.closed.of_besides hsame hk)

theorem of_besides (h : Temporary S fs parent l name) (hsame : Besides (l ++ [name]) fs fs') :
    Temporary S fs' parent l name :=
  h.of_apart hsame h.not_spelled

theorem of_adds {P : Location → Prop} (h : Temporary S fs parent l name)
    (hadds : AddsDirectories P fs fs') : Temporary S fs' parent l name :=
  h.of_keeps (hadds.keeps _) (h.closed.of_adds hadds)

theorem inter {T : Text → Prop} (h : Temporary S fs parent l name) (hclosed : Closed T fs)
    (hparent : ∀ segment ∈ parent.segments, T segment) :
    Temporary (fun n => S n ∧ T n) fs parent l name :=
  ⟨h.isName, fun hname => h.hidden hname.1, h.closed.inter hclosed,
    fun segment hsegment => ⟨h.spelled segment hsegment, hparent segment hsegment⟩, h.leads⟩

theorem location (h : Temporary S fs parent l name) : ∀ n ∈ l, S n :=
  h.closed.location h.spelled h.leads.resolve_nil

/-- A path with a fresh name is a temporary one. -/
theorem of_freshName {mentioned : List Path} (hdir : fs.isDirectory parent = true)
    (hunmentioned : fs.freshName mentioned ∉ parent.segments) :
    ∃ l, Temporary (· ≠ fs.freshName mentioned) fs parent l (fs.freshName mentioned) ∧
      fs.get? (l ++ [fs.freshName mentioned]) = none := by
  obtain ⟨l, hresolve, hget⟩ := isDirectory_iff.1 hdir
  refine ⟨l, ⟨isName_freshName fs mentioned, not_not.2 rfl, closed_freshName fs mentioned, ?_,
    .of_resolve hresolve hget⟩, ?_⟩
  · exact fun segment hsegment => ne_of_mem_of_not_mem hsegment hunmentioned
  cases he : fs.get? (l ++ [fs.freshName mentioned]) with
  | none => rfl
  | some e => exact absurd (by simp) (freshName_not_mem_location mentioned he)

theorem exists_makeDirectory (h : Temporary S fs parent l name)
    (hnone : fs.get? (l ++ [name]) = none) :
    ∃ fs', fs.makeDirectory (parent.join ⟨name⟩) = .ok fs' := by
  have hend := endsInName_child parent h.isName
  have hleads : fs.Leads (parent.join ⟨name⟩) l ([] ++ [name]) := h.leads.child h.isName
  exact ⟨_, makeDirectory_of_vacant (hleads.resolve_vacant (.inr rfl) hend.entrySegments
    (by rw [List.append_nil]; exact h.leads.2.2.1) hnone)⟩

theorem makeDirectory (h : Temporary S fs parent l name) (hnone : fs.get? (l ++ [name]) = none)
    (hmake : fs.makeDirectory (parent.join ⟨name⟩) = .ok fs') :
    Temporary S fs' parent l name ∧ Besides (l ++ [name]) fs fs' ∧
      fs'.Holds (l ++ [name]) fun _ => none := by
  obtain ⟨k, c, hk, hplace, -, rfl⟩ := makeDirectory_eq_ok hmake
  obtain rfl : k = l ++ [name] := (h.leads.child h.isName).location
    (noLinks_child fun target hget => by rw [hnone] at hget; cases hget)
    (.inr (by simp)) (.inr rfl) hk
  have hsame : Besides (l ++ [name]) fs (fs.place (l ++ [name]) .directory) :=
    .of_place hplace _ (List.prefix_refl _)
  exact ⟨h.of_besides hsame, hsame, .of_place hplace hnone⟩

/-- Whatever has come in the place of the temporary directory, removing it changes nothing
elsewhere. -/
theorem removeTree_besides (h : Temporary S fs parent l name) :
    Besides (l ++ [name]) fs (fs.removeTree (parent.join ⟨name⟩)).1 := by
  obtain ⟨horigin, hentries⟩ := removeTree_elsewhere fs (parent.join ⟨name⟩)
  refine ⟨horigin, fun k hk => hentries k fun dir hdir => ?_⟩
  have hend := endsInName_child parent h.isName
  rw [← hend.entrySegments_eq] at hdir
  rwa [show dir = l ++ [name] from
    (h.leads.child h.isName).location_of_resolveEntry hend.entrySegments hdir]

theorem removeTree (h : Temporary S fs parent l name)
    (hdir : fs.get? (l ++ [name]) = some .directory) :
    Besides (l ++ [name]) fs (fs.removeTree (parent.join ⟨name⟩)).1 ∧
      ∀ k, l ++ [name] <+: k → (fs.removeTree (parent.join ⟨name⟩)).1.get? k = none :=
  h.leads.removeTree_child h.isName (h.of_besides (.clear fs _)).leads hdir

theorem leads_ofNames (h : Temporary S fs parent l name) (hdir : fs.get? (l ++ [name]) = some .directory)
    {names : List Text} (hne : names ≠ []) (hnames : ∀ n ∈ names, IsName n) :
    fs.Leads ((parent.join ⟨name⟩).join (.ofNames names)) (l ++ [name]) names :=
  (h.leads.into h.isName hdir).ofNames hne hnames

/-- Put in place at a path that is spelled in `S`, the tree is moved to the location that the path
names. -/
theorem rename (h : Temporary S fs parent l name)
    (hdir : fs.get? (l ++ [name]) = some .directory) (hq : ∀ segment ∈ q.segments, S segment)
    (hrename : fs.rename (parent.join ⟨name⟩) q = .ok fs') :
    ∃ place, fs.resolveEntry q = .ok place ∧ namesEntry q = true ∧
      (∀ n ∈ place.location, S n) ∧ fs.CanMove (l ++ [name]) place.location ∧
      fs.Yields .directory place.location ∧ fs' = fs.move (l ++ [name]) place.location := by
  obtain ⟨k, place, e, hk, hplace, hname, hget, hcases⟩ := rename_eq_ok hrename
  obtain rfl : k = l ++ [name] := (h.leads.child h.isName).location
    (noLinks_child fun target hget => by rw [hdir] at hget; cases hget)
    (.inr (by simp)) (.inr rfl) hk
  rw [hdir] at hget
  cases hget
  have hspelled : ∀ n ∈ place.location, S n := h.closed.location
    (fun segment hmem => hq segment (mem_segments_of_mem_entrySegments hmem)) hplace
  refine ⟨place, hplace, hname, hspelled, ?_⟩
  obtain ⟨heq, -⟩ | hmove := hcases
  · rw [heq] at hspelled
    exact absurd hspelled h.not_spelled
  · exact hmove

end Temporary

end FileSystem

/-! ## Actions in temporary directories -/

variable {s s' : BuildState}

/-- Whether it succeeds or not, the action leaves a directory at the location, and all but what is
below it as it was. -/
def Action.KeepsTo {α : Type} (l : Location) (act : Action α) (s : BuildState) : Prop :=
  Besides l s.files (act.perform s).2.files ∧ (act.perform s).2.files.get? l = some .directory

namespace Action.KeepsTo

variable {α β : Type} {l : Location}

theorem pure (h : s.files.get? l = some .directory) (a : α) :
    KeepsTo l (Pure.pure a : Action α) s :=
  ⟨.refl _ _, h⟩

theorem bind {x : Action α} {f : α → Action β} (hx : KeepsTo l x s)
    (hf : ∀ a t, x.perform s = (.ok a, t) → KeepsTo l (f a) t) : KeepsTo l (x >>= f) s := by
  unfold KeepsTo at hx ⊢
  rw [perform_bind]
  cases hperform : x.perform s with
  | mk r t =>
    rw [hperform] at hx
    cases r with
    | error e => exact hx
    | ok a => exact ⟨hx.1.trans (hf a t hperform).1, (hf a t hperform).2⟩

end Action.KeepsTo

theorem createParent_adds {destination : Path} {l : Location} {names : List Text} {name : Text}
    (hleads : s.files.Leads destination l (names ++ [name]))
    (hlinks : s.files.NoLinks l (names ++ [name])) :
    AddsDirectories (OnTheWay l names) s.files
      ((Action.createParent destination).perform s).2.files := by
  obtain ⟨q, hq, hparent⟩ := hleads.parent?
  have hperform : ((Action.createParent destination).perform s).2.files =
      (s.files.createDirectories q).1 := by
    unfold Action.createParent
    rw [hq]
    rfl
  rw [hperform]
  obtain ⟨htext, -, -⟩ | hqleads := hparent
  · unfold createDirectories
    rw [createAlong, if_pos htext]
    exact .refl _ _
  · exact (createAlong_leads hqleads hlinks.of_append _).1

theorem prefix_of_onTheWay {l k : Location} {names : List Text} (h : OnTheWay l names k) :
    l <+: k := by
  obtain ⟨front, -, -, rfl⟩ := h
  exact List.prefix_append ..

/-- What copying and writing have in common: the directories above a path, and a change of what is
there. -/
def putInto (blamed destination : Path) (operation : FileSystem → Except IoFault FileSystem) :
    Action Unit := do
  Action.createParent destination
  Action.change blamed operation

/-- The operation puts a file at the path and does nothing else. -/
def PutsFile (destination : Path) (operation : FileSystem → Except IoFault FileSystem) : Prop :=
  ∀ g g', operation g = .ok g' → ∃ target content, g.fileLocation destination = .ok target ∧
    g' = g.place target (.file content)

theorem putsFile_copyFile (source destination : Path) :
    PutsFile destination (·.copyFile source destination) := fun g g' h => by
  obtain ⟨origin, content, target, -, htarget, rfl⟩ := copyFile_eq_ok h
  exact ⟨target, _, htarget, rfl⟩

theorem putsFile_writeFile (destination : Path) (content : ByteArray) :
    PutsFile destination (·.writeFile destination content) := fun g g' h => by
  obtain ⟨target, htarget, rfl⟩ := writeFile_eq_ok h
  exact ⟨target, content, htarget, rfl⟩

/-- Whether it succeeds or not, a file put down some names leaves all but what is below the directory
as it was. -/
theorem putInto_besides {blamed destination : Path} {operation : FileSystem → Except IoFault FileSystem}
    {l : Location} {names : List Text} (hput : PutsFile destination operation)
    (hleads : s.files.Leads destination l names) (hlinks : s.files.NoLinks l names)
    (hne : names ≠ []) :
    (putInto blamed destination operation).KeepsTo l s := by
  obtain ⟨init, last, rfl⟩ : ∃ init last, names = init ++ [last] :=
    ⟨_, _, (List.dropLast_concat_getLast hne).symm⟩
  have hdir := hleads.2.2.1
  have hadds := createParent_adds hleads hlinks
  have hmid : Besides l s.files ((Action.createParent destination).perform s).2.files :=
    .of_adds hadds fun _ => prefix_of_onTheWay
  refine .bind ⟨hmid, hadds.get?_of_some hdir⟩ fun u mid hparent => ?_
  rw [hparent] at hadds
  unfold Action.KeepsTo
  cases hchange : (Action.change blamed operation).perform mid with
  | mk r after =>
    cases r with
    | error e =>
      obtain rfl := Action.change_eq_error hchange
      exact ⟨.refl _ _, hadds.get?_of_some hdir⟩
    | ok u =>
      obtain ⟨files, hfile, rfl⟩ := Action.change_eq_ok.1 hchange
      obtain ⟨target, content, htarget, rfl⟩ := hput _ _ hfile
      obtain ⟨rfl, hplace⟩ := fileLocation_leads (hleads.of_keeps_all (hadds.keeps _))
        (hadds.noLinks hlinks) htarget
      refine ⟨.of_place hplace _ (List.prefix_append ..), ?_⟩
      simp only
      rw [get?_place hplace, if_neg (by simp)]
      exact hadds.get?_of_some hdir

theorem putInto_eq_ok {blamed destination : Path} {operation : FileSystem → Except IoFault FileSystem}
    {l : Location} {names : List Text} {u : Unit} (hput : PutsFile destination operation)
    (hleads : s.files.Leads destination l names) (hlinks : s.files.NoLinks l names)
    (hne : names ≠ [])
    (h : (putInto blamed destination operation).perform s = (.ok u, s')) :
    ∃ mid content, operation mid = .ok s'.files ∧
      AddsDirectories (OnTheWay l names.dropLast) s.files mid ∧ mid.CanPlace (l ++ names) ∧
      mid.fileLocation destination = .ok (l ++ names) ∧
      s' = { s with files := mid.place (l ++ names) (.file content) } := by
  obtain ⟨u, mid, hparent, hchange⟩ := Action.bind_eq_ok.1 h
  obtain ⟨after, hafter, rfl⟩ := Action.change_eq_ok.1 hchange
  obtain ⟨init, last, rfl⟩ : ∃ init last, names = init ++ [last] :=
    ⟨_, _, (List.dropLast_concat_getLast hne).symm⟩
  have hadds := createParent_adds hleads hlinks
  rw [hparent] at hadds
  have hmid : mid = { s with files := mid.files } := by
    unfold Action.createParent at hparent
    split at hparent
    · obtain ⟨files, -, rfl⟩ := Action.changePartly_eq_ok.1 hparent
      rfl
    · cases hparent
      rfl
  obtain ⟨target, content, htarget, rfl⟩ := hput _ _ hafter
  obtain ⟨rfl, hplace⟩ := fileLocation_leads (hleads.of_keeps_all (hadds.keeps _))
    (hadds.noLinks hlinks) htarget
  rw [List.dropLast_concat]
  exact ⟨mid.files, content, hafter, hadds, hplace, htarget, by rw [hmid]⟩

theorem copyInto_besides (source : Path) {destination : Path} {l : Location} {names : List Text}
    (hleads : s.files.Leads destination l names) (hlinks : s.files.NoLinks l names)
    (hne : names ≠ []) :
    (copyInto source destination).KeepsTo l s :=
  putInto_besides (putsFile_copyFile source destination) hleads hlinks hne

theorem writeInto_besides (text : Text) {destination : Path} {l : Location} {names : List Text}
    (hleads : s.files.Leads destination l names) (hlinks : s.files.NoLinks l names)
    (hne : names ≠ []) :
    (writeInto destination text).KeepsTo l s :=
  putInto_besides (putsFile_writeFile destination _) hleads hlinks hne

theorem writeInto_holds {destination : Path} {text : Text} {l : Location}
    {files : List Text → Option ByteArray} {names : List Text} {u : Unit}
    (hfiles : s.files.Holds l files) (hleads : s.files.Leads destination l names) (hne : names ≠ [])
    (h : (writeInto destination text).perform s = (.ok u, s')) :
    s'.calls = s.calls ∧ Besides l s.files s'.files ∧
      s'.files.Holds l (Function.update files names (some (Text.toUtf8 text))) := by
  obtain ⟨mid, content, hwrite, hadds, hplace, hlocation, rfl⟩ :=
    putInto_eq_ok (putsFile_writeFile destination _) hleads (hfiles.noLinks _) hne h
  obtain ⟨target, htarget, heq⟩ := writeFile_eq_ok hwrite
  rw [hlocation] at htarget
  cases htarget
  rw [heq]
  have hsame : Besides l s.files mid := .of_adds hadds fun _ => prefix_of_onTheWay
  exact ⟨rfl, hsame.trans (.of_place hplace _ (List.prefix_append ..)),
    hfiles.place hne hadds hplace⟩

theorem copyInto_eq_ok {source destination : Path} {l : Location}
    {files : List Text → Option ByteArray} {names : List Text} {u : Unit}
    (hfiles : s.files.Holds l files) (hleads : s.files.Leads destination l names) (hne : names ≠ [])
    (hnot : ∀ mid origin, AddsDirectories (OnTheWay l names.dropLast) s.files mid →
      mid.resolve source = .ok (.present origin) → l ++ names ≠ origin)
    (h : (copyInto source destination).perform s = (.ok u, s')) :
    s'.calls = s.calls ∧ Besides l s.files s'.files ∧ ∃ mid bytes,
      AddsDirectories (OnTheWay l names.dropLast) s.files mid ∧ mid.readBytes source = .ok bytes ∧
        s'.files.Holds l (Function.update files names (some bytes)) := by
  obtain ⟨mid, _, hcopy, hadds, hplace, hlocation, rfl⟩ :=
    putInto_eq_ok (putsFile_copyFile source destination) hleads (hfiles.noLinks _) hne h
  have hsame : Besides l s.files mid := .of_adds hadds fun _ => prefix_of_onTheWay
  obtain ⟨origin, content, target, hcopySource, htarget, heq⟩ := copyFile_eq_ok hcopy
  obtain ⟨horigin, hcontent⟩ := copySource_eq_ok hcopySource
  rw [hlocation] at htarget
  cases htarget
  rw [heq, if_neg (hnot mid origin hadds horigin)]
  exact ⟨rfl, hsame.trans (.of_place hplace _ (List.prefix_append ..)), mid, content, hadds,
    readBytes_eq_ok.2 ⟨origin, horigin, hcontent⟩, hfiles.place hne hadds hplace⟩

/-- A file is copied down some names from a location that no other path leads to. -/
theorem copyInto_holds {S : Text → Prop} {source destination : Path} {l : Location}
    {files : List Text → Option ByteArray} {names : List Text} {u : Unit}
    (hfiles : s.files.Holds l files) (hclosed : Closed S s.files) (hl : ¬ ∀ n ∈ l, S n)
    (hsource : ∀ segment ∈ source.segments, S segment)
    (hleads : s.files.Leads destination l names) (hne : names ≠ [])
    (h : (copyInto source destination).perform s = (.ok u, s')) :
    s'.calls = s.calls ∧ Besides l s.files s'.files ∧ ∃ bytes,
      s.files.readBytes source = .ok bytes ∧
        s'.files.Holds l (Function.update files names (some bytes)) := by
  -- the source is not what is copied to, which would empty it
  have hnot : ∀ mid origin, AddsDirectories (OnTheWay l names.dropLast) s.files mid →
      mid.resolve source = .ok (.present origin) → l ++ names ≠ origin := by
    rintro mid origin hadds horigin rfl
    exact hl fun n hn =>
      (hclosed.of_adds hadds).location hsource horigin n (List.mem_append_left _ hn)
  obtain ⟨hcalls, hsame, mid, bytes, hadds, hread, hholds⟩ := copyInto_eq_ok hfiles hleads hne hnot h
  have hmid : Besides l s.files mid := .of_adds hadds fun _ => prefix_of_onTheWay
  exact ⟨hcalls, hsame, bytes,
    (hclosed.of_adds hadds).readBytes (hmid.symm.keeps hl) hsource hread, hholds⟩

/-- A temporary directory can be made, and whatever is done in it starts where it is new and empty. -/
theorem withTemporary_fresh {parent : Path} {mentioned : List Path} {name : Text}
    (hname : name = s.files.freshName mentioned) (hdir : s.files.isDirectory parent = true)
    (hunmentioned : name ∉ parent.segments) :
    ∃ l files, Temporary (· ≠ name) files parent l name ∧ Besides (l ++ [name]) s.files files ∧
      s.files.get? (l ++ [name]) = none ∧ files.Holds (l ++ [name]) (fun _ => none) ∧
      ∀ {α : Type} (blamed : Path) (body : Path → Action α),
        (withTemporary parent blamed mentioned body).perform s =
          ((body (parent.join ⟨name⟩)).thenAlways fun fs =>
            (fs.removeTree (parent.join ⟨name⟩)).1).perform { s with files := files } := by
  subst hname
  obtain ⟨l, htemp, hnone⟩ := Temporary.of_freshName hdir hunmentioned
  obtain ⟨files, hmake⟩ := htemp.exists_makeDirectory hnone
  obtain ⟨htemp', hsame, hholds⟩ := htemp.makeDirectory hnone hmake
  refine ⟨l, files, htemp', hsame, hnone, hholds, fun blamed body => ?_⟩
  unfold withTemporary
  rw [Action.perform_bind, Action.perform_ask]
  simp only
  rw [Action.perform_bind, Action.perform_change, hmake]

/-- Whether it succeeds or not, an action that changes only what is in its temporary directory leaves
all else as it was. -/
theorem withTemporary_besides {α : Type} {parent blamed : Path} {mentioned : List Path}
    {body : Path → Action α} {name : Text} (hname : name = s.files.freshName mentioned)
    (hdir : s.files.isDirectory parent = true) (hunmentioned : name ∉ parent.segments)
    (hbody : ∀ l files, Temporary (· ≠ name) files parent l name →
      files.Holds (l ++ [name]) (fun _ => none) →
        (body (parent.join ⟨name⟩)).KeepsTo (l ++ [name]) { s with files := files }) :
    ∃ l, Besides (l ++ [name]) s.files
      ((withTemporary parent blamed mentioned body).perform s).2.files := by
  obtain ⟨l, files, htemp, hsame, -, hempty, hperform⟩ :=
    withTemporary_fresh hname hdir hunmentioned
  obtain ⟨hchanged, hleft⟩ := hbody l files htemp hempty
  rw [hperform, Action.perform_thenAlways]
  exact ⟨l, hsame.trans (hchanged.trans ((htemp.of_besides hchanged).removeTree hleft).1)⟩

end AndroidResources
