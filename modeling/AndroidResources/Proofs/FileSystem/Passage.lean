import AndroidResources.Proofs.FileSystem.Success

/-!
# Ways past files

A path shows its way by directories and links. Files that come or change leave all ways as they are,
so what has been written at a path is read there.

* `KeepsWays fs fs'` : the directories and links stay;
* `walk_of_ways`, `Leads.of_ways` : a path leads where it led;
* `writeFile_keepsWays`, `readBytes_writeFile` : what writing a file does to ways and to what is read;
* `KeepsEntries fs fs'` : what is there stays there, so that a path leads where it led.
-/

namespace AndroidResources.FileSystem

variable {fs fs' fs'' : FileSystem} {p : Path} {dir l : Location} {segments : List Text}

/-- The directories and links stay as they are. -/
structure KeepsWays (fs fs' : FileSystem) : Prop where
  origin : fs'.workingDirectory = fs.workingDirectory
  entries : ∀ l e, e.isFile = false → fs.get? l = some e → fs'.get? l = some e

namespace KeepsWays

theorem refl (fs : FileSystem) : KeepsWays fs fs :=
  ⟨rfl, fun _ _ _ hget => hget⟩

theorem trans (h : KeepsWays fs fs') (h' : KeepsWays fs' fs'') : KeepsWays fs fs'' :=
  ⟨h'.origin.trans h.origin, fun l e he hget => h'.entries l e he (h.entries l e he hget)⟩

theorem of_place (hplace : fs.CanPlace l)
    (hfree : fs.get? l = none ∨ ∃ content, fs.get? l = some (.file content)) (e : Entry) :
    KeepsWays fs (fs.place l e) := by
  refine ⟨workingDirectory_place fs l e, fun k e' he hget => ?_⟩
  rw [get?_place hplace, if_neg, hget]
  rintro rfl
  obtain hnone | ⟨content, hfile⟩ := hfree
  · rw [hnone] at hget
    cases hget
  · rw [hfile] at hget
    cases hget
    cases he

end KeepsWays

/-- What a path can arrive at: a directory or, unless a directory is asked for, a file. -/
def Stands (fs : FileSystem) (place : Place) : Prop :=
  fs.get? place.location = some .directory ∨
    (∃ content, fs.get? place.location = some (.file content)) ∧ ∀ k, place ≠ .vacant k true

/-- The descent meets the given link in `fs'`, or arrives at the given place if something stands
there. -/
def Meets (fs' : FileSystem) (dir : Location) (segments : List Text) : Descent → Prop
  | .arrived place =>
    fs'.Stands place → fs'.descend dir segments = .ok (.arrived (.present place.location))
  | .link l target rest => fs'.descend dir segments = .ok (.link l target rest)

theorem Meets.congr {dir' : Location} {segments' : List Text} {d : Descent}
    (h : fs'.Meets dir' segments' d) (heq : fs'.descend dir segments = fs'.descend dir' segments') :
    fs'.Meets dir segments d := by
  cases d with
  | arrived place => exact fun hstands => heq.trans (h hstands)
  | link l target rest => exact heq.trans h

theorem descend_of_ways (h : KeepsWays fs fs') {d : Descent}
    (hd : fs.descend dir segments = .ok d) : fs'.Meets dir segments d := by
  fun_induction descend fs dir segments with
  | case1 dir =>
    cases hd
    exact fun _ => rfl
  | case2 dir segment rest hidle ih => exact (ih hd).congr (descend_idle _ hidle)
  | case3 dir rest hidle ih => exact (ih hd).congr (descend_up _)
  | case4 dir segment rest hidle hup next hnext ih =>
    refine (ih hd).congr ?_
    rw [descend_name _ hidle hup, h.entries _ _ rfl hnext]
  | case5 dir segment hidle hup next content hnext =>
    cases hd
    rintro (hdir | ⟨⟨content', hfile⟩, -⟩)
    · rw [descend_name _ hidle hup, show fs'.get? (dir ++ [segment]) = _ from hdir]
      rfl
    · rw [descend_name _ hidle hup, show fs'.get? (dir ++ [segment]) = _ from hfile]
      rfl
  | case6 => cases hd
  | case7 dir segment rest hidle hup next target hnext =>
    cases hd
    show fs'.descend dir (segment :: rest) = .ok (.link next target rest)
    rw [descend_name _ hidle hup, h.entries _ _ rfl hnext]
  | case8 dir segment rest hidle hup next hnext hrest =>
    cases hd
    rintro (hdir | ⟨⟨content, hfile⟩, hfree⟩)
    · have hempty : ∀ s ∈ rest, Path.isIdle s = true := fun s hs => by
        rw [of_decide_eq_true (List.all_eq_true.1 hrest s hs)]
        rfl
      rw [descend_name _ hidle hup, show fs'.get? (dir ++ [segment]) = _ from hdir]
      exact descend_all_idle fs' _ hempty
    · -- a file is not asked for with a slash behind it
      cases rest with
      | nil =>
        rw [descend_name _ hidle hup, show fs'.get? (dir ++ [segment]) = _ from hfile]
        rfl
      | cons => exact absurd rfl (hfree next)
  | case9 => cases hd

/-- A walk arrives where it arrived, if something stands there. -/
theorem walk_of_ways (h : KeepsWays fs fs') {last : LastLink} {links : Nat} {place : Place}
    (hwalk : fs.walk last links dir segments = .ok place) (hdir : fs.get? dir = some .directory)
    (hstands : fs'.Stands place) :
    fs'.walk last links dir segments = .ok (.present place.location) := by
  induction links using Nat.strongRecOn generalizing dir segments with
  | ind links ih =>
    obtain hd | ⟨l, target, rfl, hd, rfl⟩ | ⟨l, target, rest, left, hkept, rfl, hd, hleft⟩ :=
      walk_cases hwalk
    · exact walk_of_arrived (descend_of_ways h hd hstands)
    · exact walk_of_kept (descend_of_ways h hd)
    · have hlink : fs.get? l = some (.link target) := descend_honest hdir hd
      rw [walk_of_link (descend_of_ways h hd) hkept]
      exact ih left (Nat.lt_succ_self left) hleft (get?_linkOrigin hlink)

theorem origin_of_ways (h : KeepsWays fs fs') (p : Path) : fs'.origin p = fs.origin p :=
  origin_of_workingDirectory h.origin p

theorem resolveSegments_of_ways (h : KeepsWays fs fs') {last : LastLink} {place : Place}
    (hp : fs.resolveSegments last p segments = .ok place) (hstands : fs'.Stands place) :
    fs'.resolveSegments last p segments = .ok (.present place.location) := by
  obtain ⟨htext, hdir, hwalk⟩ := resolveSegments_eq_ok.1 hp
  rw [resolveSegments_eq_ok, origin_of_ways h]
  exact ⟨htext, h.entries _ _ rfl hdir, walk_of_ways h hwalk hdir hstands⟩

theorem Leads.of_ways {base : Location} {names : List Text} (hleads : fs.Leads p base names)
    (h : KeepsWays fs fs') : fs'.Leads p base names := by
  obtain ⟨htext, horigin, hbase, front, back, happ, hwalk, hfront, hup, hnames⟩ := hleads
  have hbase' := h.entries _ _ rfl hbase
  refine ⟨htext, ?_, hbase', front, back, happ, ?_, hfront, hup, hnames⟩
  · rw [origin_of_ways h]
    exact h.entries _ _ rfl horigin
  · rw [origin_of_ways h]
    exact walk_of_ways h hwalk horigin (.inl hbase')

/-! ## Files that are written -/

theorem writeFile_keepsWays {content : ByteArray} (h : fs.writeFile p content = .ok fs') :
    KeepsWays fs fs' := by
  obtain ⟨target, htarget, rfl⟩ := writeFile_eq_ok h
  obtain ⟨place, -, rfl, -, hplace, hfree⟩ := fileLocation_eq_ok htarget
  exact .of_place hplace hfree _

theorem resolve_writeFile {content : ByteArray} (h : fs.writeFile p content = .ok fs') :
    ∃ l, fs.fileLocation p = .ok l ∧ fs.CanPlace l ∧ fs' = fs.place l (.file content) ∧
      fs'.resolve p = .ok (.present l) := by
  have hways := writeFile_keepsWays h
  obtain ⟨target, htarget, rfl⟩ := writeFile_eq_ok h
  obtain ⟨place, hresolve, rfl, hfile, hplace, -⟩ := fileLocation_eq_ok htarget
  have hget : (fs.place place.location (.file content)).get? place.location =
      some (.file content) := by
    rw [get?_place hplace, if_pos rfl]
  exact ⟨_, htarget, hplace, rfl,
    resolveSegments_of_ways hways hresolve (.inr ⟨⟨content, hget⟩, hfile⟩)⟩

/-- What has been written at a path is read there. -/
theorem readBytes_writeFile {content : ByteArray} (h : fs.writeFile p content = .ok fs') :
    fs'.readBytes p = .ok content := by
  obtain ⟨l, -, hplace, rfl, hresolve⟩ := resolve_writeFile h
  exact readBytes_eq_ok.2 ⟨l, hresolve, by rw [get?_place hplace, if_pos rfl]⟩

/-! ## All that is there -/

/-- What is there stays there, a file perhaps with another content. -/
structure KeepsEntries (fs fs' : FileSystem) : Prop where
  ways : KeepsWays fs fs'
  files : ∀ l content, fs.get? l = some (.file content) →
    ∃ content', fs'.get? l = some (.file content')

namespace KeepsEntries

theorem refl (fs : FileSystem) : KeepsEntries fs fs :=
  ⟨.refl fs, fun _ content hget => ⟨content, hget⟩⟩

theorem trans (h : KeepsEntries fs fs') (h' : KeepsEntries fs' fs'') : KeepsEntries fs fs'' := by
  refine ⟨h.ways.trans h'.ways, fun l content hget => ?_⟩
  obtain ⟨content', hget'⟩ := h.files l content hget
  exact h'.files l content' hget'

theorem of_adds {P : Location → Prop} (h : AddsDirectories P fs fs') : KeepsEntries fs fs' :=
  ⟨⟨h.origin, fun _ _ _ hget => h.get?_of_some hget⟩,
    fun _ content hget => ⟨content, h.get?_of_some hget⟩⟩

theorem of_writeFile {content : ByteArray} (h : fs.writeFile p content = .ok fs') :
    KeepsEntries fs fs' := by
  refine ⟨writeFile_keepsWays h, fun l content' hget => ?_⟩
  obtain ⟨target, htarget, rfl⟩ := writeFile_eq_ok h
  obtain ⟨place, -, rfl, -, hplace, -⟩ := fileLocation_eq_ok htarget
  rw [get?_place hplace]
  split
  · exact ⟨content, rfl⟩
  · exact ⟨content', hget⟩

theorem get?_of_some (h : KeepsEntries fs fs') {e : Entry} (hget : fs.get? l = some e) :
    ∃ e', fs'.get? l = some e' := by
  cases e with
  | file content =>
    obtain ⟨content', hget'⟩ := h.files l content hget
    exact ⟨_, hget'⟩
  | directory => exact ⟨_, h.ways.entries _ _ rfl hget⟩
  | link target => exact ⟨_, h.ways.entries _ _ rfl hget⟩

theorem get?_of_none (h : KeepsEntries fs fs') (hnone : fs'.get? l = none) : fs.get? l = none := by
  by_contra hsome
  obtain ⟨e, he⟩ := Option.ne_none_iff_exists'.1 hsome
  obtain ⟨e', he'⟩ := h.get?_of_some he
  rw [hnone] at he'
  cases he'

theorem resolve (h : KeepsEntries fs fs') (hp : fs.resolve p = .ok (.present l)) :
    fs'.resolve p = .ok (.present l) := by
  refine resolveSegments_of_ways h.ways hp ?_
  obtain ⟨-, horigin, hwalk⟩ := resolveSegments_eq_ok.1 hp
  obtain ⟨e, he, hlink⟩ | ⟨_, _, hkept, -⟩ := walk_honest horigin hwalk
  · cases e with
    | file content => exact .inr ⟨h.files l content he, by simp⟩
    | directory => exact .inl (h.ways.entries _ _ rfl he)
    | link target => exact absurd rfl (hlink target)
  · cases hkept

theorem pathExists (h : KeepsEntries fs fs') (hp : fs.pathExists p = true) :
    fs'.pathExists p = true := by
  obtain ⟨l, hl⟩ := pathExists_iff.1 hp
  exact pathExists_iff.2 ⟨l, h.resolve hl⟩

end KeepsEntries

end AndroidResources.FileSystem
