import AndroidResources.FileSystem.Resolve
import AndroidResources.Proofs.Path.Segments

/-!
# Walks along segments

What a walk meets, how a longer walk goes on behind a shorter one, and what two file systems need to
have in common for a walk to end at the same place in both.

* `Honest`, `descend_honest` : a descent says what is there;
* `goOn`, `descend_append` : what a longer descent comes to;
* `walkOn`, `walk_eq`, `walk_cases` : what a walk does after its first descent;
* `walk_append` : a walk goes on from the directory to which its beginning leads;
* `Begins`, `walk_begins` : what the front part of a walk comes to;
* `walk_front_of_name` : before a name it is in a directory;
* `walk_kept_of_followed` : where a walk arrives, the place itself that it names is there;
* `Within S`, `Keeps S fs fs'`, `walk_of_keeps` : a walk along segments in `S` ends where it ended if
  the entries that such segments lead to are kept.
-/

namespace AndroidResources.FileSystem

variable {fs fs' : FileSystem}

/-! ## One segment -/

section Step

variable {dir : Location} {segment : Text} (rest : List Text)

theorem descend_idle (h : Path.isIdle segment = true) :
    fs.descend dir (segment :: rest) = fs.descend dir rest := by
  rw [descend, if_pos h]

theorem descend_up : fs.descend dir ("..".toList :: rest) = fs.descend dir.dropLast rest := by
  rw [descend, if_neg (by decide), if_pos rfl]

theorem descend_name (hidle : ¬ Path.isIdle segment = true) (hup : ¬ segment = "..".toList) :
    fs.descend dir (segment :: rest) =
      match fs.get? (dir ++ [segment]) with
      | some .directory => fs.descend (dir ++ [segment]) rest
      | some (.file _) =>
        if rest = [] then .ok (.arrived (.present (dir ++ [segment]))) else .error .notADirectory
      | some (.link target) => .ok (.link (dir ++ [segment]) target rest)
      | none =>
        if rest.all (· = []) then .ok (.arrived (.vacant (dir ++ [segment]) (!rest.isEmpty)))
        else .error .notFound := by
  rw [descend]
  exact (if_neg hidle).trans (if_neg hup)

end Step

theorem descend_all_idle (fs : FileSystem) (dir : Location) {segments : List Text}
    (h : ∀ segment ∈ segments, Path.isIdle segment = true) :
    fs.descend dir segments = .ok (.arrived (.present dir)) := by
  induction segments with
  | nil => rfl
  | cons segment rest ih =>
    rw [descend_idle _ (h segment (List.mem_cons_self ..)),
      ih fun s hs => h s (List.mem_cons_of_mem _ hs)]

/-! ## What is met on the way -/

/-- The descent says what is there: a present entry that is no link, a free name in a directory, or
a link. -/
def Honest (fs : FileSystem) : Descent → Prop
  | .arrived (.present l) => ∃ e, fs.get? l = some e ∧ ∀ target, e ≠ .link target
  | .arrived (.vacant l _) =>
    ∃ parent name, l = parent ++ [name] ∧ Path.isIdle name = false ∧ name ≠ "..".toList ∧
      fs.get? parent = some .directory ∧ fs.get? l = none
  | .link l target _ => fs.get? l = some (.link target)

theorem descend_honest {dir : Location} {segments : List Text} {d : Descent}
    (hdir : fs.get? dir = some .directory) (h : fs.descend dir segments = .ok d) :
    fs.Honest d := by
  fun_induction descend fs dir segments with
  | case1 dir =>
    cases h
    exact ⟨_, hdir, fun target => by simp⟩
  | case2 dir segment rest hidle ih => exact ih hdir h
  | case3 dir rest hidle ih => exact ih (get?_dropLast hdir) h
  | case4 dir segment rest hidle hup next hnext ih => exact ih hnext h
  | case5 dir segment hidle hup next content hnext =>
    cases h
    exact ⟨_, hnext, fun target => by simp⟩
  | case6 => cases h
  | case7 dir segment rest hidle hup next target hnext =>
    cases h
    exact hnext
  | case8 dir segment rest hidle hup next hnext hrest =>
    cases h
    exact ⟨dir, segment, rfl, by simpa using hidle, hup, hdir, hnext⟩
  | case9 => cases h

/-! ## Longer walks -/

/-- What a descent comes to that has `back` still to go. -/
def goOn (fs : FileSystem) (back : List Text) : Descent → Except IoFault Descent
  | .arrived (.present l) =>
    if fs.get? l = some .directory then fs.descend l back
    else if back = [] then .ok (.arrived (.present l))
    else .error .notADirectory
  | .arrived (.vacant l asDirectory) =>
    if back.all (· = []) then .ok (.arrived (.vacant l (asDirectory || !back.isEmpty)))
    else .error .notFound
  | .link l target rest => .ok (.link l target (rest ++ back))

/-- A longer descent comes to what its front part comes to with the rest still to go. -/
theorem descend_append {dir : Location} {front : List Text} (back : List Text)
    (hdir : fs.get? dir = some .directory) :
    fs.descend dir (front ++ back) = (fs.descend dir front).bind (fs.goOn back) := by
  fun_induction descend fs dir front with
  | case1 dir => exact (if_pos hdir).symm
  | case2 dir segment rest hidle ih => rw [List.cons_append, descend_idle _ hidle, ih hdir]
  | case3 dir rest hidle ih => rw [List.cons_append, descend_up, ih (get?_dropLast hdir)]
  | case4 dir segment rest hidle hup next hnext ih =>
    rw [List.cons_append, descend_name _ hidle hup, hnext]
    exact ih hnext
  | case5 dir segment hidle hup next content hnext =>
    have hfile : ¬ fs.get? next = some .directory := by simp [hnext]
    rw [List.cons_append, descend_name _ hidle hup, hnext]
    exact (if_neg hfile).symm
  | case6 dir segment rest hidle hup next content hnext hrest =>
    rw [List.cons_append, descend_name _ hidle hup, hnext]
    simp [hrest, Except.bind]
  | case7 dir segment rest hidle hup next target hnext =>
    rw [List.cons_append, descend_name _ hidle hup, hnext]
    rfl
  | case8 dir segment rest hidle hup next hnext hrest =>
    have hempty : (rest ++ back).isEmpty = (rest.isEmpty && back.isEmpty) := by cases rest <;> rfl
    rw [List.cons_append, descend_name _ hidle hup, hnext, hempty]
    simp [goOn, hrest, Except.bind, next]
  | case9 dir segment rest hidle hup next hnext hrest =>
    rw [List.cons_append, descend_name _ hidle hup, hnext]
    simp [hrest, Except.bind]

section Append

variable {dir l : Location} {target : Path} {front rest : List Text}

theorem descend_append_directory (back : List Text) (hdir : fs.get? dir = some .directory)
    (h : fs.descend dir front = .ok (.arrived (.present l))) (hl : fs.get? l = some .directory) :
    fs.descend dir (front ++ back) = fs.descend l back := by
  rw [descend_append back hdir, h]
  exact if_pos hl

theorem descend_append_link (back : List Text) (hdir : fs.get? dir = some .directory)
    (h : fs.descend dir front = .ok (.link l target rest)) :
    fs.descend dir (front ++ back) = .ok (.link l target (rest ++ back)) := by
  rw [descend_append back hdir, h]
  rfl

end Append

theorem get?_linkOrigin {l : Location} {target : Path} (h : fs.get? l = some (.link target)) :
    fs.get? (if target.isAbsolute then [] else l.dropLast) = some .directory := by
  split
  · exact get?_root fs
  · exact get?_dropLast h

section Walk

variable {last : LastLink} {links : Nat} {dir l : Location} {target : Path}
  {segments rest : List Text} {place : Place}

/-- Where a walk goes on from what its first descent comes to. -/
def walkOn (fs : FileSystem) (last : LastLink) : Nat → Descent → Except IoFault Place
  | _, .arrived place => .ok place
  | links, .link l target rest =>
    if last = .kept ∧ rest = [] then .ok (.present l)
    else
      match links with
      | 0 => .error .tooManyLinks
      | left + 1 =>
        fs.walk last left (if target.isAbsolute then [] else l.dropLast) (target.segments ++ rest)

theorem walk_eq (fs : FileSystem) (last : LastLink) (links : Nat) (dir : Location)
    (segments : List Text) :
    fs.walk last links dir segments =
      (fs.descend dir segments).bind (fs.walkOn last links) := by
  rw [walk.eq_def]
  match fs.descend dir segments with
  | .error _ => rfl
  | .ok (.arrived _) => rfl
  | .ok (.link _ _ _) => rfl

/-- A walk ends where the descent arrives, at a link at its very end, or where the walk on from the
target of a link ends. -/
theorem walk_cases (h : fs.walk last links dir segments = .ok place) :
    fs.descend dir segments = .ok (.arrived place) ∨
      (∃ l target, last = .kept ∧ fs.descend dir segments = .ok (.link l target []) ∧
        place = .present l) ∨
      ∃ l target rest left, ¬ (last = .kept ∧ rest = []) ∧ links = left + 1 ∧
        fs.descend dir segments = .ok (.link l target rest) ∧
        fs.walk last left (if target.isAbsolute then [] else l.dropLast)
          (target.segments ++ rest) = .ok place := by
  rw [walk_eq] at h
  match hd : fs.descend dir segments with
  | .error fault =>
    rw [hd] at h
    cases h
  | .ok (.arrived place') =>
    rw [hd] at h
    cases h
    exact .inl rfl
  | .ok (.link l target rest) =>
    rw [hd] at h
    simp only [Except.bind, walkOn] at h
    split at h
    · next hkept =>
      obtain ⟨rfl, rfl⟩ := hkept
      cases h
      exact .inr (.inl ⟨l, target, rfl, rfl, rfl⟩)
    · next hkept =>
      cases links with
      | zero => cases h
      | succ left => exact .inr (.inr ⟨l, target, rest, left, hkept, rfl, rfl, h⟩)

theorem walk_of_arrived (h : fs.descend dir segments = .ok (.arrived place)) :
    fs.walk last links dir segments = .ok place := by
  rw [walk_eq, h]
  rfl

/-- A walk depends on where it starts and on its segments only through its first descent. -/
theorem walk_congr {dir' : Location} {segments' : List Text}
    (h : fs.descend dir segments = fs.descend dir' segments') (links : Nat) :
    fs.walk last links dir segments = fs.walk last links dir' segments' := by
  rw [walk_eq, h, ← walk_eq]

theorem walk_of_kept (h : fs.descend dir segments = .ok (.link l target [])) :
    fs.walk .kept links dir segments = .ok (.present l) := by
  rw [walk_eq, h]
  simp [Except.bind, walkOn]

theorem walk_of_link (h : fs.descend dir segments = .ok (.link l target rest))
    (hkept : ¬ (last = .kept ∧ rest = [])) :
    fs.walk last (links + 1) dir segments =
      fs.walk last links (if target.isAbsolute then [] else l.dropLast) (target.segments ++ rest) := by
  rw [walk_eq, h]
  exact if_neg hkept

end Walk

/-- Behind a directory a walk goes on there, with fewer links left. A link at the end of the front
part is followed in any case where something stands behind it. -/
theorem walk_append {last : LastLink} {links : Nat} {dir l : Location} {front : List Text}
    (hdir : fs.get? dir = some .directory)
    (h : fs.walk .followed links dir front = .ok (.present l))
    (hl : fs.get? l = some .directory) (back : List Text) (hback : last = .followed ∨ back ≠ []) :
    ∃ left, fs.walk last links dir (front ++ back) = fs.walk last left l back := by
  induction links using Nat.strongRecOn generalizing dir front with
  | ind links ih =>
    obtain hd | ⟨l', target, hkept, -⟩ | ⟨l', target, rest, left, -, rfl, hd, hwalk⟩ :=
      walk_cases h
    · exact ⟨links, walk_congr (descend_append_directory back hdir hd hl) links⟩
    · cases hkept
    · have hlink : fs.get? l' = some (.link target) := descend_honest hdir hd
      obtain ⟨left', hleft⟩ := ih left (Nat.lt_succ_self left) (get?_linkOrigin hlink) hwalk
      refine ⟨left', ?_⟩
      rw [walk_of_link (descend_append_link back hdir hd), ← List.append_assoc, hleft]
      rintro ⟨rfl, hnil⟩
      obtain hfollowed | hback := hback
      · cases hfollowed
      · exact hback (List.append_eq_nil_iff.1 hnil).2

/-- What the front part of a walk comes to that has `back` still to go and ends at `place`. -/
inductive Begins (fs : FileSystem) (last : LastLink) (links : Nat) (dir : Location)
    (front back : List Text) (place : Place) : Prop
  /-- The walk goes on in a directory, if at all. -/
  | present {l : Location} (h : fs.descend dir front = .ok (.arrived (.present l)))
      (hl : back ≠ [] → fs.get? l = some .directory)
  /-- Only slashes follow a free name. -/
  | vacant {l : Location} {asDirectory : Bool}
      (h : fs.descend dir front = .ok (.arrived (.vacant l asDirectory)))
      (hback : ∀ segment ∈ back, segment = []) (hplace : ∀ l, place ≠ .present l)
  /-- A link at the very end stays. -/
  | kept {l : Location} {target : Path} (hlast : last = .kept)
      (h : fs.descend dir front = .ok (.link l target [])) (hback : back = [])
  /-- The walk goes on from the target of a link. -/
  | link {l : Location} {target : Path} {rest : List Text} {left : Nat}
      (h : fs.descend dir front = .ok (.link l target rest)) (hlinks : links = left + 1)
      (horigin : fs.get? (if target.isAbsolute then [] else l.dropLast) = some .directory)
      (hwalk : fs.walk last left (if target.isAbsolute then [] else l.dropLast)
        (target.segments ++ rest ++ back) = .ok place)

theorem walk_begins {last : LastLink} {links : Nat} {dir : Location} {front back : List Text}
    {place : Place} (hdir : fs.get? dir = some .directory)
    (h : fs.walk last links dir (front ++ back) = .ok place) :
    fs.Begins last links dir front back place := by
  rw [walk_eq, descend_append back hdir] at h
  match hfront : fs.descend dir front with
  | .error fault =>
    rw [hfront] at h
    cases h
  | .ok (.arrived (.present l)) =>
    refine .present hfront fun hback => ?_
    by_contra hl
    rw [hfront] at h
    simp only [Except.bind, goOn, if_neg hl, if_neg hback] at h
    cases h
  | .ok (.arrived (.vacant l asDirectory)) =>
    rw [hfront] at h
    by_cases hall : back.all (· = []) = true
    · simp only [Except.bind, goOn, if_pos hall] at h
      cases h
      exact .vacant hfront (by simpa using hall) (by simp)
    · simp only [Except.bind, goOn, if_neg hall] at h
      cases h
  | .ok (.link l target rest) =>
    rw [hfront] at h
    simp only [Except.bind, goOn, walkOn] at h
    split at h
    · next hkept =>
      obtain ⟨rfl, hback⟩ := List.append_eq_nil_iff.1 hkept.2
      exact .kept hkept.1 hfront hback
    · cases links with
      | zero => cases h
      | succ left =>
        exact .link hfront rfl (get?_linkOrigin (descend_honest hdir hfront))
          (by rwa [List.append_assoc])

theorem walk_front_of_name {last : LastLink} {links : Nat} {dir : Location}
    {front back : List Text} {place : Place} (hdir : fs.get? dir = some .directory)
    {segment : Text} (hsegment : segment ∈ back) (hne : segment ≠ [])
    (h : fs.walk last links dir (front ++ back) = .ok place) :
    ∃ l, fs.walk .followed links dir front = .ok (.present l) ∧ fs.get? l = some .directory := by
  induction links using Nat.strongRecOn generalizing dir front with
  | ind links ih =>
    cases walk_begins hdir h with
    | present hfront hl =>
      exact ⟨_, walk_of_arrived hfront, hl (List.ne_nil_of_mem hsegment)⟩
    | vacant _ hback => exact absurd (hback segment hsegment) hne
    | kept _ _ hback =>
      rw [hback] at hsegment
      cases hsegment
    | @link _ _ _ left hfront hlinks horigin hwalk =>
      -- behind the target of the link the name is still to come
      subst hlinks
      rw [walk_of_link hfront (by simp)]
      exact ih left (Nat.lt_succ_self left) horigin hwalk

theorem walk_followed_of_kept {links : Nat} {dir l : Location} {segments : List Text}
    (hdir : fs.get? dir = some .directory)
    (h : fs.walk .kept links dir segments = .ok (.present l))
    (hl : fs.get? l = some .directory) :
    fs.walk .followed links dir segments = .ok (.present l) := by
  induction links using Nat.strongRecOn generalizing dir segments with
  | ind links ih =>
    obtain hd | ⟨l', target, -, hd, heq⟩ | ⟨l', target, rest, left, -, rfl, hd, hwalk⟩ :=
      walk_cases h
    · exact walk_of_arrived hd
    · cases heq
      have hlink : fs.get? l = some (.link target) := descend_honest hdir hd
      rw [hlink] at hl
      cases hl
    · have hlink : fs.get? l' = some (.link target) := descend_honest hdir hd
      rw [walk_of_link hd (by simp)]
      exact ih left (Nat.lt_succ_self left) (get?_linkOrigin hlink) hwalk

theorem walk_front_of_idle {links : Nat} {dir l : Location} {front idle : List Text}
    (hdir : fs.get? dir = some .directory)
    (hidle : ∀ segment ∈ idle, Path.isIdle segment = true)
    (h : fs.walk .followed links dir (front ++ idle) = .ok (.present l)) :
    fs.walk .followed links dir front = .ok (.present l) := by
  by_cases hnil : idle = []
  · rwa [hnil, List.append_nil] at h
  induction links using Nat.strongRecOn generalizing dir front with
  | ind links ih =>
    cases walk_begins hdir h with
    | present hfront hl =>
      rw [walk_of_arrived ((descend_append_directory idle hdir hfront (hl hnil)).trans
        (descend_all_idle fs _ hidle))] at h
      cases h
      exact walk_of_arrived hfront
    | vacant _ _ hplace => exact absurd rfl (hplace l)
    | kept _ _ hback => exact absurd hback hnil
    | @link _ _ _ left hfront hlinks horigin hwalk =>
      subst hlinks
      rw [walk_of_link hfront (by simp)]
      exact ih left (Nat.lt_succ_self left) horigin hwalk

/-- Where a walk arrives at something, the place that the segments in front name is there. -/
theorem walk_kept_of_followed {links : Nat} {dir l : Location} {front back : List Text}
    (hdir : fs.get? dir = some .directory)
    (h : fs.walk .followed links dir (front ++ back) = .ok (.present l)) :
    ∃ l', fs.walk .kept links dir front = .ok (.present l') := by
  induction links using Nat.strongRecOn generalizing dir front with
  | ind links ih =>
    cases walk_begins hdir h with
    | present hfront => exact ⟨_, walk_of_arrived hfront⟩
    | vacant _ _ hplace => exact absurd rfl (hplace l)
    | kept hlast => cases hlast
    | @link _ _ rest left hfront hlinks horigin hwalk =>
      subst hlinks
      -- a link at the end of the front is kept, one before it followed as in the longer walk
      obtain rfl | hrest := eq_or_ne rest []
      · exact ⟨_, walk_of_kept hfront⟩
      · obtain ⟨l', hl'⟩ := ih left (Nat.lt_succ_self left) horigin hwalk
        refine ⟨l', ?_⟩
        rw [walk_of_link hfront (by simp [hrest]), hl']

theorem walk_honest {last : LastLink} {links : Nat} {dir : Location} {segments : List Text}
    {place : Place} (hdir : fs.get? dir = some .directory)
    (h : fs.walk last links dir segments = .ok place) :
    fs.Honest (.arrived place) ∨
      ∃ l target, last = .kept ∧ place = .present l ∧ fs.get? l = some (.link target) := by
  induction links using Nat.strongRecOn generalizing dir segments with
  | ind links ih =>
    obtain hd | ⟨l, target, hkept, hd, rfl⟩ | ⟨l, target, rest, left, -, rfl, hd, hwalk⟩ :=
      walk_cases h
    · exact .inl (descend_honest hdir hd)
    · exact .inr ⟨l, target, hkept, rfl, descend_honest hdir hd⟩
    · have hlink : fs.get? l = some (.link target) := descend_honest hdir hd
      exact ih left (Nat.lt_succ_self left) (get?_linkOrigin hlink) hwalk

/-! ## Walks in two file systems -/

/-- Links to which only names in `S` lead have only segments in `S` in their targets. -/
def Within (S : Text → Prop) (fs : FileSystem) : Prop :=
  ∀ l target, (∀ name ∈ l, S name) → fs.get? l = some (.link target) →
    ∀ segment ∈ target.segments, S segment

/-- The entries to which only names in `S` lead stay as they are. -/
structure Keeps (S : Text → Prop) (fs fs' : FileSystem) : Prop where
  origin : fs'.workingDirectory = fs.workingDirectory
  entries : ∀ l e, (∀ name ∈ l, S name) → fs.get? l = some e → fs'.get? l = some e

theorem Keeps.refl (S : Text → Prop) (fs : FileSystem) : Keeps S fs fs :=
  ⟨rfl, fun _ _ _ h => h⟩

theorem Keeps.trans {S : Text → Prop} {fs'' : FileSystem} (h : Keeps S fs fs')
    (h' : Keeps S fs' fs'') : Keeps S fs fs'' :=
  ⟨h'.origin.trans h.origin, fun l e hl hget => h'.entries l e hl (h.entries l e hl hget)⟩

theorem within_true (fs : FileSystem) : Within (fun _ => True) fs :=
  fun _ _ _ _ _ _ => trivial

def Settled (fs' : FileSystem) (place : Place) : Prop :=
  place = .present place.location ∨ fs'.get? place.location = some .directory

/-- The descent with the given result leads through `S` only and comes to the same in `fs'`, once
the place has settled. -/
def Repeats (S : Text → Prop) (fs' : FileSystem) (dir : Location) (segments : List Text) :
    Descent → Prop
  | .arrived place =>
    (∀ name ∈ place.location, S name) ∧ (fs'.Settled place →
      fs'.descend dir segments = .ok (.arrived (.present place.location)))
  | .link l target rest =>
    (∀ name ∈ l, S name) ∧ (∀ segment ∈ rest, S segment) ∧
      fs'.descend dir segments = .ok (.link l target rest)

section Keeps

variable {S : Text → Prop} {dir : Location} {segments : List Text}

theorem Repeats.congr {dir' : Location} {segments' : List Text} {d : Descent}
    (h : Repeats S fs' dir' segments' d)
    (heq : fs'.descend dir segments = fs'.descend dir' segments') :
    Repeats S fs' dir segments d := by
  cases d with
  | arrived place => exact ⟨h.1, fun hsettled => heq.trans (h.2 hsettled)⟩
  | link l target rest => exact ⟨h.1, h.2.1, heq.trans h.2.2⟩

theorem descend_of_keeps (h : Keeps S fs fs') (hdir : ∀ name ∈ dir, S name)
    (hsegments : ∀ segment ∈ segments, S segment) {d : Descent}
    (hd : fs.descend dir segments = .ok d) : Repeats S fs' dir segments d := by
  have hnext : ∀ {dir : Location} {segment : Text} {rest : List Text}, (∀ name ∈ dir, S name) →
      (∀ s ∈ segment :: rest, S s) → ∀ name ∈ dir ++ [segment], S name := by
    intro dir segment rest hdir hsegments name hname
    rcases List.mem_append.1 hname with hname | hname
    · exact hdir name hname
    · exact hsegments name (by rw [List.mem_singleton.1 hname]; exact List.mem_cons_self ..)
  fun_induction descend fs dir segments with
  | case1 dir =>
    cases hd
    exact ⟨hdir, fun _ => rfl⟩
  | case2 dir segment rest hidle ih =>
    exact (ih hdir (fun s hs => hsegments s (List.mem_cons_of_mem _ hs)) hd).congr
      (descend_idle _ hidle)
  | case3 dir rest hidle ih =>
    exact (ih (fun name hname => hdir name (List.mem_of_mem_dropLast hname))
      (fun s hs => hsegments s (List.mem_cons_of_mem _ hs)) hd).congr (descend_up _)
  | case4 dir segment rest hidle hup next hget ih =>
    refine (ih (hnext hdir hsegments)
      (fun s hs => hsegments s (List.mem_cons_of_mem _ hs)) hd).congr ?_
    rw [descend_name _ hidle hup, h.entries _ _ (hnext hdir hsegments) hget]
  | case5 dir segment hidle hup next content hget =>
    cases hd
    refine ⟨hnext hdir hsegments, fun _ => ?_⟩
    rw [descend_name _ hidle hup, h.entries _ _ (hnext hdir hsegments) hget]
    rfl
  | case6 => cases hd
  | case7 dir segment rest hidle hup next target hget =>
    cases hd
    refine ⟨hnext hdir hsegments, fun s hs => hsegments s (List.mem_cons_of_mem _ hs), ?_⟩
    rw [descend_name _ hidle hup, h.entries _ _ (hnext hdir hsegments) hget]
  | case8 dir segment rest hidle hup next hget hrest =>
    cases hd
    refine ⟨hnext hdir hsegments, fun hsettled => ?_⟩
    obtain hpresent | hdirectory := hsettled
    · cases hpresent
    · have hempty : ∀ s ∈ rest, Path.isIdle s = true := fun s hs => by
        rw [of_decide_eq_true (List.all_eq_true.1 hrest s hs)]
        rfl
      rw [descend_name _ hidle hup, show fs'.get? (dir ++ [segment]) = _ from hdirectory]
      exact descend_all_idle fs' _ hempty
  | case9 => cases hd

/-- A walk that leads through kept entries ends at the same place. -/
theorem walk_of_keeps (hw : Within S fs) (h : Keeps S fs fs') {last : LastLink} {links : Nat}
    (hdir : ∀ name ∈ dir, S name) (hsegments : ∀ segment ∈ segments, S segment) {place : Place}
    (hwalk : fs.walk last links dir segments = .ok place) (hget : fs.get? dir = some .directory) :
    (∀ name ∈ place.location, S name) ∧ (fs'.Settled place →
      fs'.walk last links dir segments = .ok (.present place.location)) := by
  induction links using Nat.strongRecOn generalizing dir segments with
  | ind links ih =>
    obtain hd | ⟨l, target, rfl, hd, rfl⟩ | ⟨l, target, rest, left, hkept, rfl, hd, hleft⟩ :=
      walk_cases hwalk
    · obtain ⟨hin, hrepeat⟩ := descend_of_keeps h hdir hsegments hd
      exact ⟨hin, fun hsettled => walk_of_arrived (hrepeat hsettled)⟩
    · obtain ⟨hin, -, hrepeat⟩ := descend_of_keeps h hdir hsegments hd
      exact ⟨hin, fun _ => walk_of_kept hrepeat⟩
    · obtain ⟨hin, hrest, hrepeat⟩ := descend_of_keeps h hdir hsegments hd
      have hlink : fs.get? l = some (.link target) := descend_honest hget hd
      -- the walk goes on where the link is, along its target, and both are spelled in `S`
      have hdir' : ∀ name ∈ (if target.isAbsolute then [] else l.dropLast), S name := by
        intro name hname
        split at hname
        · cases hname
        · exact hin name (List.mem_of_mem_dropLast hname)
      have hsegments' : ∀ segment ∈ target.segments ++ rest, S segment := by
        intro segment hmem
        rcases List.mem_append.1 hmem with hmem | hmem
        · exact hw l target hin hlink segment hmem
        · exact hrest segment hmem
      obtain ⟨hplace, hsame⟩ := ih left (Nat.lt_succ_self left) hdir' hsegments' hleft
        (get?_linkOrigin hlink)
      refine ⟨hplace, fun hsettled => ?_⟩
      rw [walk_of_link hrepeat hkept, hsame hsettled]

end Keeps

end AndroidResources.FileSystem
