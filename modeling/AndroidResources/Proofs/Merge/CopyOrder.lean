import AndroidResources.Proofs.Build.StagedTree
import AndroidResources.Proofs.Merge.Copying

/-!
# The order of copies

Winners are copied one after the other into an empty directory. The order decides which fault is
reported, but neither whether there is one nor what is there in the end.

* `ResourceMerge.Copyable` : a winner that names a place and has a file for it;
* `ResourceMerge.Nested` : the place of one winner lies below that of another;
* `copyWinners_leaves` : what copies leave that all succeed;
* `copyWinners_succeeds` : all of them succeed where no places are nested;
* `copyWinners_perm` : two orders.
-/

namespace AndroidResources

open FileSystem

namespace ResourceMerge

variable {fs : FileSystem} {winners order order' : List (List Text × Path)} {plan : MergePlan}
  {dir : Path} {d : Location} {s t : BuildState} {files tree : List Text → Option ByteArray}

/-- The place is spelled by names, and there is a file to be copied to it. -/
structure Copyable (fs : FileSystem) (winner : List Text × Path) : Prop where
  ne_nil : winner.1 ≠ []
  isName : ∀ name ∈ winner.1, IsName name
  readable : ∃ bytes, fs.readBytes winner.2 = .ok bytes

/-- One winner is to be a file, another one to lie below it. -/
def Nested (winners : List (List Text × Path)) : Prop :=
  ∃ lower ∈ winners, ∃ upper ∈ winners, Above lower.1 upper.1

instance (winners : List (List Text × Path)) : Decidable (Nested winners) :=
  inferInstanceAs (Decidable (∃ lower ∈ winners, ∃ upper ∈ winners, Above lower.1 upper.1))

theorem copyable_of_make {g : FileSystem} {config : MergeConfig} {sets : List SourceSet}
    (hmake : MergePlan.make g config sets = .ok plan)
    (hread : ∀ winner ∈ plan.winners.toList, ∃ bytes, fs.readBytes winner.2 = .ok bytes) :
    ∀ winner ∈ plan.winners.toList, Copyable fs winner := by
  intro winner hwinner
  have hfound := MergePlan.found_of_make hmake (OrderedMap.mem_toList.1 hwinner)
  exact ⟨hfound.ne_nil, hfound.isName, hread winner hwinner⟩

theorem copyable_of_keeps {g : FileSystem} {config : MergeConfig} {sets : List SourceSet}
    (hmake : MergePlan.make g config sets = .ok plan) (hkeeps : Keeps (fun _ => True) g fs) :
    ∀ winner ∈ plan.winners.toList, Copyable fs winner := by
  refine copyable_of_make hmake fun winner hmem => ?_
  obtain ⟨bytes, hread⟩ := (MergePlan.found_of_make hmake (OrderedMap.mem_toList.1 hmem)).readBytes
  exact ⟨bytes, readBytes_of_keeps_all hkeeps hread⟩

/-! ## Copies that succeed -/

/-- What is read is what was there at first: nothing has been in the directory, so no copy can have
touched it. -/
theorem readBytes_of_empty {bytes : ByteArray} {p : Path} (hempty : fs.Holds d fun _ => none)
    (hsame : Besides d fs s.files) (hdir : s.files.get? d = some .directory)
    (hread : fs.readBytes p = .ok bytes) : s.files.readBytes p = .ok bytes ∧
      ∀ l, s.files.resolve p = .ok (.present l) → ¬ d <+: l := by
  obtain ⟨l, hresolve, hget⟩ := readBytes_eq_ok.1 hread
  have hkeeps := hempty.keeps_of_empty hsame hdir
  have hresolve' := resolve_of_keeps_all hkeeps hresolve
  refine ⟨readBytes_of_keeps_all hkeeps hread, fun k hk => ?_⟩
  rw [hresolve'] at hk
  cases hk
  rintro ⟨names, rfl⟩
  cases (hempty.file names bytes).1 hget

/-- Copies that all succeed leave the files of the winners in the directory, and all else as it
was. -/
theorem copyWinners_leaves {u : Unit} (hempty : fs.Holds d fun _ => none) (hleads : fs.Leads dir d [])
    (hcopyable : ∀ winner ∈ winners, Copyable fs winner) (hsame : Besides d fs s.files)
    (hfiles : s.files.Holds d files) (h : (copyWinners winners dir).perform s = (.ok u, t)) :
    Besides d fs t.files ∧ t.files.Holds d (overwrite fs winners files) := by
  induction winners generalizing s files with
  | nil =>
    cases h
    exact ⟨hsame, hfiles⟩
  | cons winner rest ih =>
    obtain ⟨u, mid, hcopy, hrest⟩ := Action.bind_eq_ok.1 h
    obtain ⟨hne, hnames, bytes, hread⟩ := hcopyable winner (List.mem_cons_self ..)
    have hkeeps := hempty.keeps_of_empty hsame hfiles.directory_self
    have hplace := (hleads.of_keeps_all hkeeps).ofNames hne hnames
    obtain ⟨hread', houtside⟩ := readBytes_of_empty hempty hsame hfiles.directory_self hread
    obtain ⟨k, hresolve, -⟩ := readBytes_eq_ok.1 hread'
    -- making directories on the way does not lead the source into the directory either
    have hnot : ∀ g l, AddsDirectories (OnTheWay d winner.1.dropLast) s.files g →
        g.resolve winner.2 = .ok (.present l) → d ++ winner.1 ≠ l := by
      rintro g l hadds hl rfl
      rw [resolve_of_keeps_all (hadds.keeps _) hresolve] at hl
      cases hl
      exact houtside _ hresolve (List.prefix_append ..)
    obtain ⟨-, hstep, g, bytes', hadds, hcopied, hholds⟩ :=
      copyInto_eq_ok hfiles hplace hne hnot hcopy
    have hgread := readBytes_of_keeps_all (hadds.keeps _) hread'
    obtain rfl : bytes' = bytes := Except.ok.inj (hcopied.symm.trans hgread)
    have hstart : overwrite fs (winner :: rest) files =
        overwrite fs rest (Function.update files winner.1 (some bytes')) := by
      rw [overwrite, List.foldl_cons, hread]
      rfl
    rw [hstart]
    exact ih (fun w hw => hcopyable w (List.mem_cons_of_mem _ hw)) (hsame.trans hstep) hholds hrest

/-- Files of one tree are all copied: what is there already is part of the tree. -/
theorem copyWinners_succeeds (htree : PrefixFree tree) (hempty : fs.Holds d fun _ => none)
    (hleads : fs.Leads dir d []) (hcopyable : ∀ winner ∈ winners, Copyable fs winner)
    (hwinners : ∀ winner ∈ winners, tree winner.1 = (fs.readBytes winner.2).toOption)
    (hsame : Besides d fs s.files) (hfiles : s.files.Holds d files)
    (hpart : ∀ names bytes, files names = some bytes → tree names = some bytes) :
    ∃ t, (copyWinners winners dir).perform s = (.ok (), t) := by
  induction winners generalizing s files with
  | nil => exact ⟨s, rfl⟩
  | cons winner rest ih =>
    obtain ⟨hne, hnames, bytes, hread⟩ := hcopyable winner (List.mem_cons_self ..)
    have htreeBytes : tree winner.1 = some bytes := by
      rw [hwinners winner (List.mem_cons_self ..), hread]
      rfl
    have hkeeps := hempty.keeps_of_empty hsame hfiles.directory_self
    obtain ⟨hread', -⟩ := readBytes_of_empty hempty hsame hfiles.directory_self hread
    obtain ⟨mid, hcopy⟩ := copyInto_succeeds_of_tree htree (hleads.of_keeps_all hkeeps) hfiles hpart
      hne hnames htreeBytes hread'
    -- one copy is what copies of one winner are
    have hone : (copyWinners [winner] dir).perform s = (.ok (), mid) :=
      Action.bind_eq_ok.2 ⟨(), mid, hcopy, rfl⟩
    obtain ⟨hsame', hfiles'⟩ := copyWinners_leaves hempty hleads
      (fun w hw => List.mem_singleton.1 hw ▸ ⟨hne, hnames, bytes, hread⟩) hsame hfiles hone
    have hpart' : ∀ names b, overwrite fs [winner] files names = some b → tree names = some b := by
      intro names b hb
      by_cases hplace : names = winner.1
      · rw [hplace] at hb ⊢
        rw [hwinners winner (List.mem_cons_self ..), ← hb]
        exact (overwrite_of_mem (List.mem_singleton_self _) (List.pairwise_singleton ..)).symm
      · rw [overwrite_of_not_mem] at hb
        · exact hpart names b hb
        · intro source hmem
          exact hplace (congrArg Prod.fst (List.mem_singleton.1 hmem))
    obtain ⟨t, hrest⟩ := ih (fun w hw => hcopyable w (List.mem_cons_of_mem _ hw))
      (fun w hw => hwinners w (List.mem_cons_of_mem _ hw)) hsame' hfiles' hpart'
    exact ⟨t, Action.bind_eq_ok.2 ⟨(), mid, hcopy, hrest⟩⟩

/-! ## Any order -/

theorem content_of_mem (h : order.Perm plan.winners.toList) {winner : List Text × Path}
    (hmem : winner ∈ order) : plan.content fs winner.1 = (fs.readBytes winner.2).toOption := by
  rw [← overwrite_perm h]
  exact overwrite_of_mem hmem (pairwise_of_perm h)

theorem prefixFree_content (hnested : ¬ Nested plan.winners.toList) :
    PrefixFree (plan.content fs) := by
  have hmem : ∀ place, plan.content fs place ≠ none →
      ∃ source, (place, source) ∈ plan.winners.toList := by
    intro place hplace
    by_contra hnone
    rw [not_exists] at hnone
    rw [← overwrite_perm (.refl _)] at hplace
    exact hplace (overwrite_of_not_mem hnone)
  intro names more hfile hmore
  by_contra hbelow
  obtain ⟨source, hsource⟩ := hmem _ hfile
  obtain ⟨source', hsource'⟩ := hmem _ hbelow
  refine hnested ⟨_, hsource', _, hsource, List.prefix_append .., ?_⟩
  intro heq
  exact hmore (List.self_eq_append_right.1 heq)

theorem not_prefixFree_content (hcopyable : ∀ winner ∈ plan.winners.toList, Copyable fs winner)
    (hnested : Nested plan.winners.toList) : ¬ PrefixFree (plan.content fs) := by
  obtain ⟨lower, hlower, upper, hupper, ⟨more, hmore⟩, hne⟩ := hnested
  have hsome : ∀ winner ∈ plan.winners.toList, plan.content fs winner.1 ≠ none := by
    intro winner hwinner
    obtain ⟨bytes, hread⟩ := (hcopyable winner hwinner).readable
    rw [content_of_mem (.refl _) hwinner, hread]
    simp [Except.toOption]
  intro hfree
  apply hsome lower hlower
  rw [← hmore]
  refine hfree _ more (hsome upper hupper) ?_
  rintro rfl
  exact hne (by rw [← hmore, List.append_nil])

/-- What a run of copies comes to, in terms of the plan alone. -/
theorem copyWinners_cases (hcopyable : ∀ winner ∈ plan.winners.toList, Copyable fs winner)
    (hresolve : fs.resolve dir = .ok (.present d)) (hempty : fs.Holds d fun _ => none)
    (horder : order.Perm plan.winners.toList) :
    (¬ Nested plan.winners.toList ∧ ∃ after, (copyWinners order dir).onFiles fs = (.ok (), after) ∧
        Besides d fs after ∧ after.Holds d (plan.content fs)) ∨
      (Nested plan.winners.toList ∧
        ∃ e after, (copyWinners order dir).onFiles fs = (.error e, after)) := by
  have hleads : fs.Leads dir d [] := .of_resolve hresolve hempty.directory_self
  have hcopyable' : ∀ winner ∈ order, Copyable fs winner := fun winner hwinner =>
    hcopyable winner (horder.mem_iff.1 hwinner)
  have hleaves : ∀ {t : BuildState}, (copyWinners order dir).perform ⟨fs, []⟩ = (.ok (), t) →
      Besides d fs t.files ∧ t.files.Holds d (plan.content fs) := by
    intro t h
    rw [← overwrite_perm horder]
    exact copyWinners_leaves hempty hleads hcopyable' (.refl d fs) hempty h
  by_cases hnested : Nested plan.winners.toList
  · refine .inr ⟨hnested, ?_⟩
    rw [Action.onFiles_eq_perform]
    cases h : (copyWinners order dir).perform ⟨fs, []⟩ with
    | mk result t =>
      cases result with
      | error e => exact ⟨e, t.files, rfl⟩
      | ok u => exact absurd (hleaves h).2.prefixFree (not_prefixFree_content hcopyable hnested)
  · refine .inl ⟨hnested, ?_⟩
    obtain ⟨t, h⟩ := copyWinners_succeeds (s := ⟨fs, []⟩) (prefixFree_content hnested) hempty hleads
      hcopyable' (fun winner hwinner => content_of_mem horder hwinner) (.refl d fs) hempty (by simp)
    exact ⟨t.files, by rw [Action.onFiles_eq_perform, h], hleaves h⟩

/-- Two orders of copying the winners of a plan into an empty directory both succeed and leave the
same file system, the merged tree in the directory and all else as it was; or both of them fail, and
that exactly where places are nested. -/
theorem copyWinners_perm (hcopyable : ∀ winner ∈ plan.winners.toList, Copyable fs winner)
    (hresolve : fs.resolve dir = .ok (.present d)) (hempty : fs.Holds d fun _ => none)
    (horder : order.Perm plan.winners.toList) (horder' : order'.Perm plan.winners.toList) :
    (¬ Nested plan.winners.toList ∧ ∃ after, (copyWinners order dir).onFiles fs = (.ok (), after) ∧
        (copyWinners order' dir).onFiles fs = (.ok (), after) ∧
        Besides d fs after ∧ after.Holds d (plan.content fs)) ∨
      (Nested plan.winners.toList ∧
        (∃ e after, (copyWinners order dir).onFiles fs = (.error e, after)) ∧
        ∃ e after, (copyWinners order' dir).onFiles fs = (.error e, after)) := by
  obtain ⟨hnested, after, hrun, hsame, hholds⟩ | ⟨hnested, hrun⟩ :=
    copyWinners_cases hcopyable hresolve hempty horder
  · obtain ⟨-, after', hrun', hsame', hholds'⟩ | ⟨hnested', -⟩ :=
      copyWinners_cases hcopyable hresolve hempty horder'
    · obtain rfl := hholds.eq_of_besides hholds' hsame hsame'
      exact .inl ⟨hnested, after, hrun, hrun', hsame, hholds⟩
    · exact absurd hnested' hnested
  · obtain ⟨hnested', -⟩ | ⟨-, hrun'⟩ := copyWinners_cases hcopyable hresolve hempty horder'
    · exact absurd hnested hnested'
    · exact .inr ⟨hnested, hrun, hrun'⟩

def sharedSources : FileSystem :=
  (((((FileSystem.empty.place ["a"] .directory).place ["a", "raw"] .directory).place
    ["a", "raw", "x"] (.file (Text.toUtf8 "first"))).place ["b"] .directory).place
    ["b", "raw"] .directory).place ["b", "raw", "y"] (.file (Text.toUtf8 "second"))

def sharedFiles : FileSystem :=
  sharedSources.place ["staging"] .directory

/-- Winners whose places lie in one directory. -/
def sharedPlan : MergePlan where
  winners := .ofList [(["res", "raw", "x"], "a/raw/x"), (["res", "raw", "y"], "b/raw/y")]

/-- Either winner may be the one for which the directory is made. -/
theorem copyWinners_perm_shared :
    ∃ after, (copyWinners sharedPlan.winners.toList "staging").onFiles sharedFiles =
        (.ok (), after) ∧
      (copyWinners sharedPlan.winners.toList.reverse "staging").onFiles sharedFiles =
        (.ok (), after) ∧
      after.get? ["staging", "res", "raw", "y"] = some (.file (Text.toUtf8 "second")) := by
  have hwinners : sharedPlan.winners.toList =
      [((["res", "raw", "x"] : List Text), ("a/raw/x" : Path)), (["res", "raw", "y"], "b/raw/y")] := by
    decide +kernel
  have hcopyable : ∀ winner ∈ sharedPlan.winners.toList, Copyable sharedFiles winner := by
    intro winner hwinner
    rw [hwinners] at hwinner
    simp only [List.mem_cons, List.not_mem_nil, or_false] at hwinner
    obtain rfl | rfl := hwinner
    · exact ⟨by decide, by decide, Text.toUtf8 "first", by decide +kernel⟩
    · exact ⟨by decide, by decide, Text.toUtf8 "second", by decide +kernel⟩
  have hresolve : sharedFiles.resolve "staging" = .ok (.present ["staging"]) := by decide +kernel
  have hempty : sharedFiles.Holds ["staging"] fun _ => none :=
    .of_place (by decide +kernel) (by decide +kernel)
  obtain ⟨-, after, hrun, hrun', -, hholds⟩ | ⟨hnested, -⟩ :=
    copyWinners_perm hcopyable hresolve hempty (.refl _) (List.reverse_perm _)
  · exact ⟨after, hrun, hrun', (hholds.file ["res", "raw", "y"] _).2 (by decide +kernel)⟩
  · exact absurd hnested (by decide +kernel)

/-- Which fault is reported depends on the winner that comes first. -/
example :
    ((copyWinners [(["res", "x"], "a/raw/x"), (["res", "x", "y"], "b/raw/y")] "staging").onFiles
        sharedFiles).1 = .error (.io "staging/res/x" .alreadyExists) ∧
      ((copyWinners [(["res", "x", "y"], "b/raw/y"), (["res", "x"], "a/raw/x")] "staging").onFiles
        sharedFiles).1 = .error (.io "a/raw/x" .isADirectory) := by
  decide +kernel

end ResourceMerge

end AndroidResources
