import AndroidResources.Proofs.Merge.Manifest
import AndroidResources.Proofs.Merge.Stages

/-!
# What a merge leaves

* `Published`, `Placed` : the staged output and the staged manifest have been put in place;
* `merged_within`, `merged_beside` : the stages of a merge together, with a manifest below the output
  or elsewhere;
* `Merged` : the files at the output, the manifest, and everything else;
* `run_merged` : a merge that succeeds leaves this.
-/

namespace AndroidResources.ResourceMerge

open FileSystem

variable {m : ResourceMerge} {output : Path} {manifest? : Option Path} {plan : MergePlan}
  {fs removed made staged s s' : FileSystem} {l : Location} {names : List Text} {name last : Text}
  {files : List Text → Option ByteArray}

/-! ## Without the old output -/

theorem withoutOutput_besides (hdirect : fs.Direct output)
    (hnames : Path.properNames output.segments ≠ [])
    (hremove : fs.pathExists output = true →
      fs.removeTree output = (withoutOutput fs output, none)) :
    Besides (fs.spelled output) fs (withoutOutput fs output) ∧
      ∀ k e, (withoutOutput fs output).get? k = some e → fs.get? k = some e := by
  by_cases hexists : fs.pathExists output = true
  · obtain ⟨horigin, hget⟩ := removeTree_direct hdirect hnames (hremove hexists)
    refine ⟨⟨horigin, fun k hk => by rw [hget, if_neg hk]⟩, fun k e he => ?_⟩
    rw [hget] at he
    split at he
    · cases he
    · exact he
  · have hsame : withoutOutput fs output = fs := if_neg hexists
    rw [hsame]
    exact ⟨.refl _ fs, fun _ _ he => he⟩

theorem get?_of_emptied {base : Location} (hsame : Besides base fs removed)
    (hempty : ∀ rest, removed.get? (base ++ rest) = none) (k : Location) :
    removed.get? k = if base <+: k then none else fs.get? k := by
  split
  · next hp =>
    obtain ⟨rest, rfl⟩ := hp
    exact hempty rest
  · next hp => exact hsame.entries k hp

/-- Where a directory can be moved to the output, nothing has been since the old one was removed. -/
theorem get?_of_gone (hdirect : removed.Direct output) (htext : output.text ≠ [])
    (hgone : removed.pathExists output = false)
    (hyields : s.Yields .directory (removed.spelled output))
    (hsame : s.get? (removed.spelled output) = removed.get? (removed.spelled output)) (rest : List Text) :
    removed.get? (removed.spelled output ++ rest) = none := by
  have hself : removed.get? (removed.spelled output) = none := by
    cases he : removed.get? (removed.spelled output) with
    | none => rfl
    | some e =>
      rw [he] at hsame
      obtain rfl := hyields.get?_self hsame
      have hleads := Leads.of_spelled htext hdirect.noParent he
      have hexists : removed.pathExists output = true := pathExists_iff.2
        ⟨_, hleads.resolve_present (.inl rfl) (.inl rfl) (by rw [List.append_nil]; exact he)⟩
      rw [hgone] at hexists
      cases hexists
  exact get?_append_of_none hself rest

theorem text_ne_nil {p : Path} (h : Path.properNames p.segments = names ++ [last]) : p.text ≠ [] := by
  intro htext
  rw [(Path.text_eq_nil_iff p).1 htext] at h
  cases names <;> cases h

/-! ## Publishing -/

/-- What has been staged at `l` and `name` stands at the output, and all else is as before. -/
structure Published (S : Text → Prop) (output : Path) (files : List Text → Option ByteArray)
    (s s' : FileSystem) (l : Location) (name : Text) : Prop where
  origin : s'.workingDirectory = s.workingDirectory
  yields : s.Yields .directory (s.spelled output)
  keeps : Keeps S s s'
  holds : s'.Holds (s.spelled output) files
  left : ∀ k, l ++ [name] <+: k → s'.get? k = none
  elsewhere : ∀ k, ¬ s.spelled output <+: k → ¬ l ++ [name] <+: k → s'.get? k = s.get? k

theorem published_of_rename {S : Text → Prop}
    (htemp : Temporary S s (stagingParent output) l name) (hfiles : s.Holds (l ++ [name]) files)
    (hdirect : s.Direct output) (hspelled : ∀ segment ∈ output.segments, S segment)
    (hrename : s.rename ((stagingParent output).join ⟨name⟩) output = .ok s') :
    Published S output files s s' l name := by
  obtain ⟨place, hplace, -, -, hmove, hyields, rfl⟩ :=
    htemp.rename hfiles.directory_self hspelled hrename
  have hlocation := hdirect.location (.inr rfl) hplace
  rw [hlocation] at hmove hyields ⊢
  obtain ⟨hlk, hkl⟩ := hmove.not_prefix
  refine ⟨workingDirectory_move .., hyields,
    keeps_move hmove htemp.not_spelled hfiles.directory_self hyields, hfiles.move hmove,
    fun k hk => ?_, fun k => (get?_move_cases hmove k).2.2⟩
  refine (get?_move_cases hmove k).2.1 (fun hk' => ?_) hk
  exact (List.prefix_or_prefix_of_prefix hk hk').elim hlk hkl

theorem Published.cleanUp {S : Text → Prop} (h : Published S output files s s' l name)
    (htemp : Temporary S s (stagingParent output) l name) :
    (s'.removeTree ((stagingParent output).join ⟨name⟩)).1 = s' :=
  (htemp.closed.leads h.keeps htemp.spelled htemp.leads).removeTree_child_of_none htemp.isName
    (h.left _ (List.prefix_refl _))

/-! ## Where temporary directories lie -/

/-- The temporary directory lies beside the output, and only directories above it are made. -/
theorem Staged.location (hstaged : m.Staged output manifest? plan removed made staged l name)
    (hdirect : removed.Direct output)
    (hnames : Path.properNames output.segments = names ++ [last]) :
    AddsDirectories (Above (removed.spelled output)) removed made ∧
      removed.spelled output = l ++ [last] := by
  have hadds := createDirectories_above hdirect
  rw [hstaged.createDirectories] at hadds
  have hleads := leads_of_createDirectories hdirect hnames hstaged.createDirectories
  obtain rfl := (hstaged.temporary.of_besides hstaged.besides.symm).leads.eq_of_nil hleads
  refine ⟨hadds, ?_⟩
  unfold spelled
  rw [hnames, List.append_assoc]

theorem Staged.get?_temporary (hstaged : m.Staged output manifest? plan removed made staged l name)
    {k : Location} (hk : l ++ [name] <+: k) : made.get? k = none := by
  cases he : made.get? k with
  | none => rfl
  | some e => exact absurd (hk.subset (by simp)) (hstaged.unused k e he)

theorem Staged.not_prefix (hstaged : m.Staged output manifest? plan removed made staged l name)
    {P : Location → Prop} (hadds : AddsDirectories P removed made) {p : Path}
    (hp : name ∉ p.segments) {k : Location} (hk : k <+: removed.spelled p) :
    ¬ l ++ [name] <+: k := by
  intro hbelow
  have hclosed := hstaged.temporary.closed.of_besides hstaged.besides.symm
    hstaged.temporary.not_spelled
  have hspelled := hclosed.spelled fun segment hsegment => ne_of_mem_of_not_mem hsegment hp
  rw [spelled_congr hadds.origin] at hspelled
  exact hspelled name ((hbelow.trans hk).subset (by simp)) rfl

/-! ## No manifest, or one below the output -/

/-- The output is published, and all that has been done besides is to make directories above it. -/
theorem merged_within (hstaged : m.Staged output manifest? plan removed made staged l name)
    (hdirect : removed.Direct output) (hnames : Path.properNames output.segments = names ++ [last])
    (hgone : removed.pathExists output = false) (hsame : Besides (l ++ [name]) made s)
    (hfiles : s.Holds (l ++ [name]) files)
    (hrename : s.rename ((stagingParent output).join ⟨name⟩) output = .ok s') :
    AddsDirectories (Above (removed.spelled output)) removed made ∧
      (∀ rest, removed.get? (removed.spelled output ++ rest) = none) ∧
      (s'.removeTree ((stagingParent output).join ⟨name⟩)).1 = s' ∧
      s'.Holds (removed.spelled output) files ∧
      ∀ k, ¬ removed.spelled output <+: k → s'.get? k = made.get? k := by
  obtain ⟨hadds, -⟩ := hstaged.location hdirect hnames
  have htemp := hstaged.temporary.of_besides (hstaged.besides.symm.trans hsame)
  have horigin : s.workingDirectory = removed.workingDirectory := hsame.origin.trans hadds.origin
  have hspelled : s.spelled output = removed.spelled output := spelled_congr horigin output
  have hunmentioned : name ∉ output.segments := hstaged.unmentioned output (m.output_mem_mentioned ..)
  have hdirect' : s.Direct output := (hdirect.of_adds hadds).of_besides hsame
    (hstaged.not_prefix hadds hunmentioned (by rw [spelled_congr hadds.origin]))
  have hpublished := published_of_rename htemp hfiles hdirect'
    (fun segment hsegment => ne_of_mem_of_not_mem hsegment hunmentioned) hrename
  have hself : s.get? (removed.spelled output) = removed.get? (removed.spelled output) := by
    rw [hsame.entries _ (hstaged.not_prefix hadds hunmentioned (List.prefix_refl _)),
      hadds.get?_of_not fun hk => hk.2 rfl]
  refine ⟨hadds, get?_of_gone hdirect (text_ne_nil hnames) hgone (hspelled ▸ hpublished.yields) hself,
    hpublished.cleanUp htemp, hspelled ▸ hpublished.holds, fun k hk => ?_⟩
  rw [← hspelled] at hk
  by_cases hp : l ++ [name] <+: k
  · rw [hpublished.left k hp, hstaged.get?_temporary hp]
  · rw [hpublished.elsewhere k hk hp, hsame.entries k hp]

/-! ## A manifest beside the output -/

section Beside

variable {manifest : Path} {above opened : FileSystem} {l' : Location} {name' : Text}

theorem Opened.get?_temporary (hopened : m.Opened output manifest staged above opened l name l' name')
    {k : Location} (hk : l' ++ [name'] <+: k) : above.get? k = none := by
  cases he : above.get? k with
  | none => rfl
  | some e => exact absurd (hk.subset (by simp)) (hopened.unused k e he)

theorem Opened.apart (hopened : m.Opened output manifest staged above opened l name l' name')
    (hdir : above.get? (l ++ [name]) = some .directory) :
    ¬ l ++ [name] <+: l' ++ [name'] ∧ ¬ l' ++ [name'] <+: l ++ [name] := by
  have hfresh : name' ∉ l ++ [name] := hopened.unused _ _ hdir
  refine ⟨fun hp => ?_, fun hp => hfresh (hp.subset (by simp))⟩
  rcases List.mem_append.1 (hp.subset (by simp) : name ∈ l' ++ [name']) with hmem | hmem
  · exact (hopened.manifest.location name hmem).1 rfl
  · rw [List.mem_singleton.1 hmem] at hfresh
    exact hfresh (by simp)

theorem Opened.winners (hstaged : m.Staged output (some manifest) plan removed made staged l name)
    (hopened : m.Opened output manifest staged above opened l name l' name') :
    opened.Holds (l ++ [name]) (plan.content removed) := by
  have hmanifest : name ∉ (stagingParent manifest).segments := not_mem_segments_stagingParent
    hstaged.temporary.isName (hstaged.unmentioned manifest (manifest_mem_mentioned rfl))
  have hadds := createDirectories_closed hstaged.temporary.closed hstaged.temporary.isName.1.symm
    fun segment hsegment => ne_of_mem_of_not_mem hsegment hmanifest
  rw [hopened.createDirectories] at hadds
  obtain ⟨hapart, hapart'⟩ := hopened.apart (hadds.get?_of_some hstaged.holds.directory_self)
  refine hstaged.holds.of_get?_eq fun rest => ?_
  have hnot : ¬ l' ++ [name'] <+: l ++ [name] ++ rest := fun hp =>
    (List.prefix_or_prefix_of_prefix hp (List.prefix_append ..)).elim hapart' hapart
  rw [hopened.besides.entries _ hnot, hadds.get?_of_not fun hk => hk name (by simp) rfl]

/-- All that is spelled by other names than the fresh ones is there since the output was removed, or
is a directory made since. -/
theorem Opened.of_adds {P Q : Location → Prop}
    (hstaged : m.Staged output (some manifest) plan removed made staged l name)
    (hopened : m.Opened output manifest staged above opened l name l' name')
    (hadds : AddsDirectories P removed made) (hadds' : AddsDirectories Q staged above)
    (hsame : Besides (l' ++ [name']) opened s) {k : Location}
    (hk : ∀ n ∈ k, n ≠ name ∧ n ≠ name') {e : Entry} (he : e ≠ .directory)
    (hget : s.get? k = some e) : removed.get? k = some e := by
  have hnot : ¬ l ++ [name] <+: k := fun hp => (hk name (hp.subset (by simp))).1 rfl
  have hnot' : ¬ l' ++ [name'] <+: k := fun hp => (hk name' (hp.subset (by simp))).2 rfl
  rw [hsame.entries k hnot', hopened.besides.entries k hnot'] at hget
  replace hget := hadds'.get?_of_ne_directory hget he
  rw [hstaged.besides.entries k hnot] at hget
  exact hadds.get?_of_ne_directory hget he

theorem Opened.location {P : Location → Prop} {names' : List Text} {last' : Text}
    (hstaged : m.Staged output (some manifest) plan removed made staged l name)
    (hopened : m.Opened output manifest staged above opened l name l' name')
    (hadds : AddsDirectories P removed made) (hdirect : removed.Direct manifest)
    (hnames : Path.properNames manifest.segments = names' ++ [last']) :
    AddsDirectories (Above (removed.spelled manifest)) staged above ∧
      removed.spelled manifest = l' ++ [last'] := by
  have horigin : staged.workingDirectory = removed.workingDirectory :=
    hstaged.besides.origin.trans hadds.origin
  have hunmentioned : name ∉ manifest.segments :=
    hstaged.unmentioned manifest (manifest_mem_mentioned rfl)
  have hdirect' : staged.Direct manifest := (hdirect.of_adds hadds).of_besides hstaged.besides
    (hstaged.not_prefix hadds hunmentioned (by rw [spelled_congr hadds.origin]))
  have hadds' := createDirectories_above hdirect'
  rw [hopened.createDirectories] at hadds'
  have hleads := leads_of_createDirectories hdirect' hnames hopened.createDirectories
  obtain rfl := (hopened.manifest.of_besides hopened.besides.symm).leads.eq_of_nil hleads
  rw [← spelled_congr horigin]
  refine ⟨hadds', ?_⟩
  unfold spelled
  rw [hnames, List.append_assoc]

theorem Opened.segments (hstaged : m.Staged output (some manifest) plan removed made staged l name)
    (hopened : m.Opened output manifest staged above opened l name l' name') {p : Path}
    (hp : p ∈ m.mentioned output (some manifest)) :
    ∀ segment ∈ p.segments, segment ≠ name ∧ segment ≠ name' := fun _ hsegment =>
  ⟨ne_of_mem_of_not_mem hsegment (hstaged.unmentioned p hp),
    ne_of_mem_of_not_mem hsegment (hopened.unmentioned p hp)⟩

theorem Opened.origin (hstaged : m.Staged output (some manifest) plan removed made staged l name)
    (hopened : m.Opened output manifest staged above opened l name l' name') :
    opened.workingDirectory = removed.workingDirectory :=
  hopened.besides.origin.trans ((createDirectories_adds hopened.createDirectories).origin.trans
    (hstaged.besides.origin.trans (createDirectories_adds hstaged.createDirectories).origin))

theorem Opened.spelled (hstaged : m.Staged output (some manifest) plan removed made staged l name)
    (hopened : m.Opened output manifest staged above opened l name l' name') {p : Path}
    (hp : p ∈ m.mentioned output (some manifest)) :
    ∀ n ∈ removed.spelled p, n ≠ name ∧ n ≠ name' := by
  rw [← spelled_congr (hopened.origin hstaged)]
  exact hopened.output.closed.spelled (hopened.segments hstaged hp)

/-- The staged manifest stands at its destination, its temporary directory is still there, and all
else is as before. -/
structure Placed (manifest : Path) (bytes : ByteArray) (s s' : FileSystem) (l' : Location)
    (name' : Text) : Prop where
  origin : s'.workingDirectory = s.workingDirectory
  noDirectory : s.get? (s.spelled manifest) ≠ some .directory
  file : s'.get? (s.spelled manifest) = some (.file bytes)
  temporary : s'.get? (l' ++ [name']) = some .directory
  elsewhere : ∀ k, k ≠ s.spelled manifest → ¬ l' ++ [name'] <+: k → s'.get? k = s.get? k

theorem placed_of_rename {parent : Path} {file : Text} {bytes : ByteArray}
    (hleads : s.Leads parent l' []) (hname' : IsName name')
    (hfiles : s.Holds (l' ++ [name']) (Function.update (fun _ => none) [file] (some bytes)))
    (hfile : IsName file) (hdirect : s.Direct manifest) (hfresh : name' ∉ s.spelled manifest)
    (hrename : s.rename ((parent.join ⟨name'⟩).join ⟨file⟩) manifest = .ok s') :
    namesEntry manifest = true ∧ Placed manifest bytes s s' l' name' := by
  have hbelow := (hleads.into hname' hfiles.directory_self).child hfile
  obtain ⟨k, place, e, hk, hplace, hentry, hget, hcases⟩ := rename_eq_ok hrename
  obtain rfl : k = l' ++ [name'] ++ [file] :=
    hbelow.location (hfiles.noLinks _) (.inr (by simp)) (.inr rfl) hk
  have hcontent := (hfiles.file [file] bytes).2 (Function.update_self ..)
  rw [hcontent] at hget
  cases hget
  have hlocation := hdirect.location (.inr rfl) hplace
  rw [hlocation] at hcases
  obtain ⟨heq, -⟩ | ⟨hmove, hyields, rfl⟩ := hcases
  · rw [heq] at hfresh
    exact absurd (by simp) hfresh
  · have hnot : s.get? (s.spelled manifest) ≠ some .directory := by
      unfold Yields at hyields
      rwa [if_neg (by simp)] at hyields
    refine ⟨hentry, workingDirectory_move .., hnot, ?_, ?_, fun k hne hk => ?_⟩
    · obtain ⟨rest, heq, hrest⟩ := (get?_move_cases hmove _).1 (List.prefix_refl _)
      rw [hrest, List.self_eq_append_right.1 heq, List.append_nil]
      exact hcontent
    · refine ((get?_move_cases hmove _).2.2 (fun hp => ?_) (fun hp => ?_)).trans
        hfiles.directory_self
      · exact hmove.not_prefix.2 (hp.trans (List.prefix_append ..))
      · simpa using hp.length_le
    · by_cases hp : s.spelled manifest <+: k
      · obtain ⟨rest, rfl, hrest⟩ := (get?_move_cases hmove k).1 hp
        have hnil : rest ≠ [] := fun hnil => hne (by rw [hnil, List.append_nil])
        rw [hrest, get?_append_eq_none hnot hnil,
          get?_append_eq_none (by rw [hcontent]; simp) hnil]
      · exact (get?_move_cases hmove k).2.2 hp fun hp' => hk ((List.prefix_append ..).trans hp')

/-- The output is published while the manifest waits in its own temporary directory. -/
theorem Opened.published {P : Location → Prop} {s₂ : FileSystem}
    (hstaged : m.Staged output (some manifest) plan removed made staged l name)
    (hopened : m.Opened output manifest staged above opened l name l' name')
    (hdirect : removed.Direct output) (hadds : AddsDirectories P removed made)
    (hadds' : AddsDirectories (Above (removed.spelled manifest)) staged above)
    (hsame : Besides (l' ++ [name']) opened s)
    (hrename : s.rename ((stagingParent output).join ⟨name⟩) output = .ok s₂) :
    Published (fun n => n ≠ name ∧ n ≠ name') output (plan.content removed) s s₂ l name := by
  have horigin := hopened.origin hstaged
  have houtput := m.output_mem_mentioned output (some manifest)
  have hmanifest : manifest ∈ m.mentioned output (some manifest) := manifest_mem_mentioned rfl
  have hdir : above.get? (l ++ [name]) = some .directory :=
    hadds'.get?_of_some hstaged.holds.directory_self
  obtain ⟨hapart, hapart'⟩ := hopened.apart hdir
  have hfiles : s.Holds (l ++ [name]) (plan.content removed) := by
    refine (hopened.winners hstaged).of_get?_eq fun rest => hsame.entries _ fun hp => ?_
    exact (List.prefix_or_prefix_of_prefix hp (List.prefix_append ..)).elim hapart' hapart
  have hdirect' : s.Direct output := by
    refine hdirect.of_links (hsame.origin.trans horigin) fun k target hk hget => ?_
    refine hopened.of_adds hstaged hadds hadds' hsame (fun n hn => ?_) (by simp) hget
    exact hopened.spelled hstaged houtput n (hk.subset hn)
  refine published_of_rename (hopened.output.of_apart hsame hopened.manifest.not_spelled) hfiles
    hdirect' (hopened.segments hstaged houtput) hrename

/-- The published output is not above the temporary directory of the manifest, which would have been
in the way. So at most the manifest itself is where the output is. -/
theorem Opened.not_above {P : Location → Prop} {names' : List Text} {last' : Text}
    {s₂ : FileSystem}
    (hstaged : m.Staged output (some manifest) plan removed made staged l name)
    (hopened : m.Opened output manifest staged above opened l name l' name')
    (hdirect : removed.Direct manifest) (hadds : AddsDirectories P removed made)
    (hnames : Path.properNames manifest.segments = names' ++ [last'])
    (hsame : Besides (l' ++ [name']) opened s) (hdir : s.get? (l' ++ [name']) = some .directory)
    (hpublished : Published (fun n => n ≠ name ∧ n ≠ name') output (plan.content removed) s s₂ l name) :
    ¬ removed.spelled output <+: l' ++ [name'] ∧
      (removed.spelled output <+: removed.spelled manifest →
        removed.spelled output = removed.spelled manifest) := by
  obtain ⟨-, hmanifest⟩ := hopened.location hstaged hadds hdirect hnames
  have hsOutput : s.spelled output = removed.spelled output :=
    spelled_congr (hsame.origin.trans (hopened.origin hstaged)) output
  have hspelled := hopened.spelled hstaged (m.output_mem_mentioned ..)
  have hnot : ¬ removed.spelled output <+: l' ++ [name'] := by
    rintro ⟨rest, hrest⟩
    obtain rfl | hnil := eq_or_ne rest []
    · rw [List.append_nil] at hrest
      exact (hspelled name' (by rw [hrest]; simp)).2 rfl
    · have hbelow := hpublished.yields.get?_below hnil
      rw [hsOutput, hrest, hdir] at hbelow
      cases hbelow
  refine ⟨hnot, fun hp => ?_⟩
  rw [hmanifest] at hp ⊢
  exact (List.prefix_concat_iff.1 hp).resolve_right fun hp' =>
    hnot (hp'.trans (List.prefix_append ..))

theorem Opened.direct {P : Location → Prop} {names' : List Text} {last' : Text} {s₂ : FileSystem}
    (hstaged : m.Staged output (some manifest) plan removed made staged l name)
    (hopened : m.Opened output manifest staged above opened l name l' name')
    (hdirect : removed.Direct manifest) (hadds : AddsDirectories P removed made)
    (hnames : Path.properNames manifest.segments = names' ++ [last'])
    (hsame : Besides (l' ++ [name']) opened s) (hdir : s.get? (l' ++ [name']) = some .directory)
    (hpublished : Published (fun n => n ≠ name ∧ n ≠ name') output (plan.content removed) s s₂ l name) :
    s₂.Direct manifest := by
  obtain ⟨hadds', -⟩ := hopened.location hstaged hadds hdirect hnames
  obtain ⟨-, hself⟩ := hopened.not_above hstaged hdirect hadds hnames hsame hdir hpublished
  have horigin := hsame.origin.trans (hopened.origin hstaged)
  have hsOutput : s.spelled output = removed.spelled output := spelled_congr horigin output
  have hspelled := hopened.spelled hstaged (manifest_mem_mentioned rfl)
  refine hdirect.of_links (hpublished.origin.trans horigin) fun k target hk hget => ?_
  by_cases hp : removed.spelled output <+: k
  · -- only the output itself is there, and that is a directory
    have heq := hself (hp.trans hk)
    have hk' : k = removed.spelled output := by
      rw [heq] at hp ⊢
      exact hk.eq_of_length_le hp.length_le
    rw [hk', ← hsOutput, hpublished.holds.directory_self] at hget
    cases hget
  · rw [hpublished.elsewhere k (hsOutput ▸ hp)
      fun hp' => (hspelled name (hk.subset (hp'.subset (by simp)))).1 rfl] at hget
    exact hopened.of_adds hstaged hadds hadds' hsame (fun n hn => hspelled n (hk.subset hn))
      (by simp) hget

theorem Opened.placed {P : Location → Prop} {names' : List Text} {last' : Text} {bytes : ByteArray}
    {s₂ s₃ : FileSystem}
    (hstaged : m.Staged output (some manifest) plan removed made staged l name)
    (hopened : m.Opened output manifest staged above opened l name l' name')
    (hdirect : removed.Direct manifest) (hadds : AddsDirectories P removed made)
    (hnames : Path.properNames manifest.segments = names' ++ [last'])
    (hsame : Besides (l' ++ [name']) opened s)
    (hfiles : s.Holds (l' ++ [name']) (Function.update (fun _ => none) [last'] (some bytes)))
    (hpublished : Published (fun n => n ≠ name ∧ n ≠ name') output (plan.content removed) s s₂ l name)
    (hrename : s₂.rename (((stagingParent manifest).join ⟨name'⟩).join ⟨last'⟩) manifest = .ok s₃) :
    Placed manifest bytes s₂ s₃ l' name' ∧ ¬ removed.spelled output <+: l' ++ [name'] ∧
      ¬ removed.spelled output <+: removed.spelled manifest := by
  obtain ⟨hnot, hself⟩ :=
    hopened.not_above hstaged hdirect hadds hnames hsame hfiles.directory_self hpublished
  obtain ⟨hadds', -⟩ := hopened.location hstaged hadds hdirect hnames
  have horigin := hsame.origin.trans (hopened.origin hstaged)
  have hsOutput : s.spelled output = removed.spelled output := spelled_congr horigin output
  have hsManifest : s₂.spelled manifest = removed.spelled manifest :=
    spelled_congr (hpublished.origin.trans horigin) manifest
  have hspelled := hopened.spelled hstaged (m.output_mem_mentioned ..)
  have hspelled' := hopened.spelled hstaged (manifest_mem_mentioned rfl)
  have hnot' : ¬ l' ++ [name'] <+: removed.spelled output := fun hp =>
    (hspelled name' (hp.subset (by simp))).2 rfl
  obtain ⟨hapart, hapart'⟩ := hopened.apart (hadds'.get?_of_some hstaged.holds.directory_self)
  have htemp := hopened.manifest.of_besides hsame
  have hfiles₂ : s₂.Holds (l' ++ [name']) (Function.update (fun _ => none) [last'] (some bytes)) := by
    refine hfiles.of_get?_eq fun rest => hpublished.elsewhere _ (fun hp => ?_) fun hp => ?_
    · rw [hsOutput] at hp
      exact (List.prefix_or_prefix_of_prefix hp (List.prefix_append ..)).elim hnot hnot'
    · exact (List.prefix_or_prefix_of_prefix hp (List.prefix_append ..)).elim hapart hapart'
  have hlast : IsName last' := Path.isName_of_mem_properNames
    (fun _ => Path.slash_not_mem_segment) hdirect.noParent (by rw [hnames]; simp)
  obtain ⟨-, hplaced⟩ := placed_of_rename
    (htemp.closed.leads hpublished.keeps htemp.spelled htemp.leads) htemp.isName hfiles₂ hlast
    (hopened.direct hstaged hdirect hadds hnames hsame hfiles.directory_self hpublished)
    (fun hmem => (hspelled' name' (hsManifest ▸ hmem)).2 rfl) hrename
  refine ⟨hplaced, hnot, fun hp => hplaced.noDirectory ?_⟩
  rw [hsManifest, ← hself hp, ← hsOutput]
  exact hpublished.holds.directory_self

/-- Both temporary directories go: that of the manifest is removed, that of the output has been
moved away. -/
theorem Placed.cleanUp {bytes : ByteArray} {s₂ s₃ : FileSystem} {names' : List Text} {last' : Text}
    (hplaced : Placed manifest bytes s₂ s₃ l' name')
    (hpublished : Published (fun n => n ≠ name ∧ n ≠ name') output files s s₂ l name)
    (htemp : Temporary (fun n => n ≠ name ∧ n ≠ name') s (stagingParent output) l name)
    (htemp' : Temporary (fun n => n ≠ name ∧ n ≠ name') s (stagingParent manifest) l' name')
    (hup : "..".toList ∉ output.segments) (hup' : "..".toList ∉ manifest.segments)
    (hnames : Path.properNames output.segments = names ++ [last])
    (hnames' : Path.properNames manifest.segments = names' ++ [last'])
    (houtput : s₃.spelled output = l ++ [last]) (hmanifest : s₃.spelled manifest = l' ++ [last'])
    (hne : l ++ [name] ≠ s₂.spelled manifest) (hapart : ¬ l' ++ [name'] <+: l ++ [name]) :
    ∃ after, (((s₃.removeTree ((stagingParent manifest).join ⟨name'⟩)).1).removeTree
        ((stagingParent output).join ⟨name⟩)).1 = after ∧
      Besides (l' ++ [name']) s₃ after ∧ ∀ k, l' ++ [name'] <+: k → after.get? k = none := by
  -- the directories above the two are still there
  have hkept : ∀ k, s₂.get? k = some .directory → (∀ n ∈ k, n ≠ name ∧ n ≠ name') →
      ¬ l' ++ [name'] <+: k ∧ s₃.get? k = some .directory := fun k hk hspelled => by
    have hnot : ¬ l' ++ [name'] <+: k := fun hp => (hspelled name' (hp.subset (by simp))).2 rfl
    refine ⟨hnot, ?_⟩
    rw [hplaced.elsewhere k (fun heq => hplaced.noDirectory (heq ▸ hk)) hnot, hk]
  obtain ⟨hnotLeft, hleft⟩ := hkept l
    (htemp.closed.leads hpublished.keeps htemp.spelled htemp.leads).2.2.1 htemp.location
  obtain ⟨hnotRight, hright⟩ := hkept l'
    (htemp'.closed.leads hpublished.keeps htemp'.spelled htemp'.leads).2.2.1 htemp'.location
  have hleads : s₃.Leads (stagingParent manifest) l' [] :=
    leads_stagingParent hup' hnames' hmanifest hright
  have hclear : (s₃.clear (l' ++ [name'])).Leads (stagingParent manifest) l' [] := by
    refine leads_stagingParent hup' hnames' hmanifest ?_
    rw [(Besides.clear s₃ (l' ++ [name'])).entries _ hnotRight, hright]
  obtain ⟨hsame, hgone⟩ := hleads.removeTree_child htemp'.isName hclear hplaced.temporary
  generalize (s₃.removeTree ((stagingParent manifest).join ⟨name'⟩)).1 = after at *
  have hleads' : after.Leads (stagingParent output) l [] := by
    refine leads_stagingParent hup hnames ((spelled_congr hsame.origin output).trans houtput) ?_
    rw [hsame.entries _ hnotLeft, hleft]
  have hnone : after.get? (l ++ [name]) = none := by
    rw [hsame.entries _ hapart, hplaced.elsewhere _ hne hapart, hpublished.left _ (List.prefix_refl _)]
  exact ⟨after, hleads'.removeTree_child_of_none htemp.isName hnone, hsame, hgone⟩

theorem Opened.get?_of_gone
    (hstaged : m.Staged output (some manifest) plan removed made staged l name)
    (hopened : m.Opened output manifest staged above opened l name l' name')
    (hdirect : removed.Direct output) (htext : output.text ≠ [])
    (hgone : removed.pathExists output = false)
    (hadds : AddsDirectories (Above (removed.spelled output)) removed made)
    (hadds' : AddsDirectories (Above (removed.spelled manifest)) staged above)
    (hsame : Besides (l' ++ [name']) opened s)
    (hyields : s.Yields .directory (removed.spelled output))
    (hnot : ¬ removed.spelled output <+: removed.spelled manifest) (rest : List Text) :
    removed.get? (removed.spelled output ++ rest) = none := by
  have hspelled := hopened.spelled hstaged (m.output_mem_mentioned ..)
  have hleft : ¬ l ++ [name] <+: removed.spelled output := fun hp =>
    (hspelled name (hp.subset (by simp))).1 rfl
  have hright : ¬ l' ++ [name'] <+: removed.spelled output := fun hp =>
    (hspelled name' (hp.subset (by simp))).2 rfl
  refine ResourceMerge.get?_of_gone hdirect htext hgone hyields ?_ rest
  rw [hsame.entries _ hright, hopened.besides.entries _ hright,
    hadds'.get?_of_not fun hk => hnot hk.1, hstaged.besides.entries _ hleft,
    hadds.get?_of_not fun hk => hk.2 rfl]

/-- Away from the output and the manifest all is as it was, less the two temporary directories. -/
theorem Opened.get?_elsewhere {S : Text → Prop} {bytes : ByteArray} {s₂ s₃ after : FileSystem}
    (hopened : m.Opened output manifest staged above opened l name l' name')
    (hsame : Besides (l' ++ [name']) opened s)
    (hpublished : Published S output files s s₂ l name)
    (hplaced : Placed manifest bytes s₂ s₃ l' name') (hsame' : Besides (l' ++ [name']) s₃ after)
    (hgone : ∀ k, l' ++ [name'] <+: k → after.get? k = none) {k : Location}
    (hk : ¬ s.spelled output <+: k) (hne : k ≠ s₂.spelled manifest) :
    after.get? k = (above.removeAt (l ++ [name])).get? k := by
  rw [get?_removeAt_iff _ (by simp)]
  by_cases hright : l' ++ [name'] <+: k
  · rw [hgone k hright, hopened.get?_temporary hright, ite_self]
  · rw [hsame'.entries k hright, hplaced.elsewhere k hne hright]
    by_cases hleft : l ++ [name] <+: k
    · rw [if_pos hleft, hpublished.left k hleft]
    · rw [if_neg hleft, hpublished.elsewhere k hk hleft, hsame.entries k hright,
        hopened.besides.entries k hright]

/-- The output is published, the manifest put in place beside it, and all that has been done besides
is to make directories above the two. -/
theorem merged_beside {names' : List Text} {last' : Text} {bytes : ByteArray} {s₂ s₃ : FileSystem}
    (hstaged : m.Staged output (some manifest) plan removed made staged l name)
    (hopened : m.Opened output manifest staged above opened l name l' name')
    (hdirect : removed.Direct output) (hdirect' : removed.Direct manifest)
    (hnames : Path.properNames output.segments = names ++ [last])
    (hnames' : Path.properNames manifest.segments = names' ++ [last'])
    (hgone : removed.pathExists output = false) (hsame : Besides (l' ++ [name']) opened s)
    (hfiles : s.Holds (l' ++ [name']) (Function.update (fun _ => none) [last'] (some bytes)))
    (hrename : s.rename ((stagingParent output).join ⟨name⟩) output = .ok s₂)
    (hrename' : s₂.rename (((stagingParent manifest).join ⟨name'⟩).join ⟨last'⟩) manifest = .ok s₃) :
    AddsDirectories (fun k => Above (removed.spelled output) k ∨ Above (removed.spelled manifest) k)
        removed (above.removeAt (l ++ [name])) ∧
      (∀ rest, removed.get? (removed.spelled output ++ rest) = none) ∧
      ¬ removed.spelled output <+: removed.spelled manifest ∧
      ∃ after, (((s₃.removeTree ((stagingParent manifest).join ⟨name'⟩)).1).removeTree
          ((stagingParent output).join ⟨name⟩)).1 = after ∧
        after.Holds (removed.spelled output) (plan.content removed) ∧
        after.get? (removed.spelled manifest) = some (.file bytes) ∧
        ∀ k, ¬ removed.spelled output <+: k → k ≠ removed.spelled manifest →
          after.get? k = (above.removeAt (l ++ [name])).get? k := by
  obtain ⟨hadds, houtput⟩ := hstaged.location hdirect hnames
  obtain ⟨hadds', hmanifest⟩ := hopened.location hstaged hadds hdirect' hnames'
  have hpublished := hopened.published hstaged hdirect hadds hadds' hsame hrename
  obtain ⟨hplaced, hnotTemporary, hnot⟩ :=
    hopened.placed hstaged hdirect' hadds hnames' hsame hfiles hpublished hrename'
  have horigin := hopened.origin hstaged
  have horigin₂ : s₂.workingDirectory = removed.workingDirectory :=
    hpublished.origin.trans (hsame.origin.trans horigin)
  have horigin₃ := hplaced.origin.trans horigin₂
  have hsOutput : s.spelled output = removed.spelled output :=
    spelled_congr (hsame.origin.trans horigin) output
  have hsManifest : s₂.spelled manifest = removed.spelled manifest := spelled_congr horigin₂ manifest
  have hspelled := hopened.spelled hstaged (m.output_mem_mentioned ..)
  have hspelled' := hopened.spelled hstaged (manifest_mem_mentioned rfl)
  have hdir : above.get? (l ++ [name]) = some .directory :=
    hadds'.get?_of_some hstaged.holds.directory_self
  obtain ⟨hapart, hapart'⟩ := hopened.apart hdir
  have hl : ∀ {k}, (∀ n ∈ k, n ≠ name ∧ n ≠ name') → ¬ l' ++ [name'] <+: k :=
    fun hk hp => (hk name' (hp.subset (by simp))).2 rfl
  obtain ⟨after, hafter, hsame₄, hgone₄⟩ := hplaced.cleanUp hpublished
    (hopened.output.of_apart hsame hopened.manifest.not_spelled) (hopened.manifest.of_besides hsame)
    hdirect.noParent hdirect'.noParent hnames hnames' ((spelled_congr horigin₃ output).trans houtput)
    ((spelled_congr horigin₃ manifest).trans hmanifest)
    (fun heq => (hspelled' name (by rw [← hsManifest, ← heq]; simp)).1 rfl) hapart'
  refine ⟨?_, hopened.get?_of_gone hstaged hdirect (text_ne_nil hnames) hgone hadds hadds' hsame
    (hsOutput ▸ hpublished.yields) hnot, hnot, after, hafter, ?_, ?_, fun k hk hne => ?_⟩
  · exact (hadds.mono fun _ => .inl).removeAt hstaged.besides (hadds'.mono fun _ => .inr) (by simp)
      fun k => hstaged.get?_temporary
  · refine (hsOutput ▸ hpublished.holds).of_get?_eq fun rest => ?_
    have hrest : ¬ l' ++ [name'] <+: removed.spelled output ++ rest := fun hp =>
      (List.prefix_or_prefix_of_prefix hp (List.prefix_append ..)).elim (hl hspelled) hnotTemporary
    rw [hsame₄.entries _ hrest, hplaced.elsewhere _ (fun heq => ?_) hrest]
    exact hnot (by rw [← hsManifest, ← heq]; exact List.prefix_append ..)
  · rw [hsame₄.entries _ (hl hspelled'), ← hsManifest, hplaced.file]
  · exact hopened.get?_elsewhere hsame hpublished hplaced hsame₄ hgone₄ (hsOutput ▸ hk)
      (hsManifest ▸ hne)

end Beside

/-! ## The whole merge -/

structure Merged (m : ResourceMerge) (output : Path) (manifest? : Option Path) (plan : MergePlan)
    (fs removed made after : FileSystem) (files : List Text → Option ByteArray) : Prop where
  /-- The plan is made when nothing is left of the old output. -/
  make : MergePlan.make removed m.config m.sets = .ok plan
  gone : ∀ k, removed.get? k = if fs.spelled output <+: k then none else fs.get? k
  /-- Where they are missing, directories are made above the output and the manifest. -/
  adds : AddsDirectories (fun k => Above (fs.spelled output) k ∨
    ∃ manifest ∈ manifest?, Above (fs.spelled manifest) k) removed made
  /-- Each winner has been read, and is in its place unless the manifest stands there. -/
  sources : ∀ place source, plan.winners.get? place = some source →
    ∃ bytes, removed.readBytes source = .ok bytes
  winners : ∀ place, (∀ manifest ∈ manifest?, fs.spelled output ++ place ≠ fs.spelled manifest) →
    files place = plan.content removed place
  holds : after.Holds (fs.spelled output) files
  placed : ∀ manifest ∈ manifest?, ∃ main bytes, SourceSet.lastManifest? m.sets = some main ∧
    made.readBytes main = .ok bytes ∧ after.get? (fs.spelled manifest) = some (.file bytes)
  elsewhere : ∀ k, ¬ fs.spelled output <+: k → (∀ manifest ∈ manifest?, k ≠ fs.spelled manifest) →
    after.get? k = made.get? k

theorem mem_mentioned_of_manifest {set : SourceSet} {p : Path} (hset : set ∈ m.sets)
    (hp : p ∈ set.manifest?) : p ∈ m.mentioned output manifest? :=
  List.mem_append_right _ (List.mem_flatMap.2 ⟨set, hset, by simp_all⟩)

theorem lastManifest_mem_mentioned {main : Path} (h : SourceSet.lastManifest? m.sets = some main) :
    main ∈ m.mentioned output manifest? := by
  obtain ⟨set, hset, hmain⟩ := List.mem_filterMap.1 (List.mem_of_getLast? h)
  exact mem_mentioned_of_manifest hset hmain

/-- What is published below the output counts as merged once its places are known. -/
theorem merged_of_within (hstaged : m.Staged output manifest? plan removed made staged l name)
    (hremoved : Besides (fs.spelled output) fs removed) (hdirect : removed.Direct output)
    (hnames : Path.properNames output.segments = names ++ [last])
    (hgone : removed.pathExists output = false) (hsame : Besides (l ++ [name]) made s)
    (hfiles : s.Holds (l ++ [name]) files)
    (hrename : s.rename ((stagingParent output).join ⟨name⟩) output = .ok s')
    (hwinners : ∀ place,
      (∀ manifest ∈ manifest?, fs.spelled output ++ place ≠ fs.spelled manifest) →
        files place = plan.content removed place)
    (hmanifest : ∀ manifest ∈ manifest?, ∃ main bytes rest,
      SourceSet.lastManifest? m.sets = some main ∧ made.readBytes main = .ok bytes ∧
        fs.spelled manifest = fs.spelled output ++ rest ∧ files rest = some bytes) :
    m.Merged output manifest? plan fs removed made
      (s'.removeTree ((stagingParent output).join ⟨name⟩)).1 files := by
  obtain ⟨hadds, hnothing, hsame', hholds, helsewhere⟩ :=
    merged_within hstaged hdirect hnames hgone hsame hfiles hrename
  have hspelled : removed.spelled output = fs.spelled output :=
    spelled_congr hremoved.origin output
  rw [hspelled] at hadds hnothing hholds helsewhere
  rw [hsame']
  refine ⟨hstaged.make, get?_of_emptied hremoved hnothing, hadds.mono fun k => .inl,
    fun place source hget => (MergePlan.found_of_make hstaged.make hget).readBytes, hwinners, hholds,
    fun manifest hmem => ?_, fun k hk _ => helsewhere k hk⟩
  obtain ⟨main, bytes, rest, hlast, hread, heq, hrest⟩ := hmanifest manifest hmem
  refine ⟨main, bytes, hlast, hread, ?_⟩
  rw [heq]
  exact (hholds.file rest bytes).2 hrest

theorem merged_none {calls : List ManifestCall} {staging : Path} {t : BuildState}
    (hstaged : m.Staged output none plan removed made staged l name)
    (hstaging : staging = (stagingParent output).join ⟨name⟩)
    (hremoved : Besides (fs.spelled output) fs removed) (hdirect : removed.Direct output)
    (hnames : Path.properNames output.segments = names ++ [last])
    (hgone : removed.pathExists output = false)
    (h : (m.stageManifest output staging none (move staging output) move).perform
      ⟨staged, calls⟩ = (.ok (), t)) :
    m.Merged output none plan fs removed made (t.files.removeTree staging).1
      (plan.content removed) := by
  replace h : (move staging output).perform ⟨staged, calls⟩ = (.ok (), t) := h
  obtain ⟨after, hrename, rfl⟩ := Action.change_eq_ok.1 h
  subst hstaging
  exact merged_of_within hstaged hremoved hdirect hnames hgone hstaged.besides hstaged.holds hrename
    (fun _ _ => rfl) (by simp)

/-- A manifest below the output becomes one of the staged files. -/
theorem merged_below {calls : List ManifestCall} {manifest staging : Path}
    {steps : List Path.Component} {t : BuildState} (hmerger : m.merger = .lastDeclared)
    (hstaged : m.Staged output (some manifest) plan removed made staged l name)
    (hstaging : staging = (stagingParent output).join ⟨name⟩)
    (hremoved : Besides (fs.spelled output) fs removed) (hdirect : removed.Direct output)
    (hdirect' : removed.Direct manifest)
    (hnames : Path.properNames output.segments = names ++ [last])
    (hgone : removed.pathExists output = false)
    (hstrip : Path.stripBase? output manifest = some steps)
    (h : (m.stageManifest output staging (some manifest) (move staging output) move).perform
      ⟨staged, calls⟩ = (.ok (), t)) :
    ∃ files, m.Merged output (some manifest) plan fs removed made (t.files.removeTree staging).1
      files := by
  subst hstaging
  unfold stageManifest at h
  simp only [hstrip, hmerger] at h
  obtain ⟨u, s, hmerge, hpublish⟩ := Action.bind_eq_ok.1 h
  obtain ⟨after, hrename, rfl⟩ := Action.change_eq_ok.1 hpublish
  obtain ⟨rest, hsteps, hisName, hspelled⟩ :=
    exists_of_stripBase? hdirect hdirect' (by rw [hnames]; simp) hstrip
  rw [hsteps] at hmerge
  rw [spelled_congr hremoved.origin, spelled_congr hremoved.origin] at hspelled
  have hne : rest ≠ [] := by
    rintro rfl
    have hslash := endsInSlash_of_mergeManifests hmerge
    have htext := (hstaged.temporary.leads.child hstaged.temporary.isName).1
    replace hslash : (((stagingParent output).join ⟨name⟩).join ⟨[]⟩).endsInSlash = false := hslash
    rw [Path.endsInSlash_join_empty htext] at hslash
    cases hslash
  have htarget := hstaged.temporary.leads_ofNames hstaged.holds.directory_self hne hisName
  have hsources : ∀ set ∈ m.sets, ∀ p ∈ set.manifest?, ∀ segment ∈ p.segments, segment ≠ name :=
    fun set hset p hp segment hsegment => ne_of_mem_of_not_mem hsegment
      (hstaged.unmentioned p (mem_mentioned_of_manifest hset hp))
  obtain ⟨hsame, main, bytes, hlast, hread, hholds⟩ := mergeManifests_holds
    (s := ⟨staged, calls⟩) hstaged.holds hstaged.temporary.closed hstaged.temporary.not_spelled
    hsources htarget hne hmerge
  have hmain : ∀ segment ∈ main.segments, segment ≠ name := fun segment hsegment =>
    ne_of_mem_of_not_mem hsegment (hstaged.unmentioned main (lastManifest_mem_mentioned hlast))
  have hread' : made.readBytes main = .ok bytes := hstaged.temporary.closed.readBytes
    (hstaged.besides.symm.keeps hstaged.temporary.not_spelled) hmain hread
  refine ⟨_, merged_of_within hstaged hremoved hdirect hnames hgone (hstaged.besides.trans hsame)
    hholds hrename (fun place hplace => ?_) ?_⟩
  · refine Function.update_of_ne ?_ ..
    rintro rfl
    exact hplace manifest rfl hspelled.symm
  · rintro manifest' hmem
    obtain rfl := Option.some.inj hmem
    exact ⟨main, bytes, rest, hlast, hread', hspelled, Function.update_self ..⟩

/-- A manifest elsewhere is put in place after the output. -/
theorem merged_apart {calls : List ManifestCall} {manifest staging : Path} {t : BuildState}
    (hmerger : m.merger = .lastDeclared)
    (hstaged : m.Staged output (some manifest) plan removed made staged l name)
    (hstaging : staging = (stagingParent output).join ⟨name⟩)
    (hremoved : Besides (fs.spelled output) fs removed) (hdirect : removed.Direct output)
    (hdirect' : removed.Direct manifest)
    (hnames : Path.properNames output.segments = names ++ [last])
    (hgone : removed.pathExists output = false)
    (hstrip : Path.stripBase? output manifest = none)
    (h : (m.stageManifest output staging (some manifest) (move staging output) move).perform
      ⟨staged, calls⟩ = (.ok (), t)) :
    ∃ made', m.Merged output (some manifest) plan fs removed made' (t.files.removeTree staging).1
      (plan.content removed) := by
  obtain ⟨above, opened, l', name', s₁, s₂, s₃, hopened, hmerge, hpublish, hplace, rfl⟩ :=
    stageManifest_beside hstaged hstrip h
  subst hstaging
  rw [hmerger] at hmerge
  obtain ⟨f₂, hrename, rfl⟩ := Action.change_eq_ok.1 hpublish
  obtain ⟨f₃, hrename', rfl⟩ := Action.change_eq_ok.1 hplace
  obtain ⟨-, -, -, -, -, hentry, -⟩ := rename_eq_ok hrename'
  obtain ⟨names', last', hnames'⟩ := exists_names_of_namesEntry hentry
  have hfile : manifest.fileName?.getD defaultManifestName = last' := by
    rw [Path.fileName?_eq hdirect'.noParent, hnames', List.getLast?_concat]
    rfl
  have htarget := hopened.leads
  unfold stagedManifest at hmerge hrename' htarget
  rw [hfile] at hmerge hrename' htarget
  have hsources : ∀ set ∈ m.sets, ∀ p ∈ set.manifest?, ∀ segment ∈ p.segments,
      segment ≠ name ∧ segment ≠ name' := fun set hset p hp =>
    hopened.segments hstaged (mem_mentioned_of_manifest hset hp)
  obtain ⟨hsame, main, bytes, hlast, hread, hholds⟩ := mergeManifests_holds
    (s := ⟨opened, calls⟩) hopened.holds hopened.manifest.closed hopened.manifest.not_spelled
    hsources htarget (by simp) hmerge
  have hmain := hopened.segments hstaged (lastManifest_mem_mentioned hlast)
  obtain ⟨hadds, hnothing, hnot, after, hafter, hfiles, hbytes, helsewhere⟩ :=
    merged_beside hstaged hopened hdirect hdirect' hnames hnames' hgone hsame hholds hrename hrename'
  have hspelled : removed.spelled output = fs.spelled output :=
    spelled_congr hremoved.origin output
  have hspelled' : removed.spelled manifest = fs.spelled manifest :=
    spelled_congr hremoved.origin manifest
  rw [hspelled] at hadds hnothing hnot hfiles helsewhere
  rw [hspelled'] at hadds hnot hbytes helsewhere
  refine ⟨above.removeAt (l ++ [name]), ?_⟩
  simp only
  rw [hafter]
  refine ⟨hstaged.make, get?_of_emptied hremoved hnothing,
    hadds.mono fun k => .imp_right fun hk => ⟨manifest, rfl, hk⟩,
    fun place source hget => (MergePlan.found_of_make hstaged.make hget).readBytes, fun _ _ => rfl,
    hfiles, ?_, fun k hk hne => helsewhere k hk (hne manifest rfl)⟩
  rintro manifest' hmem
  obtain rfl := Option.some.inj hmem
  refine ⟨main, bytes, hlast, hopened.manifest.closed.readBytes ?_ hmain hread, hbytes⟩
  exact (hopened.besides.symm.keeps hopened.manifest.not_spelled).trans
    ((Besides.removeAt above (by simp)).keeps hopened.output.not_spelled)

/-- A merge that succeeds leaves the winners and the manifest at their places, nothing else at the
output, and everything else as it was but for directories above the two. -/
theorem run_merged {after : FileSystem} {report : MergeReport} (hmerger : m.merger = .lastDeclared)
    (hname : output.fileName?.isSome = true) (hdirect : fs.Direct output)
    (hdirect' : ∀ manifest ∈ manifest?, fs.Direct manifest)
    (h : (m.run (some output) manifest?).onFiles fs = (.ok report, after)) :
    ∃ plan made files, report.written = plan.winners.size ∧
      m.Merged output manifest? plan fs (withoutOutput fs output) made after files := by
  obtain ⟨calls, hperform⟩ := Action.onFiles_eq h
  rw [run_eq_runWith] at hperform
  obtain ⟨hgone, hremove, hrebuild⟩ := runWith_eq_ok hperform
  obtain ⟨plan, made, staged, l, name, t, hstaged, rfl, hstage, hafter⟩ := rebuild_eq_ok hrebuild
  obtain rfl : after = _ := congrArg BuildState.files hafter
  obtain ⟨names, last, hnames⟩ : ∃ names last, Path.properNames output.segments = names ++ [last] := by
    have hne : Path.properNames output.segments ≠ [] := fun hnil => by
      rw [Path.fileName?_eq hdirect.noParent, hnil] at hname
      cases hname
    exact ⟨_, _, (List.dropLast_concat_getLast hne).symm⟩
  obtain ⟨hremoved, hsub⟩ := withoutOutput_besides hdirect (by rw [hnames]; simp) hremove
  have hdirect₁ : (withoutOutput fs output).Direct output :=
    hdirect.of_links hremoved.origin fun k target _ hget => hsub k _ hget
  cases manifest? with
  | none => exact ⟨plan, made, _, rfl, merged_none hstaged rfl hremoved hdirect₁ hnames hgone hstage⟩
  | some manifest =>
    have hdirect₂ : (withoutOutput fs output).Direct manifest :=
      (hdirect' manifest rfl).of_links hremoved.origin fun k target _ hget => hsub k _ hget
    cases hstrip : Path.stripBase? output manifest with
    | some steps =>
      obtain ⟨files, hmerged⟩ := merged_below hmerger hstaged rfl hremoved hdirect₁ hdirect₂ hnames
        hgone hstrip hstage
      exact ⟨plan, made, files, rfl, hmerged⟩
    | none =>
      obtain ⟨made', hmerged⟩ := merged_apart hmerger hstaged rfl hremoved hdirect₁ hdirect₂ hnames
        hgone hstrip hstage
      exact ⟨plan, made', _, rfl, hmerged⟩

/-- Two source sets with one file each for the same place, and an old output. -/
def variantFiles : FileSystem :=
  let directories : List Location := [["main"], ["main", "res"], ["main", "res", "values"], ["debug"],
    ["debug", "res"], ["debug", "res", "values"], ["out"]]
  let files : List (Location × Text) := [(["main", "res", "values", "a.xml"], "<main/>"),
    (["main", "M.xml"], "<manifest/>"), (["debug", "res", "values", "a.xml"], "<debug/>"),
    (["out", "old"], "")]
  files.foldl (fun fs file => fs.place file.1 (.file (Text.toUtf8 file.2)))
    (directories.foldl (fun fs l => fs.place l .directory) .empty)

def variantMerge : ResourceMerge :=
  ⟨.keepAll, .lastDeclared, .library, [⟨["main/res"], [], some "main/M.xml"⟩, ⟨["debug/res"], [], none⟩]⟩

/-- The old output is replaced, and the manifest is written where there has been no directory. -/
theorem run_merged_variants :
    ∃ after, (variantMerge.run (some "out") (some "gen/M.xml")).onFiles variantFiles =
        (.ok ⟨1, ["res/values/a.xml"]⟩, after) ∧
      ∃ plan made files, 1 = plan.winners.size ∧ variantMerge.Merged "out" (some "gen/M.xml") plan
        variantFiles (withoutOutput variantFiles "out") made after files := by
  have hrun : ((variantMerge.run (some "out") (some "gen/M.xml")).onFiles variantFiles).1.toOption =
      some ⟨1, ["res/values/a.xml"]⟩ := by
    decide +kernel
  generalize h : (variantMerge.run (some "out") (some "gen/M.xml")).onFiles variantFiles = outcome at *
  obtain ⟨_ | report, after⟩ := outcome
  · cases hrun
  · obtain rfl := Option.some.inj hrun
    exact ⟨after, rfl, run_merged rfl (by decide) (by decide +kernel) (by decide +kernel) h⟩

end AndroidResources.ResourceMerge
