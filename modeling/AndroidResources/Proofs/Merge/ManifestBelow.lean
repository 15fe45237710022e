import AndroidResources.Proofs.Merge.CopyOrder
import AndroidResources.Proofs.Merge.Outcome

/-!
# Manifests below the output

A manifest that is spelled with the steps of the output in front is staged among the winners. Any
other one is staged beside its destination, and for that the directories above it are made: below the
output this is the output itself, which is in the way when the staged tree is moved there.

* `FileSystem.Receives` : the last name of a path, where a directory can be moved to;
* `FileSystem.receives_of_rename`, `FileSystem.moved_in` : a staged tree that has been moved there;
* `exists_staged`, `Staged.exists_mergeManifests` : all winners and the manifest are staged;
* `receives_of_rebuild` : a merge without a manifest has found such a name, and no places nested;
* `rebuild_below` : then one with a manifest among the winners succeeds;
* `content_of_run_respelled` : with another spelling of its path it does not;
* `run_manifest_below` : both.
-/

namespace AndroidResources

namespace FileSystem

variable {fs fs' : FileSystem} {p : Path} {l : Location} {name last : Text}

/-- The path ends in the name of an entry, and in the directory that it leads to the name is free or
that of an empty directory. -/
structure Receives (fs : FileSystem) (p : Path) (l : Location) (last : Text) : Prop where
  leads : fs.Leads p l [last]
  named : namesEntry p = true
  yields : fs.Yields .directory (l ++ [last])

namespace Receives

theorem name_ne (h : fs.Receives p l last) (hname : name ∉ p.segments) : last ≠ name := fun heq =>
  hname (heq ▸ h.leads.mem_segments (List.mem_singleton_self last))

theorem of_besides (h : fs.Receives p l last) (hclosed : Closed (· ≠ name) fs)
    (hname : name ∉ p.segments) (hsame : Besides (l ++ [name]) fs fs') : fs'.Receives p l last := by
  refine ⟨hclosed.leads (hsame.keeps (by simp)) ?_ h.leads, h.named, ?_⟩
  · exact fun _ hsegment => ne_of_mem_of_not_mem hsegment hname
  · refine h.yields.of_get?_eq fun rest => hsame.entries _ fun hp => ?_
    rw [List.append_assoc, List.prefix_append_right_inj] at hp
    exact h.name_ne hname (List.cons_prefix_cons.1 hp).1.symm

theorem exists_rename (h : fs.Receives p l last) (hname : IsName name) (hne : last ≠ name)
    (hdir : fs.get? (l ++ [name]) = some .directory) :
    ∃ fs', fs.rename ((stagingParent p).join ⟨name⟩) p = .ok fs' := by
  obtain ⟨place, hplace, hlocation⟩ := h.leads.resolveEntry_last (endsInName_of_namesEntry h.named)
  have hstaged : fs.resolveEntry ((stagingParent p).join ⟨name⟩) = .ok (.present (l ++ [name])) :=
    (h.leads.stagingParent.child hname).resolve_present (.inr (by simp)) (.inr rfl) hdir
  refine exists_rename_of_yields hstaged hdir (namesEntry_child _ hname) hplace h.named ?_ ?_
    (hlocation ▸ h.yields)
  · rw [hlocation, List.prefix_append_right_inj]
    exact fun hp => hne (List.cons_prefix_cons.1 hp).1.symm
  · rw [hlocation, List.prefix_append_right_inj]
    exact fun hp => hne (List.cons_prefix_cons.1 hp).1

end Receives

theorem receives_of_rename (hname : IsName name) (hleads : fs.Leads (stagingParent p) l [])
    (hdir : fs.get? (l ++ [name]) = some .directory) (hmentioned : name ∉ p.segments)
    (h : fs.rename ((stagingParent p).join ⟨name⟩) p = .ok fs') :
    ∃ last, fs.Receives p l last ∧ fs.CanMove (l ++ [name]) (l ++ [last]) ∧
      fs' = fs.move (l ++ [name]) (l ++ [last]) := by
  obtain ⟨-, -, -, -, -, hnamed, -⟩ := rename_eq_ok h
  obtain ⟨dir, last, place, e, hlast, -, -, -, he, hcases⟩ := exists_leads_of_rename hname h
  obtain rfl : l = dir := hleads.eq_of_nil hlast.stagingParent
  rw [hdir] at he
  cases he
  obtain heq | ⟨hmove, hyields, rfl⟩ := hcases
  · obtain rfl : last = name := by simpa using heq
    exact absurd (hlast.mem_segments (List.mem_singleton_self last)) hmentioned
  · exact ⟨last, ⟨hlast, hnamed, hyields⟩, hmove, rfl⟩

/-- A staged tree that is moved to the name is found at the path, and nothing is left of it where it
was staged. -/
theorem moved_in {S : Text → Prop} {files : List Text → Option ByteArray}
    (htemp : Temporary S fs (stagingParent p) l name) (hfiles : fs.Holds (l ++ [name]) files)
    (hsegments : ∀ segment ∈ p.segments, S segment)
    (h : fs.rename ((stagingParent p).join ⟨name⟩) p = .ok fs') :
    ∃ last, fs'.resolve p = .ok (.present (l ++ [last])) ∧ fs'.Holds (l ++ [last]) files ∧
      (fs'.removeTree ((stagingParent p).join ⟨name⟩)).1 = fs' := by
  obtain ⟨last, hreceives, hmove, rfl⟩ := receives_of_rename htemp.isName htemp.leads
    hfiles.directory_self (fun hmem => htemp.hidden (hsegments name hmem)) h
  have hkeeps := keeps_move hmove htemp.not_spelled hfiles.directory_self hreceives.yields
  have hholds := hfiles.move hmove
  refine ⟨last, ?_, hholds, ?_⟩
  · exact (htemp.closed.leads hkeeps hsegments hreceives.leads).resolve_present (.inl rfl) (.inl rfl)
      hholds.directory_self
  · refine (htemp.closed.leads hkeeps htemp.spelled htemp.leads).removeTree_child_of_none
      htemp.isName ?_
    exact (get?_move_cases hmove _).2.1 hmove.not_prefix.2 (List.prefix_refl _)

end FileSystem

namespace ResourceMerge

open FileSystem

variable {m : ResourceMerge} {output manifest main : Path} {plan : MergePlan}
  {fs removed made : FileSystem} {l : Location} {names : List Text} {last : Text}
  {bytes : ByteArray} {report : MergeReport} {calls : List ManifestCall}

/-! ## The winners and the manifest -/

/-- Where no places are nested all winners are staged. A merge that goes on from there with success
has succeeded. -/
theorem exists_staged (hmake : MergePlan.make removed m.config m.sets = .ok plan)
    (hcreate : removed.createDirectories (stagingParent output) = (made, none))
    (hnested : ¬ Nested plan.winners.toList) (manifest? : Option Path) (calls : List ManifestCall) :
    ∃ staged l name, m.Staged output manifest? plan removed made staged l name ∧
      ∀ publish place t,
        (m.stageManifest output ((stagingParent output).join ⟨name⟩) manifest?
          (publish ((stagingParent output).join ⟨name⟩) output) place).perform ⟨staged, calls⟩ =
            (.ok (), t) →
        (m.rebuild output manifest? publish place).perform ⟨removed, calls⟩ =
          (.ok ⟨plan.winners.size, plan.overridden.keys.map .ofNames⟩,
            { t with files := (t.files.removeTree ((stagingParent output).join ⟨name⟩)).1 }) := by
  obtain ⟨opened, l, name, h, hperform⟩ := exists_prepared hmake hcreate manifest? calls
  have hkeeps := ((createDirectories_adds hcreate).keeps _).trans
    (h.besides.keeps_of_vacant h.vacant)
  obtain ⟨t, hcopy⟩ := copyWinners_succeeds (s := ⟨opened, calls⟩) (prefixFree_content hnested)
    h.holds (h.temporary.leads.into h.temporary.isName h.holds.directory_self)
    (copyable_of_keeps hmake hkeeps) (fun winner hmem => content_of_mem (.refl _) hmem)
    (.refl _ opened) h.holds (by simp)
  obtain ⟨rfl, hstaged⟩ := h.staged hcopy
  refine ⟨t.files, l, name, hstaged, fun publish place t' hstage => ?_⟩
  refine (hperform m.merger publish place).trans ?_
  refine Action.bind_eq_ok.2 ⟨(), _, Action.thenAlways_eq.2 ⟨t', ?_, rfl⟩, rfl⟩
  exact Action.bind_eq_ok.2 ⟨(), t, hcopy, hstage⟩

theorem Staged.exists_mergeManifests {manifest? : Option Path} {staged : FileSystem} {name : Text}
    (hstaged : m.Staged output manifest? plan removed made staged l name)
    (hlast : SourceSet.lastManifest? m.sets = some main) (hread : removed.readBytes main = .ok bytes)
    (hplaces : ∀ place, plan.content removed place ≠ none → ¬ place <+: names ∧ ¬ names <+: place)
    (hne : names ≠ []) (hnames : ∀ n ∈ names, IsName n) :
    ∃ t, (mergeManifests .lastDeclared m.kind m.sets
        (((stagingParent output).join ⟨name⟩).join (.ofNames names))).perform ⟨staged, calls⟩ =
          (.ok (), t) ∧
      Besides (l ++ [name]) staged t.files ∧
      t.files.Holds (l ++ [name]) (Function.update (plan.content removed) names (some bytes)) := by
  have htemp := hstaged.temporary
  have hsegments : ∀ segment ∈ main.segments, segment ≠ name := fun segment hsegment =>
    ne_of_mem_of_not_mem hsegment (hstaged.unmentioned main (lastManifest_mem_mentioned hlast))
  have hread' : staged.readBytes main = .ok bytes :=
    (htemp.closed.of_besides hstaged.besides.symm htemp.not_spelled).readBytes
      (hstaged.besides.keeps htemp.not_spelled) hsegments
      (readBytes_of_keeps_all ((createDirectories_adds hstaged.createDirectories).keeps _) hread)
  have hpart : ∀ place b, plan.content removed place = some b →
      Function.update (plan.content removed) names (some bytes) place = some b := by
    intro place b hb
    rwa [Function.update_of_ne]
    rintro rfl
    exact (hplaces place (by rw [hb]; exact Option.some_ne_none b)).1 (List.prefix_refl _)
  obtain ⟨t, hcopy⟩ := copyInto_succeeds_of_tree (s := ⟨staged, []⟩)
    (hstaged.holds.prefixFree.update hplaces (some bytes))
    (htemp.leads.into htemp.isName hstaged.holds.directory_self) hstaged.holds hpart hne hnames
    (Function.update_self ..) hread'
  obtain ⟨-, hsame, bytes', hbytes, hholds⟩ := copyInto_holds (s := ⟨staged, []⟩) hstaged.holds
    htemp.closed htemp.not_spelled hsegments
    (htemp.leads_ofNames hstaged.holds.directory_self hne hnames) hne hcopy
  obtain rfl : bytes = bytes' := Except.ok.inj (hread'.symm.trans hbytes)
  obtain ⟨calls', hmerge⟩ := exists_mergeManifests_of_copyInto (s := ⟨staged, calls⟩) hlast hcopy
  exact ⟨_, hmerge, hsame, hholds⟩

/-! ## Both runs -/

/-- A merge without a manifest that succeeds has found the output free, and no places nested. -/
theorem receives_of_rebuild {after : BuildState}
    (h : (m.rebuild output none move move).perform ⟨removed, calls⟩ = (.ok report, after)) :
    ∃ plan made l last, MergePlan.make removed m.config m.sets = .ok plan ∧
      removed.createDirectories (stagingParent output) = (made, none) ∧
      report = ⟨plan.winners.size, plan.overridden.keys.map .ofNames⟩ ∧
      ¬ Nested plan.winners.toList ∧ made.Receives output l last := by
  obtain ⟨plan, made, staged, l, name, t, hstaged, rfl, hstage, -⟩ := rebuild_eq_ok h
  have hunmentioned := hstaged.unmentioned output (m.output_mem_mentioned ..)
  replace hstage : (move ((stagingParent output).join ⟨name⟩) output).perform ⟨staged, calls⟩ =
    (.ok (), t) := hstage
  obtain ⟨after, hrename, -⟩ := Action.change_eq_ok.1 hstage
  obtain ⟨last, hreceives, -⟩ := receives_of_rename hstaged.temporary.isName hstaged.temporary.leads
    hstaged.holds.directory_self hunmentioned hrename
  refine ⟨plan, made, l, last, hstaged.make, hstaged.createDirectories, rfl, fun hnested => ?_,
    hreceives.of_besides hstaged.temporary.closed hunmentioned hstaged.besides.symm⟩
  exact not_prefixFree_content (copyable_of_keeps hstaged.make (.refl _ _)) hnested
    hstaged.holds.prefixFree

theorem rebuild_below (hmerger : m.merger = .lastDeclared)
    (hmake : MergePlan.make removed m.config m.sets = .ok plan)
    (hcreate : removed.createDirectories (stagingParent output) = (made, none))
    (hnested : ¬ Nested plan.winners.toList) (hreceives : made.Receives output l last)
    (hlast : SourceSet.lastManifest? m.sets = some main) (hread : removed.readBytes main = .ok bytes)
    (hplaces : ∀ place, plan.content removed place ≠ none → ¬ place <+: names ∧ ¬ names <+: place)
    (hne : names ≠ []) (hstrip : Path.stripBase? output manifest = some (names.map .normal))
    (calls : List ManifestCall) :
    ∃ l after, (m.rebuild output (some manifest) move move).perform ⟨removed, calls⟩ =
        (.ok ⟨plan.winners.size, plan.overridden.keys.map .ofNames⟩, after) ∧
      after.files.resolve output = .ok (.present l) ∧
      after.files.Holds l (Function.update (plan.content removed) names (some bytes)) := by
  have hnames := Path.isName_of_stripBase? hstrip
  obtain ⟨staged, l', name, hstaged, hperform⟩ :=
    exists_staged hmake hcreate hnested (some manifest) calls
  have htemp := hstaged.temporary
  have hunmentioned := hstaged.unmentioned output (m.output_mem_mentioned ..)
  obtain ⟨t, hmerge, hsame, hholds⟩ :=
    hstaged.exists_mergeManifests hlast hread hplaces hne hnames
  have hbesides := hstaged.besides.trans hsame
  -- the name that the output has is still free: what has been staged lies beside it
  obtain rfl : l = l' :=
    hreceives.leads.stagingParent.eq_of_nil (htemp.of_besides hstaged.besides.symm).leads
  have hreceives' := hreceives.of_besides
    (htemp.closed.of_besides hstaged.besides.symm htemp.not_spelled) hunmentioned hbesides
  obtain ⟨after, hrename⟩ := hreceives'.exists_rename htemp.isName (hreceives.name_ne hunmentioned)
    hholds.directory_self
  obtain ⟨last', hresolve, hholds', hclean⟩ := moved_in (htemp.of_besides hsame) hholds
    (fun _ hsegment => ne_of_mem_of_not_mem hsegment hunmentioned) hrename
  refine ⟨l ++ [last'], _, hperform move move { t with files := after } ?_, ?_, ?_⟩
  · unfold stageManifest
    simp only [hstrip, hmerger, Path.ofComponents_normal hnames]
    exact Action.bind_eq_ok.2 ⟨(), t, hmerge, Action.change_eq_ok.2 ⟨after, hrename, rfl⟩⟩
  · rw [hclean]
    exact hresolve
  · rw [hclean]
    exact hholds'

/-- A manifest whose path does not begin with that of the output is not put below it by a merge that
succeeds: what is found there is a winner. -/
theorem content_of_run_respelled {after : FileSystem} (hmerger : m.merger = .lastDeclared)
    (hnamed : namesEntry output = true) (hdirect : fs.Direct output) (hdirect' : fs.Direct manifest)
    (hspelled : fs.spelled manifest = fs.spelled output ++ names)
    (hstrip : Path.stripBase? output manifest = none)
    (hmake : MergePlan.make (withoutOutput fs output) m.config m.sets = .ok plan)
    (h : (m.run (some output) (some manifest)).onFiles fs = (.ok report, after)) :
    plan.content (withoutOutput fs output) names ≠ none := by
  obtain ⟨calls, hperform⟩ := Action.onFiles_eq h
  rw [run_eq_runWith] at hperform
  obtain ⟨hgone, hremove, hrebuild⟩ := runWith_eq_ok hperform
  obtain ⟨plan', made, staged, l, name, t, hstaged, -, hstage, -⟩ := rebuild_eq_ok hrebuild
  obtain rfl : plan' = plan := Except.ok.inj (hstaged.make.symm.trans hmake)
  obtain ⟨front, last, hnames⟩ := exists_names_of_namesEntry hnamed
  obtain ⟨hremoved, hsub⟩ := withoutOutput_besides hdirect (by rw [hnames]; simp) hremove
  obtain ⟨made', hmerged⟩ := merged_apart hmerger hstaged rfl hremoved
    (hdirect.of_links hremoved.origin fun k target _ hget => hsub k _ hget)
    (hdirect'.of_links hremoved.origin fun k target _ hget => hsub k _ hget) hnames hgone hstrip hstage
  obtain ⟨main, bytes, -, -, hfile⟩ := hmerged.placed manifest rfl
  rw [hspelled] at hfile
  rw [(hmerged.holds.file names bytes).1 hfile]
  exact Option.some_ne_none bytes

/-- A merge that succeeds without a manifest succeeds also with one below the output that is not in
the way of a winner, and leaves both the winners and the manifest there. But the path has to begin
with the steps of the output: spelled in another way, the same place makes the merge fail. -/
theorem run_manifest_below {after : FileSystem} (hmerger : m.merger = .lastDeclared)
    (h : (m.run (some output) none).onFiles fs = (.ok report, after))
    (hlast : SourceSet.lastManifest? m.sets = some main)
    (hread : (withoutOutput fs output).readBytes main = .ok bytes)
    (hmake : MergePlan.make (withoutOutput fs output) m.config m.sets = .ok plan) (hne : names ≠ [])
    (hplaces : ∀ place source, plan.winners.get? place = some source →
      ¬ place <+: names ∧ ¬ names <+: place) :
    (Path.stripBase? output manifest = some (names.map .normal) →
      ∃ l after', (m.run (some output) (some manifest)).onFiles fs = (.ok report, after') ∧
        after'.resolve output = .ok (.present l) ∧ after'.Holds l
          (Function.update (plan.content (withoutOutput fs output)) names (some bytes))) ∧
    (fs.Direct output → fs.Direct manifest → fs.spelled manifest = fs.spelled output ++ names →
      Path.stripBase? output manifest = none →
        ∃ e after', (m.run (some output) (some manifest)).onFiles fs = (.error e, after')) := by
  obtain ⟨calls, hperform⟩ := Action.onFiles_eq h
  rw [run_eq_runWith] at hperform
  obtain ⟨-, hremove, hrebuild⟩ := runWith_eq_ok hperform
  obtain ⟨plan', made, l, last, hmake', hcreate, rfl, hnested, hreceives⟩ :=
    receives_of_rebuild hrebuild
  obtain rfl : plan' = plan := Except.ok.inj (hmake'.symm.trans hmake)
  have hcontent : ∀ place, plan'.content (withoutOutput fs output) place ≠ none →
      ¬ place <+: names ∧ ¬ names <+: place := by
    intro place hplace
    cases hget : plan'.winners.get? place with
    | none => exact absurd (by rw [MergePlan.content, hget]; rfl) hplace
    | some source => exact hplaces place source hget
  refine ⟨fun hstrip => ?_, fun hdirect hdirect' hspelled hstrip => ?_⟩
  · obtain ⟨l, after', hrebuild', hresolve, hholds⟩ := rebuild_below hmerger hmake hcreate hnested
      hreceives hlast hread hcontent hne hstrip []
    refine ⟨l, after'.files, ?_, hresolve, hholds⟩
    rw [Action.onFiles_eq_perform, run_eq_runWith, perform_runWith hremove, hrebuild']
  · cases hrun : (m.run (some output) (some manifest)).onFiles fs with
    | mk result after' =>
      cases result with
      | error e => exact ⟨e, after', rfl⟩
      | ok report' =>
        have hwinner := content_of_run_respelled hmerger hreceives.named hdirect hdirect' hspelled
          hstrip hmake hrun
        exact absurd (List.prefix_refl _) (hcontent names hwinner).1

/-- The manifest can be merged into the output of the two source sets, but not by a path that begins
with a dot. -/
theorem run_manifest_below_variants :
    ∃ plan l after, MergePlan.make (withoutOutput variantFiles "out") variantMerge.config
        variantMerge.sets = .ok plan ∧
      (variantMerge.run (some "out") (some "out/M.xml")).onFiles variantFiles =
        (.ok ⟨1, ["res/values/a.xml"]⟩, after) ∧
      after.resolve "out" = .ok (.present l) ∧
      after.Holds l (Function.update (plan.content (withoutOutput variantFiles "out")) ["M.xml"]
        (some (Text.toUtf8 "<manifest/>"))) ∧
      ∃ e after', (variantMerge.run (some "out") (some "./out/M.xml")).onFiles variantFiles =
        (.error e, after') := by
  have hrun : ((variantMerge.run (some "out") none).onFiles variantFiles).1.toOption =
      some ⟨1, ["res/values/a.xml"]⟩ := by
    decide +kernel
  have hwinners : (MergePlan.make (withoutOutput variantFiles "out") variantMerge.config
      variantMerge.sets).toOption.map (·.winners.toList) =
        some [((["res", "values", "a.xml"] : List Text), ("debug/res/values/a.xml" : Path))] := by
    decide +kernel
  have hread : (withoutOutput variantFiles "out").readBytes "main/M.xml" =
      .ok (Text.toUtf8 "<manifest/>") := by
    decide +kernel
  generalize hfirst : (variantMerge.run (some "out") none).onFiles variantFiles = outcome at *
  obtain ⟨_ | report, first⟩ := outcome
  · cases hrun
  obtain rfl := Option.some.inj hrun
  generalize hmake : MergePlan.make (withoutOutput variantFiles "out") variantMerge.config
    variantMerge.sets = made at *
  obtain _ | plan := made
  · cases hwinners
  replace hwinners := Option.some.inj hwinners
  simp only at hwinners
  have hplaces : ∀ place source, plan.winners.get? place = some source →
      ¬ place <+: [("M.xml" : Text)] ∧ ¬ [("M.xml" : Text)] <+: place := fun place source hget => by
    have hmem := OrderedMap.mem_toList.2 hget
    rw [hwinners, List.mem_singleton] at hmem
    cases hmem
    decide
  obtain ⟨l, after, hbelow, hresolve, hholds⟩ : ∃ l after,
      (variantMerge.run (some "out") (some "out/M.xml")).onFiles variantFiles =
        (.ok ⟨1, ["res/values/a.xml"]⟩, after) ∧ _ :=
    (run_manifest_below rfl hfirst (by decide) hread hmake (by simp) hplaces).1 (by decide)
  exact ⟨plan, l, after, rfl, hbelow, hresolve, hholds,
    (run_manifest_below rfl hfirst (by decide) hread hmake (by simp) hplaces).2 (by decide +kernel)
      (by decide +kernel) (by decide +kernel) (by decide)⟩

/-- The directory that has been made for the manifest is in the way of the output. -/
example : ((variantMerge.run (some "out") (some "./out/M.xml")).onFiles variantFiles).1 =
    .error (.io "out" .directoryNotEmpty) := by
  decide +kernel

end ResourceMerge

end AndroidResources
