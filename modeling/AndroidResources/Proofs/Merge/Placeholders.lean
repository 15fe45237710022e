import AndroidResources.CommandLine.Run
import AndroidResources.Proofs.Build.Writing
import AndroidResources.Proofs.FileSystem.NewDirectory

/-!
# Placeholders for declared outputs

* `fillOne_cases` : an output is there, or a file is written where it leads;
* `makesExist` : whether filling some outputs makes a path exist;
* `fillMissing_eq_ok`, `fillMissing_entries` : which outputs are filled, and where each entry comes
  from afterwards;
* `Filled`, `fillMissing_filled` : what placeholders do where no output has double dots;
* `MergeOptions.mergeFiles` : a merge command before it fills its outputs.
-/

namespace AndroidResources

open FileSystem

variable {s s' : BuildState} {p : Path} {outputs filled : List Path}

/-! ## One output -/

theorem fillOne_eq_ok {b : Bool} : (fillOne p).perform s = (.ok b, s') ↔
    s.files.pathExists p = true ∧ b = false ∧ s' = s ∨
      s.files.pathExists p = false ∧ b = true ∧
        (writeInto p (placeholder p)).perform s = (.ok (), s') := by
  unfold fillOne
  rw [Action.bind_eq_ok]
  simp only [Action.perform_ask, Prod.mk.injEq, Except.ok.injEq]
  cases hexists : s.files.pathExists p with
  | true =>
    constructor
    · rintro ⟨_, _, ⟨rfl, rfl⟩, h⟩
      cases h
      exact .inl ⟨rfl, rfl, rfl⟩
    · rintro (⟨-, rfl, rfl⟩ | ⟨h, -⟩)
      · exact ⟨true, s', ⟨rfl, rfl⟩, rfl⟩
      · cases h
  | false =>
    constructor
    · rintro ⟨_, _, ⟨rfl, rfl⟩, h⟩
      obtain ⟨u, t, hwrite, h⟩ := Action.bind_eq_ok.1 h
      cases h
      exact .inr ⟨rfl, rfl, hwrite⟩
    · rintro (⟨h, -⟩ | ⟨-, rfl, hwrite⟩)
      · cases h
      · exact ⟨false, s, ⟨rfl, rfl⟩, Action.bind_eq_ok.2 ⟨(), s', hwrite, rfl⟩⟩

/-- A file has come to the place to which the path leads now, with directories elsewhere. Without
double dots in the path the place was free. -/
structure PlacedAt (p : Path) (content : ByteArray) (fs fs' : FileSystem) (l : Location) :
    Prop where
  resolve : fs'.resolve p = .ok (.present l)
  file : fs'.get? l = some (.file content)
  free : "..".toList ∉ p.segments → fs.get? l = none
  elsewhere : ∀ k, k ≠ l → fs'.get? k = fs.get? k ∨ fs.get? k = none ∧ fs'.get? k = some .directory

theorem writeInto_placed {text : Text} (hmissing : s.files.pathExists p = false)
    (h : (writeInto p text).perform s = (.ok (), s')) :
    KeepsEntries s.files s'.files ∧ ∃ l, PlacedAt p (Text.toUtf8 text) s.files s'.files l := by
  obtain ⟨mid, hparent, files, hwrite, rfl⟩ := writeInto_eq_ok.1 h
  obtain ⟨l, hlocation, hplace, heq, hresolve⟩ := resolve_writeFile hwrite
  obtain ⟨hadds, hfree⟩ : AddsDirectories (fun _ => True) s.files mid.files ∧
      ("..".toList ∉ p.segments → mid.files.get? l = none) := by
    unfold Action.createParent at hparent
    split at hparent
    · next q hq =>
      obtain ⟨made, hcreate, rfl⟩ := Action.changePartly_eq_ok.1 hparent
      exact ⟨createDirectories_adds hcreate, fun hup =>
        get?_fileLocation_of_made hup hq hmissing hcreate hlocation⟩
    · cases hparent
      exact ⟨.refl _ _, fun _ => get?_fileLocation_of_missing hmissing hlocation⟩
  have hget : ∀ k, files.get? k =
      if k = l then some (.file (Text.toUtf8 text)) else mid.files.get? k := by
    rw [heq]
    exact get?_place hplace _
  have hkeeps : KeepsEntries s.files mid.files := .of_adds hadds
  refine ⟨hkeeps.trans (.of_writeFile hwrite), l, hresolve, ?_, fun hup => ?_, fun k hk => ?_⟩
  · rw [hget, if_pos rfl]
  · exact hkeeps.get?_of_none (hfree hup)
  · rw [hget, if_neg hk]
    exact (hadds.entries k).imp_right And.right

/-! ## All outputs, one after the other -/

theorem fillMissing_cons : (fillMissing (p :: outputs)).perform s = (.ok filled, s') ↔
    ∃ b t others, (fillOne p).perform s = (.ok b, t) ∧
      (fillMissing outputs).perform t = (.ok others, s') ∧
        filled = if b then p :: others else others := by
  rw [fillMissing]
  constructor
  · intro h
    obtain ⟨b, t, hone, h⟩ := Action.bind_eq_ok.1 h
    obtain ⟨others, t', hothers, h⟩ := Action.bind_eq_ok.1 h
    cases h
    exact ⟨b, t, others, hone, hothers, rfl⟩
  · rintro ⟨b, t, others, hone, hothers, rfl⟩
    exact Action.bind_eq_ok.2 ⟨b, t, hone, Action.bind_eq_ok.2 ⟨others, s', hothers, rfl⟩⟩

theorem fillOne_keeps {b : Bool} (h : (fillOne p).perform s = (.ok b, s')) :
    KeepsEntries s.files s'.files := by
  obtain ⟨-, -, rfl⟩ | ⟨hmissing, -, hwrite⟩ := fillOne_eq_ok.1 h
  · exact .refl _
  · exact (writeInto_placed hmissing hwrite).1

theorem pathExists_fillOne {b : Bool} (h : (fillOne p).perform s = (.ok b, s')) :
    s'.files.pathExists p = true := by
  obtain ⟨hexists, -, rfl⟩ | ⟨hmissing, -, hwrite⟩ := fillOne_eq_ok.1 h
  · exact hexists
  · obtain ⟨-, l, hplaced⟩ := writeInto_placed hmissing hwrite
    exact pathExists_iff.2 ⟨l, hplaced.resolve⟩

theorem fillMissing_keeps (h : (fillMissing outputs).perform s = (.ok filled, s')) :
    KeepsEntries s.files s'.files := by
  induction outputs generalizing s filled with
  | nil =>
    cases h
    exact .refl _
  | cons p rest ih =>
    obtain ⟨b, t, others, hone, hothers, -⟩ := fillMissing_cons.1 h
    exact (fillOne_keeps hone).trans (ih hothers)

theorem pathExists_fillMissing (h : (fillMissing outputs).perform s = (.ok filled, s')) :
    ∀ p ∈ outputs, s'.files.pathExists p = true := by
  induction outputs generalizing s filled with
  | nil => simp
  | cons p rest ih =>
    obtain ⟨b, t, others, hone, hothers, -⟩ := fillMissing_cons.1 h
    exact List.forall_mem_cons.2
      ⟨(fillMissing_keeps hothers).pathExists (pathExists_fillOne hone), ih hothers⟩

theorem fillMissing_of_present (h : ∀ p ∈ outputs, s.files.pathExists p = true) :
    (fillMissing outputs).perform s = (.ok [], s) := by
  induction outputs with
  | nil => rfl
  | cons p rest ih =>
    obtain ⟨hp, hrest⟩ := List.forall_mem_cons.1 h
    exact fillMissing_cons.2 ⟨false, s, [], fillOne_eq_ok.2 (.inl ⟨hp, rfl, rfl⟩), ih hrest, rfl⟩

/-! ## Which outputs are filled -/

def makesExist (p : Path) : BuildState → List Path → Bool
  | _, [] => false
  | s, q :: rest =>
    let next := ((fillOne q).perform s).2
    !s.files.pathExists p && next.files.pathExists p || makesExist p next rest

/-- The outputs that name nothing and are not made by an earlier one, in order. -/
def missingOutputs (s : BuildState) (outputs : List Path) : List Path :=
  (outputs.zipIdx.filter fun output =>
    !s.files.pathExists output.1 && !makesExist output.1 s (outputs.take output.2)).map Prod.fst

/-- A path that is there afterwards was there before or has been made by one of the outputs. -/
theorem pathExists_eq_makesExist (h : (fillMissing outputs).perform s = (.ok filled, s'))
    (p : Path) :
    s'.files.pathExists p = (s.files.pathExists p || makesExist p s outputs) := by
  induction outputs generalizing s filled with
  | nil =>
    cases h
    exact (Bool.or_false _).symm
  | cons q rest ih =>
    obtain ⟨b, t, others, hone, hothers, -⟩ := fillMissing_cons.1 h
    rw [ih hothers, makesExist, hone]
    cases hexists : s.files.pathExists p with
    | false => rfl
    | true =>
      rw [(fillOne_keeps hone).pathExists hexists]
      rfl

theorem fillMissing_append {others : List Path} :
    (fillMissing (outputs ++ others)).perform s = (.ok filled, s') ↔
      ∃ t first second, (fillMissing outputs).perform s = (.ok first, t) ∧
        (fillMissing others).perform t = (.ok second, s') ∧ filled = first ++ second := by
  induction outputs generalizing s filled with
  | nil =>
    constructor
    · exact fun h => ⟨s, [], filled, rfl, h, rfl⟩
    · rintro ⟨t, first, second, hfirst, hsecond, rfl⟩
      cases hfirst
      exact hsecond
  | cons p rest ih =>
    rw [List.cons_append, fillMissing_cons]
    simp only [ih, fillMissing_cons]
    constructor
    · rintro ⟨b, t, _, hone, ⟨t', first, second, hfirst, hsecond, rfl⟩, rfl⟩
      refine ⟨t', _, second, ⟨b, t, first, hone, hfirst, rfl⟩, hsecond, ?_⟩
      cases b <;> rfl
    · rintro ⟨t', _, second, ⟨b, t, first, hone, hfirst, rfl⟩, hsecond, rfl⟩
      refine ⟨b, t, _, hone, ⟨t', first, second, hfirst, hsecond, rfl⟩, ?_⟩
      cases b <;> rfl

theorem missingOutputs_concat (s : BuildState) (outputs : List Path) (p : Path) :
    missingOutputs s (outputs ++ [p]) = missingOutputs s outputs ++
      if s.files.pathExists p || makesExist p s outputs then [] else [p] := by
  have hfront : (outputs.zipIdx.filter fun output => !s.files.pathExists output.1 &&
        !makesExist output.1 s ((outputs ++ [p]).take output.2)) =
      outputs.zipIdx.filter fun output => !s.files.pathExists output.1 &&
        !makesExist output.1 s (outputs.take output.2) := by
    refine List.filter_congr fun output houtput => ?_
    have hlt := List.snd_lt_of_mem_zipIdx houtput
    rw [List.take_append_of_le_length (by omega)]
  unfold missingOutputs
  rw [List.zipIdx_append, List.filter_append, hfront, List.map_append, List.zipIdx_singleton,
    List.filter_singleton, Nat.zero_add, List.take_left]
  cases s.files.pathExists p <;> cases makesExist p s outputs <;> rfl

/-- The outputs that are missing are filled. The induction is on the outputs from their end: whether
the last one is there is known from what the others have made. -/
theorem filled_eq_missingOutputs (h : (fillMissing outputs).perform s = (.ok filled, s')) :
    filled = missingOutputs s outputs := by
  induction outputs using List.reverseRecOn generalizing filled s' with
  | nil =>
    cases h
    rfl
  | append_singleton outputs p ih =>
    obtain ⟨t, first, second, hfirst, hsecond, rfl⟩ := fillMissing_append.1 h
    obtain ⟨b, t', others, hone, hothers, rfl⟩ := fillMissing_cons.1 hsecond
    cases hothers
    rw [missingOutputs_concat, ← ih hfirst, ← pathExists_eq_makesExist hfirst]
    obtain ⟨hexists, rfl, -⟩ | ⟨hmissing, rfl, -⟩ := fillOne_eq_ok.1 hone
    · rw [hexists]
      rfl
    · rw [hmissing]
      rfl

/-! ## What is where afterwards -/

/-- Each entry is one that was there, a new directory, or the placeholder of an output that leads
there; without double dots in the output nothing was there before. -/
theorem fillMissing_entries (h : (fillMissing outputs).perform s = (.ok filled, s')) {l : Location}
    {e : Entry} (he : s'.files.get? l = some e) :
    s.files.get? l = some e ∨ (s.files.get? l = none ∧ e = .directory) ∨
      ∃ p ∈ filled, s'.files.resolve p = .ok (.present l) ∧
        e = .file (Text.toUtf8 (placeholder p)) ∧
        ("..".toList ∉ p.segments → s.files.get? l = none) := by
  induction outputs generalizing s filled with
  | nil =>
    cases h
    exact .inl he
  | cons p rest ih =>
    obtain ⟨b, t, others, hone, hothers, rfl⟩ := fillMissing_cons.1 h
    have hkeeps := fillOne_keeps hone
    obtain ht | ⟨hnone, hdir⟩ | ⟨q, hq, hresolve, hcontent, hfree⟩ := ih hothers
    · obtain ⟨-, rfl, rfl⟩ | ⟨hmissing, rfl, hwrite⟩ := fillOne_eq_ok.1 hone
      · exact .inl ht
      · obtain ⟨-, k, hplaced⟩ := writeInto_placed hmissing hwrite
        by_cases hk : l = k
        · subst hk
          rw [hplaced.file] at ht
          refine .inr (.inr ⟨p, List.mem_cons_self .., ?_, (Option.some.inj ht).symm, hplaced.free⟩)
          exact (fillMissing_keeps hothers).resolve hplaced.resolve
        · obtain heq | ⟨hnone, hdir⟩ := hplaced.elsewhere l hk
          · exact .inl (heq ▸ ht)
          · rw [hdir] at ht
            exact .inr (.inl ⟨hnone, (Option.some.inj ht).symm⟩)
    · exact .inr (.inl ⟨hkeeps.get?_of_none hnone, hdir⟩)
    · refine .inr (.inr ⟨q, ?_, hresolve, hcontent, fun hup => hkeeps.get?_of_none (hfree hup)⟩)
      cases b
      · exact hq
      · exact List.mem_cons_of_mem _ hq

theorem get?_fillMissing (h : (fillMissing outputs).perform s = (.ok filled, s')) {l : Location}
    {e : Entry} (he : s.files.get? l = some e) :
    s'.files.get? l = some e ∨ ∃ p ∈ filled, "..".toList ∈ p.segments ∧
      s'.files.resolve p = .ok (.present l) := by
  obtain ⟨e', he'⟩ := (fillMissing_keeps h).get?_of_some he
  obtain hold | ⟨hnone, -⟩ | ⟨p, hp, hresolve, -, hfree⟩ := fillMissing_entries h he'
  · rw [he', ← hold]
    exact .inl he
  · rw [he] at hnone
    cases hnone
  · refine .inr ⟨p, hp, by_contra fun hup => ?_, hresolve⟩
    rw [he] at hfree
    cases hfree hup

theorem mem_of_mem_filled (h : (fillMissing outputs).perform s = (.ok filled, s')) :
    ∀ p ∈ filled, p ∈ outputs := by
  rw [filled_eq_missingOutputs h]
  intro p hp
  obtain ⟨output, houtput, rfl⟩ := List.mem_map.1 hp
  exact List.fst_mem_of_mem_zipIdx (List.mem_of_mem_filter houtput)

theorem keeps_fillMissing (hup : ∀ p ∈ outputs, "..".toList ∉ p.segments)
    (h : (fillMissing outputs).perform s = (.ok filled, s')) :
    Keeps (fun _ => True) s.files s'.files := by
  refine ⟨(fillMissing_keeps h).ways.origin, fun l e _ he => ?_⟩
  obtain hget | ⟨p, hp, hmem, -⟩ := get?_fillMissing h he
  · exact hget
  · exact absurd hmem (hup p (mem_of_mem_filled h p hp))

theorem readBytes_fillMissing (hup : ∀ p ∈ outputs, "..".toList ∉ p.segments)
    (h : (fillMissing outputs).perform s = (.ok filled, s')) :
    ∀ p ∈ filled, s'.files.readBytes p = .ok (Text.toUtf8 (placeholder p)) := by
  induction outputs generalizing s filled with
  | nil =>
    cases h
    simp
  | cons p rest ih =>
    obtain ⟨b, t, others, hone, hothers, rfl⟩ := fillMissing_cons.1 h
    obtain ⟨-, hrest⟩ := List.forall_mem_cons.1 hup
    have hothers' := ih hrest hothers
    obtain ⟨-, rfl, -⟩ | ⟨-, rfl, hwrite⟩ := fillOne_eq_ok.1 hone
    · exact hothers'
    · exact List.forall_mem_cons.2
        ⟨readBytes_of_keeps_all (keeps_fillMissing hrest hothers) (writeInto_readBytes hwrite),
          hothers'⟩

/-! ## The results -/

structure Filled (fs : FileSystem) (outputs filled : List Path) (after : FileSystem) : Prop where
  present : ∀ p ∈ outputs, after.pathExists p = true
  /-- The outputs that were missing are filled, in their order. -/
  filled_eq : filled = missingOutputs ⟨fs, []⟩ outputs
  kept : ∀ l e, fs.get? l = some e → after.get? l = some e
  content : ∀ p ∈ filled, after.readBytes p = .ok (Text.toUtf8
    (if p.extension? = some "xml".toList then emptyResources else []))
  new : ∀ l e, fs.get? l = none → after.get? l = some e → e = .directory ∨
    ∃ p ∈ filled, after.resolve p = .ok (.present l) ∧ e = .file (Text.toUtf8 (placeholder p))
  /-- A second time nothing is filled and nothing changes. -/
  again : (fillMissing outputs).onFiles after = (.ok [], after)

theorem filled_of_fillMissing {fs after : FileSystem}
    (hup : ∀ p ∈ outputs, "..".toList ∉ p.segments)
    (h : (fillMissing outputs).onFiles fs = (.ok filled, after)) :
    Filled fs outputs filled after := by
  obtain ⟨calls, hperform⟩ := Action.onFiles_eq h
  have hpresent : ∀ p ∈ outputs, after.pathExists p = true := pathExists_fillMissing hperform
  refine ⟨hpresent, filled_eq_missingOutputs hperform, fun l e he => ?_,
    readBytes_fillMissing hup hperform, fun l e hnone he => ?_, ?_⟩
  · exact (keeps_fillMissing hup hperform).entries l e (fun _ _ => trivial) he
  · obtain hold | ⟨-, hdir⟩ | ⟨p, hp, hresolve, hcontent, -⟩ := fillMissing_entries hperform he
    · rw [hnone] at hold
      cases hold
    · exact .inl hdir
    · exact .inr ⟨p, hp, hresolve, hcontent⟩
  · rw [Action.onFiles_eq_perform, fillMissing_of_present (s := ⟨after, []⟩) hpresent]

def CommandLine.MergeOptions.mergeFiles (options : CommandLine.MergeOptions) (config : Config) :
    Action MergeReport := do
  let sets ← Action.inspect (SourceSet.ofDescriptors · options.target options.sourceSets)
  let merge : ResourceMerge :=
    ⟨config.merge, .lastDeclared, if options.isBinary then .application else .library, sets⟩
  merge.run (outputDirectory? options.outputs) options.manifest?

theorem CommandLine.MergeOptions.run_eq_ok {options : MergeOptions} {config : Config}
    {summary : RunSummary} : (options.run config).perform s = (.ok summary, s') ↔
      ∃ report t filled, (options.mergeFiles config).perform s = (.ok report, t) ∧
        (fillMissing options.outputs).perform t = (.ok filled, s') ∧
          summary = .merged report filled.length := by
  have hrun : options.run config = options.mergeFiles config >>= fun report =>
      fillMissing options.outputs >>= fun filled => pure (.merged report filled.length) := by
    unfold run mergeFiles
    simp only [bind_assoc]
  rw [hrun]
  constructor
  · intro h
    obtain ⟨report, t, hmerge, h⟩ := Action.bind_eq_ok.1 h
    obtain ⟨filled, t', hfill, h⟩ := Action.bind_eq_ok.1 h
    cases h
    exact ⟨report, t, filled, hmerge, hfill, rfl⟩
  · rintro ⟨report, t, filled, hmerge, hfill, rfl⟩
    exact Action.bind_eq_ok.2 ⟨report, t, hmerge, Action.bind_eq_ok.2 ⟨filled, s', hfill, rfl⟩⟩

theorem CommandLine.run_merge_eq_ok {arguments : List Text} {invocation : Invocation}
    {options : MergeOptions} {fs : FileSystem}
    (hinvocation : Invocation.ofArguments arguments = .ok invocation)
    (hcommand : invocation.command = .merge options)
    (hexit : (run arguments fs).1.exitCode = 0) :
    ∃ config report t filled s', invocation.config fs = .ok config ∧
      (options.mergeFiles config).perform ⟨fs, []⟩ = (.ok report, t) ∧
        (fillMissing options.outputs).perform t = (.ok filled, s') ∧
          (run arguments fs).2 = s'.files := by
  unfold run at hexit ⊢
  rw [hinvocation] at hexit ⊢
  simp only at hexit ⊢
  cases hrun : invocation.run fs with
  | mk result after =>
    rw [hrun] at hexit
    cases result with
    | error fault => cases hexit
    | ok summary =>
      unfold Invocation.run at hrun
      cases hconfig : invocation.config fs with
      | error e =>
        rw [hconfig] at hrun
        cases hrun
      | ok config =>
        rw [hconfig, hcommand] at hrun
        simp only [Command.run, Action.onFiles_eq_perform] at hrun
        cases hperform : (options.run config).perform ⟨fs, []⟩ with
        | mk r s' =>
          rw [hperform] at hrun
          obtain ⟨hresult, rfl⟩ := Prod.mk.inj hrun
          cases r with
          | error e => cases hresult
          | ok told =>
            obtain ⟨report, t, filled, hmerge, hfill, -⟩ := MergeOptions.run_eq_ok.1 hperform
            exact ⟨config, report, t, filled, s', rfl, hmerge, hfill, rfl⟩

/-- **Placeholders.** Where outputs without double dots are filled and nothing goes wrong, all of
them are there and nothing that was there has changed: the missing ones, and no others, are empty
documents or files now, and filling them again does nothing. So a merge command that exits with zero
leaves all its outputs; of what it has merged nothing has changed, unless an output with double dots
leads there. -/
theorem outputs_filled :
    (∀ fs outputs filled after, (∀ p ∈ outputs, "..".toList ∉ p.segments) →
      (fillMissing outputs).onFiles fs = (.ok filled, after) → Filled fs outputs filled after) ∧
    ∀ arguments invocation options fs,
      CommandLine.Invocation.ofArguments arguments = .ok invocation →
      invocation.command = .merge options →
      (CommandLine.run arguments fs).1.exitCode = 0 →
        (∀ p ∈ options.outputs, (CommandLine.run arguments fs).2.pathExists p = true) ∧
        ∃ config report merged, invocation.config fs = .ok config ∧
          (options.mergeFiles config).onFiles fs = (.ok report, merged) ∧
          ∀ l e, merged.get? l = some e →
            (CommandLine.run arguments fs).2.get? l = some e ∨
              ∃ p ∈ options.outputs, "..".toList ∈ p.segments ∧
                (CommandLine.run arguments fs).2.resolve p = .ok (.present l) := by
  refine ⟨fun fs outputs filled after hup h => filled_of_fillMissing hup h, ?_⟩
  intro arguments invocation options fs hinvocation hcommand hexit
  obtain ⟨config, report, t, filled, s', hconfig, hmerge, hfill, hafter⟩ :=
    CommandLine.run_merge_eq_ok hinvocation hcommand hexit
  rw [hafter]
  refine ⟨pathExists_fillMissing hfill, config, report, t.files, hconfig, ?_, fun l e he => ?_⟩
  · rw [Action.onFiles_eq_perform, hmerge]
  · refine (get?_fillMissing hfill he).imp_right ?_
    rintro ⟨p, hp, hmem, hresolve⟩
    exact ⟨p, mem_of_mem_filled hfill p hp, hmem, hresolve⟩

def generatedFiles : FileSystem :=
  let directories : List Location := [["main"], ["main", "res"], ["main", "res", "values"], ["gen"]]
  let tree : FileSystem := directories.foldl (fun fs l => fs.place l .directory) .empty
  (tree.place ["main", "res", "values", "a.xml"] (.file (Text.toUtf8 "<r/>"))).place ["gen", "a"]
    (.file (Text.toUtf8 "kept"))

/-- An output that is there, one that is missing, two that are there with it, and one more that is
missing. -/
def generatedOutputs : List Path :=
  ["gen/a", "new/b.xml", "new", "./new//b.xml", "gen/c"]

def mergeArguments : List Text :=
  ["merge", "--source-sets", "main/res::", "--output", "gen/res/values/a.xml,gen/new/b.xml"].map
    String.toList

/-- The missing outputs are filled, and so is that of the merge. -/
theorem outputs_filled_generated :
    (∃ after, (fillMissing generatedOutputs).onFiles generatedFiles =
        (.ok ["new/b.xml", "gen/c"], after) ∧
      Filled generatedFiles generatedOutputs ["new/b.xml", "gen/c"] after) ∧
    (CommandLine.run mergeArguments generatedFiles).1.exitCode = 0 ∧
      (CommandLine.run mergeArguments generatedFiles).2.pathExists "gen/res/values/a.xml" = true ∧
      (CommandLine.run mergeArguments generatedFiles).2.pathExists "gen/new/b.xml" = true := by
  have hup : ∀ p ∈ generatedOutputs, "..".toList ∉ p.segments := by decide
  have hrun : ((fillMissing generatedOutputs).onFiles generatedFiles).1.toOption =
      some (["new/b.xml", "gen/c"] : List Path) := by decide +kernel
  have hexit : (CommandLine.run mergeArguments generatedFiles).1.exitCode = 0 := by decide +kernel
  refine ⟨?_, hexit, ?_⟩
  · generalize h : (fillMissing generatedOutputs).onFiles generatedFiles = outcome at *
    obtain ⟨_ | filled, after⟩ := outcome
    · cases hrun
    · obtain rfl := Option.some.inj hrun
      exact ⟨after, rfl, outputs_filled.1 _ _ _ _ hup h⟩
  · have hpresent := (outputs_filled.2 mergeArguments _ _ generatedFiles rfl rfl hexit).1
    exact ⟨hpresent _ (List.mem_cons_self ..),
      hpresent _ (List.mem_cons_of_mem _ (List.mem_singleton_self _))⟩

end AndroidResources
