import AndroidResources.Merge.DeclaredOutputs
import AndroidResources.Proofs.Merge.OutputDirectory

/-!
# The directory above all declared outputs

* `prefix_commonSteps_iff` : what outputs have in common is the longest sequence of steps that all
  of them begin with, so it depends on which paths are declared and on nothing else;
* `Path.Above` : a path lies above another if it has some of its steps, but not all;
* `outputDirectory?_above` : the directory lies above every output and has no merge root among its
  steps, whatever the outputs are and in whatever order they are declared.
-/

namespace AndroidResources

variable {outputs outputs' : List Path} {directory p : Path} {steps : List Path.Component}

/-! ## What outputs have in common -/

theorem prefix_sharedSteps_iff {a b : List Path.Component} :
    steps <+: sharedSteps a b ↔ steps <+: a ∧ steps <+: b := by
  induction steps generalizing a b with
  | nil => simp
  | cons step rest ih =>
    cases a with
    | nil => simp [sharedSteps]
    | cons s as =>
      cases b with
      | nil => simp [sharedSteps]
      | cons t bs =>
        rw [sharedSteps]
        split
        · next heq =>
          subst heq
          simp only [List.cons_prefix_cons, ih]
          tauto
        · next hne =>
          simp only [List.cons_prefix_cons, List.prefix_nil, List.cons_ne_nil, false_iff, not_and]
          rintro ⟨rfl, -⟩ heq
          exact absurd heq hne

theorem prefix_foldl_sharedSteps_iff {common : List Path.Component} :
    steps <+: outputs.foldl (fun common q => sharedSteps common q.components) common ↔
      steps <+: common ∧ ∀ p ∈ outputs, steps <+: p.components := by
  induction outputs generalizing common with
  | nil => simp
  | cons q rest ih =>
    rw [List.foldl_cons, ih, prefix_sharedSteps_iff, List.forall_mem_cons, and_assoc]

/-- All outputs begin with some steps if and only if what they have in common does. -/
theorem prefix_commonSteps_iff (hne : outputs ≠ []) :
    steps <+: commonSteps outputs ↔ ∀ p ∈ outputs, steps <+: p.components := by
  obtain ⟨first, rest, rfl⟩ := List.exists_cons_of_ne_nil hne
  rw [commonSteps, List.forall_mem_cons]
  exact prefix_foldl_sharedSteps_iff

theorem commonSteps_of_mem (h : p ∈ outputs) : commonSteps outputs <+: p.components :=
  (prefix_commonSteps_iff (List.ne_nil_of_mem h)).1 List.prefix_rfl p h

theorem commonSteps_congr (h : ∀ p, p ∈ outputs ↔ p ∈ outputs') :
    commonSteps outputs = commonSteps outputs' := by
  by_cases hne : outputs = []
  · obtain rfl : outputs' = [] := List.eq_nil_iff_forall_not_mem.2 fun p hp => by
      simpa [hne] using (h p).2 hp
    rw [hne]
  · have hne' : outputs' ≠ [] := by
      obtain ⟨p, hp⟩ := List.exists_mem_of_ne_nil _ hne
      exact List.ne_nil_of_mem ((h p).1 hp)
    have hto : commonSteps outputs <+: commonSteps outputs' :=
      (prefix_commonSteps_iff hne').2 fun p hp => commonSteps_of_mem ((h p).2 hp)
    have hfrom : commonSteps outputs' <+: commonSteps outputs :=
      (prefix_commonSteps_iff hne).2 fun p hp => commonSteps_of_mem ((h p).1 hp)
    exact hto.eq_of_length (Nat.le_antisymm hto.length_le hfrom.length_le)

/-! ## The directory -/

/-- The directory has some of the steps of the path in front, but not all. -/
def Path.Above (directory p : Path) : Prop :=
  directory.components <+: p.components ∧ directory.components ≠ p.components

instance (directory p : Path) : Decidable (directory.Above p) :=
  inferInstanceAs (Decidable (_ ∧ _))

theorem Path.Above.ne (h : directory.Above p) : directory ≠ p :=
  fun heq => h.2 (congrArg Path.components heq)

/-- A path is below what lacks one of the steps that it begins with. -/
theorem Path.Above.of_missing {common : List Path.Component}
    (hdirectory : directory.components <+: common) (hp : common <+: p.components)
    (hne : directory.components ≠ common) : directory.Above p := by
  refine ⟨hdirectory.trans hp, fun heq => hne ?_⟩
  rw [← heq] at hp
  exact hdirectory.eq_of_length (Nat.le_antisymm hdirectory.length_le hp.length_le)

/-- The directory is spelled with what outputs have in common: up to the first merge root, without
the last step, or all of it. -/
theorem outputDirectory?_eq_some (h : outputDirectory? outputs = some directory) :
    outputs ≠ [] ∧ directory.components <+: commonSteps outputs ∧
      directory.components.any isMergeRoot = false ∧
      (directory.components ≠ commonSteps outputs ∨
        ∀ p ∈ outputs, p.components ≠ commonSteps outputs) := by
  unfold outputDirectory? at h
  split at h
  · cases h
  · next hne =>
    obtain ⟨p, hp⟩ := List.exists_mem_of_ne_nil _ hne
    have hspelled : ∀ steps, steps <+: commonSteps outputs →
        (Path.ofComponents steps).components = steps := fun steps hsteps =>
      Path.components_ofComponents_of_prefix (hsteps.trans (commonSteps_of_mem hp))
    refine ⟨hne, ?_⟩
    simp only at h
    split at h
    · next hroot =>
      have hcut := List.takeWhile_prefix (l := commonSteps outputs) fun step => !isMergeRoot step
      have hnone : ((commonSteps outputs).takeWhile fun step => !isMergeRoot step).any
          isMergeRoot = false := List.any_eq_false.2 fun step hstep => by
        simpa using List.mem_takeWhile_imp hstep
      cases h
      rw [hspelled _ hcut]
      refine ⟨hcut, hnone, .inl fun heq => ?_⟩
      rw [heq, hroot] at hnone
      cases hnone
    · next hroot =>
      rw [Bool.not_eq_true] at hroot
      have hnone : ∀ steps, steps <+: commonSteps outputs → steps.any isMergeRoot = false :=
        fun steps hsteps => List.any_eq_false.2 fun step hstep =>
          List.any_eq_false.1 hroot step (hsteps.subset hstep)
      split at h
      · obtain ⟨last, hlast⟩ := Path.components_parent? h
        rw [hspelled _ List.prefix_rfl] at hlast
        have hfront : directory.components <+: commonSteps outputs := ⟨[last], hlast.symm⟩
        refine ⟨hfront, hnone _ hfront, .inl fun heq => ?_⟩
        rw [← heq] at hlast
        simp at hlast
      · next hdeclared =>
        cases h
        rw [hspelled _ List.prefix_rfl]
        refine ⟨List.prefix_rfl, hroot, .inr fun p hp heq => hdeclared ?_⟩
        exact List.any_eq_true.2 ⟨p, hp, decide_eq_true heq⟩

theorem above_of_outputDirectory? (h : outputDirectory? outputs = some directory)
    (hp : p ∈ outputs) : directory.Above p := by
  obtain ⟨-, hfront, -, hless | hdeclared⟩ := outputDirectory?_eq_some h
  · exact .of_missing hfront (commonSteps_of_mem hp) hless
  · refine ⟨hfront.trans (commonSteps_of_mem hp), fun heq => hdeclared p hp ?_⟩
    rw [heq] at hfront
    have hback := commonSteps_of_mem hp
    exact hfront.eq_of_length (Nat.le_antisymm hfront.length_le hback.length_le)

theorem outputDirectory?_congr (h : ∀ p, p ∈ outputs ↔ p ∈ outputs') :
    outputDirectory? outputs = outputDirectory? outputs' := by
  have hnil : outputs = [] ↔ outputs' = [] := by
    rw [List.eq_nil_iff_forall_not_mem, List.eq_nil_iff_forall_not_mem]
    exact forall_congr' fun p => not_congr (h p)
  have hany : ∀ test : Path → Bool, outputs.any test = outputs'.any test := fun test => by
    rw [Bool.eq_iff_iff, List.any_eq_true, List.any_eq_true]
    exact exists_congr fun p => and_congr_left' (h p)
  unfold outputDirectory?
  simp only [hnil, commonSteps_congr h, hany]

/-- **The directory of declared outputs.** It lies above each of them and is none of them, and no
step of it is the root of a merged tree. It is the same however the outputs are ordered and
repeated. -/
theorem outputDirectory?_above (outputs : List Path) :
    (∀ directory, outputDirectory? outputs = some directory →
      (∀ p ∈ outputs, directory.Above p) ∧ directory ∉ outputs ∧
        .normal "res" ∉ directory.components ∧ .normal "assets" ∉ directory.components) ∧
    (∀ outputs', outputs.Perm outputs' → outputDirectory? outputs' = outputDirectory? outputs) ∧
    ∀ outputs', (∀ p, p ∈ outputs' ↔ p ∈ outputs) →
      outputDirectory? outputs' = outputDirectory? outputs := by
  refine ⟨fun directory h => ?_, fun outputs' hperm => ?_, fun outputs' hmem => ?_⟩
  · obtain ⟨-, -, hroot, -⟩ := outputDirectory?_eq_some h
    have hnot : ∀ step, isMergeRoot step = true → step ∉ directory.components :=
      fun step hstep hmem => List.any_eq_false.1 hroot step hmem hstep
    refine ⟨fun p hp => above_of_outputDirectory? h hp, fun hmem => ?_, ?_, ?_⟩
    · exact (above_of_outputDirectory? h hmem).ne rfl
    · exact hnot _ (by decide)
    · exact hnot _ (by decide)
  · exact outputDirectory?_congr fun p => hperm.mem_iff.symm
  · exact outputDirectory?_congr hmem

/-- Two spellings below one directory, one of them with a double dot; then with the paths exchanged,
and with one of them repeated. -/
theorem outputDirectory?_above_gen :
    Path.Above "/gen" "/gen/./res/values/a.xml" ∧ Path.Above "/gen" "/gen//../gen/b" ∧
      outputDirectory? ["/gen//../gen/b", "/gen/./res/values/a.xml"] = some "/gen" ∧
      outputDirectory? ["/gen//../gen/b", "/gen/./res/values/a.xml", "/gen//../gen/b"] =
        some "/gen" := by
  have hdirectory : outputDirectory? ["/gen/./res/values/a.xml", "/gen//../gen/b"] =
      some "/gen" := by decide
  obtain ⟨habove, hperm, hmem⟩ :=
    outputDirectory?_above ["/gen/./res/values/a.xml", "/gen//../gen/b"]
  obtain ⟨hall, -⟩ := habove _ hdirectory
  refine ⟨hall _ (by decide), hall _ (by decide), ?_, ?_⟩
  · rw [hperm _ (.swap ..), hdirectory]
  · rw [hmem _ fun p => by grind, hdirectory]

end AndroidResources
