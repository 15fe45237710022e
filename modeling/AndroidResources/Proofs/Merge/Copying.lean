import AndroidResources.Merge.ResourceMerge
import AndroidResources.Proofs.Build.Staging
import AndroidResources.Proofs.Merge.Plan

/-!
# Copying winners

* `MergePlan.content` : what the files of a merged tree hold;
* `copyWinners_holds` : the winners of a plan copied into a temporary directory;
* `copyWinners_besides` : what is left as it was.
-/

namespace AndroidResources

open FileSystem

/-- The content of the merged tree: at each place the bytes of the winner. -/
def MergePlan.content (plan : MergePlan) (fs : FileSystem) (place : List Text) :
    Option ByteArray :=
  (plan.winners.get? place).bind fun source => (fs.readBytes source).toOption

namespace ResourceMerge

def overwrite (fs : FileSystem) (winners : List (List Text × Path))
    (files : List Text → Option ByteArray) : List Text → Option ByteArray :=
  winners.foldl (fun files winner =>
    Function.update files winner.1 (fs.readBytes winner.2).toOption) files

variable {fs : FileSystem} {winners : List (List Text × Path)}
  {files : List Text → Option ByteArray} {place : List Text}

theorem overwrite_of_not_mem (h : ∀ source, (place, source) ∉ winners) :
    overwrite fs winners files place = files place := by
  induction winners generalizing files with
  | nil => rfl
  | cons winner rest ih =>
    have hne : place ≠ winner.1 := by
      rintro rfl
      exact h winner.2 (List.mem_cons_self ..)
    exact (ih fun source hmem => h source (List.mem_cons_of_mem _ hmem)).trans
      (Function.update_of_ne hne ..)

theorem overwrite_of_mem {source : Path} (hmem : (place, source) ∈ winners)
    (hunique : winners.Pairwise fun a b => a.1 ≠ b.1) :
    overwrite fs winners files place = (fs.readBytes source).toOption := by
  induction winners generalizing files with
  | nil => cases hmem
  | cons winner rest ih =>
    obtain ⟨hfirst, hrest⟩ := List.pairwise_cons.1 hunique
    rcases List.mem_cons.1 hmem with rfl | hmem
    · exact (overwrite_of_not_mem fun source' hmem' => hfirst _ hmem' rfl).trans
        (Function.update_self ..)
    · exact ih hmem hrest

theorem pairwise_of_perm {plan : MergePlan} (h : winners.Perm plan.winners.toList) :
    winners.Pairwise fun a b => a.1 ≠ b.1 := by
  refine (h.pairwise_iff fun hne => hne.symm).2 (plan.winners.sorted.imp fun hlt heq => ?_)
  rw [heq] at hlt
  simp at hlt

/-- In whatever order the winners of a plan are copied, they end up as the merged tree. -/
theorem overwrite_perm {plan : MergePlan} (h : winners.Perm plan.winners.toList) :
    overwrite fs winners (fun _ => none) = plan.content fs := by
  funext place
  unfold MergePlan.content
  cases hget : plan.winners.get? place with
  | none =>
    refine overwrite_of_not_mem fun source hmem => ?_
    rw [OrderedMap.mem_toList.1 (h.mem_iff.1 hmem)] at hget
    cases hget
  | some source =>
    exact overwrite_of_mem (h.mem_iff.2 (OrderedMap.mem_toList.2 hget)) (pairwise_of_perm h)

/-- Winners are copied to their places in a temporary directory. Their sources are as readable as
they are in any file system that differs only there. -/
theorem copyWinners_holds {S : Text → Prop} {s s' : BuildState} {g : FileSystem} {parent : Path}
    {l : Location} {name : Text} {u : Unit} (htemp : Temporary S s.files parent l name)
    (hfiles : s.files.Holds (l ++ [name]) files) (hsame : Besides (l ++ [name]) g s.files)
    (hwinners : ∀ winner ∈ winners, winner.1 ≠ [] ∧ (∀ n ∈ winner.1, IsName n) ∧
      ∀ segment ∈ winner.2.segments, S segment)
    (h : (copyWinners winners (parent.join ⟨name⟩)).perform s = (.ok u, s')) :
    s'.calls = s.calls ∧ Besides (l ++ [name]) g s'.files ∧
      s'.files.Holds (l ++ [name]) (overwrite g winners files) := by
  induction winners generalizing s files with
  | nil =>
    cases h
    exact ⟨rfl, hsame, hfiles⟩
  | cons winner rest ih =>
    obtain ⟨u, t, hcopy, hrest⟩ := Action.bind_eq_ok.1 h
    obtain ⟨hne, hnames, hsource⟩ := hwinners winner (List.mem_cons_self ..)
    have hleads := htemp.leads_ofNames hfiles.directory_self hne hnames
    obtain ⟨hcalls, hstep, bytes, hread, hholds⟩ :=
      copyInto_holds hfiles htemp.closed htemp.not_spelled hsource hleads hne hcopy
    -- sources are read as they were at first: what has been copied is not where they lead
    have hread' : g.readBytes winner.2 = .ok bytes :=
      htemp.closed.readBytes (hsame.symm.keeps htemp.not_spelled) hsource hread
    obtain ⟨hcalls', hsame', hholds'⟩ := ih (htemp.of_besides hstep) hholds (hsame.trans hstep)
      (fun w hw => hwinners w (List.mem_cons_of_mem _ hw)) hrest
    refine ⟨hcalls'.trans hcalls, hsame', ?_⟩
    have hstart : overwrite g (winner :: rest) files =
        overwrite g rest (Function.update files winner.1 (some bytes)) := by
      rw [overwrite, List.foldl_cons, hread']
      rfl
    rw [hstart]
    exact hholds'

theorem copyWinners_besides {S : Text → Prop} {s : BuildState} {parent : Path} {l : Location}
    {name : Text} (htemp : Temporary S s.files parent l name) (hfiles : s.files.Holds (l ++ [name]) files)
    (hwinners : ∀ winner ∈ winners, winner.1 ≠ [] ∧ (∀ n ∈ winner.1, IsName n) ∧
      ∀ segment ∈ winner.2.segments, S segment) :
    (copyWinners winners (parent.join ⟨name⟩)).KeepsTo (l ++ [name]) s := by
  induction winners generalizing s files with
  | nil => exact .pure hfiles.directory_self ()
  | cons winner rest ih =>
    obtain ⟨hne, hnames, hsource⟩ := hwinners winner (List.mem_cons_self ..)
    have hleads := htemp.leads_ofNames hfiles.directory_self hne hnames
    refine .bind (copyInto_besides winner.2 hleads (hfiles.noLinks _) hne) fun u t hcopy => ?_
    obtain ⟨-, hstep, bytes, -, hholds⟩ :=
      copyInto_holds hfiles htemp.closed htemp.not_spelled hsource hleads hne hcopy
    exact ih (htemp.of_besides hstep) hholds fun w hw => hwinners w (List.mem_cons_of_mem _ hw)

end ResourceMerge

end AndroidResources
