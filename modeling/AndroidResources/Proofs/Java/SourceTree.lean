import AndroidResources.Java.SourceTree
import AndroidResources.Layout.Files
import AndroidResources.Proofs.Build.Staging
import AndroidResources.Proofs.Layout.Files

/-!
# Where generated sources are written

* `Identifier.slash_not_mem_bindingClass` : the name of a binding class is a single name;
* `JavaSource.StaysBelow` : a package whose directory lies below any source root;
* `JavaSource.place`, `JavaSource.leads_file` : the names that lead from a source root to a class;
* `BindingStub.addTo`, `BindingStub.addTo_of_mem` : a tree with stubs added, and where each of them is;
* `FileSystem.Anchored` : a source root in a directory, whatever else is in that;
* `writeClass_holds`, `writeAll_holds` : what writing a class or all stubs changes.
-/

namespace AndroidResources

open FileSystem

/-! ## Names of binding classes -/

namespace Text

theorem ofNat_ne_slash {code : Nat} (h : 0x30 ≤ code) : Char.ofNat code ≠ '/' := by
  intro heq
  have hcode := congrArg Char.toNat heq
  unfold Char.ofNat at hcode
  by_cases hvalid : code.isValidChar
  · rw [dif_pos hvalid] at hcode
    have : code = 0x2f := hcode
    omega
  · rw [dif_neg hvalid] at hcode
    cases hcode

/-- No character becomes a slash in upper case: the tables map to code points behind that. -/
theorem slash_not_mem_upperChar {c : Char} (h : c ≠ '/') : '/' ∉ upperChar c := by
  have hruns : ∀ run ∈ upperRuns, 0x30 ≤ run.image := by decide +kernel
  have hexpansions : ∀ entry ∈ upperExpansions, ∀ code ∈ entry.2, 0x30 ≤ code := by decide +kernel
  unfold upperChar mapCase
  split
  · next codes hlookup =>
    intro hmem
    obtain ⟨code, hcode, heq⟩ := List.mem_map.1 hmem
    obtain ⟨before, after, hsplit, -⟩ := List.lookup_eq_some_iff.1 hlookup
    exact ofNat_ne_slash (hexpansions (c.toNat, codes) (by simp [hsplit]) code hcode) heq
  · split
    · next code himage =>
      obtain ⟨run, hrun, hrunImage⟩ := List.exists_of_findSome?_eq_some himage
      have hle := hruns run hrun
      unfold CaseRun.imageOf? at hrunImage
      split at hrunImage
      · cases hrunImage
        rw [List.mem_singleton]
        exact (ofNat_ne_slash (by omega)).symm
      · cases hrunImage
    · simpa using Ne.symm h

end Text

namespace Identifier

theorem slash_not_mem_className {name : Text} (h : '/' ∉ name) : '/' ∉ className name := by
  unfold className
  rw [List.mem_flatMap]
  rintro ⟨word, hword, hslash⟩
  have hsub : ∀ c ∈ word, c ∈ name := fun c hc =>
    (Text.mem_of_mem_splitOnP (List.mem_filter.1 hword).1 c hc).1
  cases word with
  | nil => cases hslash
  | cons c rest =>
    rcases List.mem_append.1 hslash with hfirst | hrest
    · exact Text.slash_not_mem_upperChar (fun heq => h (heq ▸ hsub c (List.mem_cons_self ..))) hfirst
    · exact h (hsub _ (List.mem_cons_of_mem _ hrest))

theorem slash_not_mem_layoutName (file : Path) : '/' ∉ layoutName file := by
  have hname : '/' ∉ file.fileName?.getD [] := by
    cases hfile : file.fileName? with
    | none => simp
    | some name => exact (Path.isName_of_fileName? hfile).2.2.2
  unfold layoutName
  simp only
  cases hbefore : Text.beforeFirst? ".xml" (file.fileName?.getD []) with
  | none => exact hname
  | some before => exact fun hslash => hname (Text.mem_of_beforeFirst? hbefore _ hslash)

theorem slash_not_mem_bindingClass (file : Path) : '/' ∉ bindingClass (layoutName file) := by
  unfold bindingClass
  rw [List.mem_append, not_or]
  exact ⟨slash_not_mem_className (slash_not_mem_layoutName file), by decide⟩

end Identifier

namespace LayoutModule

variable {m : LayoutModule} {fs : FileSystem}

theorem className_of_readLayout {file : Path} {contents : Text} {layout : LayoutBindings}
    (h : m.readLayout file contents = .ok layout) :
    layout.className = Identifier.bindingClass (Identifier.layoutName file) := by
  unfold readLayout at h
  obtain ⟨walk, -, h⟩ := exists_of_bind_eq_ok h
  split at h
  · cases h
  · cases h
    rfl

theorem exists_readSource_of_readFiles {files : List Path} {layouts : List LayoutBindings}
    (h : m.readFiles fs files = .ok layouts) {layout : LayoutBindings} (hlayout : layout ∈ layouts) :
    ∃ file ∈ files, ∃ contents, fs.readSource file = .ok contents ∧
      m.readLayout file contents = .ok layout := by
  obtain ⟨hfirst, contents, hcontents, hread⟩ := holds_of_mem h hlayout
  exact ⟨layout.source, (firstsBy_sublist classOfFile files).subset hfirst, contents, hcontents, hread⟩

theorem exists_of_readFiles {files : List Path} {layouts : List LayoutBindings}
    (h : m.readFiles fs files = .ok layouts) {layout : LayoutBindings} (hlayout : layout ∈ layouts) :
    ∃ file ∈ files, ∃ contents, m.readLayout file contents = .ok layout := by
  obtain ⟨file, hfile, contents, -, hread⟩ := exists_readSource_of_readFiles h hlayout
  exact ⟨file, hfile, contents, hread⟩

theorem slash_not_mem_className {files : List Path} {layouts : List LayoutBindings}
    (h : m.readFiles fs files = .ok layouts) : ∀ layout ∈ layouts, '/' ∉ layout.className := by
  intro layout hlayout
  obtain ⟨file, -, contents, hread⟩ := exists_of_readFiles h hlayout
  rw [className_of_readLayout hread]
  exact Identifier.slash_not_mem_bindingClass file

end LayoutModule

/-! ## Places of classes -/

namespace JavaSource

variable {fs : FileSystem} {root : Path} {l : Location} {base : List Text} {package className : Text}

/-- No part of the name of the package is an absolute path. -/
def StaysBelow (package : Text) : Prop :=
  ∀ part ∈ package.splitOn '.', Path.isAbsolute ⟨part⟩ = false

instance (package : Text) : Decidable (StaysBelow package) :=
  inferInstanceAs (Decidable (∀ part ∈ package.splitOn '.', _))

/-- The module's own package stays below a root if that of its binding classes does. -/
theorem StaysBelow.of_bindingPackage {suffix : Text}
    (h : StaysBelow (bindingPackage package suffix)) : StaysBelow package := by
  intro part hpart
  apply h part
  have hsplit : (bindingPackage package suffix).splitOn '.' =
      package.splitOn '.' ++ suffix.splitOn '.' := by
    unfold bindingPackage
    rw [List.append_assoc]
    exact List.splitOn_append_cons_self package suffix
  rw [hsplit]
  exact List.mem_append_left _ hpart

/-- The names that lead from a source root to the file of a class. -/
def place (package className : Text) : List Text :=
  ((package.splitOn '.').filter (· ≠ [])).flatMap
    (fun part => Path.properNames (Path.segments ⟨part⟩)) ++ [className ++ ".java"]

theorem place_ne_nil (package className : Text) : place package className ≠ [] := by
  simp [place]

theorem place_inj {package left right : Text} (h : place package left = place package right) :
    left = right := by
  obtain ⟨-, hlast⟩ := List.append_inj' h rfl
  exact List.append_cancel_right (List.cons.inj hlast).1

theorem leads_directory (h : fs.Leads root l base) (hpackage : StaysBelow package) :
    fs.Leads (directory root package) l (base ++ ((package.splitOn '.').filter (· ≠ [])).flatMap
      fun part => Path.properNames (Path.segments ⟨part⟩)) := by
  have hparts : ∀ part ∈ (package.splitOn '.').filter (· ≠ []),
      Path.isAbsolute ⟨part⟩ = false ∧ "..".toList ∉ Path.segments ⟨part⟩ := by
    intro part hpart
    have hmem := (List.mem_filter.1 hpart).1
    refine ⟨hpackage part hmem, fun hup => ?_⟩
    -- dots are between the parts
    have hdot : '.' ∈ part := (Text.mem_of_mem_splitOn hup _ (by decide)).1
    exact (Text.mem_of_mem_splitOn hmem _ hdot).2 rfl
  unfold directory
  generalize (package.splitOn '.').filter (· ≠ []) = parts at hparts ⊢
  induction parts generalizing root base with
  | nil => simpa using h
  | cons part rest ih =>
    obtain ⟨hrelative, hup⟩ := hparts part (List.mem_cons_self ..)
    have hrest := ih (h.join hrelative hup) fun other hother =>
      hparts other (List.mem_cons_of_mem _ hother)
    rwa [List.append_assoc] at hrest

theorem isName_file (hclass : '/' ∉ className) : IsName (className ++ ".java") := by
  have hlong : 5 ≤ (className ++ ".java".toList).length := by
    rw [List.length_append]
    exact Nat.le_add_left ..
  refine ⟨?_, ?_, ?_, ?_⟩
  · intro heq
    rw [heq] at hlong
    exact absurd hlong (by decide)
  · intro heq
    rw [heq] at hlong
    exact absurd hlong (by decide)
  · intro heq
    rw [heq] at hlong
    exact absurd hlong (by decide)
  · rw [List.mem_append, not_or]
    exact ⟨hclass, by decide⟩

theorem leads_file (h : fs.Leads root l base) (hpackage : StaysBelow package)
    (hclass : '/' ∉ className) :
    fs.Leads (file root package className) l (base ++ place package className) := by
  have hleads := (leads_directory h hpackage).concat (isName_file hclass)
  rwa [List.append_assoc] at hleads

end JavaSource

/-! ## Stubs among other files -/

namespace BindingStub

/-- The files with the stubs of layouts, by the names from where the source root has names itself. -/
def addTo (config : BindingConfig) (base : List Text) (package : Text)
    (layouts : List LayoutBindings) (files : List Text → Option ByteArray) :
    List Text → Option ByteArray :=
  layouts.foldl (fun files layout => Function.update files
    (base ++ JavaSource.place (bindingPackage package config.packageSuffix) layout.className)
    (some (Text.toUtf8 (BindingStub.source config package layout)))) files

variable {config : BindingConfig} {base names : List Text} {package : Text}
  {layouts : List LayoutBindings} {files : List Text → Option ByteArray}

theorem addTo_of_ne (h : ∀ layout ∈ layouts, names ≠
      base ++ JavaSource.place (bindingPackage package config.packageSuffix) layout.className) :
    addTo config base package layouts files names = files names := by
  induction layouts generalizing files with
  | nil => rfl
  | cons layout rest ih =>
    refine (ih fun other hother => h other (List.mem_cons_of_mem _ hother)).trans ?_
    exact Function.update_of_ne (h layout (List.mem_cons_self ..)) _ _

theorem addTo_of_mem (h : (layouts.map (·.className)).Nodup) {layout : LayoutBindings}
    (hlayout : layout ∈ layouts) :
    addTo config base package layouts files
        (base ++ JavaSource.place (bindingPackage package config.packageSuffix) layout.className) =
      some (Text.toUtf8 (BindingStub.source config package layout)) := by
  induction layouts generalizing files with
  | nil => cases hlayout
  | cons first rest ih =>
    rw [List.map_cons, List.nodup_cons] at h
    obtain rfl | hlayout := List.mem_cons.1 hlayout
    · -- the stubs behind it are those of other classes
      have hrest : ∀ other ∈ rest,
          base ++ JavaSource.place (bindingPackage package config.packageSuffix) layout.className ≠
            base ++ JavaSource.place (bindingPackage package config.packageSuffix) other.className := by
        intro other hother heq
        apply h.1
        rw [JavaSource.place_inj (List.append_cancel_left heq)]
        exact List.mem_map_of_mem hother
      exact (addTo_of_ne hrest).trans (Function.update_self ..)
    · exact ih h.2 hlayout

theorem addTo_below (config : BindingConfig) (base : List Text) (package : Text)
    (layouts : List LayoutBindings) (files : List Text → Option ByteArray) :
    (fun names => addTo config base package layouts files (base ++ names)) =
      addTo config [] package layouts fun names => files (base ++ names) := by
  induction layouts generalizing files with
  | nil => rfl
  | cons layout rest ih =>
    have hupdate := Function.update_comp_eq_of_injective files
      (fun _ _ heq => List.append_cancel_left heq : Function.Injective (base ++ ·))
      (JavaSource.place (bindingPackage package config.packageSuffix) layout.className)
      (some (Text.toUtf8 (BindingStub.source config package layout)))
    refine (ih _).trans ?_
    exact congrArg (addTo config [] package rest) hupdate

end BindingStub

/-! ## Writing classes -/

/-- From the directory at the location the path leads down the names, whatever else is below it. -/
def FileSystem.Anchored (fs : FileSystem) (root : Path) (l : Location) (base : List Text) : Prop :=
  ∀ fs', Besides l fs fs' → fs'.get? l = some .directory → fs'.Leads root l base

theorem FileSystem.Anchored.of_besides {fs fs' : FileSystem} {root : Path} {l : Location}
    {base : List Text} (h : fs.Anchored root l base) (hsame : Besides l fs fs') :
    fs'.Anchored root l base :=
  fun g hg hdir => h g (hsame.trans hg) hdir

theorem FileSystem.Temporary.anchored {S : Text → Prop} {fs : FileSystem} {parent : Path}
    {l : Location} {name sub : Text} (h : Temporary S fs parent l name) (hsub : IsName sub) :
    fs.Anchored ((parent.join ⟨name⟩).join ⟨sub⟩) (l ++ [name]) [sub] :=
  fun _ hsame hdir => ((h.of_besides hsame).leads.into h.isName hdir).child hsub

def writeClass (root : Path) (package className text : Text) : Action Path := do
  let file := JavaSource.file root package className
  writeInto file text
  return file

section

variable {s s' : BuildState} {root : Path} {l : Location} {base : List Text}
  {files : List Text → Option ByteArray} {package className text : Text}

theorem writeClass_keepsTo (hroot : s.files.Anchored root l base) (hfiles : s.files.Holds l files)
    (hpackage : JavaSource.StaysBelow package) (hclass : '/' ∉ className) :
    (writeClass root package className text).KeepsTo l s := by
  have hleads := hroot s.files (.refl _ _) hfiles.directory_self
  have hwrite := writeInto_besides text (JavaSource.leads_file hleads hpackage hclass)
    (hfiles.noLinks _) (by simp [JavaSource.place_ne_nil])
  refine .bind hwrite fun u t hperform => .pure ?_ _
  unfold Action.KeepsTo at hwrite
  rw [hperform] at hwrite
  exact hwrite.2

theorem writeClass_holds {file : Path} (hroot : s.files.Anchored root l base)
    (hfiles : s.files.Holds l files) (hpackage : JavaSource.StaysBelow package)
    (hclass : '/' ∉ className)
    (h : (writeClass root package className text).perform s = (.ok file, s')) :
    s'.calls = s.calls ∧ Besides l s.files s'.files ∧
      s'.files.Holds l (Function.update files (base ++ JavaSource.place package className)
        (some (Text.toUtf8 text))) := by
  have hleads := hroot s.files (.refl _ _) hfiles.directory_self
  obtain ⟨u, t, hwrite, hpure⟩ := Action.bind_eq_ok.1 h
  cases hpure
  exact writeInto_holds hfiles (JavaSource.leads_file hleads hpackage hclass)
    (by simp [JavaSource.place_ne_nil]) hwrite

/-- Whether it succeeds or not, writing stubs changes only what is below the directory. -/
theorem writeAll_keepsTo {config : BindingConfig} {layouts : List LayoutBindings}
    (hroot : s.files.Anchored root l base) (hfiles : s.files.Holds l files)
    (hpackage : JavaSource.StaysBelow (bindingPackage package config.packageSuffix))
    (hclasses : ∀ layout ∈ layouts, '/' ∉ layout.className) :
    (BindingStub.writeAll config root package layouts).KeepsTo l s := by
  induction layouts generalizing s files with
  | nil => exact .pure hfiles.directory_self []
  | cons layout rest ih =>
    have hclass := hclasses layout (List.mem_cons_self ..)
    unfold BindingStub.writeAll
    rw [List.mapM_cons]
    refine .bind (writeClass_keepsTo hroot hfiles hpackage hclass) fun file t hwrite => ?_
    obtain ⟨-, hsame, hholds⟩ := writeClass_holds hroot hfiles hpackage hclass hwrite
    have hrest := ih (hroot.of_besides hsame) hholds
      fun other hother => hclasses other (List.mem_cons_of_mem _ hother)
    refine .bind hrest fun others t' hperform => .pure ?_ _
    unfold Action.KeepsTo BindingStub.writeAll at hrest
    rw [hperform] at hrest
    exact hrest.2

/-- Stubs come to their places below the source root and to no others. -/
theorem writeAll_holds {config : BindingConfig} {layouts : List LayoutBindings} {written : List Path}
    (hroot : s.files.Anchored root l base) (hfiles : s.files.Holds l files)
    (hpackage : JavaSource.StaysBelow (bindingPackage package config.packageSuffix))
    (hclasses : ∀ layout ∈ layouts, '/' ∉ layout.className)
    (h : (BindingStub.writeAll config root package layouts).perform s = (.ok written, s')) :
    s'.calls = s.calls ∧ Besides l s.files s'.files ∧
      s'.files.Holds l (BindingStub.addTo config base package layouts files) := by
  induction layouts generalizing s files written with
  | nil =>
    cases h
    exact ⟨rfl, .refl _ _, hfiles⟩
  | cons layout rest ih =>
    have hclass := hclasses layout (List.mem_cons_self ..)
    unfold BindingStub.writeAll at h
    rw [List.mapM_cons] at h
    obtain ⟨file, t, hwrite, hrest⟩ := Action.bind_eq_ok.1 h
    obtain ⟨others, t', hothers, hpure⟩ := Action.bind_eq_ok.1 hrest
    cases hpure
    obtain ⟨hcalls, hsame, hholds⟩ := writeClass_holds hroot hfiles hpackage hclass hwrite
    obtain ⟨hcalls', hsame', hholds'⟩ := ih (hroot.of_besides hsame) hholds
      (fun other hother => hclasses other (List.mem_cons_of_mem _ hother)) hothers
    exact ⟨hcalls'.trans hcalls, hsame.trans hsame', hholds'⟩

end

end AndroidResources
