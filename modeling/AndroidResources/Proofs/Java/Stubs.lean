import AndroidResources.Proofs.Build.Writing
import AndroidResources.Proofs.Java.SourceTree
import AndroidResources.Proofs.Layout.Files
import AndroidResources.Proofs.Path.Steps
import Mathlib.Data.List.Nodup

/-!
# Includes and stubs

The classes that includes refer to, the layouts that are kept, and the stubs that are written are
worked out one by one from the same layout files. They agree.

* `LayoutModule.withOwn` : a module that knows the layouts in its own files;
* `resolveInclude_own`, `included_of_readLayout` : the class of an include of one of them;
* `BindingStub.writeAll_eq` : stubs are files with names in one directory;
* `StubsAgree`, `stubsAgree` : what is included is written.
-/

namespace AndroidResources

open FileSystem

/-! ## Layouts of the module itself -/

/-- A module that looks an included layout up among its own layout files first. -/
def LayoutModule.withOwn (package : Text) (config : BindingConfig) (files : List Path)
    (dependencies : LayoutTypes) : LayoutModule where
  package := package
  scopes := .ownFirst (.ofLayouts package config.packageSuffix files) dependencies
  config := config

theorem LayoutTypes.ofLayouts_eq (package suffix : Text) (files : List Path) :
    LayoutTypes.ofLayouts package suffix files = OrderedMap.ofList (files.map fun file =>
      (Identifier.layoutName file,
        JavaType.classRef (bindingClassOf package suffix (Identifier.layoutName file)))) := by
  unfold LayoutTypes.ofLayouts OrderedMap.ofList
  rw [List.foldl_map]

/-- Several files may hold layouts of one name; they have one class. -/
theorem LayoutTypes.get?_ofLayouts (package suffix : Text) {files : List Path} {file : Path}
    (hfile : file ∈ files) :
    (LayoutTypes.ofLayouts package suffix files).get? (Identifier.layoutName file) =
      some (.classRef (bindingClassOf package suffix (Identifier.layoutName file))) := by
  rw [ofLayouts_eq]
  apply OrderedMap.get?_ofList_of_mem
  · exact List.mem_map.2 ⟨file, hfile, rfl⟩
  · intro type hmem
    obtain ⟨other, -, heq⟩ := List.mem_map.1 hmem
    obtain ⟨hname, rfl⟩ := Prod.mk.inj heq
    rw [hname]

theorem LayoutTypes.get?_ofLayouts_eq_none (package suffix : Text) {files : List Path}
    {layout : Text} (h : layout ∉ files.map Identifier.layoutName) :
    (LayoutTypes.ofLayouts package suffix files).get? layout = none := by
  rw [ofLayouts_eq]
  refine OrderedMap.get?_ofList_eq_none fun type hmem => h ?_
  obtain ⟨file, hfile, heq⟩ := List.mem_map.1 hmem
  exact List.mem_map.2 ⟨file, hfile, (Prod.mk.inj heq).1⟩

namespace LayoutModule

variable {package : Text} {config : BindingConfig} {files : List Path} {dependencies : LayoutTypes}

theorem resolveInclude_own {file : Path} (hfile : file ∈ files) :
    (withOwn package config files dependencies).scopes.resolveInclude package config.packageSuffix
        (Identifier.layoutName file) =
      .known .ownModule
        (.classRef (bindingClassOf package config.packageSuffix (Identifier.layoutName file))) := by
  unfold Scopes.resolveInclude Scopes.lookup withOwn Scopes.ownFirst
  simp only
  rw [List.findSome?_cons, LayoutTypes.get?_ofLayouts package config.packageSuffix hfile]
  rfl

theorem included_of_view? {m : LayoutModule} {t : LayoutTag} {view : Binding} {layout : Text}
    {missing : Bool} (h : m.view? t = some view) (horigin : view.origin = .included layout missing) :
    view.type = (m.scopes.resolveInclude m.package m.config.packageSuffix layout).type ∧
      missing = (m.scopes.resolveInclude m.package m.config.packageSuffix layout).isGuessed := by
  unfold view? at h
  split at h
  · cases h
  · split at h
    · cases h
    · split at h
      · obtain ⟨target, -, rfl⟩ := Option.map_eq_some_iff.1 h
        cases horigin
        exact ⟨rfl, rfl⟩
      · cases h
        cases horigin

theorem included_of_readLayout {m : LayoutModule} {file : Path} {contents : Text}
    {declared : LayoutBindings} {view : Binding} {layout : Text} {missing : Bool}
    (h : m.readLayout file contents = .ok declared) (hview : view ∈ declared.views)
    (horigin : view.origin = .included layout missing) :
    view.type = (m.scopes.resolveInclude m.package m.config.packageSuffix layout).type ∧
      missing = (m.scopes.resolveInclude m.package m.config.packageSuffix layout).isGuessed := by
  obtain ⟨-, -, rfl⟩ := readLayout_eq_ok.1 h
  unfold viewsOf at hview
  rw [List.mem_eraseDups, List.mem_filterMap] at hview
  obtain ⟨t, -, ht⟩ := hview
  exact included_of_view? ht horigin

end LayoutModule

/-! ## The files of stubs -/

def BindingStub.named (config : BindingConfig) (package : Text) (layout : LayoutBindings) :
    Text × Text :=
  (layout.className ++ ".java", BindingStub.source config package layout)

def BindingStub.path (config : BindingConfig) (root : Path) (package : Text)
    (layout : LayoutBindings) : Path :=
  JavaSource.file root (bindingPackage package config.packageSuffix) layout.className

namespace BindingStub

variable {config : BindingConfig} {root : Path} {package : Text} {layouts : List LayoutBindings}

theorem writeAll_eq (config : BindingConfig) (root : Path) (package : Text)
    (layouts : List LayoutBindings) :
    writeAll config root package layouts =
      writeNamed (JavaSource.directory root (bindingPackage package config.packageSuffix))
        (layouts.map (named config package)) := by
  unfold writeAll writeNamed
  rw [List.mapM_map]
  rfl

theorem isName_named (hclasses : ∀ layout ∈ layouts, '/' ∉ layout.className) :
    ∀ source ∈ layouts.map (named config package), IsName source.1 := by
  intro source hsource
  obtain ⟨layout, hlayout, rfl⟩ := List.mem_map.1 hsource
  exact JavaSource.isName_file (hclasses layout hlayout)

theorem nodup_named (h : (layouts.map (·.className)).Nodup) :
    ((layouts.map (named config package)).map Prod.fst).Nodup := by
  have hnames : (layouts.map (named config package)).map Prod.fst =
      (layouts.map (·.className)).map (· ++ ".java".toList) := by
    rw [List.map_map, List.map_map]
    rfl
  rw [hnames]
  exact List.Nodup.map (fun _ _ heq => List.append_cancel_right heq) h

theorem components_path {layout : LayoutBindings} (hclass : '/' ∉ layout.className) :
    (path config root package layout).components =
      (JavaSource.directory root (bindingPackage package config.packageSuffix)).components ++
        [.normal (layout.className ++ ".java")] := by
  have hname := JavaSource.isName_file hclass
  have hstep : Path.component? (layout.className ++ ".java") =
      some (.normal (layout.className ++ ".java")) := by
    unfold Path.component?
    rw [Path.isIdle_of_isName hname, if_neg Bool.false_ne_true, if_neg hname.2.2.1]
  have hsingle : Path.leadingComponent ⟨layout.className ++ ".java"⟩ = [] ∧
      Path.components ⟨layout.className ++ ".java"⟩ = [.normal (layout.className ++ ".java")] :=
    @Path.components_single (.normal (layout.className ++ ".java")) hstep hname.2.2.2
  unfold path JavaSource.file
  rw [Path.components_join _ hsingle.1, hsingle.2]

theorem nodup_paths (hclasses : ∀ layout ∈ layouts, '/' ∉ layout.className)
    (h : (layouts.map (·.className)).Nodup) :
    (layouts.map fun layout => (path config root package layout).components).Nodup := by
  refine h.of_map.map_on fun left hleft right hright heq => ?_
  rw [components_path (hclasses left hleft), components_path (hclasses right hright)] at heq
  obtain ⟨-, hlast⟩ := List.append_inj' heq rfl
  have hclass : left.className = right.className :=
    List.append_cancel_right (Path.Component.normal.inj (List.cons.inj hlast).1)
  exact List.inj_on_of_nodup_map h hleft hright hclass

theorem source_eq (config : BindingConfig) (package : Text) (layout : LayoutBindings) :
    ∃ rest, source config package layout =
      Text.ofLines [JavaSource.header,
        "package " ++ bindingPackage package config.packageSuffix ++ ";", [],
        "public abstract class " ++ layout.className ++ " extends " ++ config.baseClass ++ " \x7b"] ++
          rest := by
  unfold source
  rw [List.append_assoc (headLines config package layout.className), Text.ofLines,
    List.flatMap_append, List.append_assoc, List.append_assoc]
  exact ⟨_, rfl⟩

end BindingStub

/-! ## Both together -/

/-- The bindings of a module's layout files agree with the stubs that are written for them. -/
structure StubsAgree (package : Text) (config : BindingConfig) (files : List Path)
    (layouts : List LayoutBindings) : Prop where
  /-- An include of one of the files is known, its type is the class that the file has, and there is
  a layout of this class. -/
  included : ∀ layout ∈ layouts, ∀ view ∈ layout.views, ∀ file ∈ files, ∀ missing,
    view.origin = .included (Identifier.layoutName file) missing →
      missing = false ∧
      view.type = .classRef ⟨bindingPackage package config.packageSuffix ++ "." ++
        Identifier.bindingClass (Identifier.layoutName file)⟩ ∧
      ∃ target ∈ layouts,
        target.className = Identifier.bindingClass (Identifier.layoutName file)
  classes : (layouts.map (·.className)).Nodup ∧ ∀ name, name ∈ layouts.map (·.className) ↔
    ∃ file ∈ files, Identifier.bindingClass (Identifier.layoutName file) = name
  paths : ∀ root, (layouts.map fun layout =>
    (BindingStub.path config root package layout).components).Nodup
  declares : ∀ layout ∈ layouts, ∃ rest, BindingStub.source config package layout =
    Text.ofLines [JavaSource.header,
      "package " ++ bindingPackage package config.packageSuffix ++ ";", [],
      "public abstract class " ++ layout.className ++ " extends " ++ config.baseClass ++ " \x7b"] ++
        rest
  /-- A stub is read where it has just been written. -/
  write : ∀ root s s' file, ∀ layout ∈ layouts,
    (BindingStub.write config root package layout).perform s = (.ok file, s') →
      file = BindingStub.path config root package layout ∧
      s'.files.readBytes file = .ok (Text.toUtf8 (BindingStub.source config package layout))
  /-- When all of them have been written, each is read there, unless one of them is a link to
  somewhere else. -/
  writeAll : ∀ root s s' written,
    (BindingStub.writeAll config root package layouts).perform s = (.ok written, s') →
      written = layouts.map (BindingStub.path config root package) ∧
      ((∀ file ∈ written, s'.files.isLink file = false) → ∀ layout ∈ layouts,
        s'.files.readBytes (BindingStub.path config root package layout) =
          .ok (Text.toUtf8 (BindingStub.source config package layout)))
  /-- They can be written where no file or link is in the way and none of them is a directory. -/
  succeeds : ∀ (root : Path) (s : BuildState) base names,
    s.files.Leads (JavaSource.directory root (bindingPackage package config.packageSuffix)) base
      names → s.files.NoLinks base names → ¬ s.files.FileOnTheWay base names →
    (∀ layout ∈ layouts, s.files.get? (base ++ names ++ [layout.className ++ ".java"]) = none ∨
      ∃ content, s.files.get? (base ++ names ++ [layout.className ++ ".java"]) =
        some (.file content)) →
    ∃ written s', (BindingStub.writeAll config root package layouts).perform s = (.ok written, s')

/-- **No include is left without its class.** Where a module's layout files can be read, an include
of one of them has the class of a stub that is written, and each class is written once. -/
theorem stubsAgree {package : Text} {config : BindingConfig} {fs : FileSystem} {files : List Path}
    {dependencies : LayoutTypes} {layouts : List LayoutBindings}
    (h : (LayoutModule.withOwn package config files dependencies).readFiles fs files = .ok layouts) :
    StubsAgree package config files layouts where
  included := by
    intro layout hlayout view hview file hfile missing horigin
    obtain ⟨other, -, contents, hread⟩ := LayoutModule.exists_of_readFiles h hlayout
    obtain ⟨htype, hmissing⟩ := LayoutModule.included_of_readLayout hread hview horigin
    have hown : (LayoutModule.withOwn package config files dependencies).scopes.resolveInclude
        package config.packageSuffix (Identifier.layoutName file) = _ :=
      LayoutModule.resolveInclude_own hfile
    replace htype : view.type = (Scopes.resolveInclude _ package config.packageSuffix _).type := htype
    replace hmissing : missing =
        (Scopes.resolveInclude _ package config.packageSuffix _).isGuessed := hmissing
    rw [hown] at htype hmissing
    have hclass := (LayoutModule.mem_className_of_readFiles h _).2 ⟨file, hfile, rfl⟩
    refine ⟨hmissing, htype.trans ?_, List.mem_map.1 hclass⟩
    have hne : bindingPackage package config.packageSuffix ≠ [] := by simp [bindingPackage]
    show JavaType.classRef (bindingClassOf _ _ _) = _
    unfold bindingClassOf ClassName.inPackage
    rw [if_neg hne]
  classes := ⟨LayoutModule.nodup_of_readFiles h, LayoutModule.mem_className_of_readFiles h⟩
  paths := fun root =>
    BindingStub.nodup_paths (LayoutModule.slash_not_mem_className h)
      (LayoutModule.nodup_of_readFiles h)
  declares := fun layout _ => BindingStub.source_eq config package layout
  write := by
    intro root s s' file layout _ hwrite
    obtain ⟨u, t, hwrite, hfile⟩ := Action.bind_eq_ok.1 hwrite
    cases hfile
    exact ⟨rfl, writeInto_readBytes hwrite⟩
  writeAll := by
    intro root s s' written hwrite
    rw [BindingStub.writeAll_eq] at hwrite
    have hpaths : written = layouts.map (BindingStub.path config root package) := by
      rw [writeNamed_paths hwrite, List.map_map]
      rfl
    refine ⟨hpaths, fun hlinks layout hlayout => ?_⟩
    have hread := writeNamed_readBytes
      (BindingStub.isName_named (LayoutModule.slash_not_mem_className h))
      (BindingStub.nodup_named (LayoutModule.nodup_of_readFiles h)) hwrite fun source hsource => by
        obtain ⟨other, hother, rfl⟩ := List.mem_map.1 hsource
        apply hlinks
        rw [hpaths]
        exact List.mem_map.2 ⟨other, hother, rfl⟩
    exact hread _ (List.mem_map_of_mem hlayout)
  succeeds := by
    intro root s base names hleads hlinks hfile hfree
    rw [BindingStub.writeAll_eq]
    refine writeNamed_succeeds hleads hlinks hfile
      (BindingStub.isName_named (LayoutModule.slash_not_mem_className h)) fun source hsource => ?_
    obtain ⟨layout, hlayout, rfl⟩ := List.mem_map.1 hsource
    exact hfree layout hlayout

/-- A layout that includes another one, and two files that have one class. -/
def includingFiles : FileSystem :=
  ((FileSystem.empty.place ["main.xml"]
      (.file (Text.toUtf8 "<include android:id='@+id/row' layout='@layout/row-item'/>"))).place
    ["row-item.xml"] (.file (Text.toUtf8 "<View/>"))).place ["row_item.xml"] (.file (Text.toUtf8 "<a/>"))

/-- Whatever its dependencies say, the module refers to its own class, which it writes once. -/
theorem stubsAgree_rowItem :
    let files : List Path := ["main.xml", "row_item.xml", "row-item.xml"]
    let dependencies : LayoutTypes := .ofList [("row-item", .classRef ⟨"lib.RowItemBinding"⟩)]
    let layouts : List LayoutBindings :=
      [⟨"MainBinding", "main.xml", [⟨"row", .classRef ⟨"com.app.databinding.RowItemBinding"⟩,
          .included "row-item" false⟩], []⟩,
        ⟨"RowItemBinding", "row_item.xml", [], []⟩]
    (LayoutModule.withOwn "com.app" {} files dependencies).readFiles includingFiles files =
        .ok layouts ∧
      StubsAgree "com.app" {} files layouts := by
  intro files dependencies layouts
  have hread : (LayoutModule.withOwn "com.app" {} files dependencies).readFiles includingFiles files =
      .ok layouts := by
    decide +kernel
  exact ⟨hread, stubsAgree hread⟩

end AndroidResources
