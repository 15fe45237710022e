import AndroidResources.Config.Basic
import AndroidResources.Error
import AndroidResources.Java.TypeExpression
import AndroidResources.Layout.Scope
import AndroidResources.Xml.Event

/-!
# Layout documents

* `LayoutModule` : the module that a layout belongs to, with its scopes and configuration;
* `LayoutWalk` : what the tags so far have declared, `LayoutModule.visit` adds a tag;
* `LayoutModule.readLayout` : the bindings of a document;
* `keepFirst` : the first layout of each class name.

A tag's attributes are all read before the tag counts, so a faulty attribute hides a missing one.
-/

namespace AndroidResources

structure LayoutModule where
  package : Text
  scopes : Scopes
  config : BindingConfig

/-- What the tags so far have declared. -/
structure LayoutWalk where
  imports : Imports := .empty
  views : List Binding := []
  «variables» : List Binding := []

def addNew [DecidableEq α] (l : List α) (a : α) : List α :=
  if a ∈ l then l else l ++ [a]

structure MissingAttribute where
  name : Text
  tag : Text

def require (tag : Text) (attributes : List (Text × Text)) (name : Text) :
    Except MissingAttribute Text :=
  match attributes.lookup name with
  | some value => .ok value
  | none => .error ⟨name, tag⟩

/-- The views whose classes are outside the widget package, with their packages. -/
def viewPackages : List (Text × Text) :=
  [("View", "android.view"), ("ViewGroup", "android.view"), ("TextureView", "android.view"),
    ("SurfaceView", "android.view"), ("WebView", "android.webkit")]

namespace LayoutModule

/-- The type of a view tag. A tag with a dot names its class in full. -/
def viewType (m : LayoutModule) (tag : Text) : JavaType :=
  if '.' ∈ tag then .ofClass tag
  else if tag = "ViewStub" then .ofClass m.config.viewStubProxy
  else .classRef (.inPackage ((viewPackages.lookup tag).getD "android.widget") tag)

/-- The binding of a tag that is neither import nor variable. There is one where the tag has an
id with a plus sign. -/
def binding? (m : LayoutModule) (tag : Text) (attributes : List (Text × Text)) :
    Except MissingAttribute (Option Binding) := do
  match attributes.lookup "android:id".toList with
  | none => return none
  | some id =>
    if '+' ∉ id then return none
    else
      let name := Text.afterLast "@+id/" id
      if name = [] then throw ⟨"android:id", tag⟩
      else if tag = "include" then
        let target ← require tag attributes "layout"
        let layout := Text.afterLast "@layout/" target
        let found := m.scopes.resolveInclude m.package m.config.packageSuffix layout
        return some ⟨name, found.type, .included layout found.isGuessed⟩
      else return some ⟨name, m.viewType tag, .view⟩

/-- What the tags have declared after one more tag. -/
def visit (m : LayoutModule) (walk : LayoutWalk) (tag : Text) (attributes : List (Text × Text)) :
    Except MissingAttribute LayoutWalk := do
  if tag = "import" then
    let type ← require tag attributes "type"
    return { walk with imports := walk.imports.add type (attributes.lookup "alias".toList) }
  else if tag = "variable" then
    let name ← require tag attributes "name"
    let expression ← require tag attributes "type"
    let type := JavaType.resolve walk.imports expression
    return { walk with «variables» := addNew walk.variables ⟨name, type, .declared⟩ }
  else
    match ← m.binding? tag attributes with
    | some binding => return { walk with views := addNew walk.views binding }
    | none => return walk

def visitEvent (m : LayoutModule) (file : Path) (walk : LayoutWalk) (event : Xml.Event) :
    Except BuildError LayoutWalk :=
  match event with
  | .closed => .ok walk
  | .opened tag | .empty tag => do
    let attributes ← tag.values.mapError (.xml file)
    (m.visit walk tag.name attributes).mapError fun missing =>
      .missingAttribute missing.name missing.tag m.package file

/-- The bindings of a layout document. -/
def readLayout (m : LayoutModule) (file : Path) (contents : Text) :
    Except BuildError LayoutBindings := do
  let reading := Xml.read contents
  let walk ← reading.events.foldlM (m.visitEvent file) {}
  match reading.fault? with
  | some fault => throw (.xml file fault)
  | none =>
    return ⟨Identifier.bindingClass (Identifier.layoutName file), file, walk.views, walk.variables⟩

end LayoutModule

def keepFirst : List LayoutBindings → List LayoutBindings
  | [] => []
  | layout :: rest =>
    layout :: (keepFirst rest).filter fun other => other.className ≠ layout.className

end AndroidResources
