import AndroidResources.Layout.Binding
import AndroidResources.OrderedMap

/-!
# Types of included layouts

* `LayoutTypes` : binding types by layout name, `LayoutTypes.ofLayouts` those of a module's own
  layout files;
* `Scopes` : such tables in order of priority, `Scopes.lookup` the first match;
* `Scopes.resolveInclude` : the type of an include, guessed where no scope knows the layout.
-/

namespace AndroidResources

abbrev LayoutTypes := OrderedMap Text JavaType

def LayoutTypes.ofLayouts (package suffix : Text) (files : List Path) : LayoutTypes :=
  files.foldl
    (fun (types : LayoutTypes) file =>
      let layout := Identifier.layoutName file
      types.insert layout (.classRef (bindingClassOf package suffix layout)))
    .empty

inductive Scope
  | ownModule
  | dependencies
  deriving DecidableEq, Repr

/-- Tables of layout types, the one asked first in front. -/
structure Scopes where
  sources : List (Scope × LayoutTypes)

namespace Scopes

/-- The module's own layouts before those of its dependencies. -/
def ownFirst (own dependencies : LayoutTypes) : Scopes :=
  ⟨[(.ownModule, own), (.dependencies, dependencies)]⟩

def lookup (scopes : Scopes) (layout : Text) : Option (Scope × JavaType) :=
  scopes.sources.findSome? fun source => (source.2.get? layout).map fun type => (source.1, type)

end Scopes

/-- The type of an include and how it was found. -/
inductive IncludeType
  | known (scope : Scope) (type : JavaType)
  | guessed (type : JavaType)
  deriving DecidableEq, Repr

namespace IncludeType

def type : IncludeType → JavaType
  | known _ type => type
  | guessed type => type

def isGuessed : IncludeType → Bool
  | known _ _ => false
  | guessed _ => true

end IncludeType

/-- The type of an included layout. A layout that no scope knows is taken for one of the module
itself. -/
def Scopes.resolveInclude (scopes : Scopes) (package suffix layout : Text) : IncludeType :=
  match scopes.lookup layout with
  | some (scope, type) => .known scope type
  | none => .guessed (.classRef (bindingClassOf package suffix layout))

end AndroidResources
