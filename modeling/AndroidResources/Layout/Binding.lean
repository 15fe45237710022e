import AndroidResources.Identifier
import AndroidResources.Java.Type

/-!
# Bindings of a layout

* `Binding` : a named and typed reference that becomes a field of the generated class;
* `LayoutBindings` : what one layout document declares.
-/

namespace AndroidResources

inductive BindingOrigin
  | declared
  | view
  /-- An included layout. It is `missing` where its class had to be guessed. -/
  | included (layout : Text) (missing : Bool)
  deriving DecidableEq, Repr

/-- A named and typed reference that becomes a field of the generated class. -/
structure Binding where
  /-- The variable's name, or the id without its marker. -/
  name : Text
  type : JavaType
  origin : BindingOrigin
  deriving DecidableEq, Repr

/-- What one layout document declares. -/
structure LayoutBindings where
  className : Text
  source : Path
  /-- Views and includes, in document order. -/
  views : List Binding
  /-- Variables, in document order. -/
  «variables» : List Binding
  deriving DecidableEq, Repr

def bindingPackage (package suffix : Text) : Text :=
  package ++ "." ++ suffix

def bindingClassOf (package suffix layout : Text) : ClassName :=
  .inPackage (bindingPackage package suffix) (Identifier.bindingClass layout)

end AndroidResources
