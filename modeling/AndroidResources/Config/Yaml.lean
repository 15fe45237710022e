import AndroidResources.Config.Basic
import AndroidResources.Yaml.Node

/-!
# Configuration in YAML

A section is a map from the names of its fields; unknown names do not count, known ones must not
come twice. Nothing at all may stand for a map or a list. Any scalar is a text.

* `Config.ofYaml?` : the configuration that a text describes.
-/

namespace AndroidResources

namespace Yaml.Node

def text? : Node → Option Text
  | scalar text _ => some text
  | list _ => none
  | map _ => none

/-- A truth value, written without quotes. -/
def boolean? : Node → Option Bool
  | scalar text true =>
    if text ∈ (["true", "True", "TRUE"] : List Text) then some true
    else if text ∈ (["false", "False", "FALSE"] : List Text) then some false
    else none
  | scalar _ false => none
  | list _ => none
  | map _ => none

def items? : Node → Option (List Node)
  | list items => some items
  | scalar [] true => some []
  | scalar _ _ => none
  | map _ => none

/-- The entries of a map whose keys are scalars. -/
def entries? : Node → Option (List (Text × Node))
  | map entries => entries.mapM fun entry => (text? entry.1).map (·, entry.2)
  | scalar [] true => some []
  | scalar _ _ => none
  | list _ => none

def texts? (node : Node) : Option (List Text) := do
  (← node.items?).mapM text?

/-- The value of a field, the default where it is missing; no field comes twice. -/
def field? (read : Node → Option α) (default : α) (entries : List (Text × Node)) (name : Text) :
    Option α :=
  match entries.filter (·.1 = name) with
  | [] => some default
  | [(_, node)] => read node
  | _ => none

end Yaml.Node

open Yaml (Node)

def MergeConfig.ofNode? (node : Node) : Option MergeConfig := do
  let entries ← node.entries?
  let defaults : MergeConfig := {}
  return ⟨← Node.field? Node.texts? defaults.ignorePatterns entries "ignore_patterns"⟩

def BindingConfig.ofNode? (node : Node) : Option BindingConfig := do
  let entries ← node.entries?
  let defaults : BindingConfig := {}
  return ⟨← Node.field? Node.text? defaults.packageSuffix entries "package_suffix",
    ← Node.field? Node.text? defaults.viewStubProxy entries "view_stub_proxy",
    ← Node.field? Node.text? defaults.baseClass entries "base_class"⟩

def RClassConfig.ofNode? (node : Node) : Option RClassConfig := do
  let entries ← node.entries?
  return ⟨← Node.field? Node.boolean? false entries "non_transitive"⟩

def Config.ofNode? (node : Node) : Option Config := do
  let entries ← node.entries?
  return ⟨← Node.field? MergeConfig.ofNode? {} entries "merge",
    ← Node.field? BindingConfig.ofNode? {} entries "binding",
    ← Node.field? RClassConfig.ofNode? {} entries "r_class"⟩

def Config.ofYaml? (s : Text) : Option Config := do
  ofNode? (← Yaml.document? s)

end AndroidResources
