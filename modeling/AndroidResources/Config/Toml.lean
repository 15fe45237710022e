import AndroidResources.Config.Basic
import AndroidResources.Toml.Document

/-!
# Configuration in TOML

A section is a table, or an array with the values of its fields in order. Unknown names and further
values do not count; every value has to be of the right kind.

* `Config.ofToml?` : the configuration that a text describes.
-/

namespace AndroidResources

namespace Toml

def Value.text? : Value → Option Text
  | string text => some text
  | boolean _ => none
  | other => none
  | array _ => none
  | table _ => none
  | elements _ => none

def Value.boolean? : Value → Option Bool
  | boolean value => some value
  | string _ => none
  | other => none
  | array _ => none
  | table _ => none
  | elements _ => none

def Value.items? : Value → Option (List Value)
  | array items => some items
  | elements tables => some (tables.map table)
  | string _ => none
  | boolean _ => none
  | other => none
  | table _ => none

def Value.texts? (value : Value) : Option (List Text) := do
  (← value.items?).mapM text?

/-- The fields of a section by name; in an array they come in the order of `names`. -/
def Value.fields? (names : List Text) (value : Value) : Option (List (Text × Value)) :=
  match value with
  | table t => some t.members
  | value => value.items?.map names.zip

/-- The value of a field, the default where it is missing. -/
def field? (read : Value → Option α) (default : α) (fields : List (Text × Value)) (name : Text) :
    Option α :=
  match fields.lookup name with
  | none => some default
  | some value => read value

end Toml

def MergeConfig.ofValue? (value : Toml.Value) : Option MergeConfig := do
  let fields ← value.fields? ["ignore_patterns"]
  let defaults : MergeConfig := {}
  return ⟨← Toml.field? Toml.Value.texts? defaults.ignorePatterns fields "ignore_patterns"⟩

def BindingConfig.ofValue? (value : Toml.Value) : Option BindingConfig := do
  let fields ← value.fields? ["package_suffix", "view_stub_proxy", "base_class"]
  let defaults : BindingConfig := {}
  return ⟨← Toml.field? Toml.Value.text? defaults.packageSuffix fields "package_suffix",
    ← Toml.field? Toml.Value.text? defaults.viewStubProxy fields "view_stub_proxy",
    ← Toml.field? Toml.Value.text? defaults.baseClass fields "base_class"⟩

def RClassConfig.ofValue? (value : Toml.Value) : Option RClassConfig := do
  let fields ← value.fields? ["non_transitive"]
  return ⟨← Toml.field? Toml.Value.boolean? false fields "non_transitive"⟩

def Config.ofTable? (document : Toml.Table) : Option Config := do
  let fields := document.members
  return ⟨← Toml.field? MergeConfig.ofValue? {} fields "merge",
    ← Toml.field? BindingConfig.ofValue? {} fields "binding",
    ← Toml.field? RClassConfig.ofValue? {} fields "r_class"⟩

def Config.ofToml? (s : Text) : Option Config := do
  ofTable? (← Toml.document? s)

end AndroidResources
