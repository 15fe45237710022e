import AndroidResources.Text.Basic

/-!
# Configuration

* `MergeConfig` : the names that merging skips, `MergeConfig.ignores` tests one;
* `BindingConfig` : names that appear in generated bindings;
* `Config` : all sections, each with its defaults.
-/

namespace AndroidResources

/-- How source directories are searched. -/
structure MergeConfig where
  ignorePatterns : List Text :=
    [".*", "*~", "thumbs.db", "picasa.ini", "CVS", "*.scc", "*.orig"]
  deriving DecidableEq, Repr

structure BindingConfig where
  packageSuffix : Text := "databinding"
  viewStubProxy : Text := "androidx.databinding.ViewStubProxy"
  baseClass : Text := "androidx.databinding.ViewDataBinding"
  deriving DecidableEq, Repr

structure RClassConfig where
  /-- Only the symbols of the module itself are declared. -/
  nonTransitive : Bool := false
  deriving DecidableEq, Repr

structure Config where
  merge : MergeConfig := {}
  binding : BindingConfig := {}
  rClass : RClassConfig := {}
  deriving DecidableEq, Repr

/-- A pattern accepts a name. A star in front matches any beginning, else a star at the end any
ending; every other character matches itself. -/
def patternAccepts (pattern name : Text) : Bool :=
  match pattern with
  | '*' :: ending => List.isSuffixOf ending name
  | _ =>
    match pattern.getLast? with
    | some '*' => List.isPrefixOf pattern.dropLast name
    | _ => pattern == name

namespace MergeConfig

/-- Nothing is skipped. -/
def keepAll : MergeConfig := ⟨[]⟩

/-- A name is skipped: some pattern accepts it, up to the case of ASCII letters. -/
def ignores (config : MergeConfig) (name : Text) : Bool :=
  config.ignorePatterns.any fun pattern =>
    patternAccepts (Text.toLowerAscii pattern) (Text.toLowerAscii name)

end MergeConfig

end AndroidResources
