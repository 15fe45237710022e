import AndroidResources.Path

/-!
# Generated source files

* `JavaSource.header` : the line that every generated file starts with;
* `JavaSource.packageLines` : the package declaration, none for the empty package;
* `JavaSource.directory`, `JavaSource.file` : where a package and a class lie below a source root.
-/

namespace AndroidResources.JavaSource

/-- The line that every generated file starts with. -/
def header : Text := "/* AUTO-GENERATED FILE. DO NOT MODIFY. */"

def packageDeclaration (package : Text) : List Text :=
  ["package " ++ package ++ ";", []]

/-- The declaration of a package, which the empty package does without. -/
def packageLines (package : Text) : List Text :=
  if package = [] then [] else packageDeclaration package

/-- The directory of a package below a source root: one step per part of the name. -/
def directory (root : Path) (package : Text) : Path :=
  ((package.splitOn '.').filter (· ≠ [])).foldl (fun dir part => dir.join ⟨part⟩) root

def file (root : Path) (package className : Text) : Path :=
  (directory root package).join ⟨className ++ ".java"⟩

end AndroidResources.JavaSource
