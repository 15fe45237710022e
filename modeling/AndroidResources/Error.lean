import AndroidResources.ClassInfo.Fault
import AndroidResources.FileSystem.Fault
import AndroidResources.Path
import AndroidResources.Xml.Fault

/-!
# Errors of a build

* `BuildError` : why a merge or a compilation fails, by cause;
* `BuildError.message?` : the wording, where the program words it itself.

An unknown short type name and an include of an unknown layout are no errors.
-/

namespace AndroidResources

/-- Why a merge or a compilation fails. -/
inductive BuildError
  /-- A source set is not written as three segments. -/
  | invalidSourceSet (descriptor : Text)
  /-- A tag of a layout lacks an attribute that it needs. -/
  | missingAttribute (name tag package : Text) (file : Path)
  | xml (file : Path) (fault : Xml.Fault)
  | missingManifest
  | manifestMerge (reason : Text)
  | io (path : Path) (fault : IoFault)
  | missingSourceDirectory (path : Path)
  | invalidRTxt (path : Path) (line : Nat) (content : Text)
  | classInfo (path : Path) (fault : ClassInfo.Fault)
  deriving DecidableEq, Repr

/-- How a source set is written. -/
def sourceSetFormat : Text := "resources:assets:manifest"

/-- The wording of an error; faults of the file system and of class-info documents are worded
elsewhere. -/
def BuildError.message? : BuildError → Option Text
  | invalidSourceSet descriptor =>
    some ("Invalid source set `" ++ descriptor ++ "`, should be " ++ sourceSetFormat)
  | missingAttribute name tag package file =>
    some ("Missing `" ++ name ++ "` on <" ++ tag ++ "> in " ++ package ++ ":" ++ file.text)
  | xml file fault => some ("Could not parse " ++ file.text ++ ": " ++ fault.message)
  | missingManifest =>
    some ("Missing manifest declaration, check if at least one manifest is declared in any " ++
      "source set")
  | manifestMerge reason => some ("Manifest merging failed: " ++ reason)
  | io _ _ => none
  | missingSourceDirectory path =>
    some ("I/O error on " ++ path.text ++ ": declared source directory does not exist")
  | invalidRTxt path line content =>
    some ("Invalid R.txt entry at " ++ path.text ++ ":" ++ Text.ofNat line ++ ": `" ++ content ++
      "`")
  | classInfo _ _ => none

end AndroidResources
