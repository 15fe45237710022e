import AndroidResources.CommandLine.Options
import AndroidResources.Compile

/-!
# Invocations

* `MergeOptions`, `CompileRequest` : what the two commands are given;
* `Invocation` : a command with the options that hold for both;
* `Invocation.ofArguments` : the invocation that arguments spell.
-/

namespace AndroidResources.CommandLine

structure MergeOptions where
  isBinary : Bool
  /-- The directory that source sets are read from. -/
  target : Path
  sourceSets : List Text
  manifest? : Option Path
  outputs : List Path

inductive Command
  | merge (options : MergeOptions)
  | compile (request : CompileRequest)

/-- A command with the options that hold for both. -/
structure Invocation where
  command : Command
  config? : Option Path
  quiet : Bool

/-- The options that hold for both commands. They may stand in front of the command or behind it. -/
def commonOptions : List OptionSpec :=
  [⟨"config", .path, some 'c', false⟩, ⟨"verbose", .flag, some 'v', false⟩,
    ⟨"quiet", .flag, some 'q', false⟩]

/-- The options of a merge. Label and package only matter to those who read the log. -/
def mergeOptions : List OptionSpec :=
  [⟨"label", .text, none, false⟩, ⟨"is-binary", .flag, none, false⟩,
    ⟨"target", .path, none, false⟩, ⟨"package-name", .text, none, false⟩,
    ⟨"source-sets", .texts, none, false⟩, ⟨"manifest", .path, none, false⟩,
    ⟨"output", .paths, none, false⟩]

def compileOptions : List OptionSpec :=
  [⟨"package", .text, none, true⟩, ⟨"resource-files", .paths, none, false⟩,
    ⟨"class-infos", .paths, none, false⟩, ⟨"r-txts", .paths, none, false⟩,
    ⟨"non-transitive-r-class", .flag, none, false⟩, ⟨"r-class-output", .path, none, true⟩,
    ⟨"stubs-output", .path, none, true⟩, ⟨"name", .text, none, false⟩]

def GivenOptions.paths (given : GivenOptions) (name : Text) : List Path :=
  (given.list name).map Path.mk

def MergeOptions.ofGiven (given : GivenOptions) : MergeOptions where
  isBinary := given.has "is-binary"
  target := ((given.value? "target").map Path.mk).getD "."
  sourceSets := given.list "source-sets"
  manifest? := (given.value? "manifest").map Path.mk
  outputs := given.paths "output"

def compileRequest (given : GivenOptions) : CompileRequest where
  package := (given.value? "package").getD []
  resourceFiles := given.paths "resource-files"
  classInfos := given.paths "class-infos"
  symbolLists := given.paths "r-txts"
  nonTransitive := given.has "non-transitive-r-class"
  rClassOutput := ⟨(given.value? "r-class-output").getD []⟩
  stubsOutput := ⟨(given.value? "stubs-output").getD []⟩

/-- The options of a command and how it is made from them. -/
def command? (name : Text) : Option (List OptionSpec × (GivenOptions → Command)) :=
  if name = "merge" then some (mergeOptions, fun given => .merge (.ofGiven given))
  else if name = "compile" then some (compileOptions, fun given => .compile (compileRequest given))
  else none

def requireEnd : List Text → Except UsageFault Unit
  | [] => .ok ()
  | [argument] => if argument = "--" then .ok () else .error (.unexpectedArgument argument)
  | argument :: _ => .error (.unexpectedArgument argument)

/-- The invocation that arguments spell. Where an option that holds for both commands stands on both
sides, the one behind the command counts. -/
def Invocation.ofArguments (arguments : List Text) : Except UsageFault Invocation := do
  let (before, rest) ← readOptions commonOptions arguments
  match rest with
  | [] => throw .missingCommand
  | name :: rest =>
    match command? name with
    | none => throw (.unknownCommand name)
    | some (options, make) =>
      let (given, rest) ← readOptions (options ++ commonOptions) rest
      requireEnd rest
      return {
        command := make given
        config? := ((given.value? "config").or (before.value? "config")).map Path.mk
        quiet := given.has "quiet" || before.has "quiet" }

end AndroidResources.CommandLine
