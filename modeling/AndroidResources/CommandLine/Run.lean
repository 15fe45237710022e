import AndroidResources.CommandLine.Invocation
import AndroidResources.Config.File
import AndroidResources.Merge.DeclaredOutputs
import AndroidResources.Merge.ResourceMerge

/-!
# Running a command

* `RunFault` : why a command fails;
* `RunSummary` : what a command did, `RunSummary.line` how it is told;
* `Outcome` : the end of a run, with its exit code and its output;
* `run` : the outcome of a command line and the files that it leaves.
-/

namespace AndroidResources.CommandLine

inductive RunFault
  | config (error : ConfigError)
  | build (error : BuildError)

/-- The wording of a fault; a path stands for a fault that is worded elsewhere. -/
def RunFault.message : RunFault → Text
  | config error => error.message
  | build error =>
    error.message?.getD
      (match error with
      | .io path _ => "I/O error on " ++ path.text
      | .classInfo path _ => "Could not parse " ++ path.text
      | _ => [])

inductive RunSummary
  | merged (report : MergeReport) (placeholders : Nat)
  | compiled (summary : CompileSummary)

/-- The line that tells what a command did and how many seconds it took. -/
def RunSummary.line (seconds : Text) : RunSummary → Text
  | merged report placeholders =>
    "Merged " ++ Text.ofNat report.written ++ " files (" ++
      Text.ofNat report.overridden.length ++ " overridden, " ++ Text.ofNat placeholders ++
      " placeholders) in " ++ seconds ++ "s\n"
  | compiled summary =>
    "Compiled " ++ Text.ofNat summary.layouts ++ " layouts: " ++ Text.ofNat summary.stubs ++
      " binding stubs, " ++ Text.ofNat summary.rSymbols ++ " R symbols in " ++ seconds ++ "s\n"

/-- A merge and placeholders for the declared outputs that it did not write. -/
def MergeOptions.run (options : MergeOptions) (config : Config) : Action RunSummary := do
  let sets ← Action.inspect (SourceSet.ofDescriptors · options.target options.sourceSets)
  let merge : ResourceMerge :=
    ⟨config.merge, .lastDeclared, if options.isBinary then .application else .library, sets⟩
  let report ← merge.run (outputDirectory? options.outputs) options.manifest?
  let filled ← fillMissing options.outputs
  return .merged report filled.length

namespace Command

/-- The directory whose configuration holds if none is given. -/
def configDirectory : Command → Path
  | merge options => options.target
  | compile _ => "."

def run (config : Config) : Command → Action RunSummary
  | merge options => options.run config
  | compile request => RunSummary.compiled <$> request.run config

end Command

namespace Invocation

/-- The configuration of a run: the given one or that of the command's directory. -/
def config (i : Invocation) (fs : FileSystem) : Except ConfigError Config :=
  match i.config? with
  | some file => Config.load fs file
  | none => Config.find fs i.command.configDirectory

/-- Every path that a run may look at or change. -/
def paths (i : Invocation) : List Path :=
  let config := i.config?.toList ++ Config.defaultFiles.map i.command.configDirectory.join
  match i.command with
  | .merge options =>
    config ++ options.outputs ++ (outputDirectory? options.outputs).toList ++
      options.manifest?.toList ++
      options.sourceSets.flatMap fun descriptor =>
        (descriptor.splitOn ':').filterMap (SourceSet.segmentPath? options.target)
  | .compile request =>
    config ++ [request.rClassOutput, request.stubsOutput] ++ request.resourceFiles ++
      request.classInfos ++ request.symbolLists

def run (i : Invocation) (fs : FileSystem) : Except RunFault RunSummary × FileSystem :=
  match i.config fs with
  | .error error => (.error (.config error), fs)
  | .ok config =>
    let (result, after) := (i.command.run config).onFiles fs
    (result.mapError .build, after)

end Invocation

/-- Milliseconds as seconds with two places. -/
def secondsText (milliseconds : Nat) : Text :=
  let hundredths := (milliseconds + 5) / 10
  let places := Text.ofNat (hundredths % 100)
  Text.ofNat (hundredths / 100) ++ "." ++ (if places.length = 1 then '0' :: places else places)

inductive Outcome
  | misused (fault : UsageFault)
  | failed (fault : RunFault)
  /-- Nothing is told of a quiet run. -/
  | done (summary? : Option RunSummary)

namespace Outcome

def exitCode : Outcome → Nat
  | done _ => 0
  | failed _ => 1
  | misused _ => 2

def output (seconds : Text) : Outcome → Text
  | done (some summary) => summary.line seconds
  | done none => []
  | failed _ => []
  | misused _ => []

def complaint : Outcome → Text
  | done _ => []
  | failed fault => "error: " ++ fault.message ++ "\n"
  | misused fault => "error: " ++ fault.message ++ "\n"

end Outcome

/-- The outcome of a command line and the files that it leaves. -/
def run (arguments : List Text) (fs : FileSystem) : Outcome × FileSystem :=
  match Invocation.ofArguments arguments with
  | .error fault => (.misused fault, fs)
  | .ok invocation =>
    match invocation.run fs with
    | (.error fault, after) => (.failed fault, after)
    | (.ok summary, after) => (.done (if invocation.quiet then none else some summary), after)

end AndroidResources.CommandLine
