import AndroidResources.Text.Basic

/-!
# Options of a command line

* `OptionSpec` : an option by its long and short name and what it takes;
* `UsageFault` : what is wrong with a command line;
* `readOptions` : the options that arguments start with, and the other arguments;
* `GivenOptions` : what was given, with the value of each option.

A value is the next argument or stands behind an equals sign. Only an argument that does not look
like an option can be a value by itself.
-/

namespace AndroidResources.CommandLine

inductive OptionKind
  | flag
  | text
  /-- A value that is not empty. -/
  | path
  /-- Values with commas between them; the option may come again. -/
  | texts
  /-- Values with commas between them, none of them empty; the option may come again. -/
  | paths
  deriving DecidableEq, Repr

/-- An option by its names and what it takes. -/
structure OptionSpec where
  long : Text
  kind : OptionKind
  short? : Option Char := none
  required : Bool := false

/-- What is wrong with a command line. -/
inductive UsageFault
  | unknownOption (name : Text)
  | missingValue (option : Text)
  | unexpectedValue (option : Text)
  | emptyValue (option : Text)
  | repeatedOption (option : Text)
  | missingOption (option : Text)
  | unexpectedArgument (argument : Text)
  | unknownCommand (name : Text)
  | missingCommand
  deriving DecidableEq, Repr

def UsageFault.message : UsageFault → Text
  | unknownOption name => "unknown option " ++ name
  | missingValue option => "a value is required for --" ++ option
  | unexpectedValue option => "--" ++ option ++ " takes no value"
  | emptyValue option => "the value of --" ++ option ++ " must not be empty"
  | repeatedOption option => "--" ++ option ++ " cannot be used several times"
  | missingOption option => "--" ++ option ++ " is required"
  | unexpectedArgument argument => "unexpected argument " ++ argument
  | unknownCommand name => "unknown command " ++ name
  | missingCommand => "a command is required"

structure GivenOption where
  option : OptionSpec
  value : Text

abbrev GivenOptions := List GivenOption

/-! ## Reading -/

/-- The argument may be the value of the option in front of it. -/
def isValue (argument : Text) : Bool :=
  argument.head? != some '-' || argument = "-"

def nextValue (option : OptionSpec) : List Text → Except UsageFault (GivenOption × List Text)
  | [] => .error (.missingValue option.long)
  | value :: rest =>
    if isValue value then .ok (⟨option, value⟩, rest) else .error (.missingValue option.long)

/-- An option with its long name, read behind the two dashes. -/
def readLong (specs : List OptionSpec) (body : Text) (rest : List Text) :
    Except UsageFault (GivenOption × List Text) :=
  let (name, value?) :=
    match Text.splitFirst? '=' body with
    | some (name, value) => (name, some value)
    | none => (body, none)
  match specs.find? (·.long = name) with
  | none => .error (.unknownOption name)
  | some option =>
    match option.kind, value? with
    | .flag, none => .ok (⟨option, []⟩, rest)
    | .flag, some _ => .error (.unexpectedValue name)
    | _, some value => .ok (⟨option, value⟩, rest)
    | _, none => nextValue option rest

/-- Options with their short names, read behind the dash; the last of them may take a value. -/
def readShort (specs : List OptionSpec) (rest : List Text) :
    Text → Except UsageFault (GivenOptions × List Text)
  | [] => .ok ([], rest)
  | c :: cs =>
    match specs.find? (·.short? = some c) with
    | none => .error (.unknownOption [c])
    | some option =>
      if option.kind = .flag then do
        let (others, rest) ← readShort specs rest cs
        return (⟨option, []⟩ :: others, rest)
      else
        match cs with
        | [] => (nextValue option rest).map fun (given, rest) => ([given], rest)
        | '=' :: value => .ok ([⟨option, value⟩], rest)
        | value => .ok ([⟨option, value⟩], rest)

/-- The options that arguments start with, and the arguments from the first one on that is no
option. -/
def readArguments (specs : List OptionSpec) :
    Nat → List Text → Except UsageFault (GivenOptions × List Text)
  | 0, arguments => .ok ([], arguments)
  | bound + 1, arguments =>
    match arguments with
    | [] => .ok ([], [])
    | ['-', '-'] :: _ => .ok ([], arguments)
    | ('-' :: '-' :: body) :: rest => do
      let (given, rest) ← readLong specs body rest
      let (others, rest) ← readArguments specs bound rest
      return (given :: others, rest)
    | ('-' :: c :: cs) :: rest => do
      let (given, rest) ← readShort specs rest (c :: cs)
      let (others, rest) ← readArguments specs bound rest
      return (given ++ others, rest)
    | _ => .ok ([], arguments)

/-! ## Values -/

namespace GivenOptions

def valuesOf (given : GivenOptions) (name : Text) : List Text :=
  (given.filter (·.option.long = name)).map (·.value)

def has (given : GivenOptions) (name : Text) : Bool :=
  !(given.valuesOf name).isEmpty

def value? (given : GivenOptions) (name : Text) : Option Text :=
  (given.valuesOf name).head?

def list (given : GivenOptions) (name : Text) : List Text :=
  (given.valuesOf name).flatMap (·.splitOn ',')

def fault? (given : GivenOptions) (option : OptionSpec) : Option UsageFault :=
  let values := given.valuesOf option.long
  let several := option.kind = .texts ∨ option.kind = .paths
  if 2 ≤ values.length ∧ ¬several then some (.repeatedOption option.long)
  else if option.kind = .path ∧ [] ∈ values then some (.emptyValue option.long)
  else if option.kind = .paths ∧ [] ∈ given.list option.long then
    some (.emptyValue option.long)
  else if option.required ∧ values = [] then some (.missingOption option.long)
  else none

end GivenOptions

/-- The options that arguments start with, and the arguments from the first one on that is no
option. -/
def readOptions (specs : List OptionSpec) (arguments : List Text) :
    Except UsageFault (GivenOptions × List Text) := do
  let (given, rest) ← readArguments specs arguments.length arguments
  match specs.findSome? given.fault? with
  | some fault => throw fault
  | none => return (given, rest)

end AndroidResources.CommandLine
