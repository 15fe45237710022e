import AndroidResources.Build.ManifestCall
import AndroidResources.Error
import AndroidResources.FileSystem.Operation

/-!
# Actions of a build

An action changes files and has a result or fails; what it did before it failed stays.

* `BuildState` : the files as they are now, and the calls of a manifest merger so far;
* `Action` : state is kept across failure;
* `Action.change`, `Action.changePartly` : operations, with the path that a fault is reported for;
* `Action.ask`, `Action.inspect` : questions, which change nothing;
* `Action.thenAlways` : an action and what is done after it in any case;
* `copyInto`, `writeInto` : files, with the directories above them.
-/

namespace AndroidResources

/-- The text of a file; a fault is reported for the file. -/
def FileSystem.readSource (fs : FileSystem) (file : Path) : Except BuildError Text :=
  (fs.readText file).mapError (.io file)

/-- What a build has done so far. -/
structure BuildState where
  files : FileSystem
  calls : List ManifestCall := []

/-- Changes the state of a build and has a result or fails. -/
abbrev Action := ExceptT BuildError (StateM BuildState)

namespace Action

def perform (act : Action α) (state : BuildState) : Except BuildError α × BuildState :=
  (ExceptT.run act).run state

/-- The result of an action and the files that it leaves. -/
def onFiles (act : Action α) (fs : FileSystem) : Except BuildError α × FileSystem :=
  let (result, after) := act.perform ⟨fs, []⟩
  (result, after.files)

def ofFunction (step : BuildState → Except BuildError α × BuildState) : Action α :=
  ExceptT.mk step

def ask (question : FileSystem → α) : Action α :=
  ofFunction fun state => (.ok (question state.files), state)

/-- A question about the files that may have no good answer. -/
def inspect (question : FileSystem → Except BuildError α) : Action α :=
  ofFunction fun state => (question state.files, state)

/-- A change that happens as a whole or not at all; a fault is reported for the given path. -/
def change (blamed : Path) (operation : FileSystem → Except IoFault FileSystem) : Action Unit :=
  ofFunction fun state =>
    match operation state.files with
    | .ok files => (.ok (), { state with files := files })
    | .error fault => (.error (.io blamed fault), state)

/-- A change that may fail halfway. -/
def changePartly (blamed : Path) (operation : FileSystem → FileSystem × Option IoFault) :
    Action Unit :=
  ofFunction fun state =>
    let (files, fault?) := operation state.files
    (match fault? with
      | none => .ok ()
      | some fault => .error (.io blamed fault), { state with files := files })

/-- The action, and after it the change, whether the action failed or not. -/
def thenAlways (act : Action α) (cleanUp : FileSystem → FileSystem) : Action α :=
  ofFunction fun state =>
    let (result, after) := act.perform state
    (result, { after with files := cleanUp after.files })

def createDirectories (dir : Path) : Action Unit :=
  changePartly dir (·.createDirectories dir)

/-- The directory that a path lies in and those above it, as far as the path has one. -/
def createParent (file : Path) : Action Unit :=
  match file.parent? with
  | some parent => createDirectories parent
  | none => return

end Action

/-- Copies a file and makes the directories above its destination. -/
def copyInto (source destination : Path) : Action Unit := do
  Action.createParent destination
  Action.change source (·.copyFile source destination)

def writeInto (file : Path) (text : Text) : Action Unit := do
  Action.createParent file
  Action.change file (·.writeFile file (Text.toUtf8 text))

end AndroidResources
