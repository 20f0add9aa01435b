import SpectrumBasic.Storage

/-!
# Sessions

What happens to the default settings while a process runs. Step after step, environment variables are
set and unset, the defaults are replaced, and they are used by whoever chose no settings: to look at
them, or to encode a listing with them. The first use after the defaults were forgotten reads the
environment, whichever use that is.
-/

namespace SpectrumBasic.Defaults

/-- What the default settings are used for. -/
inductive Use where
  /-- To look at them. -/
  | look
  | listing (lines : List Text)
  /-- For the program file of a listing. -/
  | file (lines : List Text)
  /-- For the program file of a listing in one text. -/
  | text (contents : Text)
  | source (dir : Directory) (path : String)
  deriving DecidableEq, Repr

/-- What a step answers. -/
inductive Answer where
  | done
  | settings (settings : Settings)
  | program (attempt : Attempt Program)
  | file (attempt : Attempt Bytes)

/-- The answer to a use, with the settings that are in force. -/
def Use.answer (settings : Settings) : Use → Answer
  | look => .settings settings
  | listing lines => .program (encodeListing { settings } lines)
  | file lines => .file (encodeProgram settings lines)
  | text contents => .file (encodeText settings contents)
  | source dir path => .program (Storage.encodeFile settings dir path)

/-- What can happen in a session. -/
inductive Step where
  | setVariable (name value : String)
  | unsetVariable (name : String)
  /-- The settings that the environment asks for are read, beside the defaults. -/
  | readEnvironment
  /-- The defaults are replaced, or forgotten. -/
  | replace (settings : Option Settings)
  | use (purpose : Use)
  deriving DecidableEq, Repr

/-- One step: its answer, and what it leaves behind. -/
def step (d : Defaults) : Step → Answer × Defaults
  | .setVariable name value => (.done, d.setVariable name value)
  | .unsetVariable name => (.done, d.unsetVariable name)
  | .readEnvironment => (.settings (.ofEnvironment d.environment), d)
  | .replace settings => (.done, d.replace settings)
  | .use purpose => (purpose.answer d.current, d.used)

/-- The answers to some steps, in order, and what the last one leaves behind. -/
def run (d : Defaults) : List Step → List Answer × Defaults
  | [] => ([], d)
  | first :: rest =>
    let (answer, d) := d.step first
    let (answers, d) := d.run rest
    (answer :: answers, d)

end SpectrumBasic.Defaults
