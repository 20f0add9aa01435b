import SpectrumBasic.Text.Integer

/-!
# Settings

How listings are converted. Settings come from the defaults, from environment variables
(`Settings.ofEnvironment`), or from whoever calls. `Defaults` keeps the settings that are used when
nobody chose any: they are read from the environment at their first use and stay as they are until
they are replaced.
-/

namespace SpectrumBasic

/-- How listings are converted. -/
structure Settings where
  /-- The number of the first line without one. -/
  firstLine : Int := 10
  lineStep : Int := 10
  /-- Whether numbers without a short form are refused. -/
  strictNumbers : Bool := false
  strictDirectives : Bool := false
  includeHeader : Bool := true
  encoding : String := "utf-8"
  deriving DecidableEq, Repr

/-! ## The environment -/

/-- Environment variables with their values. -/
abbrev Environment := List (String × String)

namespace Environment

/-- The value of a variable; an empty one counts as unset. -/
def value? (env : Environment) (name : String) : Option String :=
  (env.lookup name).filter (!·.isEmpty)

def unset (env : Environment) (name : String) : Environment :=
  env.filter fun (other, _) => other != name

def set (env : Environment) (name value : String) : Environment :=
  (name, value) :: env.unset name

end Environment

/-- What a flag says: one of four words for each answer, letter case and blanks around it aside. -/
def flag? (text : Text) : Option Bool :=
  let word := String.ofList text.trim.lower
  if ["1", "true", "yes", "on"].contains word then some true
  else if ["0", "false", "no", "off"].contains word then some false
  else none

namespace Settings

/-- The environment variables that settings are read from. -/
def variableNames : List String :=
  [ "ZXBASIC_FIRST_LINE", "ZXBASIC_LINE_STEP", "ZXBASIC_STRICT_NUMBERS"
  , "ZXBASIC_STRICT_DIRECTIVES", "ZXBASIC_INCLUDE_HEADER", "ZXBASIC_ENCODING" ]

/-- The settings that the environment asks for. What cannot be understood is ignored. -/
def ofEnvironment (env : Environment) : Settings :=
  let default : Settings := {}
  let number := fun name => (env.value? name).bind (Text.integer? ·.toList)
  let flag := fun name => (env.value? name).bind (flag? ·.toList)
  { firstLine := (number "ZXBASIC_FIRST_LINE").getD default.firstLine
    lineStep := (number "ZXBASIC_LINE_STEP").getD default.lineStep
    strictNumbers := (flag "ZXBASIC_STRICT_NUMBERS").getD default.strictNumbers
    strictDirectives := (flag "ZXBASIC_STRICT_DIRECTIVES").getD default.strictDirectives
    includeHeader := (flag "ZXBASIC_INCLUDE_HEADER").getD default.includeHeader
    encoding := (env.value? "ZXBASIC_ENCODING").getD default.encoding }

end Settings

/-! ## Default settings -/

/-- The environment, and the settings to use where none are given, once they are known. -/
structure Defaults where
  environment : Environment := []
  settings : Option Settings := none
  deriving DecidableEq, Repr

namespace Defaults

/-- The settings to use where none are given. -/
def current (d : Defaults) : Settings := d.settings.getD (.ofEnvironment d.environment)

/-- After a use of the settings they are known. -/
def used (d : Defaults) : Defaults := { d with settings := some d.current }

/-- Replaces the settings; without new ones they are read again at their next use. -/
def replace (d : Defaults) (settings : Option Settings) : Defaults := { d with settings }

def setVariable (d : Defaults) (name value : String) : Defaults :=
  { d with environment := d.environment.set name value }

def unsetVariable (d : Defaults) (name : String) : Defaults :=
  { d with environment := d.environment.unset name }

end Defaults

end SpectrumBasic
