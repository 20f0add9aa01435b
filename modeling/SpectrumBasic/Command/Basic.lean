import SpectrumBasic.Command.Arguments
import SpectrumBasic.Directory

/-!
# Commands

There are three tools: one encodes a listing, one lists a program, one inspects programs. A command
is what a tool is asked to do; `Command.parse` reads it from the command line.
-/

namespace SpectrumBasic

/-- The tools. -/
inductive Tool where
  | encoder
  | lister
  | inspector
  deriving DecidableEq, Repr

namespace Tool

/-- The name a tool is called by. -/
def name : Tool → String
  | encoder => "txt2bas"
  | lister => "bas2txt"
  | inspector => "zxbas"

def ofName? (wanted : String) : Option Tool :=
  [encoder, lister, inspector].find? fun tool => tool.name == wanted

def version : String := "1.0.0"

end Tool

/-- What a tool is asked to do. -/
inductive Command where
  | version (tool : Tool)
  | encode (input output : String) (noHeader strict verbose : Bool)
  /-- To list a program, to a file or to its output. -/
  | list (input : String) (output : Option String) (verbose : Bool)
  | info (file : String) (showLines : Bool)
  | validate (file : String) (verbose : Bool)
  | keywords (extensionsOnly : Bool)
  deriving DecidableEq, Repr

namespace Command

/-! ## Flags -/

def versionFlag : Flag := { short := some 'V', long := "version" }
def verboseFlag : Flag := { short := some 'v', long := "verbose" }
def noHeaderFlag : Flag := { long := "no-header" }
def strictFlag : Flag := { long := "strict" }
def linesFlag : Flag := { short := some 'l', long := "lines" }
def extensionsFlag : Flag := { long := "extensions-only" }

/-! ## Operands -/

/-- An operand that is to name a file, so no folder. -/
def fileOperand (dir : Directory) (path : String) : Except UsageFault String :=
  if dir.namesFolder path then .error (.folder path) else .ok path

/-- The one operand of a command, a file. -/
def oneFile (dir : Directory) : List String → Except UsageFault String
  | [] => .error (.missingOperand "BAS_FILE")
  | [file] => fileOperand dir file
  | _ :: extra :: _ => .error (.extraOperand extra)

/-- A command on two files is refused only if one of them is a folder. -/
theorem map_fileOperands {α : Type} (run : Command → α) (make : String → String → Command)
    (dir : Directory) (input output : String) :
    (do
      let input ← fileOperand dir input
      let output ← fileOperand dir output
      return make input output : Except UsageFault Command).map run =
      if dir.namesFolder input then .error (.folder input)
      else if dir.namesFolder output then .error (.folder output)
      else .ok (run (make input output)) := by
  unfold fileOperand
  cases dir.namesFolder input with
  | true => rfl
  | false => cases dir.namesFolder output <;> rfl

/-! ## Tools -/

/-- The command line of the encoder. -/
def parseEncoder (dir : Directory) (words : List String) : Except UsageFault Command := do
  let arguments ← Arguments.parse [noHeaderFlag, strictFlag, verboseFlag, versionFlag] true words
  if arguments.has versionFlag then return version .encoder
  match arguments.operands with
  | [] => throw (.missingOperand "INPUT_FILE")
  | [_] => throw (.missingOperand "OUTPUT_FILE")
  | [input, output] =>
    let input ← fileOperand dir input
    let output ← fileOperand dir output
    return encode input output (arguments.has noHeaderFlag) (arguments.has strictFlag)
      (arguments.has verboseFlag)
  | _ :: _ :: extra :: _ => throw (.extraOperand extra)

/-- The command line of the lister. -/
def parseLister (dir : Directory) (words : List String) : Except UsageFault Command := do
  let arguments ← Arguments.parse [verboseFlag, versionFlag] true words
  if arguments.has versionFlag then return version .lister
  match arguments.operands with
  | [] => throw (.missingOperand "INPUT_FILE")
  | [input] => return list (← fileOperand dir input) none (arguments.has verboseFlag)
  | [input, output] =>
    let input ← fileOperand dir input
    let output ← fileOperand dir output
    return list input (some output) (arguments.has verboseFlag)
  | _ :: _ :: extra :: _ => throw (.extraOperand extra)

/-- A command of the inspector, by name. -/
def parseInspection (dir : Directory) (name : String) (words : List String) :
    Except UsageFault Command := do
  match name with
  | "info" =>
    let arguments ← Arguments.parse [linesFlag] true words
    return info (← oneFile dir arguments.operands) (arguments.has linesFlag)
  | "validate" =>
    let arguments ← Arguments.parse [verboseFlag] true words
    return validate (← oneFile dir arguments.operands) (arguments.has verboseFlag)
  | "tokens" =>
    let arguments ← Arguments.parse [extensionsFlag] true words
    match arguments.operands with
    | [] => return keywords (arguments.has extensionsFlag)
    | extra :: _ => throw (.extraOperand extra)
  | _ => throw (.unknownCommand name)

/-- The command line of the inspector: options of its own, then a command. -/
def parseInspector (dir : Directory) (words : List String) : Except UsageFault Command := do
  let arguments ← Arguments.parse [versionFlag] false words
  if arguments.has versionFlag then return version .inspector
  match arguments.operands with
  | [] => throw .missingCommand
  | name :: rest => parseInspection dir name rest

/-- What a command line asks a tool to do. -/
def parse (dir : Directory) : Tool → List String → Except UsageFault Command
  | .encoder => parseEncoder dir
  | .lister => parseLister dir
  | .inspector => parseInspector dir

end Command

end SpectrumBasic
