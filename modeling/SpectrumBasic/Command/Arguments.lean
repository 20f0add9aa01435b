/-!
# Command-line arguments

A command line is a list of words. Those that start with a dash are options, all of them flags: a
long one by its name after two dashes, short ones as single letters that can be run together. The
other words are operands, and so is everything after `--`.
-/

namespace SpectrumBasic

/-- Something that can be switched on from the command line. -/
structure Flag where
  short : Option Char := none
  long : String
  deriving DecidableEq, Repr

/-- Why a command line makes no sense. -/
inductive UsageFault where
  | unknownOption (word : String)
  | unexpectedValue (option : String)
  | missingOperand (name : String)
  | extraOperand (word : String)
  | folder (path : String)
  | missingCommand
  | unknownCommand (name : String)
  deriving DecidableEq, Repr

/-- The complaint about a command line. -/
def UsageFault.message : UsageFault → String
  | unknownOption word => s!"No such option: {word}"
  | unexpectedValue option => s!"Option '{option}' does not take a value"
  | missingOperand name => s!"Missing argument '{name}'"
  | extraOperand word => s!"Got unexpected extra argument ({word})"
  | folder path => s!"File '{path}' is a directory"
  | missingCommand => "Missing command"
  | unknownCommand name => s!"No such command '{name}'"

/-- A command line taken apart. -/
structure Arguments where
  flags : List Flag := []
  operands : List String := []
  deriving DecidableEq, Repr

namespace Arguments

def has (arguments : Arguments) (flag : Flag) : Bool := arguments.flags.contains flag

/-- Whether a word is an option. -/
def isOption (word : String) : Bool :=
  match word.toList with
  | '-' :: _ :: _ => true
  | _ => false

/-- The flags that an option switches on. -/
def readOption (known : List Flag) (word : String) : Except UsageFault (List Flag) :=
  let name := String.ofList (word.toList.takeWhile (· ≠ '='))
  match known.find? fun flag => "--" ++ flag.long == name with
  | some flag => if name == word then .ok [flag] else .error (.unexpectedValue name)
  | none =>
    match word.toList with
    | '-' :: '-' :: _ => .error (.unknownOption word)
    | letters =>
      (letters.drop 1).mapM fun letter =>
        match known.find? fun flag => flag.short == some letter with
        | some flag => .ok flag
        | none => .error (.unknownOption word)

/-- Takes a command line apart. Unless options may stand `anywhere`, the first operand ends them. -/
def parse (known : List Flag) (anywhere : Bool) : List String → Except UsageFault Arguments
  | [] => .ok {}
  | word :: rest =>
    if word == "--" then .ok { operands := rest }
    else if isOption word then do
      let flags ← readOption known word
      let later ← parse known anywhere rest
      .ok { later with flags := flags ++ later.flags }
    else if anywhere then do
      let later ← parse known anywhere rest
      .ok { later with operands := word :: later.operands }
    else .ok { operands := word :: rest }

end Arguments

end SpectrumBasic
