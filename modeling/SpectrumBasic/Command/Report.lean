import SpectrumBasic.Attempt
import SpectrumBasic.Text.ControlSequence

/-!
# What a tool reports

A command that goes through has a `Report`: the lines it prints and its exit status. What can be seen
of a run from outside, apart from the files it wrote, is its `Transcript`. What a tool prints of its
own is free of control sequences (`Transcript.printLines`); notices are shown as they are.
-/

namespace SpectrumBasic

/-- What a command prints, and its exit status. -/
structure Report where
  lines : List String := []
  status : Nat := 0
  deriving DecidableEq, Repr

/-- A notice as a tool shows it: all of them with their level if it is `verbose`, and otherwise the
warnings without. -/
def Notice.shown (verbose : Bool) (notice : Notice) : Option String :=
  if verbose then some s!"{notice.level.name}: {notice.message}"
  else if notice.level = .warning then some notice.message
  else none

/-- What a tool wrote, and its exit status. -/
structure Transcript where
  output : String
  errors : String
  status : Nat
  deriving DecidableEq, Repr

namespace Transcript

def joinLines (lines : List String) : String :=
  String.join (lines.map (· ++ "\n"))

/-- A line as a tool prints it. -/
def plainLine (line : String) : String := String.ofList (Text.plain line.toList)

/-- Lines as a tool prints them. -/
def printLines (lines : List String) : String := joinLines (lines.map plainLine)

end Transcript

end SpectrumBasic
