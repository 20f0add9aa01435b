import SpectrumBasic.Text.Integer

/-!
# Diagnostics

A complaint about source text: what is wrong (`Fault`), where it stands (`Location`) and the line
it stands in. `Diagnostic.render` lays it out for the user:

    game.txt:4:6: error: unsupported numeric literal '3.14'
        PLOT 3.14,20
             ^
    hint: only whole numbers in -65535..65535 are packed
-/

namespace SpectrumBasic

/-- A place in a source file; lines and columns count from one. -/
structure Location where
  file : String
  line : Int
  column : Int
  deriving DecidableEq, Repr

/-- A place as messages show it. -/
def Location.render (place : Location) : String :=
  let line := String.ofList (Text.ofInt place.line)
  let column := String.ofList (Text.ofInt place.column)
  s!"{place.file}:{line}:{column}"

/-- What can be wrong with source text. -/
inductive Fault where
  /-- An autostart directive without a line number. -/
  | malformedDirective (directive : Text)
  /-- A number that has no hidden form. -/
  | unsupportedNumber (literal : Text)
  /-- A line number that does not fit sixteen bits. -/
  | lineNumber (number : Int)
  /-- A line whose length does not fit sixteen bits. -/
  | lineTooLong (number : Int) (length : Int)
  /-- Anything else, in words. -/
  | other (message : String) (hint : Option String)
  deriving DecidableEq, Repr

namespace Fault

/-- The wording of a fault. -/
def message : Fault → String
  | malformedDirective directive => s!"malformed directive '{String.ofList directive}'"
  | unsupportedNumber literal => s!"unsupported numeric literal '{String.ofList literal}'"
  | lineNumber number =>
    let shown := String.ofList (Text.ofInt number)
    s!"line number {shown} is out of range"
  | lineTooLong number length =>
    let shown := String.ofList (Text.ofInt number)
    let bytes := String.ofList (Text.ofInt length)
    s!"line {shown} tokenizes to {bytes} bytes"
  | other message _ => message

/-- What the user can do about a fault. -/
def hint : Fault → Option String
  | malformedDirective _ => some "expected '#autostart <line number>'"
  | unsupportedNumber _ => some "only whole numbers in -65535..65535 are packed"
  | lineNumber _ => some "line numbers must be between 0 and 65535"
  | lineTooLong .. => some "a line may hold at most 65535 bytes; split it across several lines"
  | other _ hint => hint

end Fault

/-- A fault with its surroundings. -/
structure Diagnostic where
  fault : Fault
  location : Option Location := none
  sourceLine : Option Text := none
  deriving DecidableEq, Repr

namespace Diagnostic

/-- The source line of a place, indented by four, and a caret under its column. -/
def excerpt (line : Text) (place : Location) : List String :=
  let caret := String.ofList (List.replicate (3 + place.column).toNat ' ' ++ ['^'])
  ("    " ++ String.ofList line) :: if 0 < place.column then [caret] else []

/-- A complaint as the user sees it. The source line is shown if its place is known, and an empty
hint is left out. -/
def render (d : Diagnostic) : String :=
  let message := d.fault.message
  let head := match d.location with
    | some place => s!"{place.render}: error: {message}"
    | none => s!"error: {message}"
  let context := match d.sourceLine, d.location with
    | some line, some place => excerpt line place
    | _, _ => []
  let advice := match d.fault.hint with
    | some hint => if hint.isEmpty then [] else [s!"hint: {hint}"]
    | none => []
  "\n".intercalate (head :: context ++ advice)

end Diagnostic

end SpectrumBasic
