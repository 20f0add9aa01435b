import SpectrumBasic.Text.Space

/-!
# Source lines

What a line of a listing is, before anything is done about it: blank, a comment, a directive, or a
statement with or without a number of its own.
-/

namespace SpectrumBasic

/-- A line of a listing. -/
inductive SourceLine where
  | blank
  | comment
  /-- A directive to start at a line; `operand` is an optional sign and digits. -/
  | autostart (operand : Text)
  /-- A line that starts as such a directive and goes on otherwise. -/
  | malformed
  /-- A statement, with its number as a run of digits if it has one. -/
  | statement (number : Option Text) (body : Text)
  deriving DecidableEq, Repr

namespace SourceLine

/-- How a directive to start at a line begins. -/
def autostartWord : Text := "#autostart".toList

/-- Whether a text is a run of digits after an optional sign. -/
def isOperand : Text → Bool
  | '+' :: digits | '-' :: digits | digits => !digits.isEmpty && digits.all Char.isDigit

/-- What a line that starts with a number sign is. -/
def ofMarked (text : Text) : SourceLine :=
  if autostartWord.isPrefixOf text.lower then
    match (text.fields)[1]? with
    | some operand => if isOperand operand then autostart operand else malformed
    | none => malformed
  else comment

/-- A statement; digits with a blank after them are its number. -/
def ofStatement (text : Text) : SourceLine :=
  let digits := text.takeWhile Char.isDigit
  let after := text.dropWhile Char.isDigit
  if !digits.isEmpty && after.head?.any Text.isBlank then
    statement (some digits) (after.dropWhile Text.isBlank)
  else statement none text

/-- What a line without blanks around it is. -/
def ofText (text : Text) : SourceLine :=
  match text with
  | [] => blank
  | '#' :: _ => ofMarked text
  | _ => ofStatement text

end SourceLine

end SpectrumBasic
