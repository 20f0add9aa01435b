import SpectrumBasic.Number.Basic

/-!
# Number literals

A literal in a statement is a run of digits and points. It is a number if it has at least one
digit and at most one point, and its value is the floating-point value nearest to what it says.
-/

namespace SpectrumBasic.Literal

/-- The characters a literal is made of. -/
def isLiteralChar (c : Char) : Bool := c.isDigit || c = '.'

def isNumber (run : Text) : Bool :=
  run.all isLiteralChar && run.any Char.isDigit && run.count '.' ≤ 1

/-- The digits of a literal read as one whole number. -/
def numerator (run : Text) : Nat := Nat.ofDigitChars 10 (run.filter Char.isDigit) 0

/-- The power of ten that the digits after the point divide by. -/
def denominator (run : Text) : Nat := Nat.pow 10 ((run.dropWhile (· ≠ '.')).drop 1).length

/-- The value of a literal, if it is a number. -/
def value? (run : Text) : Option Number :=
  if isNumber run then
    some (Number.ofReal (Binary64.ofRatio (numerator run) (denominator run)))
  else none

end SpectrumBasic.Literal
