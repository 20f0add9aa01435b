import SpectrumBasic.Text.Space
import SpectrumBasic.Text.DecimalDigit

/-!
# Whole numbers as text

Numbers are written in decimal (`ofNat`, `ofInt`) or in hexadecimal of at least a given width
(`hex`, `signedHex`). They are read in two ways: `readNat` and `readInt` take a run of ASCII
digits that a source line is known to hold, and `integer?` takes whatever a person typed into a
setting. Neither reads more than `digitLimit` digits, and a number of more digits is not shown in a
message either (`isShowable`).
-/

namespace SpectrumBasic.Text

/-! ## Writing -/

def ofNat (n : Nat) : Text := Nat.toDigits 10 n

/-- An integer in decimal, with a minus sign if it is negative. -/
def ofInt : Int → Text
  | .ofNat n => ofNat n
  | .negSucc n => '-' :: ofNat (n + 1)

/-- The most digits a number may be written with. -/
def digitLimit : Nat := 4300

/-- Whether the decimal form of a number keeps to the limit; a sign does not count. -/
def isShowable (n : Int) : Bool := (ofNat n.natAbs).length ≤ digitLimit

/-- A natural number in lower-case hexadecimal, padded with zeros to `width` digits. -/
def hex (width n : Nat) : Text := (Nat.toDigits 16 n).leftpad width '0'

/-- An integer in upper-case hexadecimal, padded with zeros to `width` characters. A minus sign
counts as one of them and stands in front. -/
def signedHex (width : Nat) : Int → Text
  | .ofNat n => upper (hex width n)
  | .negSucc n => '-' :: upper (hex (width - 1) (n + 1))

/-- A code or byte as messages show it: at least two hexadecimal digits after `0x`. -/
def showCode (code : Int) : String := "0x" ++ String.ofList (signedHex 2 code)

/-! ## Reading -/

/-- A run of more digits than `digitLimit`. -/
structure TooManyDigits where
  count : Nat
  deriving DecidableEq, Repr

/-- The number a run of ASCII digits stands for; leading zeros count towards the limit. -/
def readNat (digits : Text) : Except TooManyDigits Nat :=
  if digits.length ≤ digitLimit then .ok (Nat.ofDigitChars 10 digits 0)
  else .error ⟨digits.length⟩

/-- The number a run of ASCII digits stands for, with an optional sign in front. -/
def readInt : Text → Except TooManyDigits Int
  | '-' :: digits => (readNat digits).map fun n => -(n : Int)
  | '+' :: digits => (readNat digits).map fun n => (n : Int)
  | digits => (readNat digits).map fun n => (n : Int)

/-- What is written in decimal is read back, as long as it fits the limit. -/
theorem readNat_ofNat {n : Nat} (h : (ofNat n).length ≤ digitLimit) :
    readNat (ofNat n) = .ok n := by
  rw [readNat, if_pos h, ofNat, Nat.ofDigitChars_ten_toDigits]

/-- The blanks allowed around a typed number: of the ASCII ones those that move the print
position, and every blank beyond ASCII. -/
def isNumberPadding (c : Char) : Bool :=
  if c.toNat < 0x80 then [' ', '\t', '\n', '\x0b', '\x0c', '\r'].contains c else isBlank c

/-- The value of a run of digits of any script, if it holds nothing else and fits the limit. -/
def digitsValue? (digits : Text) : Option Nat := do
  let values ← digits.mapM digitValue?
  if values.length ≤ digitLimit then some (values.foldl (fun n d => 10 * n + d) 0) else none

/-- The value of digits with single underscores between them. -/
def groupedDigits? (text : Text) : Option Nat :=
  let groups := pieces (· = '_') text
  if groups.any List.isEmpty then none else digitsValue? groups.flatten

/-- A whole number as a person types it: blanks around it, an optional sign, digits of any script
with single underscores between them. -/
def integer? (text : Text) : Option Int :=
  match strip isNumberPadding text with
  | '-' :: digits => (groupedDigits? digits).map fun n => -(n : Int)
  | '+' :: digits => (groupedDigits? digits).map fun n => (n : Int)
  | digits => (groupedDigits? digits).map fun n => (n : Int)

end SpectrumBasic.Text
