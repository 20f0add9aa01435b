import SpectrumBasic.Number.Shortest
import SpectrumBasic.Text.Integer

/-!
# Numbers and how they are shown

A number is a whole number of any size or a floating-point value. `Number.text` shows it the way
messages do, under the rules of `Number.layout`.
-/

namespace SpectrumBasic

/-- A numeric value. -/
inductive Number where
  | whole (n : Int)
  | real (x : Binary64)
  deriving DecidableEq, Repr

/-- How a floating-point value is laid out once its digits are known. -/
structure RealLayout where
  /-- The least exponent of ten written without an exponent. -/
  leastFixed : Int
  /-- The least exponent of ten, above that, written with an exponent again. -/
  leastScientific : Int
  /-- What ends a whole value written without an exponent. -/
  wholeEnd : Text
  /-- The fewest digits of an exponent. -/
  exponentWidth : Nat

namespace RealLayout

/-- Digits `d₀d₁d₂…` that stand for `d₀.d₁d₂… · 10 ^ exponent`, without an exponent. -/
def fixed (layout : RealLayout) (digits : Text) (exponent : Int) : Text :=
  if exponent < 0 then
    '0' :: '.' :: List.replicate (-exponent - 1).toNat '0' ++ digits
  else
    let before := exponent.toNat + 1
    if digits.length ≤ before then
      digits ++ List.replicate (before - digits.length) '0' ++ layout.wholeEnd
    else digits.take before ++ '.' :: digits.drop before

/-- Digits that stand for `d₀.d₁d₂… · 10 ^ exponent`, with the exponent. -/
def scientific (layout : RealLayout) (digits : Text) (exponent : Int) : Text :=
  let fraction := digits.drop 1
  let sign := if exponent < 0 then '-' else '+'
  digits.take 1 ++ (if fraction.isEmpty then [] else '.' :: fraction)
    ++ 'e' :: sign :: (Text.ofNat exponent.natAbs).leftpad layout.exponentWidth '0'

/-- The positive value `m · 2 ^ q` in its shortest digits. -/
def write (layout : RealLayout) (m : Nat) (q : Int) : Text :=
  let (c, i) := Binary64.shortest m q
  let digits := Text.ofNat c
  let exponent := i + digits.length - 1
  let significant := (digits.reverse.dropWhile (· = '0')).reverse
  if layout.leastFixed ≤ exponent ∧ exponent < layout.leastScientific then
    layout.fixed significant exponent
  else layout.scientific significant exponent

end RealLayout

namespace Number

/-- Values from 0.0001 up to 10 ^ 16 are written without an exponent and whole ones end in `.0`;
an exponent has at least two digits. -/
def layout : RealLayout where
  leastFixed := -4
  leastScientific := 16
  wholeEnd := ['.', '0']
  exponentWidth := 2

/-- A number as messages show it. -/
def text : Number → Text
  | whole n => Text.ofInt n
  | real .nan => ['n', 'a', 'n']
  | real (.infinite negative) => (if negative then ['-'] else []) ++ ['i', 'n', 'f']
  | real (.finite negative m q) =>
    (if negative then ['-'] else [])
      ++ if m = 0 then '0' :: layout.wholeEnd else layout.write m q

/-- Whether messages can show a number: a whole one may have too many digits, a floating-point value
never has. -/
def isShowable : Number → Bool
  | whole n => Text.isShowable n
  | real _ => true

/-- A floating-point value as a number: whole values count as whole numbers. -/
def ofReal (x : Binary64) : Number :=
  match x.toInt? with
  | some n => whole n
  | none => real x

end Number

end SpectrumBasic
