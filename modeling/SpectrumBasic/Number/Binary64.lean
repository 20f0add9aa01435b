/-!
# Binary floating-point values

A `Binary64` is a value of the 64-bit binary floating-point format, kept as an exact
`mantissa · 2 ^ exponent`. Two things are needed of the format: the value nearest to a ratio of
natural numbers (`ofRatio`, a half goes to the even neighbour) and the value a bit pattern stands
for (`ofBits`).
-/

namespace SpectrumBasic

/-- The whole number nearest to `n / d`; of two equally near ones the even one. -/
def roundHalfEven (n d : Nat) : Nat :=
  let quotient := n / d
  let twice := 2 * (n % d)
  if twice < d then quotient
  else if d < twice then quotient + 1
  else quotient + quotient % 2

/-! ## Powers with integer exponents

`base ^ e` is the fraction `powNum base e / powDen base e`, one side of which is one. -/

def powNum (base : Nat) (e : Int) : Nat := Nat.pow base e.toNat

def powDen (base : Nat) (e : Int) : Nat := Nat.pow base (-e).toNat

/-! ## Values -/

/-- A 64-bit floating-point value. -/
inductive Binary64 where
  | nan
  | infinite (negative : Bool)
  /-- The number `mantissa · 2 ^ exponent`, or its negative. -/
  | finite (negative : Bool) (mantissa : Nat) (exponent : Int)
  deriving DecidableEq, Repr

namespace Binary64

/-- The exponent of the smallest positive value. -/
def minExponent : Int := -1074

/-- The exponent of the largest finite values. -/
def maxExponent : Int := 971

/-- The least mantissa of fifty-three bits, the number of bits of a full one. -/
def leastFull : Nat := 0x10000000000000

/-- The exponent at which the ratio `n / d` has a full mantissa, or `minExponent` if it is too
small for one. -/
def exponentOfRatio (n d : Nat) : Int :=
  let scale : Int := (n.log2 : Int) - d.log2
  -- `n / d` lies between `2 ^ (scale - 1)` and `2 ^ (scale + 1)`
  let isBelow := n * powDen 2 scale < d * powNum 2 scale
  max minExponent (if isBelow then scale - 53 else scale - 52)

/-- The value nearest to the ratio `n / d`, for `0 < d`. -/
def ofRatio (n d : Nat) : Binary64 :=
  if n = 0 then finite false 0 minExponent
  else
    let exponent := exponentOfRatio n d
    let mantissa := roundHalfEven (n * powDen 2 exponent) (d * powNum 2 exponent)
    -- rounding up a full mantissa can carry into one bit more
    let (mantissa, exponent) :=
      if mantissa = 2 * leastFull then (leastFull, exponent + 1) else (mantissa, exponent)
    if maxExponent < exponent then infinite false else finite false mantissa exponent

/-- The value of a bit pattern: sign, eleven bits of exponent, fifty-two of mantissa. -/
def ofBits (bits : Nat) : Binary64 :=
  let fraction := bits % leastFull
  let biased := bits / leastFull % 0x800
  let negative : Bool := bits / leastFull / 0x800 % 2 = 1
  if biased = 0x7FF then
    if fraction = 0 then infinite negative else nan
  else if biased = 0 then finite negative fraction minExponent
  else finite negative (leastFull + fraction) (minExponent + (biased : Int) - 1)

/-- The whole number a value is, if it is one. -/
def toInt? : Binary64 → Option Int
  | nan | infinite _ => none
  | finite negative mantissa exponent =>
    let n := mantissa * powNum 2 exponent
    let d := powDen 2 exponent
    if n % d = 0 then
      let magnitude : Int := (n / d : Nat)
      some (if negative then -magnitude else magnitude)
    else none

end Binary64

end SpectrumBasic
