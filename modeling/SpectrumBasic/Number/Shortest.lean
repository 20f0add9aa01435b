import SpectrumBasic.Number.Binary64

/-!
# Shortest decimals

Among the decimals that round to a given floating-point value, `shortest` picks one with the
fewest digits and, of those, the nearest. Everything is exact arithmetic on natural numbers: the
decimals that round to `m · 2 ^ q` form an interval around it, and on each decimal grid only the two
neighbours of the value can be the nearest point inside.
-/

namespace SpectrumBasic.Binary64

/-- Compares `a · 10 ^ i` with `b · 2 ^ e`. -/
def compareScaled (a : Nat) (i : Int) (b : Nat) (e : Int) : Ordering :=
  compare (a * powNum 10 i * powDen 2 e) (b * powNum 2 e * powDen 10 i)

/-- Whether the decimal `c · 10 ^ i` rounds to `m · 2 ^ q`. The interval reaches half way to the
neighbouring values, and its ends belong to it if `m` is even; below a power of two the
neighbour is nearer. -/
def roundsTo (m : Nat) (q : Int) (c : Nat) (i : Int) : Bool :=
  let below := if m = leastFull ∧ minExponent < q then 1 else 2
  let low := compareScaled c i (4 * m - below) (q - 2)
  let high := compareScaled c i (4 * m + 2) (q - 2)
  let ends := m % 2 = 0
  (low = .gt ∨ (low = .eq ∧ ends)) ∧ (high = .lt ∨ (high = .eq ∧ ends))

/-- The multiple of `10 ^ i` at or below `m · 2 ^ q`. -/
def floorAt (m : Nat) (q i : Int) : Nat :=
  m * powNum 2 q * powDen 10 i / (powDen 2 q * powNum 10 i)

/-- The multiple of `10 ^ i` nearest to `m · 2 ^ q` among those that round to it; of two equally
near ones the even one. -/
def nearestAt? (m : Nat) (q i : Int) : Option Nat :=
  let c := floorAt m q i
  match roundsTo m q c i, roundsTo m q (c + 1) i with
  | true, true =>
    match compareScaled (2 * c + 1) i (2 * m) q with
    | .gt => some c
    | .lt => some (c + 1)
    | .eq => some (c + c % 2)
  | true, false => some c
  | false, true => some (c + 1)
  | false, false => none

/-- The number of decimal digits before the point of `m · 2 ^ q`, counted down below zero for the
zeros that follow the point: `10 ^ (place - 1) ≤ m · 2 ^ q < 10 ^ place`. -/
def decimalPlace (m : Nat) (q : Int) : Int :=
  let n := m * powNum 2 q
  let d := powDen 2 q
  if d ≤ n then (Nat.toDigits 10 (n / d)).length
  else 1 - (Nat.toDigits 10 ((d - 1) / n)).length

/-- The digits enough to tell any two values apart. -/
def enoughDigits : Nat := 17

/-- The shortest decimal `c · 10 ^ i` that rounds to `m · 2 ^ q`, as `(c, i)`, for `0 < m`. -/
def shortest (m : Nat) (q : Int) : Nat × Int :=
  let place := decimalPlace m q
  let grids := (List.range enoughDigits).map fun digits : Nat => place - (digits + 1 : Int)
  (grids.findSome? fun i => (nearestAt? m q i).map (·, i)).getD
    (floorAt m q (place - enoughDigits), place - enoughDigits)

end SpectrumBasic.Binary64
