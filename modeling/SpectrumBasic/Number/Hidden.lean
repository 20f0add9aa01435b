import SpectrumBasic.Bytes
import SpectrumBasic.Number.Basic

/-!
# Hidden numbers

After the digits of a literal a program line holds a marker byte and the value in five bytes, so
that it need not be read from the digits again. Whole numbers of at most sixteen bits have a short
form there:

    00  sign (00 or FF)  magnitude, low byte  magnitude, high byte  00

Every other value is filled in as zero. `Hidden.toBytes` and `Hidden.ofBytes?` are the two
directions.
-/

namespace SpectrumBasic.Hidden

/-- The byte in front of a hidden number. -/
def marker : UInt8 := 0x0E

def size : Nat := 5

/-- The largest magnitude of the short form. -/
def limit : Nat := 65535

def isSmall (n : Int) : Bool := n.natAbs ≤ limit

/-- The whole number of a value that has a short form. -/
def small? (x : Number) : Option Int :=
  let n? := match x with
    | .whole n => some n
    | .real r => r.toInt?
  n?.filter isSmall

def toBytes (n : Int) : Bytes :=
  [0x00, if n < 0 then 0xFF else 0x00] ++ Bytes.ofNatLE 2 n.natAbs ++ [0x00]

/-- What stands for a value without a short form. -/
def zeroFill : Bytes := List.replicate size 0x00

/-- The whole number that five bytes hold in short form. -/
def ofBytes? : Bytes → Option Int
  | [0x00, 0x00, low, high, 0x00] => some (Bytes.toNatLE [low, high])
  | [0x00, 0xFF, low, high, 0x00] => some (-(Bytes.toNatLE [low, high] : Int))
  | _ => none

/-- The bytes of a hidden number: the short form, or zero where there is none. -/
def pack (x : Number) : Bytes :=
  match small? x with
  | some n => toBytes n
  | none => zeroFill

@[simp] theorem length_toBytes (n : Int) : (toBytes n).length = size := by
  simp [toBytes, size]

@[simp] theorem length_pack (x : Number) : (pack x).length = size := by
  unfold pack
  split <;> simp [zeroFill]

/-- A small number is read back from its short form. -/
theorem ofBytes?_toBytes {n : Int} (h : isSmall n = true) : ofBytes? (toBytes n) = some n := by
  have hfits : n.natAbs < Bytes.capacity 2 := by
    have hlimit : n.natAbs ≤ limit := of_decide_eq_true h
    exact Nat.lt_of_le_of_lt hlimit (by decide)
  -- the magnitude is two bytes, whatever they are
  have hpair : Bytes.ofNatLE 2 n.natAbs
      = [UInt8.ofNat n.natAbs, UInt8.ofNat (n.natAbs / 256)] := rfl
  have hread := Bytes.toNatLE_ofNatLE hfits
  rw [hpair] at hread
  rw [toBytes, hpair]
  by_cases hneg : n < 0
  · rw [if_pos hneg]
    show some (-(Bytes.toNatLE _ : Int)) = some n
    rw [hread, Int.ofNat_natAbs_of_nonpos (Int.le_of_lt hneg), Int.neg_neg]
  · rw [if_neg hneg]
    show some (Bytes.toNatLE _ : Int) = some n
    rw [hread, Int.natAbs_of_nonneg (Int.not_lt.mp hneg)]

/-- What is packed is read back, or zero where there is no short form. -/
theorem ofBytes?_pack (x : Number) : ofBytes? (pack x) = some ((small? x).getD 0) := by
  unfold pack
  cases hsmall : small? x with
  | none => rfl
  | some n => exact ofBytes?_toBytes (Option.filter_eq_some_iff.mp hsmall).2

end SpectrumBasic.Hidden
