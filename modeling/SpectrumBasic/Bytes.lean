/-!
# Bytes and the numbers stored in them

Program files mix two byte orders: lengths and header fields are stored low byte first,
line numbers high byte first. Both are fixed-width, so each order is one pair of maps:

* `Bytes.ofNatLE` / `Bytes.toNatLE`, low byte first;
* `Bytes.ofNatBE` / `Bytes.toNatBE`, the same maps on the reversed bytes.

Every run of bytes is the stored form of the number it stands for (`ofNatLE_toNatLE`), and a number
that fits its bytes is read back from them (`toNatLE_ofNatLE`).
-/

namespace SpectrumBasic

/-- A run of bytes, in file order. -/
abbrev Bytes := List UInt8

namespace Bytes

/-! ## Low byte first -/

/-- The `width` low bytes of `n`, low byte first; higher bytes are dropped. -/
def ofNatLE : Nat → Nat → Bytes
  | 0, _ => []
  | width + 1, n => UInt8.ofNat n :: ofNatLE width (n / 256)

/-- The number a run of bytes stands for, low byte first. -/
def toNatLE : Bytes → Nat
  | [] => 0
  | b :: rest => b.toNat + 256 * toNatLE rest

/-- How many numbers fit in `width` bytes. -/
def capacity : Nat → Nat
  | 0 => 1
  | width + 1 => 256 * capacity width

@[simp] theorem length_ofNatLE (width n : Nat) : (ofNatLE width n).length = width := by
  induction width generalizing n with
  | zero => rfl
  | succ width ih => simp [ofNatLE, ih]

/-- The number of a run of bytes is one of those that fit in it. -/
theorem toNatLE_lt (bytes : Bytes) : toNatLE bytes < capacity bytes.length := by
  induction bytes with
  | nil => exact Nat.zero_lt_one
  | cons b rest ih =>
    have hb : b.toNat < 256 := b.toNat_lt
    rw [toNatLE, List.length_cons, capacity]
    omega

theorem toNatLE_pair_lt (low high : UInt8) : toNatLE [low, high] < 0x10000 := toNatLE_lt [low, high]

/-- Every run of bytes is the stored form of the number it stands for. -/
theorem ofNatLE_toNatLE (bytes : Bytes) : ofNatLE bytes.length (toNatLE bytes) = bytes := by
  induction bytes with
  | nil => rfl
  | cons b rest ih =>
    have hb : b.toNat < 256 := b.toNat_lt
    have hdiv : (b.toNat + 256 * toNatLE rest) / 256 = toNatLE rest := by omega
    rw [List.length_cons, toNatLE, ofNatLE, hdiv, ih]
    congr 1
    apply UInt8.toNat_inj.mp
    rw [UInt8.toNat_ofNat']
    omega

/-- A number that fits its bytes is read back. -/
theorem toNatLE_ofNatLE {width n : Nat} (h : n < capacity width) :
    toNatLE (ofNatLE width n) = n := by
  induction width generalizing n with
  | zero =>
    rw [capacity] at h
    rw [ofNatLE, toNatLE]
    omega
  | succ width ih =>
    have hdiv : n / 256 < capacity width := by
      rw [capacity] at h
      omega
    have hlow : (UInt8.ofNat n).toNat = n % 256 := UInt8.toNat_ofNat'
    rw [ofNatLE, toNatLE, ih hdiv, hlow]
    omega

/-! ## High byte first -/

/-- The `width` low bytes of `n`, high byte first. -/
def ofNatBE (width n : Nat) : Bytes := (ofNatLE width n).reverse

/-- The number a run of bytes stands for, high byte first. -/
def toNatBE (bytes : Bytes) : Nat := toNatLE bytes.reverse

@[simp] theorem length_ofNatBE (width n : Nat) : (ofNatBE width n).length = width := by
  simp [ofNatBE]

/-- Every run of bytes is the stored form of the number it stands for. -/
theorem ofNatBE_toNatBE (bytes : Bytes) : ofNatBE bytes.length (toNatBE bytes) = bytes := by
  have h := ofNatLE_toNatLE bytes.reverse
  rw [List.length_reverse] at h
  rw [ofNatBE, toNatBE, h, List.reverse_reverse]

theorem toNatBE_ofNatBE {width n : Nat} (h : n < capacity width) :
    toNatBE (ofNatBE width n) = n := by
  rw [toNatBE, ofNatBE, List.reverse_reverse, toNatLE_ofNatLE h]

end Bytes

end SpectrumBasic
