import SpectrumBasic.DiskHeader

/-!
# Corrupted headers

The checksum of a header is a sum of bytes, so replacing a byte by another changes the sum
(`sumOf_set_ne`): of a header that was right, no single byte can change unnoticed
(`single_byte_corruption_caught`). What follows the header is neither summed nor compared.
-/

namespace SpectrumBasic.DiskHeader

variable {data : Bytes}

/-! ## The sum after a byte was replaced -/

/-- What a sum starts with is added to the sum of the bytes. -/
theorem foldl_add_eq (data : Bytes) (start : UInt8) :
    data.foldl (· + ·) start = start + data.foldl (· + ·) 0 := by
  have hstart : data.foldl (· + ·) (start + 0) = start + data.foldl (· + ·) 0 := List.foldl_assoc
  rwa [UInt8.add_zero] at hstart

/-- Replacing a byte takes the old one out of the sum and puts the new one in. -/
theorem foldl_set_add {i : Nat} (hi : i < data.length) (b : UInt8) :
    (data.set i b).foldl (· + ·) 0 + data[i] = data.foldl (· + ·) 0 + b := by
  induction data generalizing i with
  | nil => cases hi
  | cons byte rest ih =>
    cases i with
    | zero =>
      rw [List.set_cons_zero, List.getElem_cons_zero, List.foldl_cons, List.foldl_cons, foldl_add_eq,
        foldl_add_eq rest (0 + byte)]
      ac_rfl
    | succ j =>
      have hrest := ih (Nat.lt_of_succ_lt_succ hi)
      rw [List.set_cons_succ, List.getElem_cons_succ, List.foldl_cons, List.foldl_cons, foldl_add_eq,
        foldl_add_eq rest, UInt8.add_assoc, hrest]
      ac_rfl

/-- Another byte among those that are summed makes another sum. -/
theorem sumOf_set_ne {i : Nat} {b : UInt8} (hi : i < summedSize) (hlong : i < data.length)
    (hb : b ≠ data[i]) : sumOf (data.set i b) ≠ sumOf data := by
  intro hsame
  have hwithin : i < (data.take summedSize).length := by
    rw [List.length_take]
    omega
  have hset := foldl_set_add hwithin b
  rw [← List.take_set, List.getElem_take] at hset
  rw [sumOf, sumOf] at hsame
  rw [hsame] at hset
  exact hb ((UInt8.add_right_inj _).mp hset).symm

/-- A byte behind those that are summed leaves the sum alone. -/
theorem sumOf_set_of_le {i : Nat} (hi : summedSize ≤ i) (b : UInt8) :
    sumOf (data.set i b) = sumOf data := by
  rw [sumOf, sumOf, List.take_set_of_le hi]

/-! ## The comparison -/

theorem lt_length_of_verifies (hright : verifies data = true) : summedSize < data.length := by
  rw [verifies, decide_eq_true_iff] at hright
  exact (List.getElem?_eq_some_iff.mp hright).1

/-- **No byte of a header changes unnoticed.** If the checksum of a header is right and any one of its
128 bytes, the checksum included, is replaced by another, it is not right any more; no byte behind the
header matters to it. -/
theorem single_byte_corruption_caught (data : Bytes) :
    (verifies data = true → ∀ i, i < 128 → ∀ b, data[i]? ≠ some b →
      verifies (data.set i b) = false) ∧
    ∀ i, 128 ≤ i → ∀ b, verifies (data.set i b) = verifies data := by
  constructor
  · intro hright i hi b hb
    have hlong := lt_length_of_verifies hright
    have hi' : i < data.length := Nat.lt_of_lt_of_le hi hlong
    rw [List.getElem?_eq_getElem hi', Ne, Option.some_inj] at hb
    rw [verifies, decide_eq_true_iff] at hright
    rw [verifies, decide_eq_false_iff_not]
    have hle : i ≤ summedSize := Nat.le_of_lt_succ hi
    rcases Nat.lt_or_eq_of_le hle with hsummed | rfl
    · -- the sum changes and the byte it is compared with does not
      rw [List.getElem?_set_ne (Nat.ne_of_lt hsummed), hright, Option.some_inj]
      exact (sumOf_set_ne hsummed hi' (Ne.symm hb)).symm
    · -- the byte changes and the sum does not
      rw [List.getElem?_eq_getElem hi', Option.some_inj] at hright
      rw [sumOf_set_of_le (Nat.le_refl _), List.getElem?_set_self hi', Option.some_inj, ← hright]
      exact Ne.symm hb
  · intro i hi b
    have hbehind : summedSize < i := hi
    rw [verifies, verifies, sumOf_set_of_le (Nat.le_of_lt hbehind),
      List.getElem?_set_ne (Nat.ne_of_gt hbehind)]

/-- The checksum of 128 zero bytes is right; with a one among them it is not. -/
theorem corrupted_zero_header_caught :
    verifies (List.replicate 128 0) = true ∧ (List.replicate 128 (0 : UInt8))[3]? ≠ some 1 ∧
      verifies ((List.replicate 128 0).set 3 1) = false := by
  have hright : verifies (List.replicate 128 0) = true := by decide +kernel
  have hother : (List.replicate 128 (0 : UInt8))[3]? ≠ some 1 := by decide
  exact ⟨hright, hother, (single_byte_corruption_caught _).1 hright 3 (by decide) 1 hother⟩

end SpectrumBasic.DiskHeader
