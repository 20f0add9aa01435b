import SpectrumBasic.DiskHeader

/-!
# Headers written and read

A header that could be written is read back field by field (`ofBytes_toBytes_append`), whatever
follows it in the file: only the signature is brought to its eight bytes and the checksum becomes the
one that was written. The bytes themselves are recognised as a header if the signature is the usual
one (`isPresent_toBytes_append`), and their checksum is right (`verifies_toBytes_append`).
-/

namespace SpectrumBasic.DiskHeader

/-! ## Fields in a row -/

theorem fits_eq_true_iff {count : Nat} {n : Int} : fits count n = true ↔ 0 ≤ n ∧ n < count := by
  rw [fits, Bool.and_eq_true, decide_eq_true_iff, decide_eq_true_iff]

theorem fieldAt_append_of_le {front back : Bytes} {offset width : Nat} (h : front.length ≤ offset) :
    fieldAt (front ++ back) offset width = fieldAt back (offset - front.length) width := by
  rw [fieldAt, fieldAt, List.drop_append, List.drop_eq_nil_of_le h, List.nil_append]

/-- A number in front is read as it was written, if it fits its bytes. -/
theorem cast_fieldAt_ofNatLE_append (width : Nat) {n : Int} (back : Bytes)
    (h : fits (Bytes.capacity width) n = true) :
    (fieldAt (Bytes.ofNatLE width n.toNat ++ back) 0 width : Int) = n := by
  rw [fits_eq_true_iff] at h
  have hlt : n.toNat < Bytes.capacity width := by omega
  have htake : (Bytes.ofNatLE width n.toNat ++ back).take width = Bytes.ofNatLE width n.toNat :=
    List.take_left' (Bytes.length_ofNatLE width n.toNat)
  rw [fieldAt, List.drop_zero, htake, Bytes.toNatLE_ofNatLE hlt]
  exact Int.toNat_of_nonneg h.1

/-- The signature as it is written. -/
def writtenSignature (h : DiskHeader) : Bytes := (h.signature.take 8).rightpad 8 0

@[simp] theorem length_writtenSignature (h : DiskHeader) : h.writtenSignature.length = 8 := by
  rw [writtenSignature, List.length_rightpad, List.length_take]
  omega

theorem writtenSignature_eq {h : DiskHeader} (hsignature : h.signature = signatureBytes) :
    h.writtenSignature = signatureBytes := by
  rw [writtenSignature, hsignature]
  decide

/-- The bytes before the checksum, field by field. -/
theorem summedBytes_eq (h : DiskHeader) :
    h.summedBytes = h.writtenSignature ++ ([softEnd] ++ (Bytes.ofNatLE 1 h.issue.toNat
      ++ (Bytes.ofNatLE 1 h.version.toNat ++ (Bytes.ofNatLE 4 h.fileSize.toNat
      ++ (Bytes.ofNatLE 1 h.fileType.toNat ++ (Bytes.ofNatLE 2 h.dataLength.toNat
      ++ (Bytes.ofNatLE 2 h.autostart.toNat ++ (Bytes.ofNatLE 2 h.varsOffset.toNat
      ++ List.replicate 105 0)))))))) := by
  rw [summedBytes, writtenSignature]
  simp only [List.append_assoc]

@[simp] theorem length_summedBytes (h : DiskHeader) : h.summedBytes.length = summedSize := by
  simp [summedBytes_eq, summedSize]

/-! ## What a written header says -/

/-- A header is written exactly if all of its fields fit. -/
theorem toBytes_eq_ok_iff {h : DiskHeader} {bytes : Bytes} :
    h.toBytes = .ok bytes ↔ fits 0x10000 h.dataLength = true ∧ h.fieldsFit = true ∧
      bytes = h.summedBytes ++ [sumOf h.summedBytes] := by
  unfold toBytes
  by_cases hlength : fits 0x10000 h.dataLength = true
  · by_cases hfields : h.fieldsFit = true
    · simp [hlength, hfields, eq_comm]
    · simp [hlength, hfields]
  · simp [hlength]

section Written

variable {h : DiskHeader} {bytes : Bytes}

theorem length_of_toBytes (hbytes : h.toBytes = .ok bytes) : bytes.length = size := by
  obtain ⟨-, -, rfl⟩ := toBytes_eq_ok_iff.mp hbytes
  simp [summedSize, size]

/-- The sum over a written header is the one it was written with. -/
theorem sumOf_toBytes_append (hbytes : h.toBytes = .ok bytes) (rest : Bytes) :
    sumOf (bytes ++ rest) = sumOf h.summedBytes := by
  obtain ⟨-, -, rfl⟩ := toBytes_eq_ok_iff.mp hbytes
  -- the checksum itself is not summed, nor is what follows the header
  have hall : h.summedBytes.take summedSize = h.summedBytes :=
    List.take_of_length_le (Nat.le_of_eq h.length_summedBytes)
  have htake : (h.summedBytes ++ [sumOf h.summedBytes] ++ rest).take summedSize = h.summedBytes := by
    rw [List.append_assoc]
    exact List.take_left' h.length_summedBytes
  rw [sumOf, htake]
  rw [sumOf, hall]

theorem verifies_toBytes_append (hbytes : h.toBytes = .ok bytes) (rest : Bytes) :
    verifies (bytes ++ rest) = true := by
  have hsum := sumOf_toBytes_append hbytes rest
  obtain ⟨-, -, rfl⟩ := toBytes_eq_ok_iff.mp hbytes
  rw [verifies, hsum, decide_eq_true_eq, List.append_assoc,
    List.getElem?_append_right (Nat.le_of_eq h.length_summedBytes), h.length_summedBytes]
  simp

/-- A written header with the usual signature is recognised. -/
theorem isPresent_toBytes_append (hbytes : h.toBytes = .ok bytes)
    (hsignature : h.signature = signatureBytes) (rest : Bytes) :
    isPresent (bytes ++ rest) = true := by
  have hlength := length_of_toBytes hbytes
  obtain ⟨-, -, rfl⟩ := toBytes_eq_ok_iff.mp hbytes
  have hstart : (h.summedBytes ++ [sumOf h.summedBytes] ++ rest).take 8 = h.writtenSignature := by
    rw [summedBytes_eq]
    simp only [List.append_assoc]
    exact List.take_left' h.length_writtenSignature
  rw [isPresent, hstart, writtenSignature_eq hsignature, List.length_append, hlength]
  simp

/-- A written header is read back, with the signature and the checksum that were written. -/
theorem ofBytes_toBytes_append (hbytes : h.toBytes = .ok bytes) (rest : Bytes) :
    ofBytes (bytes ++ rest)
      = .ok { h with
          signature := h.writtenSignature
          checksum := (sumOf h.summedBytes).toNat } := by
  have hsize := length_of_toBytes hbytes
  obtain ⟨hlength, hfields, rfl⟩ := toBytes_eq_ok_iff.mp hbytes
  simp only [fieldsFit, Bool.and_eq_true] at hfields
  obtain ⟨⟨⟨⟨⟨hissue, hversion⟩, hfile⟩, htype⟩, hstart⟩, hvars⟩ := hfields
  have hlong : ¬ (h.summedBytes ++ [sumOf h.summedBytes] ++ rest).length < size := by
    rw [List.length_append, hsize]
    omega
  have hsignature : (h.summedBytes ++ [sumOf h.summedBytes] ++ rest).take 8 = h.writtenSignature := by
    simp only [summedBytes_eq, List.append_assoc]
    exact List.take_left' h.length_writtenSignature
  have hsum : fieldAt (h.summedBytes ++ [sumOf h.summedBytes] ++ rest) summedSize 1
      = (sumOf h.summedBytes).toNat := by
    rw [List.append_assoc, fieldAt_append_of_le (Nat.le_of_eq h.length_summedBytes),
      h.length_summedBytes, Nat.sub_self]
    simp [fieldAt, Bytes.toNatLE]
  rw [ofBytes, if_neg hlong, hsignature, hsum]
  -- every other field is found by walking over the ones before it
  simp (disch := simp) only [summedBytes_eq, List.append_assoc, fieldAt_append_of_le,
    length_writtenSignature, Bytes.length_ofNatLE, List.length_singleton, Nat.reduceSub]
  rw [cast_fieldAt_ofNatLE_append 2 _ hlength, cast_fieldAt_ofNatLE_append 2 _ hstart,
    cast_fieldAt_ofNatLE_append 1 _ htype, cast_fieldAt_ofNatLE_append 2 _ hvars,
    cast_fieldAt_ofNatLE_append 4 _ hfile, cast_fieldAt_ofNatLE_append 1 _ hissue,
    cast_fieldAt_ofNatLE_append 1 _ hversion]

end Written

end SpectrumBasic.DiskHeader
