import SpectrumBasic.Proofs.HeaderFields

/-!
# Headers read and written again

Any 128 bytes can be read as a header, and what is read can be written (`exists_toBytes_of_ofBytes`).
Of the bytes that are written, those that hold fields are the ones that were read
(`summedBytes_of_ofBytes`); the byte behind the signature, the reserved bytes and the checksum follow
from the fields. So a header is reproduced exactly if it has these already (`toBytes_eq_take_iff`).
-/

namespace SpectrumBasic.DiskHeader

variable {h : DiskHeader} {data : Bytes}

/-! ## Fields as runs of bytes -/

theorem take_drop_append (data : Bytes) (offset first second : Nat) (rest : Bytes) :
    (data.drop offset).take first ++ ((data.drop (offset + first)).take second ++ rest) =
      (data.drop offset).take (first + second) ++ rest := by
  rw [List.take_add, List.drop_drop, List.append_assoc]

theorem length_take_drop {offset width : Nat} (hlong : offset + width ≤ data.length) :
    ((data.drop offset).take width).length = width := by
  rw [List.length_take, List.length_drop]
  omega

theorem ofNatLE_fieldAt {offset width : Nat} (hlong : offset + width ≤ data.length) :
    Bytes.ofNatLE width (fieldAt data offset width) = (data.drop offset).take width := by
  have hbytes := Bytes.ofNatLE_toNatLE ((data.drop offset).take width)
  rwa [length_take_drop hlong] at hbytes

theorem fits_fieldAt {offset width : Nat} (hlong : offset + width ≤ data.length) :
    fits (Bytes.capacity width) (fieldAt data offset width) = true := by
  have hlt := Bytes.toNatLE_lt ((data.drop offset).take width)
  rw [length_take_drop hlong] at hlt
  rw [fits_eq_true_iff]
  exact ⟨Int.natCast_nonneg _, Int.ofNat_lt.mpr hlt⟩

/-! ## What was read -/

/-- A header that was read can be written. -/
theorem exists_toBytes_of_ofBytes (hread : ofBytes data = .ok h) :
    ∃ bytes, h.toBytes = .ok bytes := by
  unfold ofBytes at hread
  split at hread
  · cases hread
  · rename_i hshort
    have hlong : ∀ {offset width : Nat}, offset + width ≤ 128 → offset + width ≤ data.length := by
      intro offset width hle
      rw [size] at hshort
      omega
    obtain rfl := Except.ok.inj hread
    refine ⟨_, toBytes_eq_ok_iff.mpr ⟨fits_fieldAt (hlong (by decide)), ?_, rfl⟩⟩
    simp only [fieldsFit, Bool.and_eq_true]
    exact ⟨⟨⟨⟨⟨fits_fieldAt (hlong (by decide)), fits_fieldAt (hlong (by decide))⟩,
      fits_fieldAt (hlong (by decide))⟩, fits_fieldAt (hlong (by decide))⟩,
      fits_fieldAt (hlong (by decide))⟩, fits_fieldAt (hlong (by decide))⟩

/-- What is written of a header that was read: its signature and its fields are the bytes that were
read. -/
theorem summedBytes_of_ofBytes (hread : ofBytes data = .ok h) :
    h.summedBytes = data.take 8 ++ softEnd :: ((data.drop 9).take 13 ++ List.replicate 105 0) := by
  unfold ofBytes at hread
  split at hread
  · cases hread
  · rename_i hshort
    have hlong : 128 ≤ data.length := Nat.le_of_not_lt hshort
    obtain rfl := Except.ok.inj hread
    have hsignature : ((data.take 8).take 8).rightpad 8 (0 : UInt8) = data.take 8 := by
      have hlength : (data.take 8).length = 8 := by
        rw [List.length_take]
        omega
      rw [List.take_take, Nat.min_self, List.rightpad, hlength, Nat.sub_self, List.replicate_zero,
        List.append_nil]
    rw [summedBytes_eq, writtenSignature, hsignature]
    simp only [Int.toNat_natCast]
    rw [ofNatLE_fieldAt (by omega), ofNatLE_fieldAt (by omega), ofNatLE_fieldAt (by omega),
      ofNatLE_fieldAt (by omega), ofNatLE_fieldAt (by omega), ofNatLE_fieldAt (by omega),
      ofNatLE_fieldAt (by omega)]
    -- the seven fields are neighbours, from offset 9 on
    rw [take_drop_append data 9 1 1, take_drop_append data 9 2 4, take_drop_append data 9 6 1,
      take_drop_append data 9 7 2, take_drop_append data 9 9 2, take_drop_append data 9 11 2]
    rfl

/-! ## Which headers are reproduced -/

/-- The bytes before the checksum: what follows the signature, and what follows the fields, is not read
as a field. -/
theorem take_summedSize_eq (hlong : 128 ≤ data.length) :
    data.take summedSize =
      data.take 8 ++ data[8] :: ((data.drop 9).take 13 ++ (data.drop 22).take 105) := by
  have hafter : data.drop 8 = data[8] :: data.drop 9 := List.drop_eq_getElem_cons (by omega)
  rw [summedSize, show 127 = 8 + (118 + 1) from rfl, List.take_add, hafter, List.take_succ_cons,
    show 118 = 13 + 105 from rfl, List.take_add, List.drop_drop]

theorem take_size_eq (hlong : 128 ≤ data.length) :
    data.take size = data.take summedSize ++ [data[127]] := by
  have hlast : data.drop summedSize = data[127] :: data.drop 128 :=
    List.drop_eq_getElem_cons (by rw [summedSize]; omega)
  rw [show size = summedSize + 1 from rfl, List.take_add, hlast, List.take_succ_cons, List.take_zero]

/-- The reserved bytes, one by one. -/
theorem reserved_eq_replicate_iff :
    (data.drop 22).take 105 = List.replicate 105 0 ↔ ∀ i, 22 ≤ i → i ≤ 126 → data[i]? = some 0 := by
  have hat (i : Nat) : ((data.drop 22).take 105)[i]? = if i < 105 then data[22 + i]? else none := by
    rw [List.getElem?_take, List.getElem?_drop]
  constructor
  · intro hzeros i hfrom hto
    have hzero := hat (i - 22)
    rw [hzeros, List.getElem?_replicate, if_pos (by omega), if_pos (by omega),
      Nat.add_sub_cancel' hfrom] at hzero
    exact hzero.symm
  · intro hzeros
    apply List.ext_getElem?
    intro i
    rw [hat, List.getElem?_replicate]
    by_cases hi : i < 105
    · rw [if_pos hi, if_pos hi, hzeros (22 + i) (by omega) (by omega)]
    · rw [if_neg hi, if_neg hi]

/-- A header that was read is reproduced exactly if the bytes that hold no field are the ones that are
always written there. -/
theorem toBytes_eq_take_iff {bytes : Bytes} (hlong : 128 ≤ data.length)
    (hread : ofBytes data = .ok h) (hbytes : h.toBytes = .ok bytes) :
    bytes = data.take size ↔ data[8]? = some softEnd ∧
      (∀ i, 22 ≤ i → i ≤ 126 → data[i]? = some 0) ∧ verifies data = true := by
  obtain ⟨-, -, rfl⟩ := toBytes_eq_ok_iff.mp hbytes
  have hfields : h.summedBytes = data.take summedSize ↔
      data[8]? = some softEnd ∧ ∀ i, 22 ≤ i → i ≤ 126 → data[i]? = some 0 := by
    rw [summedBytes_of_ofBytes hread, take_summedSize_eq hlong, ← reserved_eq_replicate_iff,
      List.append_cancel_left_eq, List.cons.injEq, List.append_cancel_left_eq,
      List.getElem?_eq_getElem (by omega), Option.some_inj]
    exact and_congr eq_comm eq_comm
  -- only the bytes before the checksum are summed
  have hsum (hsame : h.summedBytes = data.take summedSize) : sumOf h.summedBytes = sumOf data := by
    rw [sumOf, sumOf, hsame, List.take_take, Nat.min_self]
  have hverifies : verifies data = true ↔ data[127] = sumOf data := by
    rw [verifies, decide_eq_true_iff, summedSize, List.getElem?_eq_getElem (by omega), Option.some_inj]
  rw [take_size_eq hlong, ← and_assoc, ← hfields, hverifies]
  constructor
  · intro hsame
    obtain ⟨hfront, hlast⟩ := List.append_inj' hsame rfl
    exact ⟨hfront, by rw [← hsum hfront, List.head_eq_of_cons_eq hlast]⟩
  · rintro ⟨hfront, hlast⟩
    rw [hsum hfront, hfront, hlast]

/-! ## Both ways round -/

/-- The fields that can be written, number by number. -/
theorem exists_toBytes_iff :
    (∃ bytes, h.toBytes = .ok bytes) ↔
      (0 ≤ h.dataLength ∧ h.dataLength ≤ 65535) ∧ (0 ≤ h.autostart ∧ h.autostart ≤ 65535) ∧
      (0 ≤ h.varsOffset ∧ h.varsOffset ≤ 65535) ∧ (0 ≤ h.issue ∧ h.issue ≤ 255) ∧
      (0 ≤ h.version ∧ h.version ≤ 255) ∧ (0 ≤ h.fileType ∧ h.fileType ≤ 255) ∧
      0 ≤ h.fileSize ∧ h.fileSize < 0x100000000 := by
  simp only [toBytes_eq_ok_iff, fieldsFit, Bool.and_eq_true, fits_eq_true_iff, exists_and_left,
    exists_eq, and_true]
  omega

/-- **Headers round trip, and the exceptions are known.** A header can be written exactly if its numbers
fit their bytes. Then 128 bytes with the right checksum are written, and reading them gives the header
back, its signature brought to eight bytes and its checksum the last byte; a header that cannot be
written stays as it is. Any 128 bytes or more can be read and written again, and the bytes that are
written are those that were read exactly if `1A` follows the signature, the reserved bytes are zero and
the checksum is right. -/
theorem header_codec_round_trips :
    (∀ h : DiskHeader,
      ((∃ bytes, h.toBytes = .ok bytes) ↔
        (0 ≤ h.dataLength ∧ h.dataLength ≤ 65535) ∧ (0 ≤ h.autostart ∧ h.autostart ≤ 65535) ∧
        (0 ≤ h.varsOffset ∧ h.varsOffset ≤ 65535) ∧ (0 ≤ h.issue ∧ h.issue ≤ 255) ∧
        (0 ≤ h.version ∧ h.version ≤ 255) ∧ (0 ≤ h.fileType ∧ h.fileType ≤ 255) ∧
        0 ≤ h.fileSize ∧ h.fileSize < 0x100000000) ∧
      (∀ bytes, h.toBytes = .ok bytes → bytes.length = 128 ∧ verifies bytes = true ∧
        ∃ sum, bytes[127]? = some sum ∧ h.stamped = { h with checksum := sum.toNat } ∧
          ofBytes bytes = .ok { h with
            signature := (h.signature.take 8).rightpad 8 0
            checksum := sum.toNat }) ∧
      (∀ fault, h.toBytes = .error fault → h.stamped = h)) ∧
    ∀ data : Bytes, 128 ≤ data.length → ∃ h bytes, ofBytes data = .ok h ∧ h.toBytes = .ok bytes ∧
      (bytes = data.take 128 ↔ data[8]? = some 0x1A ∧
        (∀ i, 22 ≤ i → i ≤ 126 → data[i]? = some 0) ∧ verifies data = true) := by
  constructor
  · intro h
    refine ⟨exists_toBytes_iff, ?_, ?_⟩
    · intro bytes hbytes
      have hverifies := verifies_toBytes_append hbytes []
      have hback := ofBytes_toBytes_append hbytes []
      rw [List.append_nil] at hverifies hback
      refine ⟨length_of_toBytes hbytes, hverifies, sumOf h.summedBytes, ?_, ?_, hback⟩
      · obtain ⟨-, -, rfl⟩ := toBytes_eq_ok_iff.mp hbytes
        rw [show 127 = h.summedBytes.length from h.length_summedBytes.symm, List.getElem?_concat_length]
      · rw [stamped, hbytes]
    · intro fault hfault
      rw [stamped, hfault]
  · intro data hlong
    have hread : ∃ h, ofBytes data = .ok h := ⟨_, if_neg (Nat.not_lt.mpr hlong)⟩
    obtain ⟨h, hread⟩ := hread
    obtain ⟨bytes, hbytes⟩ := exists_toBytes_of_ofBytes hread
    exact ⟨h, bytes, hread, hbytes, toBytes_eq_take_iff hlong hread hbytes⟩

/-- 128 zero bytes have the right checksum, but no `1A`: they are not reproduced. -/
theorem zero_header_rewritten :
    128 ≤ (List.replicate 128 (0 : UInt8)).length ∧ ∃ h bytes,
      ofBytes (List.replicate 128 0) = .ok h ∧ h.toBytes = .ok bytes ∧
        bytes ≠ (List.replicate 128 0).take 128 := by
  have hlong : 128 ≤ (List.replicate 128 (0 : UInt8)).length := Nat.le_of_eq List.length_replicate.symm
  obtain ⟨h, bytes, hread, hbytes, hsame⟩ := header_codec_round_trips.2 _ hlong
  refine ⟨hlong, h, bytes, hread, hbytes, fun heq => ?_⟩
  have hsoft := (hsame.mp heq).1
  exact absurd hsoft (by decide)

end SpectrumBasic.DiskHeader
