import SpectrumBasic.Program.Parse

/-!
# Records one after another

A file holds its records one after another, and whatever stands behind the last of them is no record
any more. `Tiles` says so of some bytes: they are the bytes of the records followed by a remainder
that is too short to start a record, or that starts one and breaks off.

Two facts about `splitRecords` carry everything else:

* it reads back a record that was written (`splitRecords_toBytes_append`);
* what it gives for any bytes tiles them (`tiles_splitRecords`).

There is only one way to tile given bytes (`Tiles.eq_splitRecords`), so a program file has only one
reading.
-/

namespace SpectrumBasic

open LineRecord (headSize)

/-! ## Tilings -/

/-- Whether some bytes can stand behind the last record of a program: fewer than a record starts
with, or, where a record was `truncated`, the start of one that declares more bytes than follow. -/
def IsRemainder (truncated : Bool) (left : Bytes) : Prop :=
  if truncated then
    headSize ≤ left.length ∧ left.length - headSize < Bytes.toNatLE ((left.drop 2).take 2)
  else left.length < headSize

/-- Some bytes are the bytes of records and a remainder behind them. -/
def Tiles (data : Bytes) (records : List LineRecord) (truncated : Bool) : Prop :=
  ∃ left, data = records.flatMap LineRecord.toBytes ++ left ∧ IsRemainder truncated left

theorem Tiles.cons {data : Bytes} {records : List LineRecord} {truncated : Bool}
    (record : LineRecord) (h : Tiles data records truncated) :
    Tiles (record.toBytes ++ data) (record :: records) truncated := by
  obtain ⟨left, hdata, hleft⟩ := h
  refine ⟨left, ?_, hleft⟩
  rw [hdata, List.flatMap_cons, List.append_assoc]

/-! ## Reading what was written -/

namespace LineRecord

/-- The bytes of a record, one by one up to its payload. -/
theorem toBytes_eq_cons (record : LineRecord) :
    ∃ numberHigh numberLow lengthLow lengthHigh,
      record.toBytes = numberHigh :: numberLow :: lengthLow :: lengthHigh :: record.payload ∧
      Bytes.toNatBE [numberHigh, numberLow] = record.number ∧
      Bytes.toNatLE [lengthLow, lengthHigh] = record.payload.length := by
  have hnumber : record.number < Bytes.capacity 2 := Nat.lt_succ_of_le record.number_le
  have hlength : record.payload.length < Bytes.capacity 2 := Nat.lt_succ_of_le record.length_le
  refine ⟨_, _, _, _, rfl, ?_, ?_⟩
  · exact Bytes.toNatBE_ofNatBE hnumber
  · exact Bytes.toNatLE_ofNatLE hlength

theorem make_self (record : LineRecord) :
    make record.number record.payload = .ok record := by
  have hnumber : 0 ≤ (record.number : Int) ∧ (record.number : Int) ≤ maxWord :=
    ⟨Int.natCast_nonneg _, Int.ofNat_le.mpr record.number_le⟩
  rw [make, dif_pos hnumber, dif_pos record.length_le]
  rfl

end LineRecord

/-- A record in front is read back, whatever follows. -/
theorem splitRecords_toBytes_append (record : LineRecord) (rest : Bytes) :
    splitRecords (record.toBytes ++ rest)
      = (record :: (splitRecords rest).1, (splitRecords rest).2) := by
  obtain ⟨numberHigh, numberLow, lengthLow, lengthHigh, hbytes, hnumber, hlength⟩ :=
    record.toBytes_eq_cons
  rw [hbytes]
  simp only [List.cons_append]
  rw [splitRecords]
  simp only [hnumber, hlength, List.take_left, List.drop_left, if_true]

/-- Records in front are read back, whatever follows. -/
theorem splitRecords_flatMap_append (records : List LineRecord) (rest : Bytes) :
    splitRecords (records.flatMap LineRecord.toBytes ++ rest)
      = (records ++ (splitRecords rest).1, (splitRecords rest).2) := by
  induction records with
  | nil => rfl
  | cons record records ih =>
    rw [List.flatMap_cons, List.append_assoc, splitRecords_toBytes_append, ih]
    rfl

theorem splitRecords_of_length_lt {left : Bytes} (h : left.length < headSize) :
    splitRecords left = ([], .whole left.length) := by
  unfold headSize at h
  match left, h with
  | [], _ | [_], _ | [_, _], _ | [_, _, _], _ => rw [splitRecords]; simp

/-- A remainder holds no record, and it shows whether a record was left out. -/
theorem splitRecords_of_isRemainder {truncated : Bool} {left : Bytes}
    (h : IsRemainder truncated left) :
    (splitRecords left).1 = [] ∧ (splitRecords left).2.isCut = truncated := by
  cases truncated with
  | false =>
    have hshort : left.length < headSize := h
    rw [splitRecords_of_length_lt hshort]
    exact ⟨rfl, rfl⟩
  | true =>
    obtain ⟨hlong, hdeclared⟩ : headSize ≤ left.length ∧
      left.length - headSize < Bytes.toNatLE ((left.drop 2).take 2) := h
    match left, hlong, hdeclared with
    | numberHigh :: numberLow :: lengthLow :: lengthHigh :: rest, _, hdeclared =>
      have hmissing : ¬ (rest.take (Bytes.toNatLE [lengthLow, lengthHigh])).length
          = Bytes.toNatLE [lengthLow, lengthHigh] := by
        simp only [headSize, List.length_cons, List.drop_succ_cons, List.drop_zero,
          List.take_succ_cons, List.take_zero] at hdeclared
        rw [List.length_take]
        omega
      rw [splitRecords]
      simp only [if_neg hmissing, Ending.isCut, and_self]

/-! ## Every file has one reading -/

/-- The records of some bytes tile them. -/
theorem tiles_splitRecords (data : Bytes) :
    Tiles data (splitRecords data).1 (splitRecords data).2.isCut := by
  fun_induction splitRecords data with
  | case1 numberHigh numberLow lengthLow lengthHigh rest number length payload hwhole record
      records ending hrest ih =>
    -- the record takes its bytes off the front, and what follows is tiled by induction
    rw [hrest] at ih
    have hnumber : Bytes.ofNatBE 2 number = [numberHigh, numberLow] :=
      Bytes.ofNatBE_toNatBE [numberHigh, numberLow]
    have hlength : Bytes.ofNatLE 2 payload.length = [lengthLow, lengthHigh] := by
      rw [hwhole]
      exact Bytes.ofNatLE_toNatLE [lengthLow, lengthHigh]
    have hbytes : record.toBytes = numberHigh :: numberLow :: lengthLow :: lengthHigh :: payload := by
      show Bytes.ofNatBE 2 number ++ Bytes.ofNatLE 2 payload.length ++ payload = _
      rw [hnumber, hlength]
      rfl
    have htile := Tiles.cons record ih
    rw [hbytes] at htile
    simp only [List.cons_append, payload, List.take_append_drop] at htile
    exact htile
  | case2 numberHigh numberLow lengthLow lengthHigh rest number length payload hcut =>
    -- fewer bytes are left than the record says it has
    refine ⟨_, rfl, ?_⟩
    show headSize ≤ _ ∧ _
    simp only [payload, length, List.length_take] at hcut
    simp only [headSize, List.length_cons, List.drop_succ_cons, List.drop_zero,
      List.take_succ_cons, List.take_zero]
    omega
  | case3 left hshort =>
    refine ⟨left, rfl, ?_⟩
    show left.length < headSize
    rcases left with _ | ⟨a, _ | ⟨b, _ | ⟨c, _ | ⟨d, rest⟩⟩⟩⟩
    case cons.cons.cons.cons => exact absurd rfl (hshort a b c d rest)
    all_goals simp [headSize]

/-- Bytes can be tiled in one way only, the one that `splitRecords` finds. -/
theorem Tiles.eq_splitRecords {data : Bytes} {records : List LineRecord} {truncated : Bool}
    (h : Tiles data records truncated) :
    records = (splitRecords data).1 ∧ truncated = (splitRecords data).2.isCut := by
  obtain ⟨left, rfl, hleft⟩ := h
  obtain ⟨hnone, hcut⟩ := splitRecords_of_isRemainder hleft
  rw [splitRecords_flatMap_append]
  simp only [hnone, hcut, List.append_nil, and_self]

end SpectrumBasic
