import SpectrumBasic.Proofs.HeaderFields
import SpectrumBasic.Proofs.RecordStream
import SpectrumBasic.Proofs.ShownNumbers

/-!
# Program files

Reading a program file undoes writing one, and it accounts for every byte of any file, also of one
that nobody wrote as a program.

A file of a program with a header is recognised by the header. A file without one is read as records
from its first byte, unless these happen to look like a header. A header cannot be built for a program
whose line to start at is too long to be shown (`DiskHeader.outcome_build`).
-/

namespace SpectrumBasic

/-! ## The header of a program -/

namespace DiskHeader

/-- A stored line to start at is a line number or the one that stands for none. -/
theorem storedAutostart_bounds (autostart : Option Int) :
    0 ≤ storedAutostart autostart ∧ storedAutostart autostart ≤ noAutostart := by
  cases autostart with
  | none => decide
  | some start =>
    rw [storedAutostart]
    split
    · rename_i h
      exact ⟨h.1, Int.le_of_lt h.2⟩
    · decide

/-- The header of a program can be written exactly if the length of the program fits it. -/
theorem toBytes_ofProgram (length : Nat) (autostart : Option Int) :
    (ofProgram length autostart).toBytes =
      if length ≤ maxDataLength then
        .ok ((ofProgram length autostart).summedBytes
          ++ [sumOf (ofProgram length autostart).summedBytes])
      else .error (.dataLength length) := by
  have hfits : fits 0x10000 (ofProgram length autostart).dataLength = true
      ↔ length ≤ maxDataLength := by
    rw [fits_eq_true_iff]
    show 0 ≤ (length : Int) ∧ (length : Int) < 0x10000 ↔ length ≤ 0xFFFF
    omega
  by_cases hlength : length ≤ maxDataLength
  · have hfields : (ofProgram length autostart).fieldsFit = true := by
      have hstart := storedAutostart_bounds autostart
      simp only [maxDataLength] at hlength
      simp only [noAutostart] at hstart
      simp only [fieldsFit, Bool.and_eq_true, fits_eq_true_iff, ofProgram, size]
      omega
    rw [if_pos hlength]
    exact toBytes_eq_ok_iff.mpr ⟨hfits.mpr hlength, hfields, rfl⟩
  · have hlong : fits 0x10000 (ofProgram length autostart).dataLength = false :=
      Bool.eq_false_iff.mpr fun h => hlength (hfits.mp h)
    rw [if_neg hlength, toBytes, hlong]
    rfl

/-- The line to start at is read back, unless the header cannot name it. -/
theorem named_storedAutostart (autostart : Option Int) :
    (if storedAutostart autostart != noAutostart then some (storedAutostart autostart) else none)
      = autostart.filter fun start => decide (0 ≤ start ∧ start ≤ 32767) := by
  cases autostart with
  | none => rfl
  | some start =>
    by_cases h : 0 ≤ start ∧ start < noAutostart
    · have hnamed : (start != noAutostart) = true := bne_iff_ne.mpr (by omega)
      have hrange : 0 ≤ start ∧ start ≤ 32767 := by
        simp only [noAutostart] at h
        omega
      rw [storedAutostart, if_pos h, if_pos hnamed, Option.filter_some,
        if_pos (decide_eq_true hrange)]
    · have hrange : ¬ (0 ≤ start ∧ start ≤ 32767) := by
        simp only [noAutostart] at h
        omega
      have hdropped : ¬ decide (0 ≤ start ∧ start ≤ 32767) = true :=
        fun hnamed => hrange (of_decide_eq_true hnamed)
      rw [storedAutostart, if_neg h, Option.filter_some, if_neg hdropped]
      rfl

/-- A line to start at is stored if it can be shown. -/
theorem outcome_normalizeAutostart (autostart : Option Int) :
    (normalizeAutostart autostart).outcome =
      if autostart.all Text.isShowable then .ok (storedAutostart autostart)
      else .error .notShowable := by
  cases autostart with
  | none => rfl
  | some start =>
    rw [normalizeAutostart, storedAutostart, Option.all_some]
    by_cases h : 0 ≤ start ∧ start < noAutostart
    · -- a line that fits is short
      have hshown : Text.isShowable start = true := by
        refine Text.isShowable_of_natAbs_lt ?_
        simp only [noAutostart] at h
        omega
      rw [if_pos h, if_pos h, hshown]
      rfl
    · rw [if_neg h, if_neg h]
      cases Text.isShowable start <;> rfl

/-- A header is built if the line to start at can be shown and the data fits. -/
theorem outcome_build (length : Nat) (autostart : Option Int) :
    (build length autostart).outcome =
      if autostart.all Text.isShowable then (ofProgram length autostart).toBytes.mapError .header
      else .error .notShowable := by
  rw [build, Attempt.outcome_bind, outcome_normalizeAutostart]
  by_cases hshown : autostart.all Text.isShowable = true
  · simp only [if_pos hshown, Except.bind, Attempt.outcome_ofExcept, ofProgram]
  · rw [if_neg hshown, if_neg hshown]
    rfl

theorem size_le_of_isPresent {data : Bytes} (h : isPresent data = true) : size ≤ data.length := by
  simp only [isPresent, Bool.and_eq_true, decide_eq_true_eq] at h
  exact h.1

end DiskHeader

/-! ## Reading a file -/

namespace Program

theorem parse_of_not_isPresent {data : Bytes} (h : DiskHeader.isPresent data = false) :
    (parse data).1 = ofRecords (splitRecords data) := by
  rw [parse, h]

/-- A file with a header is records behind it, and the header is read on the way. -/
theorem parse_of_isPresent {data : Bytes} (h : DiskHeader.isPresent data = true) :
    ∃ header, DiskHeader.ofBytes data = .ok header ∧
      (parse data).1 = { ofRecords (splitRecords (data.drop DiskHeader.size)) with
        header := some header
        autostart := if header.hasAutostart then some header.autostart else none } := by
  have hlong : ¬ data.length < DiskHeader.size := by
    have := DiskHeader.size_le_of_isPresent h
    omega
  have hread : ∃ header, DiskHeader.ofBytes data = .ok header := by
    rw [DiskHeader.ofBytes, if_neg hlong]
    exact ⟨_, rfl⟩
  obtain ⟨header, hheader⟩ := hread
  refine ⟨header, hheader, ?_⟩
  rw [parse, h, hheader]

theorem ofRecords_splitRecords_flatMap (records : List LineRecord) :
    ofRecords (splitRecords (records.flatMap LineRecord.toBytes)) = { lines := records } := by
  have hsplit := splitRecords_flatMap_append records []
  have hempty : splitRecords [] = ([], .whole 0) := splitRecords_of_length_lt (by decide)
  rw [List.append_nil, hempty, List.append_nil] at hsplit
  rw [hsplit]
  rfl

/-! ## Writing and reading back -/

/-- The header that a file of the program is read with. -/
def readHeader (p : Program) : DiskHeader :=
  { p.fileHeader with checksum := (DiskHeader.sumOf p.fileHeader.summedBytes).toNat }

/-- The file of a program with a header is there if the header is. -/
theorem outcome_image_true (p : Program) :
    (p.image true).outcome =
      if p.autostart.all Text.isShowable then
        (p.fileHeader.toBytes.mapError .header).map (· ++ p.payload)
      else .error .notShowable := by
  rw [image, if_pos rfl, Attempt.outcome_bind, DiskHeader.outcome_build]
  by_cases hshown : p.autostart.all Text.isShowable = true
  · rw [if_pos hshown, if_pos hshown, fileHeader]
    cases (DiskHeader.ofProgram p.payload.length p.autostart).toBytes <;> rfl
  · rw [if_neg hshown, if_neg hshown]
    rfl

/-- A program that fits a header is written behind one and read back from there. -/
theorem parse_image_of_le (p : Program) (hshown : p.autostart.all Text.isShowable = true)
    (h : p.payload.length ≤ DiskHeader.maxDataLength) :
    ∃ data, (p.image true).outcome = .ok data ∧
      DiskHeader.verifies data = true ∧
      DiskHeader.sumOf data = DiskHeader.sumOf p.fileHeader.summedBytes ∧
      (parse data).1 =
        { lines := p.lines
          autostart := p.autostart.filter fun start => decide (0 ≤ start ∧ start ≤ 32767)
          header := some p.readHeader } := by
  obtain ⟨bytes, hbytes⟩ : ∃ bytes, p.fileHeader.toBytes = .ok bytes := by
    rw [fileHeader, DiskHeader.toBytes_ofProgram, if_pos h]
    exact ⟨_, rfl⟩
  have hsignature : p.fileHeader.signature = DiskHeader.signatureBytes := rfl
  refine ⟨bytes ++ p.payload, ?_, DiskHeader.verifies_toBytes_append hbytes p.payload,
    DiskHeader.sumOf_toBytes_append hbytes p.payload, ?_⟩
  · rw [outcome_image_true, hshown, hbytes]
    rfl
  · -- the header is recognised, so the records are read from behind it
    obtain ⟨header, hheader, hparse⟩ :=
      parse_of_isPresent (DiskHeader.isPresent_toBytes_append hbytes hsignature p.payload)
    rw [DiskHeader.ofBytes_toBytes_append hbytes p.payload,
      DiskHeader.writtenSignature_eq hsignature] at hheader
    have hread : header = p.readHeader := (Except.ok.inj hheader).symm
    have hbody : (bytes ++ p.payload).drop DiskHeader.size = p.payload :=
      List.drop_left' (DiskHeader.length_of_toBytes hbytes)
    have hrecords : ofRecords (splitRecords p.payload) = { lines := p.lines } :=
      ofRecords_splitRecords_flatMap p.lines
    have hstored : p.readHeader.autostart = DiskHeader.storedAutostart p.autostart := rfl
    rw [hparse, hbody, hrecords, hread, DiskHeader.hasAutostart, hstored,
      DiskHeader.named_storedAutostart]

theorem image_of_lt (p : Program) (hshown : p.autostart.all Text.isShowable = true)
    (h : DiskHeader.maxDataLength < p.payload.length) :
    (p.image true).outcome = .error (.header (.dataLength p.payload.length)) := by
  rw [outcome_image_true, hshown, fileHeader, DiskHeader.toBytes_ofProgram,
    if_neg (Nat.not_le.mpr h)]
  rfl

/-- Without a header, the records are read back unless they look like a header themselves. -/
theorem parse_payload_iff (p : Program) :
    (parse p.payload).1 = { lines := p.lines, autostart := none, header := none, truncated := false }
      ↔ DiskHeader.isPresent p.payload = false := by
  constructor
  · intro hread
    cases hheader : DiskHeader.isPresent p.payload with
    | false => rfl
    | true =>
      -- a header that is recognised would show in the program
      obtain ⟨header, -, hparse⟩ := parse_of_isPresent hheader
      rw [hparse] at hread
      simp only [Program.mk.injEq, reduceCtorEq, false_and, and_false] at hread
  · intro hheader
    rw [parse_of_not_isPresent hheader]
    exact ofRecords_splitRecords_flatMap p.lines

/-- **Reading a file undoes writing it.** With a header, a program whose line to start at has more than
4300 digits cannot be written, since the notice about that line cannot show it. Any other is refused
exactly if its records are longer than a header can say, and otherwise its file is read back: the same
records, the line to start at if a header can name it, and a header that describes the program. Without
a header, the records are read back exactly if they do not look like a header themselves. -/
theorem parse_image (p : Program) :
    (if p.autostart.any fun start => 10 ^ Text.digitLimit ≤ start.natAbs then
      (p.image true).outcome = .error .notShowable
    else if 65535 < p.payload.length then
      ∃ fault, (p.image true).outcome = .error (.header fault)
    else
      ∃ data header, (p.image true).outcome = .ok data ∧
        (parse data).1 =
          { lines := p.lines
            autostart := p.autostart.filter fun start => decide (0 ≤ start ∧ start ≤ 32767)
            header := some header
            truncated := false } ∧
        header.dataLength = p.dataLength ∧ header.varsOffset = p.dataLength ∧
        header.fileSize = header.dataLength + 128 ∧
        DiskHeader.verifies data = true ∧ header.checksum = (DiskHeader.sumOf data).toNat) ∧
    ∃ data, (p.image false).outcome = .ok data ∧
      ((parse data).1 = { lines := p.lines, autostart := none, header := none, truncated := false }
        ↔ DiskHeader.isPresent p.payload = false) := by
  refine ⟨?_, p.payload, rfl, parse_payload_iff p⟩
  have hoverlong : (p.autostart.any fun start => decide (10 ^ Text.digitLimit ≤ start.natAbs)) =
      !p.autostart.all Text.isShowable := by
    cases p.autostart with
    | none => rfl
    | some start =>
      rw [Option.any_some, Option.all_some, Bool.eq_iff_iff, decide_eq_true_iff, Bool.not_eq_true',
        Text.not_isShowable_iff]
  rw [hoverlong]
  split
  · rename_i hunshown
    rw [Bool.not_eq_true'] at hunshown
    rw [outcome_image_true, hunshown]
    rfl
  · rename_i hshown
    rw [Bool.not_eq_true, Bool.not_eq_false'] at hshown
    split
    · rename_i hlong
      exact ⟨_, image_of_lt p hshown hlong⟩
    · rename_i hshort
      obtain ⟨data, himage, hverifies, hsum, hparse⟩ :=
        parse_image_of_le p hshown (Nat.not_lt.mp hshort)
      have hlength : (p.payload.length : Int) = p.dataLength := by rw [length_payload]
      refine ⟨data, p.readHeader, himage, hparse, hlength, hlength, rfl, hverifies, ?_⟩
      rw [hsum]
      rfl

/-- An empty program that is to start at a power of ten has no file with a header. -/
theorem image_of_power_of_ten :
    (image { autostart := some (10 ^ 4300) } true).outcome = .error .notShowable := by
  rw [outcome_image_true, Option.all_some, Text.isShowable_pow]
  rfl

/-! ## Any bytes at all -/

/-- The bytes of a file that its records are read from. -/
def body (data : Bytes) : Bytes :=
  data.drop (if DiskHeader.isPresent data then DiskHeader.size else 0)

/-- The records of a file are those that its body splits into. -/
theorem parse_eq_splitRecords (data : Bytes) :
    (parse data).1.lines = (splitRecords (body data)).1 ∧
      (parse data).1.truncated = (splitRecords (body data)).2.isCut := by
  cases hpresent : DiskHeader.isPresent data with
  | false =>
    rw [parse_of_not_isPresent hpresent, body, hpresent]
    exact ⟨rfl, rfl⟩
  | true =>
    obtain ⟨header, -, hparse⟩ := parse_of_isPresent hpresent
    rw [hparse, body, hpresent]
    exact ⟨rfl, rfl⟩

/-- What a reader takes from a recognised header is all there: its fields, its checksum and the line
to start at. -/
theorem readable_of_isPresent {data : Bytes} (h : DiskHeader.isPresent data = true) :
    (∃ header, DiskHeader.ofBytes data = .ok header ∧ (parse data).1.header = some header) ∧
    (∃ sum, DiskHeader.checksumOf data = .ok sum) ∧
    DiskHeader.readAutostart data = .ok (parse data).1.autostart := by
  have hsize := DiskHeader.size_le_of_isPresent h
  obtain ⟨header, hheader, hparse⟩ := parse_of_isPresent h
  rw [hparse]
  refine ⟨⟨header, hheader, rfl⟩, ?_, ?_⟩
  · rw [DiskHeader.checksumOf, if_neg (Nat.not_lt.mpr (Nat.le_trans (by decide) hsize))]
    exact ⟨_, rfl⟩
  · have hautostart : header.autostart = DiskHeader.fieldAt data 18 2 := by
      rw [DiskHeader.ofBytes, if_neg (Nat.not_lt.mpr hsize)] at hheader
      rw [← Except.ok.inj hheader]
    rw [DiskHeader.readAutostart, if_neg (Nat.not_lt.mpr (Nat.le_trans (by decide) hsize)),
      DiskHeader.hasAutostart, hautostart]
    by_cases hnone : (DiskHeader.fieldAt data 18 2 : Int) = DiskHeader.noAutostart
    · simp [hnone]
    · simp [hnone]

/-- **Every byte of every file is accounted for.** Reading a file refuses nothing: a recognised header
can be read, and every record that is cut out is a record. Behind the header the file is the records
one after another and a remainder that is no record, and no other records and flag would do. -/
theorem parse_accounts_for_every_byte (data : Bytes) :
    (DiskHeader.isPresent data = true →
      (∃ header, DiskHeader.ofBytes data = .ok header ∧ (parse data).1.header = some header) ∧
      (∃ sum, DiskHeader.checksumOf data = .ok sum) ∧
      DiskHeader.readAutostart data = .ok (parse data).1.autostart) ∧
    (∀ record ∈ (parse data).1.lines,
      LineRecord.make record.number record.payload = .ok record) ∧
    Tiles (data.drop (if DiskHeader.isPresent data then 128 else 0))
      (parse data).1.lines (parse data).1.truncated ∧
    ∀ records truncated,
      Tiles (data.drop (if DiskHeader.isPresent data then 128 else 0)) records truncated →
        records = (parse data).1.lines ∧ truncated = (parse data).1.truncated := by
  obtain ⟨hlines, htruncated⟩ := parse_eq_splitRecords data
  refine ⟨readable_of_isPresent, ?_, ?_, ?_⟩
  · intro record _
    exact LineRecord.make_self record
  · rw [hlines, htruncated]
    exact tiles_splitRecords (body data)
  · intro records truncated htiles
    rw [hlines, htruncated]
    exact htiles.eq_splitRecords

end Program

end SpectrumBasic
