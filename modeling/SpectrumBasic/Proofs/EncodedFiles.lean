import Mathlib.Data.List.Forall2
import SpectrumBasic.Proofs.EncodedLines
import SpectrumBasic.Proofs.ProgramFile

/-!
# The file of a listing

What is in the file that a listing is encoded to. Behind a header that describes it the file has a
record for each statement of the listing, in order and with the payload of the statement
(`forall₂_payloadOf`), and nothing else.
-/

namespace SpectrumBasic

/-! ## Program files -/

namespace Program

theorem isShowable_of_image {p : Program} {data : Bytes} (h : (p.image true).outcome = .ok data) :
    p.autostart.all Text.isShowable = true := by
  rw [← Bool.not_eq_false]
  intro hhidden
  rw [outcome_image_true, hhidden] at h
  cases h

/-- A program that was written behind a header is read back, and the checksum and the length of the
file are right. -/
theorem parse_of_image {p : Program} {data : Bytes} (h : (p.image true).outcome = .ok data) :
    DiskHeader.verifies data = true ∧ data.length = DiskHeader.size + p.payload.length ∧
      (parse data).1 =
        { lines := p.lines
          autostart := p.autostart.filter fun start => decide (0 ≤ start ∧ start ≤ 32767)
          header := some p.readHeader } := by
  have hshown := isShowable_of_image h
  have hlength : p.payload.length ≤ DiskHeader.maxDataLength := by
    refine Nat.le_of_not_lt fun hlong => ?_
    cases (image_of_lt p hshown hlong).symm.trans h
  obtain ⟨data', hdata, hverifies, -, hparse⟩ := parse_image_of_le p hshown hlength
  obtain rfl := Except.ok.inj (hdata.symm.trans h)
  refine ⟨hverifies, ?_, hparse⟩
  rw [outcome_image_true, hshown] at h
  cases hbytes : p.fileHeader.toBytes with
  | error fault =>
    rw [hbytes] at h
    cases h
  | ok bytes =>
    rw [hbytes] at h
    rw [← Except.ok.inj h, List.length_append, DiskHeader.length_of_toBytes hbytes]

end Program

/-! ## Listings -/

/-- The file of a listing is that of its program. -/
theorem outcome_encodeProgram_iff_image {settings : Settings} {lines : List Text} {data : Bytes} :
    (encodeProgram settings lines).outcome = .ok data ↔
      ∃ program : Program, (encodeListing { settings } lines).outcome = .ok program ∧
        (program.image settings.includeHeader).outcome = .ok data := by
  rw [encodeProgram, Attempt.outcome_bind_eq_ok_iff]

/-- The program of a listing has its records. -/
theorem outcome_encodeProgram_eq_ok_iff {settings : Settings}
    (hheader : settings.includeHeader = true) {lines : List Text} {data : Bytes} :
    (encodeProgram settings lines).outcome = .ok data ↔
      ∃ records,
        (({ settings } : Encoder).encodeFrom ({ settings } : Encoder).start 1 lines).1.outcome
          = .ok records ∧
        (({ lines := records
            autostart := (({ settings } : Encoder).encodeFrom ({ settings } : Encoder).start 1
              lines).2.autostart } : Program).image true).outcome = .ok data := by
  rw [outcome_encodeProgram_iff_image, hheader]
  constructor
  · rintro ⟨program, hprogram, himage⟩
    obtain ⟨records, hrecords, hmade⟩ := Attempt.outcome_andThen_eq_ok_iff.mp hprogram
    obtain rfl := Except.ok.inj hmade
    exact ⟨records, hrecords, himage⟩
  · rintro ⟨records, hrecords, himage⟩
    refine ⟨_, Attempt.outcome_andThen_eq_ok_iff.mpr ⟨records, hrecords, rfl⟩, himage⟩

/-- The file of a listing that has one. -/
theorem outcome_encodeProgram_of_isSome (settings : Settings) (lines : List Text)
    (h : (encodeProgram settings lines).outcome.toOption.isSome = true) :
    (encodeProgram settings lines).outcome =
      .ok ((encodeProgram settings lines).outcome.toOption.getD []) := by
  cases houtcome : (encodeProgram settings lines).outcome with
  | error failure =>
    rw [houtcome] at h
    cases h
  | ok data => rfl

section File

variable {settings : Settings} (hheader : settings.includeHeader = true) {lines : List Text}
  {data : Bytes} (h : (encodeProgram settings lines).outcome = .ok data)

include hheader h

theorem payloads_of_encodeProgram :
    (Program.parse data).1.lines.map (·.payload) = (lines.filterMap statement?).map payloadOf ∧
      ∀ body ∈ lines.filterMap statement?, Accepted settings.strictNumbers body := by
  obtain ⟨records, hrecords, himage⟩ := (outcome_encodeProgram_eq_ok_iff hheader).mp h
  rw [(Program.parse_of_image himage).2.2]
  exact Encoder.payloads_of_encodeFrom rfl hrecords

/-- Statement by statement, the file of a listing has a record with the payload. -/
theorem forall₂_payloadOf :
    List.Forall₂ (fun text record => record.payload = payloadOf text)
      (lines.filterMap statement?) (Program.parse data).1.lines := by
  have hpayloads := (payloads_of_encodeProgram hheader h).1
  rw [← List.forall₂_eq_eq_eq, List.forall₂_map_left_iff, List.forall₂_map_right_iff] at hpayloads
  exact hpayloads.flip

/-- Each record of the file belongs to a statement of the listing. -/
theorem exists_statement {r : LineRecord} (hr : r ∈ (Program.parse data).1.lines) :
    ∃ body ∈ lines.filterMap statement?, r.payload = payloadOf body := by
  have hmem : r.payload ∈ (lines.filterMap statement?).map payloadOf := by
    rw [← (payloads_of_encodeProgram hheader h).1]
    exact List.mem_map_of_mem hr
  obtain ⟨body, hbody, hpayload⟩ := List.mem_map.mp hmem
  exact ⟨body, hbody, hpayload.symm⟩

end File

end SpectrumBasic
