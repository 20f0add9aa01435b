import SpectrumBasic.Proofs.EncodedFiles
import SpectrumBasic.Proofs.ListedText
import SpectrumBasic.Proofs.Relisting
import SpectrumBasic.Proofs.StoredText

/-!
# Encoding a listing again

A program file is listed and the listing is encoded again. The records come out the same exactly if no
statement had a control character in it and no line has a clash.

Each half rests on the statements alone. Where a statement has neither, its listing is read back as a
whole from its line and has the same payload. For the other half, the listing never has control
characters, so that a statement with the payload of its listing has none (`Reading.isControl_eq_false`)
and no clash either (`Reading.relisted`).
-/

namespace SpectrumBasic

/-! ## Statements -/

theorem dropLast_payloadOf (text : Text) :
    (payloadOf text).dropLast = bytesOf (scan .standard .start text) := by
  rw [payloadOf, List.dropLast_concat]

section Statement

variable {text : Text} (htext : ∀ c ∈ text, isControl c = false)

include htext

/-- A statement is encoded next to its listing. -/
theorem relisted_payloadOf :
    Relisted (clashes (payloadOf text))
      (scan .standard .start (Listing.line .standard (payloadOf text).dropLast))
      (scan .standard .start text) := by
  have hreading := reading_scan Table.consistent_standard .start text
  rw [dropLast_payloadOf]
  exact hreading.relisted htext rfl fun _ => rfl

theorem solid_line_payloadOf (hsolid : Text.Solid text) :
    Text.Solid (Listing.line .standard (payloadOf text).dropLast) := by
  rw [dropLast_payloadOf]
  exact (reading_scan Table.consistent_standard .start text).solid_line htext hsolid

/-- A statement whose listing has its payload has no clash. -/
theorem clashes_of_payloadOf_eq
    (h : payloadOf (Listing.line .standard (payloadOf text).dropLast) = payloadOf text) :
    clashes (payloadOf text) = false := by
  have hrelisted := relisted_payloadOf htext
  cases hclash : clashes (payloadOf text) with
  | false => rfl
  | true =>
    rw [hclash] at hrelisted
    exact absurd (List.append_cancel_right h) hrelisted

/-- The record of a statement without a clash is listed so that it is encoded again. -/
theorem LineRecord.relists_of_payloadOf {strict : Bool} {r : LineRecord}
    (hpayload : r.payload = payloadOf text) (hsolid : Text.Solid text)
    (haccepted : Accepted strict text) (hclash : clashes r.payload = false) :
    r.Relists strict := by
  have hrelisted := relisted_payloadOf htext
  rw [← hpayload, hclash] at hrelisted
  refine ⟨hpayload ▸ solid_line_payloadOf htext hsolid, ?_, ?_⟩
  · rw [Accepted, hrelisted.refusal_eq]
    exact haccepted
  · rw [payloadOf, hrelisted.bytes_eq, hpayload]
    rfl

end Statement

/-- A statement that has the payload of one without control characters has none. -/
theorem isControl_of_payloadOf_eq {text text' : Text} (h : payloadOf text' = payloadOf text)
    (htext : ∀ c ∈ text, isControl c = false) : ∀ c ∈ text', isControl c = false :=
  (reading_scan Table.consistent_standard .start text).isControl_eq_false
    (reading_scan Table.consistent_standard .start text') rfl (List.append_cancel_right h) htext

/-! ## Listings -/

theorem isControl_of_mem_program {program : Program} {line : Text}
    (h : line ∈ Listing.program .standard program) : ∀ c ∈ line, isControl c = false :=
  fun c hc => isControl_of_bounds ((bounds_of_mem_program h).2 c hc)

/-- The statements of a listed program are those of its records, if they are solid. -/
theorem filterMap_statement?_program {program : Program}
    (h : ∀ r ∈ program.lines, Text.Solid (Listing.line .standard r.payload.dropLast))
    (hstart : ∀ start, program.autostart = some start → 0 ≤ start) :
    (Listing.program .standard program).filterMap statement? =
      program.lines.map fun r => Listing.line .standard r.payload.dropLast := by
  have hdirective : (program.autostart.map Listing.directive).toList.filterMap statement? = [] := by
    cases hautostart : program.autostart with
    | none => rfl
    | some start =>
      obtain ⟨n, rfl⟩ := Int.eq_ofNat_of_zero_le (hstart start hautostart)
      obtain ⟨hsolid, htext⟩ := ofText_directive n
      have hnone : statement? (Listing.directive n) = none := by
        rw [statement?, hsolid.trim_eq, htext]
      rw [Option.map_some, Option.toList_some, List.filterMap_cons_none hnone]
      rfl
  have hrecords : ∀ records : List LineRecord,
      (∀ r ∈ records, Text.Solid (Listing.line .standard r.payload.dropLast)) →
      (records.map (Listing.record .standard)).filterMap statement? =
        records.map fun r => Listing.line .standard r.payload.dropLast := by
    intro records hall
    induction records with
    | nil => rfl
    | cons r records ih =>
      rw [List.forall_mem_cons] at hall
      rw [List.map_cons, List.filterMap_cons_some (statement?_record hall.1), ih hall.2,
        List.map_cons]
  rw [Listing.program, List.filterMap_append, hdirective, List.nil_append, hrecords _ h]

/-! ## Program files -/

namespace Program

/-- Only the stored line to start at shows in a file. -/
theorem image_eq_of_storedAutostart {p q : Program} (hlines : p.lines = q.lines)
    (hp : p.autostart.all Text.isShowable = true) (hq : q.autostart.all Text.isShowable = true)
    (hstart : DiskHeader.storedAutostart p.autostart = DiskHeader.storedAutostart q.autostart) :
    (p.image true).outcome = (q.image true).outcome := by
  have hpayload : p.payload = q.payload := by rw [payload, payload, hlines]
  rw [outcome_image_true, outcome_image_true, hp, hq, fileHeader, fileHeader, DiskHeader.ofProgram,
    DiskHeader.ofProgram, hpayload, hstart]

end Program

/-- A line that cannot be stored is stored like none. -/
theorem DiskHeader.storedAutostart_filter (autostart : Option Int) :
    storedAutostart (autostart.filter fun start => decide (0 ≤ start ∧ start ≤ 32767)) =
      storedAutostart autostart := by
  cases autostart with
  | none => rfl
  | some start =>
    have hlimit : noAutostart = 32768 := rfl
    by_cases h : 0 ≤ start ∧ start ≤ 32767
    · rw [Option.filter_some, if_pos (decide_eq_true h)]
    · rw [Option.filter_some, if_neg (by simpa using h), storedAutostart, storedAutostart,
        if_neg (by omega)]

/-! ## Encoding again -/

section Again

variable {settings : Settings} (hheader : settings.includeHeader = true) {lines : List Text}
  {data : Bytes} (h : (encodeProgram settings lines).outcome = .ok data)

include hheader h

theorem autostart_of_encodeProgram {start : Int}
    (hstart : (Program.parse data).1.autostart = some start) : 0 ≤ start ∧ start ≤ 32767 := by
  obtain ⟨records, -, himage⟩ := (outcome_encodeProgram_eq_ok_iff hheader).mp h
  rw [(Program.parse_of_image himage).2.2, Option.filter_eq_some_iff] at hstart
  exact of_decide_eq_true hstart.2

/-- A statement that is encoded again from its listing has no control characters. -/
theorem isControl_of_reencoded
    (hagain : (encodeProgram settings (Listing.file .standard data)).outcome = .ok data) :
    ∀ body ∈ lines.filterMap statement?, ∀ c ∈ body, isControl c = false := by
  intro body hbody
  -- the statement has the payload of a listed one
  have hmem : payloadOf body ∈
      ((Listing.file .standard data).filterMap statement?).map payloadOf := by
    rw [← (payloads_of_encodeProgram hheader hagain).1, (payloads_of_encodeProgram hheader h).1]
    exact List.mem_map_of_mem hbody
  obtain ⟨listed, hlisted, hpayload⟩ := List.mem_map.mp hmem
  obtain ⟨line, hline, hstatement⟩ := List.mem_filterMap.mp hlisted
  exact isControl_of_payloadOf_eq hpayload.symm fun c hc =>
    isControl_of_mem_program hline c (mem_of_statement? hstatement hc)

section Control

variable (hcontrol : ∀ body ∈ lines.filterMap statement?, ∀ c ∈ body, isControl c = false)

include hcontrol

theorem solid_line_of_mem {r : LineRecord} (hr : r ∈ (Program.parse data).1.lines) :
    Text.Solid (Listing.line .standard r.payload.dropLast) := by
  obtain ⟨body, hbody, hpayload⟩ := exists_statement hheader h hr
  obtain ⟨line, -, hstatement⟩ := List.mem_filterMap.mp hbody
  rw [hpayload]
  exact solid_line_payloadOf (hcontrol body hbody) (solid_of_statement? hstatement)

/-- Lines that are encoded again from their listing have no clash. -/
theorem clashes_of_reencoded
    (hagain : (encodeProgram settings (Listing.file .standard data)).outcome = .ok data) :
    ∀ r ∈ (Program.parse data).1.lines, clashes r.payload = false := by
  intro r hr
  -- both encodings have the same records, so each listed statement has the payload of its record
  have hsame := (payloads_of_encodeProgram hheader hagain).1
  rw [Listing.file, filterMap_statement?_program
    (fun r hr => solid_line_of_mem hheader h hcontrol hr)
    (fun start hstart => (autostart_of_encodeProgram hheader h hstart).1), List.map_map] at hsame
  have hlisted := List.map_inj_left.mp hsame r hr
  obtain ⟨body, hbody, hpayload⟩ := exists_statement hheader h hr
  rw [Function.comp_apply, hpayload] at hlisted
  rw [hpayload]
  exact clashes_of_payloadOf_eq (hcontrol body hbody) hlisted.symm

/-- Lines without a clash are encoded again from their listing. -/
theorem reencoded_of_clashes
    (hclash : ∀ r ∈ (Program.parse data).1.lines, clashes r.payload = false) :
    (encodeProgram settings (Listing.file .standard data)).outcome = .ok data := by
  have hrelists : ∀ r ∈ (Program.parse data).1.lines, r.Relists settings.strictNumbers := by
    intro r hr
    obtain ⟨body, hbody, hpayload⟩ := exists_statement hheader h hr
    obtain ⟨line, -, hstatement⟩ := List.mem_filterMap.mp hbody
    exact LineRecord.relists_of_payloadOf (hcontrol body hbody) hpayload
      (solid_of_statement? hstatement) ((payloads_of_encodeProgram hheader h).2 body hbody)
      (hclash r hr)
  obtain ⟨hrecords, hstart⟩ := Encoder.encodeFrom_program
    (show ({ settings } : Encoder).table = .standard from rfl) hrelists
    (fun start => autostart_of_encodeProgram hheader h)
    (show ({ settings } : Encoder).start.autostart = none from rfl) 1
  -- the records are those of the file, and the line to start at is stored like the one it had
  obtain ⟨records, -, himage⟩ := (outcome_encodeProgram_eq_ok_iff hheader).mp h
  obtain ⟨-, -, hparse⟩ := Program.parse_of_image himage
  have hlines : (Program.parse data).1.lines = records := by rw [hparse]
  refine (outcome_encodeProgram_eq_ok_iff hheader).mpr ⟨_, hrecords, ?_⟩
  rw [← himage]
  refine Program.image_eq_of_storedAutostart hlines ?_ (Program.isShowable_of_image himage) ?_
  · show Option.all _ (Encoder.encodeFrom _ _ _ (Listing.file .standard data)).2.autostart = true
    rw [Listing.file, hstart, Option.all_eq_true]
    intro start hnamed
    have hbounds := autostart_of_encodeProgram hheader h hnamed
    exact Text.isShowable_of_natAbs_lt (by omega)
  · show DiskHeader.storedAutostart
      (Encoder.encodeFrom _ _ _ (Listing.file .standard data)).2.autostart = _
    rw [Listing.file, hstart, hparse, DiskHeader.storedAutostart_filter]

end Control

end Again

/-- **When a listing reproduces the file it was made from.** A file that was encoded is listed and the
listing is encoded with the same settings. That gives the same file exactly if no statement had a
control character and no line has a clash. -/
theorem reencoding_reproduces_iff {settings : Settings} (hheader : settings.includeHeader = true)
    {lines : List Text} {data : Bytes} (h : (encodeProgram settings lines).outcome = .ok data) :
    (encodeProgram settings (Listing.file .standard data)).outcome = .ok data ↔
      (∀ line ∈ lines, ∀ body ∈ statement? line, ∀ c ∈ body, isControl c = false) ∧
        ∀ record ∈ (Program.parse data).1.lines, clashes record.payload = false := by
  constructor
  · intro hagain
    have hcontrol := isControl_of_reencoded hheader h hagain
    refine ⟨?_, clashes_of_reencoded hheader h hcontrol hagain⟩
    intro line hline body hbody
    exact hcontrol body (List.mem_filterMap.mpr ⟨line, hline, hbody⟩)
  · rintro ⟨hcontrol, hclash⟩
    refine reencoded_of_clashes hheader h ?_ hclash
    intro body hbody
    obtain ⟨line, hline, hstatement⟩ := List.mem_filterMap.mp hbody
    exact hcontrol line hline body hstatement

/-- Whether statements have control characters can be computed. -/
theorem isControl_of_all {lines : List Text}
    (h : lines.all (fun line => (statement? line).all (·.all (!isControl ·))) = true) :
    ∀ line ∈ lines, ∀ body ∈ statement? line, ∀ c ∈ body, isControl c = false := by
  intro line hline body hbody c hc
  have hbodies := List.all_eq_true.mp h line hline
  rw [Option.mem_def.mp hbody, Option.all_some] at hbodies
  simpa only [Bool.not_eq_true'] using List.all_eq_true.mp hbodies c hc

/-- A strict encoder reproduces a dollar sign that goes on behind `VAL`, numbers and a remark. -/
theorem strict_reencoding_of_remark :
    ∃ data, (encodeProgram { strictNumbers := true, strictDirectives := true }
        ["#autostart 10".toList, "10 let b=val $a+5:rem x".toList]).outcome = .ok data ∧
      (encodeProgram { strictNumbers := true, strictDirectives := true }
        (Listing.file .standard data)).outcome = .ok data := by
  have h := outcome_encodeProgram_of_isSome { strictNumbers := true, strictDirectives := true }
    ["#autostart 10".toList, "10 let b=val $a+5:rem x".toList] (by decide +kernel)
  refine ⟨_, h, (reencoding_reproduces_iff rfl h).mpr ⟨?_, by decide +kernel⟩⟩
  exact isControl_of_all (by decide +kernel)

/-- Two words in a row are not reproduced: `PRINT INT` is listed as one word and read as text. -/
theorem reencoding_changes_words :
    ∃ data, (encodeProgram {} ["10 PRINT INT 5".toList]).outcome = .ok data ∧
      (encodeProgram {} (Listing.file .standard data)).outcome ≠ .ok data := by
  have h := outcome_encodeProgram_of_isSome {} ["10 PRINT INT 5".toList] (by decide +kernel)
  refine ⟨_, h, fun hagain => ?_⟩
  have hcontrol := isControl_of_reencoded rfl h hagain
  exact absurd (clashes_of_reencoded rfl h hcontrol hagain) (by decide +kernel)

/-- **Exactly the clashes are in the way.** If no statement has a control character, a file is encoded
again from its listing exactly if none of its lines, hidden values aside, has two words in a row, a
remark that starts with a quote or a point, or `PEEK` or `VAL` in front of a dollar sign that ends a
word there. -/
theorem reencoding_iff_no_clash {settings : Settings} (hheader : settings.includeHeader = true)
    {lines : List Text} {data : Bytes} (h : (encodeProgram settings lines).outcome = .ok data)
    (hcontrol : ∀ line ∈ lines, ∀ body ∈ statement? line, ∀ c ∈ body, 0x20 ≤ c.toNat) :
    (encodeProgram settings (Listing.file .standard data)).outcome = .ok data ↔
      ∀ record ∈ (Program.parse data).1.lines, ¬ Clash (visible record.payload) := by
  have hbodies : ∀ body ∈ lines.filterMap statement?, ∀ c ∈ body, isControl c = false := by
    intro body hbody c hc
    obtain ⟨line, hline, hstatement⟩ := List.mem_filterMap.mp hbody
    exact decide_eq_false (Nat.not_lt.mpr (hcontrol line hline body hstatement c hc))
  have hclashes : ∀ {bytes : Bytes}, clashes bytes = false ↔ ¬ Clash (visible bytes) := by
    intro bytes
    rw [← clashIn_eq_true_iff, Bool.not_eq_true]
    rfl
  constructor
  · intro hagain record hrecord
    exact hclashes.mp (clashes_of_reencoded hheader h hbodies hagain record hrecord)
  · intro hnone
    apply reencoded_of_clashes hheader h hbodies
    exact fun record hrecord => hclashes.mpr (hnone record hrecord)

/-- The dollar sign at the end of a line joins `PEEK`. -/
theorem reencoding_fails_for_dollar :
    ∃ data, (encodeProgram {} ["10 POKE 1,PEEK $".toList]).outcome = .ok data ∧
      (encodeProgram {} (Listing.file .standard data)).outcome ≠ .ok data := by
  have h := outcome_encodeProgram_of_isSome {} ["10 POKE 1,PEEK $".toList] (by decide +kernel)
  refine ⟨_, h, fun hagain => ?_⟩
  have hcontrol : ∀ line ∈ ["10 POKE 1,PEEK $".toList], ∀ body ∈ statement? line,
      ∀ c ∈ body, 0x20 ≤ c.toNat := by
    intro line hline body hbody c hc
    have hc := isControl_of_all (by decide +kernel) line hline body hbody c hc
    exact Nat.not_lt.mp (of_decide_eq_false hc)
  exact absurd ((reencoding_iff_no_clash rfl h hcontrol).mp hagain) (by decide +kernel)

end SpectrumBasic
