import SpectrumBasic.Number.Packing
import SpectrumBasic.Proofs.CleanFiles
import SpectrumBasic.Proofs.ListingFiles
import SpectrumBasic.Proofs.PrintedLines

/-!
# Looking at any file

The commands that look at a program file have an answer to every file, whatever is in it. What they take
from the file is there (`Program.header_readable`, `LineRecord.exists_packed_of_mem_hiddenIn`), so that
they never fail, and only validation may exit with another status than zero: exactly if one of its
findings means that the file is no usable program (`Validation.any_isError_findings_iff`).
-/

namespace SpectrumBasic

/-! ## What is read of a file -/

/-- The header of a file and its checksum are there if the program has a header. -/
theorem Program.header_readable {data : Bytes} {header : DiskHeader}
    (h : (parse data).1.header = some header) :
    DiskHeader.isPresent data = true ∧ DiskHeader.ofBytes data = .ok header ∧
      DiskHeader.checksumOf data = .ok (DiskHeader.sumOf data) := by
  cases hpresent : DiskHeader.isPresent data with
  | false =>
    rw [parse_of_not_isPresent hpresent] at h
    cases h
  | true =>
    obtain ⟨found, hfound, hparse⟩ := parse_of_isPresent hpresent
    rw [hparse] at h
    obtain rfl := Option.some.inj h
    have hlong : ¬ data.length < DiskHeader.summedSize := by
      have hsize := DiskHeader.size_le_of_isPresent hpresent
      simp only [DiskHeader.size, DiskHeader.summedSize] at hsize ⊢
      omega
    exact ⟨rfl, hfound, if_neg hlong⟩

theorem DiskHeader.signature_of_ofBytes {data : Bytes} {header : DiskHeader}
    (h : ofBytes data = .ok header) : header.signature = data.take 8 := by
  unfold ofBytes at h
  split at h
  · cases h
  · obtain rfl := Except.ok.inj h
    rfl

/-- The bytes of a hidden number that is found stand behind a marker, and they are as many as it
takes. -/
theorem LineRecord.exists_packed_of_mem_hiddenIn {run : Text} {bytes : Bytes}
    {found : Text × Option Int} (h : found ∈ hiddenIn run bytes) :
    ∃ packed, Hidden.marker :: packed <:+: bytes ∧ Hidden.unpackNumber packed = .ok found.2 := by
  induction run, bytes using hiddenIn.induct with
  | case1 run =>
    rw [hiddenIn_nil] at h
    cases h
  | case2 run rest packed hshort =>
    rw [hiddenIn, if_pos rfl, if_pos hshort] at h
    cases h
  | case3 run rest packed hlong ih =>
    rw [hiddenIn, if_pos rfl, if_neg hlong] at h
    have hsize : packed.length = Hidden.size := by
      have hle : packed.length ≤ Hidden.size := List.length_take_le _ _
      omega
    rcases List.mem_cons.mp h with rfl | hlater
    · refine ⟨packed, ⟨[], rest.drop Hidden.size, ?_⟩, ?_⟩
      · rw [List.nil_append, List.cons_append, List.take_append_drop]
      · rw [Hidden.unpackNumber, if_pos hsize]
    · obtain ⟨other, hinfix, hunpack⟩ := ih hlater
      refine ⟨other, hinfix.trans ?_, hunpack⟩
      exact ((List.drop_suffix _ _).trans (List.suffix_cons _ _)).isInfix
  | case4 run b rest hmarker hliteral ih =>
    rw [hiddenIn, if_neg hmarker, if_pos hliteral] at h
    obtain ⟨packed, hinfix, hunpack⟩ := ih h
    exact ⟨packed, hinfix.trans (List.suffix_cons b rest).isInfix, hunpack⟩
  | case5 run b rest hmarker hliteral ih =>
    rw [hiddenIn, if_neg hmarker, if_neg hliteral] at h
    obtain ⟨packed, hinfix, hunpack⟩ := ih h
    exact ⟨packed, hinfix.trans (List.suffix_cons b rest).isInfix, hunpack⟩

/-! ## Findings -/

namespace Validation

theorem any_isError_ite (c : Prop) [Decidable c] (finding : Finding) :
    (if c then [] else [finding]).any Finding.isError = (!decide c && finding.isError) := by
  by_cases h : c <;> simp [h]

theorem any_isError_ofHeader (data : Bytes) (header : DiskHeader) :
    (ofHeader data header).any Finding.isError = !decide (header.fileType = 0) := by
  simp only [ofHeader, List.any_append, any_isError_ite, Finding.isError, Bool.and_false,
    Bool.false_or, Bool.and_true]

/-- A record is unusable only if it is empty. -/
theorem any_isError_ofRecord (record : LineRecord) :
    (ofRecord record).any Finding.isError = record.payload.isEmpty := by
  unfold ofRecord
  split
  · rename_i hempty
    rw [hempty]
    rfl
  · rename_i hpayload
    have hnumbers : ∀ report : Text × Option Int → Option Finding,
        (∀ found finding, report found = some finding → finding.isError = false) →
        (record.hiddenNumbers.filterMap report).any Finding.isError = false := by
      intro report hreport
      rw [List.any_eq_false]
      intro finding hfinding
      obtain ⟨found, -, hfound⟩ := List.mem_filterMap.mp hfinding
      rw [hreport found finding hfound]
      exact Bool.false_ne_true
    have hcut : (if record.hasCutNumber then [Finding.numberCut record.number] else []).any
        Finding.isError = false := by
      cases record.hasCutNumber <;> rfl
    rw [List.any_append, List.any_append, hnumbers, hcut, any_isError_ite,
      Bool.eq_false_iff.mpr hpayload]
    · simp only [Finding.isError, Bool.and_false, Bool.or_false]
    · rintro ⟨literal, value?⟩ finding hfound
      obtain ⟨value, -, rfl⟩ := Option.map_eq_some_iff.mp hfound
      rfl

/-- The type of a file is one byte of its header. -/
theorem fileType_ne_zero_iff {data : Bytes} {header : DiskHeader}
    (h : DiskHeader.ofBytes data = .ok header) : header.fileType ≠ 0 ↔ data[15]? ≠ some 0 := by
  unfold DiskHeader.ofBytes at h
  split at h
  · cases h
  · rename_i hlong
    obtain rfl := Except.ok.inj h
    have hbyte : 15 < data.length := by
      simp only [DiskHeader.size] at hlong
      omega
    have hfield : DiskHeader.fieldAt data 15 1 = data[15].toNat := by
      rw [DiskHeader.fieldAt, List.drop_eq_getElem_cons hbyte]
      rfl
    show ((DiskHeader.fieldAt data 15 1 : Nat) : Int) ≠ 0 ↔ _
    rw [hfield, List.getElem?_eq_getElem hbyte, ne_eq, ne_eq, Option.some.injEq, ← UInt8.toNat_inj]
    simp

/-- A file is no usable program if its header is that of something else, or there is no record in it,
or an empty one. -/
theorem any_isError_findings_iff (data : Bytes) :
    (findings data (Program.parse data).1).any Finding.isError = true ↔
      (DiskHeader.isPresent data = true ∧ data[15]? ≠ some 0) ∨
        (Program.parse data).1.lines = [] ∨
        ∃ record ∈ (Program.parse data).1.lines, record.payload = [] := by
  obtain ⟨first, hfindings, hheader⟩ : ∃ first, findings data (Program.parse data).1 =
      first ++ (if (Program.parse data).1.lines.isEmpty then [.noLines] else [])
        ++ (if (Program.parse data).1.truncated then [.recordCut] else [])
        ++ (Program.parse data).1.lines.flatMap ofRecord ∧
      (first.any Finding.isError = true ↔
        DiskHeader.isPresent data = true ∧ data[15]? ≠ some 0) := by
    cases hpresent : DiskHeader.isPresent data with
    | false =>
      refine ⟨[.headerMissing], ?_, by simp [Finding.isError]⟩
      rw [findings, Program.parse_of_not_isPresent hpresent]
      rfl
    | true =>
      obtain ⟨header, hofBytes, hparse⟩ := Program.parse_of_isPresent hpresent
      refine ⟨ofHeader data header, by rw [findings, hparse], ?_⟩
      simp only [any_isError_ofHeader, Bool.not_eq_true', decide_eq_false_iff_not, true_and]
      exact fileType_ne_zero_iff hofBytes
  have hrecords : ((Program.parse data).1.lines.flatMap ofRecord).any Finding.isError = true ↔
      ∃ record ∈ (Program.parse data).1.lines, record.payload = [] := by
    simp only [List.any_flatMap, any_isError_ofRecord, List.any_eq_true, List.isEmpty_iff]
  have hlines : (if (Program.parse data).1.lines.isEmpty then [Finding.noLines] else []).any
      Finding.isError = true ↔ (Program.parse data).1.lines = [] := by
    cases (Program.parse data).1.lines <;> simp [Finding.isError]
  have hcut : (if (Program.parse data).1.truncated then [Finding.recordCut] else []).any
      Finding.isError = false := by
    cases (Program.parse data).1.truncated <;> rfl
  rw [hfindings, List.any_append, List.any_append, List.any_append, hcut, Bool.or_false,
    Bool.or_eq_true, Bool.or_eq_true, or_assoc]
  exact or_congr hheader (or_congr hlines hrecords)

end Validation

/-! ## Reports -/

/-- Lines without escape characters are printed as the text that they make up. -/
theorem Transcript.printLines_of_not_mem {lines : List Text}
    (h : ∀ line ∈ lines, Text.escape ∉ line) :
    printLines (lines.map String.ofList) = String.ofList (Text.unlines lines) := by
  induction lines with
  | nil => rfl
  | cons line lines ih =>
    rw [List.forall_mem_cons] at h
    have hlater := ih h.2
    simp only [printLines, joinLines] at hlater ⊢
    have hunlines : Text.unlines (line :: lines) = line ++ ['\n'] ++ Text.unlines lines := rfl
    rw [List.map_cons, List.map_cons, List.map_cons, String.join_cons, hlater, plainLine,
      String.toList_ofList, Text.plain_of_not_mem h.1, hunlines, String.ofList_append,
      String.ofList_append]

theorem escape_not_mem_of_mem_file {data : Bytes} {line : Text}
    (h : line ∈ Listing.file .standard data) : Text.escape ∉ line := by
  intro hescape
  exact absurd ((bounds_of_mem_program h).2 _ hescape) (by decide)

namespace Command

/-- The status of a verdict is one if a finding means that the file is no usable program. -/
theorem status_verdict (name : String) (findings : List Finding) :
    (verdict name findings).status = if findings.any Finding.isError then 1 else 0 := by
  have herrors : (!(findings.filter Finding.isError).isEmpty) = findings.any Finding.isError := by
    rw [Bool.eq_iff_iff]
    simp
  simp only [verdict, herrors]
  split
  · rfl
  · split <;> rfl

variable {dir : Directory} {file : String} {data : Bytes}

/-- Describing a file that can be read exits with zero, if the console takes ASCII, the characters of the
path and, for a signature that is not ASCII, the replacement character. -/
theorem run_info (hread : Storage.readInput dir file = .ok data) (env : Environment)
    (showLines : Bool) (host : Host) :
    ∃ transcript, run env dir (.info file showLines) host = (transcript, dir) ∧
      ((host.console.Takes fun c => c.toNat < 0x80 ∨ c ∈ file.toList ∨
          c = '\ufffd' ∧ DiskHeader.isPresent data = true ∧ ∃ b ∈ data.take 8, 0x80 ≤ b) →
        transcript.status = 0) := by
  obtain ⟨notices, hattempt⟩ := Storage.attempt_readProgram hread host
  have hscript : describe file showLines host { dir } =
      Script.report (description (Path.normalize file) data (Program.parse data).1 showLines) host
        { dir, notices } := by
    rw [describe, Script.bind_of_ok hattempt]
  obtain ⟨transcript, hrun, hreported⟩ := Script.play_report false "" hscript
  refine ⟨transcript, hrun, fun htakes => ?_⟩
  refine (hreported (Console.accepts_of_asciiOr htakes ?_ [])).1
  refine asciiOr_description ((AsciiOr.normalize file).mono fun c => .inl) ?_ showLines
  intro header hheader b hb hbeyond
  obtain ⟨hpresent, hofBytes, -⟩ := Program.header_readable hheader
  rw [DiskHeader.signature_of_ofBytes hofBytes] at hb
  exact .inr ⟨rfl, hpresent, b, hb, hbeyond⟩

/-- A listing is made of ASCII characters and copyright signs. -/
theorem asciiOr_of_mem_file {line : String}
    (h : line ∈ (Listing.file .standard data).map String.ofList) : AsciiOr (· = '©') line := by
  obtain ⟨text, htext, rfl⟩ := List.mem_map.mp h
  intro c hc
  rw [String.toList_ofList] at hc
  rcases (bounds_of_mem_program htext).2 c hc with hascii | hsign
  · exact .inl (by omega)
  · exact .inr hsign

/-- Listing a file that can be read exits with zero and prints the listing, if the console takes ASCII
and the copyright sign. -/
theorem run_list (hread : Storage.readInput dir file = .ok data) (env : Environment)
    (verbose : Bool) (host : Host) :
    ∃ transcript, run env dir (.list file none verbose) host = (transcript, dir) ∧
      ((host.console.Takes fun c => c.toNat < 0x80 ∨ c = '©') → transcript.status = 0 ∧
        transcript.output = String.ofList (Listing.text .standard data)) := by
  obtain ⟨notices, hattempt⟩ := Storage.attempt_readProgram hread host
  have hscript : listTo (.ofEnvironment env) verbose file none host { dir } =
      Script.report { lines := (Listing.file .standard data).map String.ofList } host
        { dir, notices } := by
    rw [listTo, Script.bind_of_ok hattempt]
    rfl
  obtain ⟨transcript, hrun, hreported⟩ := Script.play_report verbose "Decoding" hscript
  refine ⟨transcript, hrun, fun htakes => ?_⟩
  obtain ⟨hstatus, houtput⟩ :=
    hreported (Console.accepts_of_asciiOr htakes (fun _ => asciiOr_of_mem_file) [])
  refine ⟨hstatus, houtput.trans ?_⟩
  exact Transcript.printLines_of_not_mem fun line hline => escape_not_mem_of_mem_file hline

/-- Validating a file that can be read exits with one if the file is no usable program, and with zero
otherwise, if the console takes ASCII and the characters of the path. -/
theorem run_validate (hread : Storage.readInput dir file = .ok data) (env : Environment)
    (verbose : Bool) (host : Host) :
    ∃ transcript, run env dir (.validate file verbose) host = (transcript, dir) ∧
      ((host.console.Takes fun c => c.toNat < 0x80 ∨ c ∈ file.toList) → transcript.status =
        if (Validation.findings data (Program.parse data).1).any Finding.isError then 1 else 0) := by
  obtain ⟨transcript, hrun, hreported⟩ := run_validate_report hread env verbose host
  refine ⟨transcript, hrun, fun htakes => ?_⟩
  have hlines := asciiOr_validation (AsciiOr.normalize file) data (Program.parse data).1 verbose
  obtain ⟨hstatus, -⟩ := hreported (Console.accepts_of_asciiOr htakes hlines [])
  exact hstatus.trans (status_verdict _ _)

/-! ## Command lines -/

theorem oneFile_of_readInput (hread : Storage.readInput dir file = .ok data) :
    oneFile dir [file] = .ok file := by
  rw [oneFile, fileOperand, Storage.namesFolder_of_readInput hread]
  rfl

variable {words : List String} {arguments : Arguments}

theorem parseInspector_cons {name : String} (hname : (name == "--") = false)
    (hoption : Arguments.isOption name = false) :
    parseInspector dir (name :: words) = parseInspection dir name words := by
  rw [parseInspector, Arguments.parse, hname, hoption]
  rfl

theorem parse_info (hread : Storage.readInput dir file = .ok data)
    (hwords : Arguments.parse [linesFlag] true words = .ok arguments)
    (hoperands : arguments.operands = [file]) :
    parse dir .inspector ("info" :: words) = .ok (info file (arguments.has linesFlag)) := by
  rw [parse, parseInspector_cons (by decide) (by decide), parseInspection, hwords]
  show (oneFile dir arguments.operands).bind _ = _
  rw [hoperands, oneFile_of_readInput hread]
  rfl

theorem parse_validate (hread : Storage.readInput dir file = .ok data)
    (hwords : Arguments.parse [verboseFlag] true words = .ok arguments)
    (hoperands : arguments.operands = [file]) :
    parse dir .inspector ("validate" :: words) =
      .ok (validate file (arguments.has verboseFlag)) := by
  rw [parse, parseInspector_cons (by decide) (by decide), parseInspection, hwords]
  show (oneFile dir arguments.operands).bind _ = _
  rw [hoperands, oneFile_of_readInput hread]
  rfl

theorem parse_list (hread : Storage.readInput dir file = .ok data)
    (hwords : Arguments.parse [verboseFlag, versionFlag] true words = .ok arguments)
    (hoperands : arguments.operands = [file]) (hversion : arguments.has versionFlag = false) :
    parse dir .lister words = .ok (list file none (arguments.has verboseFlag)) := by
  rw [parse, parseLister, hwords]
  show (if arguments.has versionFlag then _ else _) = _
  rw [hversion, if_neg Bool.false_ne_true, hoperands]
  show (fileOperand dir file).bind _ = _
  rw [fileOperand, Storage.namesFolder_of_readInput hread]
  rfl

end Command

/-! ## Any file -/

end SpectrumBasic
