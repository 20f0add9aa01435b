import SpectrumBasic.Command.Run
import SpectrumBasic.Proofs.NumberFindings
import SpectrumBasic.Proofs.ScriptRuns

/-!
# Files with nothing wrong

The header that a program is written behind describes the file, and where numbers without a short form
are refused, zero is filled in for none. So validation finds nothing wrong with the file of a listing
that was encoded strictly, and the command that validates it says so.
-/

namespace SpectrumBasic

/-! ## Headers -/

/-- Nothing is wrong with the header of a written program. -/
theorem Validation.ofHeader_of_image {p : Program} {data : Bytes}
    (h : (p.image true).outcome = .ok data) : ofHeader data p.readHeader = [] := by
  obtain ⟨hverifies, hlength, -⟩ := Program.parse_of_image h
  have hsize : p.readHeader.fileSize = data.length := by
    show (p.payload.length : Int) + DiskHeader.size = data.length
    rw [hlength]
    omega
  have hdata : p.readHeader.dataLength = (data.length - DiskHeader.size : Nat) := by
    show (p.payload.length : Int) = _
    rw [hlength, Nat.add_sub_cancel_left]
  rw [ofHeader, if_pos hverifies, if_pos hsize, if_pos hdata]
  rfl

/-! ## Records -/

/-- Where numbers without a short form are refused, zero is filled in for none. -/
theorem filterMap_zeroFilled?_of_accepted {text : Text} (h : Accepted true text) :
    (scan .standard .start text).filterMap Lexeme.zeroFilled? = [] := by
  rw [List.filterMap_eq_nil_iff]
  intro lexeme hlexeme
  cases lexeme with
  | number literal value =>
    have hrefusal := List.findSome?_eq_none_iff.mp h _ hlexeme
    have hsmall : Hidden.small? value ≠ none := by
      intro hnone
      rw [Lexeme.refusal?, hnone] at hrefusal
      cases hrefusal
    refine if_neg fun hfills => hsmall ?_
    exact (Hidden.fillsZero_iff (sound_scan text _ hlexeme)).mp hfills
  | _ => rfl

/-- Nothing is wrong with the record of a statement then. -/
theorem Validation.ofRecord_of_accepted {record : LineRecord} {text : Text}
    (hpayload : record.payload = payloadOf text) (hmarker : Hidden.markerChar ∉ text)
    (haccepted : Accepted true text) : ofRecord record = [] := by
  have hnone : (storedNumbers [] (scan .standard .start text)).filter
      (fun stored => Hidden.fillsZero stored.value) = [] := by
    rw [← List.map_eq_nil_iff, map_filter_storedNumbers,
      filterMap_zeroFilled?_of_accepted haccepted]
  have hreported : (storedNumbers [] (scan .standard .start text)).filter
      StoredNumber.isReported = [] := by
    rw [List.filter_eq_nil_iff] at hnone ⊢
    intro stored hstored hreported
    rw [StoredNumber.isReported, Bool.and_eq_true] at hreported
    exact hnone stored hstored hreported.1
  rw [ofRecord_of_payloadOf hpayload hmarker, hreported]
  rfl

/-! ## Files -/

/-- In the file of a program only the records can be wrong, or there are none. -/
theorem Validation.findings_of_image {p : Program} {data : Bytes}
    (h : (p.image true).outcome = .ok data) :
    findings data (Program.parse data).1 =
      (if p.lines.isEmpty then [.noLines] else []) ++ p.lines.flatMap ofRecord := by
  rw [(Program.parse_of_image h).2.2, findings]
  simp only [ofHeader_of_image h, List.nil_append, Bool.false_eq_true, if_false, List.append_nil]

/-- Nothing is wrong with the records of a listing that was encoded strictly. -/
theorem Validation.ofRecord_of_encodeProgram {settings : Settings}
    (hheader : settings.includeHeader = true) (hstrict : settings.strictNumbers = true)
    {lines : List Text} (hmarker : ∀ line ∈ lines, Hidden.markerChar ∉ line.trim) {data : Bytes}
    (h : (encodeProgram settings lines).outcome = .ok data) :
    ∀ record ∈ (Program.parse data).1.lines, ofRecord record = [] := by
  intro record hrecord
  obtain ⟨text, htext, hpayload⟩ := exists_statement hheader h hrecord
  have haccepted := (payloads_of_encodeProgram hheader h).2 text htext
  rw [hstrict] at haccepted
  exact ofRecord_of_accepted hpayload (markerChar_not_mem_statement hmarker text htext) haccepted

/-! ## The command -/

theorem Storage.readProgram_of_readInput {dir : Directory} {file : String} {data : Bytes}
    (h : readInput dir file = .ok data) :
    readProgram dir file = ⟨(Program.parse data).2, .ok (data, (Program.parse data).1)⟩ := by
  rw [readProgram, h]
  rfl

theorem Storage.attempt_readProgram {dir : Directory} {file : String} {data : Bytes}
    (hread : readInput dir file = .ok data) (host : Host) :
    ∃ notices, Script.attempt (fun dir _ => readProgram dir file) host { dir } =
      (.ok (data, (Program.parse data).1), { dir, notices }) :=
  Script.attempt_eq _ host _ (congrArg Attempt.outcome (readProgram_of_readInput hread))

/-- Validating a file that can be read reports on what is wrong with it. -/
theorem Command.run_validate_report {dir : Directory} {file : String} {data : Bytes}
    (hread : Storage.readInput dir file = .ok data) (env : Environment) (verbose : Bool)
    (host : Host) :
    let report := validation (Path.normalize file) data (Program.parse data).1 verbose
    ∃ transcript, run env dir (.validate file verbose) host = (transcript, dir) ∧
      (host.console.accepts [] (report.lines.map Transcript.plainLine) = true →
        transcript.status = report.status ∧
          transcript.output = Transcript.printLines report.lines) := by
  intro report
  obtain ⟨notices, hattempt⟩ := Storage.attempt_readProgram hread host
  have hscript : check file verbose host { dir } = Script.report report host { dir, notices } := by
    rw [check, Script.bind_of_ok hattempt]
  rw [run]
  exact Script.play_report verbose "" hscript

/-- A file with nothing wrong passes validation. -/
theorem Command.run_validate_of_findings {dir : Directory} {file : String} {data : Bytes}
    (hread : Storage.readInput dir file = .ok data)
    (hfindings : Validation.findings data (Program.parse data).1 = []) (env : Environment)
    (verbose : Bool) :
    (Command.run env dir (.validate file verbose)).1.status = 0 ∧
      (Command.run env dir (.validate file verbose)).1.output =
        Transcript.printLines
          ((if verbose then validationDetails data (Program.parse data).1 else [])
            ++ [s!"Validation PASSED: {Path.normalize file}"]) := by
  obtain ⟨transcript, hrun, hreported⟩ := run_validate_report hread env verbose {}
  obtain ⟨hstatus, houtput⟩ := hreported (Console.accepts_unrestricted [] _)
  rw [hrun, hstatus, houtput, validation, hfindings]
  exact ⟨rfl, rfl⟩

/-- **A strictly encoded file validates cleanly.** If a listing without the marker character is
encoded behind a header, with numbers refused that have no short form, and makes at least one line,
then nothing is wrong with the file, and validating it says that it passed. -/
theorem strict_file_validates {settings : Settings} (hheader : settings.includeHeader = true)
    (hstrict : settings.strictNumbers = true) {lines : List Text}
    (hmarker : ∀ line ∈ lines, Hidden.markerChar ∉ line.trim) {program : Program}
    (hprogram : (encodeListing { settings } lines).outcome = .ok program)
    (hlines : program.lines ≠ []) {data : Bytes}
    (h : (encodeProgram settings lines).outcome = .ok data) :
    Validation.findings data (Program.parse data).1 = [] ∧
      ∀ env dir file verbose, Storage.readInput dir file = .ok data →
        (Command.run env dir (.validate file verbose)).1.status = 0 ∧
          (Command.run env dir (.validate file verbose)).1.output =
            Transcript.printLines
              ((if verbose then Command.validationDetails data (Program.parse data).1 else [])
                ++ [s!"Validation PASSED: {Path.normalize file}"]) := by
  have himage : (program.image true).outcome = .ok data := by
    obtain ⟨program', hprogram', himage⟩ := outcome_encodeProgram_iff_image.mp h
    obtain rfl := Except.ok.inj (hprogram'.symm.trans hprogram)
    rw [hheader] at himage
    exact himage
  have hrecords : program.lines.flatMap Validation.ofRecord = [] := by
    have hclean := Validation.ofRecord_of_encodeProgram hheader hstrict hmarker h
    rw [(Program.parse_of_image himage).2.2] at hclean
    exact List.flatMap_eq_nil_iff.mpr hclean
  have hfindings : Validation.findings data (Program.parse data).1 = [] := by
    rw [Validation.findings_of_image himage, hrecords, List.append_nil,
      List.isEmpty_eq_false_iff.mpr hlines]
    rfl
  refine ⟨hfindings, ?_⟩
  intro env dir file verbose hread
  exact Command.run_validate_of_findings hread hfindings env verbose

/-- The end of a broken run does no harm if it has a short form, and neither does a value with the byte
of the marker in it. -/
theorem strict_file_of_broken_run_validates :
    ∃ data,
      (encodeProgram { strictNumbers := true } ["10 PRINT 14;1.2.0".toList]).outcome = .ok data ∧
      Validation.findings data (Program.parse data).1 = [] ∧
      (Command.run [] { files := [(["a.bas"], data)] } (.validate "a.bas" false)).1.status = 0 := by
  have h := outcome_encodeProgram_of_isSome { strictNumbers := true } ["10 PRINT 14;1.2.0".toList]
    (by decide +kernel)
  obtain ⟨program, hprogram, himage⟩ := outcome_encodeProgram_iff_image.mp h
  have hlines : program.lines ≠ [] := by
    intro hnil
    have hread := congrArg Program.lines (Program.parse_of_image himage).2.2
    exact absurd (hread.trans hnil) (by decide +kernel)
  obtain ⟨hfindings, hpassed⟩ := strict_file_validates rfl rfl (by decide +kernel) hprogram hlines h
  refine ⟨_, h, hfindings, (hpassed [] _ "a.bas" false ?_).1⟩
  generalize (encodeProgram { strictNumbers := true } _).outcome.toOption.getD [] = data
  rfl

end SpectrumBasic
