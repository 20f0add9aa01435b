import SpectrumBasic.Command.Run
import SpectrumBasic.Proofs.EncodedFiles
import SpectrumBasic.Proofs.PrintedLines
import SpectrumBasic.Proofs.StoredFiles
import SpectrumBasic.Proofs.StrictEncoding

/-!
# What encoding writes

The encoder as a tool either writes the whole file of a listing or no file at all. Reading, encoding and
building the header come before the one step that writes (`Command.encodeTo_cases`), and that step puts
all bytes where the output path leads or has no effect (`Storage.writeBytes_eq_ok_iff`). After it only the
console can fail: the line to start at was read, so that it can be shown
(`Encoder.isShowable_autostart_of_encodeListing`).

The tool encodes under the name of its input, which is nowhere but in complaints and notices, so its bytes
are those of the listing under any name (`outcome_encodeListing_named`).
-/

namespace SpectrumBasic

/-! ## The name of a source -/

namespace Encoder

/-- The encoder with another name for its source. -/
def named (enc : Encoder) (file : String) : Encoder := { enc with file }

variable {enc : Encoder} {p : Progress}

/-- A payload does not depend on the name of the source. -/
theorem outcome_tokenize_named (file : String) {text : Text} {payload : Bytes} :
    ((enc.named file).tokenize p text).outcome = .ok payload ↔
      (enc.tokenize p text).outcome = .ok payload := by
  rw [tokenize_eq_ok_iff, tokenize_eq_ok_iff]
  rfl

theorem outcome_encodeStatement_named (file : String) {number : Int} {text : Text}
    {record : LineRecord} :
    ((enc.named file).encodeStatement p number text).outcome = .ok record ↔
      (enc.encodeStatement p number text).outcome = .ok record := by
  unfold encodeStatement
  by_cases hn : 0 ≤ number ∧ number ≤ maxWord
  · rw [dif_pos hn, dif_pos hn, Attempt.outcome_bind_eq_ok_iff, Attempt.outcome_bind_eq_ok_iff]
    refine exists_congr fun payload => and_congr (outcome_tokenize_named file) ?_
    by_cases hl : payload.length ≤ maxWord
    · rw [dif_pos hl, dif_pos hl]
    · rw [dif_neg hl, dif_neg hl]
      exact ⟨nofun, nofun⟩
  · rw [dif_neg hn, dif_neg hn]
    cases Text.isShowable number with
    | true => exact ⟨nofun, nofun⟩
    | false => exact ⟨nofun, nofun⟩

/-- The record of a line does not depend on the name of the source, nor does the progress after it. -/
theorem encodeLine_named (enc : Encoder) (file : String) (p : Progress) (line : Text)
    (record : Option LineRecord) :
    (((enc.named file).encodeLine p line).1.outcome = .ok record ↔
        (enc.encodeLine p line).1.outcome = .ok record) ∧
      ((enc.named file).encodeLine p line).2 = (enc.encodeLine p line).2 := by
  unfold encodeLine
  cases hkind : SourceLine.ofText line.trim with
  | blank | comment | autostart operand =>
    simp only [hkind, and_self]
  | malformed =>
    simp only [hkind]
    have hchecks : (enc.named file).settings.strictDirectives = enc.settings.strictDirectives := rfl
    rw [hchecks]
    cases enc.settings.strictDirectives with
    | true => exact ⟨⟨nofun, nofun⟩, rfl⟩
    | false => exact ⟨Iff.rfl, rfl⟩
  | statement number body =>
    simp only [hkind]
    cases numberOf { p with sourceText := line.trim } number with
    | error failure => exact ⟨Iff.rfl, rfl⟩
    | ok n =>
      refine ⟨?_, rfl⟩
      simp only [Attempt.outcome_andThen_eq_ok_iff]
      exact exists_congr fun record => and_congr_left fun _ => outcome_encodeStatement_named file

theorem outcome_encodeFrom_named (file : String) {index : Nat} {lines : List Text}
    {records : List LineRecord} :
    ((enc.named file).encodeFrom p index lines).1.outcome = .ok records ↔
      (enc.encodeFrom p index lines).1.outcome = .ok records := by
  induction lines generalizing p index records with
  | nil => rfl
  | cons line rest ih =>
    rw [outcome_encodeFrom_cons_eq_ok_iff, outcome_encodeFrom_cons_eq_ok_iff]
    refine exists_congr fun record => exists_congr fun later => ?_
    obtain ⟨hrecord, hprogress⟩ :=
      encodeLine_named enc file { p with sourceLine := index } line record
    rw [hrecord, hprogress, ih]

/-- Where all lines are encoded the progress does not depend on the name of the source. -/
theorem progress_encodeFrom_named (file : String) {index : Nat} {lines : List Text}
    {records : List LineRecord}
    (h : (enc.encodeFrom p index lines).1.outcome = .ok records) :
    ((enc.named file).encodeFrom p index lines).2 = (enc.encodeFrom p index lines).2 := by
  induction lines generalizing p index records with
  | nil => rfl
  | cons line rest ih =>
    obtain ⟨record, later, hrecord, hlater, -⟩ := outcome_encodeFrom_cons_eq_ok_iff.mp h
    obtain ⟨houtcome, hprogress⟩ :=
      encodeLine_named enc file { p with sourceLine := index } line record
    rw [progress_encodeFrom_cons hrecord, progress_encodeFrom_cons (houtcome.mpr hrecord), hprogress,
      ih hlater]

end Encoder

/-- The program of a listing does not depend on the name of the source. -/
theorem outcome_encodeListing_named (enc : Encoder) (file : String) {lines : List Text}
    {program : Program} :
    (encodeListing (enc.named file) lines).outcome = .ok program ↔
      (encodeListing enc lines).outcome = .ok program := by
  rw [outcome_encodeListing_eq_ok_iff, outcome_encodeListing_eq_ok_iff]
  refine exists_congr fun records => ?_
  rw [Encoder.outcome_encodeFrom_named file]
  refine and_congr_right fun hrecords => ?_
  rw [Encoder.progress_encodeFrom_named file hrecords]
  rfl

/-! ## The line to start at -/

namespace Encoder

variable {enc : Encoder} {p : Progress}

/-- A line names a line to start at that can be shown, or none. -/
theorem isShowable_autostart_of_encodeLine (hp : p.autostart.all Text.isShowable = true)
    (line : Text) : (enc.encodeLine p line).2.autostart.all Text.isShowable = true := by
  unfold encodeLine
  cases hkind : SourceLine.ofText line.trim with
  | blank | comment => simpa only [hkind] using hp
  | autostart operand =>
    simp only [hkind]
    cases hread : Text.readInt operand with
    | ok start => exact Text.isShowable_of_readInt (SourceLine.isDigit_of_mem_operand hkind) hread
    | error fault => exact hp
  | malformed =>
    simp only [hkind]
    split <;> exact hp
  | statement number body =>
    simp only [hkind]
    split <;> exact hp

theorem isShowable_autostart_of_encodeFrom (hp : p.autostart.all Text.isShowable = true)
    {index : Nat} {lines : List Text} {records : List LineRecord}
    (h : (enc.encodeFrom p index lines).1.outcome = .ok records) :
    (enc.encodeFrom p index lines).2.autostart.all Text.isShowable = true := by
  induction lines generalizing p index records with
  | nil => exact hp
  | cons line rest ih =>
    obtain ⟨record, later, hrecord, hlater, -⟩ := outcome_encodeFrom_cons_eq_ok_iff.mp h
    rw [progress_encodeFrom_cons hrecord]
    exact ih (isShowable_autostart_of_encodeLine (by exact hp) line) hlater

theorem isShowable_autostart_of_encodeListing {lines : List Text} {program : Program}
    (h : (encodeListing enc lines).outcome = .ok program) :
    program.autostart.all Text.isShowable = true := by
  obtain ⟨records, hrecords, rfl⟩ := outcome_encodeListing_eq_ok_iff.mp h
  exact isShowable_autostart_of_encodeFrom rfl hrecords

end Encoder

/-! ## Sources -/

namespace Storage

variable {settings : Settings} {codecs : Codecs} {dir : Directory} {path : String}

theorem readSource_normalize :
    readSource settings dir (Path.normalize path) codecs = readSource settings dir path codecs := by
  unfold readSource readInput
  rw [Path.normalize_normalize]

theorem outcome_encodeFile_eq_ok_iff {program : Program} :
    (encodeFile settings dir (Path.normalize path) codecs).outcome = .ok program ↔
      ∃ lines, readSource settings dir path codecs = .ok lines ∧
        (encodeListing { settings } lines).outcome = .ok program := by
  rw [encodeFile, readSource_normalize, Attempt.outcome_bind_eq_ok_iff]
  refine exists_congr fun lines => and_congr_right fun _ => ?_
  exact outcome_encodeListing_named { settings } (Path.normalize path)

theorem namesFolder_of_readSource {lines : List Text}
    (h : readSource settings dir path codecs = .ok lines) : dir.namesFolder path = false := by
  obtain ⟨bytes, -, -, hread, -⟩ := readSource_eq_ok_iff.mp h
  exact namesFolder_of_readInput hread

end Storage

/-! ## The command -/

namespace Command

variable {dir : Directory} {input output : String}

/-- The options of the encoder turn settings on or off, one at a time. -/
theorem encodeSettings_eq (settings : Settings) (noHeader strict : Bool) :
    encodeSettings settings noHeader strict =
      let checked := if strict then
          { settings with strictNumbers := true, strictDirectives := true }
        else settings
      if noHeader then { checked with includeHeader := false } else checked := by
  cases noHeader <;> cases strict <;> rfl

/-- The listing in one file has a program file, and writing that to another one leaves the files
`after`. -/
def Encodes (settings : Settings) (codecs : Codecs) (dir : Directory) (input output : String)
    (after : Directory) : Prop :=
  ∃ lines data, Storage.readSource settings dir input codecs = .ok lines ∧
    (encodeProgram settings lines).outcome = .ok data ∧
    Storage.writeBytes dir output data = .ok after

variable {settings : Settings} {codecs : Codecs} {host : Host} {after after' : Directory}

/-- The file of a listing is written in the steps that the command takes. -/
theorem encodes_iff : Encodes settings codecs dir input output after ↔
    ∃ program data,
      (Storage.encodeFile settings dir (Path.normalize input) codecs).outcome = .ok program ∧
      (program.image settings.includeHeader).outcome = .ok data ∧
      Storage.writeBytes dir output data = .ok after := by
  simp only [Storage.outcome_encodeFile_eq_ok_iff]
  constructor
  · rintro ⟨lines, data, hlines, hencoded, hwritten⟩
    obtain ⟨program, hlisting, hdata⟩ := outcome_encodeProgram_iff_image.mp hencoded
    exact ⟨program, data, ⟨lines, hlines, hlisting⟩, hdata, hwritten⟩
  · rintro ⟨program, data, ⟨lines, hlines, hlisting⟩, hdata, hwritten⟩
    have hencoded := outcome_encodeProgram_iff_image.mpr ⟨program, hlisting, hdata⟩
    exact ⟨lines, data, hlines, hencoded, hwritten⟩

theorem Encodes.unique (h : Encodes settings codecs dir input output after)
    (h' : Encodes settings codecs dir input output after') : after = after' := by
  obtain ⟨lines, data, hlines, hdata, hafter⟩ := h
  obtain ⟨lines', data', hlines', hdata', hafter'⟩ := h'
  obtain rfl := Except.ok.inj (hlines.symm.trans hlines')
  obtain rfl := Except.ok.inj (hdata.symm.trans hdata')
  exact Except.ok.inj (hafter.symm.trans hafter')

/-- Telling of the file leaves the files as they are, and goes through if the console takes ASCII and the
characters of the path. -/
theorem tellEncoded_cases {program : Program}
    (hshown : program.autostart.all Text.isShowable = true) (withHeader verbose : Bool)
    (output : String) (data : Bytes) (host : Host) (scene : Scene) :
    ∃ outcome later, tellEncoded withHeader verbose output program data host scene =
        (outcome, later) ∧ later.dir = scene.dir ∧
      (outcome = .ok 0 ∨ (∃ failure, outcome = .error failure) ∧
        ¬ host.console.Takes fun c => c.toNat < 0x80 ∨ c ∈ output.toList) := by
  have hrefused : ∀ {lines : List String} {printed : List String},
      (∀ line ∈ lines, AsciiOr (· ∈ output.toList) line) →
      host.console.accepts printed (lines.map Transcript.plainLine) = false →
      ¬ host.console.Takes fun c => c.toNat < 0x80 ∨ c ∈ output.toList := by
    intro lines printed hlines hrefused htakes
    rw [Console.accepts_of_asciiOr htakes hlines printed] at hrefused
    cases hrefused
  have hcreated : ∀ line ∈ [created (Path.normalize output)],
      AsciiOr (· ∈ output.toList) line :=
    List.forall_mem_singleton.mpr (asciiOr_created (AsciiOr.normalize output))
  cases hfirst : host.console.accepts scene.printed
      ([created (Path.normalize output)].map Transcript.plainLine) with
  | false =>
    obtain ⟨failure, before, -, hprint⟩ := Script.print_of_not_accepts hfirst
    exact ⟨_, _, Script.bind_of_error hprint, rfl,
      .inr ⟨⟨failure, rfl⟩, hrefused hcreated hfirst⟩⟩
  | true =>
    have hstart := DiskHeader.outcome_normalizeAutostart program.autostart
    rw [if_pos hshown] at hstart
    have hprint := Script.print_of_accepts hfirst
    obtain ⟨notices, hattempt⟩ := Script.attempt_eq
      (fun _ _ => DiskHeader.normalizeAutostart program.autostart) host _ hstart
    rw [tellEncoded, Script.bind_of_ok hprint, Script.bind_of_ok hattempt]
    rcases Script.report_cases host _ (encodeReport withHeader verbose
        (DiskHeader.storedAutostart program.autostart) program data) with
      ⟨-, hreport⟩ | ⟨hlast, failure, printed, hreport⟩
    · exact ⟨_, _, hreport, rfl, .inl rfl⟩
    · refine ⟨_, _, hreport, rfl, .inr ⟨⟨failure, rfl⟩, hrefused ?_ hlast⟩⟩
      exact asciiOr_encodeReport withHeader verbose _ program data

variable (verbose : Bool)

/-- Writing comes down to telling of it where the file of the listing can be written, and leaves the files
as they are where it cannot. -/
theorem encodeTo_cases (settings : Settings) (dir : Directory) (input output : String)
    (host : Host) :
    (∃ program data after notices, Encodes settings host.codecs dir input output after ∧
      program.autostart.all Text.isShowable = true ∧
      encodeTo settings verbose input output host { dir } =
        tellEncoded settings.includeHeader verbose output program data host
          { dir := after, notices }) ∨
    ∃ failure notices,
      encodeTo settings verbose input output host { dir } = (.error failure, { dir, notices }) ∧
        ∀ after, ¬ Encodes settings host.codecs dir input output after := by
  obtain ⟨notices, hread⟩ := Script.attempt_eq (fun dir codecs =>
    Storage.encodeFile settings dir (Path.normalize input) codecs) host { dir } rfl
  cases hprogram : (Storage.encodeFile settings dir (Path.normalize input) host.codecs).outcome with
  | error failure =>
    rw [hprogram] at hread
    refine .inr ⟨failure, notices, Script.bind_of_error hread, fun after hencodes => ?_⟩
    obtain ⟨_, _, hfound, -⟩ := encodes_iff.mp hencodes
    cases hprogram.symm.trans hfound
  | ok program =>
    rw [hprogram] at hread
    rw [encodeTo, Script.bind_of_ok hread]
    obtain ⟨notices, himage⟩ := Script.attempt_eq
      (fun _ _ => program.image settings.includeHeader) host { dir, notices } rfl
    cases hdata : (program.image settings.includeHeader).outcome with
    | error failure =>
      rw [hdata] at himage
      refine .inr ⟨failure, notices, Script.bind_of_error himage, fun after hencodes => ?_⟩
      obtain ⟨_, _, hfound, hmade, -⟩ := encodes_iff.mp hencodes
      obtain rfl := Except.ok.inj (hprogram.symm.trans hfound)
      cases hdata.symm.trans hmade
    | ok data =>
      rw [hdata] at himage
      rw [Script.bind_of_ok himage]
      cases hwritten : Storage.writeBytes dir output data with
      | error failure =>
        have hreplace := Script.replace_of_error
          (fun dir => Storage.writeBytes dir output data) host { dir, notices } hwritten
        refine .inr ⟨failure, notices, Script.bind_of_error hreplace, fun after hencodes => ?_⟩
        obtain ⟨_, _, hfound, hmade, hplaced⟩ := encodes_iff.mp hencodes
        obtain rfl := Except.ok.inj (hprogram.symm.trans hfound)
        obtain rfl := Except.ok.inj (hdata.symm.trans hmade)
        cases hwritten.symm.trans hplaced
      | ok after =>
        have hreplace := Script.replace_of_ok
          (fun dir => Storage.writeBytes dir output data) host { dir, notices } hwritten
        obtain ⟨_, -, hlisting⟩ := Storage.outcome_encodeFile_eq_ok_iff.mp hprogram
        exact .inl ⟨program, data, after, notices,
          encodes_iff.mpr ⟨program, data, hprogram, hdata, hwritten⟩,
          Encoder.isShowable_autostart_of_encodeListing hlisting, Script.bind_of_ok hreplace⟩

/-- The run of a command to encode writes the file of the listing and exits with zero, unless the console
refuses a line; or it fails and leaves the files as they are. -/
theorem run_encode_cases {env : Environment} {noHeader strict : Bool}
    (hsettings : encodeSettings (.ofEnvironment env) noHeader strict = settings)
    {transcript : Transcript}
    (h : run env dir (.encode input output noHeader strict verbose) host = (transcript, after)) :
    (Encodes settings host.codecs dir input output after ∧ (transcript.status = 0 ∨
      transcript.status ≠ 0 ∧
        ¬ host.console.Takes fun c => c.toNat < 0x80 ∨ c ∈ output.toList)) ∨
    (transcript.status ≠ 0 ∧ after = dir ∧
      ∀ other, ¬ Encodes settings host.codecs dir input output other) := by
  rw [run, hsettings] at h
  rcases encodeTo_cases verbose settings dir input output host with
    ⟨program, data, written, notices, hencodes, hshown, hwriting⟩ |
    ⟨failure, notices, hscript, hnever⟩
  · obtain ⟨outcome, scene, htelling, rfl, houtcome⟩ := tellEncoded_cases hshown
      settings.includeHeader verbose output data host { dir := written, notices }
    have hscript := hwriting.trans htelling
    obtain ⟨rfl, rfl⟩ := Prod.mk.inj ((Script.play_eq verbose "Encoding" hscript).symm.trans h)
    refine .inl ⟨hencodes, ?_⟩
    rcases houtcome with rfl | ⟨⟨failure, rfl⟩, hrefused⟩
    · exact .inl rfl
    · exact .inr ⟨scene.status_transcript_of_error verbose "Encoding" failure, hrefused⟩
  · obtain ⟨rfl, rfl⟩ := Prod.mk.inj ((Script.play_eq verbose "Encoding" hscript).symm.trans h)
    exact .inr ⟨Scene.status_transcript_of_error _ verbose "Encoding" failure, rfl, hnever⟩

/-- A command line with an input and an output is one to encode, and refused only if it names a
folder. -/
theorem run_encoder (env : Environment) (host : Host) {words : List String} {arguments : Arguments}
    (hwords : Arguments.parse [noHeaderFlag, strictFlag, verboseFlag, versionFlag] true words
      = .ok arguments)
    (hoperands : arguments.operands = [input, output])
    (hversion : arguments.has versionFlag = false) :
    Tool.encoder.run env dir words host =
      if dir.namesFolder input then .error (.folder input)
      else if dir.namesFolder output then .error (.folder output)
      else .ok (run env dir (.encode input output (arguments.has noHeaderFlag)
        (arguments.has strictFlag) (arguments.has verboseFlag)) host) := by
  rw [Tool.run, parse, parseEncoder, hwords]
  show Except.map _ (if arguments.has versionFlag then _ else _) = _
  rw [hversion, if_neg Bool.false_ne_true, hoperands]
  exact map_fileOperands _ (fun input output => encode input output _ _ _) dir input output

end Command

/-! ## All or nothing -/

end SpectrumBasic
