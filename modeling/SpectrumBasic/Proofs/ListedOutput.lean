import SpectrumBasic.Command.Run
import SpectrumBasic.Proofs.CleanFiles
import SpectrumBasic.Proofs.ListingFiles

/-!
# What a failed listing leaves behind

The lister opens its output, which empties the file, and only then encodes the text of the listing. If
the input cannot be read or the output cannot be opened, nothing has happened yet. After that the listing
may have no form, and then the output stays empty, or the console may refuse to be told about it, and then
the output has the listing (`Storage.writeListing_cases`). Copyright signs are the only characters of a
listing beyond ASCII, so of the three encodings only ASCII may lack a code for one of them
(`Encoding.isSome_form?_file_iff`).
-/

namespace SpectrumBasic

/-! ## Listings in an encoding -/

/-- The form that a text has by the codec of a name, if there is one. -/
def Codecs.form? (codecs : Codecs) (name : String) (text : Text) : Option Bytes :=
  ((codecs.find name).bind fun codec => codec.encode text).toOption

theorem Codecs.form?_eq_some_iff {codecs : Codecs} {name : String} {text : Text} {bytes : Bytes} :
    codecs.form? name text = some bytes ↔
      ∃ codec, codecs.find name = .ok codec ∧ codec.encode text = .ok bytes := by
  unfold form?
  cases codecs.find name with
  | error failure => simp [Except.bind, Except.toOption]
  | ok codec =>
    show (codec.encode text).toOption = some bytes ↔ _
    cases hencoded : codec.encode text <;> simp [hencoded, Except.toOption]

theorem Codecs.form?_eq_none_iff {codecs : Codecs} {name : String} {text : Text} :
    codecs.form? name text = none ↔
      ∃ failure, ((codecs.find name).bind fun codec => codec.encode text) = .error failure := by
  unfold form?
  cases (codecs.find name).bind fun codec => codec.encode text <;> simp [Except.toOption]

namespace Encoding

/-- Lines have a form in an encoding that has codes for their characters and for line feeds. -/
theorem isSome_form?_iff {name : String} {lines : List Text} :
    (Codecs.builtin.form? name (Text.unlines lines)).isSome = true ↔
      ∃ encoding, ofName? name = some encoding ∧
        ∀ line ∈ lines, ∀ c ∈ line, c.toNat < encoding.size := by
  have hunlines : ∀ encoding : Encoding, (∀ c ∈ Text.unlines lines, c.toNat < encoding.size) ↔
      ∀ line ∈ lines, ∀ c ∈ line, c.toNat < encoding.size := by
    intro encoding
    have hend : '\n'.toNat < encoding.size := by cases encoding <;> decide
    simp only [Text.unlines, List.mem_flatMap, List.mem_append, List.mem_singleton]
    constructor
    · intro hall line hline c hc
      exact hall c ⟨line, hline, .inl hc⟩
    · rintro hall c ⟨line, hline, hc | rfl⟩
      · exact hall line hline c hc
      · exact hend
  rw [Option.isSome_iff_exists]
  simp only [Codecs.form?_eq_some_iff, Codecs.builtin]
  cases hname : ofName? name with
  | none => simp
  | some encoding =>
    simp only [Except.ok.injEq, exists_eq_left', Option.some.injEq, encode_codec_eq_ok_iff,
      encode_eq_ok_iff, hunlines, exists_and_left, exists_eq, and_true]

/-- A listing has a form in every encoding, but in ASCII only without copyright signs. -/
theorem isSome_form?_file_iff {name : String} {data : Bytes} :
    (Codecs.builtin.form? name (Listing.text .standard data)).isSome = true ↔
      ofName? name = some utf8 ∨ ofName? name = some latin1 ∨
        ofName? name = some ascii ∧ ∀ line ∈ Listing.file .standard data, '©' ∉ line := by
  have hchars : ∀ line ∈ Listing.file .standard data, ∀ c ∈ line,
      (0x20 ≤ c.toNat ∧ c.toNat < 0x7F) ∨ c = '©' :=
    fun line hline => (bounds_of_mem_program hline).2
  have hlatin : ∀ line ∈ Listing.file .standard data, ∀ c ∈ line, c.toNat < latin1.size := by
    intro line hline c hc
    show c.toNat < 0x100
    rcases hchars line hline c hc with hascii | rfl
    · omega
    · decide
  have hutf : ∀ line ∈ Listing.file .standard data, ∀ c ∈ line, c.toNat < utf8.size :=
    fun line hline c hc => Nat.lt_trans (hlatin line hline c hc) (by decide)
  have hascii : (∀ line ∈ Listing.file .standard data, ∀ c ∈ line, c.toNat < ascii.size) ↔
      ∀ line ∈ Listing.file .standard data, '©' ∉ line := by
    constructor
    · intro hall line hline hsign
      exact absurd (hall line hline _ hsign) (by decide)
    · intro hall line hline c hc
      show c.toNat < 0x80
      rcases hchars line hline c hc with hbounds | rfl
      · omega
      · exact absurd hc (hall line hline)
  rw [Listing.text, isSome_form?_iff]
  constructor
  · rintro ⟨encoding, hname, hcodes⟩
    cases encoding with
    | utf8 => exact .inl hname
    | latin1 => exact .inr (.inl hname)
    | ascii => exact .inr (.inr ⟨hname, hascii.mp hcodes⟩)
  · rintro (hname | hname | ⟨hname, hsigns⟩)
    · exact ⟨utf8, hname, hutf⟩
    · exact ⟨latin1, hname, hlatin⟩
    · exact ⟨ascii, hname, hascii.mpr hsigns⟩

end Encoding

/-! ## Opened files -/

namespace Storage

variable {settings : Settings} {codecs : Codecs} {dir opened after : Directory} {path : String}

theorem readProgram_of_error {failure : Failure} (h : readInput dir path = .error failure) :
    readProgram dir path = ⟨[], .error failure⟩ := by
  rw [readProgram, h]
  rfl

/-- Where the output cannot be opened nothing is written. -/
theorem writeListing_of_error {failure : Failure} (hopened : writeBytes dir path [] = .error failure)
    (lines : List Text) : writeListing settings dir path lines codecs = (.error failure, dir) := by
  simp only [writeListing, hopened]

theorem written_put_put (dir : Directory) (place : List String) (first last : Bytes) :
    dir.Written place last ((dir.put place first).put place last) where
  contents := (Directory.written_put (dir.put place first) place last).contents
  others other hother :=
    ((Directory.written_put (dir.put place first) place last).others other hother).trans
      ((Directory.written_put dir place first).others other hother)
  folders := rfl

/-- An output that can be opened has the form of the listing then, or is empty if there is none. -/
theorem writeListing_cases (settings : Settings) (codecs : Codecs)
    (hopened : writeBytes dir path [] = .ok opened) (lines : List Text) :
    ∃ written after place, writeListing settings dir path lines codecs = (written, after) ∧
      dir.locate (Path.normalize path) = .ok place ∧
      dir.Written place ((codecs.form? settings.encoding (Text.unlines lines)).getD []) after ∧
      (written = .ok () ↔
        (codecs.form? settings.encoding (Text.unlines lines)).isSome = true) := by
  obtain ⟨hnull, place, hplace, hfile, rfl⟩ := writeBytes_eq_ok_iff.mp hopened
  cases hform : codecs.form? settings.encoding (Text.unlines lines) with
  | none =>
    obtain ⟨failure, hfailed⟩ := Codecs.form?_eq_none_iff.mp hform
    refine ⟨.error failure, _, place, ?_, hplace, Directory.written_put dir place [], by simp⟩
    simp only [writeListing, hopened, hfailed]
  | some bytes =>
    obtain ⟨codec, hcodec, hbytes⟩ := Codecs.form?_eq_some_iff.mp hform
    obtain ⟨after, hafter, hwritten⟩ := writeListing_of_encode hopened hcodec hbytes
    refine ⟨.ok (), after, place, hwritten, hplace, ?_, by simp⟩
    obtain ⟨-, other, hother, -, rfl⟩ := writeBytes_eq_ok_iff.mp hafter
    obtain rfl := Except.ok.inj ((Directory.locate_put hplace).symm.trans hother)
    exact written_put_put dir place [] bytes

/-- Writing an output that can be opened changes nothing exactly if it has the bytes already. -/
theorem contents?_written_iff {place : List String} {bytes : Bytes}
    (hopened : writeBytes dir path [] = .ok opened)
    (hplace : dir.locate (Path.normalize path) = .ok place)
    (hwritten : dir.Written place bytes after) :
    (∀ other, after.contents? other = dir.contents? other) ↔ readInput dir path = .ok bytes := by
  obtain ⟨hnull, found, hfound, hfile, -⟩ := writeBytes_eq_ok_iff.mp hopened
  obtain rfl := Except.ok.inj (hplace.symm.trans hfound)
  have hread : dir.read (Path.normalize path) = .ok bytes ↔ dir.contents? place = some bytes := by
    simp only [Directory.read, hplace, hfile, Bool.false_eq_true, if_false]
    cases dir.contents? place <;> simp
  rw [readInput_eq_ok_iff, hread, and_iff_right (Path.hasNull_normalize hnull)]
  constructor
  · intro hsame
    rw [← hsame place, hwritten.contents]
  · intro hcontents other
    by_cases hother : other = place
    · rw [hother, hwritten.contents, hcontents]
    · exact hwritten.others other hother

end Storage

/-! ## The command -/

namespace Command

variable {dir : Directory} {input output : String}

/-- Listing an input that cannot be read changes nothing. -/
theorem run_list_to_of_error {failure : Failure}
    (hread : Storage.readInput dir input = .error failure) (env : Environment) (verbose : Bool)
    (host : Host) :
    ∃ transcript, run env dir (.list input (some output) verbose) host = (transcript, dir) ∧
      transcript.status ≠ 0 := by
  obtain ⟨notices, hattempt⟩ := Script.attempt_eq (fun dir _ => Storage.readProgram dir input) host
    { dir } (congrArg Attempt.outcome (Storage.readProgram_of_error hread))
  have hscript : listTo (.ofEnvironment env) verbose input (some output) host { dir } =
      (.error failure, { dir, notices }) := by
    rw [listTo, Script.bind_of_error hattempt]
  rw [run]
  refine ⟨_, Script.play_eq verbose "Decoding" hscript, ?_⟩
  exact Scene.status_transcript_of_error _ verbose "Decoding" failure

/-- Listing an input that can be read does what writing the listing does, and exits with zero if that
goes through and the console accepts to be told of it. -/
theorem run_list_to_of_ok {data : Bytes} (hread : Storage.readInput dir input = .ok data)
    {env : Environment} {host : Host} {written : Except Failure Unit} {after : Directory}
    (hwritten : Storage.writeListing (.ofEnvironment env) dir output (Listing.file .standard data)
      host.codecs = (written, after)) (verbose : Bool) :
    let told := listReport verbose (Path.normalize input) (Path.normalize output)
      (Program.parse data).1
    ∃ transcript, run env dir (.list input (some output) verbose) host = (transcript, after) ∧
      (transcript.status = 0 ↔ written = .ok () ∧
        host.console.accepts [] (told.lines.map Transcript.plainLine) = true) := by
  intro told
  obtain ⟨notices, hattempt⟩ := Storage.attempt_readProgram hread host
  have hchange : Script.change (fun dir codecs => Storage.writeListing (.ofEnvironment env) dir output
      (Listing.file .standard data) codecs) host { dir, notices } =
      (written, { dir := after, notices }) := by
    simp only [Script.change, hwritten]
  have hlisted : listTo (.ofEnvironment env) verbose input (some output) host { dir } =
      (Script.change (fun dir codecs => Storage.writeListing (.ofEnvironment env) dir output
        (Listing.file .standard data) codecs) >>= fun _ => Script.report told) host
          { dir, notices } := by
    rw [listTo, Script.bind_of_ok hattempt]
    rfl
  rw [run]
  cases written with
  | error failure =>
    have hscript := hlisted.trans (Script.bind_of_error hchange)
    refine ⟨_, Script.play_eq verbose "Decoding" hscript, iff_of_false ?_ ?_⟩
    · exact Scene.status_transcript_of_error _ verbose "Decoding" failure
    · rintro ⟨hdone, -⟩
      cases hdone
  | ok done =>
    rw [Script.bind_of_ok hchange] at hlisted
    rcases Script.report_cases host { dir := after, notices } told with
      ⟨haccepts, hreport⟩ | ⟨hrefused, failure, printed, hreport⟩
    · exact ⟨_, Script.play_eq verbose "Decoding" (hlisted.trans hreport),
        iff_of_true rfl ⟨rfl, haccepts⟩⟩
    · refine ⟨_, Script.play_eq verbose "Decoding" (hlisted.trans hreport), iff_of_false ?_ ?_⟩
      · exact Scene.status_transcript_of_error _ verbose "Decoding" failure
      · rintro ⟨-, haccepts⟩
        cases haccepts.symm.trans hrefused

/-- A run of a command to list to a file fails before it writes anything, or the output has the form of
the listing after it, or is empty if there is none; then the run exits with zero if there is a form and
the console accepts to be told of it. -/
theorem run_list_to_cases {env : Environment} {verbose : Bool} {host : Host}
    {transcript : Transcript} {after : Directory}
    (h : run env dir (.list input (some output) verbose) host = (transcript, after)) :
    (transcript.status ≠ 0 ∧ after = dir ∧ ((∀ data, Storage.readInput dir input ≠ .ok data) ∨
      ∀ opened, Storage.writeBytes dir output [] ≠ .ok opened)) ∨
    ∃ data opened place, Storage.readInput dir input = .ok data ∧
      Storage.writeBytes dir output [] = .ok opened ∧
      dir.locate (Path.normalize output) = .ok place ∧
      let form? := host.codecs.form? (Settings.ofEnvironment env).encoding
        (Listing.text .standard data)
      let told := listReport verbose (Path.normalize input) (Path.normalize output)
        (Program.parse data).1
      dir.Written place (form?.getD []) after ∧
        (transcript.status = 0 ↔ form?.isSome = true ∧
          host.console.accepts [] (told.lines.map Transcript.plainLine) = true) := by
  cases hread : Storage.readInput dir input with
  | error failure =>
    obtain ⟨_, hlisted, hstatus⟩ := run_list_to_of_error hread env verbose host
    obtain ⟨rfl, rfl⟩ := Prod.mk.inj (hlisted.symm.trans h)
    exact .inl ⟨hstatus, rfl, .inl nofun⟩
  | ok data =>
    cases hopened : Storage.writeBytes dir output [] with
    | error failure =>
      have hfailed : Storage.writeListing (.ofEnvironment env) dir output
          (Listing.file .standard data) host.codecs = (.error failure, dir) :=
        Storage.writeListing_of_error hopened _
      obtain ⟨_, hlisted, hstatus⟩ := run_list_to_of_ok hread hfailed verbose
      obtain ⟨rfl, rfl⟩ := Prod.mk.inj (hlisted.symm.trans h)
      exact .inl ⟨fun hzero => absurd (hstatus.mp hzero).1 nofun, rfl, .inr nofun⟩
    | ok opened =>
      obtain ⟨written, left, place, hleft, hplace, hwritten, hform⟩ :=
        Storage.writeListing_cases (.ofEnvironment env) host.codecs hopened
          (Listing.file .standard data)
      obtain ⟨_, hlisted, hstatus⟩ := run_list_to_of_ok hread hleft verbose
      obtain ⟨rfl, rfl⟩ := Prod.mk.inj (hlisted.symm.trans h)
      rw [hform] at hstatus
      exact .inr ⟨data, opened, place, rfl, rfl, hplace, hwritten, hstatus⟩

/-- A command line with an input and an output is one to list to a file, and refused only if it names
a folder. -/
theorem run_lister (env : Environment) (host : Host) {words : List String} {arguments : Arguments}
    (hwords : Arguments.parse [verboseFlag, versionFlag] true words = .ok arguments)
    (hoperands : arguments.operands = [input, output])
    (hversion : arguments.has versionFlag = false) :
    Tool.lister.run env dir words host =
      if dir.namesFolder input then .error (.folder input)
      else if dir.namesFolder output then .error (.folder output)
      else .ok (run env dir (.list input (some output) (arguments.has verboseFlag)) host) := by
  rw [Tool.run, parse, parseLister, hwords]
  show Except.map _ (if arguments.has versionFlag then _ else _) = _
  rw [hversion, if_neg Bool.false_ne_true, hoperands]
  exact map_fileOperands _ (fun input output => list input (some output) _) dir input output

end Command

/-! ## Files after a failure -/

/-- **A failed listing keeps all files, unless it got as far as the encoding.** Take a command line with
an input and an output. It is refused only if it names a folder. The run exits with zero exactly if the
input can be read, the output can be opened, the listing has a form by the codec that the environment
names, and the console accepts to be told of it. If it exits with another status, all files are as they
were exactly if the input cannot be read, or the output cannot be opened, or it held before what the run
leaves there: the form of the listing, or nothing if there is none. Otherwise it holds that now, and is the
only file that has changed. Of the three encodings only ASCII may lack a form for a listing, and does
exactly if there is a copyright sign in it. -/
theorem failed_listing_keeps_files_iff (env : Environment) (dir : Directory) (host : Host)
    {words : List String} {arguments : Arguments} {input output : String}
    (hwords : Arguments.parse [Command.verboseFlag, Command.versionFlag] true words = .ok arguments)
    (hoperands : arguments.operands = [input, output])
    (hversion : arguments.has Command.versionFlag = false) :
    let encoding := (Settings.ofEnvironment env).encoding
    let form? := fun data => host.codecs.form? encoding (Listing.text .standard data)
    let told := fun data => (Command.listReport (arguments.has Command.verboseFlag)
      (Path.normalize input) (Path.normalize output) (Program.parse data).1).lines
    ((∃ fault, Tool.lister.run env dir words host = .error fault) ↔
      dir.namesFolder input = true ∨ dir.namesFolder output = true) ∧
    (∀ transcript after, Tool.lister.run env dir words host = .ok (transcript, after) →
      (transcript.status = 0 ↔ ∃ data opened, Storage.readInput dir input = .ok data ∧
        Storage.writeBytes dir output [] = .ok opened ∧ (form? data).isSome = true ∧
        host.console.accepts [] ((told data).map Transcript.plainLine) = true) ∧
      (transcript.status ≠ 0 →
        after.folders = dir.folders ∧
        ((∀ place, after.contents? place = dir.contents? place) ↔
          (∀ data, Storage.readInput dir input ≠ .ok data) ∨
          (∀ opened, Storage.writeBytes dir output [] ≠ .ok opened) ∨
          ∃ data, Storage.readInput dir input = .ok data ∧
            Storage.readInput dir output = .ok ((form? data).getD [])) ∧
        ∀ place, after.contents? place ≠ dir.contents? place →
          dir.locate (Path.normalize output) = .ok place ∧
          ∃ data, Storage.readInput dir input = .ok data ∧
            after.contents? place = some ((form? data).getD []))) ∧
    ∀ data, (Codecs.builtin.form? encoding (Listing.text .standard data)).isSome = true ↔
      Encoding.ofName? encoding = some .utf8 ∨ Encoding.ofName? encoding = some .latin1 ∨
        Encoding.ofName? encoding = some .ascii ∧
          ∀ line ∈ Listing.file .standard data, '©' ∉ line := by
  intro encoding form? told
  rw [Command.run_lister env host hwords hoperands hversion]
  refine ⟨?_, ?_, fun data => Encoding.isSome_form?_file_iff⟩
  · cases dir.namesFolder input with
    | true => simp
    | false => cases dir.namesFolder output <;> simp
  · intro transcript after hrun
    split at hrun
    · cases hrun
    split at hrun
    · cases hrun
    rcases Command.run_list_to_cases (Except.ok.inj hrun) with
      ⟨hstatus, rfl, hearly⟩ | ⟨data, opened, place, hread, hopened, hplace, hwritten, hstatus⟩
    · refine ⟨iff_of_false hstatus ?_, fun _ => ⟨rfl, ?_, fun _ hchanged => absurd rfl hchanged⟩⟩
      · rintro ⟨data, opened, hread, hopened, -⟩
        rcases hearly with hunread | hunopened
        · exact hunread data hread
        · exact hunopened opened hopened
      · exact iff_of_true (fun _ => rfl) (hearly.imp_right .inl)
    · refine ⟨?_, fun _ => ⟨hwritten.folders, ?_, ?_⟩⟩
      · rw [hstatus]
        constructor
        · rintro ⟨hform, haccepts⟩
          exact ⟨data, opened, hread, hopened, hform, haccepts⟩
        · rintro ⟨other, -, hother, -, hform, haccepts⟩
          obtain rfl := Except.ok.inj (hread.symm.trans hother)
          exact ⟨hform, haccepts⟩
      · rw [Storage.contents?_written_iff hopened hplace hwritten]
        constructor
        · exact fun hheld => .inr (.inr ⟨data, hread, hheld⟩)
        · rintro (hunread | hunopened | ⟨other, hother, hheld⟩)
          · exact absurd hread (hunread data)
          · exact absurd hopened (hunopened opened)
          · obtain rfl := Except.ok.inj (hread.symm.trans hother)
            exact hheld
      · intro other hchanged
        by_cases hother : other = place
        · exact ⟨hother ▸ hplace, data, hread, hother ▸ hwritten.contents⟩
        · exact absurd (hwritten.others other hother) hchanged

/-- With no input to list, the run fails and the output stays as it is. -/
theorem listing_without_input_keeps_files :
    ∃ dir : Directory, dir.files = [(["a.txt"], [1])] ∧ ∃ transcript after,
      Tool.lister.run [("ZXBASIC_ENCODING", "ascii")] dir ["-v", "a.bas", "a.txt"] =
        .ok (transcript, after) ∧
      transcript.status ≠ 0 ∧ ∀ place, after.contents? place = dir.contents? place := by
  let dir : Directory := { files := [(["a.txt"], [1])] }
  have hwords : Arguments.parse [Command.verboseFlag, Command.versionFlag] true
      ["-v", "a.bas", "a.txt"] =
        .ok { flags := [Command.verboseFlag], operands := ["a.bas", "a.txt"] } := rfl
  have hmissing : ∀ data, Storage.readInput dir "a.bas" ≠ .ok data := nofun
  obtain ⟨hrefused, hruns, -⟩ :=
    failed_listing_keeps_files_iff [("ZXBASIC_ENCODING", "ascii")] dir {} hwords rfl rfl
  refine ⟨dir, rfl, ?_⟩
  cases hrun : Tool.lister.run [("ZXBASIC_ENCODING", "ascii")] dir ["-v", "a.bas", "a.txt"] with
  | error fault => exact absurd (hrefused.mp ⟨fault, hrun⟩) (by decide)
  | ok result =>
    obtain ⟨transcript, after⟩ := result
    obtain ⟨hzero, hfailed⟩ := hruns transcript after hrun
    have hstatus : transcript.status ≠ 0 := by
      intro hstatus
      obtain ⟨data, -, hread, -⟩ := hzero.mp hstatus
      exact hmissing data hread
    exact ⟨transcript, after, rfl, hstatus, (hfailed hstatus).2.1.mpr (.inl hmissing)⟩

/-- A copyright sign cannot be listed in ASCII: the run fails, and the output it was to write to is empty
now. -/
theorem listing_of_copyright_empties_output :
    (Tool.lister.run [("ZXBASIC_ENCODING", "ascii")]
      { files := [(["a.bas"], [0, 10, 2, 0, 0x7F, 0x0D]), (["a.txt"], [1])] }
      ["a.bas", "a.txt"]).map (fun (transcript, after) =>
        (transcript.status, after.contents? ["a.txt"])) = .ok (3, some []) := by
  decide +kernel

end SpectrumBasic
