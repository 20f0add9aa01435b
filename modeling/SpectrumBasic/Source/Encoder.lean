import SpectrumBasic.Program
import SpectrumBasic.Settings
import SpectrumBasic.Source.Line
import SpectrumBasic.Statement.Payload
import SpectrumBasic.Text.Lines

/-!
# Encoding a listing

An `Encoder` is what stays the same while a listing is encoded, and `Progress` is what changes from
line to line: the line to start at, the number of the next line, and where in the source we are.
Each step gives back the progress as well, also when it fails, so that an encoder can go on after
a failure.
-/

namespace SpectrumBasic

/-- What a listing is encoded with. -/
structure Encoder where
  table : Table := .standard
  settings : Settings := {}
  file : String := "<input>"

/-- How far an encoder has come. -/
structure Progress where
  /-- The line to start at that the last directive named. -/
  autostart : Option Int := none
  /-- The number of the next line without one. -/
  nextLine : Int
  sourceLine : Nat := 0
  /-- The source line without the blanks around it. -/
  sourceText : Text := []
  /-- The characters of the source line in front of its statement. -/
  offset : Nat := 0
  deriving DecidableEq, Repr

namespace Encoder

/-- The progress before anything was encoded. -/
def start (enc : Encoder) : Progress := { nextLine := enc.settings.firstLine }

/-- A complaint about a column of the source line. -/
def complaint (enc : Encoder) (p : Progress) (fault : Fault) (column : Int) : Diagnostic :=
  { fault
    location := some ⟨enc.file, p.sourceLine, column⟩
    sourceLine := some p.sourceText }

/-! ## Statements -/

/-- The payload of a statement of the source line. -/
def tokenize (enc : Encoder) (p : Progress) (text : Text) : Attempt Bytes :=
  let tokenized := SpectrumBasic.tokenize enc.table enc.settings.strictNumbers text
  { notices := tokenized.notices
    outcome := match tokenized.payload with
      | .ok payload => .ok payload
      | .error (.unsupportedNumber literal, position) =>
        .error (.source (enc.complaint p (.unsupportedNumber literal) (p.offset + position + 1)))
      | .error (.blankSpelling, _) => .error .blankSpelling }

/-- The record of a numbered statement. A number out of range is complained about only if the
complaint can show it. -/
def encodeStatement (enc : Encoder) (p : Progress) (number : Int) (text : Text) :
    Attempt LineRecord :=
  if hn : 0 ≤ number ∧ number ≤ maxWord then do
    let payload ← enc.tokenize p text
    if hl : payload.length ≤ maxWord then
      pure ⟨number.toNat, payload, by omega, hl⟩
    else
      let fault := Fault.lineTooLong number payload.length
      .fail (.source { enc.complaint p fault 1 with sourceLine := none })
  else if Text.isShowable number then .fail (.source (enc.complaint p (.lineNumber number) 1))
  else .fail .notShowable

/-! ## Lines -/

/-- The number of a statement: its own, or the next one. -/
def numberOf (p : Progress) : Option Text → Except Failure Int
  | none => .ok p.nextLine
  | some digits =>
    match Text.readNat digits with
    | .ok n => .ok n
    | .error fault => .error (.tooManyDigits fault.count)

/-- The record of a source line, if it makes one. -/
def encodeLine (enc : Encoder) (p : Progress) (line : Text) :
    Attempt (Option LineRecord) × Progress :=
  let text := line.trim
  let p := { p with sourceText := text }
  match SourceLine.ofText text with
  | .blank => (.succeed none, p)
  | .comment => (⟨[.commentSkipped p.sourceLine], .ok none⟩, p)
  | .autostart operand =>
    match Text.readInt operand with
    | .ok start => (⟨[.autostartSet start], .ok none⟩, { p with autostart := some start })
    | .error fault => (.fail (.tooManyDigits fault.count), p)
  | .malformed =>
    if enc.settings.strictDirectives then
      (.fail (.source (enc.complaint p (.malformedDirective text) 1)), p)
    else (⟨[.directiveIgnored enc.file p.sourceLine text], .ok none⟩, p)
  | .statement number body =>
    match numberOf p number with
    | .error failure => (.fail failure, p)
    | .ok n =>
      let p := { p with
        nextLine := n + enc.settings.lineStep
        offset := text.length - body.length }
      ((enc.encodeStatement p n body).andThen fun record => .succeed (some record), p)

/-- The records of source lines, the first of which has the number `index`. -/
def encodeFrom (enc : Encoder) (p : Progress) (index : Nat) :
    List Text → Attempt (List LineRecord) × Progress
  | [] => (.succeed [], p)
  | line :: rest =>
    let (first, p) := enc.encodeLine { p with sourceLine := index } line
    match first.outcome with
    | .error failure => (⟨first.notices, .error failure⟩, p)
    | .ok record =>
      let (later, p) := enc.encodeFrom p (index + 1) rest
      (⟨first.notices ++ later.notices, later.outcome.map (record.toList ++ ·)⟩, p)

/-- The program of a whole listing. Numbering starts afresh, whatever was encoded before. -/
def encodeLines (enc : Encoder) (p : Progress) (lines : List Text) : Attempt Program × Progress :=
  let fresh := { p with autostart := none, nextLine := enc.settings.firstLine }
  let (records, p) := enc.encodeFrom fresh 1 lines
  let program := records.andThen fun lines =>
    ⟨[.encoded lines.length enc.file p.autostart], .ok { lines, autostart := p.autostart }⟩
  (program, p)

end Encoder

/-! ## Whole listings -/

/-- The program of a listing, by a fresh encoder. -/
def encodeListing (enc : Encoder) (lines : List Text) : Attempt Program :=
  (enc.encodeLines enc.start lines).1

def encodeProgram (settings : Settings) (lines : List Text) : Attempt Bytes := do
  let program ← encodeListing { settings } lines
  program.image settings.includeHeader

/-- The program file of a listing in one text. -/
def encodeText (settings : Settings) (text : Text) : Attempt Bytes :=
  encodeProgram settings text.lines

end SpectrumBasic
