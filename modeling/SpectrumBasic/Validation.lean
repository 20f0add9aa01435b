import SpectrumBasic.Program.Parse

/-!
# Validation

What is wrong with a program file, finding by finding. Some findings mean that it is no usable
program (`Finding.isError`); the others are only worth a warning.
-/

namespace SpectrumBasic

/-- Something wrong with a program file. -/
inductive Finding where
  | headerMissing
  | checksum (stored : Int) (computed : UInt8)
  | fileSize (stored : Int) (actual : Nat)
  | dataLength (stored : Int) (actual : Nat)
  | fileType (stored : Int)
  | noLines
  | recordCut
  | emptyRecord (line : Nat)
  | noTerminator (line : Nat)
  | numberCut (line : Nat)
  | storedWrongly (line : Nat) (literal : Text) (value : Int)
  deriving DecidableEq, Repr

namespace Finding

/-- Whether a file with such a finding is no usable program. -/
def isError : Finding → Bool
  | fileType _ | noLines | emptyRecord _ => true
  | _ => false

/-- The wording of a finding. -/
def message : Finding → String
  | headerMissing => "No +3DOS header (bare line records)"
  | checksum stored computed =>
    let shown := Text.showCode computed.toNat
    s!"Checksum mismatch: header {Text.showCode stored}, calculated {shown}"
  | fileSize stored actual =>
    let shown := String.ofList (Text.ofInt stored)
    s!"File size mismatch: header {shown}, actual {actual}"
  | dataLength stored actual =>
    let shown := String.ofList (Text.ofInt stored)
    s!"Data length mismatch: header {shown}, actual {actual}"
  | fileType stored =>
    let shown := String.ofList (Text.ofInt stored)
    s!"Not a BASIC program (file type {shown})"
  | noLines => "No program lines found"
  | recordCut => "Incomplete trailing record ignored"
  | emptyRecord line => s!"Line {line}: zero length record"
  | noTerminator line => s!"Line {line}: missing $0D terminator"
  | numberCut line => s!"Line {line}: hidden number cut short"
  | storedWrongly line literal value =>
    let shown := String.ofList (Text.ofInt value)
    s!"Line {line}: literal {String.ofList literal} stored as {shown}"

end Finding

namespace Validation

/-- What is wrong with a header in front of data, all of which is `data`. -/
def ofHeader (data : Bytes) (header : DiskHeader) : List Finding :=
  (if DiskHeader.verifies data then []
    else [.checksum header.checksum (DiskHeader.sumOf data)])
  ++ (if header.fileSize = data.length then [] else [.fileSize header.fileSize data.length])
  ++ (let actual := data.length - DiskHeader.size
      if header.dataLength = actual then [] else [.dataLength header.dataLength actual])
  ++ if header.fileType = 0 then [] else [.fileType header.fileType]

/-- Whether a hidden number has another value than the literal in front of it. A literal that is
no number and a value that is not read have nothing to compare. -/
def isStoredWrongly (literal : Text) (value : Int) : Bool :=
  (Literal.value? literal).any (· != .whole value)

/-- What is wrong with a record. -/
def ofRecord (record : LineRecord) : List Finding :=
  if record.payload.isEmpty then [.emptyRecord record.number]
  else
    (if record.payload.getLast? = some lineEnd then [] else [.noTerminator record.number])
    ++ (if record.hasCutNumber then [.numberCut record.number] else [])
    ++ record.hiddenNumbers.filterMap fun (literal, value?) =>
      (value?.filter (isStoredWrongly literal)).map (.storedWrongly record.number literal)

/-- What is wrong with a program file, in the order it is found. -/
def findings (data : Bytes) (p : Program) : List Finding :=
  (match p.header with
    | none => [.headerMissing]
    | some header => ofHeader data header)
  ++ (if p.lines.isEmpty then [.noLines] else [])
  ++ (if p.truncated then [.recordCut] else [])
  ++ p.lines.flatMap ofRecord

end Validation

end SpectrumBasic
