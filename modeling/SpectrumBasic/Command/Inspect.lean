import SpectrumBasic.Command.Script
import SpectrumBasic.Storage
import SpectrumBasic.Validation

/-!
# Inspecting programs

The commands that look at a program without changing anything: its description, its validation, and
the keywords there are.
-/

namespace SpectrumBasic.Command

/-- A text with blanks before it, `width` characters wide. -/
def alignRight (width : Nat) (text : String) : String :=
  String.ofList (text.toList.leftpad width ' ')

/-- A text with blanks after it, `width` characters wide. -/
def alignLeft (width : Nat) (text : String) : String :=
  String.ofList (text.toList.rightpad width ' ')

def rule (width : Nat) (c : Char) : String := String.ofList (List.replicate width c)

/-! ## Description -/

/-- A signature as text; bytes beyond ASCII are not shown. -/
def showSignature (signature : Bytes) : String :=
  String.ofList (signature.map fun b => if b < 0x80 then Char.ofNat b.toNat else '\ufffd')

/-- The description of a header in front of `data`. -/
def describeHeader (data : Bytes) (header : DiskHeader) (autostart : Option Int) :
    List String :=
  let decimal := fun n => String.ofList (Text.ofInt n)
  let type := ((FileType.ofInt? header.fileType).map FileType.description).getD "Unknown"
  let start := (autostart.map decimal).getD "None"
  let stored := Text.showCode header.checksum
  let computed := Text.showCode (DiskHeader.sumOf data).toNat
  [ s!"Signature:   {showSignature header.signature}"
  , s!"Issue:       {decimal header.issue}.{decimal header.version}"
  , s!"File Size:   {decimal header.fileSize} bytes"
  , s!"File Type:   {type} ({decimal header.fileType})"
  , s!"Data Length: {decimal header.dataLength} bytes"
  , s!"Autostart:   {start}"
  , if DiskHeader.verifies data then s!"Checksum:    Valid ({stored})"
    else s!"Checksum:    MISMATCH (stored {stored}, calculated {computed})" ]

/-- The description of the lines of a program. -/
def describeLines (p : Program) : List String :=
  let count := p.lines.length
  let length := p.dataLength
  [ "Contents:", s!"  Lines:       {count}" ]
  ++ (match p.lineNumbers.min?, p.lineNumbers.max? with
      | some least, some greatest => [s!"  Line Range:  {least}-{greatest}"]
      | _, _ => [])
  ++ [s!"  Data:        {length} bytes"]
  ++ if p.truncated then ["  Truncated:   yes (incomplete trailing record ignored)"] else []

/-- Every line number with its length. -/
def lineTable (p : Program) : List String :=
  [ "", alignRight 6 "Line" ++ " " ++ alignRight 8 "Length", rule 15 '-' ]
  ++ p.lines.map fun record =>
    let number := alignRight 6 (String.ofList (Text.ofNat record.number))
    let length := alignRight 8 (String.ofList (Text.ofNat record.payload.length))
    s!"{number} {length}"

/-- The description of a file that holds `data`. -/
def description (name : String) (data : Bytes) (p : Program) (showLines : Bool) : Report :=
  let header := match p.header with
    | some header => describeHeader data header p.autostart
    | none => ["Header:      None (bare line records)"]
  { lines := [s!"Program Information: {name}", rule 40 '='] ++ header ++ [""]
      ++ describeLines p ++ if showLines then lineTable p else [] }

def describe (file : String) (showLines : Bool) : Script Nat := do
  let (data, p) ← .attempt fun dir _ => Storage.readProgram dir file
  .report (description (Path.normalize file) data p showLines)

/-! ## Validation -/

/-- The verdict on a file. -/
def verdict (name : String) (findings : List Finding) : Report :=
  let errors := findings.filter Finding.isError
  let warnings := findings.filter fun finding => !finding.isError
  let warned := warnings.map fun finding => s!"  WARNING: {finding.message}"
  if !errors.isEmpty then
    { lines := "Validation FAILED:"
        :: errors.map (fun finding => s!"  ERROR: {finding.message}") ++ warned
      status := FailureKind.conversion.status }
  else if !warnings.isEmpty then { lines := "Validation passed with warnings:" :: warned }
  else { lines := [s!"Validation PASSED: {name}"] }

/-- What a verbose validation says first. -/
def validationDetails (data : Bytes) (p : Program) : List String :=
  let count := p.lines.length
  (match p.header with
    | some header =>
      if DiskHeader.verifies data then [s!"  Header checksum: OK ({Text.showCode header.checksum})"]
      else []
    | none => [])
  ++ [s!"  Lines parsed: {count}"]

/-- The validation of a file that holds `data`. -/
def validation (name : String) (data : Bytes) (p : Program) (verbose : Bool) : Report :=
  let report := verdict name (Validation.findings data p)
  let details := if verbose then validationDetails data p else []
  { report with lines := details ++ report.lines }

def check (file : String) (verbose : Bool) : Script Nat := do
  let (data, p) ← .attempt fun dir _ => Storage.readProgram dir file
  .report (validation (Path.normalize file) data p verbose)

/-! ## Keywords -/

/-- A text without the blanks at its end. -/
def withoutEnd (text : String) : String :=
  String.ofList (text.toList.reverse.dropWhile Text.isBlank).reverse

/-- A line of the list of keywords. -/
def keywordLine (table : Table) (k : Keyword) : String :=
  let code := String.ofList (Text.signedHex 2 k.code.toNat)
  let word := alignLeft 10 (String.ofList k.spelling)
  let others := ", ".intercalate ((table.aliases k.code).map String.ofList)
  withoutEnd s!"${code}   {word} {others}"

/-- The canonical keywords with their codes and aliases. -/
def listKeywords (table : Table) (extensionsOnly : Bool) : Report :=
  let shown := table.keywords.filter fun k =>
    k.canonical && (!extensionsOnly || k.set = .extension)
  let head := alignLeft 5 "Code" ++ " " ++ alignLeft 10 "Keyword" ++ " Aliases"
  { lines := head :: rule 30 '-' :: shown.map (keywordLine table) }

end SpectrumBasic.Command
