import SpectrumBasic.Command.Script
import SpectrumBasic.Storage

/-!
# Converting files

The two commands that turn one file into another: `encodeTo` writes the program of a listing,
`listTo` the listing of a program.
-/

namespace SpectrumBasic.Command

/-- The line that tells of a new program file. -/
def created (output : String) : String := s!"Success! Created {output}"

/-- What the encoder prints about a program that it has written as `data`, to start at `start`. -/
def encodeReport (withHeader verbose : Bool) (start : Int) (p : Program) (data : Bytes) : Report :=
  let shown :=
    if start = DiskHeader.noAutostart then "None" else String.ofList (Text.ofInt start)
  let total := data.length
  let basic := if withHeader then total - DiskHeader.size else total
  let count := p.lines.length
  { lines :=
      [ s!" - Auto-start Line: {shown}"
      , s!" - BASIC Size: {basic} bytes"
      , s!" - Total File Size: {total} bytes" ]
      ++ if verbose then [s!" - Lines: {count}"] else [] }

/-- Tells of a program that was written as `data`. -/
def tellEncoded (withHeader verbose : Bool) (output : String) (p : Program) (data : Bytes) :
    Script Nat := do
  .print [created (Path.normalize output)]
  let start ← .attempt fun _ _ => DiskHeader.normalizeAutostart p.autostart
  .report (encodeReport withHeader verbose start p data)

/-- Encodes a listing into a program file. The file is written before anything is printed. -/
def encodeTo (settings : Settings) (verbose : Bool) (input output : String) : Script Nat := do
  let program ← .attempt fun dir codecs =>
    Storage.encodeFile settings dir (Path.normalize input) codecs
  let data ← .attempt fun _ _ => program.image settings.includeHeader
  .replace fun dir => Storage.writeBytes dir output data
  tellEncoded settings.includeHeader verbose output program data

/-- The settings that the encoder's options make of others. -/
def encodeSettings (settings : Settings) (noHeader strict : Bool) : Settings :=
  { settings with
    strictNumbers := strict || settings.strictNumbers
    strictDirectives := strict || settings.strictDirectives
    includeHeader := !noHeader && settings.includeHeader }

/-- What the lister prints once it has written a listing. -/
def listReport (verbose : Bool) (input output : String) (p : Program) : Report :=
  let count := p.lines.length
  { lines := s!"Success! Decoded {input} to {output}"
      :: if verbose then [s!" - Lines: {count}"] else [] }

/-- Lists a program file, into a file or as output. -/
def listTo (settings : Settings) (verbose : Bool) (input : String) (output : Option String) :
    Script Nat := do
  let (_, program) ← .attempt fun dir _ => Storage.readProgram dir input
  let lines := Listing.program .standard program
  match output with
  | none => .report { lines := lines.map String.ofList }
  | some output =>
    .change fun dir codecs => Storage.writeListing settings dir output lines codecs
    .report (listReport verbose (Path.normalize input) (Path.normalize output) program)

end SpectrumBasic.Command
