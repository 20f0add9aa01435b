import SpectrumBasic.Codec
import SpectrumBasic.Listing
import SpectrumBasic.Source.Encoder

/-!
# Files

Reading listings and programs from files, and writing listings to them. Paths are normalized first,
so that a message about a file names it in its plainest form. The settings name the encoding of text
files, and a codec is looked up by that name once the file is open.
-/

namespace SpectrumBasic.Storage

/-- The contents of an input file. -/
def readInput (dir : Directory) (path : String) : Except Failure Bytes :=
  let path := Path.normalize path
  if Path.hasNull path then .error .nullInPath
  else match dir.read path with
    | .ok bytes => .ok bytes
    | .error fault =>
      let reason := match fault.problem with
        | .missing => "file not found"
        | problem => problem.description
      .error (.unreadable path reason)

/-- The lines of a source file. -/
def readSource (settings : Settings) (dir : Directory) (path : String)
    (codecs : Codecs := .builtin) : Except Failure (List Text) := do
  let bytes ← readInput dir path
  let name := settings.encoding
  let codec ← codecs.find name
  match codec.decode bytes with
  | .ok text => .ok text.lines
  | .error .invalid => .error (.unreadable (Path.normalize path) s!"not valid {name} text")
  | .error (.other failure) => .error failure

/-- The program of a source file. Complaints about the text call the file what `path` does. -/
def encodeFile (settings : Settings) (dir : Directory) (path : String)
    (codecs : Codecs := .builtin) : Attempt Program := do
  let lines ← .ofExcept (readSource settings dir path codecs)
  encodeListing { settings, file := path } lines

/-- The program in a file, with its bytes. -/
def readProgram (dir : Directory) (path : String) : Attempt (Bytes × Program) := do
  let data ← .ofExcept (readInput dir path)
  let (program, notices) := Program.parse data
  ⟨notices, .ok (data, program)⟩

def writeBytes (dir : Directory) (path : String) (bytes : Bytes) : Except Failure Directory :=
  if Path.hasNull path then .error .nullInPath
  else (dir.write (Path.normalize path) bytes).mapError .file

/-- Writes a listing to a file, a line feed after each line. The file is emptied before the text is
encoded, so a text that cannot be encoded leaves it empty. -/
def writeListing (settings : Settings) (dir : Directory) (path : String) (lines : List Text)
    (codecs : Codecs := .builtin) : Except Failure Unit × Directory :=
  match writeBytes dir path [] with
  | .error failure => (.error failure, dir)
  | .ok emptied =>
    let bytes := (codecs.find settings.encoding).bind fun codec => codec.encode (Text.unlines lines)
    match bytes with
    | .error failure => (.error failure, emptied)
    | .ok bytes =>
      match writeBytes emptied path bytes with
      | .error failure => (.error failure, emptied)
      | .ok written => (.ok (), written)

end SpectrumBasic.Storage
