import SpectrumBasic.Command.Run

/-!
# The command line

The first word names the tool and the others are its command line. The files and folders that the
words name are read from the disk, the tool runs on them, and what it changed is written back.
-/

namespace SpectrumBasic.Main

/-- What a path leads to on the disk. -/
inductive OnDisk where
  | file (bytes : Bytes)
  | folder
  | nothing

/-- Looks a path up on the disk. Reading a folder fails with a number of its own. -/
def lookUp (path : String) : IO OnDisk := do
  try
    return .file (← IO.FS.readBinFile path).toList
  catch
    | .inappropriateType _ number _ =>
      return if number.toNat = FileProblem.isFolder.number then .folder else .nothing
    | _ => return .nothing

/-- The places that a path leads through. -/
def placesOf (path : String) : List (List String) :=
  let start := if path.toList.head? = some '/' then ["/"] else []
  let names := Path.names path
  (List.range (names.length + 1)).map fun count => (names.take count).foldl Directory.enter start

/-- The part of the disk that some paths lead through. -/
def directoryOf (paths : List String) : IO Directory := do
  let mut dir : Directory := {}
  for place in paths.flatMap placesOf do
    match ← lookUp (Directory.pathTo place) with
    | .file bytes => dir := dir.put place bytes
    | .folder => dir := { dir with folders := place :: dir.folders }
    | .nothing => pure ()
  return dir

/-- The environment variables that are set. -/
def environment : IO Environment := do
  let mut env : Environment := []
  for name in Settings.variableNames do
    if let some value ← IO.getEnv name then
      env := env.set name value
  return env

/-- Runs a tool and gives back its exit status. -/
def runTool (tool : Tool) (words : List String) : IO UInt32 := do
  let dir ← directoryOf words
  match tool.run (← environment) dir words with
  | .error fault =>
    IO.eprintln s!"{tool.name}: {fault.message}"
    return 2
  | .ok (transcript, after) =>
    for (place, bytes) in dir.changes after do
      IO.FS.writeBinFile (Directory.pathTo place) ⟨bytes.toArray⟩
    IO.print transcript.output
    IO.eprint transcript.errors
    return UInt32.ofNat transcript.status

end SpectrumBasic.Main

def main (words : List String) : IO UInt32 := do
  match words with
  | name :: rest =>
    match SpectrumBasic.Tool.ofName? name with
    | some tool => SpectrumBasic.Main.runTool tool rest
    | none =>
      IO.eprintln s!"No such tool: {name}"
      return 2
  | [] =>
    IO.eprintln "Usage: TOOL [OPTIONS] ARGUMENTS, TOOL being txt2bas, bas2txt or zxbas"
    return 2
