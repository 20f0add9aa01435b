import SpectrumBasic.Command.Report
import SpectrumBasic.Host

/-!
# Scripts

What a command does, step by step. A `Script` runs on a host and leaves a `Scene`: the files, the lines
printed so far and the notices made so far. Any step may fail, and printing is one of them; what was
done before stays done (`Script.andThen`).
-/

namespace SpectrumBasic

/-- How far a run has got. -/
structure Scene where
  dir : Directory
  printed : List String := []
  notices : List Notice := []
  deriving DecidableEq, Repr

/-- Steps on a host, from one scene to another. -/
def Script (α : Type) := Host → Scene → Except Failure α × Scene

namespace Script

variable {α β : Type}

/-- No step at all. -/
def succeed (a : α) : Script α := fun _ scene => (.ok a, scene)

/-- Some steps after others; a failure is the end of both, and leaves the scene it met. -/
def andThen (first : Script α) (second : α → Script β) : Script β := fun host scene =>
  match first host scene with
  | (.ok a, scene) => second a host scene
  | (.error failure, scene) => (.error failure, scene)

instance : Monad Script where
  pure := succeed
  bind := andThen

/-- Makes an attempt with the files and the codecs at hand. -/
def attempt (make : Directory → Codecs → Attempt α) : Script α := fun host scene =>
  let made := make scene.dir host.codecs
  (made.outcome, { scene with notices := scene.notices ++ made.notices })

/-- Changes the files. -/
def change (write : Directory → Codecs → Except Failure α × Directory) : Script α :=
  fun host scene =>
    let (outcome, dir) := write scene.dir host.codecs
    (outcome, { scene with dir })

/-- Changes the files, or fails and leaves them. -/
def replace (write : Directory → Except Failure Directory) : Script Unit :=
  change fun dir _ =>
    match write dir with
    | .ok after => (.ok (), after)
    | .error failure => (.error failure, dir)

/-- Prints lines one after another, up to the first that the console refuses. -/
def print : List String → Script Unit
  | [] => succeed ()
  | line :: rest => fun host scene =>
    let line := Transcript.plainLine line
    match host.console.refusal? scene.printed line with
    | some failure => (.error failure, scene)
    | none => print rest host { scene with printed := scene.printed ++ [line] }

/-- Prints a report, with its exit status. -/
def report (report : Report) : Script Nat := do
  print report.lines
  pure report.status

end Script

/-! ## Runs -/

/-- The transcript of a run that ended with an exit status, or with a failure in some `activity`. -/
def Scene.transcript (scene : Scene) (verbose : Bool) (activity : String) :
    Except Failure Nat → Transcript
  | .ok status =>
    { output := Transcript.joinLines scene.printed
      errors := Transcript.joinLines (scene.notices.filterMap (Notice.shown verbose))
      status }
  | .error failure =>
    let announced := failure.kind.announce activity failure.message
    { output := Transcript.joinLines scene.printed
      errors := Transcript.joinLines (scene.notices.filterMap (Notice.shown verbose))
        ++ Transcript.printLines [announced]
      status := failure.kind.status }

namespace Script

/-- What comes of a script that starts with some files. -/
def play (script : Script Nat) (verbose : Bool) (activity : String) (host : Host)
    (dir : Directory) : Transcript × Directory :=
  let (outcome, scene) := script host { dir }
  (scene.transcript verbose activity outcome, scene.dir)

/-- What comes of a script that nothing guards: a failure is an exit status of one, without an
announcement. -/
def playUnguarded (script : Script Nat) (host : Host) (dir : Directory) : Transcript × Directory :=
  let (outcome, scene) := script host { dir }
  let status := match outcome with
    | .ok status => status
    | .error _ => 1
  (scene.transcript false "" (.ok status), scene.dir)

end Script

end SpectrumBasic
