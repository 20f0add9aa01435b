import SpectrumBasic.Command.Basic
import SpectrumBasic.Command.Convert
import SpectrumBasic.Command.Inspect

/-!
# Running a command

`Command.run` carries out a command in an environment and a directory, on a host. `Tool.run` reads the
command from a command line first.
-/

namespace SpectrumBasic

/-- What comes of a command: what is seen of it, and the files after it. -/
def Command.run (env : Environment) (dir : Directory) (command : Command) (host : Host := {}) :
    Transcript × Directory :=
  match command with
  | .version tool =>
    (Script.report { lines := [s!"{tool.name}, version {Tool.version}"] }).playUnguarded host dir
  | .encode input output noHeader strict verbose =>
    let settings := encodeSettings (.ofEnvironment env) noHeader strict
    (encodeTo settings verbose input output).play verbose "Encoding" host dir
  | .list input output verbose =>
    (listTo (.ofEnvironment env) verbose input output).play verbose "Decoding" host dir
  | .info file showLines => (describe file showLines).play false "" host dir
  | .validate file verbose => (check file verbose).play verbose "" host dir
  | .keywords extensionsOnly =>
    (Script.report (listKeywords .standard extensionsOnly)).playUnguarded host dir

def Tool.run (tool : Tool) (env : Environment) (dir : Directory) (words : List String)
    (host : Host := {}) : Except UsageFault (Transcript × Directory) :=
  (Command.parse dir tool words).map fun command => Command.run env dir command host

end SpectrumBasic
