import SpectrumBasic.Number.Basic
import SpectrumBasic.Text.Quoted

/-!
# Notices

What a conversion tells its user besides its result. A notice is a fact; `Notice.level` says how
much it matters and `Notice.message` how it is worded.
-/

namespace SpectrumBasic

/-- How much a notice matters. -/
inductive Level where
  /-- Of interest to someone who follows a conversion step by step. -/
  | debug
  /-- Something in the input did not survive. -/
  | warning
  deriving DecidableEq, Repr

def Level.name : Level → String
  | debug => "DEBUG"
  | warning => "WARNING"

/-- A fact noticed on the way. -/
inductive Notice where
  /-- Characters without a byte of their own became question marks. -/
  | replaced (count : Nat) (text : Text)
  /-- A value without a short form was stored as zero. -/
  | zeroFilled (value : Number)
  | brokenRun (run : Text)
  | commentSkipped (line : Nat)
  | autostartSet (start : Int)
  /-- A directive could not be understood. -/
  | directiveIgnored (file : String) (line : Nat) (text : Text)
  | encoded (records : Nat) (file : String) (autostart : Option Int)
  /-- The line to start at does not fit a header. -/
  | autostartDropped (start : Int)
  | headerFound (dataLength : Int) (autostart : Option Int)
  | checksumWrong
  | headerMissing
  /-- The last record is longer than the file. -/
  | recordCut (line declared remaining : Nat)
  /-- A few bytes are left over after the last record. -/
  | bytesLeft (count : Nat)
  deriving DecidableEq, Repr

namespace Notice

def level : Notice → Level
  | replaced .. | zeroFilled .. | directiveIgnored .. | recordCut .. => .warning
  | _ => .debug

/-- The line to start at as messages show it. -/
def showAutostart : Option Int → String
  | none => "none"
  | some start => String.ofList (Text.ofInt start)

/-- The wording of a notice. -/
def message : Notice → String
  | replaced count text =>
    let shown := String.ofList text.quoted
    s!"Replaced {count} non-ASCII character(s) with '?' in {shown}"
  | zeroFilled value =>
    let shown := String.ofList value.text
    s!"Numeric value {shown} is not a small integer; packed as zero"
  | brokenRun run =>
    let shown := String.ofList run.quoted
    s!"Digit run {shown} is not a number, copying as text"
  | commentSkipped line => s!"Skipping comment line {line}"
  | autostartSet start =>
    let shown := showAutostart (some start)
    s!"Autostart line set to {shown}"
  | directiveIgnored file line text =>
    let shown := String.ofList text.quoted
    s!"{file}:{line}: ignoring malformed directive {shown}"
  | encoded records file autostart =>
    let shown := showAutostart autostart
    s!"Encoded {records} lines from {file} (autostart: {shown})"
  | autostartDropped start =>
    let shown := showAutostart (some start)
    s!"Autostart line {shown} out of range, writing none"
  | headerFound dataLength autostart =>
    let length := String.ofList (Text.ofInt dataLength)
    let shown := showAutostart autostart
    s!"+3DOS header found: {length} bytes of data, autostart {shown}"
  | checksumWrong => "Header checksum does not match (not validated)"
  | headerMissing => "No +3DOS header, decoding as bare line records"
  | recordCut line declared remaining =>
    s!"Line {line} declares {declared} bytes but only {remaining} remain; stopping"
  | bytesLeft count => s!"Ignoring {count} trailing byte(s)"

end Notice

end SpectrumBasic
