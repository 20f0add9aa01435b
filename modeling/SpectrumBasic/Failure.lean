import SpectrumBasic.Diagnostic
import SpectrumBasic.Directory
import SpectrumBasic.DiskHeader
import SpectrumBasic.Keyword.Match
import SpectrumBasic.Text.Encoding

/-!
# Failures

Why a conversion ended without a result. A `Failure` is the cause; its `message` is the wording and
its `kind` decides how a tool announces it (`FailureKind.announce`) and with which status it exits.
-/

namespace SpectrumBasic

/-- What sort of thing went wrong. -/
inductive FailureKind where
  /-- The source text is wrong; the message says where. -/
  | source
  | input
  /-- The conversion itself is impossible. -/
  | conversion
  | usage
  | system
  /-- Nobody expected this. -/
  | unexpected
  deriving DecidableEq, Repr

namespace FailureKind

/-- The exit status of a tool. -/
def status : FailureKind → Nat
  | source | conversion => 1
  | input | usage | system => 2
  | unexpected => 3

/-- How a tool announces a failure. `activity` names what it was doing. -/
def announce (kind : FailureKind) (activity : String) (message : String) : String :=
  match kind with
  | source => message
  | conversion =>
    if activity.isEmpty then s!"Error: {message}" else s!"{activity} error: {message}"
  | input | usage | system => s!"Error: {message}"
  | unexpected => s!"Internal error: {message}"

end FailureKind

/-- Why there is no result. -/
inductive Failure where
  | source (diagnostic : Diagnostic)
  | header (fault : HeaderFault)
  | unreadable (path reason : String)
  | file (fault : FileFault)
  /-- An empty spelling was the best one. -/
  | blankSpelling
  /-- A path holds a null character, which no system takes. -/
  | nullInPath
  | tooManyDigits (count : Nat)
  | notShowable
  | unknownEncoding (name : String)
  | unencodable (run : Unencodable)
  /-- A codec of the host gave up, and says why. -/
  | codec (message : String)
  /-- A device of the host does not take what is printed, and says why. -/
  | device (message : String)
  deriving DecidableEq, Repr

namespace Failure

/-- The complaint about the number of digits, of which `details` tells more. -/
def digitComplaint (details : String) : String :=
  let limit := Text.digitLimit
  let advice := "use sys.set_int_max_str_digits() to increase the limit"
  s!"Exceeds the limit ({limit} digits) for integer string conversion{details}; {advice}"

/-- The wording of a failure. -/
def message : Failure → String
  | source diagnostic => diagnostic.render
  | header fault => fault.message
  | unreadable path reason => s!"cannot read '{path}': {reason}"
  | file fault => fault.message
  | blankSpelling => BlankSpelling.message
  | nullInPath => "embedded null byte"
  | tooManyDigits count => digitComplaint s!": value has {count} digits"
  | notShowable => digitComplaint ""
  | unknownEncoding name => s!"unknown encoding: {name}"
  | unencodable run => run.message
  | codec message | device message => message

/-- What sort of thing went wrong. -/
def kind : Failure → FailureKind
  | source _ => .source
  | header _ => .conversion
  | unreadable .. => .input
  | file _ | device _ => .system
  | blankSpelling | nullInPath | tooManyDigits _ | notShowable => .unexpected
  | unknownEncoding _ | unencodable _ | codec _ => .unexpected

end Failure

end SpectrumBasic
