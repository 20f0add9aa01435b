import SpectrumBasic.Number.Hidden
import SpectrumBasic.Statement.Payload

/-!
# Line records

A program is stored as one record a line:

    line number, high byte first (2)  payload length, low byte first (2)  payload

The number and the length are sixteen bits wide, and a `LineRecord` carries the proof that they are
large enough. The payload normally ends in the line terminator; what stands before it is the
`body`. `hiddenNumbers` and `hasCutNumber` look for the hidden numbers in it.
-/

namespace SpectrumBasic

/-- The largest line number, and the largest payload length. -/
def maxWord : Nat := 0xFFFF

/-- A stored program line. -/
structure LineRecord where
  number : Nat
  payload : Bytes
  number_le : number ≤ maxWord
  length_le : payload.length ≤ maxWord
  deriving DecidableEq, Repr

/-- Why a number and a payload make no record. -/
inductive RecordFault where
  | number (n : Int)
  | length (n : Nat)
  deriving DecidableEq, Repr

/-- The complaint about a record that cannot be. -/
def RecordFault.message : RecordFault → String
  | number n =>
    let shown := String.ofList (Text.ofInt n)
    s!"Line number out of range: {shown}"
  | length n => s!"Line too long: {n} bytes"

namespace LineRecord

/-- The bytes in front of a payload. -/
def headSize : Nat := 4

/-- The record of a number and a payload. -/
def make (number : Int) (payload : Bytes) : Except RecordFault LineRecord :=
  if hn : 0 ≤ number ∧ number ≤ maxWord then
    if hl : payload.length ≤ maxWord then
      .ok ⟨number.toNat, payload, by omega, hl⟩
    else .error (.length payload.length)
  else .error (.number number)

def toBytes (record : LineRecord) : Bytes :=
  Bytes.ofNatBE 2 record.number ++ Bytes.ofNatLE 2 record.payload.length ++ record.payload

def size (record : LineRecord) : Nat := headSize + record.payload.length

@[simp] theorem length_toBytes (record : LineRecord) : record.toBytes.length = record.size := by
  simp [toBytes, size, headSize]; omega

/-- The payload without its terminator, if it has one. -/
def body (record : LineRecord) : Bytes :=
  if record.payload.getLast? = some lineEnd then record.payload.dropLast else record.payload

/-! ## Hidden numbers -/

/-- The bytes of digits and points. -/
def isLiteralByte (b : UInt8) : Bool := Literal.isLiteralChar (Char.ofNat b.toNat)

/-- The hidden numbers in some bytes, each with the digits and points right before it. `run` holds
those that end the bytes read so far, last one first; a hidden number cut short ends the search. -/
def hiddenIn (run : Text) (bytes : Bytes) : List (Text × Option Int) :=
  match bytes with
  | [] => []
  | b :: rest =>
    if b = Hidden.marker then
      let packed := rest.take Hidden.size
      if packed.length < Hidden.size then []
      else (run.reverse, Hidden.ofBytes? packed) :: hiddenIn [] (rest.drop Hidden.size)
    else if isLiteralByte b then hiddenIn (Char.ofNat b.toNat :: run) rest
    else hiddenIn [] rest
termination_by bytes.length
decreasing_by all_goals simp only [List.length_drop, List.length_cons]; omega

/-- The literals of a line with their hidden values; a value in a form other than the short one is
not read. -/
def hiddenNumbers (record : LineRecord) : List (Text × Option Int) := hiddenIn [] record.body

/-- Whether some marker in the bytes has fewer bytes after it than a hidden number takes. -/
def cutIn (bytes : Bytes) : Bool :=
  match bytes with
  | [] => false
  | b :: rest =>
    if b = Hidden.marker then
      (rest.take Hidden.size).length < Hidden.size || cutIn (rest.drop Hidden.size)
    else cutIn rest
termination_by bytes.length
decreasing_by all_goals simp only [List.length_drop, List.length_cons]; omega

/-- Whether the line ends within a hidden number. -/
def hasCutNumber (record : LineRecord) : Bool := cutIn record.body

end LineRecord

end SpectrumBasic
