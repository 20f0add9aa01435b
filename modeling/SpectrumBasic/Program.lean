import SpectrumBasic.Attempt
import SpectrumBasic.LineRecord

/-!
# Programs

A program is a list of line records, in the order they were met, with the line to start at. Its
file image is the records one after another, behind a disk header if one is wanted. A line to start
at that does not fit the header is left out with a notice that shows it, so one that is too long to
be shown is the end of the conversion.
-/

namespace SpectrumBasic

namespace DiskHeader

/-- The line to start at as a header stores it, with a notice if it is left out. -/
def normalizeAutostart : Option Int → Attempt Int
  | none => .succeed noAutostart
  | some start =>
    if 0 ≤ start ∧ start < noAutostart then .succeed start
    else if Text.isShowable start then ⟨[.autostartDropped start], .ok noAutostart⟩
    else .fail .notShowable

/-- The bytes of a header in front of so many bytes of data. -/
def build (dataLength : Int) (autostart : Option Int) : Attempt Bytes := do
  let start ← normalizeAutostart autostart
  .ofExcept ((toBytes { dataLength, autostart := start }).mapError .header)

end DiskHeader

/-- A tokenized program. -/
structure Program where
  lines : List LineRecord := []
  autostart : Option Int := none
  /-- The header it was read with. -/
  header : Option DiskHeader := none
  /-- Whether an incomplete record at its end was left out. -/
  truncated : Bool := false
  deriving DecidableEq, Repr

namespace Program

def payload (p : Program) : Bytes := p.lines.flatMap LineRecord.toBytes

def dataLength (p : Program) : Nat :=
  p.lines.foldr (fun record length => record.size + length) 0

def lineNumbers (p : Program) : List Nat := p.lines.map (·.number)

@[simp] theorem length_payload (p : Program) : p.payload.length = p.dataLength := by
  unfold payload dataLength
  induction p.lines with
  | nil => rfl
  | cons record rest ih => simp [ih]

/-- The header that describes a program. -/
def fileHeader (p : Program) : DiskHeader := .ofProgram p.payload.length p.autostart

/-- The file of a program. -/
def image (p : Program) (withHeader : Bool) : Attempt Bytes :=
  if withHeader then do
    let header ← DiskHeader.build p.payload.length p.autostart
    pure (header ++ p.payload)
  else .succeed p.payload

end Program

end SpectrumBasic
