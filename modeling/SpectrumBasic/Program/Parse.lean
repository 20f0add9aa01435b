import SpectrumBasic.Program

/-!
# Reading a program file

Any bytes can be read as a program. A header at their start is taken off, the rest is cut into
records (`splitRecords`), and what does not make a whole record at the end is left out.
-/

namespace SpectrumBasic

/-- How the last record is followed. -/
inductive Ending where
  /-- By fewer bytes than a record starts with. -/
  | whole (left : Nat)
  /-- By the start of a record that declares more bytes than remain. -/
  | cut (line declared remaining : Nat)
  deriving DecidableEq, Repr

namespace Ending

def isCut : Ending → Bool
  | whole _ => false
  | cut .. => true

/-- What there is to say about some bytes that were left over. -/
def leftNotices (count : Nat) : List Notice :=
  if 0 < count ∧ count < LineRecord.headSize then [.bytesLeft count] else []

def notices : Ending → List Notice
  | whole left => leftNotices left
  | cut line declared remaining => .recordCut line declared remaining :: leftNotices remaining

end Ending

/-- The records at the start of some bytes, and how they end. -/
def splitRecords (data : Bytes) : List LineRecord × Ending :=
  match data with
  | numberHigh :: numberLow :: lengthLow :: lengthHigh :: rest =>
    let number := Bytes.toNatBE [numberHigh, numberLow]
    let length := Bytes.toNatLE [lengthLow, lengthHigh]
    let payload := rest.take length
    if payload.length = length then
      let record : LineRecord :=
        { number, payload
          number_le := Nat.le_of_lt_succ (Bytes.toNatLE_pair_lt numberLow numberHigh)
          length_le := Nat.le_trans (List.length_take_le _ _)
            (Nat.le_of_lt_succ (Bytes.toNatLE_pair_lt _ _)) }
      let (records, ending) := splitRecords (rest.drop length)
      (record :: records, ending)
    else ([], .cut number length rest.length)
  | left => ([], .whole left.length)
termination_by data.length
decreasing_by simp only [List.length_drop, List.length_cons]; omega

namespace Program

/-- The program that records make up. -/
def ofRecords (split : List LineRecord × Ending) : Program :=
  { lines := split.1, truncated := split.2.isCut }

/-- The program in a file, and what there is to say about the file. -/
def parse (data : Bytes) : Program × List Notice :=
  match DiskHeader.isPresent data, DiskHeader.ofBytes data with
  | true, .ok header =>
    let split := splitRecords (data.drop DiskHeader.size)
    let autostart := if header.hasAutostart then some header.autostart else none
    let checksum := if DiskHeader.verifies data then [] else [Notice.checksumWrong]
    ({ ofRecords split with header := some header, autostart },
      .headerFound header.dataLength autostart :: checksum ++ split.2.notices)
  | _, _ =>
    let split := splitRecords data
    (ofRecords split, .headerMissing :: split.2.notices)

end Program

end SpectrumBasic
