import SpectrumBasic.Bytes
import SpectrumBasic.Notice

/-!
# Disk headers

A file on a +3DOS disk starts with a header of 128 bytes:

    offset  size
       0      8   signature "PLUS3DOS"
       8      1   1A
       9      1   issue
      10      1   version
      11      4   size of the file with its header
      15      1   type of the file, 0 for a program
      16      2   length of the data
      18      2   line to start at, 32768 for none
      20      2   offset of the variables in the data
      22    105   zero
     127      1   sum of the other bytes

Numbers are stored low byte first. `DiskHeader.toBytes` and `DiskHeader.ofBytes` write and read a
header; a field that does not fit its bytes is refused, a wrong checksum is not.
-/

namespace SpectrumBasic

/-- What a file holds. -/
inductive FileType where
  | program
  | numberArray
  | characterArray
  | code
  deriving DecidableEq, Repr

namespace FileType

/-- The file type with a given number. -/
def ofInt? : Int → Option FileType
  | 0 => some program
  | 1 => some numberArray
  | 2 => some characterArray
  | 3 => some code
  | _ => none

/-- A file type in words. -/
def description : FileType → String
  | program => "Program"
  | numberArray => "Numeric array"
  | characterArray => "Character array"
  | code => "Code"

end FileType

namespace DiskHeader

def size : Nat := 128

/-- The bytes that the checksum adds up. -/
def summedSize : Nat := 127

def signatureBytes : Bytes := "PLUS3DOS".toList.map fun c => UInt8.ofNat c.toNat

/-- The start of an older signature. -/
def olderSignature : Bytes := "ZXPLUS3".toList.map fun c => UInt8.ofNat c.toNat

/-- The byte after the signature. -/
def softEnd : UInt8 := 0x1A

/-- The line number that stands for not starting at all. -/
def noAutostart : Int := 32768

def maxDataLength : Nat := 0xFFFF

end DiskHeader

/-- The fields of a header, of any size. -/
structure DiskHeader where
  dataLength : Int := 0
  autostart : Int := DiskHeader.noAutostart
  fileType : Int := 0
  varsOffset : Int := dataLength
  fileSize : Int := dataLength + DiskHeader.size
  signature : Bytes := DiskHeader.signatureBytes
  issue : Int := 1
  version : Int := 0
  checksum : Int := 0
  deriving DecidableEq, Repr

/-- Why a header cannot be written or read. -/
inductive HeaderFault where
  | dataLength (n : Int)
  /-- Another field does not fit its bytes. -/
  | field
  | tooShort (bytes : Nat)
  deriving DecidableEq, Repr

/-- The complaint about a header. -/
def HeaderFault.message : HeaderFault → String
  | dataLength n =>
    let shown := String.ofList (Text.ofInt n)
    let most := DiskHeader.maxDataLength
    s!"program data is {shown} bytes; a +3DOS header holds at most {most}"
  | field => "invalid header field"
  | tooShort bytes =>
    let needed := DiskHeader.size
    s!"Header too short: need {needed} bytes, got {bytes}"

namespace DiskHeader

/-! ## Checksums and signatures -/

/-- Too few bytes to take a checksum of. -/
structure TooShortToSum where
  bytes : Nat
  deriving DecidableEq, Repr

def TooShortToSum.message (fault : TooShortToSum) : String :=
  let needed := summedSize
  s!"Header too short: need at least {needed} bytes, got {fault.bytes}"

/-- The sum of the bytes that a checksum covers. -/
def sumOf (data : Bytes) : UInt8 := (data.take summedSize).foldl (· + ·) 0

def checksumOf (data : Bytes) : Except TooShortToSum UInt8 :=
  if data.length < summedSize then .error ⟨data.length⟩ else .ok (sumOf data)

/-- Whether data starts with as many bytes as a header has and the last of them is their
checksum. -/
def verifies (data : Bytes) : Bool := data[summedSize]? = some (sumOf data)

/-- Whether data starts with a header of either signature. -/
def isPresent (data : Bytes) : Bool :=
  size ≤ data.length && (data.take 8 = signatureBytes || data.take 7 = olderSignature)

/-! ## Writing -/

/-- Whether a number is one of the first `count` natural numbers. -/
def fits (count : Nat) (n : Int) : Bool := 0 ≤ n && n < count

/-- Whether the fields other than the data length fit their bytes. -/
def fieldsFit (h : DiskHeader) : Bool :=
  fits 0x100 h.issue && fits 0x100 h.version && fits 0x100000000 h.fileSize
    && fits 0x100 h.fileType && fits 0x10000 h.autostart && fits 0x10000 h.varsOffset

/-- The bytes of a header before its checksum. -/
def summedBytes (h : DiskHeader) : Bytes :=
  (h.signature.take 8).rightpad 8 0
    ++ [softEnd]
    ++ Bytes.ofNatLE 1 h.issue.toNat
    ++ Bytes.ofNatLE 1 h.version.toNat
    ++ Bytes.ofNatLE 4 h.fileSize.toNat
    ++ Bytes.ofNatLE 1 h.fileType.toNat
    ++ Bytes.ofNatLE 2 h.dataLength.toNat
    ++ Bytes.ofNatLE 2 h.autostart.toNat
    ++ Bytes.ofNatLE 2 h.varsOffset.toNat
    ++ List.replicate 105 0

/-- The bytes of a header, with a fresh checksum. -/
def toBytes (h : DiskHeader) : Except HeaderFault Bytes :=
  if !fits 0x10000 h.dataLength then .error (.dataLength h.dataLength)
  else if h.fieldsFit then .ok (h.summedBytes ++ [sumOf h.summedBytes])
  else .error .field

/-- The header after it was written: it knows its checksum, if it could be written. -/
def stamped (h : DiskHeader) : DiskHeader :=
  match h.toBytes with
  | .ok _ => { h with checksum := (sumOf h.summedBytes).toNat }
  | .error _ => h

/-! ## Reading -/

/-- The number stored at an offset, in `width` bytes. -/
def fieldAt (data : Bytes) (offset width : Nat) : Nat :=
  Bytes.toNatLE ((data.drop offset).take width)

/-- The header that data starts with. -/
def ofBytes (data : Bytes) : Except HeaderFault DiskHeader :=
  if data.length < size then .error (.tooShort data.length)
  else .ok {
    dataLength := fieldAt data 16 2
    autostart := fieldAt data 18 2
    fileType := fieldAt data 15 1
    varsOffset := fieldAt data 20 2
    fileSize := fieldAt data 11 4
    signature := data.take 8
    issue := fieldAt data 9 1
    version := fieldAt data 10 1
    checksum := fieldAt data summedSize 1 }

def hasAutostart (h : DiskHeader) : Bool := h.autostart != noAutostart

/-! ## The line to start at -/

/-- The line to start at, as a header stores it: a line that does not fit is left out. -/
def storedAutostart : Option Int → Int
  | none => noAutostart
  | some start => if 0 ≤ start ∧ start < noAutostart then start else noAutostart

/-- Data that ends before the field for the line to start at. -/
structure NoAutostartField where
  deriving DecidableEq, Repr

def NoAutostartField.message : String := "index out of range"

/-- The line to start at that data names, if it starts with a header. -/
def readAutostart (data : Bytes) : Except NoAutostartField (Option Int) :=
  if data.length < 20 then .error ⟨⟩
  else
    let start : Int := fieldAt data 18 2
    .ok (if start = noAutostart then none else some start)

/-- The header of a program with so many bytes of data. -/
def ofProgram (dataLength : Int) (autostart : Option Int) : DiskHeader :=
  { dataLength, autostart := storedAutostart autostart }

end DiskHeader

end SpectrumBasic
