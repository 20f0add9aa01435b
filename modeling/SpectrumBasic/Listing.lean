import SpectrumBasic.Keyword.Standard
import SpectrumBasic.Program.Parse
import SpectrumBasic.Text.Lines

/-!
# Listings

A listing shows a program as text that can be encoded again. Each keyword code is spelled out, with
a space after it if a letter, digit, quote or point follows; hidden numbers and bytes without a
character are passed over.
-/

namespace SpectrumBasic.Listing

/-- Whether a keyword is kept apart from a byte by a space. -/
def needsSpace (following : UInt8) : Bool :=
  let c := Char.ofNat following.toNat
  c.isAlphanum || c = '"' || c = '.'

/-- The text of a byte, when the bytes `rest` follow it. -/
def glyphs (table : Table) (b : UInt8) (rest : Bytes) : Text :=
  match table.spelling? b with
  | some word => word ++ if rest.head?.any needsSpace then [' '] else []
  | none =>
    if 0x20 ≤ b ∧ b < 0x7F then [Char.ofNat b.toNat]
    else if b = copyrightByte then [copyrightSign]
    else []

/-- The text of a line's bytes without their terminator. -/
def line (table : Table) (bytes : Bytes) : Text :=
  match bytes with
  | [] => []
  | b :: rest =>
    if b = Hidden.marker then line table (rest.drop Hidden.size)
    else glyphs table b rest ++ line table rest
termination_by bytes.length
decreasing_by all_goals simp only [List.length_drop, List.length_cons]; omega

/-- The directive that names a line to start at. -/
def directive (start : Int) : Text := "#autostart ".toList ++ Text.ofInt start

/-- The text of a record: its number and its line. The last byte of the payload is its terminator,
whatever it is. -/
def record (table : Table) (r : LineRecord) : Text :=
  Text.ofNat r.number ++ ' ' :: line table r.payload.dropLast

def program (table : Table) (p : Program) : List Text :=
  (p.autostart.map directive).toList ++ p.lines.map (record table)

def file (table : Table) (data : Bytes) : List Text := program table (Program.parse data).1

/-- The listing of a program file as one text. -/
def text (table : Table) (data : Bytes) : Text := Text.unlines (file table data)

end SpectrumBasic.Listing
