import SpectrumBasic.Bytes
import SpectrumBasic.Text.Quoted

/-!
# Character encodings

The three encodings that text files are mostly in. Decoding refuses bytes that are not valid in the
encoding as a whole; encoding refuses the first characters that have no code. An encoding goes by
several names, and letter case and punctuation matter little in them (`Encoding.ofName?`).
-/

namespace SpectrumBasic

/-- The encodings a text file can have. -/
inductive Encoding where
  /-- One to four bytes a character, every character. -/
  | utf8
  /-- One byte a character, the first 256 characters. -/
  | latin1
  /-- One byte a character, the first 128 characters. -/
  | ascii
  deriving DecidableEq, Repr

/-- A run of characters that an encoding has no codes for. -/
structure Unencodable where
  encoding : Encoding
  /-- Where the run starts, in characters from the start of the text. -/
  position : Nat
  first : Char
  /-- How many characters more the run has. -/
  more : Nat
  deriving DecidableEq, Repr

namespace Encoding

/-- The name an encoding has in messages. -/
def name : Encoding → String
  | utf8 => "utf-8"
  | latin1 => "latin-1"
  | ascii => "ascii"

/-- The name an encoding is listed by, in plain form. -/
def plainName : Encoding → String
  | utf8 => "utf_8"
  | latin1 => "latin_1"
  | ascii => "ascii"

/-- The other names an encoding goes by, in plain form. -/
def aliases : Encoding → List String
  | utf8 => ["cp65001", "u8", "utf", "utf8", "utf8_ucs2", "utf8_ucs4"]
  | latin1 =>
    [ "8859", "cp819", "csisolatin1", "ibm819", "iso8859", "iso8859_1", "iso_8859_1"
    , "iso_8859_1_1987", "iso_ir_100", "l1", "latin", "latin1" ]
  | ascii =>
    [ "646", "ansi_x3.4_1968", "ansi_x3.4_1986", "ansi_x3_4_1968", "cp367", "csascii", "ibm367"
    , "iso646_us", "iso_646.irv_1991", "iso_ir_6", "us", "us_ascii" ]

/-- A name in plain form: its letters in lower case, and an underscore between two runs of letters,
digits and points. -/
def plainForm (name : String) : Text :=
  let separates := fun c : Char => !(c.isAlphanum || c = '.')
  let words := (Text.pieces separates name.toList).filter fun word => !word.isEmpty
  ['_'].intercalate (words.map Text.lower)

/-- The encoding with a given name. In an alias a point may stand for an underscore. -/
def ofName? (wanted : String) : Option Encoding :=
  let plain := plainForm wanted
  let pointless := plain.map fun c => if c = '.' then '_' else c
  [utf8, latin1, ascii].find? fun encoding =>
    String.ofList plain == encoding.plainName
      || encoding.aliases.contains (String.ofList plain)
      || encoding.aliases.contains (String.ofList pointless)

/-- The number of characters an encoding has codes for. -/
def size : Encoding → Nat
  | utf8 => 0x110000
  | latin1 => 0x100
  | ascii => 0x80

/-- The text that bytes stand for, if they are valid in the encoding. -/
def decode? : Encoding → Bytes → Option Text
  | utf8, bytes => (ByteArray.utf8Decode? ⟨bytes.toArray⟩).map Array.toList
  | latin1, bytes => some (bytes.map fun b => Char.ofNat b.toNat)
  | ascii, bytes =>
    if bytes.all (· < 0x80) then some (bytes.map fun b => Char.ofNat b.toNat) else none

/-- The first run of characters without a code, if there is one. -/
def firstUnencodable? (encoding : Encoding) (text : Text) : Option Unencodable :=
  let hasCode := fun c : Char => decide (c.toNat < encoding.size)
  match text.dropWhile hasCode with
  | [] => none
  | c :: rest => some {
      encoding
      position := (text.takeWhile hasCode).length
      first := c
      more := (rest.takeWhile fun c => !hasCode c).length }

/-- The code of one character that the encoding has a code for. -/
def code : Encoding → Char → Bytes
  | utf8, c => String.utf8EncodeChar c
  | latin1, c | ascii, c => [UInt8.ofNat c.toNat]

/-- The bytes of a text. -/
def encode (encoding : Encoding) (text : Text) : Except Unencodable Bytes :=
  match encoding.firstUnencodable? text with
  | some run => .error run
  | none => .ok (text.flatMap encoding.code)

end Encoding

/-- The complaint about characters that have no code. -/
def Unencodable.message (run : Unencodable) : String :=
  let encoding := run.encoding.name
  let size := run.encoding.size
  let last := run.position + run.more
  let which :=
    if run.more = 0 then
      s!"character '{String.ofList (Text.codeEscape run.first)}' in position {run.position}"
    else s!"characters in position {run.position}-{last}"
  s!"'{encoding}' codec can't encode {which}: ordinal not in range({size})"

end SpectrumBasic
