import SpectrumBasic.Notice
import SpectrumBasic.Number.Hidden
import SpectrumBasic.Keyword.Standard
import SpectrumBasic.Statement.Lexeme

/-!
# The payload of a statement

Each lexeme has its bytes (`Lexeme.bytes`): a keyword its code, a number its digits with the hidden
value after them, everything else one byte a character. `tokenize` puts the bytes of a statement
together and ends them with the line terminator, unless some lexeme is refused.
-/

namespace SpectrumBasic

/-! ## Characters -/

/-- The one character beyond ASCII that the machine has. -/
def copyrightSign : Char := '©'

def copyrightByte : UInt8 := 0x7F

/-- Whether the machine has no such character. -/
def isForeign (c : Char) : Bool := 0x80 ≤ c.toNat && c != copyrightSign

/-- The byte of a character, that of a question mark where there is none. -/
def charByte (c : Char) : UInt8 :=
  if c.toNat < 0x80 then UInt8.ofNat c.toNat
  else if c = copyrightSign then copyrightByte
  else 0x3F

def textBytes (text : Text) : Bytes := text.map charByte

/-- What there is to say about literal text. -/
def textNotices (text : Text) : List Notice :=
  let count := text.countP isForeign
  if count = 0 then [] else [.replaced count text]

/-! ## Lexemes -/

/-- Why a statement has no payload. -/
inductive Refusal where
  /-- A number without a short form, where those are not allowed. -/
  | unsupportedNumber (literal : Text)
  | blankSpelling
  deriving DecidableEq, Repr

namespace Lexeme

/-- The bytes of a lexeme. -/
def bytes : Lexeme → Bytes
  | quoted text => textBytes text
  | number literal value => textBytes literal ++ Hidden.marker :: Hidden.pack value
  | brokenRun _ => []
  | comment text => textBytes text
  | keyword _ code _ => [code]
  | remark _ text => Keyword.remark :: textBytes text
  | character c => textBytes [c]
  | blankSpelling => []

/-- What there is to say about a lexeme. -/
def notices : Lexeme → List Notice
  | quoted text => textNotices text
  | number _ value => if (Hidden.small? value).isSome then [] else [.zeroFilled value]
  | brokenRun run => [.brokenRun run]
  | comment text => textNotices text
  | keyword .. => []
  | remark _ text => textNotices text
  | character c => textNotices [c]
  | blankSpelling => []

/-- Why a lexeme is refused, if it is. `strict` refuses the numbers that would be filled in as
zero. -/
def refusal? (strict : Bool) : Lexeme → Option Refusal
  | number literal value =>
    if strict && (Hidden.small? value).isNone then some (.unsupportedNumber literal) else none
  | blankSpelling => some .blankSpelling
  | _ => none

end Lexeme

/-! ## Statements -/

def lineEnd : UInt8 := 0x0D

/-- A statement put into bytes, as far as that went. -/
structure Tokenized where
  notices : List Notice
  /-- The payload, or what was refused and how many characters stand before it. -/
  payload : Except (Refusal × Nat) Bytes

/-- The payload of a statement. The notices are those about the lexemes before a refused one. -/
def tokenize (table : Table) (strict : Bool) (text : Text) : Tokenized :=
  let lexemes := scan table .start text
  let accepted := lexemes.takeWhile fun lexeme => (lexeme.refusal? strict).isNone
  { notices := accepted.flatMap Lexeme.notices
    payload := match lexemes.findSome? (Lexeme.refusal? strict) with
      | some refusal => .error (refusal, (accepted.flatMap Lexeme.source).length)
      | none => .ok (lexemes.flatMap Lexeme.bytes ++ [lineEnd]) }

end SpectrumBasic
