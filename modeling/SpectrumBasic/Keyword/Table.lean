import SpectrumBasic.Bytes
import SpectrumBasic.Text.Integer

/-!
# Keyword tables

A program stores each keyword as one byte, its code. A table lists the spellings that are read as
a code; one spelling of each code is canonical, and that is the one a listing shows. The others are
its aliases.

`Table.ofEntries` builds a table from the entries offered for it and refuses them with a
`TableFault` at the first contradiction: a code outside the range of keywords, a spelling with two
codes, a code with two canonical spellings or with none.
-/

namespace SpectrumBasic

/-! ## Keywords -/

/-- A spelling offered for a table. -/
structure Entry where
  spelling : Text
  code : Int
  canonical : Bool := true
  deriving DecidableEq, Repr

/-- A spelling in a table and the byte it is read as. -/
structure Keyword where
  spelling : Text
  code : UInt8
  canonical : Bool := true
  deriving DecidableEq, Repr

/-- The two generations of keywords. -/
inductive KeywordSet where
  /-- The keywords of the 48K and 128K machines. -/
  | standard
  /-- The keywords that the Next adds. -/
  | extension
  deriving DecidableEq, Repr

namespace Keyword

def firstCode : UInt8 := 0x87

def lastExtension : UInt8 := 0xA2

def lastCode : UInt8 := 0xFF

/-- The code of the keyword after which the rest of the line is a remark. -/
def remark : UInt8 := 0xEA

/-- Which generation a keyword belongs to. -/
def set (k : Keyword) : KeywordSet := if k.code ≤ lastExtension then .extension else .standard

/-- Whether a keyword starts with a letter; an empty spelling leaves that open. -/
def alphabetic? (k : Keyword) : Option Bool := k.spelling.head?.map Char.isAlpha

end Keyword

/-- The byte with a given code, if the code is one. -/
def byte? (code : Int) : Option UInt8 :=
  if 0 ≤ code ∧ code < 256 then some (UInt8.ofNat code.toNat) else none

/-! ## Tables -/

/-- The keywords that are read and listed, in the order they were offered. -/
structure Table where
  keywords : List Keyword
  deriving DecidableEq, Repr

/-- What can be wrong with the entries offered for a table. -/
inductive TableFault where
  | codeOutOfRange (spelling : Text) (code : Int)
  | twoCodes (spelling : Text) (first second : UInt8)
  | twoCanonical (code : UInt8) (first second : Text)
  | noCanonical (codes : List UInt8)
  deriving DecidableEq, Repr

namespace Table

/-- The keyword an entry becomes after the keywords `earlier`. -/
def accept (earlier : List Keyword) (entry : Entry) : Except TableFault Keyword :=
  match (byte? entry.code).filter (Keyword.firstCode ≤ ·) with
  | none => .error (.codeOutOfRange entry.spelling entry.code)
  | some code =>
    let sameSpelling := fun k : Keyword => k.spelling.upper = entry.spelling.upper
    match earlier.find? fun k => sameSpelling k && k.code != code with
    | some k => .error (.twoCodes entry.spelling k.code code)
    | none =>
      match earlier.find? fun k => entry.canonical && k.canonical && k.code == code with
      | some k => .error (.twoCanonical code k.spelling entry.spelling)
      | none => .ok ⟨entry.spelling, code, entry.canonical⟩

/-- The keywords that entries become after the keywords `earlier`, those included. -/
def acceptAll (earlier : List Keyword) : List Entry → Except TableFault (List Keyword)
  | [] => .ok earlier
  | entry :: rest =>
    match accept earlier entry with
    | .error fault => .error fault
    | .ok keyword => acceptAll (earlier ++ [keyword]) rest

/-- The codes without a canonical spelling, ascending. -/
def uncanonicalCodes (keywords : List Keyword) : List UInt8 :=
  let codes := (keywords.map (·.code)).eraseDups
  (codes.filter fun code => !keywords.any fun k => k.canonical && k.code == code).mergeSort

/-- The table of some entries. -/
def ofEntries (entries : List Entry) : Except TableFault Table :=
  match acceptAll [] entries with
  | .error fault => .error fault
  | .ok keywords =>
    match uncanonicalCodes keywords with
    | [] => .ok ⟨keywords⟩
    | codes => .error (.noCanonical codes)

/-- The code a spelling is read as; letter case does not matter. -/
def code? (table : Table) (spelling : Text) : Option UInt8 :=
  (table.keywords.find? fun k => k.spelling.upper == spelling.upper).map (·.code)

def spelling? (table : Table) (code : UInt8) : Option Text :=
  (table.keywords.find? fun k => k.canonical && k.code == code).map (·.spelling)

/-- The other spellings of a code, in the order of the table. -/
def aliases (table : Table) (code : UInt8) : List Text :=
  (table.keywords.filter fun k => k.code == code && !k.canonical).map (·.spelling)

end Table

/-! ## Complaints -/

/-- The complaint about entries that make no table. -/
def TableFault.message : TableFault → String
  | codeOutOfRange spelling code =>
    let low := Text.showCode Keyword.firstCode.toNat
    let high := Text.showCode Keyword.lastCode.toNat
    s!"token code {Text.showCode code} for '{String.ofList spelling}' is outside {low}-{high}"
  | twoCodes spelling first second =>
    let one := Text.showCode first.toNat
    let other := Text.showCode second.toNat
    s!"keyword '{String.ofList spelling}' maps to both {one} and {other}"
  | twoCanonical code first second =>
    let shown := Text.showCode code.toNat
    let one := String.ofList first
    let other := String.ofList second
    s!"code {shown} has two canonical spellings: '{one}' and '{other}'"
  | noCanonical codes =>
    let shown := ", ".intercalate (codes.map fun code => Text.showCode code.toNat)
    s!"no canonical spelling for {shown}"

end SpectrumBasic
