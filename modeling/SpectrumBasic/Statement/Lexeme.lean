import SpectrumBasic.Keyword.Match
import SpectrumBasic.Number.Literal

/-!
# Lexemes

A statement is read from left to right as a list of lexemes (`scan`). At each place there is, in
this order of preference, a quoted string, a number, a comment, a keyword, or a plain character.

What was read before a place matters in two ways only, which `Place` keeps: a keyword made of
letters cannot follow a letter, and a semicolon opens a comment only where a statement can start.
`Lexeme.source` gives back the characters a lexeme takes up.
-/

namespace SpectrumBasic

/-- A unit of a statement. -/
inductive Lexeme where
  /-- A string from its opening quote through its closing one, or to the end of the line. -/
  | quoted (text : Text)
  | number (literal : Text) (value : Number)
  /-- A run of digits and points that is no number. It takes up no room: what it is made of is
  read again as something else. -/
  | brokenRun (run : Text)
  | comment (text : Text)
  /-- A keyword and the number of spaces after it. -/
  | keyword (spelling : Text) (code : UInt8) (spaces : Nat)
  /-- The keyword for remarks with the remark after it, to the end of the line. -/
  | remark (spelling : Text) (text : Text)
  | character (c : Char)
  /-- A place where the best spelling is empty. Nothing after it means anything. -/
  | blankSpelling
  deriving DecidableEq, Repr

/-- The characters a lexeme takes up. -/
def Lexeme.source : Lexeme → Text
  | quoted text => text
  | number literal _ => literal
  | brokenRun _ => []
  | comment text => text
  | keyword spelling _ spaces => spelling ++ List.replicate spaces ' '
  | remark spelling text => spelling ++ text
  | character c => [c]
  | blankSpelling => []

/-! ## Places -/

/-- What the characters before a place decide about it. -/
structure Place where
  /-- A letter stands right before it. -/
  afterLetter : Bool
  /-- Nothing but spaces stands between it and the start of the line or a colon. -/
  opensStatement : Bool
  deriving DecidableEq, Repr

namespace Place

def start : Place := ⟨false, true⟩

/-- The place after one character more. -/
def next (place : Place) (c : Char) : Place :=
  ⟨c.isAlpha, c = ':' || (c = ' ' && place.opensStatement)⟩

/-- The place after some characters more. -/
def advance (place : Place) (text : Text) : Place := text.foldl next place

end Place

/-! ## Scanning -/

namespace Lexeme

/-- The string that a quote followed by `rest` opens. -/
def quotedAt (rest : Text) : Text :=
  '"' :: (rest.takeWhile (· ≠ '"') ++ (rest.dropWhile (· ≠ '"')).take 1)

/-- Whether a number may start with `c` when `rest` follows: with a digit, or with a point before a
digit. -/
def startsNumber (c : Char) (rest : Text) : Bool :=
  c.isDigit || (c = '.' && rest.head?.any Char.isDigit)

/-- The lexeme at the start of `c :: rest` that is neither a string nor a number. -/
def wordAt (table : Table) (place : Place) (c : Char) (rest : Text) : Lexeme :=
  if c = ';' ∧ place.opensStatement then comment (c :: rest)
  else match table.read place.afterLetter (c :: rest) with
    | .error _ => blankSpelling
    | .ok none => character c
    | .ok (some (spelling, code)) =>
      let after := (c :: rest).drop spelling.length
      if code = Keyword.remark then remark spelling after
      else keyword spelling code (after.takeWhile (· = ' ')).length

/-- What stands at the start of `c :: rest`: one lexeme, after a broken run if there is one. -/
def readAt (table : Table) (place : Place) (c : Char) (rest : Text) : List Lexeme :=
  if c = '"' then [quoted (quotedAt rest)]
  else if startsNumber c rest then
    let run := (c :: rest).takeWhile Literal.isLiteralChar
    match Literal.value? run with
    | some value => [number run value]
    | none => [brokenRun run, wordAt table place c rest]
  else [wordAt table place c rest]

end Lexeme

/-- The lexemes of a text that starts at `place`. -/
def scan (table : Table) (place : Place) (text : Text) : List Lexeme :=
  match text with
  | [] => []
  | c :: rest =>
    let found := Lexeme.readAt table place c rest
    let taken := found.flatMap Lexeme.source
    found ++ scan table (place.advance taken) (rest.drop (taken.length - 1))
termination_by text.length
decreasing_by simp only [List.length_drop, List.length_cons]; omega

end SpectrumBasic
