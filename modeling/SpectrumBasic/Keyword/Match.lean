import SpectrumBasic.Keyword.Table

/-!
# Reading a keyword

At each place of a statement the longest spelling that fits is read (`Table.longest?`). A spelling
fits if the text goes on with it, letter case aside. One that starts with a letter has to be a word
of its own as well: no letter stands before it, and no letter or digit after it.
-/

namespace SpectrumBasic

/-- What follows a spelling at the start of a text, letter case aside. -/
def Text.afterSpelling? : Text → Text → Option Text
  | [], text => some text
  | _ :: _, [] => none
  | s :: spelling, c :: text =>
    if c.toUpper = s.toUpper then afterSpelling? spelling text else none

/-- Whether a keyword can be read at the start of a text. `afterLetter` tells whether a letter
stands before the text. -/
def Keyword.fits (k : Keyword) (afterLetter : Bool) (text : Text) : Bool :=
  match Text.afterSpelling? k.spelling text with
  | none => false
  | some rest => k.alphabetic? != some true || !(afterLetter || rest.head?.any Char.isAlphanum)

/-- The best spelling at a place is empty, and it has no first letter to go by. -/
structure BlankSpelling where
  deriving DecidableEq, Repr

namespace BlankSpelling

def message : String := "string index out of range"

end BlankSpelling

namespace Table

/-- The longest keyword that can be read at the start of a text. -/
def longest? (table : Table) (afterLetter : Bool) (text : Text) : Option Keyword :=
  (table.keywords.filter (·.fits afterLetter text)).maxOn? (·.spelling.length)

/-- The keyword read at the start of a text: the characters it takes up and its code. -/
def read (table : Table) (afterLetter : Bool) (text : Text) :
    Except BlankSpelling (Option (Text × UInt8)) :=
  match table.longest? afterLetter text with
  | none => .ok none
  | some k =>
    if k.spelling.isEmpty then .error ⟨⟩
    else .ok (some (text.take k.spelling.length, k.code))

/-- The keyword read at a position of a text. -/
def readAt (table : Table) (text : Text) (position : Nat) :
    Except BlankSpelling (Option (Text × UInt8)) :=
  if position ≤ text.length then
    table.read ((text.take position).getLast?.any Char.isAlpha) (text.drop position)
  else .ok none

/-- The keywords read at every position of a text, its end included. -/
def readEverywhere (table : Table) (text : Text) :
    Except BlankSpelling (List (Nat × Text × UInt8)) := do
  let found ← (List.range (text.length + 1)).mapM fun position => do
    let hit ← table.readAt text position
    pure (hit.map fun (matched, code) => (position, matched, code))
  pure (found.filterMap id)

end Table

end SpectrumBasic
