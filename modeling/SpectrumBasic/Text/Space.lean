import SpectrumBasic.Text.Basic

/-!
# Blanks

Which characters count as blank, and what is left of a text without the blanks around it
(`trim`) or between its words (`fields`).
-/

namespace SpectrumBasic.Text

/-- The blank characters as ranges of code points: the control characters that move the print
position, the four information separators, space, and the spaces of the other scripts. -/
def blankRanges : List (Nat × Nat) :=
  [(0x0009, 0x000D), (0x001C, 0x0020), (0x0085, 0x0085), (0x00A0, 0x00A0), (0x1680, 0x1680),
   (0x2000, 0x200A), (0x2028, 0x2029), (0x202F, 0x202F), (0x205F, 0x205F), (0x3000, 0x3000)]

def isBlank (c : Char) : Bool :=
  blankRanges.any fun (first, last) => first ≤ c.toNat && c.toNat ≤ last

/-- The text without the leading characters that `drops` picks out, nor the trailing ones. -/
def strip (drops : Char → Bool) (text : Text) : Text :=
  ((text.dropWhile drops).reverse.dropWhile drops).reverse

def trim (text : Text) : Text := strip isBlank text

/-- The words of a text: its pieces between blanks, empty ones left out. -/
def fields (text : Text) : List Text :=
  (pieces isBlank text).filter fun piece => !piece.isEmpty

end SpectrumBasic.Text
