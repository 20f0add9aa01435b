import SpectrumBasic.Text.Basic

/-!
# Lines of text

A text is cut into lines at any of the line-breaking characters (`lines`), once every newline
convention has become a line feed (`unifyNewlines`). `unlines` puts lines together again.
-/

namespace SpectrumBasic.Text

/-- A carriage return becomes a line feed, and a line feed that follows one belongs to it. -/
def unifyNewlines (text : Text) : Text :=
  (('\n' :: text).zip text).filterMap fun (previous, c) =>
    if previous = '\r' ∧ c = '\n' then none
    else if c = '\r' then some '\n'
    else some c

/-- The characters that end a line: line feed, carriage return, vertical tab, form feed, the
three larger information separators, next line, line separator and paragraph separator. -/
def isLineBreak (c : Char) : Bool :=
  ['\n', '\r', '\x0b', '\x0c', '\x1c', '\x1d', '\x1e', '\x85', '\u2028', '\u2029'].contains c

/-- The lines of a text without their ends. A carriage return and line feed are one line end, and
nothing follows the last line end. -/
def lines (text : Text) : List Text :=
  (unifyNewlines text).foldr (fun c later =>
    if isLineBreak c then [] :: later
    else match later with
      | [] => [[c]]
      | line :: others => (c :: line) :: others) []

/-- Lines as one text, each ended by a line feed. -/
def unlines (ls : List Text) : Text := ls.flatMap (· ++ ['\n'])

end SpectrumBasic.Text
