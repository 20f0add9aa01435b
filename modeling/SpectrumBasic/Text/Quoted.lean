import SpectrumBasic.Text.Integer
import SpectrumBasic.Text.Printable

/-!
# Quoted text

How a message shows a piece of text so that it can be read without doubt: between quotes, with
every character that could be misread escaped.
-/

namespace SpectrumBasic.Text

/-- Single quotes, unless the text holds one and no double quote. -/
def quoteFor (text : Text) : Char :=
  if text.contains '\'' && !text.contains '"' then '"' else '\''

/-- A character by its code point, with as many hexadecimal digits as the shortest of the three
forms that holds it. -/
def codeEscape (c : Char) : Text :=
  if c.toNat < 0x100 then '\\' :: 'x' :: hex 2 c.toNat
  else if c.toNat < 0x10000 then '\\' :: 'u' :: hex 4 c.toNat
  else '\\' :: 'U' :: hex 8 c.toNat

/-- A character as it stands between the quotes `quote`. -/
def escapeChar (quote c : Char) : Text :=
  if c = '\\' ∨ c = quote then ['\\', c]
  else if c = '\n' then ['\\', 'n']
  else if c = '\r' then ['\\', 'r']
  else if c = '\t' then ['\\', 't']
  else if isPrintable c then [c]
  else codeEscape c

def quoted (text : Text) : Text :=
  let quote := quoteFor text
  quote :: text.flatMap (escapeChar quote) ++ [quote]

end SpectrumBasic.Text
