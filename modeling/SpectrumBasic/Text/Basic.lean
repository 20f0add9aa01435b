/-!
# Text

Source text is a list of characters, so that positions and lengths count characters. Letter case
is a matter of the twenty-six Latin letters only: `upper` and `lower` leave every other
character alone.
-/

namespace SpectrumBasic

/-- A run of characters. -/
abbrev Text := List Char

namespace Text

/-- The text with `a` to `z` in upper case. -/
def upper (text : Text) : Text := text.map Char.toUpper

/-- The text with `A` to `Z` in lower case. -/
def lower (text : Text) : Text := text.map Char.toLower

@[simp] theorem length_upper (text : Text) : (upper text).length = text.length := by
  simp [upper]

/-- The pieces of a text between the characters that `separates` picks out; two neighbouring
separators have an empty piece between them. -/
def pieces (separates : Char → Bool) (text : Text) : List Text :=
  text.foldr (fun c later =>
    if separates c then [] :: later
    else match later with
      | [] => [[c]]
      | piece :: others => (c :: piece) :: others) [[]]

end Text

end SpectrumBasic
