import SpectrumBasic.Text.Basic

/-!
# Control sequences

A control sequence makes a terminal change colours or move its cursor: an escape character, an
opening bracket, parameters, and a letter. `plain` is a text without them, for output that no
terminal reads. Only whole sequences go, and what comes together where one was taken out is not
looked at again.
-/

namespace SpectrumBasic.Text

/-- The character that opens a control sequence. -/
def escape : Char := '\x1b'

/-- Whether a character may stand among the parameters of a control sequence. -/
def isParameter (c : Char) : Bool := c.isDigit || c = ';' || c = '?'

/-- How many characters the control sequence at the start of a text takes up, which is none if
there is no such sequence. -/
def sequenceLength : Text → Nat
  | c :: '[' :: rest =>
    let count := (rest.takeWhile isParameter).length
    if c = escape ∧ (rest.drop count).head?.any Char.isAlpha then count + 3 else 0
  | _ => 0

/-- The text without its control sequences. -/
def plain (text : Text) : Text :=
  match text with
  | [] => []
  | c :: rest =>
    match sequenceLength (c :: rest) with
    | 0 => c :: plain rest
    | more + 1 => plain (rest.drop more)
termination_by text.length
decreasing_by all_goals simp only [List.length_drop, List.length_cons]; omega

/-- A control sequence starts with an escape character. -/
theorem sequenceLength_of_ne {c : Char} (h : c ≠ escape) (rest : Text) :
    sequenceLength (c :: rest) = 0 := by
  unfold sequenceLength
  split
  · rename_i heq
    obtain ⟨rfl, -⟩ := List.cons.inj heq
    simp [h]
  · rfl

/-- A text without escape characters is plain already. -/
theorem plain_of_not_mem {text : Text} (h : escape ∉ text) : plain text = text := by
  induction text with
  | nil => rw [plain]
  | cons c rest ih =>
    simp only [List.mem_cons, not_or] at h
    rw [plain, sequenceLength_of_ne (Ne.symm h.1)]
    simp only [ih h.2]

end SpectrumBasic.Text
