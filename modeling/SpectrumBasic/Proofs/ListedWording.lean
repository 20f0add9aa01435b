import SpectrumBasic.Proofs.EncodedLines

/-!
# What a listing keeps of a statement

A statement is put into bytes, and the bytes are listed. Between keywords and what follows them spaces
come and go, keywords come out in upper case, and an alias comes out in the canonical spelling. Nothing
else is lost: without its spaces and in upper case (`Text.condensed`) the listing is the statement,
each character as it is shown (`Reading.condensed_line`).
-/

namespace SpectrumBasic

/-! ## Texts without spaces and letter case -/

namespace Text

/-- The text without its spaces, in upper case. -/
def condensed (text : Text) : Text := upper (text.filter (· ≠ ' '))

@[simp] theorem condensed_nil : condensed [] = [] := rfl

theorem condensed_append (front back : Text) :
    condensed (front ++ back) = condensed front ++ condensed back := by
  rw [condensed, List.filter_append, upper_append]
  rfl

theorem condensed_cons (c : Char) (text : Text) :
    condensed (c :: text) = condensed [c] ++ condensed text :=
  condensed_append [c] text

/-- Nothing is left of spaces. -/
@[simp] theorem condensed_spaces (count : Nat) : condensed (List.replicate count ' ') = [] := by
  have hnone : (List.replicate count ' ').filter (· ≠ ' ') = [] := by
    rw [List.filter_eq_nil_iff]
    intro c hc
    rw [List.eq_of_mem_replicate hc]
    decide
  rw [condensed, hnone]
  rfl

/-- Whether spaces are left out before or after letter case does not matter. -/
theorem condensed_eq_filter_upper (text : Text) :
    condensed text = (upper text).filter (· ≠ ' ') := by
  have hspace : ∀ c : Char, decide (c.toUpper ≠ ' ') = decide (c ≠ ' ') := by
    intro c
    refine decide_eq_decide.mpr (not_congr ⟨eq_of_toUpper_eq (by decide), ?_⟩)
    rintro rfl
    rfl
  rw [condensed, upper, upper, List.filter_map]
  congr 1
  exact List.filter_congr fun c _ => (hspace c).symm

end Text

/-! ## Lexemes -/

theorem condensed_line_textBytes {text : Text} (htext : ∀ c ∈ text, isControl c = false)
    (rest : Bytes) :
    (Listing.line .standard (textBytes text ++ rest)).condensed =
      Text.condensed (text.map shown) ++ (Listing.line .standard rest).condensed := by
  rw [Listing.line_textBytes htext, Text.condensed_append]

namespace Keyword.Listed

variable {k kc : Keyword} {afterLetter : Bool} {word rest : Text}

/-- The listed spelling of a keyword is the word that was read, condensed. -/
theorem condensed_spelling (h : k.Listed kc afterLetter word rest) :
    kc.spelling.condensed = Text.condensed (word.map shown) := by
  rw [h.map_shown_eq, Text.condensed_eq_filter_upper, Text.condensed_eq_filter_upper,
    h.admits.spelled, Table.upper_of_mem_standard h.mem, Table.upper_of_mem_standard h.mem_listed]
  exact Table.filter_spelling_of_mem_standard h.mem h.spelling?_eq

/-- A keyword goes into the listing as the word that was read, with or without a space. -/
theorem condensed_line_code (h : k.Listed kc afterLetter word rest) (later : Bytes) :
    (Listing.line .standard (k.code :: later)).condensed =
      Text.condensed (word.map shown) ++ (Listing.line .standard later).condensed := by
  rw [Listing.line_code h.spelling?_eq, Text.condensed_append, Text.condensed_append,
    Text.condensed_spaces, List.nil_append, h.condensed_spelling]

end Keyword.Listed

/-! ## Statements -/

namespace Reading

variable {place : Place} {text : Text} {lexemes : List Lexeme}

/-- The listing of a statement without control characters is the statement, condensed. -/
theorem condensed_line (h : Reading .standard place text lexemes)
    (htext : ∀ c ∈ text, isControl c = false) :
    (Listing.line .standard (bytesOf lexemes)).condensed = Text.condensed (text.map shown) := by
  induction h with
  | done => rw [bytesOf_nil, Listing.line_nil, List.map_nil]
  | @closed place inner rest later hinner hrest ih =>
    have hsplit : '"' :: (inner ++ '"' :: rest) = '"' :: (inner ++ ['"']) ++ rest := by simp
    rw [hsplit, List.forall_mem_append] at htext
    rw [hsplit, bytesOf_cons, Lexeme.bytes, condensed_line_textBytes htext.1, ih htext.2,
      List.map_append, Text.condensed_append]
  | unclosed hinner =>
    rw [bytesOf_cons, Lexeme.bytes, condensed_line_textBytes htext, bytesOf_nil, Listing.line_nil,
      Text.condensed_nil, List.append_nil]
  | @number place c tail rest value later hstart hrun hend hvalue hrest ih =>
    -- the hidden value is passed over, so that only the digits are listed
    rw [← List.cons_append, List.forall_mem_append] at htext
    rw [bytesOf_cons, Listing.line_number hrun, Text.condensed_append, ih htext.2,
      ← List.cons_append, List.map_append, map_shown_of_isLiteralChar hrun, Text.condensed_append]
  | comment hopens =>
    rw [bytesOf_cons, Lexeme.bytes, condensed_line_textBytes htext, bytesOf_nil, Listing.line_nil,
      Text.condensed_nil, List.append_nil]
  | @keyword place c tail rest code spaces later hplain hread hcode hspaces hrest ih =>
    obtain ⟨k, kc, rfl, hlisted⟩ := Keyword.Listed.of_read hread
    have hlater : ∀ d ∈ rest, isControl d = false := by
      intro d hd
      exact htext d (by simp [hd])
    have hshown : (List.replicate spaces ' ').map shown = List.replicate spaces ' ' := by
      rw [List.map_replicate]
      rfl
    rw [bytesOf_brokenAt_append, bytesOf_cons, Lexeme.bytes, List.singleton_append,
      hlisted.condensed_line_code, ih hlater, ← List.cons_append, List.map_append, List.map_append,
      hshown, Text.condensed_append, Text.condensed_append, Text.condensed_spaces, List.nil_append]
  | @remark place c tail rest hplain hread =>
    obtain ⟨k, kc, hcode, hlisted⟩ := Keyword.Listed.of_read hread
    rw [← List.cons_append, List.forall_mem_append] at htext
    rw [bytesOf_brokenAt_append, bytesOf_cons, Lexeme.bytes, ← hcode, List.cons_append,
      hlisted.condensed_line_code, condensed_line_textBytes htext.2, bytesOf_nil, Listing.line_nil,
      Text.condensed_nil, List.append_nil, ← List.cons_append, List.map_append,
      Text.condensed_append]
  | @character place c rest later hplain hread hrest ih =>
    rw [List.forall_mem_cons] at htext
    have hbytes : bytesOf (Lexeme.brokenAt c rest ++ .character c :: later)
        = charByte c :: bytesOf later := bytesOf_brokenAt_append _ _ _
    rw [hbytes, Listing.line_charByte htext.1, Text.condensed_cons, ih htext.2, List.map_cons,
      ← Text.condensed_cons]

end Reading

/-- **A listing keeps the wording of a statement.** Every statement without control characters has a
payload, and spaces and letter case aside the listing of the payload is the statement: character by
character, the last ASCII character shown as the copyright sign and others beyond ASCII as question
marks. -/
theorem listing_keeps_wording {text : Text} (htext : ∀ c ∈ text, 0x20 ≤ c.toNat) :
    ∃ payload, (tokenize .standard false text).payload = .ok payload ∧
      (Listing.line .standard payload.dropLast).condensed = Text.condensed (text.map shown) := by
  refine ⟨payloadOf text, tokenize_lenient text, ?_⟩
  have hreading := reading_scan Table.consistent_standard .start text
  rw [payloadOf, List.dropLast_concat]
  refine hreading.condensed_line ?_
  intro c hc
  exact decide_eq_false (Nat.not_lt.mpr (htext c hc))

/-- An alias, a broken run of digits, a string that is not closed, and characters beyond ASCII. -/
theorem listing_keeps_wording_of_alias :
    ∃ payload,
      (tokenize .standard false "goto 1.2.3:let a$=\"©é <".toList).payload = .ok payload ∧
      (Listing.line .standard payload.dropLast).condensed = "GOTO1.2.3:LETA$=\"©?<".toList := by
  have hall : "goto 1.2.3:let a$=\"©é <".toList.all (0x20 ≤ ·.toNat) = true := by decide
  have htext : ∀ c ∈ "goto 1.2.3:let a$=\"©é <".toList, 0x20 ≤ c.toNat := fun c hc =>
    of_decide_eq_true (List.all_eq_true.mp hall c hc)
  obtain ⟨payload, hpayload, hlisted⟩ := listing_keeps_wording htext
  refine ⟨payload, hpayload, hlisted.trans ?_⟩
  decide

end SpectrumBasic
