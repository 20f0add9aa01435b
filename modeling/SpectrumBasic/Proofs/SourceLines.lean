import SpectrumBasic.Listing
import SpectrumBasic.Proofs.Characters
import SpectrumBasic.Proofs.Scanning
import SpectrumBasic.Source.Line

/-!
# Statements and directives on a line

A text is `Solid` if there is something in it and no blank at either end. Trimming leaves such a text
alone, and what it leaves of any other one is solid or empty. The statement on a line (`statement?`)
is solid, and a number with a solid statement behind it is read as just these two (`ofText_numbered`).
-/

namespace SpectrumBasic

/-! ## Solid texts -/

namespace Text

/-- A text with characters in it and no blanks around them. -/
structure Solid (text : Text) : Prop where
  ne_nil : text ≠ []
  first : text.head?.any isBlank = false
  last : text.getLast?.any isBlank = false

theorem dropWhile_of_head {p : Char → Bool} {text : Text} (h : text.head?.any p = false) :
    text.dropWhile p = text := (span_append (show ∀ c ∈ ([] : Text), p c = true by simp) h).2

theorem Solid.trim_eq {text : Text} (h : Solid text) : trim text = text := by
  have hlast : text.reverse.head?.any isBlank = false := by
    rw [List.head?_reverse, h.last]
  rw [trim, strip, dropWhile_of_head h.first, dropWhile_of_head hlast, List.reverse_reverse]

/-- What trimming leaves is solid, unless it is nothing. -/
theorem solid_trim {text : Text} (h : trim text ≠ []) : Solid (trim text) := by
  have hend : ∀ t : Text, (t.dropWhile isBlank).head?.any isBlank = false :=
    head?_dropWhile_any isBlank
  -- dropping blanks at the end does not touch the first character of what is left
  have hstart : ∀ t : Text, (t.reverse.dropWhile isBlank).reverse ≠ [] →
      (t.reverse.dropWhile isBlank).reverse.head? = t.head? := by
    intro t hne
    have hsplit : (t.reverse.dropWhile isBlank).reverse
        ++ (t.reverse.takeWhile isBlank).reverse = t := by
      rw [← List.reverse_append, List.takeWhile_append_dropWhile, List.reverse_reverse]
    obtain ⟨c, rest, hcons⟩ := List.exists_cons_of_ne_nil hne
    rw [hcons] at hsplit ⊢
    rw [← hsplit]
    rfl
  refine ⟨h, ?_, ?_⟩
  · rw [trim, strip] at h ⊢
    rw [hstart _ h]
    exact hend text
  · rw [trim, strip, List.getLast?_reverse]
    exact hend _

theorem getLast?_append_of_ne_nil (front : Text) {back : Text} (h : back ≠ []) :
    (front ++ back).getLast? = back.getLast? := by
  rw [List.getLast?_append, List.getLast?_eq_some_getLast h, Option.some_or]

theorem Solid.of_append {front back : Text} (h : Solid (front ++ back)) (hne : back ≠ [])
    (hfirst : back.head?.any isBlank = false) : Solid back := by
  refine ⟨hne, hfirst, ?_⟩
  have hlast := h.last
  rwa [getLast?_append_of_ne_nil front hne] at hlast

end Text

/-! ## Statements -/

/-- The statement on a line, if there is one. -/
def statement? (line : Text) : Option Text :=
  match SourceLine.ofText line.trim with
  | .statement _ body => some body
  | _ => none

namespace SourceLine

/-- A statement keeps the end of its line. -/
theorem solid_of_ofStatement {text body : Text} {number : Option Text} (htext : Text.Solid text)
    (h : ofStatement text = statement number body) : Text.Solid body := by
  unfold ofStatement at h
  by_cases hnumber : (!(text.takeWhile Char.isDigit).isEmpty &&
      (text.dropWhile Char.isDigit).head?.any Text.isBlank) = true
  · simp only [hnumber, if_true, statement.injEq] at h
    obtain ⟨-, rfl⟩ := h
    rw [Bool.and_eq_true] at hnumber
    -- the blank behind the number is not the end of the line
    have hsplit : text = (text.takeWhile Char.isDigit
        ++ (text.dropWhile Char.isDigit).takeWhile Text.isBlank)
          ++ (text.dropWhile Char.isDigit).dropWhile Text.isBlank := by
      rw [List.append_assoc, List.takeWhile_append_dropWhile, List.takeWhile_append_dropWhile]
    refine Text.Solid.of_append (hsplit ▸ htext) ?_ (head?_dropWhile_any _ _)
    intro hnil
    have hblanks := List.takeWhile_append_dropWhile (p := Text.isBlank)
      (l := text.dropWhile Char.isDigit)
    rw [hnil, List.append_nil] at hsplit hblanks
    have hne : (text.dropWhile Char.isDigit).takeWhile Text.isBlank ≠ [] := by
      intro hempty
      rw [← hblanks, hempty] at hnumber
      cases hnumber.2
    have hlast := htext.last
    rw [hsplit, Text.getLast?_append_of_ne_nil _ hne, List.getLast?_eq_some_getLast hne,
      Option.any_some, of_mem_takeWhile (List.getLast_mem hne)] at hlast
    cases hlast
  · simp only [hnumber, Bool.false_eq_true, if_false, statement.injEq] at h
    exact h.2 ▸ htext

/-- A line that starts with a number sign is no statement. -/
theorem ofMarked_ne_statement (text : Text) (number : Option Text) (body : Text) :
    ofMarked text ≠ statement number body := by
  unfold ofMarked
  split
  · split
    · split <;> exact SourceLine.noConfusion
    · exact SourceLine.noConfusion
  · exact SourceLine.noConfusion

theorem ofText_of_head {c : Char} {rest : Text} (h : c ≠ '#') :
    ofText (c :: rest) = ofStatement (c :: rest) := by
  rw [ofText]
  · exact List.cons_ne_nil c rest
  · intro rest' heq
    exact h (List.cons.inj heq).1

/-- A line that is read as a statement has a number of its own or none. -/
theorem exists_ofStatement_eq (text : Text) :
    ∃ number body, ofStatement text = statement number body := by
  unfold ofStatement
  dsimp only
  split <;> exact ⟨_, _, rfl⟩

/-- The statement of a line with text in it. -/
theorem ofStatement_of_ofText {text body : Text} {number : Option Text}
    (h : ofText text = statement number body) :
    text ≠ [] ∧ ofStatement text = statement number body := by
  cases text with
  | nil => cases h
  | cons c rest =>
    refine ⟨List.cons_ne_nil c rest, ?_⟩
    by_cases hc : c = '#'
    · subst hc
      exact absurd h (ofMarked_ne_statement _ _ _)
    · rwa [ofText_of_head hc] at h

/-- A statement is part of its line. -/
theorem mem_of_ofStatement {text body : Text} {number : Option Text}
    (h : ofStatement text = statement number body) {c : Char} (hc : c ∈ body) : c ∈ text := by
  unfold ofStatement at h
  by_cases hnumber : (!(text.takeWhile Char.isDigit).isEmpty &&
      (text.dropWhile Char.isDigit).head?.any Text.isBlank) = true
  · simp only [hnumber, if_true, statement.injEq] at h
    rw [← h.2] at hc
    exact (List.dropWhile_sublist _).mem ((List.dropWhile_sublist _).mem hc)
  · simp only [hnumber, Bool.false_eq_true, if_false, statement.injEq] at h
    rwa [← h.2] at hc

end SourceLine

/-- The statement on a line is that of the trimmed line. -/
theorem ofText_of_statement? {line body : Text} (h : statement? line = some body) :
    ∃ number, SourceLine.ofText line.trim = .statement number body := by
  unfold statement? at h
  split at h
  · rename_i number body' hline
    obtain rfl := Option.some.inj h
    exact ⟨number, hline⟩
  · cases h

theorem solid_of_statement? {line body : Text} (h : statement? line = some body) :
    Text.Solid body := by
  obtain ⟨number, hline⟩ := ofText_of_statement? h
  obtain ⟨hne, hstatement⟩ := SourceLine.ofStatement_of_ofText hline
  exact SourceLine.solid_of_ofStatement (Text.solid_trim hne) hstatement

theorem Text.mem_of_mem_trim {text : Text} {c : Char} (h : c ∈ Text.trim text) : c ∈ text := by
  rw [Text.trim, Text.strip, List.mem_reverse] at h
  have hreverse := (List.dropWhile_sublist Text.isBlank).mem h
  exact (List.dropWhile_sublist Text.isBlank).mem (List.mem_reverse.mp hreverse)

theorem mem_trim_of_statement? {line body : Text} (h : statement? line = some body) {c : Char}
    (hc : c ∈ body) : c ∈ line.trim := by
  obtain ⟨number, hline⟩ := ofText_of_statement? h
  obtain ⟨-, hstatement⟩ := SourceLine.ofStatement_of_ofText hline
  exact SourceLine.mem_of_ofStatement hstatement hc

theorem mem_of_statement? {line body : Text} (h : statement? line = some body) {c : Char}
    (hc : c ∈ body) : c ∈ line := Text.mem_of_mem_trim (mem_trim_of_statement? h hc)

/-! ## Numbered statements -/

namespace Text

theorem isDigit_of_mem_ofNat {n : Nat} {c : Char} (h : c ∈ ofNat n) : c.isDigit = true :=
  Nat.isDigit_of_mem_toDigits (by decide) (by decide) h

theorem isBlank_of_bounds {c : Char} (hlow : 0x20 < c.toNat) (hhigh : c.toNat < 0x85) :
    isBlank c = false := by
  rw [isBlank, List.any_eq_false]
  intro range hrange
  simp only [blankRanges, List.mem_cons, List.not_mem_nil, or_false] at hrange
  rcases hrange with rfl | rfl | rfl | rfl | rfl | rfl | rfl | rfl | rfl | rfl <;>
    simp only [Bool.and_eq_true, decide_eq_true_eq, not_and] <;> omega

theorem isBlank_of_isDigit {c : Char} (h : c.isDigit = true) : isBlank c = false := by
  rw [isDigit_iff] at h
  apply isBlank_of_bounds <;> omega

theorem exists_ofNat_eq_cons (n : Nat) :
    ∃ c digits, ofNat n = c :: digits ∧ c.isDigit = true := by
  obtain ⟨c, digits, hcons⟩ := List.exists_cons_of_ne_nil (show ofNat n ≠ [] from Nat.toDigits_ne_nil)
  exact ⟨c, digits, hcons, isDigit_of_mem_ofNat (hcons ▸ List.mem_cons_self)⟩

/-- A number in front keeps a text solid. -/
theorem Solid.numbered {body : Text} (h : Solid body) (n : Nat) :
    Solid (ofNat n ++ ' ' :: body) := by
  obtain ⟨c, digits, hcons, hc⟩ := exists_ofNat_eq_cons n
  refine ⟨by rw [hcons]; exact List.cons_ne_nil _ _, ?_, ?_⟩
  · rw [hcons]
    exact isBlank_of_isDigit hc
  · rw [List.append_cons, getLast?_append_of_ne_nil _ h.ne_nil]
    exact h.last

end Text

/-- A line that starts with digits has them for its number if a blank ends them. -/
theorem SourceLine.ofText_digits_append {digits : Text} (hne : digits ≠ [])
    (hdigits : ∀ d ∈ digits, d.isDigit = true) {back : Text}
    (hstop : back.head?.any Char.isDigit = false) :
    SourceLine.ofText (digits ++ back) =
      if back.head?.any Text.isBlank then .statement (some digits) (back.dropWhile Text.isBlank)
      else .statement none (digits ++ back) := by
  obtain ⟨c, tail, rfl⟩ := List.exists_cons_of_ne_nil hne
  have hmark : c ≠ '#' := by
    rintro rfl
    exact absurd (hdigits '#' List.mem_cons_self) (by decide)
  -- the digits go up to what is behind the number
  have hspan := span_append hdigits hstop
  rw [List.cons_append, SourceLine.ofText_of_head hmark, ← List.cons_append,
    SourceLine.ofStatement, hspan.1, hspan.2]
  simp

theorem SourceLine.ofText_ofNat_append (n : Nat) {back : Text}
    (hstop : back.head?.any Char.isDigit = false) :
    SourceLine.ofText (Text.ofNat n ++ back) =
      if back.head?.any Text.isBlank then
        .statement (some (Text.ofNat n)) (back.dropWhile Text.isBlank)
      else .statement none (Text.ofNat n ++ back) :=
  ofText_digits_append Nat.toDigits_ne_nil (fun _ hd => Text.isDigit_of_mem_ofNat hd) hstop

theorem SourceLine.ofText_numbered {body : Text} (h : Text.Solid body) (n : Nat) :
    SourceLine.ofText (Text.ofNat n ++ ' ' :: body) = .statement (some (Text.ofNat n)) body := by
  have hstop : (' ' :: body).head?.any Char.isDigit = false := rfl
  have hbody : (' ' :: body).dropWhile Text.isBlank = body := by
    rw [List.dropWhile_cons_of_pos (by decide), Text.dropWhile_of_head h.first]
  rw [SourceLine.ofText_ofNat_append n hstop, hbody]
  rfl

theorem statement?_record {table : Table} {r : LineRecord}
    (h : Text.Solid (Listing.line table r.payload.dropLast)) :
    statement? (Listing.record table r) = some (Listing.line table r.payload.dropLast) := by
  rw [statement?, Listing.record, (h.numbered r.number).trim_eq, SourceLine.ofText_numbered h]

/-! ## Directives -/

namespace Text

variable {separates : Char → Bool}

theorem pieces_cons_of_separates {c : Char} (h : separates c = true) (rest : Text) :
    pieces separates (c :: rest) = [] :: pieces separates rest := by
  rw [pieces, List.foldr_cons, if_pos h]
  rfl

/-- Characters that separate nothing belong to the first piece. -/
theorem pieces_append {front : Text} (h : ∀ c ∈ front, separates c = false) {rest piece : Text}
    {others : List Text} (hrest : pieces separates rest = piece :: others) :
    pieces separates (front ++ rest) = (front ++ piece) :: others := by
  induction front with
  | nil => exact hrest
  | cons c front ih =>
    rw [List.forall_mem_cons] at h
    have hlater := ih h.2
    unfold pieces at hlater ⊢
    rw [List.cons_append, List.foldr_cons, hlater, if_neg (by rw [h.1]; decide)]
    rfl

/-- There is always a first piece. -/
theorem exists_pieces_eq_cons (separates : Char → Bool) (text : Text) :
    ∃ piece others, pieces separates text = piece :: others := by
  induction text with
  | nil => exact ⟨[], [], rfl⟩
  | cons c text ih =>
    obtain ⟨piece, others, hpieces⟩ := ih
    cases hc : separates c with
    | true => exact ⟨_, _, pieces_cons_of_separates hc text⟩
    | false =>
      have hfront : ∀ d ∈ [c], separates d = false := by simpa using hc
      exact ⟨_, _, pieces_append hfront hpieces⟩

end Text

/-- A number in decimal can be the operand of a directive. -/
theorem SourceLine.isOperand_ofNat (n : Nat) : SourceLine.isOperand (Text.ofNat n) = true := by
  obtain ⟨c, digits, hcons, hc⟩ := Text.exists_ofNat_eq_cons n
  have hall : (Text.ofNat n).all Char.isDigit = true :=
    List.all_eq_true.mpr fun d hd => Text.isDigit_of_mem_ofNat hd
  rw [hcons] at hall ⊢
  unfold SourceLine.isOperand
  split
  · rename_i heq
    rw [(List.cons.inj heq).1] at hc
    exact absurd hc (by decide)
  · rename_i heq
    rw [(List.cons.inj heq).1] at hc
    exact absurd hc (by decide)
  · rw [hall]
    rfl

/-- Digits within the limit are read as the number they stand for. -/
theorem Text.readNat_eq_ok_iff {digits : Text} {n : Nat} :
    Text.readNat digits = .ok n ↔
      digits.length ≤ Text.digitLimit ∧ Nat.ofDigitChars 10 digits 0 = n := by
  unfold Text.readNat
  by_cases hlimit : digits.length ≤ Text.digitLimit
  · rw [if_pos hlimit, Except.ok.injEq, and_iff_right hlimit]
  · rw [if_neg hlimit]
    exact iff_of_false (fun h => by cases h) fun h => hlimit h.1

/-- A number in decimal is read back with no sign in front. -/
theorem Text.readInt_ofNat {n : Nat} (h : (Text.ofNat n).length ≤ Text.digitLimit) :
    Text.readInt (Text.ofNat n) = .ok (n : Int) := by
  obtain ⟨c, digits, hcons, hc⟩ := Text.exists_ofNat_eq_cons n
  have hread := Text.readNat_ofNat h
  rw [hcons] at hread ⊢
  unfold Text.readInt
  split
  · rename_i heq
    rw [(List.cons.inj heq).1] at hc
    exact absurd hc (by decide)
  · rename_i heq
    rw [(List.cons.inj heq).1] at hc
    exact absurd hc (by decide)
  · rw [hread]
    rfl

/-- The directive to start at a line is solid, and it is read as such a directive. -/
theorem ofText_directive (n : Nat) :
    Text.Solid (Listing.directive n) ∧
      SourceLine.ofText (Listing.directive n) = .autostart (Text.ofNat n) := by
  have hdirective : Listing.directive n = "#autostart".toList ++ ' ' :: Text.ofNat n := rfl
  have hdigits : ∀ d ∈ Text.ofNat n, Text.isBlank d = false := fun d hd =>
    Text.isBlank_of_isDigit (Text.isDigit_of_mem_ofNat hd)
  have hne : Text.ofNat n ≠ [] := Nat.toDigits_ne_nil
  have hpieces : Text.pieces Text.isBlank (Listing.directive n) =
      ["#autostart".toList, Text.ofNat n] := by
    have hlast := Text.pieces_append hdigits (show Text.pieces Text.isBlank [] = [[]] from rfl)
    rw [List.append_nil] at hlast
    rw [hdirective]
    have hword : "#autostart".toList.all (!Text.isBlank ·) = true := by decide
    exact Text.pieces_append (by simpa only [List.all_eq_true, Bool.not_eq_true'] using hword)
      ((Text.pieces_cons_of_separates (by decide) _).trans (congrArg _ hlast))
  have hfields : (Text.fields (Listing.directive n))[1]? = some (Text.ofNat n) := by
    rw [Text.fields, hpieces, List.filter_cons_of_pos (by decide)]
    simp [hne]
  constructor
  · refine ⟨List.cons_ne_nil _ _, rfl, ?_⟩
    rw [hdirective, List.append_cons, Text.getLast?_append_of_ne_nil _ hne,
      List.getLast?_eq_some_getLast hne, Option.any_some, hdigits _ (List.getLast_mem hne)]
  · show SourceLine.ofMarked (Listing.directive n) = _
    have hword : SourceLine.autostartWord.isPrefixOf (Text.lower (Listing.directive n)) = true := rfl
    rw [SourceLine.ofMarked, if_pos hword, hfields]
    simp only [SourceLine.isOperand_ofNat, if_true]

end SpectrumBasic
