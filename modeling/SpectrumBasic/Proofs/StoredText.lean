import SpectrumBasic.Proofs.LineListing

/-!
# What the bytes of a statement tell about it

Two statements with the same bytes are read side by side: where one has a string, a number, a comment
or a keyword, the other has one too, and with it the same characters as far as bytes tell them apart.
So a control character in one of them has its counterpart in the other (`Reading.isControl_eq_false`).

What comes next is seen from the first byte, with two exceptions. A semicolon opens a comment only
where a statement can start, and digits and points are a number or not by all of them together
(`startsWithNumber`), which the bytes show as well (`Reading.takeWhile_bytesOf`).
-/

namespace SpectrumBasic

/-! ## Bytes of characters -/

theorem isControl_eq_of_charByte_eq {c d : Char} (h : charByte c = charByte d) :
    isControl c = isControl d := by
  have hnat := congrArg UInt8.toNat h
  rw [toNat_charByte, toNat_charByte] at hnat
  rw [isControl, isControl, decide_eq_decide]
  split at hnat <;> split at hnat <;> (try split at hnat) <;> omega

/-- Texts that are stored alike hold control characters both, or neither does. -/
theorem isControl_of_textBytes_eq {text text' : Text} (h : textBytes text = textBytes text')
    (htext : ∀ c ∈ text, isControl c = false) : ∀ c ∈ text', isControl c = false := by
  intro c hc
  have hbyte : charByte c ∈ textBytes text := by
    rw [h]
    exact List.mem_map_of_mem hc
  obtain ⟨d, hd, hsame⟩ := List.mem_map.mp hbyte
  rw [← isControl_eq_of_charByte_eq hsame, htext d hd]

/-- Characters of one byte lead to places that agree on whether a statement can start there. -/
theorem Place.opensStatement_next {place place' : Place} {c d : Char}
    (hopens : place'.opensStatement = place.opensStatement) (hd : charByte d = charByte c) :
    (place'.next d).opensStatement = (place.next c).opensStatement := by
  have hiff : ∀ x : Char, x.toNat < 0x7F → x ≠ '?' → (d = x ↔ c = x) := by
    intro x hlow hmark
    rw [← charByte_eq_iff hlow hmark, hd, charByte_eq_iff hlow hmark]
  simp only [next, hiff ':' (by decide) (by decide), hiff ' ' (by decide) (by decide), hopens]

theorem quote_not_mem_textBytes {text : Text} (h : '"' ∉ text) : 0x22 ∉ textBytes text := by
  intro hmem
  obtain ⟨c, hc, hquote⟩ := List.mem_map.mp hmem
  have hsame : c = '"' := (charByte_eq_iff (by decide) (by decide)).mp hquote
  exact h (hsame ▸ hc)

/-- Bytes are divided at the first quote in one way only. -/
theorem append_quote_inj {front front' back back' : Bytes} (h : 0x22 ∉ front)
    (h' : 0x22 ∉ front') (heq : front ++ 0x22 :: back = front' ++ 0x22 :: back') :
    front = front' ∧ back = back' := by
  -- on both sides, the bytes in front are those before the first quote
  have hall : ∀ {bytes : Bytes}, 0x22 ∉ bytes → ∀ b ∈ bytes, (b != 0x22) = true := by
    intro bytes hbytes b hb
    exact bne_iff_ne.mpr fun hquote => hbytes (hquote ▸ hb)
  have hspan := span_append (hall h) (show (0x22 :: back).head?.any (· != 0x22) = false from rfl)
  have hspan' := span_append (hall h') (show (0x22 :: back').head?.any (· != 0x22) = false from rfl)
  rw [heq] at hspan
  exact ⟨hspan.1.symm.trans hspan'.1, (List.cons.inj (hspan.2.symm.trans hspan'.2)).2⟩

/-! ## Digits and points -/

/-- The byte of a digit or point is one. -/
theorem isLiteralByte_charByte (c : Char) :
    LineRecord.isLiteralByte (charByte c) = Literal.isLiteralChar c := by
  rw [LineRecord.isLiteralByte, toNat_charByte]
  by_cases hlow : c.toNat < 0x80
  · rw [if_pos hlow, Char.ofNat_toNat]
  · have hc : Literal.isLiteralChar c = false := by
      rw [Bool.eq_false_iff]
      intro hliteral
      have hbounds := bounds_of_isLiteralChar hliteral
      omega
    -- what is not ASCII is stored as a sign
    rw [if_neg hlow, hc]
    split <;> decide

/-- The code of a keyword is none. -/
theorem isLiteralByte_of_firstCode_le {code : UInt8} (h : Keyword.firstCode ≤ code) :
    LineRecord.isLiteralByte code = false := by
  rw [Bool.eq_false_iff]
  intro hliteral
  have hbounds := bounds_of_isLiteralChar hliteral
  have hvalue : Keyword.firstCode.toNat = 0x87 := rfl
  rw [toNat_ofNat_toNat] at hbounds
  rw [UInt8.le_iff_toNat_le] at h
  omega

/-- Runs of digits and points with the same bytes are the same. -/
theorem textBytes_inj_of_isLiteralChar {run run' : Text}
    (hrun : ∀ c ∈ run, Literal.isLiteralChar c = true) (h : textBytes run = textBytes run') :
    run = run' := by
  induction run generalizing run' with
  | nil => exact (List.map_eq_nil_iff.mp h.symm).symm
  | cons c run ih =>
    cases run' with
    | nil => cases h
    | cons d run' =>
      have hbounds := bounds_of_isLiteralChar (hrun c List.mem_cons_self)
      have hmark : c ≠ '?' := by
        rintro rfl
        exact absurd hbounds (by decide)
      obtain ⟨hbyte, hlater⟩ := List.cons.inj h
      have hc : d = c := (charByte_eq_iff (by omega) hmark).mp hbyte.symm
      rw [hc, ih (fun e he => hrun e (List.mem_cons_of_mem c he)) hlater]

/-- Whether a text starts with a number. -/
def startsWithNumber (text : Text) : Bool :=
  match text.takeWhile Literal.isLiteralChar with
  | [] => false
  | c :: tail => Lexeme.startsNumber c tail && (Literal.value? (c :: tail)).isSome

/-- Only digits and points decide whether a number starts. -/
theorem startsNumber_takeWhile (c : Char) (rest : Text) :
    Lexeme.startsNumber c (rest.takeWhile Literal.isLiteralChar) = Lexeme.startsNumber c rest := by
  cases rest with
  | nil => rfl
  | cons d rest =>
    by_cases hliteral : Literal.isLiteralChar d = true
    · rw [List.takeWhile_cons_of_pos hliteral]
      rfl
    · have hdigit : d.isDigit = false := by
        rw [Literal.isLiteralChar, Bool.not_eq_true, Bool.or_eq_false_iff] at hliteral
        exact hliteral.1
      rw [List.takeWhile_cons_of_neg hliteral, Lexeme.startsNumber, Lexeme.startsNumber,
        List.head?_cons, Option.any_some, hdigit]
      rfl

/-- A text starts with a number if one can start there and the run of digits and points is one. -/
theorem startsWithNumber_cons (c : Char) (rest : Text) :
    startsWithNumber (c :: rest) = (Lexeme.startsNumber c rest &&
      (Literal.value? ((c :: rest).takeWhile Literal.isLiteralChar)).isSome) := by
  by_cases hliteral : Literal.isLiteralChar c = true
  · rw [startsWithNumber, List.takeWhile_cons_of_pos hliteral]
    simp only [startsNumber_takeWhile]
  · have hstart : Lexeme.startsNumber c rest = false := by
      rw [Bool.eq_false_iff]
      exact fun hstart => hliteral (isLiteralChar_of_startsNumber hstart)
    rw [startsWithNumber, List.takeWhile_cons_of_neg hliteral, hstart]
    rfl

/-- A plain text does not start with a number. -/
theorem Lexeme.Plain.startsWithNumber_eq_false {place : Place} {c : Char} {rest : Text}
    (h : Lexeme.Plain place c rest) : startsWithNumber (c :: rest) = false := by
  rw [startsWithNumber_cons]
  cases hstart : Lexeme.startsNumber c rest with
  | false => rfl
  | true =>
    rw [h.unnumbered hstart]
    rfl

namespace Reading

variable {place : Place} {text : Text} {lexemes : List Lexeme}

/-- A statement starts with a digit or point if its bytes do. -/
theorem head?_any_isLiteralByte (h : Reading .standard place text lexemes) :
    (bytesOf lexemes).head?.any LineRecord.isLiteralByte =
      text.head?.any Literal.isLiteralChar := by
  cases text with
  | nil =>
    cases h
    rfl
  | cons c rest =>
    rcases h.front with ⟨back, hback⟩ | ⟨k, kc, tail, after, back, hlisted, hback⟩
    · rw [hback]
      exact isLiteralByte_charByte c
    · have hcode : LineRecord.isLiteralByte k.code = false :=
        isLiteralByte_of_firstCode_le (Table.firstCode_le_of_mem_standard hlisted.mem)
      rw [hback, List.head?_cons, List.head?_cons, Option.any_some, Option.any_some, hcode,
        hlisted.isLiteralChar_eq_false]

/-- Where a statement does not start with a digit or point, neither do its bytes. -/
theorem takeWhile_bytesOf_of_head (h : Reading .standard place text lexemes)
    (hhead : text.head?.any Literal.isLiteralChar = false) :
    (bytesOf lexemes).takeWhile LineRecord.isLiteralByte =
      textBytes (text.takeWhile Literal.isLiteralChar) := by
  have hbytes := h.head?_any_isLiteralByte
  rw [hhead] at hbytes
  rw [← List.nil_append (bytesOf lexemes), ← List.nil_append text, (span_append (by simp) hbytes).1,
    (span_append (by simp) hhead).1]
  rfl

/-- The bytes of a statement start with its digits and points. -/
theorem takeWhile_bytesOf (h : Reading .standard place text lexemes) :
    (bytesOf lexemes).takeWhile LineRecord.isLiteralByte =
      textBytes (text.takeWhile Literal.isLiteralChar) := by
  induction h with
  | done => rfl
  | closed hinner hrest => exact takeWhile_bytesOf_of_head (.closed hinner hrest) rfl
  | @unclosed place inner hinner =>
    have hall : Reading .standard place _ _ := .unclosed hinner
    exact takeWhile_bytesOf_of_head hall rfl
  | comment hopens => exact takeWhile_bytesOf_of_head (.comment hopens) rfl
  | @number place c tail rest value later hstart hrun hend hvalue hrest =>
    have hbytes : ∀ b ∈ textBytes (c :: tail), LineRecord.isLiteralByte b = true := by
      intro b hb
      obtain ⟨d, hd, rfl⟩ := List.mem_map.mp hb
      rw [isLiteralByte_charByte, hrun d hd]
    have hmarker : (Hidden.marker :: (Hidden.pack value ++ bytesOf later)).head?.any
        LineRecord.isLiteralByte = false := rfl
    rw [bytesOf_cons, Lexeme.bytes, List.append_assoc, List.cons_append,
      (span_append hbytes hmarker).1, ← List.cons_append, (span_append hrun hend).1]
  | keyword hplain hread hcode hspaces hrest =>
    obtain ⟨k, kc, -, hlisted⟩ := Keyword.Listed.of_read hread
    exact takeWhile_bytesOf_of_head (.keyword hplain hread hcode hspaces hrest)
      hlisted.isLiteralChar_eq_false
  | remark hplain hread =>
    obtain ⟨k, kc, -, hlisted⟩ := Keyword.Listed.of_read hread
    exact takeWhile_bytesOf_of_head (.remark hplain hread) hlisted.isLiteralChar_eq_false
  | @character place c rest later hplain hread hrest ih =>
    by_cases hliteral : Literal.isLiteralChar c = true
    · have hbyte : LineRecord.isLiteralByte (charByte c) = true := by
        rw [isLiteralByte_charByte, hliteral]
      have hbytes : bytesOf (Lexeme.brokenAt c rest ++ .character c :: later)
          = charByte c :: bytesOf later := bytesOf_brokenAt_append _ _ _
      rw [hbytes, List.takeWhile_cons_of_pos hbyte, List.takeWhile_cons_of_pos hliteral, ih]
      rfl
    · exact takeWhile_bytesOf_of_head (.character hplain hread hrest) (by simpa using hliteral)

theorem takeWhile_eq {place' : Place} {text' : Text} {lexemes' : List Lexeme}
    (h : Reading .standard place text lexemes) (h' : Reading .standard place' text' lexemes')
    (hbytes : bytesOf lexemes = bytesOf lexemes') :
    text.takeWhile Literal.isLiteralChar = text'.takeWhile Literal.isLiteralChar := by
  refine textBytes_inj_of_isLiteralChar (fun c hc => of_mem_takeWhile hc) ?_
  rw [← h.takeWhile_bytesOf, ← h'.takeWhile_bytesOf, hbytes]

/-! ## What the first byte tells -/

variable {back : Bytes}

theorem bytesOf_closed (inner : Text) (later : List Lexeme) :
    bytesOf (.quoted ('"' :: (inner ++ ['"'])) :: later) =
      0x22 :: (textBytes inner ++ 0x22 :: bytesOf later) := by
  rw [bytesOf_cons, Lexeme.bytes, textBytes, List.map_cons, List.map_append, List.cons_append,
    List.append_assoc]
  rfl

/-- A quote opens a string. -/
theorem of_quote (h : Reading .standard place text lexemes)
    (hbytes : bytesOf lexemes = 0x22 :: back) :
    ∃ inner, '"' ∉ inner ∧
      ((text = '"' :: inner ∧ back = textBytes inner) ∨
        ∃ rest later, text = '"' :: (inner ++ '"' :: rest) ∧
          back = textBytes inner ++ 0x22 :: bytesOf later ∧
          Reading .standard (place.advance ('"' :: (inner ++ ['"']))) rest later) := by
  obtain ⟨c, after, rfl, hc⟩ := h.exists_of_charByte (c := '"') hbytes
  obtain rfl : c = '"' := (charByte_eq_iff (by decide) (by decide)).mp hc
  cases h with
  | closed hinner hrest =>
    refine ⟨_, hinner, .inr ⟨_, _, rfl, ?_, hrest⟩⟩
    rw [bytesOf_closed] at hbytes
    exact (List.cons.inj hbytes).2.symm
  | unclosed hinner =>
    refine ⟨_, hinner, .inl ⟨rfl, ?_⟩⟩
    rw [bytesOf_cons, bytesOf_nil, List.append_nil] at hbytes
    exact (List.cons.inj hbytes).2.symm
  | number hstart => exact absurd rfl (ne_quote_of_startsNumber hstart)
  | keyword hplain => exact absurd rfl hplain.unquoted
  | remark hplain => exact absurd rfl hplain.unquoted
  | character hplain => exact absurd rfl hplain.unquoted

/-- A code is that of a keyword, and the keyword for remarks takes the rest of the line. -/
theorem of_code {code : UInt8} (hcode : Keyword.firstCode ≤ code)
    (h : Reading .standard place text lexemes) (hbytes : bytesOf lexemes = code :: back) :
    ∃ word rest, text = word ++ rest ∧ (∀ c ∈ word, isControl c = false) ∧
      if code = Keyword.remark then back = textBytes rest
      else ∃ place' spaces rest' later, rest = List.replicate spaces ' ' ++ rest' ∧
        place'.opensStatement = false ∧ back = bytesOf later ∧
        Reading .standard place' rest' later := by
  have hchar : ∀ {d : Char} {back' : Bytes}, bytesOf lexemes ≠ charByte d :: back' :=
    fun hback => charByte_ne_code hcode _ (List.cons.inj (hback.symm.trans hbytes)).1
  cases h with
  | done => cases hbytes
  | closed => exact absurd rfl hchar
  | unclosed => exact absurd rfl hchar
  | number => exact absurd rfl hchar
  | comment => exact absurd rfl hchar
  | character => exact absurd (bytesOf_brokenAt_append _ _ _) hchar
  | @keyword _ c tail rest code' spaces later hplain hread hremark hspaces hrest =>
    obtain ⟨k, kc, rfl, hlisted⟩ := Keyword.Listed.of_read hread
    rw [bytesOf_brokenAt_append] at hbytes
    obtain ⟨rfl, hback⟩ := List.cons.inj hbytes
    refine ⟨c :: tail, _, rfl, hlisted.isControl_eq_false, ?_⟩
    rw [if_neg hremark]
    exact ⟨_, spaces, rest, later, rfl,
      (Place.advance_keyword hlisted.mem hlisted.admits place).1, hback.symm, hrest⟩
  | @remark _ c tail rest hplain hread =>
    obtain ⟨k, kc, -, hlisted⟩ := Keyword.Listed.of_read hread
    rw [bytesOf_brokenAt_append, bytesOf_cons, bytesOf_nil, List.append_nil] at hbytes
    obtain ⟨rfl, hback⟩ := List.cons.inj hbytes
    refine ⟨c :: tail, rest, rfl, hlisted.isControl_eq_false, ?_⟩
    rw [if_pos rfl]
    exact hback.symm

/-- Any other character starts a comment, a number, or nothing else. -/
theorem of_charByte {c : Char} (hquote : c ≠ '"') (h : Reading .standard place text lexemes)
    (hbytes : bytesOf lexemes = charByte c :: back) :
    ∃ d rest, text = d :: rest ∧ charByte d = charByte c ∧
      ((d = ';' ∧ place.opensStatement = true ∧ back = textBytes rest) ∨
        (∃ tail rest' value later, rest = tail ++ rest' ∧ startsWithNumber text = true ∧
          text.takeWhile Literal.isLiteralChar = d :: tail ∧
          back = textBytes tail ++ Hidden.marker :: (Hidden.pack value ++ bytesOf later) ∧
          Reading .standard (place.advance (d :: tail)) rest' later) ∨
        (¬ (d = ';' ∧ place.opensStatement = true) ∧ startsWithNumber text = false ∧
          ∃ later, back = bytesOf later ∧ Reading .standard (place.next d) rest later)) := by
  obtain ⟨d, rest, rfl, hd⟩ := h.exists_of_charByte hbytes
  refine ⟨d, rest, rfl, hd, ?_⟩
  have hcode : ∀ {k : Keyword} {back' : Bytes}, k ∈ Table.standard.keywords →
      bytesOf lexemes ≠ k.code :: back' := fun hk hback =>
    charByte_ne_code (Table.firstCode_le_of_mem_standard hk) c
      (List.cons.inj (hbytes.symm.trans hback)).1
  cases h with
  | closed => exact absurd ((charByte_eq_iff (by decide) (by decide)).mp hd.symm) hquote
  | unclosed => exact absurd ((charByte_eq_iff (by decide) (by decide)).mp hd.symm) hquote
  | keyword hplain hread =>
    obtain ⟨k, kc, rfl, hlisted⟩ := Keyword.Listed.of_read hread
    exact absurd (bytesOf_brokenAt_append _ _ _) (hcode hlisted.mem)
  | remark hplain hread =>
    obtain ⟨k, kc, hk, hlisted⟩ := Keyword.Listed.of_read hread
    rw [bytesOf_brokenAt_append, bytesOf_cons, Lexeme.bytes, ← hk] at hcode
    exact absurd rfl (hcode hlisted.mem)
  | comment hopens =>
    rw [bytesOf_cons, bytesOf_nil, List.append_nil] at hbytes
    exact .inl ⟨rfl, hopens, (List.cons.inj hbytes).2.symm⟩
  | @number _ _ tail rest' value later hstart hrun hend hvalue hrest =>
    have htaken : (d :: (tail ++ rest')).takeWhile Literal.isLiteralChar = d :: tail := by
      rw [← List.cons_append]
      exact (span_append hrun hend).1
    refine .inr (.inl ⟨tail, rest', value, later, rfl, ?_, htaken, ?_, hrest⟩)
    · rw [startsWithNumber_cons, hstart, htaken, hvalue]
      rfl
    · rw [bytesOf_cons, Lexeme.bytes, List.append_assoc] at hbytes
      exact (List.cons.inj hbytes).2.symm
  | @character _ _ _ later hplain hread hrest =>
    rw [bytesOf_brokenAt_append] at hbytes
    exact .inr (.inr ⟨hplain.uncommented, hplain.startsWithNumber_eq_false, later,
      (List.cons.inj hbytes).2.symm, hrest⟩)

/-! ## Two statements with the same bytes -/

/-- Where the bytes have a closed string, the statement has one with the same bytes. -/
theorem of_closed {inner : Text} (hinner : '"' ∉ inner) (h : Reading .standard place text lexemes)
    (hbytes : bytesOf lexemes = 0x22 :: (textBytes inner ++ 0x22 :: back)) :
    ∃ inner' rest later, text = '"' :: (inner' ++ '"' :: rest) ∧
      textBytes inner = textBytes inner' ∧ bytesOf later = back ∧
      Reading .standard (place.advance ('"' :: (inner' ++ ['"']))) rest later := by
  obtain ⟨inner', hinner', hcase⟩ := h.of_quote hbytes
  rcases hcase with ⟨-, hback⟩ | ⟨rest, later, htext, hback, hrest⟩
  · exact absurd (hback ▸ List.mem_append_right _ List.mem_cons_self)
      (quote_not_mem_textBytes hinner')
  · obtain ⟨hsame, hlater⟩ := append_quote_inj (quote_not_mem_textBytes hinner)
      (quote_not_mem_textBytes hinner') hback
    exact ⟨inner', rest, later, htext, hsame, hlater.symm, hrest⟩

/-- Where they have one that is not closed, so has the statement. -/
theorem of_unclosed {inner : Text} (hinner : '"' ∉ inner) (h : Reading .standard place text lexemes)
    (hbytes : bytesOf lexemes = 0x22 :: textBytes inner) :
    ∃ inner', text = '"' :: inner' ∧ textBytes inner = textBytes inner' := by
  obtain ⟨inner', -, hcase⟩ := h.of_quote hbytes
  rcases hcase with ⟨htext, hback⟩ | ⟨rest, later, -, hback, -⟩
  · exact ⟨inner', htext, hback⟩
  · have hmem : 0x22 ∈ textBytes inner := by
      rw [hback]
      exact List.mem_append_right _ List.mem_cons_self
    exact absurd hmem (quote_not_mem_textBytes hinner)

/-- Where the statement starts with a number, its bytes have the number and its hidden value. -/
theorem of_number {c : Char} {tail : Text} (hnumber : startsWithNumber text = true)
    (htaken : text.takeWhile Literal.isLiteralChar = c :: tail)
    (h : Reading .standard place text lexemes) (hbytes : bytesOf lexemes = charByte c :: back) :
    ∃ rest value later, text = c :: (tail ++ rest) ∧
      back = textBytes tail ++ Hidden.marker :: (Hidden.pack value ++ bytesOf later) ∧
      Reading .standard (place.advance (c :: tail)) rest later := by
  have hliteral : Literal.isLiteralChar c = true :=
    of_mem_takeWhile (htaken ▸ List.mem_cons_self)
  have hquote : c ≠ '"' := by
    rintro rfl
    exact absurd hliteral (by decide)
  obtain ⟨d, rest, rfl, -, hcase⟩ := h.of_charByte hquote hbytes
  rcases hcase with ⟨rfl, -, -⟩ | ⟨tail', rest', value, later, rfl, -, htaken', hback, hrest⟩ |
    ⟨-, hnot, -⟩
  · -- a semicolon is not part of a number
    cases htaken
  · obtain ⟨rfl, rfl⟩ := List.cons.inj (htaken'.symm.trans htaken)
    exact ⟨rest', value, later, rfl, hback, hrest⟩
  · cases hnumber.symm.trans hnot

/-- Where it starts with neither a string nor a number nor a comment, it starts with a character of
the same byte. -/
theorem of_character {c : Char} (hquote : c ≠ '"') (hnumber : startsWithNumber text = false)
    (hcomment : ¬ (c = ';' ∧ place.opensStatement = true))
    (h : Reading .standard place text lexemes) (hbytes : bytesOf lexemes = charByte c :: back) :
    ∃ d rest later, text = d :: rest ∧ charByte d = charByte c ∧ bytesOf later = back ∧
      Reading .standard (place.next d) rest later := by
  obtain ⟨d, rest, rfl, hd, hcase⟩ := h.of_charByte hquote hbytes
  rcases hcase with ⟨rfl, hopens, -⟩ | ⟨tail, rest', value, later, -, hstart, -⟩ |
    ⟨-, -, later, hback, hrest⟩
  · have hc : c = ';' := (charByte_eq_iff (by decide) (by decide)).mp hd.symm
    exact absurd ⟨hc, hopens⟩ hcomment
  · cases hstart.symm.trans hnumber
  · exact ⟨d, rest, later, rfl, hd, hback.symm, hrest⟩

/-- **Control characters leave their mark.** A statement with the bytes of one that has no control
characters has none either, if both start at places that agree on whether a statement can start
there. -/
theorem isControl_eq_false {place' : Place} {text' : Text} {lexemes' : List Lexeme}
    (h : Reading .standard place text lexemes) (h' : Reading .standard place' text' lexemes')
    (hopens : place'.opensStatement = place.opensStatement)
    (hbytes : bytesOf lexemes' = bytesOf lexemes) (htext : ∀ c ∈ text, isControl c = false) :
    ∀ c ∈ text', isControl c = false := by
  -- the induction is on the reading without control characters; its next byte decides what the other
  -- reading goes on with
  induction h generalizing place' text' lexemes' with
  | done =>
    cases text' with
    | nil => exact fun c hc => absurd hc List.not_mem_nil
    | cons d rest =>
      rcases h'.front with ⟨back, hback⟩ | ⟨k, kc, tail, after, back, -, hback⟩
      · cases hback.symm.trans hbytes
      · cases hback.symm.trans hbytes
  | @closed place inner rest later hinner hrest ih =>
    rw [bytesOf_closed] at hbytes
    obtain ⟨inner', rest', later', rfl, hsame, hlater, hrest'⟩ := h'.of_closed hinner hbytes
    have hplace : (place'.advance ('"' :: (inner' ++ ['"']))).opensStatement =
        (place.advance ('"' :: (inner ++ ['"']))).opensStatement := by
      rw [← List.cons_append, ← List.cons_append, Place.advance_concat, Place.advance_concat]
      rfl
    simp only [List.forall_mem_cons, List.forall_mem_append] at htext ⊢
    exact ⟨rfl, isControl_of_textBytes_eq hsame htext.2.1, rfl,
      ih hrest' hplace hlater htext.2.2.2⟩
  | @unclosed place inner hinner =>
    rw [bytesOf_cons, bytesOf_nil, List.append_nil] at hbytes
    obtain ⟨inner', rfl, hsame⟩ := h'.of_unclosed hinner hbytes
    rw [List.forall_mem_cons] at htext ⊢
    exact ⟨rfl, isControl_of_textBytes_eq hsame htext.2⟩
  | @number place c tail rest value later hstart hrun hend hvalue hrest ih =>
    -- the other statement starts with the same digits, so with the same number
    have htaken : (c :: (tail ++ rest)).takeWhile Literal.isLiteralChar = c :: tail := by
      rw [← List.cons_append]
      exact (span_append hrun hend).1
    have hsame := h'.takeWhile_eq (.number hstart hrun hend hvalue hrest) hbytes
    have hnumber : startsWithNumber text' = true := by
      rw [startsWithNumber, hsame]
      show startsWithNumber (c :: (tail ++ rest)) = true
      rw [startsWithNumber_cons, hstart, htaken, hvalue]
      rfl
    rw [bytesOf_cons, Lexeme.bytes, List.append_assoc] at hbytes
    obtain ⟨rest', value', later', rfl, hback, hrest'⟩ :=
      h'.of_number hnumber (hsame.trans htaken) hbytes
    -- the hidden values need not be compared: they are equally long
    have hhidden := (List.cons.inj (List.append_cancel_left hback)).2
    have hlater := (List.append_inj hhidden (by rw [Hidden.length_pack, Hidden.length_pack])).2
    have hplace : place'.advance (c :: tail) = place.advance (c :: tail) := by
      show (place'.next c).advance tail = (place.next c).advance tail
      rw [Place.next, Place.next, hopens]
    simp only [List.forall_mem_cons, List.forall_mem_append] at htext ⊢
    exact ⟨htext.1, htext.2.1, ih hrest' (congrArg _ hplace) hlater.symm htext.2.2⟩
  | @comment place rest hplace =>
    rw [bytesOf_cons, bytesOf_nil, List.append_nil] at hbytes
    obtain ⟨d, rest', rfl, hd, hcase⟩ := h'.of_charByte (c := ';') (by decide) hbytes
    obtain rfl : d = ';' := (charByte_eq_iff (by decide) (by decide)).mp hd
    rw [List.forall_mem_cons] at htext ⊢
    refine ⟨rfl, ?_⟩
    rcases hcase with ⟨-, -, hback⟩ | ⟨tail, rest'', value, later, -, -, htaken, -⟩ | ⟨hnot, -⟩
    · exact isControl_of_textBytes_eq hback htext.2
    · cases htaken
    · exact absurd ⟨rfl, hopens.trans hplace⟩ hnot
  | @keyword place c tail rest code spaces later hplain hread hcode hspaces hrest ih =>
    obtain ⟨k, kc, rfl, hlisted⟩ := Keyword.Listed.of_read hread
    rw [bytesOf_brokenAt_append] at hbytes
    obtain ⟨word, after, rfl, hword, hcase⟩ :=
      h'.of_code (Table.firstCode_le_of_mem_standard hlisted.mem) hbytes
    rw [if_neg hcode] at hcase
    obtain ⟨place'', spaces', rest', later', rfl, hplace, hback, hrest'⟩ := hcase
    have hopens' := (Place.advance_keyword hlisted.mem hlisted.admits place).1
    simp only [List.forall_mem_cons, List.forall_mem_append] at htext ⊢
    refine ⟨hword, fun d hd => ?_, ih hrest' (hplace.trans hopens'.symm) hback.symm htext.2.2.2⟩
    rw [List.eq_of_mem_replicate hd]
    rfl
  | @remark place c tail rest hplain hread =>
    rw [bytesOf_brokenAt_append, bytesOf_cons, bytesOf_nil, List.append_nil] at hbytes
    obtain ⟨word, after, rfl, hword, hback⟩ := h'.of_code (by decide) hbytes
    rw [if_pos rfl] at hback
    simp only [List.forall_mem_cons, List.forall_mem_append] at htext ⊢
    exact ⟨hword, isControl_of_textBytes_eq hback htext.2.2⟩
  | @character place c rest later hplain hread hrest ih =>
    have hnumber : startsWithNumber text' = false := by
      rw [startsWithNumber, h'.takeWhile_eq (.character hplain hread hrest) hbytes]
      exact hplain.startsWithNumber_eq_false
    rw [bytesOf_brokenAt_append] at hbytes
    obtain ⟨d, rest', later', rfl, hd, hlater, hrest'⟩ :=
      h'.of_character hplain.unquoted hnumber (hopens ▸ hplain.uncommented) hbytes
    rw [List.forall_mem_cons] at htext ⊢
    exact ⟨(isControl_eq_of_charByte_eq hd).trans htext.1,
      ih hrest' (Place.opensStatement_next hopens hd) hlater htext.2⟩

end Reading

end SpectrumBasic
