import SpectrumBasic.Proofs.EncodedLines

/-!
# Statements behind one another

A colon ends a statement. What stands in front of it is read as if the line ended there, and what
stands behind it as if a line started there (`Reading.append_colon`). For nothing that a scan looks at
goes across a colon: neither a keyword nor a run of digits has one, no letter or digit is one, and the
place behind it is that of a start.

Three lexemes take a colon in with everything else up to the end of the line: a comment, a remark, and
a string without its closing quote (`Lexeme.runsOn`). Each of them is the last of its statement.
-/

namespace SpectrumBasic

/-- Whether a lexeme takes in whatever follows it on the line. A string does so unless it has both of
its quotes. -/
def Lexeme.runsOn : Lexeme → Bool
  | comment _ | remark .. => true
  | quoted text => text.count '"' < 2
  | _ => false

/-- Whether a statement takes in whatever follows it on the line, as its last lexeme does. -/
def runsOn (text : Text) : Bool := (scan .standard .start text).getLast?.any Lexeme.runsOn

/-! ## What a colon ends -/

section Colon

variable {p : Char → Bool} (hp : p ':' = false)

include hp

/-- A run of characters ends at a colon as at the end of a text. -/
theorem takeWhile_append_colon (front back : Text) :
    (front ++ ':' :: back).takeWhile p = front.takeWhile p := by
  induction front with
  | nil =>
    rw [List.nil_append, List.takeWhile_cons, hp]
    rfl
  | cons c front ih => rw [List.cons_append, List.takeWhile_cons, List.takeWhile_cons, ih]

theorem any_head?_append_colon (front back : Text) :
    (front ++ ':' :: back).head?.any p = front.head?.any p := by
  cases front with
  | nil => exact hp
  | cons c front => rfl

end Colon

namespace Lexeme

variable {place : Place} {c : Char} {rest : Text} (back : Text)

theorem startsNumber_append_colon :
    startsNumber c (rest ++ ':' :: back) = startsNumber c rest := by
  unfold startsNumber
  rw [any_head?_append_colon (by decide)]

theorem brokenAt_append_colon : brokenAt c (rest ++ ':' :: back) = brokenAt c rest := by
  unfold brokenAt
  rw [startsNumber_append_colon, ← List.cons_append, takeWhile_append_colon (by decide)]

theorem Plain.append_colon (h : Plain place c rest) : Plain place c (rest ++ ':' :: back) := by
  refine ⟨h.unquoted, ?_, h.uncommented⟩
  intro hstart
  rw [startsNumber_append_colon] at hstart
  rw [← List.cons_append, takeWhile_append_colon (by decide)]
  exact h.unnumbered hstart

end Lexeme

/-! ## Keywords in front of a colon -/

theorem Keyword.Admits.colon_not_mem {k : Keyword} (hk : k ∈ Table.standard.keywords)
    {afterLetter : Bool} {word rest : Text} (h : k.Admits afterLetter word rest) : ':' ∉ word := by
  intro hmem
  have hspelling : ':' ∈ k.spelling := by
    rw [← Table.upper_of_mem_standard hk, ← h.spelled]
    exact List.mem_map_of_mem hmem
  exact absurd (Table.isSpellingChar_of_mem_standard hk hspelling) (by decide)

/-- A keyword fits in front of a colon as at the end of a text. -/
theorem Keyword.fits_append_colon {k : Keyword} (hk : k ∈ Table.standard.keywords)
    (afterLetter : Bool) (text back : Text) :
    k.fits afterLetter (text ++ ':' :: back) = k.fits afterLetter text := by
  rw [Bool.eq_iff_iff, fits_iff, fits_iff]
  constructor
  · rintro ⟨word, rest, htext, hadmits⟩
    have hcolon := hadmits.colon_not_mem hk
    rcases List.append_eq_append_iff.mp htext with ⟨mid, rfl, hback⟩ | ⟨mid, rfl, rfl⟩
    · -- the word would go on behind the text, where the colon is
      cases mid with
      | nil =>
        obtain rfl : ':' :: back = rest := hback
        exact ⟨text, [], (List.append_nil text).symm, by simpa using hadmits.spelled,
          hadmits.before, fun _ => rfl⟩
      | cons d mid =>
        obtain rfl : ':' = d := (List.cons.inj hback).1
        exact absurd (List.mem_append_right text List.mem_cons_self) hcolon
    · refine ⟨word, mid, rfl, hadmits.spelled, hadmits.before, fun halpha => ?_⟩
      rw [← any_head?_append_colon (by decide) mid back]
      exact hadmits.after halpha
  · rintro ⟨word, rest, rfl, hadmits⟩
    refine ⟨word, rest ++ ':' :: back, List.append_assoc word rest _, hadmits.spelled,
      hadmits.before, fun halpha => ?_⟩
    rw [any_head?_append_colon (by decide)]
    exact hadmits.after halpha

/-- The same keyword is read in front of a colon as at the end of a text. -/
theorem Table.read_append_colon (afterLetter : Bool) (text back : Text) :
    standard.read afterLetter (text ++ ':' :: back) = standard.read afterLetter text := by
  have hfits : standard.keywords.filter (·.fits afterLetter (text ++ ':' :: back)) =
      standard.keywords.filter (·.fits afterLetter text) :=
    List.filter_congr fun k hk => Keyword.fits_append_colon hk afterLetter text back
  unfold read longest?
  rw [hfits]
  cases hfound : (standard.keywords.filter (·.fits afterLetter text)).maxOn?
      (·.spelling.length) with
  | none => rfl
  | some k =>
    -- the keyword fits the text in front, so that its word ends there
    obtain ⟨word, rest, rfl, hadmits⟩ :=
      Keyword.fits_iff.mp (List.mem_filter.mp (List.maxOn?_mem hfound)).2
    have hlength : k.spelling.length ≤ (word ++ rest).length := by
      rw [List.length_append, hadmits.length_eq]
      omega
    simp only [List.take_append_of_le_length hlength]

/-- No keyword starts with a colon. -/
theorem Table.read_colon (afterLetter : Bool) (back : Text) :
    standard.read afterLetter (':' :: back) = .ok none := by
  have hnothing : standard.read afterLetter [] = .ok none := by
    apply read_eq_none_iff.mpr
    intro k hk
    rw [Bool.eq_false_iff]
    intro hfits
    obtain ⟨word, rest, htext, hadmits⟩ := Keyword.fits_iff.mp hfits
    have hlength := hadmits.length_eq
    rw [(List.append_eq_nil_iff.mp htext.symm).1] at hlength
    exact consistent_standard.spelled k hk (List.length_eq_zero_iff.mp hlength.symm)
  rw [← hnothing]
  exact read_append_colon afterLetter [] back

/-! ## Readings -/

theorem Reading.colon {place : Place} {back : Text} {later : List Lexeme}
    (h : Reading .standard .start back later) :
    Reading .standard place (':' :: back) (.character ':' :: later) := by
  have hplain : Lexeme.Plain place ':' back :=
    ⟨by decide, fun hstart => absurd hstart Bool.false_ne_true, fun hc => absurd hc.1 (by decide)⟩
  exact .character hplain (Table.read_colon place.afterLetter back) h

/-- What is true of the last of some lexemes is true of the last of those behind the first. -/
theorem getLast?_any_of_append {p : Lexeme → Bool} (earlier : List Lexeme) {later : List Lexeme}
    (h : (earlier ++ later).getLast?.any p = false) : later.getLast?.any p = false := by
  rw [List.getLast?_append] at h
  cases hlast : later.getLast? with
  | none => rfl
  | some lexeme =>
    rw [hlast] at h
    exact h

/-- **A colon separates readings.** A statement that does not run on is read in front of a colon as by
itself, and what is behind the colon is read as from the start. -/
theorem Reading.append_colon {place : Place} {front back : Text} {earlier later : List Lexeme}
    (h : Reading .standard place front earlier)
    (hends : earlier.getLast?.any Lexeme.runsOn = false)
    (hback : Reading .standard .start back later) :
    Reading .standard place (front ++ ':' :: back) (earlier ++ .character ':' :: later) := by
  induction h with
  | done => exact .colon hback
  | @closed place inner rest following hinner hrest ih =>
    have hrest' := ih (getLast?_any_of_append [_] hends)
    rw [List.cons_append, List.append_assoc, List.cons_append]
    exact .closed hinner hrest'
  | @unclosed place inner hinner =>
    -- a string of one quote runs on
    have hquotes : (Lexeme.quoted ('"' :: inner)).runsOn = true := by
      rw [Lexeme.runsOn, List.count_cons_self, List.count_eq_zero_of_not_mem hinner]
      decide
    exact absurd (hquotes.symm.trans hends) (by decide)
  | @number place c tail rest value following hstart hrun hend hvalue hrest ih =>
    have hrest' := ih (getLast?_any_of_append [_] hends)
    rw [List.cons_append, List.append_assoc]
    refine .number ?_ hrun ?_ hvalue hrest'
    · rw [← List.append_assoc, Lexeme.startsNumber_append_colon]
      exact hstart
    · rw [any_head?_append_colon (by decide)]
      exact hend
  | comment hopens => exact Bool.noConfusion hends
  | @keyword place c tail rest code spaces following hplain hread hcode hspaces hrest ih =>
    have hrest' := ih (getLast?_any_of_append [_] (getLast?_any_of_append _ hends))
    have hplain' := hplain.append_colon back
    have hread' := hread
    rw [← Table.read_append_colon _ _ back] at hread'
    rw [← Lexeme.brokenAt_append_colon back]
    simp only [List.cons_append, List.append_assoc] at hplain' hread' ⊢
    refine .keyword hplain' hread' hcode ?_ hrest'
    intro hspace
    cases rest with
    | nil => exact absurd (Option.some.inj hspace) (by decide)
    | cons d rest => exact hspaces hspace
  | @remark place c tail rest hplain hread =>
    exact Bool.noConfusion (getLast?_any_of_append _ hends)
  | @character place c rest following hplain hread hrest ih =>
    have hrest' := ih (getLast?_any_of_append [_] (getLast?_any_of_append _ hends))
    have hread' := hread
    rw [← Table.read_append_colon _ _ back] at hread'
    rw [← Lexeme.brokenAt_append_colon back, List.append_assoc]
    exact .character (hplain.append_colon back) hread' hrest'

/-! ## Payloads -/

/-- **Statements with a colon between them are stored one by one.** If the first does not run on, its
bytes, the colon and the payload of what follows make the payload of the line. -/
theorem colon_separates_statements {front : Text} (hfront : runsOn front = false) (back : Text) :
    ∃ before after,
      (tokenize .standard false front).payload = .ok (before ++ [lineEnd]) ∧
      (tokenize .standard false back).payload = .ok after ∧
      (tokenize .standard false (front ++ ':' :: back)).payload = .ok (before ++ 0x3A :: after) := by
  refine ⟨bytesOf (scan .standard .start front), payloadOf back, tokenize_lenient front,
    tokenize_lenient back, ?_⟩
  have hscan : scan .standard .start (front ++ ':' :: back) =
      scan .standard .start front ++ .character ':' :: scan .standard .start back :=
    ((reading_scan Table.consistent_standard .start front).append_colon hfront
      (reading_scan Table.consistent_standard .start back)).scan_eq
  have hcolon : (Lexeme.character ':').bytes = [0x3A] := by decide
  rw [tokenize_lenient, payloadOf, payloadOf, hscan, bytesOf, List.flatMap_append,
    List.flatMap_cons, hcolon]
  simp [bytesOf]

/-- The colon in a string separates nothing, and a semicolon behind the other one opens a comment. -/
theorem colon_separates_comment :
    runsOn "LET a$=\"x:y\"".toList = false ∧
      (tokenize .standard false "LET a$=\"x:y\": ;REM".toList).payload =
        .ok ([0xF1, 0x61, 0x24, 0x3D, 0x22, 0x78, 0x3A, 0x79, 0x22] ++ 0x3A ::
          [0x20, 0x3B, 0x52, 0x45, 0x4D, lineEnd]) := by
  have hends : runsOn "LET a$=\"x:y\"".toList = false := by decide +kernel
  have hfront : payloadOf "LET a$=\"x:y\"".toList =
      [0xF1, 0x61, 0x24, 0x3D, 0x22, 0x78, 0x3A, 0x79, 0x22] ++ [lineEnd] := by decide +kernel
  have hback : payloadOf " ;REM".toList = [0x20, 0x3B, 0x52, 0x45, 0x4D, lineEnd] := by
    decide +kernel
  obtain ⟨before, after, hbefore, hafter, hline⟩ := colon_separates_statements hends " ;REM".toList
  rw [tokenize_lenient, Except.ok.injEq, hfront] at hbefore
  rw [tokenize_lenient, Except.ok.injEq, hback] at hafter
  rw [List.append_cancel_right hbefore, hafter]
  exact ⟨hends, hline⟩

end SpectrumBasic
