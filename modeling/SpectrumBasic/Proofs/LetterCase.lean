import Mathlib.Data.List.Forall2
import SpectrumBasic.Proofs.Scanning
import SpectrumBasic.Source.Encoder

/-!
# Letter case

A statement means the same in either letter case. Two readers that go through texts which differ only in
letter case stay in step, and that is said by one equation: reading a text in upper case finds the
lexemes of the text, put in upper case (`scan_upper`). It holds for each part of the scanner, from the
keyword that is read (`Table.read_upper`) up.

The bytes of a lexeme and of the same lexeme in upper case differ in letters of its literal text only
(`Lexeme.bytes_upper`), and neither is refused unless the other is.
-/

namespace SpectrumBasic

/-! ## Characters -/

/-- Whether a property of characters does not depend on letter case. -/
def Caseless (p : Char → Bool) : Prop := ∀ c, p c.toUpper = p c

/-- What characters that differ only in letter case agree on does not depend on it. -/
theorem Caseless.of_toUpper_eq {p : Char → Bool}
    (h : ∀ {c d : Char}, c.toUpper = d.toUpper → p c = p d) : Caseless p :=
  fun c => h (toUpper_toUpper c)

theorem caseless_isAlpha : Caseless Char.isAlpha := .of_toUpper_eq isAlpha_eq_of_toUpper_eq

theorem caseless_isDigit : Caseless Char.isDigit := .of_toUpper_eq isDigit_eq_of_toUpper_eq

theorem caseless_isAlphanum : Caseless Char.isAlphanum := by
  intro c
  rw [Char.isAlphanum, Char.isAlphanum, caseless_isAlpha c, caseless_isDigit c]

theorem toUpper_eq_iff {c x : Char} (hx : x.isAlpha = false) : c.toUpper = x ↔ c = x := by
  refine ⟨eq_of_toUpper_eq hx, ?_⟩
  rintro rfl
  rcases eq_or_isAlpha_of_toUpper_eq (toUpper_toUpper c) with heq | ⟨-, halpha⟩
  · exact heq
  · rw [hx] at halpha
    cases halpha

theorem decide_toUpper_eq {x : Char} (hx : x.isAlpha = false) (c : Char) :
    decide (c.toUpper = x) = decide (c = x) := decide_eq_decide.mpr (toUpper_eq_iff hx)

theorem caseless_isLiteralChar : Caseless Literal.isLiteralChar := by
  intro c
  show (c.toUpper.isDigit || decide (c.toUpper = '.')) = (c.isDigit || decide (c = '.'))
  rw [caseless_isDigit c, decide_toUpper_eq (by decide)]

/-! ## Texts -/

namespace Text

theorem takeWhile_upper {p : Char → Bool} (hp : Caseless p) (text : Text) :
    (upper text).takeWhile p = upper (text.takeWhile p) := by
  rw [upper, List.takeWhile_map, show p ∘ Char.toUpper = p from funext hp]
  rfl

theorem dropWhile_upper {p : Char → Bool} (hp : Caseless p) (text : Text) :
    (upper text).dropWhile p = upper (text.dropWhile p) := by
  rw [upper, List.dropWhile_map, show p ∘ Char.toUpper = p from funext hp]
  rfl

theorem head?_upper_any {p : Char → Bool} (hp : Caseless p) (text : Text) :
    (upper text).head?.any p = text.head?.any p := by
  cases text with
  | nil => rfl
  | cons c rest => exact hp c

theorem take_upper (n : Nat) (text : Text) : (upper text).take n = upper (text.take n) :=
  List.map_take.symm

theorem drop_upper (n : Nat) (text : Text) : (upper text).drop n = upper (text.drop n) :=
  List.map_drop.symm

theorem upper_of_isLiteralChar {run : Text} (h : ∀ c ∈ run, Literal.isLiteralChar c = true) :
    upper run = run := by
  have hsame : ∀ c ∈ run, c.toUpper = c := by
    intro c hc
    have hbounds := bounds_of_isLiteralChar (h c hc)
    rw [← Char.toNat_inj, toNat_toUpper, if_neg (by omega)]
  rw [upper, List.map_congr_left hsame, List.map_id']

end Text

/-- A place does not depend on the letter case of what stands before it. -/
theorem Place.advance_upper (place : Place) (text : Text) :
    place.advance text.upper = place.advance text := by
  have hnext : ∀ (place : Place) (c : Char), place.next c.toUpper = place.next c := by
    intro place c
    rw [next, next, caseless_isAlpha c]
    congr 2
    · exact decide_toUpper_eq (by decide) c
    · rw [decide_toUpper_eq (by decide)]
  rw [advance, advance, Text.upper, List.foldl_map]
  simp only [hnext]

/-! ## Keywords -/

/-- What follows a spelling in upper case is what follows it, in upper case. -/
theorem Text.afterSpelling?_upper (spelling text : Text) :
    Text.afterSpelling? spelling text.upper = (Text.afterSpelling? spelling text).map Text.upper := by
  fun_induction Text.afterSpelling? spelling text with
  | case1 text => rfl
  | case2 s spelling => rfl
  | case3 s spelling c text hc ih =>
    show (if c.toUpper.toUpper = s.toUpper then afterSpelling? spelling (upper text) else none) = _
    rw [toUpper_toUpper, if_pos hc, ih]
  | case4 s spelling c text hc =>
    show (if c.toUpper.toUpper = s.toUpper then afterSpelling? spelling (upper text) else none) = _
    rw [toUpper_toUpper, if_neg hc]
    rfl

theorem Keyword.fits_upper (k : Keyword) (afterLetter : Bool) (text : Text) :
    k.fits afterLetter text.upper = k.fits afterLetter text := by
  rw [fits, fits, Text.afterSpelling?_upper]
  cases Text.afterSpelling? k.spelling text with
  | none => rfl
  | some rest =>
    simp only [Option.map_some, Text.head?_upper_any caseless_isAlphanum]

namespace Table

/-- The keyword read in a text in upper case is the one read in the text. -/
theorem read_upper (table : Table) (afterLetter : Bool) (text : Text) :
    table.read afterLetter text.upper =
      (table.read afterLetter text).map (Option.map fun found => (found.1.upper, found.2)) := by
  have hlongest : table.longest? afterLetter text.upper = table.longest? afterLetter text := by
    simp only [longest?, Keyword.fits_upper]
  rw [read, read, hlongest]
  cases table.longest? afterLetter text with
  | none => rfl
  | some k =>
    cases hempty : k.spelling.isEmpty with
    | true => simp only [hempty, if_true, Except.map]
    | false =>
      simp only [hempty, Bool.false_eq_true, if_false, Except.map, Option.map_some, Text.take_upper]

/-- Without empty spellings, reading finds a keyword or nothing. -/
theorem read_ne_error {table : Table} (hspelled : ∀ k ∈ table.keywords, k.spelling ≠ [])
    (afterLetter : Bool) (text : Text) (fault : BlankSpelling) :
    table.read afterLetter text ≠ .error fault := by
  rw [read]
  cases hfound : table.longest? afterLetter text with
  | none =>
    intro h
    cases h
  | some k =>
    have hmem := (List.mem_filter.mp (List.maxOn?_mem hfound)).1
    have hempty : k.spelling.isEmpty = false := List.isEmpty_eq_false_iff.mpr (hspelled k hmem)
    simp only [hempty, Bool.false_eq_true, if_false]
    intro h
    cases h

end Table

/-! ## Lexemes -/

namespace Lexeme

/-- A lexeme in upper case. -/
def upper : Lexeme → Lexeme
  | quoted text => quoted text.upper
  | number literal value => number literal value
  | brokenRun run => brokenRun run
  | comment text => comment text.upper
  | keyword spelling code spaces => keyword spelling.upper code spaces
  | remark spelling text => remark spelling.upper text.upper
  | character c => character c.toUpper
  | blankSpelling => blankSpelling

/-- A lexeme takes up as many characters in upper case, and leaves the same place behind it. -/
theorem source_upper (lexeme : Lexeme) :
    lexeme.upper.source.length = lexeme.source.length ∧
      ∀ place : Place, place.advance lexeme.upper.source = place.advance lexeme.source := by
  have hupper : lexeme.upper.source = lexeme.source ∨
      lexeme.upper.source = lexeme.source.upper := by
    cases lexeme with
    | number literal value => exact .inl rfl
    | keyword spelling code spaces =>
      refine .inr ?_
      show spelling.upper ++ List.replicate spaces ' ' = (spelling ++ List.replicate spaces ' ').upper
      rw [Text.upper_append, Text.upper, Text.upper, List.map_replicate]
      rfl
    | remark spelling text => exact .inr (Text.upper_append spelling text).symm
    | _ => exact .inr rfl
  rcases hupper with hsame | hupper
  · exact ⟨by rw [hsame], fun place => by rw [hsame]⟩
  · exact ⟨by rw [hupper, Text.length_upper], fun place => by rw [hupper, Place.advance_upper]⟩

/-- So do several. -/
theorem flatMap_source_upper (lexemes : List Lexeme) :
    ((lexemes.map upper).flatMap source).length = (lexemes.flatMap source).length ∧
      ∀ place : Place, place.advance ((lexemes.map upper).flatMap source) =
        place.advance (lexemes.flatMap source) := by
  induction lexemes with
  | nil => exact ⟨rfl, fun _ => rfl⟩
  | cons lexeme later ih =>
    rw [List.map_cons, List.flatMap_cons, List.flatMap_cons]
    refine ⟨?_, fun place => ?_⟩
    · rw [List.length_append, List.length_append, lexeme.source_upper.1, ih.1]
    · rw [Place.advance_append, Place.advance_append, lexeme.source_upper.2, ih.2]

/-- A lexeme is refused in upper case exactly if it is refused, for the same reason. -/
theorem refusal?_upper (strict : Bool) (lexeme : Lexeme) :
    lexeme.upper.refusal? strict = lexeme.refusal? strict := by
  cases lexeme <;> rfl

end Lexeme

/-! ## Scanning -/

section Scanning

variable (table : Table) (place : Place)

theorem Lexeme.quotedAt_upper (rest : Text) :
    quotedAt rest.upper = Text.upper (quotedAt rest) := by
  have hquote : Caseless (fun c => decide (c ≠ '"')) := fun c =>
    decide_eq_decide.mpr (not_congr (toUpper_eq_iff (by decide)))
  rw [quotedAt, quotedAt, Text.takeWhile_upper hquote, Text.dropWhile_upper hquote, Text.take_upper,
    ← Text.upper_append]
  rfl

theorem Lexeme.startsNumber_upper (c : Char) (rest : Text) :
    startsNumber c.toUpper rest.upper = startsNumber c rest := by
  rw [startsNumber, startsNumber, caseless_isDigit c, decide_toUpper_eq (by decide),
    Text.head?_upper_any caseless_isDigit]

/-- The word at a place in upper case is the word there, in upper case. -/
theorem Lexeme.wordAt_upper (c : Char) (rest : Text) :
    wordAt table place c.toUpper rest.upper = (wordAt table place c rest).upper := by
  have hcons : c.toUpper :: rest.upper = Text.upper (c :: rest) := rfl
  have hread := table.read_upper place.afterLetter (c :: rest)
  rw [wordAt, wordAt]
  by_cases hcomment : c = ';' ∧ place.opensStatement = true
  · have hupper : c.toUpper = ';' ∧ place.opensStatement = true :=
      ⟨(toUpper_eq_iff (by decide)).mpr hcomment.1, hcomment.2⟩
    rw [if_pos hcomment, if_pos hupper]
    rfl
  · have hupper : ¬ (c.toUpper = ';' ∧ place.opensStatement = true) := fun h =>
      hcomment ⟨(toUpper_eq_iff (by decide)).mp h.1, h.2⟩
    rw [if_neg hcomment, if_neg hupper]
    rw [hcons, hread]
    rcases table.read place.afterLetter (c :: rest) with fault | (_ | ⟨spelling, code⟩)
    · rfl
    · rfl
    · have hspace : Caseless (fun d => decide (d = ' ')) := decide_toUpper_eq (by decide)
      simp only [Except.map, Option.map_some, Text.length_upper, Text.drop_upper,
        Text.takeWhile_upper hspace]
      split <;> rfl

/-- What stands at a place in upper case is what stands there, in upper case. -/
theorem Lexeme.readAt_upper (c : Char) (rest : Text) :
    readAt table place c.toUpper rest.upper = (readAt table place c rest).map upper := by
  -- the run of digits and points is the same in both
  have hrun : (c.toUpper :: rest.upper).takeWhile Literal.isLiteralChar =
      (c :: rest).takeWhile Literal.isLiteralChar := by
    show (Text.upper (c :: rest)).takeWhile Literal.isLiteralChar = _
    rw [Text.takeWhile_upper caseless_isLiteralChar]
    exact Text.upper_of_isLiteralChar fun d hd => List.all_eq_true.mp List.all_takeWhile d hd
  rw [readAt, readAt, startsNumber_upper, hrun, quotedAt_upper, wordAt_upper]
  by_cases hquote : c = '"'
  · rw [if_pos hquote, if_pos ((toUpper_eq_iff (by decide)).mpr hquote)]
    rfl
  · rw [if_neg hquote, if_neg (fun h => hquote ((toUpper_eq_iff (by decide)).mp h))]
    cases startsNumber c rest with
    | false => rfl
    | true =>
      simp only [if_true]
      cases Literal.value? ((c :: rest).takeWhile Literal.isLiteralChar) with
      | none => rfl
      | some value => rfl

/-- **Scanning commutes with upper case.** -/
theorem scan_upper (text : Text) :
    scan table place text.upper = (scan table place text).map Lexeme.upper := by
  fun_induction scan table place text with
  | case1 place => exact scan_nil table place
  | case2 place c rest found taken ih =>
    obtain ⟨hlength, hadvance⟩ := Lexeme.flatMap_source_upper found
    show scan table place (c.toUpper :: Text.upper rest) = _
    rw [scan]
    simp only [Lexeme.readAt_upper]
    rw [hlength, hadvance, Text.drop_upper, ih, List.map_append]

end Scanning

/-! ## Empty spellings -/

section Spelled

variable {table : Table} (hspelled : ∀ k ∈ table.keywords, k.spelling ≠ [])

include hspelled

/-- Without empty spellings, no word is blank. -/
theorem Lexeme.wordAt_ne_blankSpelling (place : Place) (c : Char) (rest : Text) :
    wordAt table place c rest ≠ blankSpelling := by
  rw [wordAt]
  split
  · exact Lexeme.noConfusion
  · split
    · rename_i fault hread
      exact absurd hread (Table.read_ne_error hspelled _ _ fault)
    · exact Lexeme.noConfusion
    · dsimp only
      split <;> exact Lexeme.noConfusion

/-- So a scan comes to none. -/
theorem blankSpelling_not_mem_scan (place : Place) (text : Text) :
    .blankSpelling ∉ scan table place text := by
  fun_induction scan table place text with
  | case1 place => exact List.not_mem_nil
  | case2 place c rest found taken ih =>
    have hfound : .blankSpelling ∉ found := by
      have hword := (Lexeme.wordAt_ne_blankSpelling hspelled place c rest).symm
      rcases Lexeme.readAt_cases table place c rest with ⟨-, hread⟩ | ⟨value, -, -, hread⟩ | hread
      · simp [found, hread]
      · simp [found, hread]
      · have hbroken : .blankSpelling ∉ Lexeme.brokenAt c rest := by
          unfold Lexeme.brokenAt
          split <;> simp
        simp [found, hread, hbroken, hword]
    rw [List.mem_append, not_or]
    exact ⟨hfound, ih⟩

end Spelled

/-! ## Bytes -/

/-- The byte of a small letter as that of the capital, and any other byte as it is. -/
def upperByte (b : UInt8) : UInt8 := if 0x61 ≤ b ∧ b ≤ 0x7A then b - 0x20 else b

/-- Whether two bytes are the codes of a capital letter and of its small letter. -/
def IsCapitalOf (capital small : UInt8) : Prop :=
  0x41 ≤ capital ∧ capital ≤ 0x5A ∧ small = capital + 0x20

/-- Whether two bytes are the same but for letter case. -/
def SameButCase (a b : UInt8) : Prop := a = b ∨ IsCapitalOf a b ∨ IsCapitalOf b a

/-- The code point of a byte in upper case. -/
theorem toNat_upperByte (b : UInt8) :
    (upperByte b).toNat =
      if 97 ≤ b.toNat ∧ b.toNat ≤ 122 then b.toNat - 32 else b.toNat := by
  have hlow : (0x61 : UInt8).toNat = 97 := rfl
  have hhigh : (0x7A : UInt8).toNat = 122 := rfl
  have hshift : (0x20 : UInt8).toNat = 32 := rfl
  unfold upperByte
  simp only [UInt8.le_iff_toNat_le, hlow, hhigh]
  split
  · rename_i hsmall
    have hle : (0x20 : UInt8) ≤ b := by
      rw [UInt8.le_iff_toNat_le, hshift]
      omega
    rw [UInt8.toNat_sub_of_le b 0x20 hle, hshift]
  · rfl

/-- Bytes are the same in upper case only if they are the same but for letter case. -/
theorem sameButCase_of_upperByte_eq {a b : UInt8} (h : upperByte a = upperByte b) :
    SameButCase a b := by
  have hnat := congrArg UInt8.toNat h
  rw [toNat_upperByte, toNat_upperByte] at hnat
  have hcapital : ∀ a b : UInt8, a.toNat + 32 = b.toNat → 65 ≤ a.toNat → a.toNat ≤ 90 →
      IsCapitalOf a b := by
    intro a b hsum hlow hhigh
    refine ⟨UInt8.le_iff_toNat_le.mpr hlow, UInt8.le_iff_toNat_le.mpr hhigh, ?_⟩
    apply UInt8.toNat_inj.mp
    have hshift : (0x20 : UInt8).toNat = 32 := rfl
    rw [UInt8.toNat_add, hshift]
    omega
  rw [SameButCase, ← UInt8.toNat_inj]
  split at hnat <;> split at hnat
  · exact .inl (by omega)
  · exact .inr (.inr (hcapital b a (by omega) (by omega) (by omega)))
  · exact .inr (.inl (hcapital a b (by omega) (by omega) (by omega)))
  · exact .inl hnat

/-- A character in upper case is stored as its byte in upper case. -/
theorem charByte_toUpper (c : Char) : charByte c.toUpper = upperByte (charByte c) := by
  apply UInt8.toNat_inj.mp
  rw [toNat_upperByte, toNat_charByte, toNat_charByte, toNat_toUpper]
  by_cases hlow : c.toNat < 0x80
  · rw [if_pos hlow]
    split
    · rw [if_pos (by omega)]
    · rfl
  · -- beyond ASCII there is no letter case
    have hsame : c.toUpper = c := by
      rw [← Char.toNat_inj, toNat_toUpper, if_neg (by omega)]
    rw [if_neg hlow, hsame, if_neg (by omega : ¬ (97 ≤ c.toNat ∧ c.toNat ≤ 122)), if_neg hlow]
    split <;> rfl

theorem textBytes_upper (text : Text) : textBytes text.upper = (textBytes text).map upperByte := by
  rw [textBytes, textBytes, Text.upper, List.map_map, List.map_map]
  exact List.map_congr_left fun c _ => charByte_toUpper c

theorem upperByte_upperByte (b : UInt8) : upperByte (upperByte b) = upperByte b := by
  apply UInt8.toNat_inj.mp
  rw [toNat_upperByte, toNat_upperByte]
  split
  · rw [if_neg (by omega)]
  · rfl

/-- The bytes of a lexeme are the same in either letter case, but for letter case. -/
theorem Lexeme.bytes_upper (lexeme : Lexeme) :
    lexeme.upper.bytes.map upperByte = lexeme.bytes.map upperByte := by
  have htext : ∀ text : Text, (textBytes text.upper).map upperByte = (textBytes text).map upperByte := by
    intro text
    rw [textBytes_upper, List.map_map]
    exact List.map_congr_left fun b _ => upperByte_upperByte b
  cases lexeme with
  | quoted text | comment text => exact htext text
  | remark spelling text => exact congrArg (upperByte Keyword.remark :: ·) (htext text)
  | character c => exact htext [c]
  | number literal value | brokenRun run | keyword spelling code spaces | blankSpelling => rfl

/-! ## Statements -/

section Statement

variable (table : Table) (strict : Bool) (text : Text)

theorem findSome?_refusal?_scan_upper :
    (scan table .start text.upper).findSome? (Lexeme.refusal? strict) =
      (scan table .start text).findSome? (Lexeme.refusal? strict) := by
  rw [scan_upper, List.findSome?_map]
  congr 1
  funext lexeme
  exact lexeme.refusal?_upper strict

/-- Those before a refused one are the same in upper case. -/
theorem takeWhile_accepted_scan_upper :
    (scan table .start text.upper).takeWhile (fun lexeme => (lexeme.refusal? strict).isNone) =
      ((scan table .start text).takeWhile fun lexeme => (lexeme.refusal? strict).isNone).map
        Lexeme.upper := by
  rw [scan_upper, List.takeWhile_map]
  congr 2
  funext lexeme
  exact congrArg Option.isNone (lexeme.refusal?_upper strict)

/-- The bytes of a statement are the same in upper case, but for letter case. -/
theorem flatMap_bytes_scan_upper :
    ((scan table .start text.upper).flatMap Lexeme.bytes).map upperByte =
      ((scan table .start text).flatMap Lexeme.bytes).map upperByte := by
  rw [scan_upper, List.flatMap_map, List.map_flatMap, List.map_flatMap]
  congr 1
  funext lexeme
  exact lexeme.bytes_upper

/-- A statement in upper case has the payload of the statement, but for letter case, or it is refused at
the same place for the same reason. -/
theorem payload_tokenize_upper :
    (tokenize table strict text.upper).payload.map (List.map upperByte) =
      (tokenize table strict text).payload.map (List.map upperByte) := by
  rw [tokenize, tokenize]
  simp only [findSome?_refusal?_scan_upper, takeWhile_accepted_scan_upper]
  cases (scan table .start text).findSome? (Lexeme.refusal? strict) with
  | some refusal => simp only [Except.map, (Lexeme.flatMap_source_upper _).1]
  | none => simp only [Except.map, List.map_append, flatMap_bytes_scan_upper]

end Statement

/-- Without empty spellings, only a number is refused. -/
theorem exists_of_payload_eq_error {table : Table}
    (hspelled : ∀ k ∈ table.keywords, k.spelling ≠ []) {strict : Bool} {text : Text}
    {refused : Refusal × Nat} (h : (tokenize table strict text).payload = .error refused) :
    ∃ literal position, refused = (.unsupportedNumber literal, position) := by
  rw [tokenize] at h
  cases hrefusal : (scan table .start text).findSome? (Lexeme.refusal? strict) with
  | none =>
    rw [hrefusal] at h
    cases h
  | some refusal =>
    rw [hrefusal] at h
    obtain ⟨lexeme, hmem, hlexeme⟩ := List.exists_of_findSome?_eq_some hrefusal
    cases lexeme with
    | blankSpelling => exact absurd hmem (blankSpelling_not_mem_scan hspelled .start text)
    | number literal value =>
      simp only [Lexeme.refusal?] at hlexeme
      split at hlexeme
      · obtain rfl := Option.some.inj hlexeme
        exact ⟨literal, _, (Except.error.inj h).symm⟩
      · cases hlexeme
    | _ => cases hlexeme

/-- Lists that are the same in upper case are the same but for letter case, byte by byte. -/
theorem forall₂_sameButCase {bytes bytes' : Bytes} (h : bytes.map upperByte = bytes'.map upperByte) :
    List.Forall₂ SameButCase bytes bytes' := by
  have hmapped : List.Forall₂ (· = ·) (bytes.map upperByte) (bytes'.map upperByte) :=
    List.forall₂_eq_eq_eq ▸ h
  rw [List.forall₂_map_left_iff, List.forall₂_map_right_iff] at hmapped
  exact hmapped.imp fun _ _ hsame => sameButCase_of_upperByte_eq hsame

/-- **Letter case does not matter.** Two texts that differ only in the case of their letters are refused
both, for the same number at the same place, or have payloads of the same length, and these differ
only where one has a capital letter and the other the small one. -/
theorem letter_case_ignored (enc : Encoder) (p : Progress)
    (hspelled : ∀ k ∈ enc.table.keywords, k.spelling ≠ []) {s t : Text} (h : s.upper = t.upper) :
    (∃ (literal : Text) (position : Nat),
      (enc.tokenize p s).outcome =
        .error (.source (enc.complaint p (.unsupportedNumber literal) (p.offset + position + 1))) ∧
      (enc.tokenize p t).outcome =
        .error (.source (enc.complaint p (.unsupportedNumber literal) (p.offset + position + 1)))) ∨
    ∃ payload payload', (enc.tokenize p s).outcome = .ok payload ∧
      (enc.tokenize p t).outcome = .ok payload' ∧ List.Forall₂ SameButCase payload payload' := by
  have hpayload := payload_tokenize_upper enc.table enc.settings.strictNumbers s
  rw [h, payload_tokenize_upper] at hpayload
  simp only [Encoder.tokenize]
  cases hs : (tokenize enc.table enc.settings.strictNumbers s).payload with
  | error refused =>
    obtain ⟨literal, position, rfl⟩ := exists_of_payload_eq_error hspelled hs
    cases ht : (tokenize enc.table enc.settings.strictNumbers t).payload with
    | error refused' =>
      rw [hs, ht] at hpayload
      obtain rfl := Except.error.inj hpayload
      exact .inl ⟨literal, position, rfl, rfl⟩
    | ok payload' =>
      rw [hs, ht] at hpayload
      cases hpayload
  | ok payload =>
    cases ht : (tokenize enc.table enc.settings.strictNumbers t).payload with
    | error refused' =>
      rw [hs, ht] at hpayload
      cases hpayload
    | ok payload' =>
      rw [hs, ht] at hpayload
      exact .inr ⟨payload, payload', rfl, rfl, forall₂_sameButCase (Except.ok.inj hpayload).symm⟩

/-- A jump and a remark are read in any case, and the remark keeps its own. -/
theorem letter_case_ignored_in_remark :
    let enc : Encoder := { table := ⟨[⟨"Go To".toList, 0xEC, true⟩, ⟨"rem".toList, 0xEA, true⟩]⟩ }
    ∃ payload payload',
      (enc.tokenize enc.start "gO tO 7:rEm Ab".toList).outcome = .ok payload ∧
      (enc.tokenize enc.start "Go To 7:Rem aB".toList).outcome = .ok payload' ∧
      List.Forall₂ SameButCase payload payload' := by
  intro enc
  have hupper : Text.upper "gO tO 7:rEm Ab".toList = Text.upper "Go To 7:Rem aB".toList := by decide
  rcases letter_case_ignored enc enc.start (by decide) hupper with ⟨literal, position, hs, -⟩ | hboth
  · have hok : (enc.tokenize enc.start "gO tO 7:rEm Ab".toList).outcome.toOption.isSome = true := by
      decide +kernel
    rw [hs] at hok
    cases hok
  · exact hboth

end SpectrumBasic
