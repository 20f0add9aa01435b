import SpectrumBasic.Listing
import SpectrumBasic.Proofs.Scanning
import SpectrumBasic.Proofs.StandardKeywords

/-!
# How a statement is listed

The bytes of a statement are listed one after another: a character as it is shown, a number without
its hidden value, a keyword in its canonical spelling. So the listing goes through the lexemes of the
statement, and it starts like the statement (`Reading.heads`), with the same digits and points
(`Reading.takeWhile_line`). A word that can be completed to a keyword in the listing can be completed
to it in the statement (`Reading.completed`), so that where the statement holds a plain character, no
keyword comes up in the listing.

Control characters are not listed, and the statements here have none.
-/

namespace SpectrumBasic

/-- The bytes of some lexemes. -/
def bytesOf (lexemes : List Lexeme) : Bytes := lexemes.flatMap Lexeme.bytes

@[simp] theorem bytesOf_nil : bytesOf [] = [] := rfl

@[simp] theorem bytesOf_cons (lexeme : Lexeme) (later : List Lexeme) :
    bytesOf (lexeme :: later) = lexeme.bytes ++ bytesOf later := rfl

@[simp] theorem bytesOf_brokenAt_append (c : Char) (rest : Text) (later : List Lexeme) :
    bytesOf (Lexeme.brokenAt c rest ++ later) = bytesOf later := by
  unfold Lexeme.brokenAt
  split <;> rfl

theorem findSome?_brokenAt_append (strict : Bool) (c : Char) (rest : Text)
    (later : List Lexeme) :
    (Lexeme.brokenAt c rest ++ later).findSome? (Lexeme.refusal? strict)
      = later.findSome? (Lexeme.refusal? strict) := by
  unfold Lexeme.brokenAt
  split <;> rfl

/-! ## Bytes -/

theorem charByte_ne_code {code : UInt8} (h : Keyword.firstCode ≤ code) (c : Char) :
    charByte c ≠ code := by
  rintro rfl
  have hlow := toNat_charByte_lt c
  have hvalue : Keyword.firstCode.toNat = 0x87 := rfl
  rw [UInt8.le_iff_toNat_le] at h
  omega

namespace Listing

@[simp] theorem line_nil (table : Table) : line table [] = [] := by
  rw [line]

theorem line_cons {table : Table} {b : UInt8} {rest : Bytes} (h : b ≠ Hidden.marker) :
    line table (b :: rest) = glyphs table b rest ++ line table rest := by
  rw [line, if_neg h]

/-- A hidden value is passed over. -/
theorem line_hidden (table : Table) (value : Number) (rest : Bytes) :
    line table (Hidden.marker :: (Hidden.pack value ++ rest)) = line table rest := by
  rw [line, if_pos rfl, List.drop_left' (Hidden.length_pack value)]

theorem spelling?_charByte (c : Char) : Table.standard.spelling? (charByte c) = none := by
  cases hword : Table.standard.spelling? (charByte c) with
  | none => rfl
  | some word =>
    obtain ⟨k, hk, hcode, -⟩ := Table.exists_of_spelling? hword
    exact absurd hcode.symm (charByte_ne_code (Table.firstCode_le_of_mem_standard hk) c)

/-- Only control characters are stored as the marker or below it. -/
theorem charByte_ne_marker {c : Char} (hc : isControl c = false) : charByte c ≠ Hidden.marker := by
  intro h
  have hnat := congrArg UInt8.toNat h
  have hmarker : Hidden.marker.toNat = 14 := rfl
  rw [isControl, decide_eq_false_iff_not] at hc
  rw [toNat_charByte, hmarker] at hnat
  split at hnat
  · omega
  · split at hnat <;> omega

/-- A character is listed as it is shown. -/
theorem glyphs_charByte {c : Char} (hc : isControl c = false) (rest : Bytes) :
    glyphs .standard (charByte c) rest = [shown c] := by
  rw [isControl, decide_eq_false_iff_not] at hc
  rw [← charByte_shown, glyphs, spelling?_charByte]
  by_cases hlow : c.toNat < 0x7F
  · have hbyte : (charByte c).toNat = c.toNat := by
      rw [toNat_charByte, if_pos (by omega)]
    have hrange : 0x20 ≤ charByte c ∧ charByte c < 0x7F := by
      rw [UInt8.le_iff_toNat_le, UInt8.lt_iff_toNat_lt, hbyte]
      exact ⟨Nat.not_lt.mp hc, hlow⟩
    rw [shown_of_lt hlow]
    simp only [if_pos hrange, hbyte, Char.ofNat_toNat]
  · rcases shown_of_ge (Nat.not_lt.mp hlow) with hs | hs <;> rw [hs] <;> rfl

theorem line_charByte {c : Char} (hc : isControl c = false) (rest : Bytes) :
    line .standard (charByte c :: rest) = shown c :: line .standard rest := by
  rw [line_cons (charByte_ne_marker hc), glyphs_charByte hc]
  rfl

/-- Text goes into the listing as it is shown. -/
theorem line_textBytes {text : Text} (htext : ∀ c ∈ text, isControl c = false) (rest : Bytes) :
    line .standard (textBytes text ++ rest) = text.map shown ++ line .standard rest := by
  induction text with
  | nil => rfl
  | cons c text ih =>
    have hc := htext c List.mem_cons_self
    have hrest := ih fun d hd => htext d (List.mem_cons_of_mem c hd)
    show line .standard (charByte c :: (textBytes text ++ rest)) = _
    rw [line_charByte hc, hrest]
    rfl

theorem line_text {text : Text} (htext : ∀ c ∈ text, isControl c = false) :
    line .standard (textBytes text) = text.map shown := by
  have hline := line_textBytes htext []
  rwa [List.append_nil, line_nil, List.append_nil] at hline

theorem line_number {run : Text} (hrun : ∀ c ∈ run, Literal.isLiteralChar c = true)
    (value : Number) (rest : Bytes) :
    line .standard ((Lexeme.number run value).bytes ++ rest) = run ++ line .standard rest := by
  have hcontrol : ∀ c ∈ run, isControl c = false := fun c hc =>
    isControl_of_isLiteralChar (hrun c hc)
  rw [Lexeme.bytes, List.append_assoc, line_textBytes hcontrol, map_shown_of_isLiteralChar hrun,
    List.cons_append, line_hidden]

/-- The space between a keyword and the bytes after it, where there is one. -/
def gap (following : Bytes) : Nat := if following.head?.any needsSpace then 1 else 0

/-- A keyword goes into the listing in its canonical spelling. -/
theorem line_code {code : UInt8} {word : Text}
    (hword : Table.standard.spelling? code = some word) (rest : Bytes) :
    line .standard (code :: rest) =
      word ++ (List.replicate (gap rest) ' ' ++ line .standard rest) := by
  have hcode : code ≠ Hidden.marker := by
    rintro rfl
    cases hword
  rw [line_cons hcode, glyphs, hword, gap]
  simp only [List.append_assoc]
  split <;> rfl

end Listing

/-! ## Keywords -/

/-- The code of a keyword that is a word, one that starts with a letter. -/
def isWordCode (b : UInt8) : Bool :=
  (Table.standard.spelling? b).any fun word => word.head?.any Char.isAlpha

/-- The byte of a letter or digit. -/
def isAlphanumByte (b : UInt8) : Bool := (Char.ofNat b.toNat).isAlphanum

/-- The keyword `k` is read as `word` in front of `rest`, and it is listed as `kc`. -/
structure Keyword.Listed (k kc : Keyword) (afterLetter : Bool) (word rest : Text) : Prop where
  mem : k ∈ Table.standard.keywords
  mem_listed : kc ∈ Table.standard.keywords
  admits : k.Admits afterLetter word rest
  code_eq : kc.code = k.code
  spelling?_eq : Table.standard.spelling? k.code = some kc.spelling
  head?_eq : kc.spelling.head? = k.spelling.head?

namespace Keyword.Listed

variable {k kc : Keyword} {afterLetter : Bool} {c : Char} {tail word rest : Text}

/-- What is read is listed. -/
theorem of_read {code : UInt8}
    (h : Table.standard.read afterLetter (c :: (tail ++ rest)) = .ok (some (c :: tail, code))) :
    ∃ k kc : Keyword, k.code = code ∧ k.Listed kc afterLetter (c :: tail) rest := by
  obtain ⟨k, hk, rest', htext, hadmits, -, hcode, -⟩ := Table.read_eq_some h
  obtain ⟨kc, hkc, hsame, hspelling, hhead⟩ := Table.exists_canonical hk
  rw [List.cons_append, List.cons.injEq] at htext
  rw [List.append_cancel_left htext.2]
  exact ⟨k, kc, hcode, hk, hkc, hadmits, hsame, hspelling, hhead⟩

/-- Both keywords are words, or both are operators. -/
theorem alphabetic?_eq (h : k.Listed kc afterLetter word rest) :
    kc.alphabetic? = k.alphabetic? := by
  rw [alphabetic?, alphabetic?, h.head?_eq]

theorem head?_spelling (h : k.Listed kc afterLetter (c :: tail) rest) :
    kc.spelling.head? = some c.toUpper := by
  have hword := h.admits.spelled
  rw [Table.upper_of_mem_standard h.mem] at hword
  rw [h.head?_eq, ← hword]
  rfl

theorem spelling_eq_cons (h : k.Listed kc afterLetter (c :: tail) rest) :
    ∃ spelling, kc.spelling = c.toUpper :: spelling :=
  List.head?_eq_some_iff.mp h.head?_spelling

theorem alphabetic?_iff (h : k.Listed kc afterLetter (c :: tail) rest) :
    k.alphabetic? = some true ↔ c.isAlpha = true := by
  have hupper : c.toUpper.isAlpha = c.isAlpha := isAlpha_eq_of_toUpper_eq (toUpper_toUpper c)
  rw [← h.alphabetic?_eq, alphabetic?, h.head?_spelling, Option.map_some, hupper,
    Option.some.injEq]

theorem alphabetic?_listed_iff (h : k.Listed kc afterLetter (c :: tail) rest) :
    kc.alphabetic? = some true ↔ c.isAlpha = true := by
  rw [h.alphabetic?_eq, h.alphabetic?_iff]

/-- The first character of a keyword is a letter or the first of an operator. -/
theorem isAlpha_or_operator (h : k.Listed kc afterLetter (c :: tail) rest) :
    c.isAlpha = true ∨ c = '<' ∨ c = '>' := by
  by_cases halpha : c.isAlpha = true
  · exact .inl halpha
  · have hnot : kc.alphabetic? ≠ some true := by
      rw [h.alphabetic?_eq, ne_eq, h.alphabetic?_iff]
      exact halpha
    obtain ⟨first, hfirst, second, -, hspelling⟩ :=
      Table.operator_of_mem_standard h.mem_listed hnot
    have hhead := h.head?_spelling
    rw [hspelling, List.head?_cons, Option.some.injEq] at hhead
    simp only [List.mem_cons, List.not_mem_nil, or_false] at hfirst
    rcases hfirst with rfl | rfl
    · exact .inr (.inl (eq_of_toUpper_eq (by decide) hhead.symm))
    · exact .inr (.inr (eq_of_toUpper_eq (by decide) hhead.symm))

/-- The characters of a keyword are printable ASCII characters. -/
theorem bounds_of_mem (h : k.Listed kc afterLetter word rest) {d : Char} (hd : d ∈ word) :
    0x20 ≤ d.toNat ∧ d.toNat < 0x7F := by
  have hmem : d.toUpper ∈ k.spelling := by
    rw [← Table.upper_of_mem_standard h.mem, ← h.admits.spelled]
    exact List.mem_map_of_mem hd
  have hbounds := bounds_of_isSpellingChar (Table.isSpellingChar_of_mem_standard h.mem hmem)
  rw [toNat_toUpper] at hbounds
  split at hbounds <;> omega

theorem isControl_eq_false (h : k.Listed kc afterLetter word rest) :
    ∀ d ∈ word, isControl d = false := by
  intro d hd
  have hbounds := h.bounds_of_mem hd
  rw [isControl, decide_eq_false_iff_not]
  omega

theorem map_shown_eq (h : k.Listed kc afterLetter word rest) : word.map shown = word := by
  rw [List.map_congr_left fun d hd => shown_of_lt (h.bounds_of_mem hd).2, List.map_id']

theorem alike (h : k.Listed kc afterLetter (c :: tail) rest) : Alike c.toUpper c := by
  refine alike_of_toUpper_eq ?_ (toUpper_toUpper c)
  rcases h.isAlpha_or_operator with halpha | rfl | rfl
  · rw [isAlpha_iff] at halpha
    omega
  · decide
  · decide

/-- No keyword starts with a digit or a point. -/
theorem isLiteralChar_eq_false (h : k.Listed kc afterLetter (c :: tail) rest) :
    Literal.isLiteralChar c = false := by
  rcases h.isAlpha_or_operator with halpha | rfl | rfl
  · rw [Literal.isLiteralChar, isDigit_eq_false_of_isAlpha halpha, Bool.false_or,
      decide_eq_false_iff_not]
    rintro rfl
    exact absurd halpha (by decide)
  · rfl
  · rfl

theorem isWordCode_eq (h : k.Listed kc afterLetter (c :: tail) rest) :
    isWordCode k.code = c.isAlpha := by
  have hupper : c.toUpper.isAlpha = c.isAlpha := isAlpha_eq_of_toUpper_eq (toUpper_toUpper c)
  rw [isWordCode, h.spelling?_eq, Option.any_some, h.head?_spelling, Option.any_some, hupper]

end Keyword.Listed

/-- Behind a keyword and spaces no statement starts, and in front of a letter no other letter
stands. -/
theorem Place.advance_keyword {k : Keyword} (hk : k ∈ Table.standard.keywords) {afterLetter : Bool}
    {word rest : Text} {spaces : Nat}
    (h : k.Admits afterLetter word (List.replicate spaces ' ' ++ rest)) (place : Place) :
    (place.advance (word ++ List.replicate spaces ' ')).opensStatement = false ∧
      (rest.head?.any Char.isAlpha = true →
        (place.advance (word ++ List.replicate spaces ' ')).afterLetter = false) := by
  have hspelled := h.spelled
  rw [Table.upper_of_mem_standard hk] at hspelled
  obtain ⟨front, x, rfl⟩ : ∃ front x, word = front ++ [x] := by
    rcases List.eq_nil_or_concat word with rfl | ⟨front, x, rfl⟩
    · exact absurd hspelled.symm (Table.consistent_standard.spelled k hk)
    · exact ⟨front, x, List.concat_eq_append⟩
  rw [Text.upper_append] at hspelled
  have hlast : k.spelling.getLast? = some x.toUpper := by
    rw [← hspelled]
    exact List.getLast?_concat
  -- its last character is neither a colon nor a space, after which a statement could start
  have hx : (place.advance (front ++ [x])).opensStatement = false := by
    rw [Place.advance_concat, Place.next]
    have hcolon : x ≠ ':' := by
      rintro rfl
      have hchar := Table.isSpellingChar_of_mem_standard hk (List.mem_of_getLast? hlast)
      exact absurd hchar (by decide)
    have hspace : x ≠ ' ' := by
      rintro rfl
      exact Table.getLast?_of_mem_standard hk hlast
    simp [hcolon, hspace]
  obtain ⟨hopens, hletter⟩ := Place.advance_spaces spaces hx
  rw [Place.advance_append]
  refine ⟨hopens, fun hrest => ?_⟩
  rcases Nat.eq_zero_or_pos spaces with rfl | hpos
  · -- a letter that follows at once leaves only the operators
    rw [List.replicate_zero, List.nil_append] at h
    have hoperator : k.alphabetic? ≠ some true := by
      intro halpha
      have hafter := h.after halpha
      cases rest with
      | nil => cases hrest
      | cons d rest =>
        rw [List.head?_cons, Option.any_some] at hafter hrest
        rw [Char.isAlphanum, hrest] at hafter
        cases hafter
    obtain ⟨first, -, second, hsecond, hspelling⟩ := Table.operator_of_mem_standard hk hoperator
    rw [hspelling, List.getLast?_cons_cons, List.getLast?_singleton, Option.some.injEq] at hlast
    show (place.advance (front ++ [x])).afterLetter = false
    rw [Place.advance_concat]
    show x.isAlpha = false
    rw [← isAlpha_eq_of_toUpper_eq (toUpper_toUpper x), ← hlast]
    simp only [List.mem_cons, List.not_mem_nil, or_false] at hsecond
    rcases hsecond with rfl | rfl | rfl <;> decide
  · exact hletter hpos

/-! ## The start of a listing -/

/-- A byte that would make a word in front of it longer in a listing. -/
def joinsWord (b : UInt8) : Bool := isAlphanumByte b || isWordCode b

theorem isWordCode_charByte (c : Char) : isWordCode (charByte c) = false := by
  rw [isWordCode, Listing.spelling?_charByte]
  rfl

/-- A character joins a word if it is a letter or a digit. -/
theorem joinsWord_charByte (c : Char) : joinsWord (charByte c) = c.isAlphanum := by
  rw [joinsWord, isWordCode_charByte, Bool.or_false, isAlphanumByte, toNat_charByte]
  by_cases hlow : c.toNat < 0x80
  · rw [if_pos hlow, Char.ofNat_toNat]
  · have hc : c.isAlphanum = false := by
      rw [Bool.eq_false_iff, ne_eq, isAlphanum_iff]
      omega
    rw [if_neg hlow, hc]
    split <;> decide

theorem needsSpace_of_isAlphanumByte {b : UInt8} (h : isAlphanumByte b = true) :
    Listing.needsSpace b = true := by
  simp only [Listing.needsSpace, Bool.or_eq_true]
  exact .inl (.inl h)

/-- Keywords do not. -/
theorem needsSpace_of_mem_standard {k : Keyword} (hk : k ∈ Table.standard.keywords) :
    Listing.needsSpace k.code = false := by
  have hfirst := Table.firstCode_le_of_mem_standard hk
  have hvalue : Keyword.firstCode.toNat = 0x87 := rfl
  have hnat := toNat_ofNat_toNat k.code
  rw [UInt8.le_iff_toNat_le, hvalue] at hfirst
  rw [Bool.eq_false_iff]
  intro hspace
  simp only [Listing.needsSpace, Bool.or_eq_true, decide_eq_true_eq, isAlphanum_iff] at hspace
  rcases hspace with (halphanum | hquote) | hpoint
  · omega
  · rw [hquote] at hnat
    exact absurd (hnat ▸ hfirst) (by decide)
  · rw [hpoint] at hnat
    exact absurd (hnat ▸ hfirst) (by decide)

/-- A keyword joins a word if it is one. -/
theorem Keyword.Listed.joinsWord_code {k kc : Keyword} {afterLetter : Bool} {c : Char}
    {tail rest : Text} (h : k.Listed kc afterLetter (c :: tail) rest) :
    joinsWord k.code = c.isAlphanum := by
  have hbyte : isAlphanumByte k.code = false := by
    rw [Bool.eq_false_iff]
    intro halphanum
    have hspace := needsSpace_of_isAlphanumByte halphanum
    rw [needsSpace_of_mem_standard h.mem] at hspace
    cases hspace
  have hdigit : c.isDigit = false := by
    have hliteral := h.isLiteralChar_eq_false
    rw [Literal.isLiteralChar, Bool.or_eq_false_iff] at hliteral
    exact hliteral.1
  rw [joinsWord, hbyte, h.isWordCode_eq, Bool.false_or, Char.isAlphanum, hdigit, Bool.or_false]

namespace Reading

variable {place : Place} {text : Text} {lexemes : List Lexeme}

/-- A statement is stored from its first character on, as that character or as the code of the
keyword that starts with it. -/
theorem front {c : Char} {rest : Text} (h : Reading .standard place (c :: rest) lexemes) :
    (∃ back, bytesOf lexemes = charByte c :: back) ∨
      ∃ (k kc : Keyword) (tail after : Text) (back : Bytes),
        k.Listed kc place.afterLetter (c :: tail) after ∧ bytesOf lexemes = k.code :: back := by
  cases h with
  | closed => exact .inl ⟨_, rfl⟩
  | unclosed => exact .inl ⟨_, rfl⟩
  | number => exact .inl ⟨_, rfl⟩
  | comment => exact .inl ⟨_, rfl⟩
  | keyword hplain hread hcode hspaces hrest =>
    obtain ⟨k, kc, rfl, hlisted⟩ := Keyword.Listed.of_read hread
    exact .inr ⟨k, kc, _, _, _, hlisted, bytesOf_brokenAt_append _ _ _⟩
  | @remark _ _ tail rest hplain hread =>
    obtain ⟨k, kc, hcode, hlisted⟩ := Keyword.Listed.of_read hread
    refine .inr ⟨k, kc, tail, rest, textBytes rest ++ [], hlisted, ?_⟩
    rw [hcode]
    exact bytesOf_brokenAt_append _ _ _
  | character => exact .inl ⟨_, bytesOf_brokenAt_append _ _ _⟩

/-- A statement whose first byte is that of a character starts with such a character. -/
theorem exists_of_charByte (h : Reading .standard place text lexemes) {c : Char} {back : Bytes}
    (hbytes : bytesOf lexemes = charByte c :: back) :
    ∃ d rest, text = d :: rest ∧ charByte d = charByte c := by
  cases text with
  | nil =>
    cases h
    cases hbytes
  | cons d rest =>
    rcases h.front with ⟨back', hback⟩ | ⟨k, kc, tail, after, back', hlisted, hback⟩
    · exact ⟨d, rest, rfl, (List.cons.inj (hback.symm.trans hbytes)).1⟩
    · have hcode := (List.cons.inj (hbytes.symm.trans hback)).1
      exact absurd hcode (charByte_ne_code (Table.firstCode_le_of_mem_standard hlisted.mem) c)

/-- The listing starts like the statement. -/
theorem heads {p : Char → Bool} (hp : ∀ c d, Alike d c → p d = p c)
    (h : Reading .standard place text lexemes) (htext : ∀ c ∈ text, isControl c = false) :
    (Listing.line .standard (bytesOf lexemes)).head?.any p = text.head?.any p := by
  cases text with
  | nil =>
    cases h
    rw [bytesOf_nil, Listing.line_nil]
  | cons c rest =>
    rcases h.front with ⟨back, hback⟩ | ⟨k, kc, tail, after, back, hlisted, hback⟩
    · rw [hback, Listing.line_charByte (htext c List.mem_cons_self)]
      exact hp c (shown c) (alike_shown c)
    · rw [hback, Listing.line_code hlisted.spelling?_eq, List.head?_append,
        hlisted.head?_spelling]
      exact hp c c.toUpper hlisted.alike

/-- It starts with a sign that is shown as nothing else exactly if the statement does. -/
theorem head?_line_eq_some_iff {x : Char} (hlow : x.toNat < 0x7F) (hsign : x.isAlpha = false)
    (hmark : x ≠ '?') (h : Reading .standard place text lexemes)
    (htext : ∀ c ∈ text, isControl c = false) :
    (Listing.line .standard (bytesOf lexemes)).head? = some x ↔ text.head? = some x := by
  have hany : ∀ text : Text, text.head?.any (fun d => decide (d = x)) = true ↔
      text.head? = some x := by
    intro text
    cases text with
    | nil => simp
    | cons d rest => simp
  rw [← hany, ← hany, h.heads (fun _ _ hlike =>
    decide_eq_decide.mpr (hlike.eq_iff hlow hsign hmark)) htext]

/-- A statement starts with a letter or a digit if its first byte joins a word. -/
theorem head?_any_joinsWord (h : Reading .standard place text lexemes) :
    (bytesOf lexemes).head?.any joinsWord = text.head?.any Char.isAlphanum := by
  cases text with
  | nil =>
    cases h
    rfl
  | cons c rest =>
    rcases h.front with ⟨back, hback⟩ | ⟨k, kc, tail, after, back, hlisted, hback⟩
    · rw [hback]
      exact joinsWord_charByte c
    · rw [hback]
      exact hlisted.joinsWord_code

/-! ## Digits and points -/

/-- Where a statement does not start with a digit or point, neither does its listing. -/
theorem takeWhile_line_of_head (h : Reading .standard place text lexemes)
    (htext : ∀ c ∈ text, isControl c = false)
    (hhead : text.head?.any Literal.isLiteralChar = false) :
    (Listing.line .standard (bytesOf lexemes)).takeWhile Literal.isLiteralChar =
      text.takeWhile Literal.isLiteralChar := by
  have hline := h.heads (fun _ _ hlike => hlike.isLiteralChar_eq) htext
  rw [hhead] at hline
  rw [← List.nil_append (Listing.line _ _), ← List.nil_append text,
    (span_append (by simp) hline).1, (span_append (by simp) hhead).1]

/-- The listing starts with the same digits and points as the statement. -/
theorem takeWhile_line (h : Reading .standard place text lexemes)
    (htext : ∀ c ∈ text, isControl c = false) :
    (Listing.line .standard (bytesOf lexemes)).takeWhile Literal.isLiteralChar =
      text.takeWhile Literal.isLiteralChar := by
  -- digits that are no number are read one by one, so the run has to be followed by induction;
  -- whatever else is read there ends it at once
  induction h with
  | done => rw [bytesOf_nil, Listing.line_nil]
  | closed hinner hrest => exact takeWhile_line_of_head (.closed hinner hrest) htext rfl
  | @unclosed place inner hinner =>
    have hall : Reading .standard place _ _ := .unclosed hinner
    exact takeWhile_line_of_head hall htext rfl
  | comment hopens => exact takeWhile_line_of_head (.comment hopens) htext rfl
  | @number place c tail rest value later hstart hrun hend hvalue hrest =>
    have hline := hrest.heads (fun _ _ hlike => hlike.isLiteralChar_eq) fun d hd =>
      htext d (List.mem_append_right (c :: tail) hd)
    rw [hend] at hline
    rw [bytesOf_cons, Listing.line_number hrun, (span_append hrun hline).1, ← List.cons_append,
      (span_append hrun hend).1]
  | keyword hplain hread hcode hspaces hrest =>
    obtain ⟨k, kc, rfl, hlisted⟩ := Keyword.Listed.of_read hread
    exact takeWhile_line_of_head (.keyword hplain hread hcode hspaces hrest) htext
      hlisted.isLiteralChar_eq_false
  | remark hplain hread =>
    obtain ⟨k, kc, -, hlisted⟩ := Keyword.Listed.of_read hread
    exact takeWhile_line_of_head (.remark hplain hread) htext hlisted.isLiteralChar_eq_false
  | @character place c rest later hplain hread hrest ih =>
    have hc := htext c List.mem_cons_self
    have hlater := ih fun d hd => htext d (List.mem_cons_of_mem c hd)
    by_cases hliteral : Literal.isLiteralChar c = true
    · rw [bytesOf_brokenAt_append]
      show (Listing.line .standard (charByte c :: bytesOf later)).takeWhile _ = _
      rw [Listing.line_charByte hc, shown_of_isLiteralChar hliteral,
        List.takeWhile_cons_of_pos hliteral, List.takeWhile_cons_of_pos hliteral, hlater]
    · exact takeWhile_line_of_head (.character hplain hread hrest) htext (by simpa using hliteral)

end Reading

/-! ## Words that come up in a listing -/

/-- What is listed as the character of a spelling, letter case aside, is shown as it is. -/
theorem shown_of_isSpellingChar {c : Char}
    (h : Keyword.isSpellingChar (shown c).toUpper = true) : shown c = c := by
  by_cases hlow : c.toNat < 0x7F
  · exact shown_of_lt hlow
  · rcases shown_of_ge (Nat.not_lt.mp hlow) with hs | hs <;>
      exact absurd (hs ▸ h) (by decide)

theorem isSpellingChar_of_alike {c d : Char} (h : Alike d c) :
    Keyword.isSpellingChar d.toUpper = Keyword.isSpellingChar c.toUpper := by
  refine h.apply_eq (p := fun c => Keyword.isSpellingChar c.toUpper)
    (fun hcase => congrArg Keyword.isSpellingChar hcase) (fun {c} hspelling => ?_) (by decide)
  have hbounds := bounds_of_isSpellingChar hspelling
  rw [toNat_toUpper] at hbounds
  split at hbounds <;> omega

/-- A listed word that completes a longer one, whose front ends where the word starts, is read as
just that completion. -/
theorem Keyword.Listed.completes {k kc longer : Keyword} {afterLetter : Bool} {c : Char}
    {tail rest front back word after listing : Text}
    (h : k.Listed kc afterLetter (c :: tail) rest)
    (hlonger : longer ∈ Table.standard.keywords) (halpha : longer.alphabetic? = some true)
    (hspelling : longer.spelling = front ++ back) (hfront : front ≠ [])
    (hlast : front.getLast?.any Char.isAlpha = afterLetter) (hback : back ≠ [])
    (hline : kc.spelling ++ listing = word ++ after) (hword : word.upper = back) :
    Text.upper (c :: tail) = back ∧ rest.head?.any Char.isAlphanum = false := by
  -- as far as both go, the listed spelling is what completes the longer one
  have hagree : Keyword.agree back kc.spelling = true := by
    have hboth := congrArg Text.upper hline
    rw [Text.upper_append, Text.upper_append, Table.upper_of_mem_standard h.mem_listed,
      hword] at hboth
    exact Keyword.agree_of_append_eq hboth.symm
  have hfirst : back.head? = some c.toUpper := by
    obtain ⟨b, back', rfl⟩ := List.exists_cons_of_ne_nil hback
    obtain ⟨spelling, hlisted⟩ := h.spelling_eq_cons
    rw [hlisted] at hagree
    rw [List.head?_cons, Keyword.eq_of_agree_cons hagree]
  have hletter : k.alphabetic? = some true := by
    rw [h.alphabetic?_iff]
    have hmem : c.toUpper ∈ longer.spelling := by
      rw [hspelling]
      exact List.mem_append_right front (List.mem_of_mem_head? hfirst)
    rcases h.isAlpha_or_operator with hc | rfl | rfl
    · exact hc
    · exact absurd hmem (Table.word_of_mem_standard hlonger halpha).1
    · exact absurd hmem (Table.word_of_mem_standard hlonger halpha).2
  -- so the cut is behind a character that is no letter, where words can start
  obtain ⟨front', x, rfl⟩ := (List.eq_nil_or_concat front).resolve_left hfront
  have hx : x.isAlpha = false := by
    rw [h.admits.before hletter] at hlast
    simpa using hlast
  rw [List.concat_eq_append, List.append_assoc, List.singleton_append] at hspelling
  obtain ⟨hk, -⟩ := Table.inside_of_mem_standard h.mem hlonger hspelling hback hx hletter
    h.spelling?_eq hagree
  rw [h.admits.spelled, Table.upper_of_mem_standard h.mem]
  exact ⟨hk, h.admits.after hletter⟩

/-- Where the listing of a statement completes a word that ends in front of the statement to a
keyword, the statement itself completes it. -/
theorem Reading.completed {longer : Keyword} (hlonger : longer ∈ Table.standard.keywords)
    (halpha : longer.alphabetic? = some true) {place : Place} {text : Text}
    {lexemes : List Lexeme} (h : Reading .standard place text lexemes)
    (htext : ∀ c ∈ text, isControl c = false) {front back word after : Text}
    (hspelling : longer.spelling = front ++ back) (hfront : front ≠ [])
    (hlast : front.getLast?.any Char.isAlpha = place.afterLetter)
    (hline : Listing.line .standard (bytesOf lexemes) = word ++ after)
    (hword : word.upper = back) (hafter : after.head?.any Char.isAlphanum = false) :
    ∃ word' after', text = word' ++ after' ∧ Text.upper word' = back ∧
      after'.head?.any Char.isAlphanum = false := by
  -- each plain character takes one character off what is to be completed
  induction back generalizing front word place text lexemes with
  | nil =>
    have hempty : word = [] := List.map_eq_nil_iff.mp hword
    have hheads := h.heads (fun _ _ hlike => hlike.isAlphanum_eq) htext
    rw [hline, hempty, List.nil_append, hafter] at hheads
    exact ⟨[], text, rfl, rfl, hheads.symm⟩
  | cons b back ih =>
    have hback : b :: back ≠ [] := List.cons_ne_nil b back
    obtain ⟨d, word, rfl⟩ : ∃ d word', word = d :: word' := List.exists_cons_of_ne_nil
      fun hnil => by rw [hnil] at hword; exact absurd hword.symm hback
    have hb : d.toUpper = b := (List.cons.inj hword).1
    have hspelling' : Keyword.isSpellingChar d.toUpper = true := by
      apply Table.isSpellingChar_of_mem_standard hlonger
      rw [hspelling, hb]
      exact List.mem_append_right front List.mem_cons_self
    have hspelled : text.head?.any (fun c => Keyword.isSpellingChar c.toUpper) = true := by
      rw [← h.heads (fun _ _ => isSpellingChar_of_alike) htext, hline]
      exact hspelling'
    cases h with
    | done => cases hspelled
    | closed =>
      exact absurd (show Keyword.isSpellingChar ('"').toUpper = true from hspelled) (by decide)
    | unclosed =>
      exact absurd (show Keyword.isSpellingChar ('"').toUpper = true from hspelled) (by decide)
    | comment =>
      exact absurd (show Keyword.isSpellingChar (';').toUpper = true from hspelled) (by decide)
    | number hstart hrun hend hvalue hrest =>
      -- spellings have no digits
      have hliteral := bounds_of_isLiteralChar (hrun _ List.mem_cons_self)
      have hbounds := bounds_of_isSpellingChar hspelled
      rw [toNat_toUpper, if_neg (by omega)] at hbounds
      omega
    | keyword hplain hread hcode hspaces hrest =>
      -- a keyword in the statement ends the induction: it is all that is to be completed
      obtain ⟨k, kc, rfl, hlisted⟩ := Keyword.Listed.of_read hread
      rw [bytesOf_brokenAt_append, bytesOf_cons, Lexeme.bytes, List.singleton_append,
        Listing.line_code hlisted.spelling?_eq] at hline
      exact ⟨_, _, rfl,
        hlisted.completes hlonger halpha hspelling hfront hlast hback hline hword⟩
    | remark hplain hread =>
      obtain ⟨k, kc, hcode, hlisted⟩ := Keyword.Listed.of_read hread
      rw [bytesOf_brokenAt_append, bytesOf_cons, Lexeme.bytes, ← hcode, List.cons_append,
        Listing.line_code hlisted.spelling?_eq] at hline
      exact ⟨_, _, rfl,
        hlisted.completes hlonger halpha hspelling hfront hlast hback hline hword⟩
    | @character _ c rest later hplain hread hrest =>
      have hbytes : bytesOf (Lexeme.brokenAt c rest ++ .character c :: later)
          = charByte c :: bytesOf later := bytesOf_brokenAt_append _ _ _
      rw [hbytes, Listing.line_charByte (htext c List.mem_cons_self), List.cons_append,
        List.cons.injEq] at hline
      obtain ⟨rfl, hline⟩ := hline
      have hshown := shown_of_isSpellingChar hspelling'
      rw [hshown] at hb
      have hlast' : (front ++ [b]).getLast?.any Char.isAlpha = (place.next c).afterLetter := by
        rw [List.getLast?_append, List.getLast?_singleton, Option.some_or, Option.any_some, ← hb]
        exact isAlpha_eq_of_toUpper_eq (toUpper_toUpper c)
      have hspelling'' : longer.spelling = (front ++ [b]) ++ back := by
        rw [hspelling, List.append_assoc, List.singleton_append]
      obtain ⟨word', after', rfl, hword', hafter'⟩ := ih hrest
        (fun d hd => htext d (List.mem_cons_of_mem c hd)) hspelling'' (by simp) hlast' hline
        (List.cons.inj hword).2
      refine ⟨c :: word', after', rfl, ?_, hafter'⟩
      rw [← hb, ← hword']
      rfl

end SpectrumBasic
