import SpectrumBasic.Proofs.Clashes

/-!
# Reading a listing again

The listing of a statement is read again, lexeme by lexeme, next to the statement
(`Reading.relisted`). Up to the first clash both go the same way: the places they come to agree on
whether a statement can start there, and in front of a letter on whether another one stands before it.
At a clash the listing is read as other bytes. So a statement without control characters is read again
with the same bytes exactly if its bytes do not clash.
-/

namespace SpectrumBasic

/-! ## Places -/

namespace Place

theorem next_alike {place place' : Place} (h : place'.opensStatement = place.opensStatement)
    {c d : Char} (hlike : Alike d c) : place'.next d = place.next c := by
  have hcolon : d = ':' ↔ c = ':' := hlike.eq_iff (by decide) (by decide) (by decide)
  have hspace : d = ' ' ↔ c = ' ' := hlike.eq_iff (by decide) (by decide) (by decide)
  simp only [next, hlike.isAlpha_eq, hcolon, hspace, h]

/-- Characters as they are shown lead to the same place. -/
theorem advance_shown {place place' : Place} (h : place'.opensStatement = place.opensStatement)
    {text : Text} (hne : text ≠ []) : place'.advance (text.map shown) = place.advance text := by
  induction text generalizing place place' with
  | nil => exact absurd rfl hne
  | cons c text ih =>
    show (place'.next (shown c)).advance (text.map shown) = (place.next c).advance text
    rw [next_alike h (alike_shown c)]
    cases text with
    | nil => rfl
    | cons d text => exact ih rfl (List.cons_ne_nil d text)

end Place

/-! ## Lexemes with the same bytes -/

/-- The bytes of some lexemes are those of others, and as much is refused. -/
structure Reproduces (again lexemes : List Lexeme) : Prop where
  bytes_eq : bytesOf again = bytesOf lexemes
  refusal_eq : ∀ strict,
    again.findSome? (Lexeme.refusal? strict) = lexemes.findSome? (Lexeme.refusal? strict)

/-- What a clash in some lexemes means for those of their listing: with one the bytes differ, without
one they are the same. -/
def Relisted (clash : Bool) (again lexemes : List Lexeme) : Prop :=
  if clash then bytesOf again ≠ bytesOf lexemes else Reproduces again lexemes

namespace Relisted

variable {clash : Bool} {again lexemes : List Lexeme}

theorem nil : Relisted false [] [] := ⟨rfl, fun _ => rfl⟩

/-- A lexeme with the same bytes in front changes nothing. -/
theorem cons {x y : Lexeme} (hbytes : y.bytes = x.bytes)
    (hrefusal : ∀ strict, y.refusal? strict = x.refusal? strict)
    (h : Relisted clash again lexemes) : Relisted clash (y :: again) (x :: lexemes) := by
  cases clash with
  | true =>
    show bytesOf (y :: again) ≠ bytesOf (x :: lexemes)
    rw [bytesOf_cons, bytesOf_cons, hbytes]
    exact fun heq => h (List.append_cancel_left heq)
  | false =>
    refine ⟨?_, fun strict => ?_⟩
    · rw [bytesOf_cons, bytesOf_cons, hbytes, h.bytes_eq]
    · rw [List.findSome?_cons, List.findSome?_cons, hrefusal, h.refusal_eq]

/-- Neither does a broken run in the listing. -/
theorem broken_again {c : Char} {rest : Text} (h : Relisted clash again lexemes) :
    Relisted clash (Lexeme.brokenAt c rest ++ again) lexemes := by
  cases clash with
  | true =>
    show bytesOf (Lexeme.brokenAt c rest ++ again) ≠ bytesOf lexemes
    rw [bytesOf_brokenAt_append]
    exact h
  | false =>
    refine ⟨?_, fun strict => ?_⟩
    · rw [bytesOf_brokenAt_append, h.bytes_eq]
    · rw [findSome?_brokenAt_append, h.refusal_eq]

/-- Nor one in what was listed. -/
theorem broken {c : Char} {rest : Text} (h : Relisted clash again lexemes) :
    Relisted clash again (Lexeme.brokenAt c rest ++ lexemes) := by
  cases clash with
  | true =>
    show bytesOf again ≠ bytesOf (Lexeme.brokenAt c rest ++ lexemes)
    rw [bytesOf_brokenAt_append]
    exact h
  | false =>
    refine ⟨?_, fun strict => ?_⟩
    · rw [bytesOf_brokenAt_append, h.bytes_eq]
    · rw [findSome?_brokenAt_append, h.refusal_eq]

end Relisted

/-- The lexemes that the listing of some lexemes is read as from a place. -/
def relisting (place : Place) (lexemes : List Lexeme) : List Lexeme :=
  scan .standard place (Listing.line .standard (bytesOf lexemes))

theorem textBytes_map_shown (text : Text) : textBytes (text.map shown) = textBytes text := by
  rw [textBytes, List.map_map]
  exact List.map_congr_left fun c _ => charByte_shown c

theorem quote_not_mem_map_shown {text : Text} (h : '"' ∉ text) : '"' ∉ text.map shown := by
  intro hmem
  obtain ⟨c, hc, hquote⟩ := List.mem_map.mp hmem
  have hsame := (alike_shown c).eq_iff (x := '"') (by decide) (by decide) (by decide)
  exact h (hsame.mp hquote ▸ hc)

/-! ## Plain characters -/

section Character

variable {place place' : Place} {c d : Char} {rest : Text} {later : List Lexeme}

/-- A number can start in the listing where it can start in the statement. -/
theorem Reading.startsNumber_line (h : Reading .standard place rest later)
    (hrest : ∀ d ∈ rest, isControl d = false) (hlike : Alike d c) (front : Text) :
    Lexeme.startsNumber d (front ++ Listing.line .standard (bytesOf later)) =
      Lexeme.startsNumber c (front ++ rest) := by
  have hpoint : d = '.' ↔ c = '.' := hlike.eq_iff (by decide) (by decide) (by decide)
  have hhead : (front ++ Listing.line .standard (bytesOf later)).head?.any Char.isDigit =
      (front ++ rest).head?.any Char.isDigit := by
    cases front with
    | nil => exact h.heads (fun _ _ hlike => hlike.isDigit_eq) hrest
    | cons e front => rfl
  simp only [Lexeme.startsNumber, hlike.isDigit_eq, hpoint, hhead]

/-- Where a plain character stands in a statement, its listing is plain as well. -/
theorem Reading.plain_line (h : Reading .standard (place.next c) rest later)
    (htext : ∀ d ∈ c :: rest, isControl d = false) (hplain : Lexeme.Plain place c rest)
    (hopens : place'.opensStatement = place.opensStatement) :
    Lexeme.Plain place' (shown c) (Listing.line .standard (bytesOf later)) := by
  have hlike := alike_shown c
  have hrest : ∀ d ∈ rest, isControl d = false := fun d hd => htext d (List.mem_cons_of_mem c hd)
  refine ⟨fun hquote => ?_, fun hstart => ?_, fun hcomment => ?_⟩
  · exact hplain.unquoted ((hlike.eq_iff (by decide) (by decide) (by decide)).mp hquote)
  · -- whether digits and points are a number depends on all of them, and they are all listed
    have hsame := h.startsNumber_line hrest hlike []
    rw [List.nil_append, List.nil_append, hstart] at hsame
    have hliteral : Literal.isLiteralChar c = true := isLiteralChar_of_startsNumber hsame.symm
    have hrun := hplain.unnumbered hsame.symm
    rw [List.takeWhile_cons_of_pos hliteral] at hrun
    rw [shown_of_isLiteralChar hliteral, List.takeWhile_cons_of_pos hliteral,
      h.takeWhile_line hrest, hrun]
  · refine hplain.uncommented ⟨?_, hopens ▸ hcomment.2⟩
    exact (hlike.eq_iff (by decide) (by decide) (by decide)).mp hcomment.1

/-- A word that fits the listing of a statement fits the statement. -/
theorem Reading.fits_word (h : Reading .standard (place.next c) rest later)
    (hrest : ∀ d ∈ rest, isControl d = false) {k : Keyword} (hk : k ∈ Table.standard.keywords)
    (halpha : k.alphabetic? = some true) {word after : Text}
    (hadmits : k.Admits place.afterLetter (c :: word) after)
    (hline : Listing.line .standard (bytesOf later) = word ++ after) :
    k.fits place.afterLetter (c :: rest) = true := by
  have hspelling : k.spelling = [c.toUpper] ++ Text.upper word := by
    rw [← Table.upper_of_mem_standard hk, ← hadmits.spelled]
    rfl
  have hlast : [c.toUpper].getLast?.any Char.isAlpha = (place.next c).afterLetter :=
    isAlpha_eq_of_toUpper_eq (toUpper_toUpper c)
  obtain ⟨word', after', rfl, hword', hafter'⟩ := h.completed hk halpha hrest hspelling
    (List.cons_ne_nil _ _) hlast hline rfl (hadmits.after halpha)
  refine Keyword.fits_iff.mpr ⟨c :: word', after', rfl, ?_, hadmits.before, fun _ => hafter'⟩
  rw [← hadmits.spelled]
  exact congrArg (c.toUpper :: ·) hword'

/-- So does an operator. -/
theorem Reading.fits_operator (h : Reading .standard place rest later)
    (hrest : ∀ d ∈ rest, isControl d = false) {k : Keyword} (hk : k ∈ Table.standard.keywords)
    (halpha : k.alphabetic? ≠ some true) {afterLetter before : Bool} {word after : Text}
    (hadmits : k.Admits afterLetter (c :: word) after)
    (hline : Listing.line .standard (bytesOf later) = word ++ after) :
    k.fits before (c :: rest) = true := by
  obtain ⟨first, -, second, hsecond, hoperator⟩ := Table.operator_of_mem_standard hk halpha
  have hspelled := hadmits.spelled
  rw [Table.upper_of_mem_standard hk, hoperator] at hspelled
  obtain ⟨e, rfl⟩ : ∃ e, word = [e] := by
    have hlength := congrArg List.length hspelled
    rw [Text.length_upper] at hlength
    exact List.length_eq_one_iff.mp (Nat.succ.inj hlength)
  have hbounds : second.toNat < 0x7F ∧ second.isAlpha = false ∧ second ≠ '?' := by
    simp only [List.mem_cons, List.not_mem_nil, or_false] at hsecond
    rcases hsecond with rfl | rfl | rfl <;> decide
  obtain rfl : e = second :=
    eq_of_toUpper_eq hbounds.2.1 (List.cons.inj (List.cons.inj hspelled).2).1
  obtain ⟨after', rfl⟩ : ∃ after', rest = e :: after' := by
    refine List.head?_eq_some_iff.mp ((h.head?_line_eq_some_iff hbounds.1 hbounds.2.1 hbounds.2.2
      hrest).mp ?_)
    rw [hline]
    rfl
  exact Keyword.fits_iff.mpr ⟨[c, e], after', rfl, hadmits.spelled, fun hk => absurd hk halpha,
    fun hk => absurd hk halpha⟩

/-- Where no keyword is read in a statement, none is read in its listing. -/
theorem Reading.read_line (h : Reading .standard (place.next c) rest later)
    (htext : ∀ d ∈ c :: rest, isControl d = false)
    (hread : Table.standard.read place.afterLetter (c :: rest) = .ok none)
    (hletter : c.isAlpha = true → place'.afterLetter = place.afterLetter) :
    Table.standard.read place'.afterLetter (shown c :: Listing.line .standard (bytesOf later)) =
      .ok none := by
  have hrest : ∀ d ∈ rest, isControl d = false := fun d hd => htext d (List.mem_cons_of_mem c hd)
  rw [Table.read_eq_none_iff] at hread ⊢
  intro k hk
  rw [Bool.eq_false_iff]
  intro hfits
  -- a keyword that fits the listing would fit the statement
  suffices hfits' : k.fits place.afterLetter (c :: rest) = true by
    rw [hread k hk] at hfits'
    cases hfits'
  obtain ⟨word, after, htaken, hadmits⟩ := Keyword.fits_iff.mp hfits
  have hspelled := hadmits.spelled
  rw [Table.upper_of_mem_standard hk] at hspelled
  obtain ⟨d, word, rfl⟩ : ∃ d word', word = d :: word' := by
    cases word with
    | nil => exact absurd hspelled.symm (Table.consistent_standard.spelled k hk)
    | cons d word => exact ⟨d, word, rfl⟩
  rw [List.cons_append, List.cons.injEq] at htaken
  obtain ⟨rfl, hline⟩ := htaken
  have hshown : shown c = c := by
    refine shown_of_isSpellingChar (Table.isSpellingChar_of_mem_standard hk ?_)
    rw [← hspelled]
    exact List.mem_cons_self
  rw [hshown] at hspelled hadmits
  by_cases halpha : k.alphabetic? = some true
  · have hc : c.isAlpha = true := by
      rw [Keyword.alphabetic?, ← hspelled] at halpha
      rw [← isAlpha_eq_of_toUpper_eq (toUpper_toUpper c)]
      exact Option.some.inj halpha
    rw [hletter hc] at hadmits
    exact h.fits_word hrest hk halpha hadmits hline
  · exact h.fits_operator hrest hk halpha hadmits hline

end Character

/-! ## Keywords -/

/-- The first byte of a statement is the code of a keyword only if that keyword is read there. -/
theorem Reading.read_of_code {place : Place} {c : Char} {rest : Text} {lexemes : List Lexeme}
    {code : UInt8} {back : Bytes} (h : Reading .standard place (c :: rest) lexemes)
    (hcode : Keyword.firstCode ≤ code) (hbytes : bytesOf lexemes = code :: back) :
    ∃ word, Table.standard.read place.afterLetter (c :: rest) = .ok (some (word, code)) := by
  have hchar : ∀ {d : Char} {back' : Bytes}, bytesOf lexemes ≠ charByte d :: back' :=
    fun hback => charByte_ne_code hcode _ (List.cons.inj (hback.symm.trans hbytes)).1
  cases h with
  | closed => exact absurd rfl hchar
  | unclosed => exact absurd rfl hchar
  | number => exact absurd rfl hchar
  | comment => exact absurd rfl hchar
  | keyword hplain hread =>
    rw [bytesOf_brokenAt_append] at hbytes
    rw [← (List.cons.inj hbytes).1]
    exact ⟨_, hread⟩
  | remark hplain hread =>
    rw [bytesOf_brokenAt_append] at hbytes
    rw [← (List.cons.inj hbytes).1]
    exact ⟨_, hread⟩
  | character => exact absurd (bytesOf_brokenAt_append _ _ _) hchar

namespace Keyword.Listed

variable {k kc : Keyword} {before : Bool} {place place' : Place} {c : Char}
  {tail after text : Text} {later : List Lexeme}

/-- After a clash the listing has other bytes. -/
theorem relisting_of_clashAt (h : k.Listed kc before (c :: tail) after)
    (hcode : k.code ≠ remark) (hlater : Reading .standard place text later)
    (htext : ∀ d ∈ text, isControl d = false)
    (hbefore : c.isAlpha = true → place'.afterLetter = false)
    (hclash : clashAt k.code (bytesOf later ++ [lineEnd]) = true) :
    bytesOf (scan .standard place' (kc.spelling ++ Listing.after (bytesOf later))) ≠
      k.code :: bytesOf later := by
  intro hbytes
  obtain ⟨spelling, hspelling⟩ := h.spelling_eq_cons
  have hread := reading_scan Table.consistent_standard place'
    (kc.spelling ++ Listing.after (bytesOf later))
  rw [hspelling, List.cons_append] at hread hbytes
  obtain ⟨word, hword⟩ :=
    hread.read_of_code (Table.firstCode_le_of_mem_standard h.mem) hbytes
  rw [← List.cons_append, ← hspelling] at hword
  exact h.read_of_clashAt hlater htext hbefore hcode hclash word hword

/-- Without one the keyword is read again, and the listing goes on behind it. -/
theorem scan_of_not_clashAt (h : k.Listed kc before (c :: tail) after)
    (hcode : k.code ≠ remark) (hlater : Reading .standard place text later)
    (htext : ∀ d ∈ text, isControl d = false) (hspaces : text.head? ≠ some ' ')
    (hbefore : c.isAlpha = true → place'.afterLetter = false)
    (hclash : clashAt k.code (bytesOf later ++ [lineEnd]) = false) :
    ∃ (d : Char) (rest : Text) (place'' : Place),
      scan .standard place' (kc.spelling ++ Listing.after (bytesOf later)) =
        Lexeme.brokenAt d rest ++ .keyword kc.spelling k.code (Listing.gap (bytesOf later))
          :: relisting place'' later ∧
      place''.opensStatement = false ∧
      (text.head?.any Char.isAlpha = true → place''.afterLetter = false) := by
  obtain ⟨hadmits, hread⟩ := h.read_of_not_clashAt hlater htext hbefore hclash
  obtain ⟨spelling, hspelling⟩ := h.spelling_eq_cons
  obtain ⟨hopens, hletter⟩ := Place.advance_keyword h.mem_listed hadmits place'
  have hline : (Listing.line .standard (bytesOf later)).head? ≠ some ' ' := fun hspace =>
    hspaces ((hlater.head?_line_eq_some_iff (by decide) (by decide) (by decide) htext).mp hspace)
  have hscan := scan_keyword (h.plain place' _) (hspelling ▸ hread) hcode hline
  rw [hlater.heads (fun _ _ hlike => hlike.isAlpha_eq) htext] at hletter
  rw [hspelling] at hopens hletter ⊢
  exact ⟨_, _, _, hscan, hopens, hletter⟩

/-- A remark clashes with its text if a space comes between them in the listing. -/
theorem clashAt_remark (h : k.Listed kc before (c :: tail) after) (hcode : k.code = remark) :
    clashAt remark (textBytes after ++ [lineEnd]) = (textBytes after).head?.any
      Listing.needsSpace := by
  have hc : c.isAlpha = true := by
    rw [← h.isWordCode_eq, hcode]
    exact isWordCode_named.1
  have hafter := h.admits.after (h.alphabetic?_iff.mpr hc)
  have hpeek : (remark == peek || remark == val) = false := by decide
  rw [clashAt, hpeek, beq_self_eq_true, Bool.true_and, Bool.false_and, Bool.false_and, Bool.or_false,
    head?_append_lineEnd (by decide +kernel), head?_append_lineEnd (by decide)]
  cases after with
  | nil => rw [textBytes, List.map_nil, List.head?_nil, Option.any_none, Bool.and_false]; rfl
  | cons d after =>
    -- the remark is a word by itself, so no letter or digit follows and only quote and point are left
    have hjoins := joinsWord_charByte d
    rw [joinsWord, isWordCode_charByte, Bool.or_false] at hjoins
    rw [textBytes, List.map_cons, List.head?_cons, Option.any_some, Option.any_some, Option.any_some,
      isWordCode_charByte, needsSpace_eq, hjoins, Bool.and_false, Bool.false_or]
    rw [List.head?_cons, Option.any_some] at hafter
    rw [hafter, Bool.false_or]

/-- A remark is read again as a remark, which has other bytes if a space came into it. -/
theorem relisted_remark (h : k.Listed kc before (c :: tail) after) (hcode : k.code = remark)
    (hafter : ∀ d ∈ after, isControl d = false)
    (hbefore : c.isAlpha = true → place'.afterLetter = false) :
    Relisted (clashes (remark :: (textBytes after ++ [lineEnd])))
      (scan .standard place' (Listing.line .standard (remark :: textBytes after)))
      [.remark (c :: tail) after] := by
  obtain ⟨spelling, hspelling⟩ := h.spelling_eq_cons
  have hline : Listing.line .standard (remark :: textBytes after) =
      kc.spelling ++ (List.replicate (Listing.gap (textBytes after)) ' ' ++ after.map shown) := by
    rw [Listing.line_code (hcode ▸ h.spelling?_eq), Listing.line_text hafter]
  have hnext : c.isAlpha = true → (List.replicate (Listing.gap (textBytes after)) ' '
      ++ after.map shown).head?.any Char.isAlphanum = false := by
    intro hc
    have hnot := h.admits.after (h.alphabetic?_iff.mpr hc)
    unfold Listing.gap
    split
    · rfl
    · cases after with
      | nil => rfl
      | cons d after => exact (alike_shown d).isAlphanum_eq.trans hnot
  -- the dollar signs of `read_spelling` concern other keywords
  have hnamed : ¬ (k.code = peek ∨ k.code = val) := by
    rw [hcode]
    decide
  have hread := h.read_spelling hbefore hnext fun hk => absurd hk hnamed
  rw [hspelling, List.cons_append, hcode] at hread
  have hscan := scan_remark (h.plain place' _) hread
  rw [hline, hspelling, List.cons_append, hscan, clashes_cons (by decide), clashes_textBytes hafter,
    clashes_lineEnd, Bool.or_false, h.clashAt_remark hcode]
  apply Relisted.broken_again
  cases hspace : (textBytes after).head?.any Listing.needsSpace with
  | true =>
    -- the space has become part of the remark, which is longer now
    rw [Listing.gap, if_pos hspace]
    intro hbytes
    have hlength := congrArg List.length hbytes
    simp [Lexeme.bytes, textBytes] at hlength
  | false =>
    rw [Listing.gap, if_neg (by rw [hspace]; decide)]
    refine Relisted.cons ?_ (fun _ => rfl) Relisted.nil
    exact congrArg (remark :: ·) (textBytes_map_shown after)

end Keyword.Listed

/-! ## Whole statements -/

section Steps

variable {place place' : Place} {rest : Text} {later : List Lexeme}

/-- A text that runs to the end of the line is read again, as it is shown. -/
theorem relisted_text {text : Text} {x y : Lexeme} (htext : ∀ d ∈ text, isControl d = false)
    (hscan : scan .standard place' (text.map shown) = [y]) (hx : x.bytes = textBytes text)
    (hy : y.bytes = textBytes (text.map shown))
    (hrefusal : ∀ strict, y.refusal? strict = x.refusal? strict) :
    Relisted (clashes (bytesOf [x] ++ [lineEnd])) (relisting place' [x]) [x] := by
  have hbytes : bytesOf [x] = textBytes text := by
    rw [bytesOf_cons, bytesOf_nil, List.append_nil, hx]
  rw [relisting, hbytes, Listing.line_text htext, hscan, clashes_textBytes htext, clashes_lineEnd]
  refine Relisted.nil.cons ?_ hrefusal
  rw [hx, hy, textBytes_map_shown]

/-- A closed string is read again, and the listing goes on behind it. -/
theorem relisted_closed {inner : Text} (hinner : '"' ∉ inner)
    (htext : ∀ d ∈ '"' :: (inner ++ ['"']), isControl d = false)
    (hopens : place'.opensStatement = place.opensStatement)
    (h : Relisted (clashes (bytesOf later ++ [lineEnd]))
      (relisting (place.advance ('"' :: (inner ++ ['"']))) later) later) :
    Relisted (clashes (bytesOf (.quoted ('"' :: (inner ++ ['"'])) :: later) ++ [lineEnd]))
      (relisting place' (.quoted ('"' :: (inner ++ ['"'])) :: later))
      (.quoted ('"' :: (inner ++ ['"'])) :: later) := by
  have hshown : ('"' :: (inner ++ ['"'])).map shown = '"' :: (inner.map shown ++ ['"']) := by
    rw [List.map_cons, List.map_append]
    rfl
  have hplace := Place.advance_shown hopens (List.cons_ne_nil '"' (inner ++ ['"']))
  rw [hshown] at hplace
  have hbytes : bytesOf (.quoted ('"' :: (inner ++ ['"'])) :: later)
      = textBytes ('"' :: (inner ++ ['"'])) ++ bytesOf later := rfl
  rw [relisting, hbytes, Listing.line_textBytes htext, hshown, List.cons_append,
    ← List.append_cons, scan_closed (quote_not_mem_map_shown hinner), hplace, List.append_assoc,
    clashes_textBytes htext]
  refine h.cons ?_ fun _ => rfl
  rw [← hshown]
  exact textBytes_map_shown _

/-- A number is read again, with the same hidden value. -/
theorem relisted_number {c : Char} {tail : Text} {value : Number}
    (hstart : Lexeme.startsNumber c (tail ++ rest) = true)
    (hrun : ∀ d ∈ c :: tail, Literal.isLiteralChar d = true)
    (hend : rest.head?.any Literal.isLiteralChar = false)
    (hvalue : Literal.value? (c :: tail) = some value)
    (hrest : Reading .standard (place.advance (c :: tail)) rest later)
    (hcontrol : ∀ d ∈ rest, isControl d = false)
    (hopens : place'.opensStatement = place.opensStatement)
    (h : Relisted (clashes (bytesOf later ++ [lineEnd]))
      (relisting (place.advance (c :: tail)) later) later) :
    Relisted (clashes (bytesOf (.number (c :: tail) value :: later) ++ [lineEnd]))
      (relisting place' (.number (c :: tail) value :: later))
      (.number (c :: tail) value :: later) := by
  have hnumber : Lexeme.startsNumber c (tail ++ Listing.line .standard (bytesOf later)) = true := by
    have hbounds := bounds_of_isLiteralChar (hrun c List.mem_cons_self)
    have hlike : Alike c c := alike_of_toUpper_eq (by omega) rfl
    rw [hrest.startsNumber_line hcontrol hlike, hstart]
  have hstop : (Listing.line .standard (bytesOf later)).head?.any Literal.isLiteralChar = false := by
    rw [hrest.heads (fun _ _ hlike => hlike.isLiteralChar_eq) hcontrol, hend]
  have hplace : place'.advance (c :: tail) = place.advance (c :: tail) := by
    have hshown := Place.advance_shown hopens (List.cons_ne_nil c tail)
    rwa [map_shown_of_isLiteralChar hrun] at hshown
  rw [relisting, bytesOf_cons, Listing.line_number hrun, List.cons_append,
    scan_number hnumber hrun hstop hvalue, hplace, List.append_assoc, clashes_number hrun]
  exact h.cons rfl fun _ => rfl

/-- Any other character is read again as it is shown, and no keyword starts with it either. -/
theorem relisted_character {c : Char} (hplain : Lexeme.Plain place c rest)
    (hread : Table.standard.read place.afterLetter (c :: rest) = .ok none)
    (hrest : Reading .standard (place.next c) rest later)
    (htext : ∀ d ∈ c :: rest, isControl d = false)
    (hopens : place'.opensStatement = place.opensStatement)
    (hletter : c.isAlpha = true → place'.afterLetter = place.afterLetter)
    (h : Relisted (clashes (bytesOf later ++ [lineEnd])) (relisting (place.next c) later) later) :
    Relisted (clashes (bytesOf (.character c :: later) ++ [lineEnd]))
      (relisting place' (.character c :: later)) (.character c :: later) := by
  have hc := htext c List.mem_cons_self
  have hbytes : bytesOf (.character c :: later) = textBytes [c] ++ bytesOf later := rfl
  have hline : Listing.line .standard (textBytes [c] ++ bytesOf later) =
      shown c :: Listing.line .standard (bytesOf later) := Listing.line_charByte hc _
  rw [relisting, hbytes, hline,
    scan_character (hrest.plain_line htext hplain hopens) (hrest.read_line htext hread hletter),
    Place.next_alike hopens (alike_shown c), List.append_assoc,
    clashes_textBytes fun d hd => List.mem_singleton.mp hd ▸ hc]
  refine Relisted.broken_again (h.cons ?_ fun _ => rfl)
  exact textBytes_map_shown [c]

end Steps

/-- **A listing is read next to its statement.** From places that agree on what matters there, the
listing of a statement without control characters has the same bytes as the statement, and as much of
it is refused, unless the bytes clash. Then it has other bytes. -/
theorem Reading.relisted {place place' : Place} {text : Text} {lexemes : List Lexeme}
    (h : Reading .standard place text lexemes) (htext : ∀ c ∈ text, isControl c = false)
    (hopens : place'.opensStatement = place.opensStatement)
    (hletter : text.head?.any Char.isAlpha = true → place'.afterLetter = place.afterLetter) :
    Relisted (clashes (bytesOf lexemes ++ [lineEnd])) (relisting place' lexemes) lexemes := by
  -- behind a keyword the two places need not be the same: the listing may have put a space there
  induction h generalizing place' with
  | done =>
    rw [relisting, bytesOf_nil, Listing.line_nil, scan_nil, List.nil_append, clashes_lineEnd]
    exact Relisted.nil
  | @closed place inner rest later hinner hrest ih =>
    rw [List.append_cons, ← List.cons_append, List.forall_mem_append] at htext
    exact relisted_closed hinner htext.1 hopens (ih htext.2 rfl fun _ => rfl)
  | @unclosed place inner hinner =>
    have hscan : scan .standard place' (('"' :: inner).map shown) = _ :=
      scan_unclosed (quote_not_mem_map_shown hinner)
    exact relisted_text htext hscan rfl rfl fun _ => rfl
  | @number place c tail rest value later hstart hrun hend hvalue hrest ih =>
    have hcontrol : ∀ d ∈ rest, isControl d = false := fun d hd =>
      htext d (List.mem_append_right (c :: tail) hd)
    exact relisted_number hstart hrun hend hvalue hrest hcontrol hopens (ih hcontrol rfl fun _ => rfl)
  | @comment place rest hplace =>
    have hscan : scan .standard place' ((';' :: rest).map shown) = _ :=
      scan_comment (hopens.trans hplace)
    exact relisted_text htext hscan rfl rfl fun _ => rfl
  | @keyword place c tail rest code spaces later hplain hread hcode hspaces hrest ih =>
    obtain ⟨k, kc, rfl, hlisted⟩ := Keyword.Listed.of_read hread
    have hcontrol : ∀ d ∈ rest, isControl d = false := fun d hd =>
      htext d (List.mem_cons_of_mem c (List.mem_append_right tail (List.mem_append_right _ hd)))
    have hbefore : c.isAlpha = true → place'.afterLetter = false := fun hc =>
      (hletter hc).trans (hlisted.admits.before (hlisted.alphabetic?_iff.mpr hc))
    have hmarker : k.code ≠ Hidden.marker := fun hk =>
      absurd (hk ▸ Table.firstCode_le_of_mem_standard hlisted.mem) (by decide)
    apply Relisted.broken
    rw [relisting, bytesOf_brokenAt_append, bytesOf_cons, Lexeme.bytes, List.singleton_append,
      Listing.line_code hlisted.spelling?_eq, List.cons_append, clashes_cons hmarker]
    cases hclash : clashAt k.code (bytesOf later ++ [lineEnd]) with
    | true => exact hlisted.relisting_of_clashAt hcode hrest hcontrol hbefore hclash
    | false =>
      -- both places are behind a keyword now, where only a letter in front of a letter could matter
      obtain ⟨d, rest', place'', hscan, hopens', hletter'⟩ :=
        hlisted.scan_of_not_clashAt hcode hrest hcontrol hspaces hbefore hclash
      obtain ⟨hopens'', hletter''⟩ := Place.advance_keyword hlisted.mem hlisted.admits place
      unfold Listing.after at hscan
      rw [hscan, Bool.false_or]
      refine Relisted.broken_again (Relisted.cons rfl (fun _ => rfl) (ih hcontrol ?_ ?_))
      · exact hopens'.trans hopens''.symm
      · exact fun hnext => (hletter' hnext).trans (hletter'' hnext).symm
  | @remark place c tail rest hplain hread =>
    obtain ⟨k, kc, hcode, hlisted⟩ := Keyword.Listed.of_read hread
    have hcontrol : ∀ d ∈ rest, isControl d = false := fun d hd =>
      htext d (List.mem_cons_of_mem c (List.mem_append_right tail hd))
    have hbefore : c.isAlpha = true → place'.afterLetter = false := fun hc =>
      (hletter hc).trans (hlisted.admits.before (hlisted.alphabetic?_iff.mpr hc))
    apply Relisted.broken
    rw [relisting, bytesOf_brokenAt_append, bytesOf_cons, bytesOf_nil, List.append_nil,
      Lexeme.bytes]
    exact hlisted.relisted_remark hcode hcontrol hbefore
  | @character place c rest later hplain hread hrest ih =>
    have hcontrol : ∀ d ∈ rest, isControl d = false := fun d hd =>
      htext d (List.mem_cons_of_mem c hd)
    apply Relisted.broken
    rw [relisting, bytesOf_brokenAt_append]
    exact relisted_character hplain hread hrest htext hopens hletter (ih hcontrol rfl fun _ => rfl)

end SpectrumBasic
