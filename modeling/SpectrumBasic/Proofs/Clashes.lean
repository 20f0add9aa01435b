import SpectrumBasic.Proofs.LineListing

/-!
# Where a listing is read differently

A listing puts a space behind a keyword in front of letters and digits, quotes and points, but not in
front of another keyword. So there are lines whose listing is not read as these lines again: two words
run together, a remark that starts with a quote or a point gets a space it did not have, and a dollar
sign joins `PEEK` or `VAL`. `clashes` finds these places in the bytes of a line.

A keyword that does not clash with what follows it is read again in its listing
(`Keyword.Listed.read_spelling`), and one that does is not (`Keyword.Listed.of_read_spelling`).
-/

namespace SpectrumBasic

/-! ## Clashes -/

/-- The bytes of a line without its hidden values; their markers stay. -/
def visible (bytes : Bytes) : Bytes :=
  match bytes with
  | [] => []
  | b :: rest => b :: visible (if b = Hidden.marker then rest.drop Hidden.size else rest)
termination_by bytes.length
decreasing_by
  split
  · simp only [List.length_drop, List.length_cons]
    omega
  · exact Nat.lt_succ_self _

/-- Whether a byte clashes with the bytes after it: two words, a remark that starts with a quote or a
point, or `PEEK` or `VAL` in front of a dollar sign that ends a word there. -/
def clashAt (b : UInt8) (rest : Bytes) : Bool :=
  (isWordCode b && rest.head?.any isWordCode)
    || (b == Keyword.remark && rest.head?.any fun next => next == 0x22 || next == 0x2E)
    || ((b == Keyword.peek || b == Keyword.val) && rest.head? == some 0x24
      && !rest.tail.head?.any joinsWord)

/-- Whether some byte clashes with those after it. -/
def clashIn : Bytes → Bool
  | [] => false
  | b :: rest => clashAt b rest || clashIn rest

/-- Whether a line has a clash, hidden values aside. -/
def clashes (bytes : Bytes) : Bool := clashIn (visible bytes)

/-- The same without the search: what a clash looks like in the visible bytes of a line. -/
inductive Clash : Bytes → Prop
  | words {front back : Bytes} {b next : UInt8} (hb : isWordCode b = true)
      (hnext : isWordCode next = true) : Clash (front ++ b :: next :: back)
  /-- A remark that starts with a quote or a point. -/
  | remark {front back : Bytes} {next : UInt8} (hnext : next = 0x22 ∨ next = 0x2E) :
      Clash (front ++ Keyword.remark :: next :: back)
  /-- `PEEK` or `VAL` with a dollar sign that neither a letter or digit nor a word follows. -/
  | dollar {front back : Bytes} {b : UInt8} (hb : b = Keyword.peek ∨ b = Keyword.val)
      (hends : back.head?.any joinsWord = false) : Clash (front ++ b :: 0x24 :: back)

/-- A clash stays one behind more bytes. -/
theorem Clash.cons {bytes : Bytes} (h : Clash bytes) (b : UInt8) : Clash (b :: bytes) := by
  cases h with
  | @words front back first next hb hnext => exact @words (b :: front) back first next hb hnext
  | @remark front back next hnext => exact @remark (b :: front) back next hnext
  | @dollar front back first hb hends => exact @dollar (b :: front) back first hb hends

/-- A byte that clashes with those after it is a clash. -/
theorem Clash.of_clashAt {b : UInt8} {rest : Bytes} (h : clashAt b rest = true) :
    Clash (b :: rest) := by
  cases rest with
  | nil => simp [clashAt] at h
  | cons next back =>
    simp only [clashAt, List.head?_cons, Option.any_some, Bool.or_eq_true, Bool.and_eq_true,
      beq_iff_eq, Option.some.injEq, List.tail_cons, Bool.not_eq_true'] at h
    rcases h with (⟨hb, hnext⟩ | ⟨rfl, hnext⟩) | ⟨⟨hb, rfl⟩, hends⟩
    · exact @words [] back b next hb hnext
    · exact @remark [] back next hnext
    · exact @dollar [] back b hb hends

theorem clashIn_append (front : Bytes) {back : Bytes} (h : clashIn back = true) :
    clashIn (front ++ back) = true := by
  induction front with
  | nil => exact h
  | cons b front ih => rw [List.cons_append, clashIn, ih, Bool.or_true]

/-- The search finds the clashes. -/
theorem clashIn_eq_true_iff {bytes : Bytes} : clashIn bytes = true ↔ Clash bytes := by
  constructor
  · intro h
    induction bytes with
    | nil => cases h
    | cons b rest ih =>
      rw [clashIn, Bool.or_eq_true] at h
      rcases h with hhere | hlater
      · exact .of_clashAt hhere
      · exact (ih hlater).cons b
  · intro h
    cases h with
    | words hb hnext =>
      apply clashIn_append _
      rw [clashIn, clashAt, hb, List.head?_cons, Option.any_some, hnext]
      rfl
    | @remark front back next hnext =>
      apply clashIn_append _
      have hnext' : (next == 0x22 || next == 0x2E) = true := by simpa using hnext
      rw [clashIn, clashAt, beq_self_eq_true, List.head?_cons, Option.any_some, Option.any_some,
        hnext']
      simp
    | @dollar front back b hb hends =>
      apply clashIn_append _
      have hb' : (b == Keyword.peek || b == Keyword.val) = true := by simpa using hb
      rw [clashIn, clashAt, hb', List.tail_cons, hends]
      simp

instance (bytes : Bytes) : Decidable (Clash bytes) := decidable_of_iff _ clashIn_eq_true_iff

theorem visible_cons {b : UInt8} (h : b ≠ Hidden.marker) (rest : Bytes) :
    visible (b :: rest) = b :: visible rest := by
  rw [visible, if_neg h]

/-- A hidden value is not visible. -/
theorem visible_hidden (value : Number) (rest : Bytes) :
    visible (Hidden.marker :: (Hidden.pack value ++ rest)) = Hidden.marker :: visible rest := by
  rw [visible, if_pos rfl, List.drop_left' (Hidden.length_pack value)]

theorem head?_visible (bytes : Bytes) : (visible bytes).head? = bytes.head? := by
  cases bytes with
  | nil => rw [visible]
  | cons b rest =>
    rw [visible]
    rfl

/-- Hidden values are too far away to clash with. -/
theorem clashAt_visible (b : UInt8) (rest : Bytes) : clashAt b (visible rest) = clashAt b rest := by
  by_cases hdollar : rest.head? = some 0x24
  · cases rest with
    | nil => cases hdollar
    | cons next rest =>
      rw [List.head?_cons, Option.some.injEq] at hdollar
      rw [visible_cons (by rw [hdollar]; decide), clashAt, clashAt, List.tail_cons, List.tail_cons,
        head?_visible]
      rfl
  · have hnot : (rest.head? == some 0x24) = false := beq_eq_false_iff_ne.mpr hdollar
    rw [clashAt, clashAt, head?_visible, hnot]
    simp

theorem clashes_cons {b : UInt8} (h : b ≠ Hidden.marker) (rest : Bytes) :
    clashes (b :: rest) = (clashAt b rest || clashes rest) := by
  rw [clashes, visible_cons h, clashIn, clashAt_visible]
  rfl

theorem isWordCode_named : isWordCode Keyword.remark = true ∧ isWordCode Keyword.peek = true ∧
    isWordCode Keyword.val = true := by
  decide +kernel

/-- Only words clash. -/
theorem clashAt_of_isWordCode {b : UInt8} (h : isWordCode b = false) (rest : Bytes) :
    clashAt b rest = false := by
  have hne : ∀ {code : UInt8}, isWordCode code = true → (b == code) = false := by
    intro code hcode
    apply beq_eq_false_iff_ne.mpr
    rintro rfl
    rw [h] at hcode
    cases hcode
  obtain ⟨hremark, hpeek, hval⟩ := isWordCode_named
  rw [clashAt, h, hne hremark, hne hpeek, hne hval]
  rfl

/-- Text does not clash. -/
theorem clashes_textBytes {text : Text} (htext : ∀ c ∈ text, isControl c = false) (rest : Bytes) :
    clashes (textBytes text ++ rest) = clashes rest := by
  induction text with
  | nil => rfl
  | cons c text ih =>
    have hc := htext c List.mem_cons_self
    show clashes (charByte c :: (textBytes text ++ rest)) = clashes rest
    rw [clashes_cons (Listing.charByte_ne_marker hc),
      clashAt_of_isWordCode (isWordCode_charByte c), Bool.false_or,
      ih fun d hd => htext d (List.mem_cons_of_mem c hd)]

theorem clashes_lineEnd : clashes [lineEnd] = false := by
  rw [clashes_cons (by decide), clashAt_of_isWordCode (by decide +kernel), Bool.false_or, clashes,
    visible]
  rfl

/-- A number does not clash. -/
theorem clashes_number {run : Text} (hrun : ∀ c ∈ run, Literal.isLiteralChar c = true)
    (value : Number) (rest : Bytes) :
    clashes ((Lexeme.number run value).bytes ++ rest) = clashes rest := by
  have hcontrol : ∀ c ∈ run, isControl c = false := fun c hc =>
    isControl_of_isLiteralChar (hrun c hc)
  have hmarker : isWordCode Hidden.marker = false := by decide +kernel
  rw [Lexeme.bytes, List.append_assoc, clashes_textBytes hcontrol, List.cons_append, clashes,
    visible_hidden, clashIn, clashAt_of_isWordCode hmarker, Bool.false_or]
  rfl

/-! ## What follows a keyword in a listing -/

/-- The text that follows a keyword in front of some bytes. -/
def Listing.after (following : Bytes) : Text :=
  List.replicate (Listing.gap following) ' ' ++ Listing.line .standard following

/-- A keyword is followed at once by what does not start with a space. -/
theorem Listing.after_eq_line {following : Bytes} (h : (Listing.after following).head? ≠ some ' ') :
    Listing.after following = Listing.line .standard following := by
  rw [Listing.after, Listing.gap] at h ⊢
  split at h
  · exact absurd rfl h
  · rename_i hspace
    rw [if_neg hspace]
    rfl

/-- A keyword is kept apart from letters and digits, quotes and points. -/
theorem needsSpace_eq (b : UInt8) :
    Listing.needsSpace b = (isAlphanumByte b || (b == 0x22 || b == 0x2E)) := by
  have hbyte : ∀ code : UInt8, Char.ofNat b.toNat = Char.ofNat code.toNat ↔ b = code := by
    intro code
    rw [← Char.toNat_inj, toNat_ofNat_toNat, toNat_ofNat_toNat, UInt8.toNat_inj]
  have hquote : decide (Char.ofNat b.toNat = '"') = (b == 0x22) :=
    decide_eq_decide.mpr (hbyte 0x22)
  have hpoint : decide (Char.ofNat b.toNat = '.') = (b == 0x2E) :=
    decide_eq_decide.mpr (hbyte 0x2E)
  simp only [Listing.needsSpace, hquote, hpoint, isAlphanumByte, Bool.or_assoc]

/-- No word needs a space. -/
theorem isWordCode_of_needsSpace {b : UInt8} (h : Listing.needsSpace b = true) :
    isWordCode b = false := by
  cases hword : Table.standard.spelling? b with
  | none =>
    rw [isWordCode, hword]
    rfl
  | some word =>
    obtain ⟨k, hk, rfl, -⟩ := Table.exists_of_spelling? hword
    rw [needsSpace_of_mem_standard hk] at h
    cases h

/-- After a keyword a letter or digit is listed only where another word follows. -/
theorem Reading.head?_after {place : Place} {text : Text} {lexemes : List Lexeme}
    (h : Reading .standard place text lexemes) (htext : ∀ c ∈ text, isControl c = false) :
    (Listing.after (bytesOf lexemes)).head?.any Char.isAlphanum =
      (bytesOf lexemes).head?.any isWordCode := by
  have hline : (Listing.line .standard (bytesOf lexemes)).head?.any Char.isAlphanum =
      (bytesOf lexemes).head?.any joinsWord := by
    rw [h.heads (fun _ _ hlike => hlike.isAlphanum_eq) htext, h.head?_any_joinsWord]
  cases hbytes : bytesOf lexemes with
  | nil => rw [Listing.after, Listing.line_nil]; rfl
  | cons b back =>
    rw [hbytes] at hline
    -- letters and digits are among what needs a space, so without one only a word is left
    cases hspace : Listing.needsSpace b with
    | true =>
      have hgap : Listing.gap (b :: back) = 1 := if_pos hspace
      rw [Listing.after, hgap, List.head?_cons, Option.any_some, isWordCode_of_needsSpace hspace]
      rfl
    | false =>
      have hgap : Listing.gap (b :: back) = 0 := by
        rw [Listing.gap, List.head?_cons, Option.any_some, hspace]
        rfl
      have hbyte : isAlphanumByte b = false := by
        rw [Bool.eq_false_iff]
        intro halphanum
        rw [needsSpace_of_isAlphanumByte halphanum] at hspace
        cases hspace
      rw [Listing.after, hgap, List.replicate_zero, List.nil_append, hline, List.head?_cons,
        Option.any_some, Option.any_some, joinsWord, hbyte, Bool.false_or]

/-! ## A keyword in a listing -/

namespace Keyword.Listed

variable {k kc : Keyword} {before afterLetter : Bool} {c : Char} {tail rest following : Text}

/-- A longer keyword that fits where the listed spelling stands goes on behind it. -/
theorem extends_of_fits (h : k.Listed kc before (c :: tail) rest) {longer : Keyword}
    (hlonger : longer ∈ Table.standard.keywords)
    (hfits : longer.fits afterLetter (kc.spelling ++ following) = true)
    (hlt : kc.spelling.length < longer.spelling.length) :
    ∃ d more rest', following = d :: (more ++ rest') ∧
      longer.spelling = kc.spelling ++ d.toUpper :: Text.upper more ∧
      (longer.alphabetic? = some true → rest'.head?.any Char.isAlphanum = false) := by
  obtain ⟨word, rest', htext, hlong⟩ := fits_iff.mp hfits
  rw [← hlong.length_eq] at hlt
  obtain ⟨d, more, rfl, rfl⟩ : ∃ d more, word = kc.spelling ++ d :: more ∧
      following = d :: (more ++ rest') := by
    rcases List.append_eq_append_iff.mp htext with ⟨more, rfl, rfl⟩ | ⟨more, hmore, -⟩
    · cases more with
      | nil => exact absurd hlt (by simp)
      | cons d more => exact ⟨d, more, rfl, rfl⟩
    · rw [hmore, List.length_append] at hlt
      omega
  have hword := hlong.spelled
  rw [Table.upper_of_mem_standard hlonger, Text.upper_append,
    Table.upper_of_mem_standard h.mem_listed] at hword
  exact ⟨d, more, rest', rfl, hword.symm, hlong.after⟩

/-- The listed spelling is read again if it is still a word of its own and no dollar sign joins
it. -/
theorem read_spelling (h : k.Listed kc before (c :: tail) rest)
    (hbefore : c.isAlpha = true → afterLetter = false)
    (hafter : c.isAlpha = true → following.head?.any Char.isAlphanum = false)
    (hdollar : k.code = peek ∨ k.code = val →
      ∀ more, following = '$' :: more → more.head?.any Char.isAlphanum = true) :
    Table.standard.read afterLetter (kc.spelling ++ following) =
      .ok (some (kc.spelling, k.code)) := by
  have hadmits : kc.Admits afterLetter kc.spelling following :=
    ⟨rfl, fun hkc => hbefore (h.alphabetic?_listed_iff.mp hkc),
      fun hkc => hafter (h.alphabetic?_listed_iff.mp hkc)⟩
  rw [← h.code_eq]
  apply Table.consistent_standard.read_of_admits h.mem_listed hadmits
  -- a longer keyword could only be this one with a dollar sign, and the word goes on behind that
  intro longer hlonger hfits
  refine Nat.le_of_not_lt fun hlt => ?_
  obtain ⟨d, more, rest', rfl, hspelling, hapart⟩ := h.extends_of_fits hlonger hfits hlt
  have happart : kc.alphabetic? = some true → d.toUpper.isAlphanum = false := by
    intro hkc
    have hd : d.isAlphanum = false := hafter (h.alphabetic?_listed_iff.mp hkc)
    rw [Char.isAlphanum, isAlpha_eq_of_toUpper_eq (toUpper_toUpper d),
      isDigit_eq_of_toUpper_eq (toUpper_toUpper d)]
    exact hd
  obtain ⟨hcode, hd, hmore⟩ :=
    Table.extension_of_mem_standard h.mem_listed hlonger hspelling happart
  obtain rfl : d = '$' := eq_of_toUpper_eq (by decide) hd
  obtain rfl : more = [] := List.map_eq_nil_iff.mp hmore
  have hword : longer.alphabetic? = some true := by
    refine Table.alphabetic?_of_dollar hlonger ?_
    rw [hspelling]
    exact List.mem_append_right _ List.mem_cons_self
  have hnext := hdollar (h.code_eq ▸ hcode) rest' rfl
  rw [hapart hword] at hnext
  cases hnext

/-- If the listed spelling is read again, it is a word of its own, and nothing longer fits. -/
theorem of_read_spelling (h : k.Listed kc before (c :: tail) rest) {word : Text}
    (hread : Table.standard.read afterLetter (kc.spelling ++ following) =
      .ok (some (word, k.code))) :
    (c.isAlpha = true → following.head?.any Char.isAlphanum = false) ∧
      ∀ longer ∈ Table.standard.keywords,
        longer.fits afterLetter (kc.spelling ++ following) = true →
          longer.spelling.length ≤ kc.spelling.length := by
  obtain ⟨k', hk', rest', htext, hadmits, -, hcode, hlongest⟩ := Table.read_eq_some hread
  -- what is read has the code of `k`, but it could be an alias
  have hspelling : k'.spelling = kc.spelling := by
    rcases Table.alias_of_mem_standard hk' (hcode ▸ h.spelling?_eq) with heq | ⟨hle, hnot⟩
    · exact heq
    · -- an alias that is read there would start the spelling
      obtain ⟨more, hmore⟩ : ∃ more, kc.spelling = word ++ more := by
        rcases List.append_eq_append_iff.mp htext with ⟨more, hmore, -⟩ | ⟨more, hmore, -⟩
        · have hnil : more = [] := by
            rw [← hadmits.length_eq, hmore, List.length_append] at hle
            exact List.length_eq_zero_iff.mp (by omega)
          exact ⟨[], by rw [hmore, hnil, List.append_nil, List.append_nil]⟩
        · exact ⟨more, hmore⟩
      have hupper := Table.upper_of_mem_standard h.mem_listed
      rw [hmore, Text.upper_append, hadmits.spelled, Table.upper_of_mem_standard hk'] at hupper
      rw [hmore, ← hupper, Bool.eq_false_iff, ne_eq, List.isPrefixOf_iff_prefix] at hnot
      exact absurd (List.prefix_append _ _) hnot
  have hlength : kc.spelling.length = word.length := by
    rw [hadmits.length_eq, hspelling]
  obtain ⟨-, rfl⟩ := List.append_inj htext hlength
  have halpha : k'.alphabetic? = some true ↔ c.isAlpha = true := by
    rw [← h.alphabetic?_iff, ← h.alphabetic?_eq, alphabetic?, alphabetic?, hspelling]
  rw [hspelling] at hlongest
  exact ⟨fun hc => hadmits.after (halpha.mpr hc), hlongest⟩

/-- In a listing a keyword stands at a plain place. -/
theorem plain (h : k.Listed kc before (c :: tail) rest) (place : Place) (text : Text) :
    Lexeme.Plain place c.toUpper text := by
  have hliteral : Literal.isLiteralChar c.toUpper = false := by
    rw [h.alike.isLiteralChar_eq, h.isLiteralChar_eq_false]
  -- keywords start with a letter or with the first character of an operator
  have hne : ∀ x : Char, x.isAlpha = false → x ≠ '<' → x ≠ '>' → c.toUpper ≠ x := by
    intro x hx hless hgreater heq
    rcases h.isAlpha_or_operator with halpha | hc | hc
    · rw [eq_of_toUpper_eq hx heq, hx] at halpha
      cases halpha
    · exact hless ((eq_of_toUpper_eq hx heq).symm.trans hc)
    · exact hgreater ((eq_of_toUpper_eq hx heq).symm.trans hc)
  refine ⟨hne '"' (by decide) (by decide) (by decide), ?_, ?_⟩
  · intro hstart
    rw [Literal.isLiteralChar, Bool.or_eq_false_iff] at hliteral
    rw [Lexeme.startsNumber, hliteral.1, hliteral.2] at hstart
    cases hstart
  · rintro ⟨hsemicolon, -⟩
    exact hne ';' (by decide) (by decide) (by decide) hsemicolon

end Keyword.Listed

/-! ## Clashes with what follows -/

theorem head?_append_lineEnd {p : UInt8 → Bool} (hp : p lineEnd = false) (bytes : Bytes) :
    (bytes ++ [lineEnd]).head?.any p = bytes.head?.any p := by
  cases bytes with
  | nil => exact hp
  | cons b rest => rfl

/-- A dollar sign is always read by itself. -/
theorem Reading.dollar {place : Place} {rest : Text} {lexemes : List Lexeme}
    (h : Reading .standard place ('$' :: rest) lexemes) :
    ∃ later, bytesOf lexemes = 0x24 :: bytesOf later ∧
      Reading .standard (place.next '$') rest later := by
  cases h with
  | number hstart => exact absurd hstart Bool.false_ne_true
  | keyword hplain hread =>
    obtain ⟨k, kc, -, hlisted⟩ := Keyword.Listed.of_read hread
    exact absurd hlisted.isAlpha_or_operator (by decide)
  | remark hplain hread =>
    obtain ⟨k, kc, -, hlisted⟩ := Keyword.Listed.of_read hread
    exact absurd hlisted.isAlpha_or_operator (by decide)
  | character hplain hread hrest => exact ⟨_, bytesOf_brokenAt_append _ _ _, hrest⟩

/-- The byte of a dollar sign comes from one. -/
theorem Reading.of_dollar {place : Place} {text : Text} {lexemes : List Lexeme} {back : Bytes}
    (h : Reading .standard place text lexemes) (hbytes : bytesOf lexemes = 0x24 :: back) :
    ∃ rest later, text = '$' :: rest ∧ back = bytesOf later ∧
      Reading .standard (place.next '$') rest later := by
  obtain ⟨c, rest, rfl, hc⟩ := h.exists_of_charByte (c := '$') hbytes
  obtain rfl : c = '$' := (charByte_eq_iff (by decide) (by decide)).mp hc
  obtain ⟨later, hlater, hrest⟩ := h.dollar
  rw [hbytes, List.cons.injEq] at hlater
  exact ⟨rest, later, rfl, hlater.2, hrest⟩

section Following

variable {k kc : Keyword} {before afterLetter : Bool} {place : Place} {c : Char}
  {tail after text : Text} {later : List Lexeme}

/-- A keyword that does not clash with what follows is read again in its listing. -/
theorem Keyword.Listed.read_of_not_clashAt (h : k.Listed kc before (c :: tail) after)
    (hlater : Reading .standard place text later) (htext : ∀ d ∈ text, isControl d = false)
    (hbefore : c.isAlpha = true → afterLetter = false)
    (hclash : clashAt k.code (bytesOf later ++ [lineEnd]) = false) :
    kc.Admits afterLetter kc.spelling (Listing.after (bytesOf later)) ∧
    Table.standard.read afterLetter (kc.spelling ++ Listing.after (bytesOf later)) =
      .ok (some (kc.spelling, k.code)) := by
  simp only [clashAt, Bool.or_eq_false_iff, Bool.and_eq_false_imp] at hclash
  obtain ⟨⟨hwords, -⟩, hdollar⟩ := hclash
  have hafter : c.isAlpha = true →
      (Listing.after (bytesOf later)).head?.any Char.isAlphanum = false := by
    intro hc
    have hword := hwords (h.isWordCode_eq.trans hc)
    rw [head?_append_lineEnd (by decide +kernel)] at hword
    rw [hlater.head?_after htext, hword]
  refine ⟨⟨rfl, fun hkc => hbefore (h.alphabetic?_listed_iff.mp hkc),
    fun hkc => hafter (h.alphabetic?_listed_iff.mp hkc)⟩, h.read_spelling hbefore hafter ?_⟩
  intro hcode more hmore
  -- the dollar sign stands in the statement too, and what follows it there joins a word
  rw [Listing.after_eq_line (by rw [hmore]; simp)] at hmore
  obtain ⟨rest, rfl⟩ : ∃ rest, text = '$' :: rest := by
    refine List.head?_eq_some_iff.mp ((hlater.head?_line_eq_some_iff (by decide) (by decide)
      (by decide) htext).mp ?_)
    rw [hmore]
    rfl
  obtain ⟨later', hbytes, hrest⟩ := hlater.dollar
  have hline := Listing.line_charByte (show isControl '$' = false from rfl) (bytesOf later')
  have hsame : Listing.line .standard (bytesOf later') = more := by
    rw [hbytes] at hmore
    exact (List.cons.inj (hline.symm.trans hmore)).2
  rw [hbytes] at hdollar
  have hjoins := hdollar (by simpa using hcode)
  rw [List.cons_append, List.tail_cons, head?_append_lineEnd (by decide +kernel),
    hrest.head?_any_joinsWord, Bool.not_eq_false'] at hjoins
  rw [← hsame, hrest.heads (fun _ _ hlike => hlike.isAlphanum_eq) fun d hd =>
    htext d (List.mem_cons_of_mem '$' hd), hjoins]

/-- A keyword that clashes with what follows is read as something else in its listing. -/
theorem Keyword.Listed.read_of_clashAt (h : k.Listed kc before (c :: tail) after)
    (hlater : Reading .standard place text later) (htext : ∀ d ∈ text, isControl d = false)
    (hbefore : c.isAlpha = true → afterLetter = false) (hcode : k.code ≠ Keyword.remark)
    (hclash : clashAt k.code (bytesOf later ++ [lineEnd]) = true) (word : Text) :
    Table.standard.read afterLetter (kc.spelling ++ Listing.after (bytesOf later)) ≠
      .ok (some (word, k.code)) := by
  intro hread
  obtain ⟨hafter, hlongest⟩ := h.of_read_spelling hread
  simp only [clashAt, Bool.or_eq_true, Bool.and_eq_true, beq_iff_eq] at hclash
  rcases hclash with (⟨hk, hword⟩ | ⟨hremark, -⟩) | ⟨⟨hnamed, hdollar⟩, hends⟩
  · -- two words run together
    rw [head?_append_lineEnd (by decide +kernel), ← hlater.head?_after htext,
      hafter (h.isWordCode_eq ▸ hk)] at hword
    cases hword
  · exact hcode hremark
  · -- the keyword with the dollar sign fits as well, and it is longer
    obtain ⟨longer, hlonger, hspelling⟩ :=
      Table.dollar_of_mem_standard kc h.mem_listed (h.code_eq ▸ hnamed)
    obtain ⟨back, hbytes⟩ : ∃ back, bytesOf later = 0x24 :: back := by
      cases hbytes : bytesOf later with
      | nil =>
        rw [hbytes] at hdollar
        exact absurd hdollar (by decide)
      | cons b back =>
        rw [hbytes, List.cons_append, List.head?_cons, Option.some.injEq] at hdollar
        exact ⟨back, by rw [hdollar]⟩
    obtain ⟨rest, later', rfl, rfl, hrest⟩ := hlater.of_dollar hbytes
    have hline : Listing.after (bytesOf later) =
        '$' :: Listing.line .standard (bytesOf later') := by
      rw [hbytes]
      exact Listing.line_charByte (show isControl '$' = false from rfl) (bytesOf later')
    have hc : c.isAlpha = true := by
      rw [← h.isWordCode_eq]
      rcases hnamed with hpeek | hval
      · rw [hpeek]
        exact isWordCode_named.2.1
      · rw [hval]
        exact isWordCode_named.2.2
    have hend : (Listing.line .standard (bytesOf later')).head?.any Char.isAlphanum = false := by
      rw [hbytes, List.cons_append, List.tail_cons, head?_append_lineEnd (by decide +kernel),
        hrest.head?_any_joinsWord, Bool.not_eq_true'] at hends
      rw [hrest.heads (fun _ _ hlike => hlike.isAlphanum_eq) fun d hd =>
        htext d (List.mem_cons_of_mem '$' hd), hends]
    have hadmits : longer.Admits afterLetter (kc.spelling ++ ['$'])
        (Listing.line .standard (bytesOf later')) :=
      ⟨by rw [hspelling], fun _ => hbefore hc, fun _ => hend⟩
    have hfits := Keyword.fits_iff.mpr ⟨_, _, rfl, hadmits⟩
    rw [List.append_assoc, List.singleton_append, ← hline] at hfits
    have hle := hlongest longer hlonger hfits
    rw [hspelling, List.length_append, List.length_singleton] at hle
    omega

end Following

end SpectrumBasic
