import SpectrumBasic.Proofs.EncodedLines
import SpectrumBasic.Proofs.WholeRounding

/-!
# What literals say and what is hidden behind them

The value of a literal is the floating-point value nearest to the number it says. If that is a small
whole number, the bytes behind the literal are its short form, and if not they are zero. So they are
those of the number itself (`Hidden.packExactly`) unless a literal that says something else is rounded to a
small whole number (`pack_eq_packExactly_iff`). A literal with few digits behind its point never is
(`Literal.decimal_eq_of_short_fraction`).
-/

namespace SpectrumBasic

namespace Literal

/-! ## The number a literal says -/

/-- The digits behind the point of a literal. -/
def fraction (run : Text) : Text := (run.dropWhile (· ≠ '.')).drop 1

/-- The number a literal says: the digits in front of its point, and those behind it as a fraction. -/
def decimal (run : Text) : ℚ :=
  Nat.ofDigitChars 10 (run.takeWhile (· ≠ '.')) 0
    + Nat.ofDigitChars 10 (fraction run) 0 / 10 ^ (fraction run).length

/-- The digits of a number are those in front of its point and those behind it. -/
theorem filter_isDigit_eq {run : Text} (h : isNumber run = true) :
    run.filter Char.isDigit = run.takeWhile (· ≠ '.') ++ fraction run := by
  simp only [isNumber, Bool.and_eq_true, List.all_eq_true, decide_eq_true_eq] at h
  obtain ⟨⟨hall, -⟩, hcount⟩ := h
  have hdigit : ∀ part : Text, (∀ c ∈ part, c ∈ run) → '.' ∉ part →
      part.filter Char.isDigit = part := by
    intro part hpart hpoint
    refine List.filter_eq_self.mpr fun c hc => ?_
    have hliteral := hall c (hpart c hc)
    simp only [isLiteralChar, Bool.or_eq_true, decide_eq_true_eq] at hliteral
    exact hliteral.resolve_right fun heq => hpoint (heq ▸ hc)
  have hsplit := List.takeWhile_append_dropWhile (p := fun c => decide (c ≠ '.')) (l := run)
  have hfront := hdigit (run.takeWhile (· ≠ '.'))
    (fun c hc => List.takeWhile_subset _ hc) (fun hmem => by simpa using of_mem_takeWhile hmem)
  unfold fraction
  cases hback : run.dropWhile (· ≠ '.') with
  | nil =>
    rw [hback, List.append_nil] at hsplit
    rw [hsplit] at hfront ⊢
    rw [hfront]
    simp
  | cons point back =>
    -- what stops the digits is a point, and there is no second one
    obtain rfl : point = '.' := by
      have hstop := head?_dropWhile_any (fun c => decide (c ≠ '.')) run
      rw [hback] at hstop
      simpa using hstop
    rw [hback] at hsplit
    have hpoint : '.' ∉ back := by
      rw [← hsplit, List.count_append, List.count_cons_self] at hcount
      exact List.count_eq_zero.mp (by omega)
    have hlater := hdigit back (fun c hc => by rw [← hsplit]; simp [hc]) hpoint
    rw [← hsplit, List.filter_append, hsplit, hfront, List.filter_cons_of_neg (by decide), hlater]
    rfl

/-- The number a literal says is the ratio that its value is taken from. -/
theorem decimal_eq_div {run : Text} (h : isNumber run = true) :
    decimal run = (numerator run : ℚ) / denominator run := by
  have hnumerator : numerator run = 10 ^ (fraction run).length *
      Nat.ofDigitChars 10 (run.takeWhile (· ≠ '.')) 0 + Nat.ofDigitChars 10 (fraction run) 0 := by
    rw [numerator, filter_isDigit_eq h, Nat.ofDigitChars_append,
      Nat.ofDigitChars_eq_ofDigitChars_zero]
  have hdenominator : denominator run = 10 ^ (fraction run).length := rfl
  rw [hnumerator, hdenominator, decimal]
  push_cast
  field_simp

end Literal

/-! ## Short forms -/

namespace Hidden

/-- The bytes of a ratio: the short form of a small whole number, or zero. -/
def packExactly (q : ℚ) : Bytes :=
  if q.isInt && isSmall q.num then toBytes q.num else zeroFill

theorem small?_ofReal (r : Binary64) : small? (Number.ofReal r) = r.toInt?.filter isSmall := by
  unfold Number.ofReal
  cases h : r.toInt? with
  | none => rw [small?, h]
  | some n => rfl

theorem isSmall_natCast {k : ℕ} : isSmall (k : ℤ) = true ↔ k ≤ limit := by
  rw [isSmall, decide_eq_true_iff, Int.natAbs_natCast]

theorem toBytes_inj {j k : ℕ} (hj : j ≤ limit) (hk : k ≤ limit) :
    toBytes (j : ℤ) = toBytes (k : ℤ) ↔ j = k := by
  refine ⟨fun h => ?_, fun h => by rw [h]⟩
  have hread := congrArg ofBytes? h
  rw [ofBytes?_toBytes (isSmall_natCast.mpr hj), ofBytes?_toBytes (isSmall_natCast.mpr hk)] at hread
  exact_mod_cast Option.some.inj hread

theorem packExactly_natCast {k : ℕ} (hk : k ≤ limit) : packExactly k = toBytes k := by
  simp [packExactly, Rat.isInt, isSmall_natCast.mpr hk]

/-- The bytes of any other ratio are zero. -/
theorem packExactly_eq_zeroFill {q : ℚ} (hq : 0 ≤ q) (h : ∀ k : ℕ, k ≤ limit → q ≠ k) :
    packExactly q = zeroFill := by
  refine if_neg fun hexact => ?_
  simp only [Rat.isInt, Bool.and_eq_true, beq_iff_eq] at hexact
  obtain ⟨hden, hsmall⟩ := hexact
  obtain ⟨k, hk⟩ := Int.eq_ofNat_of_zero_le (Rat.num_nonneg.mpr hq)
  rw [hk] at hsmall
  apply h k (isSmall_natCast.mp hsmall)
  rw [← (Rat.den_eq_one_iff q).mp hden, hk]
  rfl

end Hidden

/-! ## Rounded literals -/

/-- The value of a literal is a small whole number, which the literal need not say. -/
def Literal.RoundsTo (literal : Text) (k : ℕ) : Prop :=
  k ≤ Hidden.limit ∧ Binary64.RoundsTo (decimal literal) k

section Value

variable {literal : Text} {value : Number} (hvalue : Literal.value? literal = some value)

include hvalue

/-- The short form behind a literal is that of the small number it is rounded to. -/
theorem small?_eq_some_iff {n : ℤ} :
    Hidden.small? value = some n ↔ ∃ k : ℕ, n = k ∧ Literal.RoundsTo literal k := by
  unfold Literal.value? at hvalue
  split at hvalue
  · rename_i hnumber
    have hden : 0 < Literal.denominator literal := Nat.pow_pos (by decide)
    unfold Literal.RoundsTo
    rw [← Option.some.inj hvalue, Hidden.small?_ofReal, Option.filter_eq_some_iff,
      Literal.decimal_eq_div hnumber]
    constructor
    · rintro ⟨hint, hsmall⟩
      obtain ⟨k, rfl⟩ := Int.eq_ofNat_of_zero_le (Binary64.nonneg_of_toInt?_ofRatio hint)
      have hk := Hidden.isSmall_natCast.mp hsmall
      exact ⟨k, rfl, hk, (Binary64.toInt?_ofRatio_eq_some_iff _ hden hk).mp hint⟩
    · rintro ⟨k, rfl, hk, hrounds⟩
      exact ⟨(Binary64.toInt?_ofRatio_eq_some_iff _ hden hk).mpr hrounds,
        Hidden.isSmall_natCast.mpr hk⟩
  · cases hvalue

/-- There is no short form if the literal is rounded to no small number. -/
theorem small?_eq_none_iff :
    Hidden.small? value = none ↔ ∀ k, ¬ Literal.RoundsTo literal k := by
  rw [Option.eq_none_iff_forall_ne_some]
  constructor
  · intro h k hrounds
    exact h k ((small?_eq_some_iff hvalue).mpr ⟨k, rfl, hrounds⟩)
  · intro h n hn
    obtain ⟨k, -, hrounds⟩ := (small?_eq_some_iff hvalue).mp hn
    exact h k hrounds

/-- The bytes behind a literal are those of the small number it is rounded to. -/
theorem pack_of_roundsTo {k : ℕ} (h : Literal.RoundsTo literal k) :
    Hidden.pack value = Hidden.toBytes k := by
  rw [Hidden.pack, (small?_eq_some_iff hvalue).mpr ⟨k, rfl, h⟩]

/-- They are zero if there is no such number. -/
theorem pack_of_not_roundsTo (h : ∀ k, ¬ Literal.RoundsTo literal k) :
    Hidden.pack value = Hidden.zeroFill := by
  rw [Hidden.pack, (small?_eq_none_iff hvalue).mpr h]

end Value

namespace Literal

theorem roundsTo_of_decimal_eq {literal : Text} {k : ℕ} (hk : k ≤ Hidden.limit)
    (h : decimal literal = k) : RoundsTo literal k := by
  refine ⟨hk, ?_⟩
  rw [Binary64.RoundsTo, h, sub_self, abs_zero, mul_zero]
  exact (zpow_pos two_pos _).le

theorem decimal_nonneg (run : Text) : 0 ≤ decimal run := by
  unfold decimal
  positivity

/-- **Short literals are exact.** One with at most eleven digits behind its point is rounded to a small
number only if it says that number. -/
theorem decimal_eq_of_short_fraction {literal : Text} {k : ℕ}
    (hshort : (fraction literal).length ≤ 11) (h : RoundsTo literal k) : decimal literal = k := by
  by_contra hne
  have hpower : (0 : ℚ) < 10 ^ (fraction literal).length := by positivity
  -- both numbers are multiples of the same negative power of ten
  obtain ⟨z, hz⟩ : ∃ z : ℤ, (decimal literal - k) * 10 ^ (fraction literal).length = z := by
    refine ⟨(Nat.ofDigitChars 10 (literal.takeWhile (· ≠ '.')) 0 - k)
        * 10 ^ (fraction literal).length + Nat.ofDigitChars 10 (fraction literal) 0, ?_⟩
    unfold decimal
    push_cast
    field_simp
    ring
  have hapart : (1 : ℚ) ≤ |decimal literal - k| * 10 ^ 11 := by
    have hz0 : z ≠ 0 := by
      rintro rfl
      rw [Int.cast_zero, mul_eq_zero, sub_eq_zero] at hz
      exact hz.elim hne hpower.ne'
    calc (1 : ℚ) ≤ |(z : ℚ)| := by exact_mod_cast Int.one_le_abs hz0
      _ = |decimal literal - k| * 10 ^ (fraction literal).length := by
        rw [← hz, abs_mul, abs_of_pos hpower]
      _ ≤ |decimal literal - k| * 10 ^ 11 := by
        gcongr
        norm_num
  have hunit := h.2.trans (Binary64.unit_le (decimal_nonneg literal))
  have hsmall : (k : ℚ) ≤ 65535 := by exact_mod_cast h.1
  have hdistance := le_abs_self (decimal literal - k)
  linarith

end Literal

/-- The bytes behind a literal are those of the number it says unless it is rounded to another one. If
that is zero, it makes no difference. -/
theorem pack_eq_packExactly_iff {literal : Text} {value : Number}
    (hvalue : Literal.value? literal = some value) :
    Hidden.pack value = Hidden.packExactly (Literal.decimal literal) ↔
      ∀ k : ℕ, 0 < k → Literal.RoundsTo literal k → Literal.decimal literal = k := by
  by_cases hwhole : ∃ j : ℕ, j ≤ Hidden.limit ∧ Literal.decimal literal = j
  · -- a small number is rounded to itself only
    obtain ⟨j, hj, hdecimal⟩ := hwhole
    have hpack := pack_of_roundsTo hvalue (Literal.roundsTo_of_decimal_eq hj hdecimal)
    rw [hdecimal, Hidden.packExactly_natCast hj]
    refine iff_of_true hpack fun k _ hrounds => ?_
    have hsame := hpack.symm.trans (pack_of_roundsTo hvalue hrounds)
    rw [(Hidden.toBytes_inj hj hrounds.1).mp hsame]
  · push Not at hwhole
    rw [Hidden.packExactly_eq_zeroFill (Literal.decimal_nonneg literal) hwhole]
    constructor
    · intro hpack k hpos hrounds
      -- zero has the short form that stands for values without one
      have hzero : Hidden.toBytes (k : ℤ) = Hidden.toBytes ((0 : ℕ) : ℤ) := by
        rw [← pack_of_roundsTo hvalue hrounds, hpack]
        rfl
      rw [Hidden.toBytes_inj hrounds.1 (Nat.zero_le _)] at hzero
      omega
    · intro h
      by_cases hrounds : ∃ k, Literal.RoundsTo literal k
      · obtain ⟨k, hrounds⟩ := hrounds
        rcases Nat.eq_zero_or_pos k with rfl | hpos
        · exact pack_of_roundsTo hvalue hrounds
        · exact absurd (h k hpos hrounds) (hwhole k hrounds.1)
      · exact pack_of_not_roundsTo hvalue (not_exists.mp hrounds)

/-! ## Statements -/

/-- What a strict encoder refuses and a lenient one does not is a number without a short form. -/
theorem Lexeme.of_refusal?_strict {lexeme : Lexeme} {refusal : Refusal}
    (hlenient : lexeme.refusal? false = none) (h : lexeme.refusal? true = some refusal) :
    ∃ literal value, lexeme = .number literal value ∧ Hidden.small? value = none ∧
      refusal = .unsupportedNumber literal := by
  cases lexeme with
  | number literal value =>
    refine ⟨literal, value, rfl, ?_⟩
    simp only [refusal?, Bool.true_and] at h
    split at h
    · rename_i hnone
      exact ⟨Option.isNone_iff_eq_none.mp hnone, (Option.some.inj h).symm⟩
    · cases h
  | blankSpelling => cases hlenient
  | _ => cases h

theorem Lexeme.number_mem_brokenAt_append {literal : Text} {value : Number} {c : Char} {rest : Text}
    {later : List Lexeme} :
    .number literal value ∈ brokenAt c rest ++ later ↔ .number literal value ∈ later := by
  unfold brokenAt
  split <;> simp

/-- A number that was read has the value of its literal. -/
theorem Reading.value?_of_mem {table : Table} {place : Place} {text : Text} {lexemes : List Lexeme}
    (h : Reading table place text lexemes) {literal : Text} {value : Number}
    (hmem : .number literal value ∈ lexemes) : Literal.value? literal = some value := by
  induction h with
  | done => cases hmem
  | closed hinner hrest ih => exact ih (List.mem_of_ne_of_mem (by simp) hmem)
  | unclosed hinner => cases List.mem_singleton.mp hmem
  | number hstart hrun hend hvalue hrest ih =>
    rcases List.mem_cons.mp hmem with heq | hlater
    · cases heq
      exact hvalue
    · exact ih hlater
  | comment hopens => cases List.mem_singleton.mp hmem
  | keyword hplain hread hcode hspaces hrest ih =>
    rw [Lexeme.number_mem_brokenAt_append] at hmem
    exact ih (List.mem_of_ne_of_mem (by simp) hmem)
  | remark hplain hread =>
    rw [Lexeme.number_mem_brokenAt_append] at hmem
    cases List.mem_singleton.mp hmem
  | character hplain hread hrest ih =>
    rw [Lexeme.number_mem_brokenAt_append] at hmem
    exact ih (List.mem_of_ne_of_mem (by simp) hmem)

section Statement

variable {table : Table} (hc : table.Consistent) (text : Text)

include hc

/-- A strict statement has its payload if every number in it has a short form, and otherwise one that
has none is refused. -/
theorem tokenize_strict_cases :
    ((tokenize table true text).payload = (tokenize table false text).payload ∧
      ∀ literal value, .number literal value ∈ scan table .start text →
        Hidden.small? value ≠ none) ∨
    ∃ literal value position, .number literal value ∈ scan table .start text ∧
      Hidden.small? value = none ∧
      (tokenize table true text).payload = .error (.unsupportedNumber literal, position) := by
  have hlenient := List.findSome?_eq_none_iff.mp (reading_scan hc .start text).refusal?_eq_none
  rw [hc.tokenize_eq, tokenize]
  cases hrefusal : (scan table .start text).findSome? (Lexeme.refusal? true) with
  | none =>
    refine .inl ⟨rfl, fun literal value hmem hsmall => ?_⟩
    have hnone := List.findSome?_eq_none_iff.mp hrefusal _ hmem
    simp [Lexeme.refusal?, hsmall] at hnone
  | some refusal =>
    obtain ⟨lexeme, hmem, hrefused⟩ := List.exists_of_findSome?_eq_some hrefusal
    obtain ⟨literal, value, rfl, hsmall, rfl⟩ :=
      Lexeme.of_refusal?_strict (hlenient lexeme hmem) hrefused
    exact .inr ⟨literal, value, _, hmem, hsmall, rfl⟩

/-- **Hidden values are those of the rounded literals.** The bytes behind the marker of a literal are the
short form of the small whole number that it is rounded to, or zero if there is none. They are those of
the number the literal says exactly if it is not rounded to some other positive number. Strict encoding
refuses a statement exactly if one of its literals is rounded to no small number, and changes nothing
otherwise. -/
theorem hidden_values_exact_iff :
    (∀ before literal value after,
      scan table .start text = before ++ .number literal value :: after →
      ∃ packed,
        (tokenize table false text).payload =
          .ok (bytesOf before ++ (textBytes literal ++ Hidden.marker :: packed) ++ bytesOf after
            ++ [lineEnd]) ∧
        (∀ k, Literal.RoundsTo literal k → packed = Hidden.toBytes k) ∧
        ((∀ k, ¬ Literal.RoundsTo literal k) → packed = Hidden.zeroFill) ∧
        (packed = Hidden.packExactly (Literal.decimal literal) ↔
          ∀ k : ℕ, 0 < k → Literal.RoundsTo literal k → Literal.decimal literal = k)) ∧
    ((∃ refused position, (tokenize table true text).payload =
        .error (.unsupportedNumber refused, position)) ↔
      ∃ literal value, .number literal value ∈ scan table .start text ∧
        ∀ k, ¬ Literal.RoundsTo literal k) ∧
    ((∀ literal value, .number literal value ∈ scan table .start text →
        ∃ k, Literal.RoundsTo literal k) →
      (tokenize table true text).payload = (tokenize table false text).payload) := by
  have hreading := reading_scan hc .start text
  refine ⟨?_, ?_, ?_⟩
  · intro before literal value after hscan
    have hvalue : Literal.value? literal = some value := hreading.value?_of_mem (by simp [hscan])
    refine ⟨Hidden.pack value, ?_, fun k => pack_of_roundsTo hvalue,
      pack_of_not_roundsTo hvalue, pack_eq_packExactly_iff hvalue⟩
    rw [hc.tokenize_eq, hscan, bytesOf, List.flatMap_append, List.flatMap_cons]
    simp [bytesOf, Lexeme.bytes]
  · constructor
    · rintro ⟨refused, position, herror⟩
      rcases tokenize_strict_cases hc text with ⟨hok, -⟩ | ⟨literal, value, -, hmem, hsmall, -⟩
      · rw [hok, hc.tokenize_eq] at herror
        cases herror
      · exact ⟨literal, value, hmem, (small?_eq_none_iff (hreading.value?_of_mem hmem)).mp hsmall⟩
    · rintro ⟨literal, value, hmem, hrounds⟩
      rcases tokenize_strict_cases hc text with ⟨-, hall⟩ | ⟨refused, -, position, -, -, herror⟩
      · have hnone := (small?_eq_none_iff (hreading.value?_of_mem hmem)).mpr hrounds
        exact absurd hnone (hall literal value hmem)
      · exact ⟨refused, position, herror⟩
  · intro hall
    rcases tokenize_strict_cases hc text with ⟨hsame, -⟩ | ⟨literal, value, -, hmem, hsmall, -⟩
    · exact hsame
    · obtain ⟨k, hrounds⟩ := hall literal value hmem
      have hnone := (small?_eq_none_iff (hreading.value?_of_mem hmem)).mp hsmall
      exact absurd hrounds (hnone k)

end Statement

/-- A fraction of two digits is not rounded to a small number, and a strict encoder refuses it. -/
theorem short_fraction_refused :
    .number "2.25".toList (.real (.ofRatio 225 100)) ∈ scan .standard .start "PRINT 2.25".toList ∧
      ∃ refused position, (tokenize .standard true "PRINT 2.25".toList).payload =
        .error (.unsupportedNumber refused, position) := by
  have hmem : .number "2.25".toList (.real (.ofRatio 225 100)) ∈
      scan .standard .start "PRINT 2.25".toList := by decide +kernel
  refine ⟨hmem, ?_⟩
  refine (hidden_values_exact_iff Table.consistent_standard "PRINT 2.25".toList).2.1.mpr
    ⟨_, _, hmem, fun k hrounds => ?_⟩
  have hdecimal := Literal.decimal_eq_of_short_fraction (by decide) hrounds
  have hwhole : (Literal.decimal "2.25".toList).isInt = false := by decide +kernel
  rw [hdecimal] at hwhole
  exact Bool.noConfusion hwhole

/-- A literal that says a little more than one is stored as one, and the strict check lets it pass. -/
theorem fraction_rounded_away :
    (Literal.decimal "1.0000000000000001".toList).isInt = false ∧
      (tokenize .standard false "1.0000000000000001".toList).payload =
        .ok (textBytes "1.0000000000000001".toList ++ Hidden.marker :: Hidden.toBytes 1
          ++ [lineEnd]) ∧
      (tokenize .standard true "1.0000000000000001".toList).payload =
        .ok (textBytes "1.0000000000000001".toList ++ Hidden.marker :: Hidden.toBytes 1
          ++ [lineEnd]) := by
  refine ⟨?_, ?_, ?_⟩ <;> decide +kernel

end SpectrumBasic
