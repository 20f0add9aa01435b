import Mathlib.Algebra.Group.Int.Defs
import Mathlib.Algebra.Group.Nat.Defs
import SpectrumBasic.Proofs.Characters
import SpectrumBasic.Source.Line

/-!
# Numbers that can be shown

A number is shown with at most `Text.digitLimit` digits, and a number that was read has no more: so
only those that nobody typed cannot be shown.
-/

namespace SpectrumBasic

namespace Text

/-- A number without its sign. -/
def unsigned : Text → Text
  | '-' :: digits | '+' :: digits | digits => digits

/-- A number with a sign is read as its digits are. -/
theorem readInt_eq_map (text : Text) :
    ∃ sign : Nat → Int, (∀ n, (sign n).natAbs = n) ∧
      readInt text = (readNat (unsigned text)).map sign := by
  fun_cases readInt text with
  | case1 digits =>
    refine ⟨fun n => -(n : Int), fun n => by rw [Int.natAbs_neg, Int.natAbs_natCast], ?_⟩
    show _ = (readNat digits).map _
    cases readNat digits <;> rfl
  | case2 digits =>
    refine ⟨fun n => (n : Int), Int.natAbs_natCast, ?_⟩
    show _ = (readNat digits).map _
    cases readNat digits <;> rfl
  | case3 _ hminus hplus =>
    refine ⟨fun n => (n : Int), Int.natAbs_natCast, ?_⟩
    have hunsigned : unsigned text = text := by
      unfold unsigned
      split
      · exact absurd rfl (hminus _)
      · exact absurd rfl (hplus _)
      · rfl
    rw [hunsigned]
    cases readNat text <;> rfl

/-- Digits stand for a number with no more digits than they are. -/
theorem ofDigitChars_lt {digits : Text} (h : ∀ c ∈ digits, c.isDigit = true) :
    Nat.ofDigitChars 10 digits 0 < 10 ^ digits.length := by
  induction digits with
  | nil => decide
  | cons c digits ih =>
    rw [List.forall_mem_cons, isDigit_iff] at h
    have hrest := ih h.2
    have hdigit : c.toNat - '0'.toNat ≤ 9 := by
      have hzero : '0'.toNat = 48 := rfl
      omega
    have hfirst := Nat.mul_le_mul_left (10 ^ digits.length) hdigit
    rw [Nat.ofDigitChars_cons, Nat.ofDigitChars_eq_ofDigitChars_zero, List.length_cons,
      Nat.pow_succ, Nat.mul_zero, Nat.zero_add]
    omega

/-- A power of ten has one digit more than its exponent. -/
theorem length_ofNat_pow (k : Nat) : (ofNat (10 ^ k)).length = k + 1 := by
  have hle : (ofNat (10 ^ k)).length ≤ k + 1 := by
    rw [ofNat, Nat.length_toDigits_le_iff (by decide) (by omega)]
    exact Nat.pow_lt_pow_right (by decide) (Nat.lt_succ_self k)
  have hlt : k < (ofNat (10 ^ k)).length := by
    refine Nat.lt_of_not_le fun hfew => ?_
    have hpos : 0 < k := Nat.lt_of_lt_of_le Nat.length_toDigits_pos hfew
    rw [ofNat, Nat.length_toDigits_le_iff (by decide) hpos] at hfew
    exact Nat.lt_irrefl _ hfew
  omega

theorem isShowable_iff {n : Int} : isShowable n = true ↔ n.natAbs < 10 ^ digitLimit := by
  rw [isShowable, decide_eq_true_eq, ofNat, Nat.length_toDigits_le_iff (by decide) (by decide)]

theorem not_isShowable_iff {n : Int} : isShowable n = false ↔ 10 ^ digitLimit ≤ n.natAbs := by
  rw [← Bool.not_eq_true, isShowable_iff, Nat.not_lt]

theorem isShowable_pow (k : Nat) : isShowable (10 ^ k) = decide (k < digitLimit) := by
  have hten : (10 : Int).natAbs = 10 := rfl
  rw [Bool.eq_iff_iff, isShowable_iff, decide_eq_true_iff, Int.natAbs_pow, hten,
    Nat.pow_lt_pow_iff_right (by decide)]

theorem isShowable_of_natAbs_lt {n : Int} (h : n.natAbs < 100000) : isShowable n = true := by
  refine isShowable_iff.mpr (Nat.lt_of_lt_of_le h ?_)
  exact Nat.pow_le_pow_right (show 0 < 10 by decide) (show 5 ≤ digitLimit by decide)

theorem isShowable_ofDigitChars {digits : Text} (h : ∀ c ∈ digits, c.isDigit = true)
    (hlimit : digits.length ≤ digitLimit) :
    isShowable (Nat.ofDigitChars 10 digits 0 : Nat) = true :=
  isShowable_iff.mpr
    (Nat.lt_of_lt_of_le (ofDigitChars_lt h) (Nat.pow_le_pow_right (by decide) hlimit))

/-- A number that is read can be shown. -/
theorem isShowable_of_readInt {text : Text} (hdigits : ∀ c ∈ unsigned text, c.isDigit = true)
    {n : Int} (h : readInt text = .ok n) : isShowable n = true := by
  obtain ⟨sign, hsign, hread⟩ := readInt_eq_map text
  rw [hread, readNat] at h
  split at h
  · rename_i hlimit
    obtain rfl := Except.ok.inj h
    have hshown := isShowable_ofDigitChars hdigits hlimit
    rw [isShowable_iff, hsign]
    rwa [isShowable_iff, Int.natAbs_natCast] at hshown
  · cases h

end Text

/-- The operand of a directive is made of digits behind its sign. -/
theorem SourceLine.isDigit_of_mem_operand {text operand : Text}
    (h : SourceLine.ofText text = .autostart operand) :
    ∀ c ∈ Text.unsigned operand, c.isDigit = true := by
  have hoperand : isOperand operand = true := by
    unfold ofText ofMarked ofStatement at h
    split at h
    · cases h
    · split at h
      · split at h
        · split at h
          · rename_i hfound
            cases h
            exact hfound
          · cases h
        · cases h
      · cases h
    · dsimp only at h
      split at h <;> cases h
  have hunsigned : isOperand operand =
      (!(Text.unsigned operand).isEmpty && (Text.unsigned operand).all Char.isDigit) := by
    unfold isOperand Text.unsigned
    split
    · rfl
    · rfl
    · rename_i hplus hminus
      split
      · exact absurd rfl (hminus _)
      · exact absurd rfl (hplus _)
      · rfl
  rw [hunsigned, Bool.and_eq_true] at hoperand
  exact List.all_eq_true.mp hoperand.2

end SpectrumBasic
