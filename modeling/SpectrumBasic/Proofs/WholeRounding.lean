import Mathlib.Data.Int.Log
import Mathlib.Data.Rat.Floor
import Mathlib.Tactic.FieldSimp
import Mathlib.Tactic.Linarith
import Mathlib.Tactic.Positivity
import SpectrumBasic.Number.Hidden

/-!
# Which ratios become whole numbers

`Binary64.ofRatio` takes a ratio to the nearest floating-point value. Around a ratio these values are
the multiples of a power of two, its `Binary64.unit`. A small whole number is an even multiple of
it, so that a ratio half way between the whole number and its neighbour still becomes the whole number.
Hence a ratio becomes a small whole number exactly if it is at most half a unit away from it
(`Binary64.toInt?_ofRatio_eq_some_iff`).
-/

namespace SpectrumBasic

/-! ## Rounding to the nearest whole number -/

/-- A rounded ratio is at most one half away, and even if it is that far. -/
theorem roundHalfEven_bounds (n : ℕ) {d : ℕ} (hd : 0 < d) :
    2 * (roundHalfEven n d * d) ≤ 2 * n + d ∧ 2 * n ≤ 2 * (roundHalfEven n d * d) + d ∧
      (2 * n = 2 * (roundHalfEven n d * d) + d ∨ 2 * (roundHalfEven n d * d) = 2 * n + d →
        roundHalfEven n d % 2 = 0) := by
  have hsplit := Nat.div_add_mod' n d
  have hlt := Nat.mod_lt n hd
  simp only [roundHalfEven]
  generalize n / d = quotient at *
  generalize n % d = rest at *
  by_cases hbelow : 2 * rest < d
  · rw [if_pos hbelow]
    omega
  · rw [if_neg hbelow]
    by_cases habove : d < 2 * rest
    · rw [if_pos habove, Nat.add_mul]
      omega
    · -- half way: the neighbour above is taken if the one below is odd
      rw [if_neg habove]
      rcases Nat.mod_two_eq_zero_or_one quotient with hmod | hmod <;> rw [hmod, Nat.add_mul] <;>
        omega

/-- A ratio at most one half away from an even number is rounded to it. -/
theorem roundHalfEven_eq_of_even {n d m : ℕ} (hd : 0 < d) (heven : m % 2 = 0)
    (habove : 2 * (m * d) ≤ 2 * n + d) (hbelow : 2 * n ≤ 2 * (m * d) + d) :
    roundHalfEven n d = m := by
  obtain ⟨hover, hunder, htie⟩ := roundHalfEven_bounds n hd
  generalize roundHalfEven n d = rounded at *
  -- two whole numbers a half away from the same ratio are neighbours, and then both would be even
  rcases Nat.lt_trichotomy rounded m with hlt | heq | hgt
  · obtain ⟨more, rfl⟩ := Nat.exists_eq_add_of_lt hlt
    rw [Nat.add_mul, Nat.add_mul] at habove hbelow
    have hmore : more * d = 0 := by omega
    have hzero : more = 0 := (Nat.mul_eq_zero.mp hmore).resolve_right hd.ne'
    have hparity := htie (.inl (by omega))
    omega
  · exact heq
  · obtain ⟨more, rfl⟩ := Nat.exists_eq_add_of_lt hgt
    rw [Nat.add_mul, Nat.add_mul] at hover hunder htie
    have hmore : more * d = 0 := by omega
    have hzero : more = 0 := (Nat.mul_eq_zero.mp hmore).resolve_right hd.ne'
    have hparity := htie (.inr (by omega))
    omega

/-! ## Powers of two -/

theorem powNum_eq (e : ℤ) : (powNum 2 e : ℚ) = 2 ^ e * powDen 2 e := by
  rcases Int.le_total 0 e with he | he
  · obtain ⟨k, rfl⟩ := Int.eq_ofNat_of_zero_le he
    simp [powNum, powDen]
  · obtain ⟨k, hk⟩ := Int.eq_ofNat_of_zero_le (Int.neg_nonneg_of_nonpos he)
    obtain rfl : e = -k := by omega
    simp [powNum, powDen]

theorem powDen_pos (e : ℤ) : 0 < powDen 2 e := Nat.pow_pos two_pos

theorem powNum_pos (e : ℤ) : 0 < powNum 2 e := Nat.pow_pos two_pos

namespace Binary64

/-! ## The exponent of a ratio -/

/-- The distance between neighbouring floating-point values around `x`. -/
def unit (x : ℚ) : ℚ := 2 ^ max minExponent (Int.log 2 x - 52)

/-- No floating-point value is nearer to `x` than the whole number `k`. -/
def RoundsTo (x : ℚ) (k : ℕ) : Prop := 2 * |x - k| ≤ unit x

/-- A ratio is compared with a power of two by cross multiplication. -/
theorem mul_powDen_lt_iff (n : ℕ) {d : ℕ} (hd : 0 < d) (e : ℤ) :
    n * powDen 2 e < d * powNum 2 e ↔ (n : ℚ) / d < 2 ^ e := by
  have hdq : (0 : ℚ) < d := by exact_mod_cast hd
  have hden : (0 : ℚ) < powDen 2 e := by exact_mod_cast powDen_pos e
  rw [← Nat.cast_lt (α := ℚ), Nat.cast_mul, Nat.cast_mul, powNum_eq, ← mul_assoc,
    mul_lt_mul_iff_left₀ hden, div_lt_iff₀ hdq, mul_comm]

/-- The exponent of a ratio is the one its unit has. -/
theorem exponentOfRatio_eq {n d : ℕ} (hn : 0 < n) (hd : 0 < d) :
    exponentOfRatio n d = max minExponent (Int.log 2 ((n : ℚ) / d) - 52) := by
  have hnq : (0 : ℚ) < n := by exact_mod_cast hn
  have hdq : (0 : ℚ) < d := by exact_mod_cast hd
  have hpos : (0 : ℚ) < (n : ℚ) / d := div_pos hnq hdq
  -- the ratio lies between the powers of two that the leading bits give
  have hlow : (2 : ℚ) ^ ((n.log2 : ℤ) - d.log2 - 1) ≤ (n : ℚ) / d := by
    rw [le_div_iff₀ hdq]
    have hupper : (d : ℚ) ≤ 2 ^ ((d.log2 : ℤ) + 1) := by
      exact_mod_cast (Nat.lt_log2_self (n := d)).le
    calc (2 : ℚ) ^ ((n.log2 : ℤ) - d.log2 - 1) * d
        ≤ 2 ^ ((n.log2 : ℤ) - d.log2 - 1) * 2 ^ ((d.log2 : ℤ) + 1) :=
        mul_le_mul_of_nonneg_left hupper (zpow_pos two_pos _).le
      _ = 2 ^ (n.log2 : ℤ) := by
        rw [← zpow_add₀ two_ne_zero]
        congr 1
        omega
      _ ≤ n := by exact_mod_cast Nat.log2_self_le hn.ne'
  have hhigh : (n : ℚ) / d < 2 ^ ((n.log2 : ℤ) - d.log2 + 1) := by
    rw [div_lt_iff₀ hdq]
    have hlower : (2 : ℚ) ^ (d.log2 : ℤ) ≤ d := by
      exact_mod_cast Nat.log2_self_le hd.ne'
    calc (n : ℚ) < 2 ^ ((n.log2 : ℤ) + 1) := by exact_mod_cast Nat.lt_log2_self (n := n)
      _ = 2 ^ ((n.log2 : ℤ) - d.log2 + 1) * 2 ^ (d.log2 : ℤ) := by
        rw [← zpow_add₀ two_ne_zero]
        congr 1
        omega
      _ ≤ 2 ^ ((n.log2 : ℤ) - d.log2 + 1) * d :=
        mul_le_mul_of_nonneg_left hlower (zpow_pos two_pos _).le
  have hbelow := mul_powDen_lt_iff n hd ((n.log2 : ℤ) - d.log2)
  have hlog : ∀ e : ℤ, (n : ℚ) / d < 2 ^ e ↔ Int.log 2 ((n : ℚ) / d) < e := fun e =>
    Int.lt_zpow_iff_log_lt Nat.one_lt_two hpos
  have hle := (Int.zpow_le_iff_le_log Nat.one_lt_two hpos).mp hlow
  rw [hlog] at hbelow hhigh
  unfold exponentOfRatio
  dsimp only
  split
  · rename_i h
    have hlt := hbelow.mp h
    omega
  · rename_i h
    have hge := mt hbelow.mpr h
    omega

/-! ## Values of ratios -/

/-- A value is a whole number if its mantissa and exponent make that number. -/
theorem toInt?_finite_eq_some_iff {m : ℕ} {e k : ℤ} :
    (finite false m e).toInt? = some k ↔ (m : ℚ) * 2 ^ e = k := by
  have hden : (powDen 2 e : ℚ) ≠ 0 := by exact_mod_cast (powDen_pos e).ne'
  have hvalue : (m : ℚ) * 2 ^ e = k ↔ ((m * powNum 2 e : ℕ) : ℤ) = k * powDen 2 e := by
    rw [← Int.cast_inj (α := ℚ)]
    push_cast
    rw [powNum_eq, ← mul_assoc, mul_left_inj' hden]
  rw [hvalue]
  simp only [toInt?, Bool.false_eq_true, if_false]
  constructor
  · intro h
    split at h
    · rename_i hmod
      obtain rfl := Option.some.inj h
      exact_mod_cast (Nat.div_mul_cancel (Nat.dvd_of_mod_eq_zero hmod)).symm
    · cases h
  · intro h
    have hdvd : powDen 2 e ∣ m * powNum 2 e := by
      exact_mod_cast Dvd.intro_left k h.symm
    have hquotient : ((m * powNum 2 e / powDen 2 e : ℕ) : ℤ) = k := by
      rw [Int.natCast_div, h]
      exact Int.mul_ediv_cancel k (by exact_mod_cast (powDen_pos e).ne')
    rw [if_pos (Nat.mod_eq_zero_of_dvd hdvd), hquotient]

/-- The value of a ratio is a whole number if its rounded mantissa makes that number, as long as the
exponent is not too large. -/
theorem toInt?_ofRatio_iff {n d : ℕ} (hn : n ≠ 0) {k : ℤ} :
    (ofRatio n d).toInt? = some k ↔
      let e := exponentOfRatio n d
      let m := roundHalfEven (n * powDen 2 e) (d * powNum 2 e)
      (if m = 2 * leastFull then e + 1 else e) ≤ maxExponent ∧ (m : ℚ) * 2 ^ e = k := by
  simp only [ofRatio, if_neg hn]
  generalize exponentOfRatio n d = e
  generalize roundHalfEven (n * powDen 2 e) (d * powNum 2 e) = m
  by_cases hcarry : m = 2 * leastFull
  · -- carrying moves a factor of two from the mantissa to the exponent
    have hsame : (leastFull : ℚ) * 2 ^ (e + 1) = m * 2 ^ e := by
      rw [hcarry, zpow_add_one₀ two_ne_zero]
      push_cast
      ring
    simp only [if_pos hcarry]
    split
    · rename_i hlarge
      simp [toInt?, not_le.mpr hlarge]
    · rename_i hfits
      rw [toInt?_finite_eq_some_iff, hsame]
      simp [not_lt.mp hfits]
  · simp only [if_neg hcarry]
    split
    · rename_i hlarge
      simp [toInt?, not_le.mpr hlarge]
    · rename_i hfits
      rw [toInt?_finite_eq_some_iff]
      simp [not_lt.mp hfits]

theorem nonneg_of_toInt?_ofRatio {n d : ℕ} {k : ℤ} (h : (ofRatio n d).toInt? = some k) : 0 ≤ k := by
  by_cases hn : n = 0
  · rw [ofRatio, if_pos hn, toInt?_finite_eq_some_iff, Nat.cast_zero, zero_mul] at h
    exact_mod_cast h.le
  · obtain ⟨-, hvalue⟩ := (toInt?_ofRatio_iff hn).mp h
    have hnonneg : (0 : ℚ) ≤ k := hvalue ▸ mul_nonneg (Nat.cast_nonneg _) (zpow_pos two_pos _).le
    exact_mod_cast hnonneg

/-- What a scaled ratio is rounded to is at most half a power of two away from the ratio. -/
theorem scaled_bounds_iff (n m : ℕ) {d : ℕ} (hd : 0 < d) (e : ℤ) :
    (2 * (m * (d * powNum 2 e)) ≤ 2 * (n * powDen 2 e) + d * powNum 2 e ∧
        2 * (n * powDen 2 e) ≤ 2 * (m * (d * powNum 2 e)) + d * powNum 2 e) ↔
      2 * |(n : ℚ) / d - m * 2 ^ e| ≤ 2 ^ e := by
  have hdq : (0 : ℚ) < d := by exact_mod_cast hd
  have hden : (0 : ℚ) < powDen 2 e := by exact_mod_cast powDen_pos e
  have hscale : (0 : ℚ) < d * powDen 2 e := mul_pos hdq hden
  have hn : (n : ℚ) * powDen 2 e = n / d * (d * powDen 2 e) := by
    field_simp
  have habs : 2 * |(n : ℚ) / d - m * 2 ^ e| ≤ 2 ^ e ↔
      2 * (m * 2 ^ e) ≤ 2 * ((n : ℚ) / d) + 2 ^ e ∧ 2 * ((n : ℚ) / d) ≤ 2 * (m * 2 ^ e) + 2 ^ e := by
    rw [← abs_two, ← abs_mul, abs_le]
    constructor <;> rintro ⟨hlow, hhigh⟩ <;> constructor <;> linarith
  have hclear : ∀ x y : ℚ, x * (d * powDen 2 e) ≤ y * (d * powDen 2 e) ↔ x ≤ y := fun x y =>
    mul_le_mul_iff_left₀ hscale
  rw [habs, ← hclear, ← hclear (2 * ((n : ℚ) / d)), ← Nat.cast_le (α := ℚ), ← Nat.cast_le (α := ℚ)]
  push_cast
  rw [powNum_eq, hn]
  constructor <;> rintro ⟨hlow, hhigh⟩ <;> constructor <;> linarith

/-- The unit around a ratio is far smaller than the ratio or than one. -/
theorem unit_le {x : ℚ} (hx : 0 ≤ x) : unit x ≤ (1 + x) / 2 ^ 52 := by
  have hlog : (2 : ℚ) ^ Int.log 2 x ≤ 1 + x := by
    rcases hx.eq_or_lt with rfl | hpos
    · rw [Int.log_zero_right, zpow_zero, add_zero]
    · have hself : (2 : ℚ) ^ Int.log 2 x ≤ x := by
        exact_mod_cast Int.zpow_log_le_self Nat.one_lt_two hpos
      linarith
  have hmin : (2 : ℚ) ^ (minExponent + 52) ≤ 1 + x := by
    have hone : (2 : ℚ) ^ (minExponent + 52) ≤ 1 := zpow_le_one_of_nonpos₀ one_le_two (by decide)
    linarith
  rw [le_div_iff₀ (by positivity), unit, ← zpow_natCast, ← zpow_add₀ two_ne_zero]
  rcases max_choice minExponent (Int.log 2 x - 52) with hmax | hmax
  · rw [hmax]
    exact hmin
  · rw [hmax, Nat.cast_ofNat, sub_add_cancel]
    exact hlog

/-- The unit around a ratio near a small number is a fraction. -/
theorem exponent_neg {x : ℚ} (hx : 0 < x) {k : ℕ} (hk : k ≤ Hidden.limit)
    (h : RoundsTo x k) : max minExponent (Int.log 2 x - 52) < 0 := by
  by_contra hnonneg
  -- otherwise the ratio is so large that no small number is near
  have hlog : 52 ≤ Int.log 2 x := by
    have hmin : minExponent < 0 := by decide
    omega
  have hlarge : (2 : ℚ) ^ (52 : ℤ) ≤ x := by
    apply (Int.zpow_le_iff_le_log Nat.one_lt_two hx).mpr at hlog
    exact_mod_cast hlog
  have hsmall : (k : ℚ) ≤ 65535 := by exact_mod_cast hk
  have hunit := h.trans (unit_le hx.le)
  have hdistance := le_abs_self (x - k)
  norm_num at hlarge
  linarith

/-- **A ratio becomes a small whole number** exactly if it is at most half a unit away from it. -/
theorem toInt?_ofRatio_eq_some_iff (n : ℕ) {d k : ℕ} (hd : 0 < d) (hk : k ≤ Hidden.limit) :
    (ofRatio n d).toInt? = some (k : ℤ) ↔ RoundsTo ((n : ℚ) / d) k := by
  unfold RoundsTo
  rcases Nat.eq_zero_or_pos n with rfl | hn
  · have hvalue : (ofRatio 0 d).toInt? = some (k : ℤ) ↔ k = 0 := by
      rw [ofRatio, if_pos rfl, toInt?_finite_eq_some_iff, Nat.cast_zero, zero_mul]
      norm_cast
      exact eq_comm
    rw [hvalue, Nat.cast_zero, zero_div, zero_sub, abs_neg, Nat.abs_cast]
    constructor
    · rintro rfl
      rw [Nat.cast_zero, mul_zero]
      exact (zpow_pos two_pos _).le
    · intro h
      by_contra hne
      have hpos : (1 : ℚ) ≤ k := by exact_mod_cast Nat.one_le_iff_ne_zero.mpr hne
      have hunit := h.trans (unit_le le_rfl)
      linarith
  · rw [toInt?_ofRatio_iff hn.ne']
    dsimp only
    rw [unit, ← exponentOfRatio_eq hn hd]
    constructor
    · rintro ⟨-, hvalue⟩
      obtain ⟨habove, hbelow, -⟩ := roundHalfEven_bounds (n * powDen 2 (exponentOfRatio n d))
        (Nat.mul_pos hd (powNum_pos (exponentOfRatio n d)))
      have hbounds := (scaled_bounds_iff n _ hd _).mp ⟨habove, hbelow⟩
      rw [hvalue] at hbounds
      exact_mod_cast hbounds
    · intro h
      have hneg : exponentOfRatio n d < 0 := by
        have hpos : (0 : ℚ) < (n : ℚ) / d := by positivity
        rw [exponentOfRatio_eq hn hd] at h ⊢
        exact exponent_neg hpos hk h
      -- the number is an even multiple of the unit
      obtain ⟨j, hj⟩ : ∃ j : ℕ, exponentOfRatio n d = -((j : ℤ) + 1) :=
        ⟨(-(exponentOfRatio n d) - 1).toNat, by omega⟩
      have hmultiple : ((k * 2 ^ (j + 1) : ℕ) : ℚ) * 2 ^ exponentOfRatio n d = k := by
        rw [hj, zpow_neg, Nat.cast_mul, mul_assoc]
        push_cast
        rw [← zpow_natCast, Nat.cast_add, Nat.cast_one,
          mul_inv_cancel₀ (zpow_ne_zero _ two_ne_zero), mul_one]
      have heven : k * 2 ^ (j + 1) % 2 = 0 := by
        rw [Nat.pow_succ, ← Nat.mul_assoc]
        exact Nat.mul_mod_left _ 2
      have hbounds := (scaled_bounds_iff n (k * 2 ^ (j + 1)) hd _).mpr (by rwa [hmultiple])
      have hrounded := roundHalfEven_eq_of_even
        (Nat.mul_pos hd (powNum_pos (exponentOfRatio n d))) heven hbounds.1 hbounds.2
      rw [hrounded, hmultiple]
      refine ⟨?_, by push_cast; rfl⟩
      have hmax : maxExponent = 971 := rfl
      split <;> omega

end Binary64

end SpectrumBasic
