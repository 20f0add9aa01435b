import SpectrumBasic.Statement.Payload

/-!
# Characters and their bytes

Letters, digits and letter case in terms of code points, and what becomes of a character on its way
through a program line: it is stored as a byte (`charByte`) and listed as the character of that byte
(`shown`). Two characters are `Alike` if the second is listed as the first, letter case aside; what
the scanner asks about a character has the same answer for both.
-/

namespace SpectrumBasic

/-! ## Letters and digits -/

theorem isAlpha_iff {c : Char} :
    c.isAlpha = true ↔ (65 ≤ c.toNat ∧ c.toNat ≤ 90) ∨ (97 ≤ c.toNat ∧ c.toNat ≤ 122) := by
  show (decide ('A'.val ≤ c.val ∧ c.val ≤ 'Z'.val) ||
    (decide ('a'.val ≤ c.val) && decide (c.val ≤ 'z'.val))) = true ↔ _
  simp only [Bool.or_eq_true, Bool.and_eq_true, decide_eq_true_eq, UInt32.le_iff_toNat_le]
  rfl

theorem isDigit_iff {c : Char} : c.isDigit = true ↔ 48 ≤ c.toNat ∧ c.toNat ≤ 57 := by
  simp only [Char.isDigit, Bool.and_eq_true, decide_eq_true_eq, ge_iff_le,
    UInt32.le_iff_toNat_le]
  rfl

theorem isAlphanum_iff {c : Char} :
    c.isAlphanum = true ↔ (48 ≤ c.toNat ∧ c.toNat ≤ 57) ∨ (65 ≤ c.toNat ∧ c.toNat ≤ 90) ∨
      (97 ≤ c.toNat ∧ c.toNat ≤ 122) := by
  rw [Char.isAlphanum, Bool.or_eq_true, isAlpha_iff, isDigit_iff]
  omega

/-- The code point of a character in upper case. -/
theorem toNat_toUpper (c : Char) :
    c.toUpper.toNat = if 97 ≤ c.toNat ∧ c.toNat ≤ 122 then c.toNat - 32 else c.toNat := by
  have hlower : ('a'.val ≤ c.val ∧ c.val ≤ 'z'.val) ↔ 97 ≤ c.toNat ∧ c.toNat ≤ 122 := by
    simp only [UInt32.le_iff_toNat_le]
    rfl
  -- going to upper case adds a negative number, which wraps around
  delta Char.toUpper
  by_cases h : 97 ≤ c.toNat ∧ c.toNat ≤ 122
  · have hrange : 97 ≤ c.val.toNat ∧ c.val.toNat ≤ 122 := h
    have hshift : ('A'.val - 'a'.val).toNat = 4294967264 := by decide
    rw [dif_pos (hlower.mpr h), if_pos h]
    show (c.val + ('A'.val - 'a'.val)).toNat = c.val.toNat - 32
    rw [UInt32.toNat_add, hshift]
    omega
  · rw [dif_neg (fun hc => h (hlower.mp hc)), if_neg h]

@[simp] theorem toUpper_toUpper (c : Char) : c.toUpper.toUpper = c.toUpper := by
  rw [← Char.toNat_inj, toNat_toUpper, toNat_toUpper]
  split
  · split <;> omega
  · rfl

theorem eq_or_isAlpha_of_toUpper_eq {c d : Char} (h : c.toUpper = d.toUpper) :
    c = d ∨ (c.isAlpha = true ∧ d.isAlpha = true) := by
  have hnat := congrArg Char.toNat h
  rw [toNat_toUpper, toNat_toUpper] at hnat
  rw [isAlpha_iff, isAlpha_iff, ← Char.toNat_inj]
  split at hnat <;> split at hnat <;> omega

theorem eq_of_toUpper_eq {c x : Char} (hx : x.isAlpha = false) (h : c.toUpper = x) : c = x := by
  have hupper : c.toUpper = x.toUpper := by
    rw [← h, toUpper_toUpper]
  rcases eq_or_isAlpha_of_toUpper_eq hupper with heq | ⟨-, halpha⟩
  · exact heq
  · rw [hx] at halpha
    cases halpha

/-- The code point of a character in lower case. -/
theorem toNat_toLower (c : Char) :
    c.toLower.toNat = if 65 ≤ c.toNat ∧ c.toNat ≤ 90 then c.toNat + 32 else c.toNat := by
  have hupper : ('A'.val ≤ c.val ∧ c.val ≤ 'Z'.val) ↔ 65 ≤ c.toNat ∧ c.toNat ≤ 90 := by
    simp only [UInt32.le_iff_toNat_le]
    rfl
  delta Char.toLower
  by_cases h : 65 ≤ c.toNat ∧ c.toNat ≤ 90
  · have hrange : 65 ≤ c.val.toNat ∧ c.val.toNat ≤ 90 := h
    have hshift : ('a'.val - 'A'.val).toNat = 32 := by decide
    rw [dif_pos (hupper.mpr h), if_pos h]
    show (c.val + ('a'.val - 'A'.val)).toNat = c.val.toNat + 32
    rw [UInt32.toNat_add, hshift]
    omega
  · rw [dif_neg (fun hc => h (hupper.mp hc)), if_neg h]

theorem eq_of_toLower_eq {c x : Char} (hx : x.isAlpha = false) (h : c.toLower = x) : c = x := by
  have hnat := congrArg Char.toNat h
  rw [Bool.eq_false_iff, ne_eq, isAlpha_iff] at hx
  rw [toNat_toLower] at hnat
  rw [← Char.toNat_inj]
  split at hnat <;> omega

theorem isAlpha_eq_of_toUpper_eq {c d : Char} (h : c.toUpper = d.toUpper) :
    c.isAlpha = d.isAlpha := by
  rcases eq_or_isAlpha_of_toUpper_eq h with rfl | ⟨hc, hd⟩
  · rfl
  · rw [hc, hd]

theorem isDigit_eq_false_of_isAlpha {c : Char} (h : c.isAlpha = true) : c.isDigit = false := by
  rw [isAlpha_iff] at h
  rw [Bool.eq_false_iff, ne_eq, isDigit_iff]
  omega

theorem isDigit_eq_of_toUpper_eq {c d : Char} (h : c.toUpper = d.toUpper) :
    c.isDigit = d.isDigit := by
  rcases eq_or_isAlpha_of_toUpper_eq h with rfl | ⟨hc, hd⟩
  · rfl
  · rw [isDigit_eq_false_of_isAlpha hc, isDigit_eq_false_of_isAlpha hd]

/-! ## What a character is listed as -/

/-- Whether a character moves the print position or means nothing at all; no listing shows it. -/
def isControl (c : Char) : Bool := c.toNat < 0x20

/-- The character that stands for `c` in a listing, if any does. -/
def shown (c : Char) : Char :=
  if c.toNat < 0x7F then c
  else if c.toNat = 0x7F ∨ c = copyrightSign then copyrightSign
  else '?'

theorem shown_of_lt {c : Char} (h : c.toNat < 0x7F) : shown c = c := by
  rw [shown, if_pos h]

theorem shown_of_ge {c : Char} (h : 0x7F ≤ c.toNat) :
    shown c = copyrightSign ∨ shown c = '?' := by
  rw [shown, if_neg (Nat.not_lt.mpr h)]
  split
  · exact .inl rfl
  · exact .inr rfl

theorem toNat_ofNat_toNat (b : UInt8) : (Char.ofNat b.toNat).toNat = b.toNat := by
  have hlast := b.toNat_lt
  have hvalid : b.toNat.isValidChar := .inl (by omega)
  rw [Char.ofNat, dif_pos hvalid]
  rfl

/-- The byte of a character by its code point. -/
theorem toNat_charByte (c : Char) :
    (charByte c).toNat =
      if c.toNat < 0x80 then c.toNat else if c = copyrightSign then 0x7F else 0x3F := by
  unfold charByte
  split
  · rename_i h
    rw [UInt8.toNat_ofNat']
    omega
  · split <;> rfl

/-- An ASCII character is the only one with its byte, unless others are replaced by it. -/
theorem charByte_eq_iff {c x : Char} (hlow : x.toNat < 0x7F) (hmark : x ≠ '?') :
    charByte c = charByte x ↔ c = x := by
  refine ⟨fun h => ?_, fun h => h ▸ rfl⟩
  -- what is not ASCII is stored as the last ASCII byte or as a question mark, and `x` is neither
  have hne : x.toNat ≠ 0x3F := fun hx => hmark (Char.toNat_inj.mp hx)
  have hnat := congrArg UInt8.toNat h
  rw [toNat_charByte, toNat_charByte, if_pos (show x.toNat < 0x80 by omega)] at hnat
  rw [← Char.toNat_inj]
  split at hnat
  · exact hnat
  · split at hnat <;> omega

theorem toNat_charByte_lt (c : Char) : (charByte c).toNat < 0x80 := by
  rw [toNat_charByte]
  split
  · assumption
  · split <;> decide

/-- A character and the one it is shown as are stored alike. -/
theorem charByte_shown (c : Char) : charByte (shown c) = charByte c := by
  by_cases h : c.toNat < 0x7F
  · rw [shown_of_lt h]
  · by_cases hlast : c.toNat = 0x7F
    · have hc : c = Char.ofNat 0x7F := by
        rw [← Char.ofNat_toNat c, hlast]
      rw [hc]
      decide
    · by_cases hsign : c = copyrightSign
      · rw [hsign]
        decide
      · have hbyte : charByte c = 0x3F := by
          rw [charByte, if_neg (by omega), if_neg hsign]
        have hshown : shown c = '?' := by
          rw [shown, if_neg h, if_neg (fun hor => hor.elim hlast hsign)]
        rw [hshown, hbyte]
        decide

theorem bounds_of_isLiteralChar {c : Char} (h : Literal.isLiteralChar c = true) :
    0x2E ≤ c.toNat ∧ c.toNat ≤ 0x39 := by
  rw [Literal.isLiteralChar, Bool.or_eq_true, isDigit_iff, decide_eq_true_eq] at h
  rcases h with hdigit | rfl
  · omega
  · decide

theorem isControl_of_isLiteralChar {c : Char} (h : Literal.isLiteralChar c = true) :
    isControl c = false := by
  have hbounds := bounds_of_isLiteralChar h
  rw [isControl, decide_eq_false_iff_not]
  omega

theorem shown_of_isLiteralChar {c : Char} (h : Literal.isLiteralChar c = true) : shown c = c := by
  have hbounds := bounds_of_isLiteralChar h
  exact shown_of_lt (by omega)

theorem map_shown_of_isLiteralChar {run : Text}
    (h : ∀ c ∈ run, Literal.isLiteralChar c = true) : run.map shown = run := by
  rw [List.map_congr_left fun c hc => shown_of_isLiteralChar (h c hc), List.map_id']

/-! ## Alike characters -/

/-- Whether `d` is what `c` is listed as, letter case aside. -/
def Alike (d c : Char) : Prop := d.toUpper = (shown c).toUpper

theorem alike_of_toUpper_eq {c d : Char} (hlow : c.toNat < 0x7F) (h : d.toUpper = c.toUpper) :
    Alike d c := by
  rw [Alike, shown_of_lt hlow, h]

theorem alike_shown (c : Char) : Alike (shown c) c := rfl

namespace Alike

variable {c d : Char}

/-- What is asked about alike characters has the same answer for both, if letter case does not matter
and the answer is no for the question mark and for whatever else is not shown as it is. -/
theorem apply_eq {p : Char → Bool} (hcase : ∀ {c d : Char}, c.toUpper = d.toUpper → p c = p d)
    (hlow : ∀ {c : Char}, p c = true → c.toNat < 0x7F) (hmark : p '?' = false) (h : Alike d c) :
    p d = p c := by
  have hbeyond : ∀ {c : Char}, ¬ c.toNat < 0x7F → p c = false := fun hc =>
    Bool.eq_false_iff.mpr fun hp => hc (hlow hp)
  rw [hcase h]
  by_cases hc : c.toNat < 0x7F
  · rw [shown_of_lt hc]
  · rw [hbeyond hc]
    rcases shown_of_ge (Nat.not_lt.mp hc) with hs | hs
    · rw [hs, hbeyond (by decide)]
    · rw [hs, hmark]

theorem isAlpha_eq (h : Alike d c) : d.isAlpha = c.isAlpha := by
  refine h.apply_eq isAlpha_eq_of_toUpper_eq (fun halpha => ?_) (by decide)
  rw [isAlpha_iff] at halpha
  omega

theorem isDigit_eq (h : Alike d c) : d.isDigit = c.isDigit := by
  refine h.apply_eq isDigit_eq_of_toUpper_eq (fun hdigit => ?_) (by decide)
  rw [isDigit_iff] at hdigit
  omega

theorem isAlphanum_eq (h : Alike d c) : d.isAlphanum = c.isAlphanum := by
  rw [Char.isAlphanum, Char.isAlphanum, h.isAlpha_eq, h.isDigit_eq]

/-- Of the ASCII characters, letters aside, only the question mark is like any other. -/
theorem eq_iff {x : Char} (h : Alike d c) (hlow : x.toNat < 0x7F) (halpha : x.isAlpha = false)
    (hmark : x ≠ '?') : d = x ↔ c = x := by
  constructor
  · rintro rfl
    -- `d` is no letter, so it is not only alike but the same as what `c` is shown as
    rcases eq_or_isAlpha_of_toUpper_eq h with hd | ⟨hd, -⟩
    · by_cases hc : c.toNat < 0x7F
      · rw [hd, shown_of_lt hc]
      · rcases shown_of_ge (Nat.not_lt.mp hc) with hs | hs
        · rw [hd, hs] at hlow
          exact absurd hlow (by decide)
        · exact absurd (hd.trans hs) hmark
    · rw [hd] at halpha
      exact absurd halpha (by decide)
  · rintro rfl
    rw [Alike, shown_of_lt hlow] at h
    rcases eq_or_isAlpha_of_toUpper_eq h with hd | ⟨-, hc⟩
    · exact hd
    · rw [hc] at halpha
      exact absurd halpha (by decide)

theorem isLiteralChar_eq (h : Alike d c) : Literal.isLiteralChar d = Literal.isLiteralChar c := by
  rw [Literal.isLiteralChar, Literal.isLiteralChar, h.isDigit_eq]
  congr 1
  exact decide_eq_decide.mpr (h.eq_iff (by decide) (by decide) (by decide))

end Alike

end SpectrumBasic
