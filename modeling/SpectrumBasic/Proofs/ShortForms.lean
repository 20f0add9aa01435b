import SpectrumBasic.Number.Packing
import SpectrumBasic.Proofs.ShownNumbers

/-!
# Short forms of whole numbers

A short form is a sign and a magnitude of two bytes (`ShortForm`), and five bytes are read as a number
exactly if they are one (`ofBytes?_eq_some_iff`, `ofBytes?_eq_none_iff`). Every number from -65535 to 65535
has a short form (`small?_whole`). Zero has two, and the one with a sign is the only short form that is
read but never written (`ShortForm.pack_value_iff`). Packing any other number shows it, and so fails for a
number that has too many digits for that (`outcome_packNumber`).
-/

namespace SpectrumBasic

namespace Hidden

/-! ## The parts of a short form -/

/-- A short form by its parts: whether it has a sign, and the bytes of its magnitude. -/
structure ShortForm where
  negative : Bool
  low : UInt8
  high : UInt8
  deriving DecidableEq, Repr

namespace ShortForm

/-- The bytes of a short form. -/
def bytes (form : ShortForm) : Bytes :=
  [0x00, if form.negative then 0xFF else 0x00, form.low, form.high, 0x00]

/-- The magnitude of a short form. -/
def magnitude (form : ShortForm) : Nat := Bytes.toNatLE [form.low, form.high]

/-- The whole number that a short form stands for. -/
def value (form : ShortForm) : Int := if form.negative then -form.magnitude else form.magnitude

/-- The short form of zero that has a sign. -/
def negativeZero : ShortForm := ⟨true, 0x00, 0x00⟩

theorem bytes_inj {form other : ShortForm} : form.bytes = other.bytes ↔ form = other := by
  obtain ⟨negative, low, high⟩ := form
  obtain ⟨negative', low', high'⟩ := other
  cases negative <;> cases negative' <;> simp [bytes]

theorem natAbs_value (form : ShortForm) : form.value.natAbs = form.magnitude := by
  unfold value
  split
  · rw [Int.natAbs_neg, Int.natAbs_natCast]
  · rw [Int.natAbs_natCast]

theorem magnitude_eq_zero_iff (form : ShortForm) :
    form.magnitude = 0 ↔ form.low = 0x00 ∧ form.high = 0x00 := by
  have hmagnitude : form.magnitude = form.low.toNat + 256 * (form.high.toNat + 256 * 0) := rfl
  rw [hmagnitude, ← UInt8.toNat_inj, ← UInt8.toNat_inj, UInt8.toNat_zero]
  omega

/-- The sign of a short form is that of its number, except for the zero that has one. -/
theorem value_neg_iff (form : ShortForm) :
    (form.value < 0 ↔ form.negative = true) ↔ form ≠ negativeZero := by
  have hzero := form.magnitude_eq_zero_iff
  obtain ⟨negative, low, high⟩ := form
  cases negative with
  | false =>
    have hvalue : ¬ value ⟨false, low, high⟩ < 0 := Int.not_lt.mpr (Int.natCast_nonneg _)
    simp [hvalue, negativeZero]
  | true =>
    have hvalue : value ⟨true, low, high⟩ < 0 ↔ magnitude ⟨true, low, high⟩ ≠ 0 := by
      show -(magnitude ⟨true, low, high⟩ : Int) < 0 ↔ _
      omega
    rw [hvalue, ne_eq, hzero]
    simp [negativeZero]

end ShortForm

/-! ## Reading and writing -/

/-- Five bytes hold a number exactly if they are a short form of it. -/
theorem ofBytes?_eq_some_iff {data : Bytes} {n : Int} :
    ofBytes? data = some n ↔ ∃ form : ShortForm, data = form.bytes ∧ form.value = n := by
  constructor
  · intro h
    unfold ofBytes? at h
    split at h
    · rename_i low high
      exact ⟨⟨false, low, high⟩, rfl, Option.some.inj h⟩
    · rename_i low high
      exact ⟨⟨true, low, high⟩, rfl, Option.some.inj h⟩
    · cases h
  · rintro ⟨⟨negative, low, high⟩, rfl, rfl⟩
    cases negative <;> rfl

/-- Bytes that hold no number are no short form. -/
theorem ofBytes?_eq_none_iff {data : Bytes} :
    ofBytes? data = none ↔ ¬ ∃ form : ShortForm, data = form.bytes := by
  rw [Option.eq_none_iff_forall_ne_some]
  constructor
  · rintro hnone ⟨form, hform⟩
    exact hnone form.value (ofBytes?_eq_some_iff.mpr ⟨form, hform, rfl⟩)
  · intro hform n hread
    obtain ⟨form, hdata, -⟩ := ofBytes?_eq_some_iff.mp hread
    exact hform ⟨form, hdata⟩

/-- The whole numbers with a short form are those between the limits. -/
theorem small?_whole (n : Int) :
    small? (.whole n) = if -65535 ≤ n ∧ n ≤ 65535 then some n else none := by
  have hsmall : isSmall n = true ↔ -65535 ≤ n ∧ n ≤ 65535 := by
    rw [isSmall, limit, decide_eq_true_iff]
    omega
  by_cases hn : -65535 ≤ n ∧ n ≤ 65535
  · rw [if_pos hn]
    exact Option.filter_some_pos (hsmall.mpr hn)
  · rw [if_neg hn]
    exact Option.filter_some_neg (Bool.eq_false_iff.mpr (mt hsmall.mp hn))

theorem ShortForm.value_bounds (form : ShortForm) : -65535 ≤ form.value ∧ form.value ≤ 65535 := by
  have hmagnitude : form.magnitude < 0x10000 := Bytes.toNatLE_pair_lt form.low form.high
  have hvalue := form.natAbs_value
  omega

/-- A short form is written again as it was, except for the zero with a sign. -/
theorem ShortForm.pack_value_iff (form : ShortForm) :
    pack (.whole form.value) = form.bytes ↔ form ≠ negativeZero := by
  have hpair : Bytes.ofNatLE 2 form.magnitude = [form.low, form.high] :=
    Bytes.ofNatLE_toNatLE [form.low, form.high]
  have hpack : pack (.whole form.value) = toBytes form.value := by
    rw [pack, small?_whole, if_pos form.value_bounds]
  rw [hpack, toBytes, natAbs_value, hpair, bytes, ← form.value_neg_iff]
  -- only the sign is left to compare
  by_cases hvalue : form.value < 0
  · cases hnegative : form.negative <;> simp [hvalue]
  · cases hnegative : form.negative <;> simp [hvalue]

theorem small?_whole_of_not_isShowable {n : Int} (h : Text.isShowable n = false) :
    small? (.whole n) = none := by
  rw [small?_whole, if_neg]
  intro hn
  rw [Text.isShowable_of_natAbs_lt (by omega)] at h
  cases h

/-! ## Packing -/

/-- A number is packed if it has a short form. Any other has to be shown, and is refused by a strict
packing. -/
theorem outcome_packNumber (strict : Bool) (x : Number) :
    (packNumber strict x).outcome =
      if (small? x).isSome then .ok (pack x)
      else if !x.isShowable then .error .notShowable
      else if strict then .error (.source { fault := .unsupportedNumber x.text })
      else .ok (pack x) := by
  unfold packNumber
  split
  · rfl
  · split
    · rfl
    · split <;> rfl

theorem outcome_packNumber_of_not_isShowable {n : Int} (h : Text.isShowable n = false)
    (strict : Bool) : (packNumber strict (.whole n)).outcome = .error .notShowable := by
  rw [outcome_packNumber, small?_whole_of_not_isShowable h, Number.isShowable, h]
  rfl

theorem outcome_packNumber_lenient {n : Int} (h : Text.isShowable n = true) :
    (packNumber false (.whole n)).outcome = .ok (pack (.whole n)) := by
  rw [outcome_packNumber, Number.isShowable, h]
  split <;> rfl

/-- A strict packing gives the same bytes, or refuses a number without a short form. -/
theorem outcome_packNumber_strict {n : Int} (h : Text.isShowable n = true) :
    (packNumber true (.whole n)).outcome =
      if (small? (.whole n)).isSome then .ok (pack (.whole n))
      else .error (.source { fault := .unsupportedNumber (Text.ofInt n) }) := by
  rw [outcome_packNumber, Number.isShowable, h]
  rfl

/-- What is packed is unpacked, or zero where there is no short form. -/
theorem unpackNumber_pack (x : Number) :
    unpackNumber (pack x) = .ok (some ((small? x).getD 0)) := by
  rw [unpackNumber, if_pos (length_pack x), ofBytes?_pack]

end Hidden

/-- **Short forms are a codec for small numbers.** A whole number of more than 4300 digits cannot be
packed at all, since what there is to say about it cannot be shown. Of the others one from -65535 to 65535
is read back from what it is packed into, and any other is read back as zero; a strict packing gives the
same bytes or, for the others, refuses the number. From five bytes no number is read exactly if they are
no short form, and a number that is read is packed into the same bytes again, unless they are the zero
with a sign. -/
theorem short_forms_round_trip (v : Int) (data : Bytes) (hdata : data.length = 5) :
    (if 10 ^ Text.digitLimit ≤ v.natAbs then
        ∀ strict, (Hidden.packNumber strict (.whole v)).outcome = .error .notShowable
      else
        ∃ bytes, (Hidden.packNumber false (.whole v)).outcome = .ok bytes ∧
          Hidden.unpackNumber bytes = .ok (some (if -65535 ≤ v ∧ v ≤ 65535 then v else 0)) ∧
          (Hidden.packNumber true (.whole v)).outcome =
            if -65535 ≤ v ∧ v ≤ 65535 then .ok bytes
            else .error (.source { fault := .unsupportedNumber (Text.ofInt v) })) ∧
      ∃ value, Hidden.unpackNumber data = .ok value ∧
        (value = none ↔ ¬ ∃ form : Hidden.ShortForm, data = form.bytes) ∧
        ∀ n, value = some n →
          ((Hidden.packNumber false (.whole n)).outcome = .ok data ↔
            data ≠ [0x00, 0xFF, 0x00, 0x00, 0x00]) := by
  constructor
  · cases hshown : Text.isShowable v with
    | false =>
      rw [if_pos (Text.not_isShowable_iff.mp hshown)]
      exact Hidden.outcome_packNumber_of_not_isShowable hshown
    | true =>
      rw [if_neg (Nat.not_le.mpr (Text.isShowable_iff.mp hshown))]
      refine ⟨_, Hidden.outcome_packNumber_lenient hshown, ?_, ?_⟩
      · rw [Hidden.unpackNumber_pack, Hidden.small?_whole]
        split <;> rfl
      · rw [Hidden.outcome_packNumber_strict hshown, Hidden.small?_whole]
        split <;> rfl
  · refine ⟨Hidden.ofBytes? data, if_pos hdata, Hidden.ofBytes?_eq_none_iff, ?_⟩
    intro n hread
    obtain ⟨form, rfl, rfl⟩ := Hidden.ofBytes?_eq_some_iff.mp hread
    show _ ↔ form.bytes ≠ Hidden.ShortForm.negativeZero.bytes
    have hshown : Text.isShowable form.value = true := by
      have hbounds := form.value_bounds
      exact Text.isShowable_of_natAbs_lt (by omega)
    rw [Hidden.outcome_packNumber_lenient hshown, Except.ok.injEq, form.pack_value_iff, Ne, Ne,
      Hidden.ShortForm.bytes_inj]

/-- A number below the limits is packed as zero, and the zero with a sign is read but not packed. -/
theorem short_forms_of_zero :
    (∃ bytes, (Hidden.packNumber false (.whole (-65536))).outcome = .ok bytes ∧
        Hidden.unpackNumber bytes = .ok (some 0)) ∧
      Hidden.unpackNumber [0x00, 0xFF, 0x00, 0x00, 0x00] = .ok (some 0) ∧
      (Hidden.packNumber false (.whole 0)).outcome ≠ .ok [0x00, 0xFF, 0x00, 0x00, 0x00] := by
  have hfew : ¬ 10 ^ Text.digitLimit ≤ (-65536 : Int).natAbs :=
    Nat.not_le.mpr (Text.isShowable_iff.mp (Text.isShowable_of_natAbs_lt (by decide)))
  have hround := short_forms_round_trip (-65536) [0x00, 0xFF, 0x00, 0x00, 0x00] rfl
  rw [if_neg hfew] at hround
  obtain ⟨⟨bytes, hbytes, hread, -⟩, value, hvalue, -, hagain⟩ := hround
  have hzero : value = some 0 := (Except.ok.inj hvalue).symm
  refine ⟨⟨bytes, hbytes, hread⟩, hvalue.trans (congrArg _ hzero), ?_⟩
  intro hsame
  exact (hagain 0 hzero).mp hsame rfl

/-- A power of ten that cannot be shown is neither packed as zero nor refused as unsupported. -/
theorem short_form_of_power_of_ten_fails :
    (Hidden.packNumber false (.whole (10 ^ 4300))).outcome = .error .notShowable ∧
      (Hidden.packNumber true (.whole (10 ^ 4300))).outcome = .error .notShowable := by
  have hhidden : Text.isShowable (10 ^ 4300) = false := Text.isShowable_pow 4300
  exact ⟨Hidden.outcome_packNumber_of_not_isShowable hhidden false,
    Hidden.outcome_packNumber_of_not_isShowable hhidden true⟩

end SpectrumBasic
