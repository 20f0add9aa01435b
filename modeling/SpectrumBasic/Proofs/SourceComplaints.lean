import SpectrumBasic.Proofs.EncodingRuns
import SpectrumBasic.Proofs.ShownNumbers

/-!
# Complaints about the source

A listing that cannot be encoded is complained about: a directive, a literal, a line number or the length
of a line is wrong. The one thing in the way is the limit on the digits of a number. A line number or an
operand of more digits is not read, and an automatic number of more digits cannot be shown in the
complaint about it (`SourceLine.isOverlong`); then there is a failure of another kind. All other lines
are encoded or complained about (`Encoder.isComplaint_of_encodeLine`).
-/

namespace SpectrumBasic

/-- The number of a line is made of digits. -/
theorem SourceLine.isDigit_of_mem_number {text digits body : Text}
    (h : SourceLine.ofText text = .statement (some digits) body) :
    ∀ c ∈ digits, c.isDigit = true := by
  obtain ⟨-, hstatement⟩ := ofStatement_of_ofText h
  simp only [ofStatement] at hstatement
  split at hstatement
  · obtain ⟨hnumber, -⟩ := statement.inj hstatement
    rw [← Option.some.inj hnumber]
    exact fun c hc => of_mem_takeWhile hc
  · cases (statement.inj hstatement).1

/-! ## Kinds of failure -/

/-- Whether a fault is one that encoding finds: a malformed directive, an unsupported number, a line
number out of range or a line that is too long. -/
def Fault.isFoundEncoding : Fault → Bool
  | malformedDirective _ | unsupportedNumber _ | lineNumber _ | lineTooLong .. => true
  | other .. => false

/-- Whether a failure is a complaint about the source with such a fault. -/
def Failure.isComplaint : Failure → Bool
  | source diagnostic => diagnostic.fault.isFoundEncoding
  | _ => false

/-- Whether a line has a number of more digits than the limit: one that it is written with or, if it is a
statement without a number, the number `next` that it gets. -/
def SourceLine.isOverlong (next : Int) : SourceLine → Bool
  | autostart operand => decide (Text.digitLimit < (Text.unsigned operand).length)
  | statement (some digits) _ => decide (Text.digitLimit < digits.length)
  | statement none _ => !Text.isShowable next
  | _ => false

namespace Encoder

variable {enc : Encoder}

/-- A statement is refused only for a number, which is complained about. -/
theorem isComplaint_of_tokenize (htable : enc.table = .standard) {p : Progress} {text : Text}
    {failure : Failure} (h : (enc.tokenize p text).outcome = .error failure) :
    failure.isComplaint = true := by
  simp only [tokenize, SpectrumBasic.tokenize, htable] at h
  cases hrefusal : (scan .standard .start text).findSome?
      (Lexeme.refusal? enc.settings.strictNumbers) with
  | none =>
    rw [hrefusal] at h
    cases h
  | some refusal =>
    rw [hrefusal] at h
    cases refusal with
    | unsupportedNumber literal =>
      rw [← Except.error.inj h]
      rfl
    | blankSpelling =>
      -- a lenient encoder refuses nothing, and it would refuse this
      have hnone := (reading_scan Table.consistent_standard .start text).refusal?_eq_none
      obtain ⟨lexeme, hmem, hrefused⟩ := List.exists_of_findSome?_eq_some hrefusal
      have haccepted := List.findSome?_eq_none_iff.mp hnone lexeme hmem
      cases lexeme <;> simp [Lexeme.refusal?] at hrefused haccepted

/-- A numbered statement that fails is complained about, unless its number cannot be shown. -/
theorem isComplaint_of_encodeStatement (htable : enc.table = .standard) {p : Progress}
    {number : Int} {text : Text} {failure : Failure}
    (hshowable : Text.isShowable number = true)
    (h : (enc.encodeStatement p number text).outcome = .error failure) :
    failure.isComplaint = true := by
  unfold encodeStatement at h
  by_cases hn : 0 ≤ number ∧ number ≤ maxWord
  · rw [dif_pos hn] at h
    rcases Attempt.outcome_andThen_eq_error_iff.mp h with htokens | ⟨payload, -, hlength⟩
    · exact isComplaint_of_tokenize htable htokens
    · split at hlength
      · cases hlength
      · rw [← Except.error.inj hlength]
        rfl
  · rw [dif_neg hn, if_pos hshowable] at h
    rw [← Except.error.inj h]
    rfl

/-! ## Lines -/

theorem not_isLineNumber_of_isShowable {n : Int} (h : Text.isShowable n = false) :
    ¬ (0 ≤ n ∧ n ≤ maxWord) := by
  rintro ⟨hnonneg, hle⟩
  have hshown := Text.length_ofNat_le (show n.natAbs ≤ maxWord by omega)
  rw [Text.isShowable, decide_eq_false_iff_not] at h
  exact h hshown

/-- A line with a number of too many digits fails without a complaint. -/
theorem encodeLine_of_isOverlong {p : Progress} {line : Text}
    (h : (SourceLine.ofText line.trim).isOverlong p.nextLine = true) :
    ∃ failure, (enc.encodeLine p line).1.outcome = .error failure ∧
      failure.isComplaint = false := by
  unfold encodeLine
  cases hkind : SourceLine.ofText line.trim with
  | blank | comment | malformed =>
    rw [hkind] at h
    cases h
  | autostart operand =>
    rw [hkind, SourceLine.isOverlong, decide_eq_true_eq] at h
    obtain ⟨sign, -, hread⟩ := Text.readInt_eq_map operand
    rw [Text.readNat, if_neg (Nat.not_le.mpr h)] at hread
    simp only [hkind, hread]
    exact ⟨_, rfl, rfl⟩
  | statement number body =>
    rw [hkind] at h
    simp only [hkind]
    cases number with
    | some digits =>
      rw [SourceLine.isOverlong, decide_eq_true_eq] at h
      rw [numberOf, Text.readNat, if_neg (Nat.not_le.mpr h)]
      exact ⟨_, rfl, rfl⟩
    | none =>
      rw [SourceLine.isOverlong, Bool.not_eq_true'] at h
      simp only [numberOf, encodeStatement, dif_neg (not_isLineNumber_of_isShowable h), h,
        Bool.false_eq_true, if_false]
      exact ⟨_, rfl, rfl⟩

/-- Any other line that fails is complained about. -/
theorem isComplaint_of_encodeLine (htable : enc.table = .standard) {p : Progress} {line : Text}
    {failure : Failure} (hdigits : (SourceLine.ofText line.trim).isOverlong p.nextLine = false)
    (h : (enc.encodeLine p line).1.outcome = .error failure) : failure.isComplaint = true := by
  unfold encodeLine at h
  cases hkind : SourceLine.ofText line.trim with
  | blank | comment =>
    simp only [hkind] at h
    cases h
  | autostart operand =>
    rw [hkind, SourceLine.isOverlong, decide_eq_false_iff_not, Nat.not_lt] at hdigits
    obtain ⟨sign, -, hread⟩ := Text.readInt_eq_map operand
    rw [Text.readNat, if_pos hdigits] at hread
    simp only [hkind, hread] at h
    cases h
  | malformed =>
    simp only [hkind] at h
    split at h
    · rw [← Except.error.inj h]
      rfl
    · cases h
  | statement number body =>
    rw [hkind] at hdigits
    -- the number is read and can be shown, so that only the statement can be at fault
    have hnumber : ∃ n, numberOf { p with sourceText := line.trim } number = .ok n ∧
        Text.isShowable n = true := by
      cases number with
      | some digits =>
        rw [SourceLine.isOverlong, decide_eq_false_iff_not, Nat.not_lt] at hdigits
        refine ⟨(Nat.ofDigitChars 10 digits 0 : Nat), ?_, ?_⟩
        · rw [numberOf, Text.readNat, if_pos hdigits]
        · exact Text.isShowable_ofDigitChars (SourceLine.isDigit_of_mem_number hkind) hdigits
      | none =>
        rw [SourceLine.isOverlong, Bool.not_eq_false'] at hdigits
        exact ⟨p.nextLine, rfl, hdigits⟩
    obtain ⟨n, hn, hshowable⟩ := hnumber
    simp only [hkind, hn] at h
    rcases Attempt.outcome_andThen_eq_error_iff.mp h with hstatement | ⟨record, -, hnever⟩
    · exact isComplaint_of_encodeStatement htable hshowable hstatement
    · cases hnever

/-- A number that is read and is too large is complained about. -/
theorem encodeLine_of_lineNumber {p : Progress} {line digits body : Text}
    (hkind : SourceLine.ofText line.trim = .statement (some digits) body)
    (hdigits : digits.length ≤ Text.digitLimit)
    (hlarge : maxWord < Nat.ofDigitChars 10 digits 0) :
    (enc.encodeLine p line).1.outcome =
      .error (.source (enc.complaint { p with sourceText := line.trim }
        (.lineNumber (Nat.ofDigitChars 10 digits 0 : Nat)) 1)) := by
  have hrange : ¬ ((0 : Int) ≤ (Nat.ofDigitChars 10 digits 0 : Nat) ∧
      ((Nat.ofDigitChars 10 digits 0 : Nat) : Int) ≤ maxWord) := by omega
  have hshowable := Text.isShowable_ofDigitChars (SourceLine.isDigit_of_mem_number hkind) hdigits
  unfold encodeLine
  simp only [hkind, numberOf, Text.readNat, if_pos hdigits, encodeStatement, dif_neg hrange,
    if_pos hshowable]
  rfl

/-! ## Listings -/

/-- Whether an encoder gets to a line of a listing with this progress: all lines before are encoded. -/
def Reaches (enc : Encoder) (lines : List Text) (p : Progress) (line : Text) : Prop :=
  ∃ before after, lines = before ++ line :: after ∧
    (∃ records, (enc.encodeFrom enc.start 1 before).1.outcome = .ok records) ∧
    p = { (enc.encodeFrom enc.start 1 before).2 with sourceLine := 1 + before.length }

/-- A listing fails as the line does that the encoder gets to last. -/
theorem outcome_eq_error_iff_reaches {lines : List Text} {failure : Failure} :
    (encodeListing enc lines).outcome = .error failure ↔
      ∃ p line, enc.Reaches lines p line ∧ (enc.encodeLine p line).1.outcome = .error failure := by
  rw [outcome_encodeListing_eq_error_iff, outcome_encodeFrom_eq_error_iff]
  constructor
  · rintro ⟨before, line, after, hlines, hbefore, hfailing⟩
    exact ⟨_, line, ⟨before, after, hlines, hbefore, rfl⟩, hfailing⟩
  · rintro ⟨p, line, ⟨before, after, hlines, hbefore, rfl⟩, hfailing⟩
    exact ⟨before, line, after, hlines, hbefore, hfailing⟩

/-- An encoder that gets to a number of too many digits fails there, without a complaint. -/
theorem Reaches.outcome_of_isOverlong {lines : List Text} {p : Progress} {line : Text}
    (hreaches : enc.Reaches lines p line)
    (h : (SourceLine.ofText line.trim).isOverlong p.nextLine = true) :
    ∃ failure, (encodeListing enc lines).outcome = .error failure ∧
      failure.isComplaint = false := by
  obtain ⟨failure, hfailing, hkind⟩ := encodeLine_of_isOverlong h
  exact ⟨failure, outcome_eq_error_iff_reaches.mpr ⟨p, line, hreaches, hfailing⟩, hkind⟩

end Encoder

/-- A statement with a number of too many digits fails for their count. -/
theorem outcome_of_overlong_number (enc : Encoder) {n : Nat} {body : Text}
    (hbody : Text.Solid body) (h : Text.digitLimit < (Text.ofNat n).length) :
    (encodeListing enc [Text.ofNat n ++ ' ' :: body]).outcome =
      .error (.tooManyDigits (Text.ofNat n).length) := by
  refine Encoder.outcome_eq_error_iff_reaches.mpr
    ⟨_, _, ⟨[], [], rfl, ⟨[], rfl⟩, rfl⟩, ?_⟩
  unfold Encoder.encodeLine
  simp only [(hbody.numbered n).trim_eq, SourceLine.ofText_numbered hbody, Encoder.numberOf,
    Text.readNat, if_neg (Nat.not_le.mpr h)]
  rfl

/-- **A listing has its program or there is a complaint about it**, exactly if the encoder gets to no
line with a number of too many digits. A line number that is too large is complained about exactly if it
has no more digits than the limit. -/
theorem program_or_complaint_iff (settings : Settings) (file : String) (lines : List Text) :
    (((∃ program, (encodeListing { settings, file } lines).outcome = .ok program) ∨
        ∃ failure, (encodeListing { settings, file } lines).outcome = .error failure ∧
          failure.isComplaint = true) ↔
      ∀ p line, Encoder.Reaches { settings, file } lines p line →
        (SourceLine.ofText line.trim).isOverlong p.nextLine = false) ∧
    ∀ p line digits body, Encoder.Reaches { settings, file } lines p line →
      SourceLine.ofText line.trim = .statement (some digits) body →
      maxWord < Nat.ofDigitChars 10 digits 0 →
      ((encodeListing { settings, file } lines).outcome = .error (.source
          { fault := .lineNumber (Nat.ofDigitChars 10 digits 0 : Nat)
            location := some ⟨file, p.sourceLine, 1⟩
            sourceLine := some line.trim }) ↔
        digits.length ≤ Text.digitLimit) := by
  refine ⟨⟨?_, ?_⟩, ?_⟩
  · intro h p line hreaches
    rw [← Bool.not_eq_true]
    intro hoverlong
    obtain ⟨failure, hlisting, hkind⟩ := hreaches.outcome_of_isOverlong hoverlong
    rcases h with ⟨program, hprogram⟩ | ⟨failure', hfailure, hcomplaint⟩
    · rw [hlisting] at hprogram
      cases hprogram
    · rw [hlisting] at hfailure
      rw [← Except.error.inj hfailure, hkind] at hcomplaint
      cases hcomplaint
  · intro h
    cases houtcome : (encodeListing { settings, file } lines).outcome with
    | ok program => exact .inl ⟨program, rfl⟩
    | error failure =>
      obtain ⟨p, line, hreaches, hfailing⟩ := Encoder.outcome_eq_error_iff_reaches.mp houtcome
      exact .inr ⟨failure, rfl, Encoder.isComplaint_of_encodeLine rfl (h p line hreaches) hfailing⟩
  · intro p line digits body hreaches hkind hlarge
    constructor
    · intro houtcome
      refine Nat.le_of_not_lt fun hlong => ?_
      have hoverlong : (SourceLine.ofText line.trim).isOverlong p.nextLine = true := by
        rw [hkind, SourceLine.isOverlong, decide_eq_true_eq]
        exact hlong
      obtain ⟨failure, hlisting, hnone⟩ := hreaches.outcome_of_isOverlong hoverlong
      rw [houtcome] at hlisting
      rw [← Except.error.inj hlisting] at hnone
      cases hnone
    · intro hdigits
      exact Encoder.outcome_eq_error_iff_reaches.mpr
        ⟨p, line, hreaches, Encoder.encodeLine_of_lineNumber hkind hdigits hlarge⟩

/-- The second of these lines is reached and complained about. -/
theorem complaint_about_seventy_thousand :
    (encodeListing {} ["#autostart 5".toList, "70000 CLS".toList]).outcome = .error (.source
      { fault := .lineNumber 70000
        location := some ⟨"<input>", 2, 1⟩
        sourceLine := some "70000 CLS".toList }) := by
  have hreaches : Encoder.Reaches {} ["#autostart 5".toList, "70000 CLS".toList]
      { autostart := some 5, nextLine := 10, sourceLine := 2, sourceText := "#autostart 5".toList }
      "70000 CLS".toList :=
    ⟨["#autostart 5".toList], [], rfl, ⟨[], rfl⟩, by decide +kernel⟩
  exact ((program_or_complaint_iff {} "<input>" _).2 _ _ "70000".toList "CLS".toList hreaches
    (by decide +kernel) (by decide)).mpr (by decide)

/-- A power of ten far too large is not complained about. -/
theorem no_complaint_about_power_of_ten :
    (encodeListing {} [Text.ofNat (10 ^ 4300) ++ " CLS".toList]).outcome =
      .error (.tooManyDigits 4301) := by
  have hlength : (Text.ofNat (10 ^ 4300)).length = 4301 := Text.length_ofNat_pow 4300
  have hsolid : Text.Solid "CLS".toList := ⟨by decide, by decide, by decide⟩
  have hlimit : Text.digitLimit < (Text.ofNat (10 ^ 4300)).length := by
    rw [hlength]
    decide
  rw [← hlength]
  exact outcome_of_overlong_number {} hsolid hlimit

end SpectrumBasic
