import Mathlib.Data.List.TakeWhile
import SpectrumBasic.Proofs.EncodingRuns

/-!
# Strict and lenient encoding

A lenient encoder lets two things pass with a warning that a strict one refuses: a number without a
short form, which it fills in as zero, and a directive it does not understand. The two run in step, and
the strict one has a result exactly where the lenient one has it and has let nothing pass
(`Attempt.Stricter`). That is shown of a lexeme, where the encoders differ, and carried from there to
statements, lines and listings by `Stricter.andThen`.
-/

namespace SpectrumBasic

/-- Whether a notice is about something that only a lenient encoder lets pass. -/
def Notice.letsPass : Notice → Bool
  | zeroFilled _ | directiveIgnored .. => true
  | _ => false

/-! ## Attempts -/

namespace Attempt

variable {α β : Type}

/-- Nothing was let pass on the way. -/
def Clean (attempt : Attempt α) : Prop := ∀ notice ∈ attempt.notices, notice.letsPass = false

/-- The first attempt has those results of the second for which nothing was let pass. -/
def Stricter (strict lenient : Attempt α) : Prop :=
  ∀ a, strict.outcome = .ok a ↔ lenient.outcome = .ok a ∧ lenient.Clean

theorem Clean.stricter {attempt : Attempt α} (h : attempt.Clean) : Stricter attempt attempt :=
  fun _ => ⟨fun hok => ⟨hok, h⟩, And.left⟩

theorem stricter_of_notices_eq_nil {attempt : Attempt α} (h : attempt.notices = []) :
    Stricter attempt attempt := by
  refine Clean.stricter fun notice hnotice => ?_
  rw [h] at hnotice
  cases hnotice

theorem stricter_of_notices_eq_singleton {attempt : Attempt α} {notice : Notice}
    (h : attempt.notices = [notice]) (hpass : notice.letsPass = false) :
    Stricter attempt attempt := by
  refine Clean.stricter fun notice' hnotice => ?_
  rw [h] at hnotice
  rwa [List.mem_singleton.mp hnotice]

/-- A failure is stricter than an attempt that lets something pass. -/
theorem stricter_fail {failure : Failure} {lenient : Attempt α} (h : ¬ lenient.Clean) :
    Stricter (.fail failure) lenient := by
  intro a
  constructor
  · intro hok
    cases hok
  · rintro ⟨-, hclean⟩
    exact absurd hclean h

/-- Steps that are stricter one by one are stricter in a row. -/
theorem Stricter.andThen {strict lenient : Attempt α} {next next' : α → Attempt β}
    (h : Stricter strict lenient)
    (hnext : ∀ a, strict.outcome = .ok a → Stricter (next a) (next' a)) :
    Stricter (strict.andThen next) (lenient.andThen next') := by
  intro b
  constructor
  · intro hok
    obtain ⟨a, ha, hb⟩ := outcome_andThen_eq_ok_iff.mp hok
    obtain ⟨ha', hfirst⟩ := (h a).mp ha
    obtain ⟨hb', hsecond⟩ := (hnext a ha b).mp hb
    rw [andThen_of_ok ha']
    refine ⟨hb', ?_⟩
    intro notice hnotice
    rcases List.mem_append.mp hnotice with hnotice | hnotice
    · exact hfirst notice hnotice
    · exact hsecond notice hnotice
  · rintro ⟨hok, hclean⟩
    obtain ⟨a, ha', hb'⟩ := outcome_andThen_eq_ok_iff.mp hok
    rw [andThen_of_ok ha'] at hclean
    have ha := (h a).mpr ⟨ha', fun notice hnotice => hclean notice (List.mem_append_left _ hnotice)⟩
    have hb := (hnext a ha b).mpr
      ⟨hb', fun notice hnotice => hclean notice (List.mem_append_right _ hnotice)⟩
    exact outcome_andThen_eq_ok_iff.mpr ⟨a, ha, hb⟩

end Attempt

/-! ## Lexemes -/

theorem letsPass_textNotices {text : Text} : ∀ notice ∈ textNotices text, notice.letsPass = false := by
  intro notice hnotice
  simp only [textNotices] at hnotice
  split at hnotice
  · cases hnotice
  · rw [List.mem_singleton.mp hnotice]
    rfl

/-- A strict encoder refuses a lexeme that a lenient one refuses or lets pass. -/
theorem Lexeme.refusal?_strict_iff (lexeme : Lexeme) :
    lexeme.refusal? true = none ↔
      lexeme.refusal? false = none ∧ ∀ notice ∈ lexeme.notices, notice.letsPass = false := by
  cases lexeme with
  | number literal value =>
    cases hsmall : Hidden.small? value with
    | none => simp [refusal?, notices, hsmall, Notice.letsPass]
    | some n => simp [refusal?, notices, hsmall]
  | brokenRun run => simp [refusal?, notices, Notice.letsPass]
  | keyword spelling code spaces => simp [refusal?, notices]
  | blankSpelling => simp [refusal?]
  | quoted text | comment text | remark spelling text | character c =>
    exact ⟨fun _ => ⟨rfl, letsPass_textNotices⟩, fun _ => rfl⟩

/-! ## Statements -/

namespace Encoder

/-- The encoder with both of its checks turned on or off. -/
def checking (enc : Encoder) (strict : Bool) : Encoder :=
  { enc with
    settings := { enc.settings with strictNumbers := strict, strictDirectives := strict } }

variable {enc : Encoder}

/-- A statement has its payload if no lexeme of it is refused, whatever the keywords are. -/
theorem tokenize_eq_ok_iff {p : Progress} {text : Text} {payload : Bytes} :
    (enc.tokenize p text).outcome = .ok payload ↔
      (∀ lexeme ∈ scan enc.table .start text,
        lexeme.refusal? enc.settings.strictNumbers = none) ∧
      (scan enc.table .start text).flatMap Lexeme.bytes ++ [lineEnd] = payload := by
  rw [tokenize, SpectrumBasic.tokenize]
  cases hrefusal : (scan enc.table .start text).findSome?
      (Lexeme.refusal? enc.settings.strictNumbers) with
  | none =>
    rw [List.findSome?_eq_none_iff] at hrefusal
    simp only [Except.ok.injEq]
    exact (and_iff_right hrefusal).symm
  | some refusal =>
    obtain ⟨lexeme, hmem, hrefused⟩ := List.exists_of_findSome?_eq_some hrefusal
    constructor
    · intro hok
      cases refusal <;> cases hok
    · rintro ⟨hall, -⟩
      rw [hall lexeme hmem] at hrefused
      cases hrefused

/-- The notices about a statement that has a payload are those about its lexemes. -/
theorem notices_tokenize {p : Progress} {text : Text}
    (h : ∀ lexeme ∈ scan enc.table .start text,
      lexeme.refusal? enc.settings.strictNumbers = none) :
    (enc.tokenize p text).notices = (scan enc.table .start text).flatMap Lexeme.notices := by
  have hall : (scan enc.table .start text).takeWhile
      (fun lexeme => (lexeme.refusal? enc.settings.strictNumbers).isNone)
        = scan enc.table .start text := by
    rw [List.takeWhile_eq_self_iff]
    exact fun lexeme hmem => Option.isNone_iff_eq_none.mpr (h lexeme hmem)
  rw [tokenize, SpectrumBasic.tokenize, hall]

/-- A strict encoder has the payload of a statement if a lenient one lets nothing in it pass. -/
theorem stricter_tokenize (enc : Encoder) (p : Progress) (text : Text) :
    Attempt.Stricter ((enc.checking true).tokenize p text) ((enc.checking false).tokenize p text) := by
  intro payload
  rw [tokenize_eq_ok_iff, tokenize_eq_ok_iff]
  constructor
  · rintro ⟨hstrict, hpayload⟩
    have hboth := fun lexeme hmem => (Lexeme.refusal?_strict_iff lexeme).mp (hstrict lexeme hmem)
    have hlenient : ∀ lexeme ∈ scan (enc.checking false).table .start text,
        lexeme.refusal? (enc.checking false).settings.strictNumbers = none :=
      fun lexeme hmem => (hboth lexeme hmem).1
    refine ⟨⟨hlenient, hpayload⟩, ?_⟩
    intro notice hnotice
    rw [notices_tokenize hlenient] at hnotice
    obtain ⟨lexeme, hmem, hnotice⟩ := List.mem_flatMap.mp hnotice
    exact (hboth lexeme hmem).2 notice hnotice
  · rintro ⟨⟨hlenient, hpayload⟩, hclean⟩
    refine ⟨fun lexeme hmem => ?_, hpayload⟩
    refine (Lexeme.refusal?_strict_iff lexeme).mpr ⟨hlenient lexeme hmem, ?_⟩
    intro notice hnotice
    refine hclean notice ?_
    rw [notices_tokenize hlenient]
    exact List.mem_flatMap.mpr ⟨lexeme, hmem, hnotice⟩

/-- The same holds of the record of a statement. -/
theorem stricter_encodeStatement (enc : Encoder) (p : Progress) (number : Int) (text : Text) :
    Attempt.Stricter ((enc.checking true).encodeStatement p number text)
      ((enc.checking false).encodeStatement p number text) := by
  unfold encodeStatement
  by_cases hn : 0 ≤ number ∧ number ≤ maxWord
  · rw [dif_pos hn, dif_pos hn]
    refine (stricter_tokenize enc p text).andThen fun payload _ => ?_
    exact Attempt.stricter_of_notices_eq_nil (by split <;> rfl)
  · rw [dif_neg hn, dif_neg hn]
    exact Attempt.stricter_of_notices_eq_nil (by split <;> rfl)

/-! ## Lines -/

/-- The progress after a line does not depend on the checks. -/
theorem progress_encodeLine_checking (enc : Encoder) (p : Progress) (line : Text) :
    ((enc.checking true).encodeLine p line).2 = ((enc.checking false).encodeLine p line).2 := by
  unfold encodeLine
  cases hkind : SourceLine.ofText line.trim with
  | blank | comment | autostart operand => simp only [hkind]
  | malformed =>
    simp only [hkind]
    rfl
  | statement number body =>
    simp only [hkind]
    cases numberOf { p with sourceText := line.trim } number <;> rfl

/-- A strict encoder has the record of a line if a lenient one lets nothing on it pass. -/
theorem stricter_encodeLine (enc : Encoder) (p : Progress) (line : Text) :
    Attempt.Stricter ((enc.checking true).encodeLine p line).1
      ((enc.checking false).encodeLine p line).1 := by
  unfold encodeLine
  cases hkind : SourceLine.ofText line.trim with
  | blank =>
    simp only [hkind]
    exact Attempt.stricter_of_notices_eq_nil rfl
  | comment =>
    simp only [hkind]
    exact Attempt.stricter_of_notices_eq_singleton rfl rfl
  | autostart operand =>
    simp only [hkind]
    cases Text.readInt operand with
    | ok start => exact Attempt.stricter_of_notices_eq_singleton rfl rfl
    | error fault => exact Attempt.stricter_of_notices_eq_nil rfl
  | malformed =>
    simp only [hkind]
    refine Attempt.stricter_fail fun hclean => ?_
    exact Bool.noConfusion (hclean _ (List.mem_singleton_self _))
  | statement number body =>
    simp only [hkind]
    cases numberOf { p with sourceText := line.trim } number with
    | error failure => exact Attempt.stricter_of_notices_eq_nil rfl
    | ok n =>
      exact (stricter_encodeStatement enc _ n body).andThen fun record _ =>
        Attempt.stricter_of_notices_eq_nil rfl

/-! ## Runs -/

/-- Where a strict encoder goes on, a lenient one has made the same progress. -/
theorem progress_encodeFrom_checking {p : Progress} {index : Nat} {lines : List Text}
    {records : List LineRecord}
    (h : ((enc.checking true).encodeFrom p index lines).1.outcome = .ok records) :
    ((enc.checking true).encodeFrom p index lines).2 =
      ((enc.checking false).encodeFrom p index lines).2 := by
  induction lines generalizing p index records with
  | nil => rfl
  | cons line rest ih =>
    obtain ⟨record, later, hrecord, hlater, -⟩ := outcome_encodeFrom_cons_eq_ok_iff.mp h
    obtain ⟨hlenient, -⟩ := (stricter_encodeLine enc _ line record).mp hrecord
    rw [progress_encodeFrom_cons hrecord, progress_encodeFrom_cons hlenient, ih hlater,
      progress_encodeLine_checking]

/-- A strict encoder has the records of lines if a lenient one lets nothing on them pass. -/
theorem stricter_encodeFrom (enc : Encoder) (p : Progress) (index : Nat) (lines : List Text) :
    Attempt.Stricter ((enc.checking true).encodeFrom p index lines).1
      ((enc.checking false).encodeFrom p index lines).1 := by
  induction lines generalizing p index with
  | nil => exact Attempt.stricter_of_notices_eq_nil rfl
  | cons line rest ih =>
    rw [encodeFrom_cons, encodeFrom_cons]
    refine (stricter_encodeLine enc _ line).andThen fun record _ => ?_
    rw [progress_encodeLine_checking]
    exact (ih _ _).andThen fun later _ => Attempt.stricter_of_notices_eq_nil rfl

end Encoder

/-- **Strict encoding is lenient encoding that lets nothing pass.** A listing is encoded with both checks
exactly if it is encoded without them, as the same program with the same line to start at, and no number
was filled in as zero nor any directive ignored on the way. -/
theorem strict_program_iff_lenient_clean (enc : Encoder) (lines : List Text) (program : Program) :
    (encodeListing (enc.checking true) lines).outcome = .ok program ↔
      (encodeListing (enc.checking false) lines).outcome = .ok program ∧
        ∀ notice ∈ (encodeListing (enc.checking false) lines).notices,
          notice.letsPass = false := by
  refine (Encoder.stricter_encodeFrom enc _ 1 lines).andThen ?_ program
  intro records hrecords
  -- the line to start at is the last progress's, which is the same only where both go on to the end
  rw [Encoder.progress_encodeFrom_checking hrecords]
  exact Attempt.stricter_of_notices_eq_singleton rfl rfl

end SpectrumBasic
