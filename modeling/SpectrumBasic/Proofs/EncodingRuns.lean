import SpectrumBasic.Proofs.EncodedLines

/-!
# Runs over source lines

An encoder takes the lines of a listing one after another and stops at the first line that fails. So a
run over lines is the run over the first of them followed by the run over the others
(`encodeFrom_append`), and a run that fails has lines that are encoded, and then the line that fails
just as it would by itself (`outcome_encodeFrom_eq_error_iff`). The program of a listing is what such a
run makes from the start.
-/

namespace SpectrumBasic

namespace Attempt

variable {α β : Type} {first : Attempt α} {second : α → Attempt β}

theorem andThen_of_ok {a : α} (h : first.outcome = .ok a) :
    first.andThen second = ⟨first.notices ++ (second a).notices, (second a).outcome⟩ := by
  rw [andThen, h]

theorem andThen_of_error {failure : Failure} (h : first.outcome = .error failure) :
    first.andThen second = ⟨first.notices, .error failure⟩ := by
  rw [andThen, h]

theorem outcome_andThen_eq_error_iff {failure : Failure} :
    (first.andThen second).outcome = .error failure ↔
      first.outcome = .error failure ∨
        ∃ a, first.outcome = .ok a ∧ (second a).outcome = .error failure := by
  cases h : first.outcome with
  | error failure' => rw [andThen_of_error h]; simp
  | ok a => rw [andThen_of_ok h]; simp

/-- An attempt has a result if something is known of it. -/
theorem exists_of_toOption_map {attempt : Attempt α} {f : α → β} {b : β}
    (h : attempt.outcome.toOption.map f = some b) : ∃ a, attempt.outcome = .ok a ∧ f a = b := by
  cases houtcome : attempt.outcome with
  | error failure =>
    rw [houtcome] at h
    cases h
  | ok a =>
    rw [houtcome] at h
    exact ⟨a, rfl, Option.some.inj h⟩

/-- Why an attempt has no result, if it has none. -/
def failure? (attempt : Attempt α) : Option Failure :=
  match attempt.outcome with
  | .ok _ => none
  | .error failure => some failure

theorem outcome_eq_error_of_failure? {attempt : Attempt α} {failure : Failure}
    (h : attempt.failure? = some failure) : attempt.outcome = .error failure := by
  unfold failure? at h
  split at h
  · cases h
  · rename_i houtcome
    rw [houtcome, Option.some.inj h]

end Attempt

namespace Encoder

variable {enc : Encoder} {p : Progress} {index : Nat}

/-- A line number is not read only for its many digits. -/
theorem exists_eq_tooManyDigits {number : Option Text} {failure : Failure}
    (h : numberOf p number = .error failure) : ∃ count, failure = .tooManyDigits count := by
  cases number with
  | none => cases h
  | some digits =>
    rw [numberOf] at h
    split at h
    · cases h
    · exact ⟨_, (Except.error.inj h).symm⟩

/-! ## The first line -/

/-- What is made of lines is what is made of the first, and then of the others. -/
theorem encodeFrom_cons (enc : Encoder) (p : Progress) (index : Nat) (line : Text)
    (rest : List Text) :
    (enc.encodeFrom p index (line :: rest)).1 =
      (enc.encodeLine { p with sourceLine := index } line).1.andThen fun record =>
        (enc.encodeFrom (enc.encodeLine { p with sourceLine := index } line).2 (index + 1)
          rest).1.andThen fun later => .succeed (record.toList ++ later) := by
  rw [encodeFrom]
  cases hfirst : (enc.encodeLine { p with sourceLine := index } line).1.outcome with
  | error failure =>
    rw [Attempt.andThen_of_error hfirst]
    simp only [hfirst]
  | ok record =>
    rw [Attempt.andThen_of_ok hfirst]
    cases hlater : (enc.encodeFrom (enc.encodeLine { p with sourceLine := index } line).2
        (index + 1) rest).1.outcome with
    | error failure =>
      rw [Attempt.andThen_of_error hlater]
      simp only [hfirst, hlater, Except.map]
    | ok later =>
      rw [Attempt.andThen_of_ok hlater]
      simp only [hfirst, hlater, Except.map, Attempt.succeed, List.append_nil]

theorem progress_encodeFrom_cons {line : Text} {rest : List Text} {record : Option LineRecord}
    (h : (enc.encodeLine { p with sourceLine := index } line).1.outcome = .ok record) :
    (enc.encodeFrom p index (line :: rest)).2 =
      (enc.encodeFrom (enc.encodeLine { p with sourceLine := index } line).2 (index + 1) rest).2 := by
  rw [encodeFrom]
  simp only [h]

/-- Lines are encoded if the first is and the others are. -/
theorem outcome_encodeFrom_cons_eq_ok_iff {line : Text} {rest : List Text}
    {records : List LineRecord} :
    (enc.encodeFrom p index (line :: rest)).1.outcome = .ok records ↔
      ∃ record later,
        (enc.encodeLine { p with sourceLine := index } line).1.outcome = .ok record ∧
        (enc.encodeFrom (enc.encodeLine { p with sourceLine := index } line).2 (index + 1)
          rest).1.outcome = .ok later ∧ record.toList ++ later = records := by
  rw [encodeFrom_cons, Attempt.outcome_andThen_eq_ok_iff]
  constructor
  · rintro ⟨record, hrecord, hboth⟩
    obtain ⟨later, hlater, hall⟩ := Attempt.outcome_andThen_eq_ok_iff.mp hboth
    exact ⟨record, later, hrecord, hlater, Except.ok.inj hall⟩
  · rintro ⟨record, later, hrecord, hlater, rfl⟩
    exact ⟨record, hrecord, Attempt.outcome_andThen_eq_ok_iff.mpr ⟨later, hlater, rfl⟩⟩

/-! ## Parts of a run -/

theorem index_add_length_cons (index : Nat) (line : Text) (before : List Text) :
    index + (line :: before).length = index + 1 + before.length := by
  rw [List.length_cons]
  omega

/-- Lines behind others that are encoded go on from the progress these made. -/
theorem encodeFrom_append {before : List Text} {records : List LineRecord}
    (h : (enc.encodeFrom p index before).1.outcome = .ok records) (after : List Text) :
    (enc.encodeFrom p index (before ++ after)).1.outcome =
        (enc.encodeFrom (enc.encodeFrom p index before).2 (index + before.length)
          after).1.outcome.map (records ++ ·) ∧
      (enc.encodeFrom p index (before ++ after)).2 =
        (enc.encodeFrom (enc.encodeFrom p index before).2 (index + before.length) after).2 := by
  induction before generalizing p index records with
  | nil =>
    obtain rfl := Except.ok.inj h
    refine ⟨?_, rfl⟩
    show (enc.encodeFrom p index after).1.outcome =
      (enc.encodeFrom p index after).1.outcome.map ([] ++ ·)
    cases (enc.encodeFrom p index after).1.outcome <;> rfl
  | cons line before ih =>
    obtain ⟨record, later, hrecord, hlater, rfl⟩ := outcome_encodeFrom_cons_eq_ok_iff.mp h
    obtain ⟨houtcome, hprogress⟩ := ih hlater
    rw [← index_add_length_cons index line] at houtcome hprogress
    rw [List.cons_append, progress_encodeFrom_cons hrecord, progress_encodeFrom_cons hrecord]
    refine ⟨?_, hprogress⟩
    rw [encodeFrom_cons, Attempt.andThen_of_ok hrecord, Attempt.andThen]
    rw [houtcome]
    cases (enc.encodeFrom (enc.encodeFrom (enc.encodeLine { p with sourceLine := index } line).2
      (index + 1) before).2 (index + (line :: before).length) after).1.outcome with
    | error failure => rfl
    | ok rest =>
      show Except.ok (record.toList ++ (later ++ rest)) = .ok (record.toList ++ later ++ rest)
      rw [List.append_assoc]

/-- **Where a run fails.** Lines fail to be encoded if some of them are encoded, from the first one on,
and the line behind these fails. -/
theorem outcome_encodeFrom_eq_error_iff {lines : List Text} {failure : Failure} :
    (enc.encodeFrom p index lines).1.outcome = .error failure ↔
      ∃ before line after, lines = before ++ line :: after ∧
        (∃ records, (enc.encodeFrom p index before).1.outcome = .ok records) ∧
        (enc.encodeLine { (enc.encodeFrom p index before).2 with
          sourceLine := index + before.length } line).1.outcome = .error failure := by
  constructor
  · intro h
    induction lines generalizing p index with
    | nil => cases h
    | cons line rest ih =>
      rw [encodeFrom_cons, Attempt.outcome_andThen_eq_error_iff] at h
      rcases h with hfirst | ⟨record, hrecord, hlater⟩
      · exact ⟨[], line, rest, rfl, ⟨[], rfl⟩, hfirst⟩
      · rw [Attempt.outcome_andThen_eq_error_iff] at hlater
        rcases hlater with hlater | ⟨later, -, hnever⟩
        · obtain ⟨before, failing, after, rfl, ⟨records, hbefore⟩, hfailing⟩ := ih hlater
          refine ⟨line :: before, failing, after, rfl, ?_, ?_⟩
          · exact ⟨_, outcome_encodeFrom_cons_eq_ok_iff.mpr
              ⟨record, records, hrecord, hbefore, rfl⟩⟩
          · rw [progress_encodeFrom_cons hrecord, index_add_length_cons]
            exact hfailing
        · cases hnever
  · rintro ⟨before, line, after, rfl, ⟨records, hbefore⟩, hfailing⟩
    rw [(encodeFrom_append hbefore _).1, encodeFrom_cons, Attempt.andThen_of_error hfailing]
    rfl

end Encoder

/-! ## Whole listings -/

section Listing

variable {enc : Encoder} {lines : List Text}

/-- A listing has a program if its lines are encoded from the start on. -/
theorem outcome_encodeListing_eq_ok_iff {program : Program} :
    (encodeListing enc lines).outcome = .ok program ↔
      ∃ records, (enc.encodeFrom enc.start 1 lines).1.outcome = .ok records ∧
        program =
          { lines := records, autostart := (enc.encodeFrom enc.start 1 lines).2.autostart } := by
  rw [encodeListing, Encoder.encodeLines]
  show (Attempt.andThen (enc.encodeFrom enc.start 1 lines).1 _).outcome = _ ↔ _
  rw [Attempt.outcome_andThen_eq_ok_iff]
  constructor
  · rintro ⟨records, hrecords, hprogram⟩
    exact ⟨records, hrecords, (Except.ok.inj hprogram).symm⟩
  · rintro ⟨records, hrecords, rfl⟩
    exact ⟨records, hrecords, rfl⟩

/-- A listing fails as its lines do. -/
theorem outcome_encodeListing_eq_error_iff {failure : Failure} :
    (encodeListing enc lines).outcome = .error failure ↔
      (enc.encodeFrom enc.start 1 lines).1.outcome = .error failure := by
  rw [encodeListing, Encoder.encodeLines]
  show (Attempt.andThen (enc.encodeFrom enc.start 1 lines).1 _).outcome = _ ↔ _
  rw [Attempt.outcome_andThen_eq_error_iff]
  constructor
  · rintro (hlines | ⟨records, -, hnever⟩)
    · exact hlines
    · cases hnever
  · exact .inl

end Listing

end SpectrumBasic
