import SpectrumBasic.Proofs.LineListing
import SpectrumBasic.Proofs.SourceLines
import SpectrumBasic.Source.Encoder

/-!
# The records of a listing

What an encoder makes of source lines with the standard table: each statement becomes a record with the
bytes of its lexemes (`payloadOf`), and nothing else becomes one (`Encoder.payloads_of_encodeFrom`).
The lines of a listed program are encoded as its records again, with the line to start at that the
directive names, if each of its lines is (`Encoder.encodeFrom_program`).
-/

namespace SpectrumBasic

theorem Attempt.outcome_andThen_eq_ok_iff {α β : Type} {first : Attempt α} {second : α → Attempt β}
    {b : β} : (first.andThen second).outcome = .ok b ↔
      ∃ a, first.outcome = .ok a ∧ (second a).outcome = .ok b := by
  unfold Attempt.andThen
  cases first.outcome with
  | error failure => simp
  | ok a => simp

theorem Attempt.outcome_bind_eq_ok_iff {α β : Type} {first : Attempt α} {second : α → Attempt β}
    {b : β} : (first >>= second).outcome = .ok b ↔
      ∃ a, first.outcome = .ok a ∧ (second a).outcome = .ok b := outcome_andThen_eq_ok_iff

/-- The payload of a statement. -/
def payloadOf (text : Text) : Bytes := bytesOf (scan .standard .start text) ++ [lineEnd]

/-- Whether nothing in a statement is refused. -/
def Accepted (strict : Bool) (text : Text) : Prop :=
  (scan .standard .start text).findSome? (Lexeme.refusal? strict) = none

/-- Where numbers may be filled in as zero, no lexeme of a statement is refused. -/
theorem Reading.refusal?_eq_none {table : Table} {place : Place} {text : Text}
    {lexemes : List Lexeme} (h : Reading table place text lexemes) :
    lexemes.findSome? (Lexeme.refusal? false) = none := by
  induction h with
  | done => rfl
  | closed hinner hrest ih => exact ih
  | unclosed hinner => rfl
  | number hstart hrun hend hvalue hrest ih => exact ih
  | comment hopens => rfl
  | keyword hplain hread hcode hspaces hrest ih =>
    rw [findSome?_brokenAt_append]
    exact ih
  | remark hplain hread =>
    rw [findSome?_brokenAt_append]
    rfl
  | character hplain hread hrest ih =>
    rw [findSome?_brokenAt_append]
    exact ih

/-- Every statement has its payload, where numbers may be filled in as zero. -/
theorem Table.Consistent.tokenize_eq {table : Table} (hc : table.Consistent) (text : Text) :
    (tokenize table false text).payload = .ok (bytesOf (scan table .start text) ++ [lineEnd]) := by
  have hreading := reading_scan hc .start text
  rw [tokenize, hreading.refusal?_eq_none]
  rfl

theorem tokenize_lenient (text : Text) :
    (tokenize .standard false text).payload = .ok (payloadOf text) :=
  Table.consistent_standard.tokenize_eq text

namespace Encoder

variable {enc : Encoder} (htable : enc.table = .standard)

include htable

/-! ## Statements -/

/-- A statement has its payload if nothing in it is refused. -/
theorem outcome_tokenize_eq_ok_iff {p : Progress} {text : Text} {payload : Bytes} :
    (enc.tokenize p text).outcome = .ok payload ↔
      Accepted enc.settings.strictNumbers text ∧ payload = payloadOf text := by
  rw [tokenize, SpectrumBasic.tokenize, htable, Accepted]
  cases hrefusal : (scan .standard .start text).findSome?
      (Lexeme.refusal? enc.settings.strictNumbers) with
  | none =>
    simp only [Except.ok.injEq, true_and]
    exact eq_comm
  | some refusal => cases refusal <;> simp

/-- A statement has the record with its number and payload. -/
theorem outcome_encodeStatement_eq_ok_iff {p : Progress} {number : Int} {text : Text}
    {record : LineRecord} :
    (enc.encodeStatement p number text).outcome = .ok record ↔
      Accepted enc.settings.strictNumbers text ∧ (record.number : Int) = number ∧
        record.payload = payloadOf text := by
  unfold encodeStatement
  by_cases hn : 0 ≤ number ∧ number ≤ maxWord
  · rw [dif_pos hn]
    show (Attempt.andThen _ _).outcome = _ ↔ _
    rw [Attempt.outcome_andThen_eq_ok_iff]
    constructor
    · rintro ⟨payload, hpayload, hrecord⟩
      obtain ⟨haccepted, rfl⟩ := (outcome_tokenize_eq_ok_iff htable).mp hpayload
      split at hrecord
      · obtain rfl := Except.ok.inj hrecord
        exact ⟨haccepted, Int.toNat_of_nonneg hn.1, rfl⟩
      · cases hrecord
    · rintro ⟨haccepted, hnumber, hpayload⟩
      refine ⟨payloadOf text, (outcome_tokenize_eq_ok_iff htable).mpr ⟨haccepted, rfl⟩, ?_⟩
      -- that the payload fits is known from the record
      have hlength : (payloadOf text).length ≤ maxWord := hpayload ▸ record.length_le
      rw [dif_pos hlength]
      cases record with
      | mk n payload number_le length_le =>
        subst hnumber hpayload
        rfl
  · rw [dif_neg hn]
    constructor
    · intro h
      split at h <;> cases h
    · rintro ⟨-, hnumber, -⟩
      have hle := record.number_le
      omega

/-! ## Lines -/

/-- A line makes the record of its statement and no other. -/
theorem payload_of_encodeLine {p : Progress} {line : Text} {record : Option LineRecord}
    (h : (enc.encodeLine p line).1.outcome = .ok record) :
    record.map (·.payload) = (statement? line).map payloadOf ∧
      ∀ body, statement? line = some body → Accepted enc.settings.strictNumbers body := by
  unfold encodeLine at h
  unfold statement?
  -- only a statement makes a record; the other lines make none or fail
  cases hline : SourceLine.ofText line.trim with
  | blank =>
    simp only [hline] at h
    obtain rfl := Except.ok.inj h
    exact ⟨rfl, fun _ hnone => by cases hnone⟩
  | comment =>
    simp only [hline] at h
    obtain rfl := Except.ok.inj h
    exact ⟨rfl, fun _ hnone => by cases hnone⟩
  | autostart operand =>
    simp only [hline] at h
    split at h
    · obtain rfl := Except.ok.inj h
      exact ⟨rfl, fun _ hnone => by cases hnone⟩
    · cases h
  | malformed =>
    simp only [hline] at h
    split at h
    · cases h
    · obtain rfl := Except.ok.inj h
      exact ⟨rfl, fun _ hnone => by cases hnone⟩
  | statement number body =>
    simp only [hline] at h
    split at h
    · cases h
    · obtain ⟨r, hr, hrecord⟩ := Attempt.outcome_andThen_eq_ok_iff.mp h
      obtain rfl := Except.ok.inj hrecord
      obtain ⟨haccepted, -, hpayload⟩ := (outcome_encodeStatement_eq_ok_iff htable).mp hr
      refine ⟨congrArg some hpayload, ?_⟩
      intro body' hbody
      rwa [← Option.some.inj hbody]

/-- The records of source lines are those of the statements on them, in order. -/
theorem payloads_of_encodeFrom {p : Progress} {index : Nat} {lines : List Text}
    {records : List LineRecord} (h : (enc.encodeFrom p index lines).1.outcome = .ok records) :
    records.map (·.payload) = (lines.filterMap statement?).map payloadOf ∧
      ∀ body ∈ lines.filterMap statement?, Accepted enc.settings.strictNumbers body := by
  -- the progress made before a line bears on failures and notices only, so it is generalized
  induction lines generalizing p index records with
  | nil =>
    obtain rfl := Except.ok.inj h
    exact ⟨rfl, fun body hbody => by cases hbody⟩
  | cons line rest ih =>
    unfold encodeFrom at h
    cases hfirst : (enc.encodeLine { p with sourceLine := index } line).1.outcome with
    | error failure =>
      simp only [hfirst] at h
      cases h
    | ok record =>
      simp only [hfirst] at h
      obtain ⟨hpayload, haccepted⟩ := payload_of_encodeLine htable hfirst
      cases hlater : (enc.encodeFrom (enc.encodeLine { p with sourceLine := index } line).2
          (index + 1) rest).1.outcome with
      | error failure =>
        rw [hlater] at h
        cases h
      | ok later =>
        rw [hlater] at h
        obtain rfl : record.toList ++ later = records := Except.ok.inj h
        obtain ⟨hpayloads, hall⟩ := ih hlater
        cases hstatement : statement? line with
        | none =>
          rw [hstatement, Option.map_none, Option.map_eq_none_iff] at hpayload
          rw [List.filterMap_cons_none hstatement, hpayload]
          exact ⟨hpayloads, hall⟩
        | some body =>
          rw [hstatement, Option.map_some] at hpayload
          obtain ⟨r, rfl, hr⟩ := Option.map_eq_some_iff.mp hpayload
          rw [List.filterMap_cons_some hstatement, List.forall_mem_cons]
          refine ⟨?_, haccepted body hstatement, hall⟩
          rw [List.map_cons, ← hpayloads, ← hr]
          rfl

end Encoder

/-! ## Listed programs -/

/-- The listing of a record is encoded with the payload of the record. -/
structure LineRecord.Relists (strict : Bool) (r : LineRecord) : Prop where
  solid : Text.Solid (Listing.line .standard r.payload.dropLast)
  accepted : Accepted strict (Listing.line .standard r.payload.dropLast)
  payload_eq : payloadOf (Listing.line .standard r.payload.dropLast) = r.payload

theorem Text.length_ofNat_le {n : Nat} (h : n ≤ maxWord) :
    (Text.ofNat n).length ≤ Text.digitLimit := by
  have hfive : (Text.ofNat n).length ≤ 5 := by
    rw [Text.ofNat, Nat.length_toDigits_le_iff (by decide) (by decide)]
    exact Nat.lt_of_le_of_lt h (by decide)
  exact Nat.le_trans hfive (by decide)

namespace Encoder

variable {enc : Encoder}

/-- A listed record is encoded as that record. -/
theorem encodeLine_record (htable : enc.table = .standard) {r : LineRecord}
    (h : r.Relists enc.settings.strictNumbers) (p : Progress) :
    (enc.encodeLine p (Listing.record .standard r)).1.outcome = .ok (some r) ∧
      (enc.encodeLine p (Listing.record .standard r)).2.autostart = p.autostart := by
  have hnumber : ∀ p : Progress, numberOf p (some (Text.ofNat r.number)) = .ok (r.number : Int) := by
    intro p
    rw [numberOf, Text.readNat_ofNat (Text.length_ofNat_le r.number_le)]
  rw [encodeLine, Listing.record, (h.solid.numbered r.number).trim_eq,
    SourceLine.ofText_numbered h.solid]
  simp only [hnumber, and_true]
  refine Attempt.outcome_andThen_eq_ok_iff.mpr ⟨r, ?_, rfl⟩
  exact (outcome_encodeStatement_eq_ok_iff htable).mpr ⟨h.accepted, rfl, h.payload_eq.symm⟩

theorem encodeLine_directive (enc : Encoder) {n : Nat} (h : n ≤ maxWord) (p : Progress) :
    (enc.encodeLine p (Listing.directive n)).1.outcome = .ok none ∧
      (enc.encodeLine p (Listing.directive n)).2.autostart = some (n : Int) := by
  obtain ⟨hsolid, hdirective⟩ := ofText_directive n
  rw [encodeLine, hsolid.trim_eq, hdirective]
  simp only [Text.readInt_ofNat (Text.length_ofNat_le h), and_self]

/-- Listed records are encoded as these records. -/
theorem encodeFrom_records (htable : enc.table = .standard) {records : List LineRecord}
    (h : ∀ r ∈ records, r.Relists enc.settings.strictNumbers) (p : Progress) (index : Nat) :
    (enc.encodeFrom p index (records.map (Listing.record .standard))).1.outcome = .ok records ∧
      (enc.encodeFrom p index (records.map (Listing.record .standard))).2.autostart
        = p.autostart := by
  induction records generalizing p index with
  | nil => exact ⟨rfl, rfl⟩
  | cons r records ih =>
    rw [List.forall_mem_cons] at h
    obtain ⟨hfirst, hstart⟩ := encodeLine_record htable h.1 { p with sourceLine := index }
    obtain ⟨hlater, hend⟩ := ih h.2
      (enc.encodeLine { p with sourceLine := index } (Listing.record .standard r)).2 (index + 1)
    rw [List.map_cons, encodeFrom]
    simp only [hfirst, hlater, hend, hstart, and_true]
    rfl

/-- A listed program is encoded as its records, and with the line to start at that it has. -/
theorem encodeFrom_program (htable : enc.table = .standard) {program : Program}
    (h : ∀ r ∈ program.lines, r.Relists enc.settings.strictNumbers)
    (hstart : ∀ start, program.autostart = some start → 0 ≤ start ∧ start ≤ 32767)
    {p : Progress} (hp : p.autostart = none) (index : Nat) :
    (enc.encodeFrom p index (Listing.program .standard program)).1.outcome = .ok program.lines ∧
      (enc.encodeFrom p index (Listing.program .standard program)).2.autostart
        = program.autostart := by
  unfold Listing.program
  cases hautostart : program.autostart with
  | none =>
    obtain ⟨hrecords, hend⟩ := encodeFrom_records htable h p index
    exact ⟨hrecords, hend.trans hp⟩
  | some start =>
    obtain ⟨hnonneg, hle⟩ := hstart start hautostart
    obtain ⟨n, rfl⟩ := Int.eq_ofNat_of_zero_le hnonneg
    have hn : n ≤ maxWord := Nat.le_trans (Int.ofNat_le.mp hle) (by decide)
    -- the directive comes first, and no record changes what it has named
    obtain ⟨hfirst, hnamed⟩ := encodeLine_directive enc hn { p with sourceLine := index }
    obtain ⟨hrecords, hend⟩ := encodeFrom_records htable h
      (enc.encodeLine { p with sourceLine := index } (Listing.directive n)).2 (index + 1)
    rw [Option.map_some, Option.toList_some, List.singleton_append, encodeFrom]
    simp only [hfirst, hrecords, hend, hnamed, and_true]
    rfl

end Encoder

end SpectrumBasic
