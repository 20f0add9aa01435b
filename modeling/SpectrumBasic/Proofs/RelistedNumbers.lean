import Mathlib.Data.List.TakeWhile
import SpectrumBasic.Proofs.EncodingRuns

/-!
# Line numbers of listed programs

A listed record is its number and the text of its line. The number is read back with the text, unless
there is nothing but blanks in it (`LineRecord.listsBlank`): these are trimmed, the number alone is taken
for a statement, and that statement gets the number that is next. So the numbers of a listed program that
is encoded again are known (`renumbered`), and they are the ones it had exactly if every such record has
the number that is next (`inStep`).
-/

namespace SpectrumBasic

/-! ## Trimmed lines -/

namespace Text

/-- Only the end of a text is trimmed if its start is solid. -/
theorem Solid.trim_append {front : Text} (h : Solid front) (back : Text) :
    trim (front ++ back) = front ++ (back.reverse.dropWhile isBlank).reverse := by
  have hfirst : (front ++ back).head?.any isBlank = false := by
    rw [List.head?_append, Option.or_of_isSome (List.isSome_head?.mpr h.ne_nil)]
    exact h.first
  have hlast : front.reverse.dropWhile isBlank = front.reverse := by
    refine dropWhile_of_head ?_
    rw [List.head?_reverse]
    exact h.last
  rw [trim, strip, dropWhile_of_head hfirst, List.reverse_append, List.dropWhile_append, hlast]
  split
  · rename_i hempty
    rw [List.isEmpty_iff.mp hempty, List.reverse_reverse, List.reverse_nil, List.append_nil]
  · rw [List.reverse_append, List.reverse_reverse]

theorem solid_ofNat (n : Nat) : Solid (ofNat n) := by
  have hdigits : ∀ d ∈ ofNat n, isBlank d = false := fun d hd =>
    isBlank_of_isDigit (isDigit_of_mem_ofNat hd)
  have hne : ofNat n ≠ [] := Nat.toDigits_ne_nil
  refine ⟨hne, ?_, ?_⟩
  · rw [List.head?_eq_some_head hne, Option.any_some, hdigits _ (List.head_mem hne)]
  · rw [List.getLast?_eq_some_getLast hne, Option.any_some, hdigits _ (List.getLast_mem hne)]

/-- A number keeps the space behind it if there is more than blanks there. -/
theorem trim_numbered (n : Nat) (rest : Text) :
    trim (ofNat n ++ ' ' :: rest) =
      if rest.all isBlank then ofNat n
      else ofNat n ++ ' ' :: (rest.reverse.dropWhile isBlank).reverse := by
  have hempty : (rest.reverse.dropWhile isBlank).isEmpty = rest.all isBlank := by
    rw [Bool.eq_iff_iff, List.isEmpty_iff, List.dropWhile_eq_nil_iff, List.all_eq_true]
    simp only [List.mem_reverse]
  rw [(solid_ofNat n).trim_append, List.reverse_cons, List.dropWhile_append, hempty]
  cases rest.all isBlank with
  | true => exact List.append_nil _
  | false => simp

end Text

namespace SourceLine

/-- The number in front of a text is read with it, unless only blanks are there. -/
theorem ofText_trim_numbered (n : Nat) (rest : Text) :
    ∃ body, ofText (Text.trim (Text.ofNat n ++ ' ' :: rest)) =
      .statement (if rest.all Text.isBlank then none else some (Text.ofNat n)) body := by
  rw [Text.trim_numbered]
  cases rest.all Text.isBlank with
  | true =>
    have halone := ofText_ofNat_append n (show ([] : Text).head?.any Char.isDigit = false from rfl)
    rw [List.append_nil] at halone
    exact ⟨_, halone⟩
  | false =>
    have hspace : (' ' :: (rest.reverse.dropWhile Text.isBlank).reverse).head?.any Char.isDigit =
        false := rfl
    exact ⟨_, ofText_ofNat_append n hspace⟩

end SourceLine

/-! ## Records -/

namespace LineRecord

/-- Whether nothing but blanks is listed of a record, its number aside. -/
def listsBlank (r : LineRecord) : Bool :=
  (Listing.line .standard r.payload.dropLast).all Text.isBlank

/-- The number that a listed record is encoded with where `next` is the number of the next line. -/
def relistedNumber (next : Int) (r : LineRecord) : Int :=
  if r.listsBlank then next else r.number

end LineRecord

/-- The numbers that listed records are encoded with. -/
def renumbered (step next : Int) : List LineRecord → List Int
  | [] => []
  | r :: records => r.relistedNumber next :: renumbered step (r.relistedNumber next + step) records

/-- Whether each record of which nothing is listed has the number of the next line: `next` at the
start, and later the number before it and one step. -/
def inStep (step next : Int) : List LineRecord → Bool
  | [] => true
  | r :: records => (!r.listsBlank || r.number == next) && inStep step (r.number + step) records

/-- Records that are in step keep their numbers, and no others do. -/
theorem renumbered_eq_iff (step next : Int) (records : List LineRecord) :
    renumbered step next records = records.map (fun r => (r.number : Int)) ↔
      inStep step next records = true := by
  induction records generalizing next with
  | nil => simp [renumbered, inStep]
  | cons r records ih =>
    have hfirst : r.relistedNumber next = r.number ↔
        (!r.listsBlank || (r.number : Int) == next) = true := by
      rw [LineRecord.relistedNumber]
      cases r.listsBlank with
      | true => simpa using eq_comm
      | false => simp
    rw [renumbered, inStep, List.map_cons, List.cons.injEq, Bool.and_eq_true, ← hfirst, ← ih]
    -- the numbers behind the first depend on it, so that it has to be kept for them to be
    exact and_congr_right fun hkept => by rw [hkept]

namespace Encoder

variable {enc : Encoder} {p : Progress}

/-- A statement gets the number that is meant for it, and the next line the one a step behind. -/
theorem number_of_encodeLine (htable : enc.table = .standard) {line body : Text}
    {number : Option Text} {record : Option LineRecord}
    (hkind : SourceLine.ofText line.trim = .statement number body)
    (h : (enc.encodeLine p line).1.outcome = .ok record) :
    ∃ n r, numberOf p number = .ok n ∧ record = some r ∧ (r.number : Int) = n ∧
      (enc.encodeLine p line).2.nextLine = n + enc.settings.lineStep := by
  have hnumber : numberOf { p with sourceText := line.trim } number = numberOf p number := by
    cases number <;> rfl
  unfold encodeLine at h ⊢
  simp only [hkind, hnumber] at h ⊢
  cases hn : numberOf p number with
  | error failure =>
    rw [hn] at h
    cases h
  | ok n =>
    simp only [hn] at h
    obtain ⟨r, hr, hrecord⟩ := Attempt.outcome_andThen_eq_ok_iff.mp h
    obtain ⟨-, hnumber, -⟩ := (outcome_encodeStatement_eq_ok_iff htable).mp hr
    exact ⟨n, r, rfl, (Except.ok.inj hrecord).symm, hnumber, rfl⟩

/-- A listed record is encoded with its own number or the next one. -/
theorem number_of_encodeLine_record (htable : enc.table = .standard) {r : LineRecord}
    {record : Option LineRecord}
    (h : (enc.encodeLine p (Listing.record .standard r)).1.outcome = .ok record) :
    ∃ again, record = some again ∧ (again.number : Int) = r.relistedNumber p.nextLine ∧
      (enc.encodeLine p (Listing.record .standard r)).2.nextLine =
        r.relistedNumber p.nextLine + enc.settings.lineStep := by
  obtain ⟨body, hkind⟩ := SourceLine.ofText_trim_numbered r.number
    (Listing.line .standard r.payload.dropLast)
  obtain ⟨n, again, hn, hrecord, hnumber, hnext⟩ := number_of_encodeLine htable hkind h
  have hrelisted : n = r.relistedNumber p.nextLine := by
    have hread : numberOf p (some (Text.ofNat r.number)) = .ok (r.number : Int) := by
      rw [numberOf, Text.readNat_ofNat (Text.length_ofNat_le r.number_le)]
    rw [LineRecord.relistedNumber, LineRecord.listsBlank]
    split at hn
    · rename_i hblank
      rw [if_pos hblank]
      exact (Except.ok.inj hn).symm
    · rename_i htext
      rw [if_neg htext]
      exact Except.ok.inj (hn.symm.trans hread)
  rw [hrelisted] at hnumber hnext
  exact ⟨again, hrecord, hnumber, hnext⟩

/-- Listed records are encoded with the numbers of `renumbered`. -/
theorem numbers_of_encodeFrom_records (htable : enc.table = .standard) {index : Nat}
    {records again : List LineRecord}
    (h : (enc.encodeFrom p index (records.map (Listing.record .standard))).1.outcome = .ok again) :
    again.map (fun r => (r.number : Int)) =
      renumbered enc.settings.lineStep p.nextLine records := by
  induction records generalizing p index again with
  | nil =>
    obtain rfl := Except.ok.inj h
    rfl
  | cons r records ih =>
    rw [List.map_cons, outcome_encodeFrom_cons_eq_ok_iff] at h
    obtain ⟨record, later, hrecord, hlater, rfl⟩ := h
    obtain ⟨first, rfl, hnumber, hnext⟩ := number_of_encodeLine_record htable hrecord
    rw [Option.toList_some, List.singleton_append, List.map_cons, renumbered, hnumber, ih hlater,
      hnext]

/-! ## Programs -/

/-- A line without a statement makes no record and leaves the next number as it is. -/
theorem encodeLine_of_no_statement (htable : enc.table = .standard) {line : Text}
    {record : Option LineRecord} (hnone : statement? line = none)
    (h : (enc.encodeLine p line).1.outcome = .ok record) :
    record = none ∧ (enc.encodeLine p line).2.nextLine = p.nextLine := by
  have hpayload := (payload_of_encodeLine htable h).1
  rw [hnone, Option.map_none, Option.map_eq_none_iff] at hpayload
  refine ⟨hpayload, ?_⟩
  unfold statement? at hnone
  unfold encodeLine
  cases hkind : SourceLine.ofText line.trim with
  | blank | comment => simp only [hkind]
  | autostart operand =>
    simp only [hkind]
    split <;> rfl
  | malformed =>
    simp only [hkind]
    split <;> rfl
  | statement number body =>
    rw [hkind] at hnone
    cases hnone

/-- The directive to start at a line is no statement. -/
theorem statement?_directive (start : Int) : statement? (Listing.directive start) = none := by
  have hmark : Text.Solid ['#'] := ⟨by decide, by decide, by decide⟩
  have hdirective : Listing.directive start =
    ['#'] ++ ("autostart ".toList ++ Text.ofInt start) := rfl
  rw [statement?, hdirective, hmark.trim_append]
  split
  · rename_i hkind
    exact absurd hkind (SourceLine.ofMarked_ne_statement _ _ _)
  · rfl

/-- A listed program is encoded with the numbers of `renumbered`. -/
theorem numbers_of_encodeListing (htable : enc.table = .standard) {program again : Program}
    (h : (encodeListing enc (Listing.program .standard program)).outcome = .ok again) :
    again.lines.map (fun r => (r.number : Int)) =
      renumbered enc.settings.lineStep enc.settings.firstLine program.lines := by
  obtain ⟨records, hrecords, rfl⟩ := outcome_encodeListing_eq_ok_iff.mp h
  unfold Listing.program at hrecords
  cases hautostart : program.autostart with
  | none =>
    rw [hautostart] at hrecords
    exact numbers_of_encodeFrom_records htable hrecords
  | some start =>
    rw [hautostart, Option.map_some, Option.toList_some, List.singleton_append,
      outcome_encodeFrom_cons_eq_ok_iff] at hrecords
    obtain ⟨record, later, hrecord, hlater, rfl⟩ := hrecords
    obtain ⟨rfl, hnext⟩ :=
      encodeLine_of_no_statement htable (statement?_directive start) hrecord
    rw [Option.toList_none, List.nil_append, numbers_of_encodeFrom_records htable hlater, hnext]
    rfl

end Encoder

/-- **Which line numbers are kept.** If the listing of a file is encoded, its records get the numbers of
`renumbered`. These are the numbers in the file exactly if each record of which nothing is listed has the
number of the next line. -/
theorem relisted_numbers_kept_iff {settings : Settings} {data : Bytes} {program : Program}
    (h : (encodeListing { settings } (Listing.file .standard data)).outcome = .ok program) :
    program.lineNumbers.map (fun n : Nat => (n : Int)) =
        renumbered settings.lineStep settings.firstLine (Program.parse data).1.lines ∧
      (program.lineNumbers = (Program.parse data).1.lineNumbers ↔
        inStep settings.lineStep settings.firstLine (Program.parse data).1.lines = true) := by
  have hnumbers : program.lineNumbers.map (fun n : Nat => (n : Int)) =
      renumbered settings.lineStep settings.firstLine (Program.parse data).1.lines := by
    rw [Program.lineNumbers, List.map_map]
    exact Encoder.numbers_of_encodeListing rfl h
  refine ⟨hnumbers, ?_⟩
  rw [← renumbered_eq_iff, ← hnumbers]
  have hparsed : (Program.parse data).1.lines.map (fun r => (r.number : Int)) =
      (Program.parse data).1.lineNumbers.map (fun n : Nat => (n : Int)) := by
    rw [Program.lineNumbers, List.map_map]
    rfl
  rw [hparsed]
  exact (List.map_inj_right fun _ _ => Int.ofNat.inj).symm

theorem exists_of_lineNumbers {settings : Settings} {lines : List Text} {numbers : List Nat}
    (h : (encodeListing { settings } lines).outcome.toOption.map Program.lineNumbers =
      some numbers) :
    ∃ program, (encodeListing { settings } lines).outcome = .ok program ∧
      program.lineNumbers = numbers := Attempt.exists_of_toOption_map h

/-- An empty line 20 behind line 10 keeps its number. -/
theorem empty_line_in_step_kept :
    ∃ program, (encodeListing {} (Listing.file .standard
        [0, 10, 2, 0, 0xFB, lineEnd, 0, 20, 1, 0, lineEnd])).outcome = .ok program ∧
      program.lineNumbers = [10, 20] := by
  have hlisting : (encodeListing {} (Listing.file .standard
      [0, 10, 2, 0, 0xFB, lineEnd, 0, 20, 1, 0, lineEnd])).outcome.toOption.map Program.lineNumbers =
        some [10, 20] := by
    decide +kernel
  obtain ⟨program, hprogram, -⟩ := exists_of_lineNumbers hlisting
  have hkept := (relisted_numbers_kept_iff hprogram).2.mpr (by decide +kernel)
  exact ⟨program, hprogram, hkept.trans (by decide +kernel)⟩

/-- An empty line 20 by itself becomes line 10. -/
theorem empty_line_renumbered :
    (Program.parse [0, 20, 1, 0, lineEnd]).1.lineNumbers = [20] ∧
      ∃ program, (encodeListing {} (Listing.file .standard [0, 20, 1, 0, lineEnd])).outcome =
        .ok program ∧ program.lineNumbers = [10] :=
  ⟨by decide +kernel, exists_of_lineNumbers (by decide +kernel)⟩

end SpectrumBasic
