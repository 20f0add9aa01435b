import Mathlib.Data.List.Forall2
import Mathlib.Tactic.Ring
import SpectrumBasic.Proofs.EncodingRuns

/-!
# How lines are numbered

Each statement of a listing makes one record. Its number is the one that its line starts with, or else
the number that is next: the first one of the settings, and later the number before and one step. So
what counts is the last line with a number of its own and the steps that were made from there.

That is shown in two parts. The numbers of a run are those of `numbering`, line by line
(`Encoder.numbers_of_encodeFrom`), and these are so many steps from a number that is known
(`numbering_of_some`, `numbering_of_none`).
-/

namespace SpectrumBasic

/-! ## Statements and their own numbers -/

/-- Whether there is a statement on a line: not just blanks, and no number sign in front. -/
def isStatement (line : Text) : Bool := line.trim.head?.any (· ≠ '#')

/-- The number a line starts with: digits, and a blank behind them. -/
def Numbered (n : Nat) (line : Text) : Prop :=
  ∃ digits blank rest, line.trim = digits ++ blank :: rest ∧ digits ≠ [] ∧
    (∀ d ∈ digits, d.isDigit = true) ∧ Text.isBlank blank = true ∧ Nat.ofDigitChars 10 digits 0 = n

/-- The number that a line gives to its statement. -/
def ownNumber? (line : Text) : Option Nat :=
  match SourceLine.ofText line.trim with
  | .statement (some digits) _ => some (Nat.ofDigitChars 10 digits 0)
  | _ => none

/-- A line has a statement if it is read as one. -/
theorem isStatement_eq (line : Text) : isStatement line = (statement? line).isSome := by
  unfold isStatement statement?
  cases line.trim with
  | nil => rfl
  | cons c rest =>
    by_cases hc : c = '#'
    · subst hc
      show false = _
      split
      · rename_i hkind
        exact absurd hkind (SourceLine.ofMarked_ne_statement _ _ _)
      · rfl
    · obtain ⟨number, body, hkind⟩ := SourceLine.exists_ofStatement_eq (c :: rest)
      rw [SourceLine.ofText_of_head hc, hkind]
      exact decide_eq_true hc

/-- A statement is given the number that its line starts with. -/
theorem ownNumber?_eq_some_iff {line : Text} {n : Nat} :
    ownNumber? line = some n ↔ Numbered n line := by
  constructor
  · intro h
    unfold ownNumber? at h
    split at h
    · rename_i digits body hkind
      have hstatement := (SourceLine.ofStatement_of_ofText hkind).2
      have hsplit := List.takeWhile_append_dropWhile (p := Char.isDigit) (l := line.trim)
      unfold SourceLine.ofStatement at hstatement
      dsimp only at hstatement
      split at hstatement
      · rename_i hnumber
        rw [Bool.and_eq_true, Bool.not_eq_true', List.isEmpty_eq_false_iff] at hnumber
        obtain ⟨hdigits, -⟩ := SourceLine.statement.inj hstatement
        rw [Option.some.injEq] at hdigits
        subst hdigits
        cases hafter : line.trim.dropWhile Char.isDigit with
        | nil =>
          rw [hafter] at hnumber
          exact Bool.noConfusion hnumber.2
        | cons blank rest =>
          rw [hafter] at hnumber hsplit
          exact ⟨_, blank, rest, hsplit.symm, hnumber.1, fun d hd => of_mem_takeWhile hd, hnumber.2,
            Option.some.inj h⟩
      · cases hstatement
    · cases h
  · rintro ⟨digits, blank, rest, htrim, hne, hdigits, hblank, rfl⟩
    have hstop : (blank :: rest).head?.any Char.isDigit = false := by
      rw [List.head?_cons, Option.any_some, Bool.eq_false_iff]
      intro hdigit
      rw [Text.isBlank_of_isDigit hdigit] at hblank
      cases hblank
    have hhead : (blank :: rest).head?.any Text.isBlank = true := hblank
    rw [ownNumber?, htrim, SourceLine.ofText_digits_append hne hdigits hstop, if_pos hhead]

/-! ## Numbers in a row -/

/-- The numbers of statements in a row. A statement without a number of its own gets the next one, and
the one behind it is a step further. -/
def numbering (step next : Int) : List (Option Nat) → List Int
  | [] => []
  | own :: rest =>
    let n := own.elim next fun n => (n : Int)
    n :: numbering step (n + step) rest

/-- Without numbers of their own, statements are numbered step by step. -/
theorem numbering_of_none (step next : Int) {owns : List (Option Nat)} {i : Nat}
    (hi : i < owns.length) (hnone : ∀ j n, j ≤ i → owns[j]? ≠ some (some n)) :
    (numbering step next owns)[i]? = some (next + i * step) := by
  induction owns generalizing next i with
  | nil => exact absurd hi (Nat.not_lt_zero i)
  | cons own rest ih =>
    cases own with
    | some n => exact absurd rfl (hnone 0 n (Nat.zero_le i))
    | none =>
      cases i with
      | zero => simp [numbering]
      | succ i =>
        have hlater : ∀ j n, j ≤ i → rest[j]? ≠ some (some n) := fun j n hj =>
          hnone (j + 1) n (by omega)
        rw [numbering, List.getElem?_cons_succ]
        show (numbering step (next + step) rest)[i]? = _
        rw [ih (next + step) (Nat.lt_of_succ_lt_succ hi) hlater]
        congr 1
        push_cast
        ring

/-- Behind a statement with a number of its own, they are numbered step by step from there. -/
theorem numbering_of_some (step next : Int) {owns : List (Option Nat)} {i k n : Nat}
    (hi : i < owns.length) (hk : k ≤ i) (hsome : owns[k]? = some (some n))
    (hnone : ∀ j m, k < j → j ≤ i → owns[j]? ≠ some (some m)) :
    (numbering step next owns)[i]? = some (n + (i - k : Nat) * step) := by
  induction owns generalizing next i k with
  | nil => exact absurd hi (Nat.not_lt_zero i)
  | cons own rest ih =>
    cases k with
    | zero =>
      obtain rfl : own = some n := Option.some.inj hsome
      cases i with
      | zero => simp [numbering]
      | succ i =>
        have hlater : ∀ j m, j ≤ i → rest[j]? ≠ some (some m) := fun j m hj =>
          hnone (j + 1) m (Nat.succ_pos j) (by omega)
        rw [numbering, List.getElem?_cons_succ]
        show (numbering step (n + step) rest)[i]? = _
        rw [numbering_of_none step _ (Nat.lt_of_succ_lt_succ hi) hlater]
        congr 1
        push_cast
        ring
    | succ k =>
      obtain ⟨i, rfl⟩ := Nat.exists_eq_add_one_of_ne_zero (Nat.ne_of_gt (Nat.lt_of_lt_of_le k.succ_pos hk))
      rw [numbering, List.getElem?_cons_succ, Nat.add_sub_add_right]
      exact ih _ (Nat.lt_of_succ_lt_succ hi) (Nat.le_of_succ_le_succ hk) hsome
        fun j m hkj hji => hnone (j + 1) m (by omega) (by omega)

/-! ## Lines -/

namespace Encoder

variable {enc : Encoder} {p : Progress}

/-- What a record stores of a line: the payload of its statement. -/
def Stores (enc : Encoder) (line : Text) (record : LineRecord) : Prop :=
  ∃ body, statement? line = some body ∧
    (SpectrumBasic.tokenize enc.table enc.settings.strictNumbers body).payload = .ok record.payload

/-- A statement that has a record has a payload, which is the record's. -/
theorem of_encodeStatement {number : Int} {text : Text} {record : LineRecord}
    (h : (enc.encodeStatement p number text).outcome = .ok record) :
    (record.number : Int) = number ∧
      (SpectrumBasic.tokenize enc.table enc.settings.strictNumbers text).payload =
        .ok record.payload := by
  unfold encodeStatement at h
  split at h
  · rename_i hn
    obtain ⟨payload, hpayload, hrecord⟩ := Attempt.outcome_bind_eq_ok_iff.mp h
    split at hrecord
    · obtain rfl := Except.ok.inj hrecord
      refine ⟨Int.toNat_of_nonneg hn.1, ?_⟩
      simp only [tokenize] at hpayload
      split at hpayload
      · rename_i hok
        rw [hok, Except.ok.inj hpayload]
      · cases hpayload
      · cases hpayload
    · cases hrecord
  · split at h <;> cases h

/-- The number of a statement is what its digits say, or the next one. -/
theorem eq_of_numberOf {number : Option Text} {n : Int} (h : numberOf p number = .ok n) :
    n = number.elim p.nextLine fun digits => (Nat.ofDigitChars 10 digits 0 : Nat) := by
  cases number with
  | none => exact (Except.ok.inj h).symm
  | some digits =>
    simp only [numberOf] at h
    split at h
    · rename_i n hread
      rw [← Except.ok.inj h, ← (Text.readNat_eq_ok_iff.mp hread).2]
      rfl
    · cases h

/-- **A line makes a record if there is a statement on it.** The record has the number of the line or the
next one, and the next number is one step behind it. Any other line makes none and leaves the next
number as it is. -/
theorem encodeLine_cases {line : Text} {record : Option LineRecord}
    (h : (enc.encodeLine p line).1.outcome = .ok record) :
    (isStatement line = false ∧ record = none ∧ (enc.encodeLine p line).2.nextLine = p.nextLine) ∨
    ∃ r, isStatement line = true ∧ record = some r ∧ enc.Stores line r ∧
      (r.number : Int) = (ownNumber? line).elim p.nextLine (fun n => (n : Int)) ∧
      (enc.encodeLine p line).2.nextLine = r.number + enc.settings.lineStep := by
  rw [isStatement_eq]
  unfold Stores statement? ownNumber?
  unfold encodeLine at h ⊢
  cases hkind : SourceLine.ofText line.trim with
  | blank | comment =>
    simp only [hkind] at h ⊢
    exact .inl ⟨rfl, (Except.ok.inj h).symm, trivial⟩
  | autostart operand =>
    simp only [hkind] at h ⊢
    split at h
    · exact .inl ⟨rfl, (Except.ok.inj h).symm, rfl⟩
    · cases h
  | malformed =>
    simp only [hkind] at h ⊢
    split at h
    · cases h
    · rename_i hlenient
      rw [if_neg hlenient]
      exact .inl ⟨rfl, (Except.ok.inj h).symm, rfl⟩
  | statement number body =>
    simp only [hkind] at h ⊢
    cases hn : numberOf { p with sourceText := line.trim } number with
    | error failure =>
      rw [hn] at h
      cases h
    | ok n =>
      simp only [hn] at h ⊢
      obtain ⟨r, hr, hrecord⟩ := Attempt.outcome_andThen_eq_ok_iff.mp h
      obtain ⟨hnumber, hpayload⟩ := of_encodeStatement hr
      refine .inr ⟨r, rfl, (Except.ok.inj hrecord).symm, ⟨body, rfl, hpayload⟩, ?_, by rw [hnumber]⟩
      rw [hnumber, eq_of_numberOf hn]
      cases number <;> rfl

/-! ## Runs -/

/-- Source lines make a record for each statement on them, in order, and the numbers of these records are
those of `numbering`. -/
theorem numbers_of_encodeFrom {index : Nat} {lines : List Text} {records : List LineRecord}
    (h : (enc.encodeFrom p index lines).1.outcome = .ok records) :
    List.Forall₂ enc.Stores (lines.filter isStatement) records ∧
      records.map (fun r => (r.number : Int)) =
        numbering enc.settings.lineStep p.nextLine
          ((lines.filter isStatement).map ownNumber?) := by
  induction lines generalizing p index records with
  | nil =>
    obtain rfl := Except.ok.inj h
    exact ⟨.nil, rfl⟩
  | cons line rest ih =>
    obtain ⟨record, later, hrecord, hlater, rfl⟩ := outcome_encodeFrom_cons_eq_ok_iff.mp h
    obtain ⟨hstores, hnumbers⟩ := ih hlater
    rcases encodeLine_cases hrecord with
      ⟨hnone, rfl, hnext⟩ | ⟨r, hstatement, rfl, hstored, hnumber, hnext⟩
    · rw [List.filter_cons_of_neg (by rw [hnone]; decide)]
      rw [hnext] at hnumbers
      exact ⟨hstores, hnumbers⟩
    · rw [List.filter_cons_of_pos hstatement]
      refine ⟨.cons hstored hstores, ?_⟩
      rw [Option.toList_some, List.singleton_append, List.map_cons, List.map_cons, numbering,
        hnumbers, hnext, hnumber]

end Encoder

/-! ## Listings -/

/-- **The line numbering law.** A program has one record for each statement of its listing, in order. If
the statement `k` is the last one up to the statement `i` with a number of its own, then that number and
`i - k` steps make the number of the record `i`; if there is none, the first number and `i` steps
do. No number is larger than a word. -/
theorem line_numbering_law {enc : Encoder} {lines : List Text} {program : Program}
    (h : (encodeListing enc lines).outcome = .ok program) :
    List.Forall₂ enc.Stores (lines.filter isStatement) program.lines ∧
      ∀ i record, program.lines[i]? = some record →
        (∀ k n line, k ≤ i → (lines.filter isStatement)[k]? = some line → Numbered n line →
          (∀ j later m, k < j → j ≤ i → (lines.filter isStatement)[j]? = some later →
            ¬ Numbered m later) →
          (record.number : Int) = n + (i - k : Nat) * enc.settings.lineStep) ∧
        ((∀ j line m, j ≤ i → (lines.filter isStatement)[j]? = some line → ¬ Numbered m line) →
          (record.number : Int) = enc.settings.firstLine + i * enc.settings.lineStep) ∧
        record.number ≤ 65535 := by
  obtain ⟨records, hrecords, rfl⟩ := outcome_encodeListing_eq_ok_iff.mp h
  obtain ⟨hstores, hnumbers⟩ := Encoder.numbers_of_encodeFrom hrecords
  refine ⟨hstores, fun i record hrecord => ?_⟩
  have hlength : i < ((lines.filter isStatement).map ownNumber?).length := by
    rw [List.length_map, hstores.length_eq]
    exact (List.getElem?_eq_some_iff.mp hrecord).1
  have hnumber : (numbering enc.settings.lineStep enc.settings.firstLine
      ((lines.filter isStatement).map ownNumber?))[i]? = some (record.number : Int) := by
    show (numbering enc.settings.lineStep enc.start.nextLine _)[i]? = _
    rw [← hnumbers, List.getElem?_map, hrecord, Option.map_some]
  have hown : ∀ j n : Nat, ((lines.filter isStatement).map ownNumber?)[j]? = some (some n) ↔
      ∃ line, (lines.filter isStatement)[j]? = some line ∧ Numbered n line := by
    intro j n
    simp only [List.getElem?_map, Option.map_eq_some_iff, ownNumber?_eq_some_iff]
  refine ⟨?_, ?_, record.number_le⟩
  · intro k n line hk hline hnumbered hnone
    have hsteps := numbering_of_some enc.settings.lineStep enc.settings.firstLine hlength hk
      ((hown k n).mpr ⟨line, hline, hnumbered⟩) (fun j m hkj hji hsome => by
        obtain ⟨later, hlater, hm⟩ := (hown j m).mp hsome
        exact hnone j later m hkj hji hlater hm)
    exact Option.some.inj (hnumber.symm.trans hsteps)
  · intro hnone
    have hsteps := numbering_of_none enc.settings.lineStep enc.settings.firstLine hlength
      (fun j m hji hsome => by
        obtain ⟨line, hline, hm⟩ := (hown j m).mp hsome
        exact hnone j line m hji hline hm)
    exact Option.some.inj (hnumber.symm.trans hsteps)

/-- Behind a line 100, with a comment and a blank line between, a step down leads to line 99. -/
theorem step_down_behind_hundred :
    ∃ program record,
      (encodeListing { settings := { firstLine := 7, lineStep := -1 } }
        ["CLS".toList, "# note".toList, " 100 CLS".toList, [], "CLS".toList]).outcome
          = .ok program ∧
      program.lines[2]? = some record ∧ (record.number : Int) = 100 + (2 - 1 : Nat) * (-1) := by
  have hlisting : (encodeListing { settings := { firstLine := 7, lineStep := -1 } }
      ["CLS".toList, "# note".toList, " 100 CLS".toList, [], "CLS".toList]).outcome.toOption.map
        Program.lineNumbers = some [7, 100, 99] := by
    decide +kernel
  obtain ⟨program, hprogram, hnumbers⟩ := Attempt.exists_of_toOption_map hlisting
  have hlength : 2 < program.lines.length := by
    rw [← List.length_map, ← Program.lineNumbers, hnumbers]
    decide
  refine ⟨program, _, hprogram, List.getElem?_eq_getElem hlength, ?_⟩
  have hstatements : ["CLS".toList, "# note".toList, " 100 CLS".toList, [], "CLS".toList].filter
      isStatement = ["CLS".toList, " 100 CLS".toList, "CLS".toList] := by
    decide +kernel
  have hlaw := (line_numbering_law hprogram).2 2 _ (List.getElem?_eq_getElem hlength)
  rw [hstatements] at hlaw
  refine hlaw.1 1 100 " 100 CLS".toList (by decide) rfl ?_ ?_
  · have hdigits : "100".toList.all Char.isDigit = true := by decide
    exact ⟨"100".toList, ' ', "CLS".toList, by decide +kernel, by decide,
      List.all_eq_true.mp hdigits, by decide, by decide⟩
  · intro j later m hj hle hlater hnumbered
    obtain rfl : j = 2 := by omega
    obtain rfl := Option.some.inj hlater
    have hown : ownNumber? "CLS".toList = none := by decide +kernel
    rw [← ownNumber?_eq_some_iff, hown] at hnumbered
    cases hnumbered

end SpectrumBasic
