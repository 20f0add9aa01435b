import SpectrumBasic.Proofs.EncoderSessions

/-!
# Lines that make no difference

Blank lines and comments can be put into a listing and taken out of it again. All they change is where
the lines behind them stand, and so the line that a complaint names (`Failure.atLine`). They leave alone
what reaches the next line (`encodeLine_of_inert`), and a line that stands elsewhere is encoded as before
(`encodeLine_elsewhere`). An `InertEdit` of a listing goes through it line by line, and so does the
comparison of the two runs (`InertEdit.encodeFrom`).
-/

namespace SpectrumBasic

/-- Whether a line is blank, or a comment and no directive. -/
def Text.Inert (line : Text) : Prop :=
  line.trim = [] ∨
    line.trim.head? = some '#' ∧ ¬ SourceLine.autostartWord <+: line.trim.lower

instance : DecidablePred Text.Inert := fun line =>
  inferInstanceAs (Decidable (line.trim = [] ∨
    line.trim.head? = some '#' ∧ ¬ SourceLine.autostartWord <+: line.trim.lower))

/-- Lines with inert ones put in or taken out, at any places. -/
inductive InertEdit : List Text → List Text → Prop where
  | done : InertEdit [] []
  | keep {old new : List Text} (line : Text) (later : InertEdit old new) :
      InertEdit (line :: old) (line :: new)
  | insert {old new : List Text} {line : Text} (hline : line.Inert) (later : InertEdit old new) :
      InertEdit old (line :: new)
  | delete {old new : List Text} {line : Text} (hline : line.Inert) (later : InertEdit old new) :
      InertEdit (line :: old) new

/-- A failure with another line in the place it names, if it names one. Nothing else of it changes. -/
def Failure.atLine (line : Int) : Failure → Failure
  | source diagnostic =>
    source { diagnostic with location := diagnostic.location.map fun place => { place with line } }
  | failure => failure

/-- One attempt after another, with failures changed in both, is the same with its failure changed. -/
theorem Attempt.outcome_andThen_eq_mapError {α β : Type} {change : Failure → Failure}
    {first first' : Attempt α} {second second' : α → Attempt β}
    (hfirst : first'.outcome = first.outcome.mapError change)
    (hsecond : ∀ a, first.outcome = .ok a →
      (second' a).outcome = (second a).outcome.mapError change) :
    (first'.andThen second').outcome = (first.andThen second).outcome.mapError change := by
  cases houtcome : first.outcome with
  | error failure =>
    rw [houtcome] at hfirst
    rw [andThen_of_error houtcome, andThen_of_error hfirst]
    rfl
  | ok a =>
    rw [houtcome] at hfirst
    rw [andThen_of_ok houtcome, andThen_of_ok hfirst]
    exact hsecond a houtcome

namespace Progress.Agrees

variable {p q r : Progress}

theorem symm (h : p.Agrees q) : q.Agrees p := ⟨h.autostart_eq.symm, h.nextLine_eq.symm⟩

theorem trans (h : p.Agrees q) (h' : q.Agrees r) : p.Agrees r :=
  ⟨h.autostart_eq.trans h'.autostart_eq, h.nextLine_eq.trans h'.nextLine_eq⟩

end Progress.Agrees

/-! ## Inert lines -/

/-- An inert line is read as a blank one or as a comment. -/
theorem Text.Inert.ofText {line : Text} (h : line.Inert) :
    SourceLine.ofText line.trim = .blank ∨ SourceLine.ofText line.trim = .comment := by
  rcases h with hblank | ⟨hmark, hword⟩
  · rw [hblank]
    exact .inl rfl
  · obtain ⟨rest, htrim⟩ := List.head?_eq_some_iff.mp hmark
    rw [htrim] at hword ⊢
    rw [← List.isPrefixOf_iff_prefix] at hword
    exact .inr (if_neg hword)

namespace Encoder

/-- **Step for an inert line.** It makes no record, and it leaves alone what reaches the next line. -/
theorem encodeLine_of_inert (enc : Encoder) {line : Text} (h : line.Inert) (p : Progress) :
    (enc.encodeLine p line).1.outcome = .ok none ∧ p.Agrees (enc.encodeLine p line).2 := by
  unfold encodeLine
  rcases h.ofText with hkind | hkind
  · simp only [hkind]
    exact ⟨rfl, rfl, rfl⟩
  · simp only [hkind]
    exact ⟨trivial, rfl, rfl⟩

/-- A run passes over an inert line. -/
theorem encodeFrom_cons_of_inert (enc : Encoder) {line : Text} (h : line.Inert) (p : Progress)
    (index : Nat) (rest : List Text) :
    ∃ q, p.Agrees q ∧
      (enc.encodeFrom p index (line :: rest)).1.outcome =
        (enc.encodeFrom q (index + 1) rest).1.outcome ∧
      (enc.encodeFrom p index (line :: rest)).2 = (enc.encodeFrom q (index + 1) rest).2 := by
  obtain ⟨hnone, hagrees⟩ := encodeLine_of_inert enc h { p with sourceLine := index }
  refine ⟨_, ⟨hagrees.autostart_eq, hagrees.nextLine_eq⟩, ?_, progress_encodeFrom_cons hnone⟩
  rw [encodeFrom_cons, Attempt.andThen_of_ok hnone, Attempt.andThen]
  split
  · rename_i hlater
    rw [hlater]
  · rename_i hlater
    rw [hlater]
    rfl

/-! ## Lines that stand elsewhere -/

section Elsewhere

variable (enc : Encoder) (p : Progress) (index : Nat)

/-- A complaint about a statement elsewhere names that line. -/
theorem outcome_tokenize_elsewhere (text : Text) :
    (enc.tokenize { p with sourceLine := index } text).outcome =
      (enc.tokenize p text).outcome.mapError (Failure.atLine index) := by
  simp only [tokenize]
  cases (SpectrumBasic.tokenize enc.table enc.settings.strictNumbers text).payload with
  | ok payload => rfl
  | error refused =>
    obtain ⟨refusal, position⟩ := refused
    cases refusal <;> rfl

/-- A numbered statement elsewhere has the same record or the same fault. -/
theorem outcome_encodeStatement_elsewhere (number : Int) (text : Text) :
    (enc.encodeStatement { p with sourceLine := index } number text).outcome =
      (enc.encodeStatement p number text).outcome.mapError (Failure.atLine index) := by
  unfold encodeStatement
  by_cases hn : 0 ≤ number ∧ number ≤ maxWord
  · rw [dif_pos hn, dif_pos hn]
    refine Attempt.outcome_andThen_eq_mapError (outcome_tokenize_elsewhere enc p index text) ?_
    intro payload _
    by_cases hl : payload.length ≤ maxWord
    · rw [dif_pos hl, dif_pos hl]
      rfl
    · rw [dif_neg hl, dif_neg hl]
      rfl
  · rw [dif_neg hn, dif_neg hn]
    cases Text.isShowable number <;> rfl

/-- **Step for a line elsewhere.** It has the same record or the same fault, and it leaves the same
behind for the next line. -/
theorem encodeLine_elsewhere (line : Text) :
    (enc.encodeLine { p with sourceLine := index } line).1.outcome =
        (enc.encodeLine p line).1.outcome.mapError (Failure.atLine index) ∧
      (enc.encodeLine p line).2.Agrees
        (enc.encodeLine { p with sourceLine := index } line).2 := by
  unfold encodeLine
  cases hkind : SourceLine.ofText line.trim with
  | blank | comment =>
    simp only [hkind]
    exact ⟨rfl, rfl, rfl⟩
  | autostart operand =>
    simp only [hkind]
    cases Text.readInt operand <;> exact ⟨rfl, rfl, rfl⟩
  | malformed =>
    simp only [hkind]
    cases enc.settings.strictDirectives <;> exact ⟨rfl, rfl, rfl⟩
  | statement number body =>
    have hnumber := numberOf_eq_of_agrees
      (p := { p with sourceLine := index, sourceText := line.trim })
      (q := { p with sourceText := line.trim }) ⟨rfl, rfl⟩ number
    simp only [hkind, hnumber]
    cases hread : numberOf { p with sourceText := line.trim } number with
    | error failure =>
      -- this failure names no place
      obtain ⟨count, rfl⟩ := exists_eq_tooManyDigits hread
      exact ⟨rfl, rfl, rfl⟩
    | ok n =>
      have hstatement := outcome_encodeStatement_elsewhere enc
        { p with
          sourceText := line.trim
          nextLine := n + enc.settings.lineStep
          offset := line.trim.length - body.length } index n body
      exact ⟨Attempt.outcome_andThen_eq_mapError hstatement fun record _ => rfl, rfl, rfl⟩

/-- So does a line elsewhere that is reached with a progress that agrees. -/
theorem encodeLine_elsewhere_of_agrees {p q : Progress} (h : p.Agrees q) (index index' : Nat)
    (line : Text) :
    (enc.encodeLine { q with sourceLine := index' } line).1.outcome =
        (enc.encodeLine { p with sourceLine := index } line).1.outcome.mapError
          (Failure.atLine index') ∧
      (enc.encodeLine { p with sourceLine := index } line).2.Agrees
        (enc.encodeLine { q with sourceLine := index' } line).2 := by
  obtain ⟨hsame, hagrees⟩ := encodeLine_eq_of_agrees enc h index' line
  obtain ⟨hmoved, hmovedAgrees⟩ :=
    encodeLine_elsewhere enc { p with sourceLine := index } index' line
  rw [← hsame]
  exact ⟨hmoved, hmovedAgrees.trans hagrees⟩

end Elsewhere

end Encoder

/-! ## Edits -/

namespace InertEdit

variable (enc : Encoder) {old new : List Text}

/-- **A run over edited lines** has the same records as the run over the old ones, or the same fault
at some line, and it leaves the same behind. -/
theorem encodeFrom (h : InertEdit old new) {p q : Progress} (hagrees : p.Agrees q)
    (index index' : Nat) :
    ∃ line : Nat,
      (enc.encodeFrom q index' new).1.outcome =
        (enc.encodeFrom p index old).1.outcome.mapError (Failure.atLine line) ∧
      (enc.encodeFrom p index old).2.Agrees (enc.encodeFrom q index' new).2 := by
  induction h generalizing p q index index' with
  | done => exact ⟨0, rfl, hagrees⟩
  | keep line later ih =>
    obtain ⟨hfirst, hnext⟩ :=
      Encoder.encodeLine_elsewhere_of_agrees enc hagrees index index' line
    cases hrecord : (enc.encodeLine { p with sourceLine := index } line).1.outcome with
    | error failure =>
      -- both runs end here
      rw [hrecord] at hfirst
      change _ = Except.error (failure.atLine index') at hfirst
      refine ⟨index', ?_, ?_⟩
      · rw [Encoder.encodeFrom_cons, Encoder.encodeFrom_cons, Attempt.andThen_of_error hrecord,
          Attempt.andThen_of_error hfirst]
        rfl
      · rw [Encoder.encodeFrom, Encoder.encodeFrom]
        simp only [hrecord, hfirst]
        exact hnext
    | ok record =>
      rw [hrecord] at hfirst
      obtain ⟨place, hlater, hend⟩ := ih hnext (index + 1) (index' + 1)
      refine ⟨place, ?_, ?_⟩
      · rw [Encoder.encodeFrom_cons, Encoder.encodeFrom_cons, Attempt.andThen_of_ok hrecord,
          Attempt.andThen_of_ok hfirst]
        exact Attempt.outcome_andThen_eq_mapError hlater fun records _ => rfl
      · rw [Encoder.progress_encodeFrom_cons hrecord, Encoder.progress_encodeFrom_cons hfirst]
        exact hend
  | insert hline later ih =>
    obtain ⟨r, hskipped, houtcome, hprogress⟩ :=
      Encoder.encodeFrom_cons_of_inert enc hline q index' _
    rw [houtcome, hprogress]
    exact ih (hagrees.trans hskipped) index (index' + 1)
  | delete hline later ih =>
    obtain ⟨r, hskipped, houtcome, hprogress⟩ :=
      Encoder.encodeFrom_cons_of_inert enc hline p index _
    rw [houtcome, hprogress]
    exact ih (hskipped.symm.trans hagrees) (index + 1) index'

/-- An edited listing has the same program as the old one, or the same fault at some line. -/
theorem outcome_encodeListing (h : InertEdit old new) :
    ∃ line : Nat,
      (encodeListing enc new).outcome =
        (encodeListing enc old).outcome.mapError (Failure.atLine line) := by
  have hstart : enc.start.Agrees enc.start := ⟨rfl, rfl⟩
  obtain ⟨line, houtcome, hend⟩ := h.encodeFrom enc hstart 1 1
  refine ⟨line, Attempt.outcome_andThen_eq_mapError houtcome fun records _ => ?_⟩
  exact congrArg (fun start => Except.ok ({ lines := records, autostart := start } : Program))
    hend.autostart_eq.symm

end InertEdit

/-- **Blank lines and comments are inert.** Put into a listing or taken out of it, at any places, they
leave its program as it is. If it has none, it fails as before, except that the complaint may name
another line. -/
theorem inert_lines_ignored (enc : Encoder) {old new : List Text} (h : InertEdit old new) :
    (∃ program, (encodeListing enc old).outcome = .ok program ∧
      (encodeListing enc new).outcome = .ok program) ∨
    ∃ failure, ∃ line : Nat, (encodeListing enc old).outcome = .error failure ∧
      (encodeListing enc new).outcome = .error (failure.atLine line) := by
  obtain ⟨line, hnew⟩ := h.outcome_encodeListing enc
  cases hold : (encodeListing enc old).outcome with
  | ok program =>
    rw [hold] at hnew
    exact .inl ⟨program, rfl, hnew⟩
  | error failure =>
    rw [hold] at hnew
    exact .inr ⟨failure, line, rfl, hnew⟩

/-- The complaint about a fraction stays the same but for its line, with a comment taken out before it
and a blank line and another comment put in. -/
theorem inert_lines_ignored_before_fraction :
    ∃ line : Nat,
      (encodeListing { settings := { strictNumbers := true } }
        ["".toList, "10 CLS".toList, "  # moons".toList, "LET a=1.5".toList]).outcome =
        .error (.source
          { fault := .unsupportedNumber "1.5".toList
            location := some ⟨"<input>", line, 7⟩
            sourceLine := some "LET a=1.5".toList }) := by
  have hedit : InertEdit ["10 CLS".toList, "# stars".toList, "LET a=1.5".toList]
      ["".toList, "10 CLS".toList, "  # moons".toList, "LET a=1.5".toList] :=
    .insert (by decide) (.keep _ (.delete (by decide) (.insert (by decide) (.keep _ .done))))
  have hold : (encodeListing { settings := { strictNumbers := true } }
      ["10 CLS".toList, "# stars".toList, "LET a=1.5".toList]).outcome =
      .error (.source
        { fault := .unsupportedNumber "1.5".toList
          location := some ⟨"<input>", 3, 7⟩
          sourceLine := some "LET a=1.5".toList }) :=
    Attempt.outcome_eq_error_of_failure? (by decide +kernel)
  rcases inert_lines_ignored _ hedit with ⟨program, hprogram, -⟩ | ⟨failure, line, hfailure, hnew⟩
  · rw [hold] at hprogram
    cases hprogram
  · rw [hold] at hfailure
    obtain rfl := Except.error.inj hfailure
    exact ⟨line, hnew⟩

end SpectrumBasic
