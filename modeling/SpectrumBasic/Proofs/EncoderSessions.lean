import SpectrumBasic.Proofs.EncodingRuns

/-!
# Encoders that are used again

An encoder can be asked for one thing after another, and what an earlier call has left behind, whether it
succeeded or failed half-way, is where the next one starts (`Encoder.after`). Of the five parts of a
progress only the line to start at and the number of the next line reach from one line to the next
(`encodeLine_eq_of_agrees`): a line sets the others before it looks at them. A listing starts with these
two afresh, so that it does not matter what was done before it.
-/

namespace SpectrumBasic

/-! ## Sessions -/

/-- What an encoder can be asked for. -/
inductive Encoder.Call where
  | listing (lines : List Text)
  | line (text : Text)
  | statement (text : Text)
  deriving DecidableEq, Repr

/-- The progress that a call leaves behind. -/
def Encoder.progressAfter (enc : Encoder) (p : Progress) : Call → Progress
  | .listing lines => (enc.encodeLines p lines).2
  | .line text => (enc.encodeLine p text).2
  | .statement _ => p

/-- The progress of an encoder after some calls, in order. -/
def Encoder.after (enc : Encoder) (calls : List Call) : Progress :=
  calls.foldl enc.progressAfter enc.start

/-! ## What reaches the next line -/

/-- Two progresses that differ only in what the next line sets anyway. -/
structure Progress.Agrees (p q : Progress) : Prop where
  autostart_eq : p.autostart = q.autostart
  nextLine_eq : p.nextLine = q.nextLine

namespace Encoder

variable {p q : Progress}

/-- Progresses that agree give a statement the same number. -/
theorem numberOf_eq_of_agrees (h : p.Agrees q) (number : Option Text) :
    numberOf p number = numberOf q number := by
  cases number with
  | none => exact congrArg Except.ok h.nextLine_eq
  | some digits => rfl

/-- A line comes out the same from progresses that agree, and leaves behind ones that agree. -/
theorem encodeLine_eq_of_agrees (enc : Encoder) (h : p.Agrees q) (index : Nat) (line : Text) :
    (enc.encodeLine { p with sourceLine := index } line).1 =
        (enc.encodeLine { q with sourceLine := index } line).1 ∧
      (enc.encodeLine { p with sourceLine := index } line).2.Agrees
        (enc.encodeLine { q with sourceLine := index } line).2 := by
  unfold encodeLine
  cases hkind : SourceLine.ofText line.trim with
  | blank =>
    simp only [hkind]
    exact ⟨trivial, h.autostart_eq, h.nextLine_eq⟩
  | comment =>
    simp only [hkind]
    exact ⟨trivial, h.autostart_eq, h.nextLine_eq⟩
  | autostart operand =>
    simp only [hkind]
    cases Text.readInt operand with
    | error fault => exact ⟨rfl, h.autostart_eq, h.nextLine_eq⟩
    | ok start => exact ⟨rfl, rfl, h.nextLine_eq⟩
  | malformed =>
    simp only [hkind]
    by_cases hstrict : enc.settings.strictDirectives = true
    · rw [if_pos hstrict, if_pos hstrict]
      exact ⟨rfl, h.autostart_eq, h.nextLine_eq⟩
    · rw [if_neg hstrict, if_neg hstrict]
      exact ⟨rfl, h.autostart_eq, h.nextLine_eq⟩
  | statement number body =>
    have hnumber := numberOf_eq_of_agrees
      (p := { p with sourceLine := index, sourceText := line.trim })
      (q := { q with sourceLine := index, sourceText := line.trim })
      ⟨h.autostart_eq, h.nextLine_eq⟩ number
    simp only [hkind, hnumber]
    cases numberOf { q with sourceLine := index, sourceText := line.trim } number with
    | error failure => exact ⟨rfl, h.autostart_eq, h.nextLine_eq⟩
    | ok n =>
      -- the complaints about a statement show nothing of the progress but what its line has set
      exact ⟨rfl, h.autostart_eq, rfl⟩

/-- Lines come out the same from progresses that agree. -/
theorem encodeFrom_eq_of_agrees (enc : Encoder) (h : p.Agrees q) (index : Nat)
    (lines : List Text) :
    (enc.encodeFrom p index lines).1 = (enc.encodeFrom q index lines).1 ∧
      (enc.encodeFrom p index lines).2.Agrees (enc.encodeFrom q index lines).2 := by
  induction lines generalizing p q index with
  | nil => exact ⟨rfl, h⟩
  | cons line rest ih =>
    obtain ⟨hfirst, hagrees⟩ := encodeLine_eq_of_agrees enc h index line
    obtain ⟨hlater, hend⟩ := ih hagrees (index + 1)
    refine ⟨?_, ?_⟩
    · rw [encodeFrom_cons, encodeFrom_cons, hfirst, hlater]
    · cases hrecord : (enc.encodeLine { q with sourceLine := index } line).1.outcome with
      | error failure =>
        rw [encodeFrom, encodeFrom]
        simp only [hfirst, hrecord]
        exact hagrees
      | ok record =>
        rw [progress_encodeFrom_cons hrecord, progress_encodeFrom_cons (hfirst ▸ hrecord)]
        exact hend

/-- A listing comes out the same from any two progresses. -/
theorem encodeLines_eq (enc : Encoder) (p q : Progress) (lines : List Text) :
    (enc.encodeLines p lines).1 = (enc.encodeLines q lines).1 ∧
      (enc.encodeLines p lines).2.Agrees (enc.encodeLines q lines).2 := by
  have hfresh : Progress.Agrees
      { p with autostart := none, nextLine := enc.settings.firstLine }
      { q with autostart := none, nextLine := enc.settings.firstLine } := ⟨rfl, rfl⟩
  obtain ⟨hrecords, hend⟩ := encodeFrom_eq_of_agrees enc hfresh 1 lines
  refine ⟨?_, hend⟩
  unfold encodeLines
  simp only [hrecords, hend.autostart_eq]

end Encoder

/-- **A used encoder is as good as a new one.** Whatever an encoder was asked for before, a listing has
the same program then, or fails with the same complaint about the same place, and with the same notices
on the way. It also leaves behind the line to start at and the number of the next line that a new encoder
leaves behind. -/
theorem used_encoder_like_new (enc : Encoder) (calls : List Encoder.Call) (lines : List Text) :
    (enc.encodeLines (enc.after calls) lines).1 = encodeListing enc lines ∧
      (enc.encodeLines (enc.after calls) lines).2.Agrees (enc.encodeLines enc.start lines).2 :=
  Encoder.encodeLines_eq enc (enc.after calls) enc.start lines

/-- What a listing that fails leaves behind is not what a new encoder has. -/
example : ({} : Encoder).after [.listing ["#autostart 5".toList, "70000 CLS".toList]] =
    { autostart := some 5, nextLine := 70010, sourceLine := 2, sourceText := "70000 CLS".toList
      offset := 6 } := by
  decide +kernel

end SpectrumBasic
