import SpectrumBasic.Failure
import SpectrumBasic.Notice

/-!
# Attempts

An attempt at a conversion: what was noticed on the way, in order, and what came of it. An attempt
that fails keeps the notices it made before.
-/

namespace SpectrumBasic

/-- What was noticed, and the result or the reason why there is none. -/
structure Attempt (α : Type) where
  notices : List Notice
  outcome : Except Failure α

namespace Attempt

variable {α β : Type}

/-- A result without any notice. -/
def succeed (a : α) : Attempt α := ⟨[], .ok a⟩

def fail (failure : Failure) : Attempt α := ⟨[], .error failure⟩

def note (notices : List Notice) : Attempt Unit := ⟨notices, .ok ()⟩

/-- One attempt after another; the second is made only if the first has a result. -/
def andThen (first : Attempt α) (second : α → Attempt β) : Attempt β :=
  match first.outcome with
  | .error failure => ⟨first.notices, .error failure⟩
  | .ok a =>
    let later := second a
    ⟨first.notices ++ later.notices, later.outcome⟩

instance : Monad Attempt where
  pure := succeed
  bind := andThen

def ofExcept (outcome : Except Failure α) : Attempt α := ⟨[], outcome⟩

@[simp] theorem outcome_ofExcept (outcome : Except Failure α) :
    (ofExcept outcome).outcome = outcome := rfl

theorem outcome_bind (first : Attempt α) (second : α → Attempt β) :
    (first >>= second).outcome = first.outcome.bind fun a => (second a).outcome := by
  show (andThen first second).outcome = _
  unfold andThen
  cases first.outcome <;> rfl

end Attempt

end SpectrumBasic
