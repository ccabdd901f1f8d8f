/-
How computations that may fail end.

`Ends` says what is known about an outcome: something about the value, or something about the error.
An error is a fault (`Error.IsFault`) if the statement is to blame, and not the storage; reading,
planning and describing a statement fail with faults only, since nothing is sent to the storage for
them.
-/
import SqlBridge.Error

namespace SqlBridge

variable {α β : Type}

/-- What is known about how a computation ends. -/
def Ends (bad : Error → Prop) (want : α → Prop) : Except Error α → Prop
  | .ok a => want a
  | .error error => bad error

section Rules

variable {bad : Error → Prop} {want : α → Prop}

theorem ends_bind {expectedNext : β → Prop} {outcome : Except Error α}
    {next : α → Except Error β} (first : Ends bad want outcome)
    (second : ∀ a, want a → Ends bad expectedNext (next a)) :
    Ends bad expectedNext (outcome >>= next) := by
  cases outcome with
  | ok a => exact second a first
  | error error => exact first

theorem Ends.mono {weaker : α → Prop} {outcome : Except Error α}
    (h : Ends bad want outcome) (hi : ∀ a, want a → weaker a) :
    Ends bad weaker outcome := by
  cases outcome with
  | ok a => exact hi a h
  | error error => exact h

theorem Ends.faulty_of_error {outcome : Except Error α} {error : Error}
    (h : Ends bad want outcome) (he : outcome = .error error) : bad error := by
  subst he
  exact h

end Rules

theorem toOption_eq_some {ε α : Type} {outcome : Except ε α} {a : α} :
    outcome.toOption = some a ↔ outcome = .ok a := by
  cases outcome <;> simp [Except.toOption]

/-- An error that is not a refusal by the storage. -/
def Error.IsFault : Error → Prop
  | .storage _ => False
  | _ => True

end SqlBridge
