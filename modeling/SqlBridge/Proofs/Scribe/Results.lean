/-
What a computation that writes returns, or fails with.

`Scribe.Results` says what is known about the end of a computation, whatever was seen before it:
about the value, or about the error.  It is kept from step to step.  `Scribe.Yields` is about the
value alone.
-/
import SqlBridge.Proofs.Outcome
import SqlBridge.Scribe.Statement

namespace SqlBridge

variable {α β : Type} {scribe : Scribe α}

namespace Scribe

/-- Runs a computation from what was seen before. -/
def runFrom (scribe : Scribe α) (seen : Sightings) : Except Error α × Sightings :=
  (ExceptT.run scribe).run seen

/-- What a computation returns, or fails with. -/
def Results (bad : Error → Prop) (want : α → Prop) (scribe : Scribe α) : Prop :=
  ∀ seen, Ends bad want (scribe.runFrom seen).1

/-- What a computation returns if it does not fail. -/
abbrev Yields (want : α → Prop) (scribe : Scribe α) : Prop := scribe.Results (fun _ => True) want

theorem runFrom_bind (scribe : Scribe α) (next : α → Scribe β) (seen : Sightings) :
    (scribe >>= next : Scribe β).runFrom seen =
      match scribe.runFrom seen with
      | (.ok a, seen) => (next a).runFrom seen
      | (.error error, seen) => (.error error, seen) := by
  unfold runFrom
  simp only [ExceptT.run_bind, StateT.run_bind]
  rcases StateT.run (ExceptT.run scribe) seen with ⟨_ | _, _⟩ <;> rfl

section Rules

variable {bad : Error → Prop} {want : α → Prop} {expectedNext : β → Prop}

theorem results_pure {a : α} (h : want a) : (pure a : Scribe α).Results bad want :=
  fun _ => h

theorem results_throw {error : Error} (h : bad error) :
    (throw error : Scribe α).Results bad want := fun _ => h

theorem results_bind {next : α → Scribe β} (first : scribe.Results bad want)
    (second : ∀ a, want a → (next a).Results bad expectedNext) :
    (scribe >>= next : Scribe β).Results bad expectedNext := by
  intro seen
  have hf := first seen
  rw [runFrom_bind]
  rcases hr : scribe.runFrom seen with ⟨_ | a, seen'⟩
  · rw [hr] at hf
    exact hf
  · rw [hr] at hf
    exact second a hf seen'

section

variable (h : scribe.Results bad want)
include h

theorem Results.mono {weaker : α → Prop} (hi : ∀ a, want a → weaker a) :
    scribe.Results bad weaker := fun seen => (h seen).mono hi

/-- What holds of the value that is returned. -/
theorem Results.of_run {seen : Sightings} {a : α} (hr : (scribe.runFrom seen).1 = .ok a) :
    want a := by
  have he := h seen
  rwa [hr] at he

theorem Results.of_ok {a : α} (hok : scribe.outcome.1 = .ok a) : want a := h.of_run hok

end

theorem results_map {f : α → β} (h : scribe.Results bad want)
    (hf : ∀ a, want a → expectedNext (f a)) :
    (f <$> scribe : Scribe β).Results bad expectedNext := by
  have asBind : (f <$> scribe : Scribe β) = scribe >>= fun a => pure (f a) := by
    rw [bind_pure_comp]
  rw [asBind]
  exact results_bind h fun a ha => results_pure (hf a ha)

theorem results_lift {outcome : Except Error α} (h : Ends bad want outcome) :
    (liftM outcome : Scribe α).Results bad want := by
  intro seen
  cases outcome with
  | ok a => exact h
  | error error => exact h

theorem results_modify (f : Sightings → Sightings) :
    (modify f : Scribe PUnit).Results bad fun _ => True := fun _ => trivial

theorem yields_of_run
    (h : ∀ seen a, (scribe.runFrom seen).1 = .ok a → want a) : scribe.Yields want := by
  intro seen
  cases hr : (scribe.runFrom seen).1 with
  | ok a => exact h seen a hr
  | error error => trivial

/-- A step whose value does not matter. -/
theorem yields_then {next : α → Scribe β}
    (h : ∀ a, (next a).Yields expectedNext) : (scribe >>= next : Scribe β).Yields expectedNext :=
  results_bind (yields_of_run fun _ _ _ => trivial) fun a _ => h a

theorem yields_lift {outcome : Except Error α} (h : ∀ a, outcome = .ok a → want a) :
    (liftM outcome : Scribe α).Yields want := by
  refine results_lift ?_
  cases outcome with
  | ok a => exact h a rfl
  | error error => trivial

theorem results_part {whole name : String} {value? : Option α} {value : α}
    (h : value? = some value) : (part whole name value?).Results bad (· = value) := by
  subst h
  exact results_pure rfl

end Rules

end Scribe

@[simp] theorem Draft.tree_ofTree (db : String) (tree : Tree) : (ofTree db tree).tree = tree := by
  cases tree <;> rfl

end SqlBridge
