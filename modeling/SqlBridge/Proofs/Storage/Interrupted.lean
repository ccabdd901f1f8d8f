/-
Storages that are busy now and then.

`Storage.interrupted` puts busy and locked errors before the answers of a storage, as a schedule
says. Beside the storage itself it is seen through the statements that reach it:

* `Repeats log log'`: the second list is the first with elements repeated in place;
* `perform_interrupted`: performing a statement on the interrupted storage gives the answer of the
  storage itself, leaves it in the same state, and repeats statements in the log at most.
-/
import SqlBridge.Proofs.Storage.Transcript

namespace SqlBridge

open List

/-- Whether an error says that the database is busy (5) or locked (6); the low byte of its code is
what counts. -/
def StorageError.Interrupts (error : StorageError) : Prop :=
  ∃ code, error.code = some code ∧ (code &&& 0xff = 5 ∨ code &&& 0xff = 6)

theorem StorageError.Interrupts.isBusy {error : StorageError} (h : error.Interrupts) :
    error.isBusy := by
  obtain ⟨code, hc, hl⟩ := h
  rw [StorageError.isBusy, hc]
  rcases hl with hl | hl <;> simp [hl]

/-- A busy or a locked error. -/
abbrev Interruption := { error : StorageError // error.Interrupts }

/-! ### Repetitions -/

/-- A list, and the same list with elements repeated in place. -/
inductive Repeats {α : Type} : List α → List α → Prop
  | nil : Repeats [] []
  | once {a : α} {items items' : List α} (h : Repeats items items') :
      Repeats (a :: items) (a :: items')
  | again {a : α} {items items' : List α} (h : Repeats (a :: items) items') :
      Repeats (a :: items) (a :: items')

namespace Repeats

variable {α : Type}

theorem append {items items' more more' : List α} (h : Repeats items items')
    (hm : Repeats more more') : Repeats (items ++ more) (items' ++ more') := by
  induction h with
  | nil => exact hm
  | once _ ih => exact .once ih
  | again _ ih => exact .again ih

/-- One element, at the end of its repetitions. -/
theorem replicate (a : α) (count : Nat) : Repeats [a] (List.replicate count a ++ [a]) := by
  induction count with
  | zero => exact .once .nil
  | succ count ih => exact .again ih

end Repeats

/-! ### Interruptions by a schedule -/

/-- The state of a storage that is interrupted. -/
structure Interrupted (σ : Type) where
  inner : σ
  /-- How many answers the storage itself has given. -/
  answered : Nat
  /-- What comes before its next answer. -/
  pending : List Interruption

/-- A state before the first answer. -/
def Interrupted.start {σ : Type} (schedule : Nat → List Interruption) (s : σ) : Interrupted σ :=
  ⟨s, 0, schedule 0⟩

namespace Storage

variable {σ : Type} (store : Storage σ) (schedule : Nat → List Interruption)

/-- How often a statement is sent again if the storage itself, after so many answers, is busy for a
number of times. -/
def delay : (answered tries : Nat) → Nat
  | _, 0 => 0
  | answered, tries + 1 => (schedule (answered + 1)).length + delay (answered + 1) tries + 1

/-- A storage that is interrupted before each of its answers, as a schedule says for the first
answer, the second, and so on. -/
def interrupted : Storage (Interrupted σ) where
  execute statement state :=
    match state.pending with
    | interruption :: pending => (.error interruption.1, { state with pending })
    | [] =>
      let (answer, s) := store.execute statement state.inner
      (answer, ⟨s, state.answered + 1, schedule (state.answered + 1)⟩)
  patience statement state :=
    state.pending.length + delay schedule state.answered (store.patience statement state.inner)

theorem logged_retry_succ (stmt : Statement) (tries : Nat) (s : σ) (log : List Statement) :
    store.logged.retry stmt (tries + 1) (s, log) =
      if (store.execute stmt s).1.isBusy then
        store.logged.retry stmt tries ((store.execute stmt s).2, log ++ [stmt])
      else ((store.execute stmt s).1, (store.execute stmt s).2, log ++ [stmt]) :=
  rfl

/-- Keeping a log does not change the answers. -/
theorem logged_retry_answer (stmt : Statement) (tries : Nat) (s : σ) (log : List Statement) :
    (store.logged.retry stmt tries (s, log)).1 = (store.retry stmt tries s).1 := by
  induction tries generalizing s log with
  | zero => rfl
  | succ tries ih =>
    rw [logged_retry_succ, retry_succ]
    split
    · exact ih _ _
    · rfl

/-- The interruptions that are due come first. -/
theorem retry_pending (stmt : Statement) (tries : Nat) (s : σ) (answered : Nat)
    (pending : List Interruption) (log : List Statement) :
    (store.interrupted schedule).logged.retry stmt (pending.length + tries)
        (⟨s, answered, pending⟩, log) =
      (store.interrupted schedule).logged.retry stmt tries
        (⟨s, answered, []⟩, log ++ replicate pending.length stmt) := by
  induction pending generalizing log with
  | nil => simp
  | cons interruption pending ih =>
    have hb : ((store.interrupted schedule).execute stmt
        ⟨s, answered, interruption :: pending⟩).1.isBusy := interruption.2.isBusy
    rw [length_cons, Nat.add_right_comm, logged_retry_succ, if_pos hb,
      replicate_succ, append_cons log stmt (replicate _ _)]
    exact ih (log ++ [stmt])

/-- Sending a statement until it is settled goes the same way with interruptions. -/
theorem retry_interrupted (stmt : Statement) (tries : Nat) (s : σ) (answered : Nat)
    {log log' : List Statement} (hl : Repeats (log ++ [stmt]) (log' ++ [stmt])) :
    let plain := store.logged.retry stmt tries (s, log)
    let late := (store.interrupted schedule).logged.retry stmt
      (delay schedule answered tries) (⟨s, answered, []⟩, log')
    late.1 = plain.1 ∧ late.2.1.inner = plain.2.1 ∧ Repeats plain.2.2 late.2.2 := by
  induction tries generalizing s answered log log' with
  | zero => exact ⟨rfl, rfl, hl⟩
  | succ tries ih =>
    have he : (store.interrupted schedule).execute stmt ⟨s, answered, []⟩ =
        ((store.execute stmt s).1, ⟨(store.execute stmt s).2, answered + 1,
          schedule (answered + 1)⟩) := rfl
    dsimp only
    rw [delay, logged_retry_succ, logged_retry_succ, he]
    by_cases hb : (store.execute stmt s).1.isBusy
    · -- the storage itself is busy: what is due before its next answer comes first
      rw [if_pos hb, if_pos hb, retry_pending]
      apply ih
      rw [append_assoc (log' ++ [stmt])]
      exact hl.append (.replicate stmt _)
    · rw [if_neg hb, if_neg hb]
      exact ⟨rfl, rfl, hl⟩

theorem perform_interrupted (stmt : Statement) (state : Interrupted σ)
    {log log' : List Statement} (hl : Repeats log log') :
    let plain := store.logged.perform stmt (state.inner, log)
    let late := (store.interrupted schedule).logged.perform stmt (state, log')
    late.1 = plain.1 ∧ late.2.1.inner = plain.2.1 ∧ Repeats plain.2.2 late.2.2 := by
  have hd := store.retry_pending schedule stmt
    (delay schedule state.answered (store.patience stmt state.inner)) state.inner
    state.answered state.pending log'
  have hp : (store.interrupted schedule).logged.perform stmt (state, log') =
      (store.interrupted schedule).logged.retry stmt (state.pending.length +
        delay schedule state.answered (store.patience stmt state.inner)) (state, log') := rfl
  rw [hp, hd]
  apply retry_interrupted
  rw [append_assoc]
  exact hl.append (.replicate stmt _)

/-- A storage that settles every statement does so with interruptions. -/
theorem interrupted_settles (settles : store.Settles) :
    (store.interrupted schedule).Settles := by
  intro stmt state
  have hs := settles stmt state.inner
  obtain ⟨ha, -⟩ := store.perform_interrupted schedule stmt state .nil
  rw [perform, ← logged_retry_answer store stmt _ state.inner []] at hs
  rw [perform, ← logged_retry_answer _ stmt _ state []]
  exact ha ▸ hs

end Storage

end SqlBridge
