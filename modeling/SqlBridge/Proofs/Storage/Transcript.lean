/-
What a storage is told and what it answers, statement by statement.

* `Storage.transcribed` is a storage that also keeps a transcript: every statement that reaches it,
  retries included, with the answer it gave.
* `Retries settled exchanges`: a transcript is made of settled exchanges, and before each of them
  the same statement stands once for every busy answer to it, and nothing else.
* `transcribed_perform`: performing a statement adds exactly one settled exchange.
-/
import SqlBridge.Storage.Basic

namespace SqlBridge

variable (stmt : Statement) (tries : Nat)

/-- A statement and the answer to it. -/
structure Exchange where
  statement : Statement
  answer : Answer

/-- The exchanges of a transcript that settle a statement, and between them its busy answers. -/
inductive Retries : (settled exchanges : List Exchange) → Prop
  | nil : Retries [] []
  /-- A busy answer is followed by the same statement. -/
  | busy {exchange : Exchange} {settled exchanges : List Exchange} {answer : Answer}
      (hbusy : answer.isBusy) (h : Retries (exchange :: settled) exchanges) :
      Retries (exchange :: settled) (⟨exchange.statement, answer⟩ :: exchanges)
  | settled {exchange : Exchange} {settled exchanges : List Exchange}
      (hsettled : exchange.answer.isBusy = false) (h : Retries settled exchanges) :
      Retries (exchange :: settled) (exchange :: exchanges)

namespace Retries

theorem append {settled exchanges settled' exchanges' : List Exchange}
    (h : Retries settled exchanges) (h' : Retries settled' exchanges') :
    Retries (settled ++ settled') (exchanges ++ exchanges') := by
  induction h with
  | nil => exact h'
  | busy hb _ ih => exact .busy hb ih
  | settled hs _ ih => exact .settled hs ih

end Retries

namespace Storage

variable {σ : Type} (store : Storage σ)

/-- A storage that also keeps its exchanges. -/
def transcribed : Storage (σ × List Exchange) where
  execute statement state :=
    let (answer, s) := store.execute statement state.1
    (answer, s, state.2 ++ [⟨statement, answer⟩])
  patience statement state := store.patience statement state.1

theorem retry_succ (s : σ) : store.retry stmt (tries + 1) s =
      if (store.execute stmt s).1.isBusy then
        store.retry stmt tries (store.execute stmt s).2
      else store.execute stmt s := rfl

/-- Sending a statement once more, with the exchange on record. -/
theorem transcribed_retry_succ (s : σ) (log : List Exchange) :
    store.transcribed.retry stmt (tries + 1) (s, log) =
      if (store.execute stmt s).1.isBusy then
        store.transcribed.retry stmt tries ((store.execute stmt s).2,
          log ++ [⟨stmt, (store.execute stmt s).1⟩])
      else ((store.execute stmt s).1, (store.execute stmt s).2,
        log ++ [⟨stmt, (store.execute stmt s).1⟩]) := rfl

/-- Keeping a transcript does not change the answers. -/
theorem transcribed_retry_answer (s : σ) (log : List Exchange) :
    (store.transcribed.retry stmt tries (s, log)).1 =
      (store.retry stmt tries s).1 := by
  induction tries generalizing s log with
  | zero => rfl
  | succ tries ih =>
    rw [transcribed_retry_succ, retry_succ]
    by_cases hb : (store.execute stmt s).1.isBusy
    · rw [if_pos hb, if_pos hb]
      exact ih _ _
    · rw [if_neg hb, if_neg hb]

theorem transcribed_settles (settles : store.Settles) : store.transcribed.Settles := by
  intro stmt state
  have settled := settles stmt state.1
  unfold perform at settled
  rw [← store.transcribed_retry_answer stmt _ state.1 state.2] at settled
  exact settled

/-- What sending a statement until it is settled adds to a transcript. -/
theorem retries_retry (s : σ) (log : List Exchange)
    (settled : (store.transcribed.retry stmt tries (s, log)).1.isBusy = false) :
    ∃ exchanges,
      (store.transcribed.retry stmt tries (s, log)).2.2 = log ++ exchanges ∧
      Retries [⟨stmt, (store.transcribed.retry stmt tries (s, log)).1⟩] exchanges := by
  induction tries generalizing s log with
  | zero => exact ⟨_, rfl, .settled settled .nil⟩
  | succ tries ih =>
    rw [transcribed_retry_succ] at settled ⊢
    by_cases hb : (store.execute stmt s).1.isBusy
    · rw [if_pos hb] at settled ⊢
      obtain ⟨exchanges, hl, hr⟩ := ih _ _ settled
      refine ⟨_ :: exchanges, ?_, .busy hb hr⟩
      rw [hl, List.append_assoc]
      rfl
    · rw [if_neg hb] at settled ⊢
      exact ⟨_, rfl, .settled settled .nil⟩

theorem transcribed_perform (settles : store.Settles) (state : σ × List Exchange) : ∃ exchanges,
      (store.transcribed.perform stmt state).2.2 = state.2 ++ exchanges ∧
      Retries [⟨stmt, (store.transcribed.perform stmt state).1⟩] exchanges :=
  store.retries_retry stmt _ state.1 state.2
    (store.transcribed_settles settles stmt state)

end Storage

end SqlBridge
