/-
Busy answers are invisible.

A session on a storage and a session on the same storage with interruptions are run side by side.
`Action.Alike` relates two actions that end in the same way, and in related sessions, from related
ones; `Unnoticed` is the relation that every call keeps:

* `alike_begin`, `alike_commit`, `alike_rollback`, `alike_query`, `alike_prepare`;
* `interruptions_unnoticed`: along any calls, both sessions give the same replies, are at the same
  level and have told their observers the same after every one of them, and the statements that
  reached the interrupted storage are those that reached the other, with repetitions.
-/
import Mathlib.Data.List.Forall2
import SqlBridge.Proofs.Session.Savepoint
import SqlBridge.Proofs.Storage.Interrupted

namespace SqlBridge

variable {σ τ α β : Type}

/-! ### Actions that go alike -/

namespace Action

/-- From related sessions both actions end in the same way, and in related sessions again. -/
def Alike (related : Session σ → Session τ → Prop) (left : Action σ α)
    (right : Action τ α) : Prop :=
  ∀ s s', related s s' →
    (left.runFrom s).1 = (right.runFrom s').1 ∧ related (left.runFrom s).2 (right.runFrom s').2

variable {related : Session σ → Session τ → Prop}

theorem alike_pure (a : α) : Alike related (pure a) (pure a) := fun _ _ h => ⟨rfl, h⟩

theorem alike_bind {left : Action σ α} {right : Action τ α} {next : α → Action σ β}
    {next' : α → Action τ β} (first : Alike related left right)
    (second : ∀ a, Alike related (next a) (next' a)) :
    Alike related (left >>= next) (right >>= next') := by
  intro s s' h
  obtain ⟨ho, ha⟩ := first s s' h
  rw [runFrom_bind, runFrom_bind]
  rcases hl : left.runFrom s with ⟨error | a, later⟩ <;>
    rcases hr : right.runFrom s' with ⟨error' | a', later'⟩ <;>
    rw [hl, hr] at ho ha <;> cases ho
  · exact ⟨rfl, ha⟩
  · exact second a later later' ha

theorem alike_forM {left : α → Action σ PUnit} {right : α → Action τ PUnit}
    (h : ∀ a, Alike related (left a) (right a)) (items : List α) :
    Alike related (items.forM left) (items.forM right) := by
  induction items with
  | nil => exact alike_pure PUnit.unit
  | cons item rest ih => exact alike_bind (h item) fun _ => ih

end Action

namespace Session

/-! ### Sessions that differ by interruptions -/

/-- A session on a storage, and one on the same storage with interruptions. -/
structure Unnoticed (session : Session (σ × List Statement))
    (session' : Session (Interrupted σ × List Statement)) : Prop where
  storage : session'.storage.1.inner = session.storage.1
  level : session'.level = session.level
  events : session'.events = session.events
  log : Repeats session.storage.2 session'.storage.2

variable (storage : Storage σ) (schedule : Nat → List Interruption)
  {ses : Session (σ × List Statement)} {ses' : Session (Interrupted σ × List Statement)}

namespace Unnoticed

theorem noted (h : Unnoticed ses ses') (event : Event) :
    Unnoticed (noted event ses) (noted event ses') where
  storage := h.storage
  level := h.level
  events := by rw [Session.noted, Session.noted, h.events]
  log := h.log

theorem atLevel (h : Unnoticed ses ses') (level : Nat) :
    Unnoticed (atLevel level ses) (atLevel level ses') :=
  { h with level := rfl }

/-- Performing a statement gives the same answer. -/
theorem perform (h : Unnoticed ses ses') (stmt : Statement) :
    let plain := storage.logged.perform stmt ses.storage
    let late := (storage.interrupted schedule).logged.perform stmt ses'.storage
    late.1 = plain.1 ∧
    Unnoticed { ses with storage := plain.2 } { ses' with storage := late.2 } := by
  obtain ⟨ha, hi, hl⟩ := storage.perform_interrupted schedule stmt ses'.storage.1 h.log
  rw [h.storage] at ha hi hl
  exact ⟨ha, hi, h.level, h.events, hl⟩

theorem told (h : Unnoticed ses ses') (cmd : TransactionCommand) (depth : Nat) :
    answerTo (storage.interrupted schedule).logged cmd depth ses' =
      answerTo storage.logged cmd depth ses ∧
    Unnoticed (told storage.logged cmd depth ses)
      (told (storage.interrupted schedule).logged cmd depth ses') := by
  obtain ⟨ha, haf⟩ := h.perform storage schedule (cmd.statement depth)
  have hs : answerTo (storage.interrupted schedule).logged cmd depth ses' =
      answerTo storage.logged cmd depth ses := ha
  refine ⟨hs, ?_⟩
  unfold Session.told
  rw [hs]
  exact haf.noted _

end Unnoticed

/-! ### Calls -/

omit schedule in
/-- A command ends as its statement is answered. -/
theorem command_outcome (storage : Storage σ) (stmt : Statement) (ses : Session σ) :
    ((command storage stmt).runFrom ses).1 =
      ((storage.perform stmt ses.storage).1.map fun _ => ()).mapError .storage := by
  have sent : (liftM (perform storage stmt) : Action σ Answer).runFrom ses =
      (.ok (storage.perform stmt ses.storage).1,
        { ses with storage := (storage.perform stmt ses.storage).2 }) := rfl
  rw [command, Action.runFrom_bind, sent]
  cases (storage.perform stmt ses.storage).1 <;> rfl

theorem alike_command (stmt : Statement) :
    Action.Alike Unnoticed (command storage.logged stmt)
      (command (storage.interrupted schedule).logged stmt) := by
  intro s s' h
  obtain ⟨ha, haf⟩ := h.perform storage schedule stmt
  rw [command_runFrom, command_runFrom, command_outcome, command_outcome, ha]
  exact ⟨rfl, haf⟩

theorem alike_begin :
    Action.Alike Unnoticed (begin storage.logged)
      (begin (storage.interrupted schedule).logged) := by
  intro s s' h
  obtain ⟨ha, ht⟩ := h.told storage schedule .begin s.level
  rw [begin_runFrom, begin_runFrom, h.level, ha]
  cases answerTo storage.logged .begin s.level s with
  | ok rows => exact ⟨rfl, ht.atLevel _⟩
  | error error => exact ⟨rfl, ht⟩

theorem alike_commit :
    Action.Alike Unnoticed (commit storage.logged)
      (commit (storage.interrupted schedule).logged) := by
  intro s s' h
  rw [commit_runFrom, commit_runFrom, h.level]
  cases s.level with
  | zero => exact ⟨rfl, h⟩
  | succ depth =>
    obtain ⟨ha, ht⟩ := h.told storage schedule .commit depth
    dsimp only
    rw [ha]
    cases answerTo storage.logged .commit depth s with
    | ok rows => exact ⟨rfl, ht.atLevel _⟩
    | error error => exact ⟨rfl, ht⟩

theorem alike_rollback :
    Action.Alike Unnoticed (rollback storage.logged)
      (rollback (storage.interrupted schedule).logged) := by
  intro s s' h
  rw [rollback_runFrom, rollback_runFrom, h.level]
  cases s.level with
  | zero => exact ⟨rfl, h⟩
  | succ depth =>
    obtain ⟨ha, ht⟩ := h.told storage schedule .rollback depth
    dsimp only
    rw [ha]
    exact ⟨rfl, ht.atLevel _⟩

theorem alike_run (cmd : TransactionCommand) :
    Action.Alike Unnoticed (run storage.logged cmd)
      (run (storage.interrupted schedule).logged cmd) := by
  cases cmd with
  | begin => exact alike_begin storage schedule
  | commit => exact alike_commit storage schedule
  | rollback => exact alike_rollback storage schedule

/-- The body of a query reports and does the same. -/
theorem alike_body (config : Config) (sql : String) :
    Call.Alike (fun x y => x.1 = y.1 ∧ Unnoticed x.2 y.2) (fun _ => True) (fun _ => True)
      (Call.body storage.logged config sql)
      (Call.body (storage.interrupted schedule).logged config sql) := by
  refine Call.alike_body ?_ ?_ (Call.permits_all config.database sql) config rfl
  · rintro stmt - report ses report' ses' ⟨hr, h⟩
    obtain ⟨ha, haf⟩ := h.perform storage schedule stmt
    dsimp only at hr
    rw [Call.runFrom_send, Call.runFrom_send, ha, hr]
    refine ⟨rfl, ⟨rfl, haf⟩, ?_⟩
    cases (storage.logged.perform stmt ses.storage).1 <;> trivial
  · rintro edit - report ses report' ses' ⟨hr, h⟩
    exact ⟨congrArg edit hr, h⟩

theorem alike_query (config : Config) (sql : String) :
    Action.Alike Unnoticed (query storage.logged config sql)
      (query (storage.interrupted schedule).logged config sql) := by
  intro s s' h
  cases hs : TransactionCommand.ofText? sql with
  | some cmd =>
    obtain ⟨ho, ha⟩ := alike_run storage schedule cmd s s' h
    rw [query_runFrom_command _ config hs, query_runFrom_command _ config hs]
    generalize (run storage.logged cmd).runFrom s = plain at ho ha ⊢
    generalize (run (storage.interrupted schedule).logged cmd).runFrom s' = late
      at ho ha ⊢
    obtain ⟨outcome, later⟩ := plain
    obtain ⟨outcome', later'⟩ := late
    cases ho
    cases outcome <;> exact ⟨rfl, ha⟩
  | none =>
    rw [query_runFrom_statement _ config hs, query_runFrom_statement _ config hs]
    obtain ⟨hop, hi⟩ := alike_begin storage schedule s s' h
    generalize (begin storage.logged).runFrom s = opened at hop hi ⊢
    generalize (begin (storage.interrupted schedule).logged).runFrom s' = opened'
      at hop hi ⊢
    obtain ⟨error | _, inside⟩ := opened <;> obtain ⟨error' | _, inside'⟩ := opened' <;>
      cases hop
    · exact ⟨rfl, hi⟩
    obtain ⟨he, ⟨hr, hw⟩, -⟩ :=
      alike_body storage schedule config sql { query := sql } inside { query := sql } inside'
        ⟨rfl, hi⟩
    dsimp only
    generalize (Call.body storage.logged config sql).runFrom { query := sql } inside = ended
      at he hr hw ⊢
    generalize (Call.body (storage.interrupted schedule).logged config sql).runFrom
      { query := sql } inside' = ended' at he hr hw ⊢
    obtain ⟨⟨error | _, report⟩, worked⟩ := ended <;>
      obtain ⟨⟨error' | _, report'⟩, worked'⟩ := ended' <;> cases he <;> cases hr
    · exact ⟨rfl, (alike_rollback storage schedule _ _ hw).2⟩
    obtain ⟨hc, ha⟩ := alike_commit storage schedule _ _ hw
    dsimp only at hc ha ⊢
    generalize (commit storage.logged).runFrom worked = committed at hc ha ⊢
    generalize (commit (storage.interrupted schedule).logged).runFrom worked' = committed'
      at hc ha ⊢
    obtain ⟨error | _, after⟩ := committed <;> obtain ⟨error' | _, after'⟩ := committed' <;>
      cases hc
    · exact ⟨rfl, (alike_rollback storage schedule _ _ ha).2⟩
    · exact ⟨rfl, ha.noted _⟩

theorem alike_prepare (config : Config) :
    Action.Alike Unnoticed (prepare storage.logged config)
      (prepare (storage.interrupted schedule).logged config) := by
  refine Action.alike_bind ?_ fun _ => Action.alike_bind ?_ fun _ => Action.alike_pure _
  · exact Action.alike_forM (fun sql => alike_command storage schedule ⟨sql, []⟩) _
  · exact Action.alike_forM (fun cmd : Command =>
      alike_command storage schedule cmd.statement) _

/-! ### Call after call -/

/-- What a call returns. -/
inductive Reply where
  | command (outcome : Except Error Bool)
  | query (outcome : Except Error Report)

/-- What a request is answered, and the session after it. -/
def serve (storage : Storage σ) (config : Config) (ses : Session σ) :
    Request → Reply × Session σ
  | .command command =>
    let (outcome, ses) := (run storage command).runFrom ses
    (.command outcome, ses)
  | .query sql =>
    let (outcome, ses) := (query storage config sql).runFrom ses
    (.query outcome, ses)

/-- Requests one after the other: what each is answered, and the session after it. -/
def serveAll (storage : Storage σ) (config : Config) :
    List Request → Session σ → List (Reply × Session σ)
  | [], _ => []
  | request :: rest, ses =>
    let served := serve storage config ses request
    served :: serveAll storage config rest served.2

theorem serve_unnoticed (config : Config) (request : Request) (h : Unnoticed ses ses') :
    let plain := serve storage.logged config ses request
    let late := serve (storage.interrupted schedule).logged config ses' request
    plain.1 = late.1 ∧ Unnoticed plain.2 late.2 := by
  cases request with
  | command cmd =>
    obtain ⟨ho, ha⟩ := alike_run storage schedule cmd ses ses' h
    exact ⟨congrArg Reply.command ho, ha⟩
  | query sql =>
    obtain ⟨ho, ha⟩ := alike_query storage schedule config sql ses ses' h
    exact ⟨congrArg Reply.query ho, ha⟩

theorem serveAll_unnoticed (config : Config) (requests : List Request) (h : Unnoticed ses ses') :
    List.Forall₂ (fun plain late => plain.1 = late.1 ∧ Unnoticed plain.2 late.2)
      (serveAll storage.logged config requests ses)
      (serveAll (storage.interrupted schedule).logged config requests ses') := by
  induction requests generalizing ses ses' with
  | nil => exact .nil
  | cons request rest ih =>
    have hs := serve_unnoticed storage schedule config request h
    exact .cons hs (ih hs.2)

/-- Busy answers are invisible.  Whatever interruptions come before the answers of a storage, a
session is prepared as it is without them, every call is answered the same and leaves the same level
and the same events, and statements are only repeated in the log; no statement is sent forever if
none was without interruptions. -/
theorem interruptions_unnoticed (storage : Storage σ) (schedule : Nat → List Interruption)
    (config : Config) (s : σ) (requests : List Request) :
    let plain := «open» storage.logged config (s, [])
    let late := «open» (storage.interrupted schedule).logged config (.start schedule s, [])
    plain.1 = late.1 ∧ Unnoticed plain.2 late.2 ∧
    List.Forall₂ (fun plain late => plain.1 = late.1 ∧ Unnoticed plain.2 late.2)
      (serveAll storage.logged config requests plain.2)
      (serveAll (storage.interrupted schedule).logged config requests late.2) ∧
    (storage.Settles → (storage.interrupted schedule).Settles) := by
  have hstart : Unnoticed { storage := (s, []) }
      { storage := (Interrupted.start schedule s, []) } := ⟨rfl, rfl, rfl, .nil⟩
  obtain ⟨hprepared, hopen⟩ := alike_prepare storage schedule config _ _ hstart
  exact ⟨hprepared, hopen, serveAll_unnoticed storage schedule config requests hopen,
    storage.interrupted_settles schedule⟩

end Session

end SqlBridge
