/-
Observers can replay how deeply transactions are nested.

A session tells its observers about every transaction command, with its depth and whether it went
well, and about every query that succeeded.  Whoever adds up what is told knows the level of the
session, whatever the storage answers.

* `Event.change`: what an event adds to the level; `Event.FitsAt`: the depth that it is told at.
* `Leads`: events that lead from one level to another, each at a depth that fits.
* `Session.serve_reported`: the events of one call lead from its level to the level after it.
* `Session.events_replay`: after any calls the level is what the events add up to, and a call ends
  with the event of a query just if it is a query that succeeds.
-/
import SqlBridge.Proofs.Session.Interrupted

namespace SqlBridge

open List

variable {σ : Type}

/-! ### Replaying events -/

namespace Event

/-- What an event adds to the level.  A rollback closes its level whether it succeeds or not. -/
def change : Event → Int
  | .transaction .begin _ true => 1
  | .transaction .commit _ true => -1
  | .transaction .rollback _ _ => -1
  | .transaction .begin _ false | .transaction .commit _ false | .query _ => 0

/-- Whether an event is told at the depth that belongs to the level before it: a transaction is
opened inside the open ones, and the innermost is closed. -/
def FitsAt (level : Int) : Event → Prop
  | .transaction .begin depth _ => (depth : Int) = level
  | .transaction .commit depth _ | .transaction .rollback depth _ => (depth : Int) = level - 1
  | .query _ => True

def isQuery : Event → Bool
  | .query _ => true
  | .transaction _ _ _ => false

/-- The level that events lead to from none. -/
def replay (events : List Event) : Int := events.foldl (fun level event => level + event.change) 0

end Event

/-- Events that lead from one level to another, each at a depth that fits. -/
inductive Leads : Int → List Event → Int → Prop
  | nil {level : Int} : Leads level [] level
  | cons {level last : Int} {event : Event} {rest : List Event} (fits : event.FitsAt level)
      (more : Leads (level + event.change) rest last) : Leads level (event :: rest) last

namespace Leads

variable {level middle last : Int} {events more : List Event}

theorem append (h : Leads level events middle) (hm : Leads middle more last) :
    Leads level (events ++ more) last := by
  induction h with
  | nil => exact hm
  | cons fits _ ih => exact .cons fits (ih hm)

theorem foldl_eq (h : Leads level events last) :
    events.foldl (fun level event => level + event.change) level = last := by
  induction h with
  | nil => rfl
  | cons _ _ ih => exact ih

theorem replay_eq (h : Leads 0 events last) : Event.replay events = last := h.foldl_eq

/-- Whatever leads somewhere leads to a level before each of its events, which fits there. -/
theorem split {earlier later : List Event} {event : Event}
    (h : Leads level (earlier ++ event :: later) last) :
    ∃ middle, Leads level earlier middle ∧ event.FitsAt middle := by
  induction earlier generalizing level with
  | nil =>
    cases h with
    | cons fits _ => exact ⟨level, .nil, fits⟩
  | cons first rest ih =>
    cases h with
    | cons fits more =>
      obtain ⟨middle, hr, he⟩ := ih more
      exact ⟨middle, .cons fits hr, he⟩

/-- No event leads below zero: what closes a transaction is told at the depth of one that is
open. -/
theorem nonneg (h : Leads level events last) (hl : 0 ≤ level) : 0 ≤ last := by
  induction h with
  | nil => exact hl
  | @cons level last event rest fits _ ih =>
    apply ih
    cases event with
    | query sql => simpa [Event.change] using hl
    | transaction cmd depth success =>
      cases cmd <;> cases success <;> simp only [Event.FitsAt, Event.change] at fits ⊢ <;> omega

end Leads

/-- The transaction command that a request is, as a call of its own or as a statement. -/
def Request.command? : Request → Option TransactionCommand
  | .command given => some given
  | .query sql => TransactionCommand.ofText? sql

namespace Session

/-! ### What one call tells -/

/-- A session has told its observers some events since an earlier one, and they lead from its level
to the level now. -/
structure Tells (earlier later : Session σ) (events : List Event) : Prop where
  told : later.events = earlier.events ++ events
  leads : Leads earlier.level events later.level

theorem Tells.trans {first second third : Session σ} {events more : List Event}
    (h : Tells first second events) (hm : Tells second third more) :
    Tells first third (events ++ more) where
  told := by rw [hm.told, h.told, append_assoc]
  leads := h.leads.append hm.leads

theorem tells_nothing {earlier later : Session σ} (he : later.events = earlier.events)
    (hl : later.level = earlier.level) : Tells earlier later [] where
  told := by rw [he, append_nil]
  leads := hl ▸ .nil

/-- One event that fits. -/
theorem tells_event {earlier later : Session σ} {event : Event}
    (he : later.events = earlier.events ++ [event]) (hf : event.FitsAt earlier.level)
    (hl : (later.level : Int) = earlier.level + event.change) : Tells earlier later [event] where
  told := he
  leads := .cons hf (hl ▸ .nil)

variable (storage : Storage σ)

theorem told_events (cmd : TransactionCommand) (depth : Nat) (ses : Session σ) :
    (told storage cmd depth ses).events = ses.events ++
      [.transaction cmd depth (answerTo storage cmd depth ses).isOk] := rfl

theorem begin_tells (ses : Session σ) :
    let ended := (begin storage).runFrom ses
    Tells ses ended.2 [.transaction .begin ses.level ended.1.isOk] := by
  have ht := told_events storage .begin ses.level ses
  dsimp only
  rw [begin_runFrom]
  cases ha : answerTo storage .begin ses.level ses with
  | ok rows =>
    rw [ha] at ht
    exact tells_event ht rfl rfl
  | error error =>
    rw [ha] at ht
    exact tells_event ht rfl (Int.add_zero _).symm

/-- A commit tells nothing if no transaction is open, and else how it went. -/
theorem commit_tells (ses : Session σ) :
    let ended := (commit storage).runFrom ses
    (ses.level = 0 ∧ Tells ses ended.2 []) ∨
      ∃ depth, ses.level = depth + 1 ∧
        Tells ses ended.2 [.transaction .commit depth ended.1.isOk] := by
  dsimp only
  rw [commit_runFrom]
  cases hl : ses.level with
  | zero => exact .inl ⟨rfl, tells_nothing rfl rfl⟩
  | succ depth =>
    have ht := told_events storage .commit depth ses
    have hf : ((depth : Nat) : Int) = ses.level - 1 := by omega
    refine .inr ⟨depth, rfl, ?_⟩
    dsimp only
    cases ha : answerTo storage .commit depth ses with
    | ok rows =>
      rw [ha] at ht
      exact tells_event ht hf hf
    | error error =>
      rw [ha] at ht
      exact tells_event ht hf (Int.add_zero _).symm

/-- A rollback tells nothing if no transaction is open, and else closes one, however it went. -/
theorem rollback_tells (ses : Session σ) :
    let ended := (rollback storage).runFrom ses
    (ses.level = 0 ∧ Tells ses ended.2 []) ∨
      ∃ depth success, ses.level = depth + 1 ∧
        Tells ses ended.2 [.transaction .rollback depth success] := by
  dsimp only
  rw [rollback_runFrom]
  cases hl : ses.level with
  | zero => exact .inl ⟨rfl, tells_nothing rfl rfl⟩
  | succ depth =>
    have hf : ((depth : Nat) : Int) = ses.level - 1 := by omega
    refine .inr ⟨depth, _, rfl, tells_event (told_events storage .rollback depth ses) hf ?_⟩
    cases answerTo storage .rollback depth ses <;> exact hf

/-- The body of a query tells nothing and stays at its level, and its report tells of no failure. -/
theorem body_tells (config : Config) (sql : String) (ses : Session σ) :
    let ended := (Call.body storage config sql).runFrom { query := sql } ses
    Tells ses ended.2 [] ∧ ended.1.2.failure = none := by
  let silent : Report × Session σ → Prop := fun state =>
    state.2.events = ses.events ∧ state.2.level = ses.level ∧ state.1.failure = none
  have permits : Call.Permits (fun _ => True) (fun _ _ => True) (fun _ => True) config.database
      sql :=
    { permits_anything config.database sql with
      unplanned := fun _ _ => trivial
      undescribed := fun _ _ _ _ => trivial }
  have hse : ∀ stmt, True →
      Call.Keeps silent (fun _ => True) (fun _ => True) (Call.send storage stmt) := by
    intro stmt _ report later hs
    rw [Call.runFrom_send]
    refine ⟨hs, ?_⟩
    cases (storage.perform stmt later.storage).1 <;> trivial
  have hed : ∀ edit, Call.Annotates edit → ∀ report later, silent (report, later) →
      silent (edit report, later) := by
    rintro edit annotates report later ⟨he, hl, hf⟩
    exact ⟨he, hl, (annotates report).2.2.trans hf⟩
  obtain ⟨⟨he, hl, hf⟩, -⟩ :=
    Call.keeps_body config hse hed permits { query := sql } ses ⟨rfl, rfl, rfl⟩
  exact ⟨tells_nothing he hl, hf⟩

/-! ### Calls -/

/-- Whether a call succeeds. -/
def Reply.IsSuccess : Reply → Prop
  | .command outcome => outcome.isOk
  | .query outcome => ∃ report, outcome = .ok report ∧ report.isSuccess

/-- What a call at a level may tell its observers, given how it is answered. -/
structure Reported (level : Nat) (request : Request) (reply : Reply)
  (events : List Event) : Prop where
  /-- There is nothing to commit or to take back. -/
  idle :
    request.command? = some .commit ∨ request.command? = some .rollback → level = 0 → events = []
  /-- A query that succeeds is told once, right after its commit. -/
  saved : ∀ sql, request = .query sql → request.command? = none → reply.IsSuccess →
    ∃ earlier, events = earlier ++ [.transaction .commit level true, .query sql] ∧
      ∀ event ∈ earlier, event.isQuery = false
  /-- Nothing else is told as a query. -/
  unsaved : ¬ (request.command? = none ∧ reply.IsSuccess) → ∀ event ∈ events, event.isQuery = false

variable {level : Nat} {request : Request} {reply : Reply} {events : List Event}

/-- Nothing but transaction commands, from a call that is no query or fails. -/
theorem reported_unsaved (hi : request.command? = some .commit ∨ request.command? = some .rollback →
      level = 0 → events = [])
    (hf : ¬ (request.command? = none ∧ reply.IsSuccess))
    (he : ∀ event ∈ events, event.isQuery = false) : Reported level request reply events where
  idle := hi
  saved _ _ hc hr := absurd ⟨hc, hr⟩ hf
  unsaved _ := he

/-- A transaction command tells what it does, and no query. -/
theorem run_reported (ses : Session σ) {cmd : TransactionCommand}
    (hc : request.command? = some cmd) (reply : Reply) :
    ∃ events, Tells ses ((run storage cmd).runFrom ses).2 events ∧
      Reported ses.level request reply events := by
  have hf : ¬ (request.command? = none ∧ reply.IsSuccess) := by simp [hc]
  cases cmd with
  | begin =>
    refine ⟨_, begin_tells storage ses, reported_unsaved ?_ hf (by simp [Event.isQuery])⟩
    simp [hc]
  | commit =>
    rcases commit_tells storage ses with ⟨hl, ht⟩ | ⟨depth, hl, ht⟩
    · exact ⟨_, ht, reported_unsaved (fun _ _ => rfl) hf (by simp)⟩
    · exact ⟨_, ht, reported_unsaved (fun _ _ => by omega) hf (by simp [Event.isQuery])⟩
  | rollback =>
    rcases rollback_tells storage ses with ⟨hl, ht⟩ | ⟨depth, success, hl, ht⟩
    · exact ⟨_, ht, reported_unsaved (fun _ _ => rfl) hf (by simp)⟩
    · exact ⟨_, ht, reported_unsaved (fun _ _ => by omega) hf (by simp [Event.isQuery])⟩

/-- A query that is no transaction command tells its opening, how its commit and its rollback go,
and itself if it succeeds. -/
theorem query_reported (config : Config) {sql : String}
    (hs : TransactionCommand.ofText? sql = none) (ses : Session σ) :
    let ended := (query storage config sql).runFrom ses
    ∃ events, Tells ses ended.2 events ∧
      Reported ses.level (.query sql) (.query ended.1) events := by
  have hi {events : List Event} :
      (Request.query sql).command? = some .commit ∨ (Request.query sql).command? = some .rollback →
        ses.level = 0 → events = [] := by
    simp [Request.command?, hs]
  have hfa {report : Report} {error : Error} :
      ¬ ((Request.query sql).command? = none ∧
        (Reply.query (failed config report error)).IsSuccess) :=
    fun h => not_success_of_failed config report error h.2
  have ho := begin_tells storage ses
  dsimp only at ho ⊢
  rw [query_runFrom_statement storage config hs]
  generalize (begin storage).runFrom ses = opened at ho ⊢
  obtain ⟨error | _, inside⟩ := opened
  · exact ⟨_, ho, reported_unsaved hi hfa (by simp [Event.isQuery])⟩
  obtain ⟨hb, hf⟩ := body_tells storage config sql inside
  have hr (later : Session σ) : ∃ events,
      Tells later ((rollback storage).runFrom later).2 events ∧
        ∀ event ∈ events, event.isQuery = false := by
    rcases rollback_tells storage later with ⟨-, ht⟩ | ⟨depth, success, -, ht⟩
    · exact ⟨_, ht, by simp⟩
    · exact ⟨_, ht, by simp [Event.isQuery]⟩
  dsimp only at hb hf ho ⊢
  generalize (Call.body storage config sql).runFrom { query := sql } inside = worked at *
  obtain ⟨⟨error | _, report⟩, later⟩ := worked
  · -- the body failed
    obtain ⟨back, hba, hp⟩ := hr later
    refine ⟨_, (ho.trans hb).trans hba, reported_unsaved hi hfa ?_⟩
    simpa [Event.isQuery] using hp
  have hle : later.level = ses.level + 1 := by
    have hl := (ho.trans hb).leads.foldl_eq
    simp [Event.change, Except.isOk, Except.toBool] at hl
    omega
  have hc := commit_tells storage later
  dsimp only at hf hb hc ⊢
  generalize (commit storage).runFrom later = committed at *
  obtain ⟨error | _, last⟩ := committed
  · -- the commit failed
    obtain ⟨hz, -⟩ | ⟨depth, -, hco⟩ := hc
    · omega
    obtain ⟨back, hba, hp⟩ := hr last
    refine ⟨_, ((ho.trans hb).trans hco).trans hba, reported_unsaved hi hfa ?_⟩
    simpa [Event.isQuery] using hp
  · obtain ⟨hz, -⟩ | ⟨depth, hd, hco⟩ := hc
    · omega
    obtain rfl : depth = ses.level := by omega
    have hto : Tells last (noted (.query sql) last) [.query sql] :=
      tells_event rfl trivial (Int.add_zero _).symm
    refine ⟨_, ((ho.trans hb).trans hco).trans hto, ?_⟩
    refine ⟨hi, ?_, ?_⟩
    · rintro _ ⟨⟩ - -
      exact ⟨_, append_assoc _ [_] [_], by simp [Event.isQuery]⟩
    · intro hn
      exact absurd ⟨hs, report, rfl, by simpa [Report.isSuccess] using hf⟩ hn

/-- Every call leads its observers from its level to the level after it. -/
theorem serve_reported (config : Config) (ses : Session σ) (request : Request) :
    let served := serve storage config ses request
    ∃ events, Tells ses served.2 events ∧
      Reported ses.level request served.1 events := by
  cases request with
  | command given => exact run_reported storage ses rfl _
  | query sql =>
    cases hs : TransactionCommand.ofText? sql with
    | none => exact query_reported storage config hs ses
    | some given =>
      have hg : (Request.query sql).command? = some given := hs
      obtain ⟨events, ht, hr⟩ := run_reported storage ses hg
        (serve storage config ses (.query sql)).1
      refine ⟨events, ?_, hr⟩
      dsimp only [serve]
      rw [query_runFrom_command storage config hs]
      generalize (run storage given).runFrom ses = ended at ht ⊢
      obtain ⟨_ | _, later⟩ := ended <;> exact ht

/-! ### Call after call -/

/-- The session after some requests. -/
def serving (config : Config) (requests : List Request) (session : Session σ) : Session σ :=
  requests.foldl (fun session request => (serve storage config session request).2) session

/-- What the observers of a session were told is in keeping with its level. -/
structure Replayed (session : Session σ) : Prop where
  level : Event.replay session.events = session.level
  depth : ∀ earlier event later, session.events = earlier ++ event :: later →
    event.FitsAt (Event.replay earlier)
  nonneg : ∀ earlier, earlier <+: session.events → 0 ≤ Event.replay earlier

theorem replayed_of_leads {ses : Session σ} (h : Leads 0 ses.events ses.level) :
    Replayed ses where
  level := h.replay_eq
  depth earlier event later hs := by
    obtain ⟨middle, he, hf⟩ := Leads.split (hs ▸ h)
    rwa [he.replay_eq]
  nonneg earlier hp := by
    obtain ⟨later, hl⟩ := hp
    obtain ⟨middle, he⟩ : ∃ middle, Leads 0 earlier middle := by
      cases later with
      | nil =>
        rw [append_nil] at hl
        exact ⟨_, hl ▸ h⟩
      | cons event rest =>
        obtain ⟨middle, he, -⟩ := Leads.split (hl ▸ h)
        exact ⟨middle, he⟩
    rw [he.replay_eq]
    exact he.nonneg (Int.le_refl 0)

/-- Preparing a storage opens no transaction and tells nothing. -/
theorem open_tells_nothing (config : Config) (s : σ) :
    («open» storage config s).2.events = [] ∧ («open» storage config s).2.level = 0 := by
  let fresh : Session σ → Prop := fun ses => ses.events = [] ∧ ses.level = 0
  have hc (stmt : Statement) : ∀ ses, fresh ses →
      fresh ((command storage stmt).runFrom ses).2 := by
    intro ses hf
    rw [command_runFrom]
    exact hf
  have hs : fresh (((preparations config).forM fun sql =>
      command storage ⟨sql, []⟩).runFrom { storage := s }).2 :=
    Action.forM_keeps (fun sql _ => hc ⟨sql, []⟩) ⟨rfl, rfl⟩
  have ho : «open» storage config s = (prepare storage config).runFrom { storage := s } := rfl
  rw [ho, prepare, Action.runFrom_bind]
  generalize Action.runFrom ((preparations config).forM _) _ = prepared at hs ⊢
  obtain ⟨_ | _, later⟩ := prepared
  · exact hs
  · have ht : fresh ((Script.setup.commands.forM fun reg =>
        command storage reg.statement).runFrom later).2 :=
      Action.forM_keeps (fun reg _ => hc reg.statement) hs
    dsimp only
    rw [Script.run, Script.perform, Action.runFrom_bind]
    generalize Action.runFrom (Script.setup.commands.forM _) later = ended at ht ⊢
    obtain ⟨_ | _, last⟩ := ended <;> exact ht

theorem leads_serving (config : Config) (requests : List Request) {ses : Session σ}
    (h : Leads 0 ses.events ses.level) :
    Leads 0 (serving storage config requests ses).events
      (serving storage config requests ses).level := by
  induction requests generalizing ses with
  | nil => exact h
  | cons request rest ih =>
    obtain ⟨events, ht, -⟩ := serve_reported storage config ses request
    refine ih ?_
    rw [ht.told]
    exact h.append ht.leads

/-- Observers can replay the level of a session.  After any calls, on any storage, the level is what
the events add up to, and every event is told at a depth that fits the events before it; the next
call adds what it may tell, and after it all this holds again. -/
theorem events_replay (config : Config) (s : σ) (requests : List Request) (request : Request) :
    let session := serving storage config requests («open» storage config s).2
    let served := serve storage config session request
    Replayed session ∧ Replayed served.2 ∧
      ∃ events, served.2.events = session.events ++ events ∧
        Reported session.level request served.1 events := by
  intro session served
  obtain ⟨hevents, hlevel⟩ := open_tells_nothing storage config s
  have hleads : Leads 0 session.events session.level := by
    refine leads_serving storage config requests ?_
    rw [hevents, hlevel]
    exact .nil
  obtain ⟨events, htells, hreported⟩ := serve_reported storage config session request
  have hafter : Leads 0 served.2.events served.2.level := by
    rw [htells.told]
    exact hleads.append htells.leads
  exact ⟨replayed_of_leads hleads, replayed_of_leads hafter, events, htells.told, hreported⟩

end Session

end SqlBridge
