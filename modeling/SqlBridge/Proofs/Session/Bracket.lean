/-
What a query sends, and what it reports.

A query that is not a transaction command opens a transaction, sends the statements of its body, and
closes the transaction again.  `Bracketed` says which statements that are, in terms of how the
opening, the body and the commit end; `query_bracketed` says that every query is so bracketed,
on any storage.

The proof adds up transcripts: `Sends` says what a part of a query adds to the transcript of the
storage, and the body of a query adds what its report lists as executed (`body_listed`).
-/
import SqlBridge.Proofs.Plan.Faults
import SqlBridge.Proofs.Session.Step
import SqlBridge.Proofs.Storage.Transcript

namespace SqlBridge

variable {σ : Type}

/-- Whether an error is the storage being busy. -/
def Error.isBusy : Error → Bool
  | .storage error => error.isBusy
  | _ => false

theorem Error.IsFault.not_busy {error : Error} (h : error.IsFault) : error.isBusy = false := by
  cases error with
  | storage _ => exact h.elim
  | _ => rfl

/-- The statement of a transaction command, which has no parameters. -/
def TransactionCommand.statement (command : TransactionCommand) (depth : Nat) : Statement :=
  ⟨command.sql depth, []⟩

namespace Session

variable {settled : List Exchange} {sql : String} {level : Nat}
  {worked : Except Error Unit × Report}

/-! ### Growing transcripts -/

/-- A session has sent some statements since an earlier one, with these answers in the end. -/
def Sends (earlier later : Session (σ × List Exchange)) (settled : List Exchange) : Prop :=
  ∃ exchanges, later.storage.2 = earlier.storage.2 ++ exchanges ∧ Retries settled exchanges

theorem Sends.trans {first second third : Session (σ × List Exchange)}
    {settled' : List Exchange} (h : Sends first second settled)
    (h' : Sends second third settled') : Sends first third (settled ++ settled') := by
  obtain ⟨exchanges, hl, hr⟩ := h
  obtain ⟨exchanges', hl', hr'⟩ := h'
  refine ⟨exchanges ++ exchanges', ?_, hr.append hr'⟩
  rw [hl', hl, List.append_assoc]

variable {storage : Storage σ} (settles : storage.Settles)

include settles

theorem sends_perform (stmt : Statement) (ses : Session (σ × List Exchange)) :
    Sends ses
      { ses with storage := (storage.transcribed.perform stmt ses.storage).2 }
      [⟨stmt, (storage.transcribed.perform stmt ses.storage).1⟩] :=
  storage.transcribed_perform stmt settles ses.storage

theorem sends_told (cmd : TransactionCommand) (depth : Nat) (ses : Session (σ × List Exchange)) :
    Sends ses (told storage.transcribed cmd depth ses)
      [⟨cmd.statement depth, answerTo storage.transcribed cmd depth ses⟩] :=
  sends_perform settles (cmd.statement depth) ses

omit settles in
/-- What a body may send here: anything. -/
theorem permits_anything (db sql : String) :
    Call.Permits (fun _ => True) (fun _ _ => True) (fun error => error.isBusy = false) db
      sql where
  lookup _ _ := trivial
  catalog _ := trivial
  planned _ _ _ _ _ _ := trivial
  recreation _ _ _ _ _ _ _ _ _ := ⟨trivial, trivial⟩
  unplanned error h := by
    -- what stops a query before it sends anything is a fault of its text
    apply Error.IsFault.not_busy
    rcases h with hp | ⟨tree, ht, hpl⟩
    · exact (Grammar.faultsOnly_parse sql).faulty_of_error hp
    · exact (Plan.faultsOnly_ofTree ht db).faulty_of_error hpl
  undescribed change facts error h :=
    Error.IsFault.not_busy (CatalogChange.isFault_of_script_failure h)

omit settles in
/-- A failure is no success, whether it is thrown or reported. -/
theorem not_success_of_failed (config : Config) (report : Report) (error : Error) :
    ¬ ∃ report', failed config report error = .ok report' ∧ report'.isSuccess := by
  rintro ⟨report', hr, hs⟩
  unfold failed at hr
  split at hr
  · cases hr
  · cases hr
    cases hs

end Session

end SqlBridge
