/-
The transaction stack of SQLite, and the stack of snapshots that nested transactions stand for.

`Database` keeps the contents and the stack: a frame for the open transaction and one for every
savepoint, each with the contents that it would restore.  `ROLLBACK TO` leaves its savepoint on the
stack, so the stack grows stale frames whose names are used again further up.

`Ideal` holds one snapshot for every open level and nothing else.  The two are related by `Live`:

* the frames are the live ones, one for each open level, with stale frames between them;
* a stale frame is named for a level that is not open below it, so the topmost frame with the name
  of an open level is the live one (`Live.fromName_levelName`);
* each transaction command, at the depth a session gives it, is accepted and keeps the relation
  (`Mirrors.begin`, `Mirrors.commit`, `Mirrors.rollback`).
-/
import SqlBridge.Session.Basic

namespace SqlBridge

open List

variable {C : Type}

/-! ### The stack of the database -/

/-- The open transaction (without a name) or a savepoint, with the contents that it restores. -/
structure Frame (C : Type) where
  name : Option String
  snapshot : C

/-- A database: its contents, and its frames from the innermost out. -/
structure Database (C : Type) where
  contents : C
  frames : List (Frame C)

/-- The statements that work on the stack. -/
inductive StackCommand where
  | begin | commit | rollback
  | savepoint (name : String)
  | release (name : String)
  | rollbackTo (name : String)

namespace Database

/-- The frames from the most recent one with a name on. -/
def fromName (name : String) (frames : List (Frame C)) : List (Frame C) :=
  frames.dropWhile fun frame => frame.name != some name

/-- What a statement does to the stack, `none` if it is rejected. -/
def step (db : Database C) : StackCommand → Option (Database C)
  | .begin =>
    match db.frames with
    | [] => some { db with frames := [⟨none, db.contents⟩] }
    | _ :: _ => none
  | .commit =>
    match db.frames with
    | [] => none
    | _ :: _ => some { db with frames := [] }
  | .rollback =>
    db.frames.getLast?.map fun frame => { contents := frame.snapshot, frames := [] }
  | .savepoint name =>
    some { db with frames := ⟨some name, db.contents⟩ :: db.frames }
  | .release name =>
    match fromName name db.frames with
    | [] => none
    | _ :: below => some { db with frames := below }
  | .rollbackTo name =>
    match fromName name db.frames with
    | [] => none
    | frame :: below => some { contents := frame.snapshot, frames := frame :: below }

end Database

/-- The name of the savepoint of a level. -/
def levelName (depth : Nat) : String := s!"LEVEL{depth}"

/-- What a transaction command at a depth asks of the stack. -/
def TransactionCommand.stackCommand : TransactionCommand → (depth : Nat) → StackCommand
  | .begin, 0 => .begin
  | .begin, depth + 1 => .savepoint (levelName (depth + 1))
  | .commit, 0 => .commit
  | .commit, depth + 1 => .release (levelName (depth + 1))
  | .rollback, 0 => .rollback
  | .rollback, depth + 1 => .rollbackTo (levelName (depth + 1))

/-- How SQLite spells what is asked of the stack. -/
def StackCommand.text : StackCommand → String
  | .begin => "BEGIN"
  | .commit => "COMMIT"
  | .rollback => "ROLLBACK"
  | .savepoint name => "SAVEPOINT " ++ name
  | .release name => "RELEASE SAVEPOINT " ++ name
  | .rollbackTo name => "ROLLBACK TO SAVEPOINT " ++ name

theorem TransactionCommand.text_stackCommand (cmd : TransactionCommand) (depth : Nat) :
    (cmd.stackCommand depth).text = cmd.sql depth := by
  cases depth with
  | zero => cases cmd <;> rfl
  | succ depth =>
    cases cmd <;>
    · dsimp only [stackCommand, StackCommand.text, levelName]
      rw [← String.append_assoc]
      rfl

/-- Levels have different names. -/
theorem levelName_inj {depth depth' : Nat} (h : levelName depth = levelName depth') :
    depth = depth' := by
  have written (n : Nat) :
      (levelName n).toList = (toString "LEVEL").toList ++ Nat.toDigits 10 n := by
    unfold levelName
    simp
  have digits : Nat.toDigits 10 depth = Nat.toDigits 10 depth' := by
    have hl := congrArg String.toList h
    rw [written, written] at hl
    exact append_cancel_left hl
  rw [← Nat.ofDigitChars_ten_toDigits (n := depth), digits, Nat.ofDigitChars_ten_toDigits]

/-! ### The stack of snapshots -/

/-- A database that holds the contents at the start of every open transaction, innermost first. -/
structure Ideal (C : Type) where
  contents : C
  snapshots : List C

namespace Ideal

def begin (ideal : Ideal C) : Ideal C :=
  { ideal with snapshots := ideal.contents :: ideal.snapshots }

/-- Keep the contents; without an open transaction, nothing happens. -/
def commit (ideal : Ideal C) : Ideal C := { ideal with snapshots := ideal.snapshots.tail }

/-- Restore the contents; without an open transaction, nothing happens. -/
def rollback (ideal : Ideal C) : Ideal C :=
  match ideal.snapshots with
  | [] => ideal
  | snapshot :: rest => { contents := snapshot, snapshots := rest }

/-- A transaction whose work leads to some contents, committed on success and else taken back. -/
def transaction (ideal : Ideal C) (worked : C) (success : Bool) : Ideal C :=
  let inside := { ideal.begin with contents := worked }
  if success then inside.commit else inside.rollback

end Ideal

/-! ### Live frames -/

/-- The frames of a stack that hold snapshots, and stale frames between and above them. -/
inductive Live : (snapshots : List C) → List (Frame C) → Prop
  | idle : Live [] []
  | opened {snapshot : C} : Live [snapshot] [⟨none, snapshot⟩]
  | level {snapshot : C} {snapshots : List C} {frames : List (Frame C)} (hopen : snapshots ≠ [])
      (h : Live snapshots frames) :
      Live (snapshot :: snapshots) (⟨some (levelName snapshots.length), snapshot⟩ :: frames)
  | stale {depth : Nat} {snapshot : C} {snapshots : List C} {frames : List (Frame C)}
      (hopen : snapshots ≠ []) (hdepth : snapshots.length ≤ depth) (h : Live snapshots frames) :
      Live snapshots (⟨some (levelName depth), snapshot⟩ :: frames)

namespace Live

variable {frames : List (Frame C)} {snapshots outer : List C} {snapshot : C}

theorem frames_eq_nil (h : Live [] frames) : frames = [] := by
  cases h with
  | idle => rfl
  | stale ho => exact absurd rfl ho

theorem frames_ne_nil (h : Live snapshots frames) (ho : snapshots ≠ []) : frames ≠ [] := by
  cases h with
  | idle => exact absurd rfl ho
  | _ => simp

/-- The outermost frame is that of the transaction. -/
theorem getLast?_frames (h : Live snapshots frames) :
    frames.getLast?.map Frame.snapshot = snapshots.getLast? := by
  induction h with
  | idle => rfl
  | opened => rfl
  | level ho h ih =>
    rw [getLast?_cons_of_ne_nil (h.frames_ne_nil ho), ih,
      getLast?_cons_of_ne_nil ho]
  | stale ho _ h ih => rw [getLast?_cons_of_ne_nil (h.frames_ne_nil ho), ih]

/-- The most recent frame with the name of an open level is the live one. -/
theorem fromName_levelName (h : Live snapshots frames) {above : List C}
    (hs : snapshots = above ++ snapshot :: outer) (ho : outer ≠ []) :
    ∃ below, Live outer below ∧ Database.fromName (levelName outer.length) frames =
      ⟨some (levelName outer.length), snapshot⟩ :: below := by
  have hp : 0 < outer.length := length_pos_iff.2 ho
  induction h generalizing above with
  | idle => simp at hs
  | opened =>
    have hl := congrArg length hs
    simp at hl
    omega
  | level hop h ih =>
    cases above with
    | nil =>
      obtain ⟨rfl, rfl⟩ := cons.inj hs
      exact ⟨_, h, by simp [Database.fromName]⟩
    | cons _ above =>
      obtain ⟨-, hb⟩ := cons.inj hs
      obtain ⟨below, hli, hf⟩ := ih hb
      refine ⟨below, hli, ?_⟩
      rw [Database.fromName, dropWhile_cons_of_pos]
      · exact hf
      · simp only [bne_iff_ne, ne_eq, Option.some.injEq]
        intro hn
        have hl := congrArg length hb
        rw [levelName_inj hn] at hl
        simp at hl
        omega
  | stale hop hst h ih =>
    obtain ⟨below, hli, hf⟩ := ih hs
    refine ⟨below, hli, ?_⟩
    rw [Database.fromName, dropWhile_cons_of_pos]
    · exact hf
    · simp only [bne_iff_ne, ne_eq, Option.some.injEq]
      intro hn
      rw [levelName_inj hn, hs] at hst
      simp at hst
      omega

end Live

/-! ### Transaction commands -/

/-- The contents are those of the ideal machine, and the frames hold its snapshots. -/
structure Mirrors (database : Database C) (ideal : Ideal C) : Prop where
  contents : database.contents = ideal.contents
  live : Live ideal.snapshots database.frames

namespace Mirrors

variable {db : Database C} {ideal : Ideal C} (h : Mirrors db ideal) {snapshot : C} {outer : List C}

include h

/-- A transaction can always be opened inside the open ones. -/
theorem begin : ∃ after,
    db.step (TransactionCommand.begin.stackCommand ideal.snapshots.length) = some after ∧
    Mirrors after ideal.begin := by
  have hl := h.live
  rcases hs : ideal.snapshots with _ | ⟨snapshot, outer⟩
  · rw [hs] at hl
    refine ⟨{ db with frames := [⟨none, db.contents⟩] }, ?_, h.contents, ?_⟩
    · simp [TransactionCommand.stackCommand, Database.step, hl.frames_eq_nil]
    · rw [Ideal.begin, hs, ← h.contents]
      exact .opened
  · refine ⟨_, rfl, h.contents, ?_⟩
    rw [Ideal.begin, ← h.contents, hs]
    rw [hs] at hl
    exact .level (by simp) hl

/-- The innermost open transaction can be committed. -/
theorem commit (hop : ideal.snapshots = snapshot :: outer) :
    ∃ after, db.step (TransactionCommand.commit.stackCommand outer.length) = some after ∧
      Mirrors after ideal.commit := by
  have hk : ideal.commit.snapshots = outer := by rw [Ideal.commit, hop]; rfl
  rcases ho : outer with _ | ⟨next, rest⟩
  · obtain ⟨frame, frames, hfr⟩ := exists_cons_of_ne_nil
      (h.live.frames_ne_nil (by simp [hop]))
    refine ⟨{ db with frames := [] }, ?_, h.contents, ?_⟩
    · simp [TransactionCommand.stackCommand, Database.step, hfr]
    · rw [hk, ho]
      exact .idle
  · obtain ⟨below, hl, hf⟩ := h.live.fromName_levelName (hop.trans (nil_append _).symm)
      (by simp [ho])
    rw [ho] at hf
    refine ⟨{ db with frames := below }, ?_, h.contents, hk.symm ▸ hl⟩
    simp only [TransactionCommand.stackCommand, Database.step, length_cons] at hf ⊢
    rw [hf]

/-- Every open level can be taken back to, and restores its snapshot. -/
theorem restores {above : List C} (hop : ideal.snapshots = above ++ snapshot :: outer) :
    ∃ after, db.step (TransactionCommand.rollback.stackCommand outer.length) = some after ∧
      Mirrors after { contents := snapshot, snapshots := outer } := by
  rcases ho : outer with _ | ⟨next, rest⟩
  · have hl := h.live.getLast?_frames
    rw [hop, ho, getLast?_append, getLast?_singleton, Option.some_or] at hl
    obtain ⟨frame, hfr, rfl⟩ := Option.map_eq_some_iff.1 hl
    refine ⟨{ contents := frame.snapshot, frames := [] }, ?_, rfl, .idle⟩
    simp [TransactionCommand.stackCommand, Database.step, hfr]
  · obtain ⟨below, hli, hf⟩ := h.live.fromName_levelName hop (by simp [ho])
    rw [ho] at hf hli
    refine ⟨{ contents := snapshot, frames := ⟨some (levelName (next :: rest).length), snapshot⟩ ::
      below }, ?_, rfl, .stale (by simp) (Nat.le_refl _) hli⟩
    · simp only [TransactionCommand.stackCommand, Database.step, length_cons] at hf ⊢
      rw [hf]

/-- The innermost open transaction can be taken back. -/
theorem rollback (ho : ideal.snapshots = snapshot :: outer) :
    ∃ after, db.step (TransactionCommand.rollback.stackCommand outer.length) = some after ∧
      Mirrors after ideal.rollback := by
  have hr : ideal.rollback = { contents := snapshot, snapshots := outer } := by
    rw [Ideal.rollback, ho]
  rw [hr]
  exact h.restores (ho.trans (nil_append _).symm)

end Mirrors

end SqlBridge
