/-
Operands by SQLite's table of operators, whatever they are made of.

Here an operand is a stretch of tokens: calls, subqueries and all else that has parentheses or a
`CASE` around it is passed over, and what counts are the operators outside of these.

* `Scan.mark`: what a token is to the operands around it.
* `rightOperand`, `leftOperand?`: the tokens that an operator takes for its operands.
* `Joint`: the operators that an operand is put between.  `Joint.whole_iff_suits`: whether they take
  it as a whole can be told from the operand alone (`Joint.Suits`).
-/
import Mathlib.Data.List.DropRight
import SqlBridge.Proofs.Sql.Items

namespace SqlBridge

open List

/-- What a token is to the operands around it. -/
inductive Mark where
  /-- A token of an operand. -/
  | part
  /-- An operator before its operand. -/
  | opens (rank : Nat)
  /-- An operator between two operands. -/
  | joins (rank : Nat)
deriving DecidableEq, Repr

def Mark.isAtLeast (rank : Nat) : Mark → Bool
  | .part => true
  | .opens other | .joins other => rank ≤ other

namespace Lexeme

/-- The words and symbols of the operators between operands, with their ranks.  `NOT` ranks third,
and the signs before an operand tenth. -/
def ranks : List (Lexeme × Nat) :=
  [(.word "OR", 1), (.word "AND", 2)] ++
  [symbol "=", .symbol "==", .symbol "<>", .symbol "!=", .word "IS", .word "IN",
    .word "LIKE", .word "ESCAPE", .word "REGEXP", .word "BETWEEN"].map (·, 4) ++
  [symbol "<", .symbol "<=", .symbol ">", .symbol ">="].map (·, 5) ++
  [symbol "&", .symbol "|", .symbol "<<", .symbol ">>"].map (·, 6) ++
  [symbol "+", .symbol "-"].map (·, 7) ++
  [symbol "*", .symbol "/", .symbol "%"].map (·, 8) ++ [(.symbol "||", 9)]

def rank (operator : Lexeme) : Nat := (ranks.lookup operator).getD 0

def signs : List Lexeme := [.symbol "-", .symbol "+", .symbol "~", .symbol "!"]

/-- Whether an operand has to follow. -/
def isOperator (lexeme : Lexeme) : Bool :=
  (ranks.lookup lexeme).isSome || signs.contains lexeme || lexeme == .word "NOT"

def openers : List Lexeme := [.symbol "(", .word "CASE"]

def closers : List Lexeme := [.symbol ")", .word "END"]

/-- What an expression cannot go on beyond. -/
def isFence (lexeme : Lexeme) : Bool :=
  openers.contains lexeme || closers.contains lexeme ||
    [symbol ",", .word "WHEN", .word "THEN", .word "ELSE"].contains lexeme

end Lexeme

/-- What there is to know of the tokens so far. -/
structure Scan where
  /-- How many parentheses and `CASE`s are open. -/
  depth : Nat := 0
  last? : Option Lexeme := none
  /-- How many `BETWEEN`s wait for their `AND`. -/
  ranges : Nat := 0

namespace Scan

open Lexeme

/-- Whether an operand comes next. -/
def isReady (scan : Scan) : Bool := scan.last?.all isOperator

def step (scan : Scan) (token : Lexeme) : Scan where
  depth := if openers.contains token then scan.depth + 1
    else if closers.contains token then scan.depth - 1 else scan.depth
  last? := some token
  ranges := if scan.depth ≠ 0 then scan.ranges
    else if token = .word "BETWEEN" then scan.ranges + 1
    else if token = .word "AND" then scan.ranges - 1 else scan.ranges

def after (scan : Scan) (ts : List Lexeme) : Scan := ts.foldl step scan

/-- What the next token is.  A `NOT` belongs to an `IS` before it, negates what comes next, or
begins an operator such as `NOT IN`. -/
def mark (scan : Scan) (token : Lexeme) : Mark :=
  if scan.depth ≠ 0 || openers.contains token || closers.contains token then .part
  else if token = .word "NOT" then
    if scan.last? = some (.word "IS") then .part else if scan.isReady then .opens 3 else .joins 4
  else if scan.isReady && signs.contains token then .opens 10
  else if token = .word "AND" && scan.ranges ≠ 0 then .joins 4
  else match ranks.lookup token with
    | some rank => .joins rank
    | none => .part

def marks (scan : Scan) : List Lexeme → List Mark
  | [] => []
  | token :: rest => scan.mark token :: (scan.step token).marks rest

/-- The operand at the head of some tokens, up to an operator between operands that ranks below
`floor`.  What stands before its operand takes in all that binds tighter. -/
def operand (scan : Scan) (floor : Nat) : List Lexeme → List Lexeme
  | [] => []
  | token :: rest =>
    match scan.mark token with
    | .part => token :: (scan.step token).operand floor rest
    | .opens rank => token :: (scan.step token).operand (min floor rank) rest
    | .joins rank => if rank < floor then [] else token :: (scan.step token).operand floor rest

/-- The rank below which operators end an operand that begins with these tokens; `none` if there is
one among them. -/
def floor? (scan : Scan) (floor : Nat) : List Lexeme → Option Nat
  | [] => some floor
  | token :: rest =>
    match scan.mark token with
    | .part => (scan.step token).floor? floor rest
    | .opens rank => (scan.step token).floor? (min floor rank) rest
    | .joins rank => if rank < floor then none else (scan.step token).floor? floor rest

variable {scan : Scan} {floor : Nat} {ts rest : List Lexeme}

theorem operand_append_iff : scan.operand floor (ts ++ rest) = ts ↔
    ∃ lower, scan.floor? floor ts = some lower ∧ (scan.after ts).operand lower rest = [] := by
  induction ts generalizing scan floor with
  | nil => simp [floor?, after]
  | cons tok ts ih =>
    rw [cons_append, operand, floor?,
      show scan.after (tok :: ts) = (scan.step tok).after ts from rfl]
    cases scan.mark tok with
    | part => simpa using ih
    | opens rank => simpa using ih
    | joins rank =>
      by_cases hl : rank < floor
      · simp [hl]
      · simpa [hl] using ih

theorem operand_eq_nil_iff : scan.operand floor ts = [] ↔
    ∀ next ∈ ts.head?, ∃ rank < floor, scan.mark next = .joins rank := by
  cases ts with
  | nil => simp [operand]
  | cons tok rest =>
    rw [operand]
    cases hm : scan.mark tok with
    | part => simp [hm]
    | opens rank => simp [hm]
    | joins rank => simp [hm]

theorem length_marks (scan : Scan) (ts : List Lexeme) :
    (scan.marks ts).length = ts.length := by
  induction ts generalizing scan with
  | nil => rfl
  | cons tok rest ih => rw [marks, length_cons, ih, length_cons]

end Scan

/-- The right operand of an operator, out of the tokens that follow it. -/
def rightOperand (operator : Lexeme) (ts : List Lexeme) : List Lexeme :=
  Scan.operand {} (operator.rank + 1) ts

/-- The left operand of an operator, out of the tokens of the expression before it; `none` if it is
no operator there. -/
def leftOperand? (ts : List Lexeme) (operator : Lexeme) : Option (List Lexeme) :=
  match (Scan.after {} ts).mark operator with
  | .joins rank =>
    some (((ts.zip (Scan.marks {} ts)).rtakeWhile (·.2.isAtLeast rank)).map (·.1))
  | _ => none

theorem leftOperand?_eq_some_self_iff {ts : List Lexeme} {op : Lexeme} :
    leftOperand? ts op = some ts ↔
      ∃ rank, (Scan.after {} ts).mark op = .joins rank ∧
        ∀ mark ∈ Scan.marks {} ts, mark.isAtLeast rank := by
  have hl := Scan.length_marks {} ts
  have hf : (ts.zip (Scan.marks {} ts)).map (·.1) = ts := map_fst_zip hl.ge
  have hs : (ts.zip (Scan.marks {} ts)).map (·.2) = Scan.marks {} ts := map_snd_zip hl.le
  unfold leftOperand?
  generalize ts.zip (Scan.marks {} ts) = pairs at hf hs ⊢
  have ha (rank : Nat) : (pairs.rtakeWhile (·.2.isAtLeast rank)).map (·.1) = ts ↔
      ∀ mark ∈ Scan.marks {} ts, mark.isAtLeast rank := by
    rw [← hs, forall_mem_map, ← rtakeWhile_eq_self_iff]
    constructor
    · intro ht
      -- a suffix that is as long as the whole
      refine (rtakeWhile_suffix _ _).eq_of_length ?_
      simpa using congrArg length (ht.trans hf.symm)
    · intro ht
      rw [ht, hf]
  cases (Scan.after {} ts).mark op with
  | part => simp
  | opens rank => simp
  | joins rank => simp [ha]

/-- The operators that an operand is put between: the one before it, and the one that follows. -/
structure Joint where
  before? : Option Lexeme
  next? : Option Lexeme
deriving DecidableEq, Repr

namespace Joint

/-- In a row of operands with the same operator between them. -/
def inRow {α β : Type} (operator : Lexeme) (before : List α) (after : List β) : Joint :=
  ⟨if before.isEmpty then none else some operator, if after.isEmpty then none else some operator⟩

/-- The operator beside it takes an operand as it is: the one before it, or else the one that
follows with the tokens `after`. -/
def Whole (joint : Joint) (operand after : List Lexeme) : Prop :=
  match joint.before?, joint.next? with
  | some operator, _ => rightOperand operator (operand ++ after) = operand
  | none, some operator => leftOperand? operand operator = some operand
  | none, none => True

instance (joint : Joint) (opd after : List Lexeme) : Decidable (joint.Whole opd after) := by
  unfold Whole
  split <;> infer_instance

/-- An operand that can be put there.  On the right of an operator nothing in it ends it, and the
operator that follows does; on the left of an operator nothing in it ranks lower. -/
def Suits (joint : Joint) (operand : List Lexeme) : Prop :=
  match joint.before?, joint.next? with
  | some operator, next? => ∃ lower, Scan.floor? {} (operator.rank + 1) operand = some lower ∧
      ∀ next ∈ next?, ∃ rank < lower, (Scan.after {} operand).mark next = .joins rank
  | none, some operator => ∃ rank, (Scan.after {} operand).mark operator = .joins rank ∧
      ∀ mark ∈ Scan.marks {} operand, mark.isAtLeast rank
  | none, none => True

theorem whole_iff_suits {joint : Joint} {opd after : List Lexeme} (h : after.head? = joint.next?) :
    joint.Whole opd after ↔ joint.Suits opd := by
  obtain ⟨before?, next?⟩ := joint
  cases before? with
  | some operator =>
    have hright : rightOperand operator (opd ++ after) = opd ↔ _ := Scan.operand_append_iff
    simp only [Scan.operand_eq_nil_iff, h] at hright
    exact hright
  | none =>
    cases next? with
    | none => rfl
    | some operator => exact leftOperand?_eq_some_self_iff

end Joint

end SqlBridge
