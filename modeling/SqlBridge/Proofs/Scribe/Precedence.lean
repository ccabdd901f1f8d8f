/-
Which expressions keep their operands when they are written.

The tokens that are written for an expression are read with SQLite's table of operators.  MySQL's
ladder differs from it in three places: all comparisons share one level, predicates such as `IN` and
`LIKE` bind tighter than they do, and `!` binds tightest of all.  `SqlTerm.Keeps` lists what follows
from that, operator by operator, and `SqlTerm.grouped_written_iff` shows that nothing else does.

* `expression_grouping_iff`: an expression is read back with its operators and operands just if it
  keeps them in this sense.
* `arithmetic_grouping`: an expression on numbers and bits always is.
-/
import SqlBridge.Proofs.Grammar.Faithful
import SqlBridge.Proofs.Grammar.Precedence
import SqlBridge.Proofs.Scribe.Operation
import SqlBridge.Proofs.Sql.Grouping

namespace SqlBridge

open List

variable {level : Nat}

/-! ### What keeps its operands -/

namespace SqlTerm

variable {op : Binary}

/-- Whether the last operand of a term, outside parentheses, is that of a `!`. -/
def endsInBang : SqlTerm → Bool
  | .unary .bang _ => true
  | .unary _ operand => operand.endsInBang
  | .binary operator _ right => !right.guarded operator && right.endsInBang
  | .ternary _ _ _ _ right => right.endsInBang
  | .constant _ | .column _ _ | .parens _ | .isIn _ _ _ => false

def isBang : SqlTerm → Bool
  | .unary .bang _ => true
  | _ => false

/-- Predicates, which MySQL ranks above the comparisons. -/
def isPredicate : SqlTerm → Bool
  | .binary operator _ _ => operator.levels.1 == 6
  | .isIn _ _ _ | .ternary _ _ _ _ _ => true
  | _ => false

/-- Comparisons and predicates that SQLite ranks below the order comparisons, and that have an
operand on their right. -/
def isEquality : SqlTerm → Bool
  | .binary operator _ _ => operator.rank == equalityRank
  | .ternary _ _ _ _ _ => true
  | _ => false

end SqlTerm

/-- Whether the operands of an operator stay with it.  The logical operators rank below all others
in both tables. -/
def Binary.Keeps (operator : Binary) (left right : SqlTerm) : Prop :=
  equalityRank ≤ operator.rank →
    (left.guarded operator ∨ left.endsInBang = false) ∧ right.isPredicate = false ∧
    (operator.rank = equalityRank + 1 → left.isEquality = false) ∧
    (operator = .is → right.isBang = false)

/-- Every operator of a term stays with its operands.

* What follows a `!` outside parentheses is taken into its operand.
* A predicate on the right of a comparison takes the comparison for its left operand.
* An order comparison takes the right operand of an equality or a predicate before it.
* `IS` and a `NOT` that stands for `!` are another operator. -/
def SqlTerm.Keeps : SqlTerm → Prop
  | .constant _ | .column _ _ => True
  | .parens inside => inside.Keeps
  | .unary _ operand => operand.Keeps
  | .binary operator left right => left.Keeps ∧ right.Keeps ∧ operator.Keeps left right
  | .isIn _ left list => left.Keeps ∧ list.Keeps ∧ left.endsInBang = false
  | .ternary _ _ left middle right =>
    left.Keeps ∧ middle.Keeps ∧ right.Keeps ∧ left.endsInBang = false ∧ right.isPredicate = false

instance (op : Binary) (left right : SqlTerm) : Decidable (op.Keeps left right) :=
  inferInstanceAs (Decidable (_ → _))

instance SqlTerm.decidableKeeps : (term : SqlTerm) → Decidable term.Keeps
  | .constant _ | .column _ _ => .isTrue trivial
  | .parens inside => inside.decidableKeeps
  | .unary _ operand => operand.decidableKeeps
  | .binary op left right =>
    have := left.decidableKeeps
    have := right.decidableKeeps
    inferInstanceAs (Decidable (left.Keeps ∧ right.Keeps ∧ op.Keeps left right))
  | .isIn _ left list =>
    have := left.decidableKeeps
    have := list.decidableKeeps
    inferInstanceAs (Decidable (left.Keeps ∧ list.Keeps ∧ left.endsInBang = false))
  | .ternary _ _ left middle right =>
    have := left.decidableKeeps
    have := middle.decidableKeeps
    have := right.decidableKeeps
    inferInstanceAs (Decidable (left.Keeps ∧ middle.Keeps ∧ right.Keeps ∧ left.endsInBang = false ∧
      right.isPredicate = false))

/-! ### Levels and ranks -/

/-- The lowest rank of an operator that stands at a level of MySQL or above. -/
def floorRank : Nat → Nat
  | 0 => 0
  | 1 => 1
  | 2 | 3 => 2
  | 4 => 3
  | 5 | 6 => 4
  | 7 | 8 | 9 => 6
  | 10 => 7
  | 11 => 8
  | _ => 9

theorem floorRank_mono {hi : Nat} (h : level ≤ hi) :
    floorRank level ≤ floorRank hi := by
  induction h with
  | refl => exact Nat.le_refl _
  | @step hi _ ih =>
    refine ih.trans ?_
    match hi with
    | 0 | 1 | 2 | 3 | 4 | 5 | 6 | 7 | 8 | 9 | 10 | 11 => decide
    | _ + 12 => exact Nat.le_refl 9

theorem Binary.floorRank_le (op : Binary) : floorRank op.levels.1 ≤ op.rank := by
  cases op <;> decide +revert

theorem Binary.levels_le (op : Binary) :
    op.levels.1 ≤ op.levels.2.1 ∧ op.levels.1 ≤ op.levels.2.2 := by
  cases op <;> decide +revert

theorem Binary.levels_le_eleven (op : Binary) : op.levels.1 ≤ 11 := by
  cases op <;> decide +revert

theorem Binary.equalityRank_le (op : Binary) (h : 7 ≤ op.levels.1) :
    equalityRank ≤ op.rank := by
  revert h
  cases op <;> decide +revert

/-- Predicates rank with equality. -/
theorem Binary.rank_eq_of_levels (op : Binary) (h : op.levels.1 = 6) :
    op.rank = equalityRank := by
  revert h
  cases op <;> decide +revert

/-- Above the comparisons and the predicates there are the operators on numbers and bits. -/
theorem Binary.levels_of_rank (op : Binary) (hl : 5 ≤ op.levels.1) (hr : op.rank ≠ equalityRank) :
    7 ≤ op.levels.1 ∨ op.rank = equalityRank + 1 ∧ op.levels.2.2 = 6 ∧
      op.isBitwise = false := by
  revert hl hr
  cases op <;> decide +revert

namespace SqlTerm

variable {term : SqlTerm}

/-- Fewer operators are open on the left than the floor of the level allows. -/
theorem OpensAt.mono {floor lower : Nat} (h : term.OpensAt floor) (hle : lower ≤ floor) :
    term.OpensAt lower := by
  induction term with
  | binary op left right ih => exact ⟨hle.trans h.1, ih h.2⟩
  | isIn negated left list ih => exact ⟨hle.trans h.1, ih h.2⟩
  | ternary op negated left middle right ih => exact ⟨hle.trans h.1, ih h.2⟩
  | _ => trivial

theorem opensAt_written (h : term.Fits level) : term.written.OpensAt (floorRank level) := by
  induction term generalizing level with
  | constant | column | parens => trivial
  | unary op operand => cases op <;> trivial
  | binary op left right ih =>
    obtain ⟨hl, hle, -⟩ := h
    refine ⟨(floorRank_mono hl).trans op.floorRank_le, ?_⟩
    split
    · trivial
    · exact (ih hle).mono (floorRank_mono (hl.trans op.levels_le.1))
  | isIn negated left list ih =>
    obtain ⟨hl, hle, -⟩ := h
    have hf : floorRank level ≤ 4 := floorRank_mono hl
    exact ⟨hf, (ih hle).mono (hf.trans (by decide))⟩
  | ternary op negated left middle right ih =>
    obtain ⟨hl, hle⟩ : level ≤ 6 ∧ left.Fits 7 := by
      cases op <;> exact ⟨h.1, h.2.1⟩
    have hf : floorRank level ≤ 4 := floorRank_mono hl
    exact ⟨hf, (ih hle).mono (hf.trans (by decide))⟩

/-- What is written after a term leaves it alone unless it ends in a `!`. -/
theorem endsAt_written_iff {rank : Nat} (h : term.Fits level) (hlo : 4 ≤ rank)
    (hra : rank ≤ floorRank level) (hh : rank < 9) :
    term.written.EndsAt (.operator rank) ↔ term.endsInBang = false := by
  induction term generalizing level with
  | constant | column | parens | isIn => exact iff_of_true trivial rfl
  | unary op operand ih =>
    cases op with
    | not =>
      have hf : floorRank level ≤ 3 := floorRank_mono h.1
      omega
    | bang =>
      refine iff_of_false (fun he => ?_) (by simp [endsInBang])
      have ht : rank < 3 := he.1
      omega
    | _ =>
      have hfi : operand.Fits 13 := h
      exact (and_iff_right hh).trans (ih hfi hh.le)
  | binary op left right ihLeft ihRight =>
    obtain ⟨hle, -, hr⟩ := h
    have hl : rank ≤ op.rank := hra.trans ((floorRank_mono hle).trans op.floorRank_le)
    rw [written, EndsAt, endsInBang]
    refine (and_iff_right hl).trans ?_
    cases hg : right.guarded op with
    | true => exact iff_of_true trivial rfl
    | false =>
      have hf := floorRank_mono (hle.trans op.levels_le.2)
      simpa using ihRight hr (hra.trans hf)
  | ternary op negated left middle right ihLeft ihMiddle ihRight =>
    obtain ⟨hle, hr⟩ : level ≤ 6 ∧ right.Fits 6 := by
      cases op with
      | between => exact ⟨h.1, h.2.2.2⟩
      | escape => exact ⟨h.1, h.2.2.2.mono (by decide)⟩
    have hl : rank ≤ equalityRank := hra.trans (floorRank_mono hle)
    exact (and_iff_right hl).trans (ihRight hr hl)

/-- The logical operators and the comma leave all that comes before them alone. -/
theorem endsAt_written_of_le {rank : Nat} (h : term.Fits level)
    (hra : rank ≤ floorRank level) (hh : rank ≤ 2) : term.written.EndsAt (.operator rank) := by
  induction term generalizing level with
  | constant | column | parens | isIn => trivial
  | unary op operand ih =>
    cases op with
    | not => exact ⟨Nat.lt_succ_of_le hh, ih h.2 (hh.trans (by decide))⟩
    | bang => exact ⟨Nat.lt_succ_of_le hh, trivial⟩
    | _ =>
      have hf : operand.Fits 13 := h
      exact ⟨Nat.lt_of_le_of_lt hh (by decide), ih hf (hh.trans (by decide))⟩
  | binary op left right ihLeft ihRight =>
    obtain ⟨hl, -, hr⟩ := h
    have hle : rank ≤ op.rank := hra.trans ((floorRank_mono hl).trans op.floorRank_le)
    refine ⟨hle, ?_⟩
    split
    · trivial
    · exact ihRight hr (hra.trans (floorRank_mono (hl.trans op.levels_le.2)))
  | ternary op negated left middle right ihLeft ihMiddle ihRight =>
    have hr : right.Fits 6 := by
      cases op with
      | between => exact h.2.2.2
      | escape => exact h.2.2.2.mono (by decide)
    exact ⟨hh.trans (by decide), ihRight hr (hh.trans (by decide))⟩

theorem fits_of_not_predicate (h : term.Fits 6) (ho : term.isPredicate = false) : term.Fits 7 := by
  cases term with
  | constant | column | parens => exact h
  | unary op operand =>
    cases op with
    | not => exact absurd h.1 (by decide)
    | _ => exact h
  | binary op left right =>
    refine ⟨Nat.lt_of_le_of_ne h.1 fun heq => ?_, h.2⟩
    simp [isPredicate, ← heq] at ho
  | isIn | ternary => cases ho

theorem fits_of_not_arithmetic (h : term.Fits level) (hl : 7 ≤ level)
    (hot : term.isArithmetic = false) : term.Fits 13 := by
  cases term with
  | constant | column | parens => exact h
  | unary op operand =>
    cases op with
    | not => exact absurd (hl.trans h.1) (by decide)
    | _ => exact h
  | binary op left right =>
    have ho : 7 ≤ op.levels.1 := hl.trans h.1
    simp [isArithmetic, Binary.isArithmetic, ho] at hot
  | isIn negated left list => exact absurd (hl.trans h.1) (by decide)
  | ternary op negated left middle right =>
    cases op with
    | between | escape => exact absurd (hl.trans h.1) (by decide)

theorem isPredicate_of_fits (h : term.Fits level) (hl : 7 ≤ level) : term.isPredicate = false := by
  cases term with
  | constant | column | parens | unary => rfl
  | binary op left right =>
    have ho : 7 ≤ op.levels.1 := hl.trans h.1
    simp only [isPredicate, beq_eq_false_iff_ne]
    omega
  | isIn negated left list => exact absurd (hl.trans h.1) (by decide)
  | ternary op negated left middle right =>
    cases op with
    | between | escape => exact absurd (hl.trans h.1) (by decide)

/-- A predicate opens on its left at the rank of equality. -/
theorem not_opensAt_of_isPredicate (h : term.isPredicate) :
    ¬ term.written.OpensAt (equalityRank + 1) := by
  cases term with
  | constant | column | parens | unary => cases h
  | binary op left right =>
    intro ho
    have hr : equalityRank + 1 ≤ op.rank := ho.1
    rw [op.rank_eq_of_levels (eq_of_beq h)] at hr
    exact absurd hr (by decide)
  | isIn | ternary => exact fun ho => absurd ho.1 (by decide)

end SqlTerm

/-- How the levels of an operator's right operand compare to its rank. -/
theorem Binary.right_cases (op : Binary) :
    (op.rank < equalityRank ∧ op.isBitwise = false ∧
      op.rank + 1 ≤ floorRank op.levels.2.2) ∨
    (op.levels.2.2 = 6 ∧ op.isBitwise = false ∧ equalityRank ≤ op.rank ∧
      op.rank + 1 ≤ 6) ∨
    (7 ≤ op.levels.2.2 ∧ equalityRank ≤ op.rank ∧ op.rank + 1 ≤ 9 ∧
      (op.isBitwise ∨ op.rank + 1 ≤ floorRank op.levels.2.2)) := by
  cases op <;> decide +revert

/-- How the levels of an operator's left operand compare to its rank. -/
theorem Binary.left_cases (op : Binary) :
    (op.rank ≤ 2 ∧ op.isBitwise = false ∧ op.rank ≤ floorRank op.levels.2.1) ∨
    (op.rank = equalityRank + 1 ∧ op.isBitwise = false ∧ op.levels.2.1 = 5) ∨
    (equalityRank ≤ op.rank ∧ op.rank ≠ equalityRank + 1 ∧ op.rank < 9 ∧
      op.rank ≤ floorRank op.levels.2.1) := by
  cases op <;> decide +revert

namespace SqlTerm

variable {op : Binary} {term : SqlTerm}

theorem guarded_eq_false (h : op.isBitwise = false) (term : SqlTerm) :
    term.guarded op = false := by
  simp [guarded, h]

/-- The right operand of an operator waits for it, unless it is a predicate. -/
theorem opensAt_right_iff {right : SqlTerm} (h : right.Fits op.levels.2.2) :
    (if right.guarded op then parens right.written else right.written).OpensAt
        (op.rank + 1) ↔ (equalityRank ≤ op.rank → right.isPredicate = false) := by
  have hop := opensAt_written h
  rcases op.right_cases with ⟨hr, hb, hf⟩ | ⟨hl, hb, hr, hf⟩ |
    ⟨hl, hr, hn, hf⟩
  · simp only [guarded_eq_false hb, Bool.false_eq_true, if_false]
    exact iff_of_true (hop.mono hf) fun hle => absurd hle (Nat.not_le.2 hr)
  · simp only [guarded_eq_false hb, Bool.false_eq_true, if_false, hr, true_imp_iff]
    rw [hl] at h
    constructor
    · intro hri
      by_contra hp
      exact not_opensAt_of_isPredicate (by simpa using hp)
        (hri.mono (Nat.succ_le_succ hr))
    · intro ho
      exact (opensAt_written (fits_of_not_predicate h ho)).mono hf
  · refine iff_of_true ?_ fun _ => isPredicate_of_fits h hl
    split
    · trivial
    · rename_i hg
      rcases hf with hb | hf
      · have ho : right.isArithmetic = false := by simpa [guarded, hb] using hg
        exact (opensAt_written (fits_of_not_arithmetic h hl ho)).mono hn
      · exact hop.mono hf

/-- An order comparison leaves the term before it alone, if that is no equality either. -/
theorem endsAt_order_iff (h : term.Fits 5) (hk : term.Keeps) :
    term.written.EndsAt (.operator (equalityRank + 1)) ↔
      term.endsInBang = false ∧ term.isEquality = false := by
  have ht (level : Nat) (hl : 7 ≤ level) (h : term.Fits level)
      (ho : term.isEquality = false) :
      term.written.EndsAt (.operator (equalityRank + 1)) ↔
        term.endsInBang = false ∧ term.isEquality = false := by
    rw [ho, and_iff_left rfl]
    exact endsAt_written_iff (h.mono hl) (by decide) (by decide) (by decide)
  cases term with
  | constant | column | parens | isIn => exact iff_of_true trivial ⟨rfl, rfl⟩
  | unary op operand =>
    cases op with
    | not => exact absurd h.1 (by decide)
    | _ => exact ht 13 (by decide) h rfl
  | binary op left right =>
    by_cases hr : op.rank = equalityRank
    · refine iff_of_false (fun he => ?_) (by simp [isEquality, hr])
      have hle : equalityRank + 1 ≤ op.rank := he.1
      omega
    · have ho : (binary op left right).isEquality = false := by simp [isEquality, hr]
      rcases op.levels_of_rank h.1 hr with hl | ⟨hor, hs, hb⟩
      · exact ht _ hl ⟨Nat.le_refl _, h.2⟩ ho
      · have hp : right.isPredicate = false := (hk.2.2 (by omega)).2.1
        have hri : right.Fits 7 := fits_of_not_predicate (hs ▸ h.2.2) hp
        rw [ho, and_iff_left rfl, written, EndsAt, endsInBang, guarded_eq_false hb]
        refine (and_iff_right (Nat.le_of_eq hor.symm)).trans ?_
        simpa using endsAt_written_iff hri (by decide : 4 ≤ equalityRank + 1) (by decide)
          (by decide)
  | ternary op negated left middle right =>
    refine iff_of_false (fun he => ?_) (by simp [isEquality])
    exact absurd (show equalityRank + 1 ≤ equalityRank from he.1) (by decide)

/-- What comes before an operator is left alone by it. -/
theorem endsAt_left_iff {left : SqlTerm} (h : left.Fits op.levels.2.1) (hk : left.Keeps) :
    (if left.guarded op then parens left.written else left.written).EndsAt
        (.operator op.rank) ↔
      (equalityRank ≤ op.rank → (left.guarded op ∨ left.endsInBang = false) ∧
        (op.rank = equalityRank + 1 → left.isEquality = false)) := by
  rcases op.left_cases with ⟨hr, hb, hf⟩ | ⟨hr, hb, hl⟩ |
    ⟨hr, ho, hh, hf⟩
  · simp only [guarded_eq_false hb, Bool.false_eq_true, if_false]
    refine iff_of_true (endsAt_written_of_le h hf hr) fun hle => ?_
    exact absurd (hle.trans hr) (by decide)
  · rw [hl] at h
    simpa [guarded_eq_false hb, hr] using endsAt_order_iff h hk
  · cases hg : left.guarded op with
    | true => exact iff_of_true trivial fun _ => ⟨.inl rfl, fun heq => absurd heq ho⟩
    | false => simpa [hr, ho] using endsAt_written_iff h hr hf hh

theorem isBang_of_endsInBang (h : term.endsInBang = false) : term.isBang = false := by
  unfold isBang
  split
  · cases h
  · rfl

/-- What is written begins with `NOT` only for a `!`, among the terms that can follow `IS`. -/
theorem head_written_iff (h : term.Fits 7) (hk : term.Keeps) :
    term.written.print.head? ≠ some (.word "NOT") ↔ term.isBang = false := by
  induction term with
  | constant lexeme =>
    refine iff_of_true (fun hh => ?_) rfl
    obtain rfl := Option.some.inj hh
    cases h
  | column first path => exact iff_of_true (by simp [written, print]) rfl
  | parens inside ih => exact iff_of_true (by simp [written, print]) rfl
  | unary op operand ih =>
    cases op with
    | not => exact absurd h.1 (by decide)
    | bang => exact iff_of_false (by simp [written, print, Unary.lexeme]) (by simp [isBang])
    | _ => exact iff_of_true (by simp [written, print, Unary.lexeme]) rfl
  | binary op left right ihLeft ihRight =>
    refine iff_of_true ?_ rfl
    have hl : left.Fits 7 := h.2.1.mono (h.1.trans op.levels_le.1)
    have he := (hk.2.2 (op.equalityRank_le h.1)).1
    rw [written, print, append_assoc, head?_append_of_ne_nil _ (print_ne_nil _)]
    cases hg : left.guarded op with
    | true => simp [print]
    | false =>
      have hb : left.isBang = false := by
        rw [hg] at he
        exact isBang_of_endsInBang (he.resolve_left (by decide))
      simpa using (ihLeft hl hk.1).2 hb
  | isIn negated left list => exact absurd h.1 (by decide)
  | ternary op negated left middle right => cases op <;> exact absurd h.1 (by decide)

/-- The pattern of a `LIKE` leaves the `ESCAPE` after it alone. -/
theorem endsAt_escape (h : term.Fits 13) : term.written.EndsAt .escape := by
  induction term with
  | constant | column | parens | isIn => trivial
  | unary op operand ih =>
    cases op with
    | not => exact absurd h.1 (by decide)
    | bang => exact ⟨trivial, trivial⟩
    | _ => exact ⟨trivial, ih h⟩
  | binary op left right =>
    exact absurd (h.1.trans op.levels_le_eleven) (by decide)
  | ternary op negated left middle right => cases op <;> exact absurd h.1 (by decide)

/-- Parentheses around an operand change nothing about what is inside. -/
theorem grouped_operand_iff {operand : SqlTerm} :
    (if operand.guarded op then parens operand.written else operand.written).Grouped ↔
      operand.written.Grouped := by
  split <;> exact Iff.rfl

/-- **A written term is grouped exactly if it keeps its operands.** -/
theorem grouped_written_iff (h : term.Fits level) : term.written.Grouped ↔ term.Keeps := by
  induction term generalizing level with
  | constant lexeme => exact iff_of_true h trivial
  | column first path => exact iff_of_true trivial trivial
  | parens inside ih => exact ih h
  | unary op operand ih =>
    cases op with
    | not =>
      have hg : (unary .not operand).written.Grouped ↔ operand.written.Grouped := by
        simp [written, Grouped,
          show operand.written.OpensAt Unary.not.rank from opensAt_written h.2]
      exact hg.trans (ih h.2)
    | bang =>
      have hg : (unary .bang operand).written.Grouped ↔ operand.written.Grouped := by
        simp [written, Grouped, OpensAt]
      have hf : operand.Fits 13 := h
      exact hg.trans (ih hf)
    | _ =>
      have hf : operand.Fits 13 := h
      have hop : operand.written.OpensAt 9 := opensAt_written hf
      refine Iff.trans ?_ (ih hf)
      simp [written, Grouped, Unary.rank, hop]
  | binary op left right ihLeft ihRight =>
    obtain ⟨-, hl, hr⟩ := h
    rw [written, Grouped, Keeps, grouped_operand_iff, grouped_operand_iff, ihLeft hl,
      ihRight hr]
    refine and_congr_right fun hke => and_congr_right fun hk => ?_
    rw [endsAt_left_iff hl hke, opensAt_right_iff hr, Binary.Keeps]
    have hh (hra : equalityRank ≤ op.rank) (ho : right.isPredicate = false) :
        (op = .is →
          (if right.guarded op then parens right.written else right.written).print.head? ≠
            some (.word "NOT")) ↔ (op = .is → right.isBang = false) := by
      refine imp_congr_right fun his => ?_
      subst his
      exact head_written_iff (fits_of_not_predicate hr ho) hk
    by_cases hra : equalityRank ≤ op.rank
    · simp only [hra, true_imp_iff]
      constructor
      · rintro ⟨⟨he, hor⟩, ho, his⟩
        exact ⟨he, ho, hor, (hh hra ho).1 his⟩
      · rintro ⟨he, ho, hor, his⟩
        exact ⟨⟨he, hor⟩, ho, (hh hra ho).2 his⟩
    · refine iff_of_true ⟨fun hle => absurd hle hra, fun hle => absurd hle hra, ?_⟩
        fun hle => absurd hle hra
      rintro rfl
      exact absurd (Nat.le_refl _) hra
  | isIn negated left list ihLeft ihList =>
    obtain ⟨-, hl, hli⟩ := h
    rw [written, Grouped, Keeps, ihLeft hl, ihList hli]
    exact and_congr_right fun _ => and_congr_right fun _ =>
      endsAt_written_iff hl (by decide) (by decide) (by decide)
  | ternary op negated left middle right ihLeft ihMiddle ihRight =>
    cases op with
    | between =>
      obtain ⟨-, hl, hm, hr⟩ := h
      have hop : middle.written.OpensAt (equalityRank + 1) := (opensAt_written hm).mono (by decide)
      have he : middle.written.EndsAt Ternary.between.next :=
        endsAt_written_of_le hm (by decide) (by decide)
      have hp : right.written.OpensAt (equalityRank + 1) ↔ right.isPredicate = false := by
        constructor
        · intro hr
          by_contra ho
          exact not_opensAt_of_isPredicate (by simpa using ho) hr
        · intro ho
          exact (opensAt_written (fits_of_not_predicate hr ho)).mono (by decide)
      rw [written, Grouped, Keeps, ihLeft hl, ihMiddle hm, ihRight hr,
        endsAt_written_iff hl (by decide) (by decide) (by decide), hp]
      simp [hop, he]
    | escape =>
      obtain ⟨-, hl, hm, hr⟩ := h
      have hop {term : SqlTerm} (ht : term.Fits 13) : term.written.OpensAt (equalityRank + 1) :=
        (opensAt_written ht).mono (by decide)
      have he : middle.written.EndsAt Ternary.escape.next := endsAt_escape hm
      rw [written, Grouped, Keeps, ihLeft hl, ihMiddle hm, ihRight hr,
        endsAt_written_iff hl (by decide) (by decide) (by decide)]
      simp [hop hm, hop hr, he, isPredicate_of_fits hr (by decide)]

/-! ### Reading what is written -/

theorem bare_written (term : SqlTerm) : term.written.bare = term.bare := by
  induction term with
  | constant | column => rfl
  | parens inside ih => exact ih
  | unary op operand ih => cases op <;> simp [written, bare, ih]
  | binary op left right ihLeft ihRight =>
    have ho {operand : SqlTerm} (ih : operand.written.bare = operand.bare) :
        (if operand.guarded op then parens operand.written else operand.written).bare =
          operand.bare := by
      split <;> exact ih
    rw [written, bare, bare, ho ihLeft, ho ihRight]
  | isIn negated left list ihLeft ihList => simp [written, bare, ihLeft, ihList]
  | ternary op negated left middle right ihLeft ihMiddle ihRight =>
    simp [written, bare, ihLeft, ihMiddle, ihRight]

theorem Fits.proper_written (h : term.Fits level) : term.written.Proper := by
  induction term generalizing level with
  | constant lexeme => exact h
  | column first path => trivial
  | parens inside ih => exact ih h
  | unary op operand ih =>
    cases op with
    | not => exact ⟨by decide, ih h.2⟩
    | _ =>
      have hf : operand.Fits 13 := h
      exact ⟨by decide, ih hf⟩
  | binary op left right ihLeft ihRight =>
    have ho {operand : SqlTerm} (ih : operand.written.Proper) :
        (if operand.guarded op then parens operand.written else operand.written).Proper := by
      split <;> exact ih
    exact ⟨ho (ihLeft h.2.1), ho (ihRight h.2.2)⟩
  | isIn negated left list ihLeft ihList => exact ⟨ihLeft h.2.1, ihList h.2.2⟩
  | ternary op negated left middle right ihLeft ihMiddle ihRight =>
    cases op <;> exact ⟨ihLeft h.2.1, ihMiddle h.2.2.1, ihRight h.2.2.2⟩

end SqlTerm

/-- Every leaf of a tree stands for a token. -/
theorem Grammar.Spells.exists_standsFor {leaves ts : List Token}
    (h : List.Forall₂ StandsFor leaves ts) {leaf : Token} (hl : leaf ∈ leaves) :
    ∃ token ∈ ts, StandsFor leaf token := by
  induction h with
  | nil => cases hl
  | cons hf hr ih =>
    rcases mem_cons.1 hl with rfl | hm
    · exact ⟨_, mem_cons_self, hf⟩
    · obtain ⟨token, ht, hs⟩ := ih hm
      exact ⟨token, mem_cons_of_mem _ ht, hs⟩

open SqlBridge.Tree Grammar

variable {db : String} {tree : Tree}

theorem Tree.mem_tokensOfAll {token : Token} {trees : List Tree} (h : tree ∈ trees)
    (ht : token ∈ tree.tokens) : token ∈ tokensOfAll trees := by
  induction h with
  | head => exact mem_append_left _ ht
  | tail _ _ ih => exact mem_append_right _ ih

/-- Basic expressions are spelled if their numbers can be written. -/
theorem Tree.everyNode_isSpelledNode : (tree : Tree) → tree.everyNode isBasicNode →
    (∀ token ∈ tree.tokens, token.kind.isNumber → Sql.isNumber token.value.toList) →
    tree.everyNode isSpelledNode
  | .leaf _, _, _ => rfl
  | .node rule kids, hb, hn => by
    rw [everyNode_node] at hb ⊢
    refine ⟨?_, fun kid hk => everyNode_isSpelledNode kid (hb.2 kid hk)
      fun token ht => hn token (mem_tokensOfAll hk ht)⟩
    rw [isSpelledNode, hb.1, Bool.true_and, all_eq_true]
    intro kid hk
    cases kid with
    | leaf token =>
      have ht := hn token (mem_tokensOfAll hk (by simp [tokens]))
      simpa [token?, imp_iff_not_or] using ht
    | node => rfl

/-- The numbers of an expression that was read from a text can be written. -/
theorem Grammar.IsExpression.everyNode_isSpelledNode (h : IsExpression tree)
    (hb : tree.everyNode isBasicNode) : tree.everyNode isSpelledNode := by
  obtain ⟨text, before, here, rest, fuel, ht, hr⟩ := h
  obtain ⟨used, rfl, hs⟩ := Phrase.derives_of_read took_production hr
  have ha : List.Forall₂ Spells.StandsFor tree.tokens used := by
    simpa [tokensOfAll] using hs.aligned
  refine Tree.everyNode_isSpelledNode tree hb fun token hto hn => ?_
  obtain ⟨other, ho, hst⟩ := Spells.exists_standsFor ha hto
  rcases hst with rfl | ⟨hk, -⟩
  · exact (Token.wellSpelled_of_ofText ht token (by simp [ho])).number hn
  · rw [hk] at hn
    cases hn

/-- **What is written for a basic expression is read with the same operators and operands exactly if
the expression keeps them.** -/
theorem exists_reads_iff (h : IsExpression tree) (hb : tree.everyNode isBasicNode) :
    ∃ term sql, tree.term? db = some term ∧ term.Fits 1 ∧
      (tree.write db).outcome = (.ok (some sql), {}) ∧
      ((∃ read, SqlTerm.ofText? sql.render = some read ∧ read.bare = term.bare) ↔ term.Keeps) := by
  obtain ⟨text, before, here, rest, fuel, hto, hr⟩ := id h
  obtain ⟨_, heq, hte⟩ := exists_means hr
  obtain ⟨rfl⟩ := heq
  obtain ⟨term, ht, hf⟩ := hte (h.everyNode_isSpelledNode hb)
  obtain ⟨sql, hg, hs⟩ := ht.spells
  refine ⟨term, sql, ht.term_eq, hf, hg {}, ?_⟩
  rw [← SqlTerm.grouped_written_iff hf, ← term.bare_written]
  exact SqlTerm.reads_text_iff hf.proper_written hs

/-- Comparisons, predicates and logical operators are read back with their operands exactly if they
keep them.  Every expression from columns, constants, parentheses and these operators is written,
and what is written is read with SQLite's table as the operators and operands of its tree just if

* no operand of `!` comes right before a comparison, a predicate or an operator on numbers,
* no predicate stands on the right of a comparison or at the end of a range,
* no equality or predicate that is open on its right comes right before an order comparison,
* `!` does not follow a `<=>`. -/
theorem expression_grouping_iff (database : String) (h : IsExpression tree)
    (hbasic : tree.everyNode isBasicNode) :
    ∃ term sql, tree.term? database = some term ∧
      (tree.write database).outcome = (.ok (some sql), {}) ∧
      ((∃ read, SqlTerm.ofText? sql.render = some read ∧ read.bare = term.bare) ↔ term.Keeps) := by
  obtain ⟨term, sql, hterm, -, hwrite, hreads⟩ := exists_reads_iff h hbasic
  exact ⟨term, sql, hterm, hwrite, hreads⟩

/-- A column without qualifiers, at a byte offset. -/
def columnAt (name : String) (position : Nat) : Tree :=
  .node .columnRef [nameOf ⟨.identifier, name, position⟩]

def numberAt (spelling : String) (position : Nat) : Tree :=
  .node .literal [.node .numLiteral [.leaf ⟨.integer, spelling, position⟩]]

/-- `NOT a = 1 AND b IN (2, 3)` -/
def notEqualAndIn : Tree :=
  .node .expr
    [.node .expr [.leaf ⟨.keyword .NOT, "NOT", 0⟩, .node .boolPri
      [columnAt "a" 4, .node .compOp [.leaf ⟨.symbol .equal, "=", 6⟩], numberAt "1" 8]],
      .leaf ⟨.keyword .AND, "AND", 10⟩,
      .node .predicate [columnAt "b" 14, .leaf ⟨.keyword .IN, "IN", 16⟩,
        .leaf ⟨.symbol .openParen, "(", 19⟩,
        .node .exprList [numberAt "2" 20, .leaf ⟨.symbol .comma, ",", 21⟩, numberAt "3" 23],
        .leaf ⟨.symbol .closeParen, ")", 24⟩]]

theorem isExpression_notEqualAndIn : IsExpression notEqualAndIn :=
  ⟨"NOT a = 1 AND b IN (2, 3)", [],
    [⟨.keyword .NOT, "NOT", 0⟩, ⟨.identifier, "a", 4⟩, ⟨.symbol .equal, "=", 6⟩,
      ⟨.integer, "1", 8⟩, ⟨.keyword .AND, "AND", 10⟩, ⟨.identifier, "b", 14⟩,
      ⟨.keyword .IN, "IN", 16⟩, ⟨.symbol .openParen, "(", 19⟩, ⟨.integer, "2", 20⟩,
      ⟨.symbol .comma, ",", 21⟩, ⟨.integer, "3", 23⟩, ⟨.symbol .closeParen, ")", 24⟩,
      ⟨.ending, "", 25⟩],
    [⟨.ending, "", 25⟩], 400, by with_unfolding_all rfl,
    by with_unfolding_all rfl⟩

theorem expression_grouping_not_in :
    IsExpression notEqualAndIn ∧ notEqualAndIn.everyNode isBasicNode ∧
      ∃ term sql, notEqualAndIn.term? "wp" = some term ∧ term.Keeps ∧
        (notEqualAndIn.write "wp").outcome = (.ok (some sql), {}) ∧
        ∃ read, SqlTerm.ofText? sql.render = some read ∧ read.bare = term.bare := by
  have hbasic : notEqualAndIn.everyNode isBasicNode := by decide
  have hkeeps : ∀ term ∈ notEqualAndIn.term? "wp", term.Keeps := by decide
  refine ⟨isExpression_notEqualAndIn, hbasic, ?_⟩
  obtain ⟨term, sql, hterm, hwrite, hreads⟩ :=
    expression_grouping_iff "wp" isExpression_notEqualAndIn hbasic
  exact ⟨term, sql, hterm, hkeeps term hterm, hwrite, hreads.2 (hkeeps term hterm)⟩

/-- `a = b < c` -/
def equalBeforeLess : Tree :=
  .node .boolPri
    [.node .boolPri [columnAt "a" 0, .node .compOp [.leaf ⟨.symbol .equal, "=", 2⟩],
      columnAt "b" 4], .node .compOp [.leaf ⟨.symbol .less, "<", 6⟩], columnAt "c" 8]

/-- MySQL compares `a = b` with `c`; what is written compares `a` with `b < c`. -/
theorem equality_before_order_regrouped :
    IsExpression equalBeforeLess ∧ equalBeforeLess.everyNode isBasicNode ∧
      equalBeforeLess.term? "wp" =
        some (.binary .less (.binary .equal (.column "a" []) (.column "b" [])) (.column "c" [])) ∧
      (equalBeforeLess.write "wp").outcome =
        (.ok (some [.name "a", .operator "=", .name "b", .operator "<", .name "c"]), {}) ∧
      Sql.render [.name "a", .operator "=", .name "b", .operator "<", .name "c"] =
        "\"a\" = \"b\" < \"c\"" ∧
      SqlTerm.ofText? "\"a\" = \"b\" < \"c\"" =
        some (.binary .equal (.column "a" [])
          (.binary .less (.column "b" []) (.column "c" []))) := by
  refine ⟨⟨"a = b < c", [],
    [⟨.identifier, "a", 0⟩, ⟨.symbol .equal, "=", 2⟩, ⟨.identifier, "b", 4⟩,
      ⟨.symbol .less, "<", 6⟩, ⟨.identifier, "c", 8⟩, ⟨.ending, "", 9⟩],
    [⟨.ending, "", 9⟩], 400, by with_unfolding_all rfl, by with_unfolding_all rfl⟩, ?_, ?_, rfl,
      ?_, ?_⟩
  all_goals decide +kernel

/-! ### Numbers and bits -/

/-- Terms that are built from constants, columns and parentheses by operators on numbers and
bits. -/
def SqlTerm.IsNumeric : SqlTerm → Prop
  | .constant _ | .column _ _ => True
  | .parens inside => inside.IsNumeric
  | .unary operator operand => (operator ≠ .not ∧ operator ≠ .bang) ∧ operand.IsNumeric
  | .binary operator left right => 7 ≤ operator.levels.1 ∧ left.IsNumeric ∧ right.IsNumeric
  | .isIn _ _ _ | .ternary _ _ _ _ _ => False

namespace SqlTerm.IsNumeric

variable {term : SqlTerm} (h : term.IsNumeric)

include h

theorem endsInBang_eq_false : term.endsInBang = false := by
  induction term with
  | constant | column | parens => rfl
  | unary op operand ih =>
    cases op with
    | bang => exact absurd rfl h.1.2
    | _ => exact ih h.2
  | binary op left right _ ihRight => simp [endsInBang, ihRight h.2.2]
  | isIn | ternary => exact h.elim

theorem isBang_eq_false : term.isBang = false := isBang_of_endsInBang h.endsInBang_eq_false

theorem isPredicate_eq_false : term.isPredicate = false := by
  cases term with
  | constant | column | parens | unary => rfl
  | binary op left right =>
    rw [isPredicate, beq_eq_false_iff_ne]
    have hl := h.1
    omega
  | isIn | ternary => exact h.elim

/-- The operators on numbers and bits rank above all comparisons. -/
theorem isEquality_eq_false : term.isEquality = false := by
  cases term with
  | constant | column | parens | unary => rfl
  | binary op left right =>
    have hr : floorRank 7 ≤ op.rank := (floorRank_mono h.1).trans op.floorRank_le
    rw [isEquality, beq_eq_false_iff_ne]
    exact fun heq => absurd (heq ▸ hr) (by decide)
  | isIn | ternary => exact h.elim

theorem keeps : term.Keeps := by
  induction term with
  | constant | column => trivial
  | parens inside ih => exact ih h
  | unary op operand ih => exact ih h.2
  | binary op left right ihLeft ihRight =>
    exact ⟨ihLeft h.2.1, ihRight h.2.2, fun _ => ⟨.inr h.2.1.endsInBang_eq_false,
      h.2.2.isPredicate_eq_false, fun _ => h.2.1.isEquality_eq_false,
      fun _ => h.2.2.isBang_eq_false⟩⟩
  | isIn | ternary => exact h.elim

end SqlTerm.IsNumeric

namespace Token

variable {token : Token} {op : Binary}

theorem levels_of_arithmetic (h : token.arithmetic? = some op) :
    7 ≤ op.levels.1 := by
  unfold arithmetic? at h
  split at h <;> cases h <;> decide

theorem sign_of_beginsWith {op : Unary} {rest : List Tree} (h : token.sign? = some op)
    (hs : beginsWith [.minus, .plus, .tilde] (.leaf token :: rest)) :
    op ≠ .not ∧ op ≠ .bang := by
  unfold sign? at h
  split at h
  case h_4 hk => exact absurd hs (by simp [beginsWith, token?, symbol?, hk])
  all_goals cases h <;> decide

end Token

namespace Tree

theorem isBasicNode_of_isArithmeticNode {rule : Rule} {kids : List Tree}
    (h : isArithmeticNode rule kids) : isBasicNode rule kids := by
  cases rule with
  | simpleExpr =>
    simp only [isArithmeticNode, isBasicNode, beginsWith, Option.any_eq_true] at h ⊢
    obtain ⟨first, hf, token, ht, symbol, hs, hm⟩ := h
    exact ⟨first, hf, token, ht, symbol, hs, by simp at hm ⊢; tauto⟩
  | columnRef | identifier | literal | numLiteral | exprWithParentheses => rfl
  | bitExpr => exact h
  | _ => cases h

theorem everyNode_mono {test other : Rule → List Tree → Bool}
    (h : ∀ rule kids, test rule kids → other rule kids) :
    (tree : Tree) → tree.everyNode test → tree.everyNode other
  | .leaf _, _ => rfl
  | .node rule kids, ht => by
    rw [everyNode_node] at ht ⊢
    exact ⟨h rule kids ht.1, fun child hc =>
      everyNode_mono h child (ht.2 child hc)⟩

/-- The parts of a row are the operators and the terms of its trees. -/
theorem forall₂_of_parts? {trees : List Tree} {parts : List Part}
    (h : parts? db trees = some parts) :
    Forall₂ (fun tree part => tree.operator?.map .word = some part ∨
      (tree.term? db).map .operand = some part) trees parts := by
  induction trees generalizing parts with
  | nil =>
    cases h
    exact .nil
  | cons tree rest ih =>
    cases ho : tree.operator? with
    | some token =>
      simp only [parts?, ho, Option.bind_eq_bind, Option.bind_some] at h
      obtain ⟨others, hr, rfl⟩ := Option.map_eq_some_iff.1 h
      exact .cons (.inl (by simp [ho])) (ih hr)
    | none =>
      simp only [parts?, ho, Option.bind_eq_bind] at h
      obtain ⟨part, hp, h⟩ := Option.bind_eq_some_iff.1 h
      obtain ⟨others, hr, rfl⟩ := Option.map_eq_some_iff.1 h
      exact .cons (.inr hp) (ih hr)

/-- An expression whose nodes are those of numbers and bits has a term on numbers and bits. -/
theorem isNumeric_of_term? : (tree : Tree) → tree.everyNode isArithmeticNode → {term : SqlTerm} →
    tree.term? db = some term → term.IsNumeric
  | .leaf _, _, _, h => by cases h
  | .node rule kids, ha, term, h => by
    rw [everyNode_node] at ha
    unfold term? at h
    split at h
    · cases h
    · obtain ⟨first, path, rfl⟩ := SqlTerm.exists_column_of_ofNames? h
      trivial
    · unfold constant? at h
      split at h <;> cases h <;> trivial
    rename_i heq
    cases heq
    obtain ⟨parts, hp, ho⟩ := Option.bind_eq_some_iff.1 h
    have hn {kid : Tree} {inside : SqlTerm} (hk : kid ∈ kids)
        (hi : kid.operator?.map Part.word = some (.operand inside) ∨
          (kid.term? db).map Part.operand = some (.operand inside)) : inside.IsNumeric :=
      isNumeric_of_term? kid (ha.2 kid hk) (by simpa using hi)
    have hk := forall₂_of_parts? hp
    unfold Part.operation? at ho
    split at ho
    case h_1 =>
      rcases hk with _ | ⟨-, _ | ⟨hi, _⟩⟩
      cases ho
      exact (hn (by simp) hi :)
    case h_2 =>
      rcases hk with _ | @⟨first, _, _, _, hw, _ | ⟨hi, _⟩⟩
      obtain ⟨op, hs, rfl⟩ := Option.map_eq_some_iff.1 ho
      refine ⟨?_, hn (by simp) hi⟩
      cases first with
      | leaf token =>
        obtain rfl : token = _ := by simpa [operator?] using hw
        exact Token.sign_of_beginsWith hs ha.1
      | node => cases ha.1
    case h_6 =>
      rcases hk with _ | ⟨hl, _ | ⟨-, _ | ⟨hr, _⟩⟩⟩
      obtain ⟨op, hs, rfl⟩ := Option.map_eq_some_iff.1 ho
      exact ⟨Token.levels_of_arithmetic hs, hn (by simp) hl, hn (by simp) hr⟩
    all_goals first
      | cases ha.1
      | cases ho

end Tree

/-- Arithmetic and bitwise operators are read back with their operands.  Every expression from
numbers, columns, parentheses and these operators is written, and what is written is read with
SQLite's table as the operators and operands of its tree: the parentheses put around the operands of
`|`, `&`, `<<` and `>>`, which MySQL ranks apart and SQLite alike, are enough. -/
theorem arithmetic_grouping (database : String) (h : IsExpression tree)
    (harithmetic : tree.everyNode isArithmeticNode) :
    ∃ term sql read, tree.term? database = some term ∧
      (tree.write database).outcome = (.ok (some sql), {}) ∧
      SqlTerm.ofText? sql.render = some read ∧ read.bare = term.bare := by
  have hbasic := everyNode_mono (fun _ _ => isBasicNode_of_isArithmeticNode) tree harithmetic
  obtain ⟨term, sql, hterm, -, hwrite, hreads⟩ := exists_reads_iff h hbasic
  obtain ⟨read, hread, hbare⟩ := hreads.2 (isNumeric_of_term? tree harithmetic hterm).keeps
  exact ⟨term, sql, read, hterm, hwrite, hread, hbare⟩

/-- `a | b & 2 DIV -c` -/
def pipeAndDivision : Tree :=
  .node .bitExpr [columnAt "a" 0, .leaf ⟨.symbol .pipe, "|", 2⟩,
    .node .bitExpr [columnAt "b" 4, .leaf ⟨.symbol .ampersand, "&", 6⟩,
      .node .bitExpr [numberAt "2" 8, .leaf ⟨.keyword .DIV, "DIV", 10⟩,
        .node .simpleExpr [.leaf ⟨.symbol .minus, "-", 14⟩, columnAt "c" 15]]]]

theorem arithmetic_grouping_pipe_division :
    IsExpression pipeAndDivision ∧ pipeAndDivision.everyNode isArithmeticNode ∧
      ∃ term sql read, pipeAndDivision.term? "wp" = some term ∧
        (pipeAndDivision.write "wp").outcome = (.ok (some sql), {}) ∧
        SqlTerm.ofText? sql.render = some read ∧ read.bare = term.bare := by
  have hexpression : IsExpression pipeAndDivision :=
    ⟨"a | b & 2 DIV -c", [],
      [⟨.identifier, "a", 0⟩, ⟨.symbol .pipe, "|", 2⟩, ⟨.identifier, "b", 4⟩,
        ⟨.symbol .ampersand, "&", 6⟩, ⟨.integer, "2", 8⟩, ⟨.keyword .DIV, "DIV", 10⟩,
        ⟨.symbol .minus, "-", 14⟩, ⟨.identifier, "c", 15⟩, ⟨.ending, "", 16⟩],
      [⟨.ending, "", 16⟩], 400, by with_unfolding_all rfl,
      by with_unfolding_all rfl⟩
  have harithmetic : pipeAndDivision.everyNode isArithmeticNode := by decide
  exact ⟨hexpression, harithmetic, arithmetic_grouping "wp" hexpression harithmetic⟩

end SqlBridge
