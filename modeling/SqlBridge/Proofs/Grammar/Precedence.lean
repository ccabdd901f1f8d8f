/-
What is read as an expression means a term that fits MySQL's ladder of operators.

Each level of the ladder is read over the next tighter one, so the lemmas here go level by level
(`readsAt_ladder`, `readsAt_logicalChain`, …).  Names are taken to be read as expressions of their
levels (`TellsName`), and so are then the productions (`tellsName_production`).
-/
import SqlBridge.Grammar.Statement
import SqlBridge.Proofs.Grammar.Read
import SqlBridge.Proofs.Scribe.Operation

namespace SqlBridge.Grammar

open Phrase SqlBridge.Tree List Token

variable {db : String}
variable {level fuel : Nat} {phrase : Phrase} {rule : Rule}
  {test : Lookahead} {accepts : Token → Bool} {token : Token} {ts rest : List Token}
  {trees : List Tree}
variable {names : Name → Reads}

/-- Nodes of basic expressions whose numbers can be written. -/
def isSpelledNode (rule : Rule) (children : List Tree) : Bool :=
  isBasicNode rule children && children.all fun child =>
    child.token?.all fun token => !token.kind.isNumber || Sql.isNumber token.value.toList

/-- A tree that, if it is built from such nodes, means a term of a level. -/
def Tells (db : String) (level : Nat) (tree : Tree) : Prop :=
  tree.everyNode isSpelledNode → ∃ term, tree.Means db term ∧ term.Fits level

theorem everyNode_spelled {kids : List Tree} (h : (node rule kids).everyNode isSpelledNode) :
    isBasicNode rule kids ∧ ∀ tree ∈ kids, tree.everyNode isSpelledNode := by
  rw [everyNode_node, isSpelledNode, Bool.and_eq_true] at h
  exact ⟨h.1.1, h.2⟩

theorem Tells.mono {lower : Nat} {tree : Tree} (h : Tells db level tree)
    (hle : lower ≤ level) : Tells db lower tree := by
  intro hb
  obtain ⟨term, ht, hf⟩ := h hb
  exact ⟨term, ht, hf.mono hle⟩

/-- The level of the expressions that a name stands for. -/
def Name.level? : Name → Option Nat
  | .expression => some 1
  | .negation => some 4
  | .predicate => some 6
  | .operand => some 7
  | .simpleExpression => some 13
  | .queryExpression | .tableReferences => none

/-- What stands for an expression is one, of its level. -/
def TellsName (db : String) (name : Name) : Reads := fun _ trees _ =>
  ∀ level, name.level? = some level → ∃ tree, trees = [tree] ∧ Tells db level tree

/-- A phrase reads one expression of a level, if names do. -/
def ReadsAt (db : String) (level : Nat) (phrase : Phrase) : Prop :=
  ∀ ⦃ts trees rest⦄, phrase.Derives (TellsName db) ts trees rest →
    ∃ tree, trees = [tree] ∧ Tells db level tree

theorem readsAt_ref {name : Name} (h : name.level? = some level) : ReadsAt db level (.ref name) :=
  fun _ _ _ hr => hr level h

theorem ReadsAt.mono {lower : Nat} (h : ReadsAt db level phrase) (hle : lower ≤ level) :
    ReadsAt db lower phrase := by
  intro ts trees rest hr
  obtain ⟨tree, rfl, ht⟩ := h hr
  exact ⟨tree, rfl, ht.mono hle⟩

/-! ### Chains -/

/-- What is joined to an expression of a level is again one. -/
theorem tells_chain {base : Tree} {rows : List (List Tree)} (hb : Tells db level base)
    (hr : ∀ row ∈ rows, ∀ tree, Tells db level tree →
      Tells db level (.node rule (tree :: row))) :
    ∃ tree, chain rule [base] rows = [tree] ∧ Tells db level tree := by
  induction rows generalizing base with
  | nil => exact ⟨base, rfl, hb⟩
  | cons row rest ih =>
    rw [forall_mem_cons] at hr
    exact ih (hr.1 base hb) hr.2

/-- A row of an operator and its right operand. -/
def IsLink (db : String) (level : Nat) (accepts : Token → Bool) (row : List Tree) : Prop :=
  ∃ token tree, row = [.leaf token, tree] ∧ accepts token ∧ Tells db level tree

/-- An operator and what is read after it. -/
theorem isLink_of_derives {expected : String} (h : ReadsAt db level phrase)
    (hr : (seq (.token accepts expected) phrase).Derives (TellsName db) ts trees rest) :
    IsLink db level accepts trees := by
  obtain ⟨_, _, _, ⟨token, rfl, ha, rfl⟩, hp, rfl⟩ := hr
  obtain ⟨tree, rfl, ht⟩ := h hp
  exact ⟨token, tree, rfl, ha, ht⟩

/-- The term of a chain of one operator. -/
theorem exists_chain {operator? : Token → Option Binary} {op : Binary} {rows : List (List Tree)}
    (hle : level < 7) (h : ∀ row ∈ rows, IsLink db (level + 1) accepts row)
    (hb : ∀ tree ∈ rows.flatten, tree.everyNode isSpelledNode)
    (ha : ∀ token, accepts token → leaf token ∈ rows.flatten → operator? token = some op ∧
      token.Spells op.lexemes ∧ op.levels = (level, level, level + 1))
    {left : SqlTerm} (hf : left.Fits level) :
    ∃ parts lexs term, Row db rows.flatten parts lexs ∧
      Part.chain? operator? left parts = some term ∧ term.Fits level ∧
      term.written.print = left.written.print ++ lexs ∧
      (rows ≠ [] → term.isArithmetic = false) := by
  induction rows generalizing left with
  | nil => exact ⟨[], [], left, .nil, rfl, hf, by simp, by simp⟩
  | cons row rest ih =>
    rw [forall_mem_cons] at h
    obtain ⟨⟨token, tree, rfl, hac, ht⟩, hr⟩ := h
    simp only [flatten_cons, cons_append, nil_append, forall_mem_cons] at hb ha ⊢
    obtain ⟨ho, hsp, hop⟩ := ha token hac mem_cons_self
    obtain ⟨second, hm, hfi⟩ := ht hb.2.1
    have hno : op.isArithmetic = false := by simp [Binary.isArithmetic, hop, hle]
    have hfit : (SqlTerm.binary op left second).Fits level := by
      simp only [SqlTerm.Fits, hop]
      exact ⟨Nat.le_refl level, hf, hfi⟩
    obtain ⟨parts, lexs, term, hro, hch, hte, hpr, hari⟩ := ih hr hb.2.2
      (fun token hac hm => ha token hac (mem_cons_of_mem _ (mem_cons_of_mem _ hm))) hfit
    refine ⟨_, _, term, .leaf hsp (.operand hm.toStands hro), ?_, hte, ?_, fun _ => ?_⟩
    · rw [Part.chain?, ho]
      exact hch
    · rw [hpr, SqlTerm.print_written_binary (by simp [Binary.isBitwise, hno])]
      simp
    · cases rest with
      | nil =>
        cases hro
        cases hch
        exact hno
      | cons row rest => exact hari (by simp)

/-! ### Logical operators and lists -/

/-- A chain of one logical operator. -/
theorem readsAt_logicalChain (op : Binary) (hle : level < 7)
    {tighter : Phrase} (h : ReadsAt db (level + 1) tighter)
    (ha : ∀ token, accepts token → token.isKeyword .XOR = false →
      token.logical? = some op ∧ op.levels = (level, level, level + 1)) :
    ReadsAt db level (logicalChain accepts tighter) := by
  rintro ts trees rest ⟨_, middle, hba, ⟨htes, _, ⟨rows, hro, rfl⟩, rfl⟩ | ⟨rfl, rfl⟩⟩
  · obtain ⟨base, rfl, ht⟩ := h hba
    have hrow := hro.forall fun _ _ _ _ hr => isLink_of_derives h hr
    refine ⟨_, rfl, fun hb => ?_⟩
    obtain ⟨hn, hk⟩ := everyNode_spelled hb
    rw [cons_append, nil_append, forall_mem_cons] at hk
    obtain ⟨first, hm, hfit⟩ := ht hk.1
    obtain ⟨parts, lexs, term, hr, hch, hf, hp, hari⟩ := exists_chain hle hrow hk.2
      (fun token hac hm => by
        simp only [isBasicNode, Bool.not_eq_true', any_eq_false] at hn
        have hx := hn (.leaf token) (mem_append_right _ hm)
        obtain ⟨ho, hl⟩ := ha token hac (by simpa [isKeyword, hasKind, token?] using hx)
        exact ⟨ho, spells_logical ho, hl⟩)
      (hfit.mono (Nat.le_succ level))
    -- the loop goes round at least once
    have hne : rows ≠ [] := by
      rintro rfl
      cases hro with
      | stop hd =>
        rw [htes] at hd
        cases hd
    exact ⟨term,
      means_of_row (.operand hm.toStands hr) (by decide) (by decide) rfl hch (hari hne) hp, hf⟩
  · exact h.mono (Nat.le_succ level) hba

/-- Expressions with commas between them. -/
theorem exists_expressionList (hr : expressionList.Derives (TellsName db) ts trees rest) :
    ∃ tree, trees = [tree] ∧
      (tree.everyNode isSpelledNode → ∃ term, tree.Stands db term ∧ term.Fits 0) := by
  obtain ⟨_, ⟨_, _, _, hf, ⟨rows, hro, rfl⟩, rfl⟩, rfl⟩ := hr
  obtain ⟨base, rfl, hba⟩ := hf 1 rfl
  have hl := hro.forall fun _ _ _ _ hr => isLink_of_derives (readsAt_ref rfl) hr
  refine ⟨.node .exprList (base :: rows.flatten), rfl, fun hb => ?_⟩
  have hk := (everyNode_spelled hb).2
  rw [forall_mem_cons] at hk
  obtain ⟨first, hm, hfi⟩ := hba hk.1
  obtain ⟨parts, lexs, term, hr, hch, hf, hp, -⟩ := exists_chain (by decide) hl hk.2
    (fun token hac _ => ⟨(if_pos hac : token.comma? = some .comma),
      spells_isSymbol hac (by decide), rfl⟩) (hfi.mono (Nat.zero_le 1))
  exact ⟨term, stands_of_row (.operand hm.toStands hr) (by decide) rfl hch hp, hf⟩

/-! ### Operators on numbers and bits -/

/-- A node of a rule that no basic expression has. -/
theorem tells_of_not {kids : List Tree}
    (h : isBasicNode rule kids = false) : Tells db level (.node rule kids) := by
  intro hb
  exact absurd (everyNode_spelled hb).1 (by simp [h])

theorem readsAt_make {parts : List Phrase}
    (h : ∀ kids, isBasicNode rule kids = false) : ReadsAt db level (make rule parts) := by
  rintro ts trees rest ⟨kids, -, rfl⟩
  exact ⟨_, rfl, tells_of_not (h kids)⟩

theorem readsAt_choose {yes no : Phrase} (hy : ReadsAt db level yes) (hno : ReadsAt db level no) :
    ReadsAt db level (.choose test yes no) := by
  rintro ts trees rest (⟨-, hr⟩ | ⟨-, hr⟩)
  · exact hy hr
  · exact hno hr

/-- A level of operators over the tighter ones. -/
theorem readsAt_ladder {tighter : List (Token → Bool)} (h : ReadsAt db (level + 1) (ladder tighter))
    (ha : ∀ token, accepts token → token.isSymbol .caret = false →
      ∃ op, token.arithmetic? = some op ∧ op.levels = (level, level, level + 1)) :
    ReadsAt db level (ladder (accepts :: tighter)) := by
  rintro ts trees rest ⟨_, middle, rows, hbase, hro, rfl⟩
  obtain ⟨base, rfl, ht⟩ := h hbase
  have hr : ReadsAt db (level + 1)
      (.choose (.keyword .INTERVAL) interval (ladder tighter)) :=
    readsAt_choose (readsAt_make fun _ => rfl) h
  have hli := hro.forall fun _ _ _ _ hl => isLink_of_derives hr hl
  refine tells_chain (ht.mono (Nat.le_succ level)) fun row hrow left hle hbas => ?_
  obtain ⟨token, right, rfl, hto, hr⟩ := hli row hrow
  obtain ⟨hn, hk⟩ := everyNode_spelled hbas
  have hc : token.isSymbol .caret = false := by
    simp only [isBasicNode, Bool.not_eq_true', any_eq_false] at hn
    simpa [isSymbol, hasKind, token?] using hn (.leaf token) (by simp)
  obtain ⟨op, ho, hl⟩ := ha token hto hc
  obtain ⟨first, hfir, hfi⟩ := hle (hk left (by simp))
  obtain ⟨second, hs, hf⟩ := hr (hk right (by simp))
  refine ⟨_, means_arithmetic ho hfir hs, ?_⟩
  simp only [SqlTerm.Fits, hl]
  exact ⟨Nat.le_refl level, hfi, hf⟩

theorem kind_of_isOneOfSymbols {symbols : List Symbol}
    (h : isOneOfSymbols symbols token) : ∃ symbol ∈ symbols, token.kind = .symbol symbol := by
  unfold isOneOfSymbols symbol? at h
  split at h
  · rename_i symbol hk
    exact ⟨symbol, by simpa using h, hk⟩
  · cases h

theorem readsAt_operand : ReadsAt db 7 operand := by
  have one {level : Nat} {symbols : List Symbol} {tighter : List (Token → Bool)}
      (hti : ReadsAt db (level + 1) (ladder tighter))
      (hsy : ∀ symbol ∈ symbols, ∀ value pos, ∃ op,
        arithmetic? ⟨.symbol symbol, value, pos⟩ = some op ∧
          op.levels = (level, level, level + 1)) :
      ReadsAt db level (ladder (isOneOfSymbols symbols :: tighter)) := by
    refine readsAt_ladder hti fun token ht _ => ?_
    obtain ⟨symbol, hs, hki⟩ := kind_of_isOneOfSymbols ht
    obtain ⟨op, ho, hl⟩ := hsy symbol hs token.value token.position
    refine ⟨op, ?_, hl⟩
    rw [← ho, arithmetic?, arithmetic?, hki]
  -- from the tightest level to the loosest
  have hc : ReadsAt db 12 (ladder [isOneOfSymbols [.caret]]) := by
    refine readsAt_ladder (readsAt_ref rfl) fun token ht hc => ?_
    obtain ⟨symbol, hs, hki⟩ := kind_of_isOneOfSymbols ht
    rw [mem_singleton] at hs
    simp [isSymbol, hki, hs] at hc
  have hp : ReadsAt db 11 (ladder (operatorLadder.drop 4)) := by
    refine readsAt_ladder hc fun token ht _ => ?_
    rcases Bool.or_eq_true_iff.1 ht with hs | hk
    · obtain ⟨symbol, hs, hki⟩ := kind_of_isOneOfSymbols hs
      simp only [mem_cons, not_mem_nil, or_false] at hs
      rcases hs with rfl | rfl | rfl <;> exact ⟨_, by rw [arithmetic?, hki], rfl⟩
    · obtain ⟨keyword, hk, hki⟩ := kind_of_oneOf hk
      simp only [mem_cons, not_mem_nil, or_false] at hk
      rcases hk with rfl | rfl <;> exact ⟨_, by rw [arithmetic?, hki], rfl⟩
  have hsu : ReadsAt db 10 (ladder (operatorLadder.drop 3)) := by
    refine one hp ?_
    simp only [forall_mem_cons]
    exact ⟨fun _ _ => ⟨_, rfl, rfl⟩, fun _ _ => ⟨_, rfl, rfl⟩, by simp⟩
  have hsh : ReadsAt db 9 (ladder (operatorLadder.drop 2)) := by
    refine one hsu ?_
    simp only [forall_mem_cons]
    exact ⟨fun _ _ => ⟨_, rfl, rfl⟩, fun _ _ => ⟨_, rfl, rfl⟩, by simp⟩
  have ha : ReadsAt db 8 (ladder (operatorLadder.drop 1)) := by
    refine one hsh ?_
    simp only [forall_mem_cons]
    exact ⟨fun _ _ => ⟨_, rfl, rfl⟩, by simp⟩
  refine one ha ?_
  simp only [forall_mem_cons]
  exact ⟨fun _ _ => ⟨_, rfl, rfl⟩, by simp⟩

/-! ### Comparisons and predicates -/

/-- The `NOT` that may be read next. -/
theorem exists_negation (h : (optionalKeyword .NOT).Derives names ts trees rest) :
    ∃ not? : Option Token, (∀ word ∈ not?, word.isKeyword .NOT) ∧
      (not? = none → Lookahead.keyword .NOT rest = false) ∧ trees = ofWord? not? ∧
      ts = not?.toList ++ rest := by
  rcases h with ⟨-, token, rfl, ht, rfl⟩ | ⟨hte, rfl, rfl⟩
  · exact ⟨some token, by simpa using ht, by simp, rfl, rfl⟩
  · exact ⟨none, by simp, fun _ => hte, rfl, rfl⟩

/-- What a test with `IS` reads. -/
theorem exists_truth (h : (row [keyword .IS, optionalKeyword .NOT,
      anyKeyword [.NULL, .TRUE, .FALSE, .UNKNOWN]]).Derives names ts trees rest) :
    ∃ (is value : Token) (not? : Option Token) (lexeme : Lexeme), is.isKeyword .IS ∧
      (∀ word ∈ not?, word.isKeyword .NOT) ∧ value.truth? = some lexeme ∧
      trees = .leaf is :: ofWord? not? ++ [leaf value] := by
  obtain ⟨_, _, _, ⟨is, rfl, his, rfl⟩, ⟨_, _, _, hs, ⟨value, rfl, hv, rfl⟩, rfl⟩, rfl⟩ := h
  obtain ⟨not?, hn, -, rfl, rfl⟩ := exists_negation hs
  obtain ⟨keyword, hk, hki⟩ := kind_of_oneOf hv
  have hl : ∃ lexeme, value.truth? = some lexeme := by
    simp only [mem_cons, not_mem_nil, or_false] at hk
    rcases hk with rfl | rfl | rfl | rfl <;> exact ⟨_, by rw [truth?, hki]⟩
  obtain ⟨lexeme, hl⟩ := hl
  exact ⟨is, value, not?, lexeme, his, hn, hl, rfl⟩

theorem isConstant_of_truth? {lexeme : Lexeme} (h : token.truth? = some lexeme) :
    lexeme.isConstant := by
  unfold truth? at h
  split at h <;> cases h <;> rfl

theorem comparison?_of_isComparison (h : isComparison token) :
    ∃ op, token.comparison? = some op ∧ op.levels = (5, 5, 6) := by
  have ha : ∀ symbol : Symbol, symbol.isComparison → ∃ op,
      comparison? ⟨.symbol symbol, token.value, token.position⟩ = some op ∧
        op.levels = (5, 5, 6) := by
    intro symbol hs
    cases symbol <;> simp_all [Symbol.isComparison, comparison?, Binary.levels]
  unfold isComparison symbol? at h
  split at h
  · rename_i symbol hk
    obtain ⟨op, ho, hl⟩ := ha symbol h
    refine ⟨op, ?_, hl⟩
    rw [← ho, comparison?, comparison?, hk]
  · cases h

/-- What is read after an operand of a comparison: a test with `IS`, or an operator and its other
operand, which is no subquery. -/
theorem tells_comparison (ht : Lookahead.either (.keyword .IS) (.nth 0 isComparison) ts)
    (hre : (choose (.keyword .IS)
      (row [keyword .IS, optionalKeyword .NOT, anyKeyword [.NULL, .TRUE, .FALSE, .UNKNOWN]])
      (row [make .compOp [anyToken], .choose (.anyKeyword [.ANY, .SOME, .ALL])
        (row [anyToken, subquery]) (.ref .predicate)])).Derives (TellsName db) ts trees rest) :
    ∀ left, Tells db 5 left → Tells db 5 (.node .boolPri (left :: trees)) := by
  intro left hle hb
  obtain ⟨-, hb⟩ := everyNode_spelled hb
  obtain ⟨first, hfir, hf⟩ := hle (hb left mem_cons_self)
  rcases hre with ⟨-, hre⟩ | ⟨his, _, _, _, ⟨_, ⟨token, rfl, -, rfl⟩, rfl⟩, hr, rfl⟩
  · obtain ⟨is, value, not?, lexeme, his, hno, hv, rfl⟩ := exists_truth hre
    refine ⟨_, means_truth his hno hv hfir, ?_⟩
    cases not? with
    | none => exact ⟨Nat.le_refl 5, hf, isConstant_of_truth? hv⟩
    | some word => exact ⟨Nat.le_refl 5, hf, isConstant_of_truth? hv⟩
  · have hc : isComparison token := by
      rw [Lookahead.either, his, Bool.false_or] at ht
      simpa [Lookahead.nth] using ht
    obtain ⟨op, ho, hl⟩ := comparison?_of_isComparison hc
    rcases hr with ⟨-, _, _, _, -, ⟨kids, -, rfl⟩, rfl⟩ | ⟨-, hr⟩
    · cases (everyNode_spelled (hb (.node .subquery kids) (by simp))).1
    · obtain ⟨right, rfl, hte⟩ := hr 6 rfl
      obtain ⟨second, hse, hfi⟩ := hte (hb right (by simp))
      refine ⟨_, means_comparison ho hfir hse, ?_⟩
      simp only [SqlTerm.Fits, hl]
      exact ⟨Nat.le_refl 5, hf, hfi⟩

theorem readsAt_comparison : ReadsAt db 5 comparison := by
  rintro ts trees rest ⟨_, middle, rows, hb, hro, rfl⟩
  obtain ⟨base, rfl, ht⟩ := hb 6 rfl
  exact tells_chain (ht.mono (by decide)) (hro.forall fun _ _ _ => tells_comparison)

theorem readsAt_negation : ReadsAt db 4 negation := by
  rintro ts trees rest (⟨-, _, ⟨_, _, _, ⟨token, rfl, hno, rfl⟩, ho, rfl⟩, rfl⟩ | ⟨-, hr⟩)
  · obtain ⟨tree, rfl, ht⟩ := ho 4 rfl
    refine ⟨.node .expr [.leaf token, tree], rfl, fun hb => ?_⟩
    obtain ⟨term, hte, hfi⟩ := ht ((everyNode_spelled hb).2 tree (by simp))
    exact ⟨.unary .not term,
      means_of_row (.keyword "NOT" hno rfl (by decide) (.operand hte.toStands .nil)) (by decide)
        (by decide) rfl (by simp [Part.operation?, hno]) rfl
        (by simp [SqlTerm.written, SqlTerm.print, Unary.lexeme]), Nat.le_refl 4, hfi⟩
  · exact readsAt_comparison.mono (by decide) hr

/-- What, put after an operand and maybe `NOT`, makes a predicate. -/
def PredicateRow (db : String) (row : List Tree) : Prop :=
  ∀ (left : Tree) (not? : Option Token), (∀ word ∈ not?, word.isKeyword .NOT) →
    Tells db 7 left → Tells db 6 (.node .predicate (left :: ofWord? not? ++ row))

/-- The operands of a basic predicate are basic. -/
theorem basic_predicate {left : Tree} {not? : Option Token} {row : List Tree} (hl : Tells db 7 left)
    (h : (node .predicate (left :: ofWord? not? ++ row)).everyNode isSpelledNode) :
    (∃ first, left.Means db first ∧ first.Fits 7) ∧
      ∀ tree ∈ row, tree.everyNode isSpelledNode := by
  have hk := (everyNode_spelled h).2
  exact ⟨hl (hk left (by simp)), fun tree ht => hk tree (mem_append_right _ ht)⟩

theorem isKeyword_of_ne {kw other : Keyword} (h : token.isKeyword kw) (hne : kw ≠ other) :
    token.isKeyword other = false := by
  simp_all [isKeyword]

theorem predicateRow_membership (hr : (seq (keyword .IN)
      (.choose (.keywordAt 1 .SELECT) subquery (parenthesized expressionList))).Derives
      (TellsName db) ts trees rest) : PredicateRow db trees := by
  intro left not? hno hle hb
  obtain ⟨⟨first, hfi, hfit⟩, hb⟩ := basic_predicate hle hb
  obtain ⟨_, _, _, ⟨word, rfl, hw, rfl⟩, ⟨-, kids, -, rfl⟩ | ⟨-, _, _, _, ⟨opening, rfl, ho, rfl⟩,
    ⟨_, _, _, hli, ⟨closing, rfl, hc, rfl⟩, rfl⟩, rfl⟩, rfl⟩ := hr
  · cases (everyNode_spelled (hb (.node .subquery kids) (by simp))).1
  · obtain ⟨tree, rfl, ht⟩ := exists_expressionList hli
    obtain ⟨term, hte, hf⟩ := ht (hb tree (by simp))
    refine ⟨.isIn not?.isSome first term, means_predicate hno (isKeyword_of_ne hw (by decide)) hfi
      (.keyword "IN" hw rfl (by decide) (.symbol ho (by decide) (.operand hte
        (.symbol hc (by decide) .nil)))) rfl rfl ?_, Nat.le_refl 6, hfit, hf⟩
    simp [SqlTerm.written, SqlTerm.print, SqlOperator.lexemes, Symbol.spelling]

theorem predicateRow_between
    (hr : (row [keyword .BETWEEN, .ref .operand, keyword .AND, .ref .predicate]).Derives
      (TellsName db) ts trees rest) : PredicateRow db trees := by
  intro left not? hn hl hb
  obtain ⟨⟨first, hfir, hfit⟩, hb⟩ := basic_predicate hl hb
  obtain ⟨_, _, _, ⟨word, rfl, hw, rfl⟩, ⟨_, _, _, hle, ⟨_, _, _, ⟨also, rfl, ha, rfl⟩, hri, rfl⟩,
    rfl⟩, rfl⟩ := hr
  obtain ⟨low, rfl, hlo⟩ := hle 7 rfl
  obtain ⟨high, rfl, hh⟩ := hri 6 rfl
  obtain ⟨second, hs, hfi⟩ := hlo (hb low (by simp))
  obtain ⟨third, ht, hf⟩ := hh (hb high (by simp))
  have hop : word.ternary? = some .between := by
    rw [ternary?, eq_of_beq hw]
  refine ⟨.ternary .between not?.isSome first second third,
    means_predicate hn (isKeyword_of_ne hw (by decide)) hfir
      (.keyword "BETWEEN" hw rfl (by decide)
        (.operand hs.toStands (.keyword "AND" ha rfl (by decide)
        (.operand ht.toStands .nil)))) (by simp [Part.predicate?, hop]) rfl ?_,
    Nat.le_refl 6, hfit, hfi, hf⟩
  simp [SqlTerm.written, SqlTerm.print, Ternary.opening, Ternary.separator]

theorem predicateRow_like (hr : (row [keyword .LIKE, .ref .simpleExpression,
      optional (.keyword .ESCAPE) (row [keyword .ESCAPE, .ref .simpleExpression])]).Derives
      (TellsName db) ts trees rest) : PredicateRow db trees := by
  intro left not? hn hl hb
  obtain ⟨⟨first, hfir, hfit⟩, hb⟩ := basic_predicate hl hb
  obtain ⟨_, _, _, ⟨word, rfl, hw, rfl⟩, ⟨_, _, _, hle, hmo, rfl⟩, rfl⟩ := hr
  obtain ⟨middle, rfl, hm⟩ := hle 13 rfl
  obtain ⟨second, hs, hf⟩ := hm (hb middle (by simp))
  rcases hmo with ⟨-, _, _, _, ⟨also, rfl, ha, rfl⟩, hri, rfl⟩ | ⟨-, rfl, rfl⟩
  · obtain ⟨right, rfl, hr⟩ := hri 13 rfl
    obtain ⟨third, ht, hfi⟩ := hr (hb right (by simp))
    have hop : word.ternary? = some .escape := by
      rw [ternary?, eq_of_beq hw]
    refine ⟨.ternary .escape not?.isSome first second third,
      means_predicate hn (isKeyword_of_ne hw (by decide)) hfir
        (.keyword "LIKE" hw rfl (by decide)
          (.operand hs.toStands (.keyword "ESCAPE" ha rfl (by decide)
          (.operand ht.toStands .nil)))) (by simp [Part.predicate?, hop]) rfl ?_,
      Nat.le_refl 6, hfit, hf, hfi⟩
    simp [SqlTerm.written, SqlTerm.print, Ternary.opening, Ternary.separator]
  · have ho : word.pattern? not?.isSome = some (.like not?.isSome) := by
      rw [pattern?, eq_of_beq hw]
    exact ⟨_, means_pattern hn ho hfir hs, Nat.le_refl 6, hfit, hf⟩

/-- The word of a predicate, after the `NOT` that may come first. -/
theorem exists_word {not? : Option Token} (hno : ∀ word ∈ not?, word.isKeyword .NOT)
    (hn : not? = none → Lookahead.keyword .NOT ts = false)
    (h : atPredicate (not?.toList ++ ts)) :
    ∃ token after, ts = token :: after ∧ ∃ keyword ∈ predicateKeywords,
      token.kind = .keyword keyword := by
  have hh (ht : Lookahead.nth 0 (Lookahead.oneOf predicateKeywords) ts) :
      ∃ token after, ts = token :: after ∧ ∃ keyword ∈ predicateKeywords,
        token.kind = .keyword keyword := by
    obtain ⟨token, after, rfl, hto⟩ := exists_of_nth ht
    exact ⟨token, after, rfl, kind_of_oneOf hto⟩
  rcases Bool.or_eq_true_iff.1 h with hf | hs
  · cases not? with
    | none => exact hh hf
    | some word =>
      have hw : Lookahead.oneOf predicateKeywords word := hf
      rw [Lookahead.oneOf, keyword?, eq_of_beq (hno word rfl)] at hw
      exact absurd hw (by decide)
  · obtain ⟨hf, hs⟩ := Bool.and_eq_true_iff.1 hs
    cases not? with
    | none => exact absurd hf (by simpa using hn rfl)
    | some word => exact hh hs

theorem readsAt_predicate : ReadsAt db 6 predicate := by
  rintro ts trees rest ⟨_, middle, hba, ⟨hte, _, ⟨_, _, _, hne, hr, rfl⟩, rfl⟩ | ⟨rfl, rfl⟩⟩
  · obtain ⟨left, rfl, hl⟩ := hba 7 rfl
    obtain ⟨not?, hno, hnon, rfl, rfl⟩ := exists_negation hne
    obtain ⟨word, after, rfl, keyword, hk, hki⟩ := exists_word hno hnon hte
    refine ⟨_, rfl, ?_⟩
    rw [cons_append, nil_append, ← cons_append]
    rcases hr with ⟨-, hin⟩ | ⟨hnotIn, ⟨-, hbe⟩ | ⟨hn, ⟨-, hli⟩ | ⟨hnotLike, hr⟩⟩⟩
    · exact predicateRow_membership hin left not? hno hl
    · exact predicateRow_between hbe left not? hno hl
    · exact predicateRow_like hli left not? hno hl
    -- no other word than `REGEXP` or `RLIKE` is left
    obtain ⟨_, _, _, ⟨_, heq, -, rfl⟩, hop, rfl⟩ := hr
    obtain ⟨rfl, rfl⟩ := cons.inj heq
    obtain ⟨right, rfl, hri⟩ := hop 7 rfl
    intro hb
    obtain ⟨⟨first, hfi, hfit⟩, hb⟩ := basic_predicate hl hb
    obtain ⟨second, hs, hf⟩ := hri (hb right (by simp))
    have hope : word.pattern? not?.isSome = some (.regexp not?.isSome) := by
      rw [pattern?, hki]
      simp only [predicateKeywords, mem_cons, not_mem_nil, or_false] at hk
      simp [Lookahead.keyword, Lookahead.nth, isKeyword, hki] at hnotIn hn hnotLike
      rcases hk with rfl | rfl | rfl | rfl | rfl
      · exact absurd rfl hnotIn
      · exact absurd rfl hn
      · exact absurd rfl hnotLike
      · rfl
      · rfl
    exact ⟨_, means_pattern hno hope hfi hs, Nat.le_refl 6, hfit, hf⟩
  · exact (readsAt_ref rfl).mono (by decide) hba

/-! ### Simple expressions -/

/-- A simple expression that begins with a token which is no sign. -/
theorem tells_simple {rest : List Tree}
    (h : isOneOfSymbols [.minus, .plus, .tilde, .bang] token = false) :
    Tells db level (.node .simpleExpr (.leaf token :: rest)) := tells_of_not h

/-- A row of expressions is no basic expression; one in parentheses is. -/
theorem readsAt_parentheses : ReadsAt db 13 parentheses := by
  rintro ts trees rest ⟨_, ⟨_, _, _, ⟨opening, rfl, ho, rfl⟩, ⟨inside, _, _, hco,
    ⟨closing, rfl, hc, rfl⟩, rfl⟩, rfl⟩, rfl⟩
  refine ⟨_, rfl, ?_⟩
  dsimp only
  split
  · refine tells_simple ?_
    simp [isOneOfSymbols, symbol?, eq_of_beq ho]
  · rename_i hli
    obtain ⟨_, _, hba, ⟨-, right, -, rfl⟩ | ⟨rfl, rfl⟩⟩ := hco
    · exact absurd (by simp [hasRule, rule?]) hli
    · obtain ⟨tree, rfl, ht⟩ := hba 1 rfl
      intro hb
      obtain ⟨term, hte, hfi⟩ := ht ((everyNode_spelled hb).2 tree (by simp))
      exact ⟨.parens term,
        means_of_row (.symbol ho (by decide) (.operand hte.toStands (.symbol hc (by decide) .nil)))
          (by decide) (by decide) rfl rfl rfl rfl, hfi⟩

theorem exists_identifier (h : identifier.Derives names ts trees rest) :
    ∃ token, trees = [nameOf token] := by
  obtain ⟨_, ⟨token, -, -, rfl⟩, rfl⟩ := h
  exact ⟨token, rfl⟩

theorem exists_dottedIdentifier
    (h : dottedIdentifier.Derives names ts trees rest) : ∃ token, trees = [nameOf token] := by
  rcases h with ⟨-, _, ⟨token, -, -, rfl⟩, rfl⟩ | ⟨-, hn⟩
  · exact ⟨token, rfl⟩
  · exact exists_identifier hn

theorem readsAt_columnRef : ReadsAt db 13 columnRef := by
  rintro ts trees rest ⟨_, ⟨_, _, names, hfi, hn, rfl⟩, rfl⟩
  obtain ⟨first, rfl⟩ := exists_identifier hfi
  -- the names after the first one, each after a dot
  obtain ⟨path, hdo, rfl⟩ : ∃ path : List (Token × Token), (∀ step ∈ path, step.1.isSymbol .dot) ∧
      names = path.flatMap fun step => [.leaf step.1, nameOf step.2] := by
    rcases hn with ⟨-, _, _, _, ⟨dot, rfl, hd, rfl⟩, ⟨_, _, _, hne, hmo, rfl⟩, rfl⟩ | ⟨-, rfl, rfl⟩
    · obtain ⟨name, rfl⟩ := exists_dottedIdentifier hne
      rcases hmo with ⟨-, _, _, _, ⟨other, rfl, hot, rfl⟩, hla, rfl⟩ | ⟨-, rfl, rfl⟩
      · obtain ⟨last, rfl⟩ := exists_dottedIdentifier hla
        exact ⟨[(dot, name), (other, last)], by simp [hd, hot], rfl⟩
      · exact ⟨[(dot, name)], by simpa using hd, rfl⟩
    · exact ⟨[], by simp, rfl⟩
  obtain ⟨name, path', ht⟩ : ∃ name path',
      SqlTerm.ofNames? db (first.text :: path.map (·.2.text)) = some (.column name path') := by
    unfold SqlTerm.ofNames?
    split
    · split <;> exact ⟨_, _, rfl⟩
    · exact ⟨_, _, rfl⟩
    · rename_i heq
      cases heq
  exact ⟨_, rfl, fun _ => ⟨_, means_column hdo ht, trivial⟩⟩

/-- Literals: numbers, strings and the words for constants. -/
theorem exists_textString (h : textString.Derives names ts trees rest) :
    ∃ kids, trees = [.node .textStringLiteral kids] := by
  rcases h with ⟨-, kids, -, rfl⟩ | ⟨-, hn⟩
  · exact ⟨kids, rfl⟩
  · exact hn.elim

/-- A phrase reads one expression where a test holds, if names do. -/
def ReadsWhere (db : String) (entry : Lookahead × Phrase) : Prop :=
  ∀ ⦃ts trees rest⦄, entry.1 ts → entry.2.Derives (TellsName db) ts trees rest →
    ∃ tree, trees = [tree] ∧ Tells db 13 tree

theorem ReadsAt.where (h : ReadsAt db 13 phrase) : ReadsWhere db (test, phrase) :=
  fun _ _ _ _ hr => h hr

/-- A literal that is one token. -/
theorem readsWhere_literal {test : Token → Bool} (h : ∀ token, test token →
      Tells db 13 (.node .literal [.node rule [.leaf token]])) :
    ReadsWhere db (.nth 0 test, literal rule [anyToken]) := by
  rintro ts trees rest ht ⟨_, ⟨_, ⟨token, rfl, -, rfl⟩, rfl⟩, rfl⟩
  exact ⟨_, rfl, h token ht⟩

theorem readsWhere_textLiteral : ReadsWhere db (test, textLiteral) := by
  rintro ts trees rest - ⟨_, ⟨_, hi, rfl⟩, rfl⟩
  obtain ⟨kids, rfl⟩ := exists_textString hi
  exact ⟨_, rfl, fun _ => ⟨_, means_literal rfl (spells_single _ rfl (spells_text db kids)), rfl⟩⟩

theorem readsWhere_temporalLiteral :
    ReadsWhere db (test, literal .temporalLiteral [anyToken, textString]) := by
  rintro ts trees rest - ⟨_, ⟨_, ⟨_, _, _, ⟨token, rfl, -, rfl⟩, hi, rfl⟩, rfl⟩, rfl⟩
  obtain ⟨kids, rfl⟩ := exists_textString hi
  exact ⟨_, rfl, fun _ => ⟨_, means_temporal db token kids, rfl⟩⟩

theorem isNumber_of_spelled (hk : token.kind.isNumber)
    (h : (node .literal [.node .numLiteral [.leaf token]]).everyNode isSpelledNode) :
    Sql.isNumber token.value.toList := by
  have hn := (everyNode_spelled h).2 _ mem_cons_self
  rw [everyNode_node, isSpelledNode, Bool.and_eq_true] at hn
  simpa [token?, hk] using hn.1.2

/-- A simple expression that begins with a token which is no sign. -/
theorem readsWhere_simple {parts : List Phrase} (hte : ∀ ts, test ts → Lookahead.nth 0 accepts ts)
    (h : ∀ token, accepts token →
      isOneOfSymbols [.minus, .plus, .tilde, .bang] token = false) :
    ReadsWhere db (test, make .simpleExpr (anyToken :: parts)) := by
  rintro ts trees rest hto ⟨kids, hr, rfl⟩
  obtain ⟨token, after, rfl, ht⟩ := exists_of_nth (hte _ hto)
  cases parts with
  | nil =>
    obtain ⟨_, heq, -, rfl⟩ := hr
    obtain ⟨rfl, rfl⟩ := cons.inj heq
    exact ⟨_, rfl, tells_of_not (h token ht)⟩
  | cons next parts =>
    obtain ⟨_, _, _, ⟨_, heq, -, rfl⟩, -, rfl⟩ := hr
    obtain ⟨rfl, rfl⟩ := cons.inj heq
    exact ⟨_, rfl, tells_of_not (h token ht)⟩

theorem readsWhere_sign :
    ReadsWhere db (.nth 0 (isOneOfSymbols [.minus, .plus, .tilde, .bang]),
      make .simpleExpr [anyToken, .ref .simpleExpression]) := by
  rintro ts trees rest htes ⟨_, ⟨_, _, _, ⟨token, rfl, -, rfl⟩, ho, rfl⟩, rfl⟩
  obtain ⟨tree, rfl, ht⟩ := ho 13 rfl
  refine ⟨_, rfl, fun hb => ?_⟩
  obtain ⟨term, hte, hfi⟩ := ht ((everyNode_spelled hb).2 tree (by simp))
  have hto : isOneOfSymbols [.minus, .plus, .tilde, .bang] token := htes
  obtain ⟨symbol, hs, hk⟩ := kind_of_isOneOfSymbols hto
  obtain ⟨op, hsi, hn⟩ : ∃ op, token.sign? = some op ∧ op ≠ .not := by
    simp only [mem_cons, not_mem_nil, or_false] at hs
    rcases hs with rfl | rfl | rfl | rfl <;>
      exact ⟨_, by rw [sign?, hk], by decide⟩
  refine ⟨_, means_sign hsi hte, ?_⟩
  cases op with
  | not => exact absurd rfl hn
  | _ => exact hfi

theorem readsAt_firstOf {otherwise : Phrase} (ho : ReadsAt db 13 otherwise)
    {entries : List (Lookahead × Phrase)} (h : ∀ entry ∈ entries, ReadsWhere db entry) :
    ReadsAt db 13 (firstOf otherwise entries) := by
  intro ts trees rest hr
  rcases derives_firstOf hr with hl | ⟨entry, he, ht, hf⟩
  · exact ho hl
  · exact h entry he ht hf

theorem readsAt_refuse (refusal : Refusal) : ReadsAt db level (.refuse refusal) :=
  fun _ _ _ hr => hr.elim

theorem readsAt_simpleBase : ReadsAt db 13 simpleBase := by
  have other {test : Lookahead} {rule : Rule} {parts : List Phrase}
      (h : ∀ kids, isBasicNode rule kids = false) :
      ReadsWhere db (test, make rule parts) := (readsAt_make h).where
  have refused {test : Lookahead} (refusal : Refusal) :
      ReadsWhere db (test, .refuse refusal) := (readsAt_refuse refusal).where
  have word {k : Keyword} {parts : List Phrase} :
      ReadsWhere db (.keyword k, make .simpleExpr (anyToken :: parts)) :=
    readsWhere_simple (fun _ => id) fun token ht => by
      simp [isOneOfSymbols, symbol?, eq_of_beq ht]
  have hpa : ReadsWhere db (kind .parameter, make .simpleExpr [anyToken]) :=
    readsWhere_simple (fun _ => id) fun token ht => by
      simp [isOneOfSymbols, symbol?, eq_of_beq ht]
  have hp : ReadsWhere db
      (.symbol .openParen, .choose (.keywordAt 1 .SELECT) subquery parentheses) :=
    (readsAt_choose (readsAt_make fun _ => rfl) readsAt_parentheses).where
  have hn : ReadsWhere db (.number, literal .numLiteral [anyToken]) :=
    readsWhere_literal fun token ht hb => ⟨.constant (.number token.value), means_literal rfl
      (spells_single (.constant _) rfl (spells_number ht (isNumber_of_spelled ht hb))), rfl⟩
  have hnu : ReadsWhere db (.keyword .NULL, literal .nullLiteral [anyToken]) :=
    readsWhere_literal fun token ht _ => ⟨.constant (.word "NULL"), means_literal rfl
      (spells_single (.constant _) rfl (spells_isKeyword "NULL" ht rfl (by decide))), rfl⟩
  have hb : ReadsWhere db
      (.anyKeyword [.TRUE, .FALSE], literal .boolLiteral [anyToken]) :=
    readsWhere_literal fun token _ _ => ⟨_, means_literal rfl (spells_boolean db token), rfl⟩
  have ha : ReadsWhere db (callOf aggregates, aggregate) :=
    (readsAt_choose (readsAt_make fun _ => rfl) (readsAt_make fun _ => rfl)).where
  refine readsAt_firstOf (readsAt_refuse _) ?_
  simp only [forall_mem_cons]
  -- one entry after the other, in the order in which they are tried
  exact ⟨readsWhere_sign, word, hp, word, other fun _ => rfl, other fun _ => rfl,
    hpa, readsWhere_textLiteral, hn, hnu, hb, readsWhere_temporalLiteral,
    other fun _ => rfl, refused _, refused _, ha, other fun _ => rfl, other fun _ => rfl,
    other fun _ => rfl, other fun _ => rfl, other fun _ => rfl, other fun _ => rfl,
    other fun _ => rfl, other fun _ => rfl, readsAt_columnRef.where, by simp⟩

theorem readsAt_simpleExpression : ReadsAt db 13 simpleExpression := by
  rintro ts trees rest ⟨_, middle, hba, ⟨-, right, -, rfl⟩ | ⟨rfl, rfl⟩⟩
  · obtain ⟨tree, rfl, ht⟩ := readsAt_simpleBase hba
    refine ⟨_, rfl, fun hb => ?_⟩
    obtain ⟨hn, hk⟩ := everyNode_spelled hb
    -- a collation comes after a node, not after a sign
    obtain ⟨term, hte, -⟩ := ht (hk tree (by simp))
    obtain ⟨rule, kids, rfl, -⟩ := hte.node
    exact absurd hn (by simp [isBasicNode, beginsWith, token?])
  · exact readsAt_simpleBase hba

theorem readsAt_disjunction : ReadsAt db 1 disjunction := by
  have ha : ReadsAt db 3 (logicalChain isAnd (.ref .negation)) := by
    refine readsAt_logicalChain .and (by decide) (readsAt_ref rfl) fun token ht _ => ⟨?_, rfl⟩
    rcases Bool.or_eq_true_iff.1 ht with hw | hs
    · rw [logical?, eq_of_beq hw]
    · rw [logical?, eq_of_beq hs]
  have hx : ReadsAt db 2 (logicalChain isXor (logicalChain isAnd (.ref .negation))) := by
    refine readsAt_logicalChain .or (by decide) ha fun token ht hx => ?_
    rw [isXor, hx] at ht
    cases ht
  refine readsAt_logicalChain .or (by decide) hx fun token ht _ => ⟨?_, rfl⟩
  rcases Bool.or_eq_true_iff.1 ht with hw | hs
  · rw [logical?, eq_of_beq hw]
  · rw [logical?, eq_of_beq hs]

/-! ### All names -/

/-- Each production is read as its name is, over the others. -/
theorem tellsName_production (name : Name) (ts : List Token) (trees : List Tree)
    (rest : List Token) (hr : (productions name).Derives (TellsName db) ts trees rest) :
    TellsName db name ts trees rest := by
  intro level h
  cases name with
  | expression =>
    cases h
    exact readsAt_disjunction hr
  | negation =>
    cases h
    exact readsAt_negation hr
  | predicate =>
    cases h
    exact readsAt_predicate hr
  | operand =>
    cases h
    exact readsAt_operand hr
  | simpleExpression =>
    cases h
    exact readsAt_simpleExpression hr
  | queryExpression => cases h
  | tableReferences => cases h

/-- A tree that is read as an expression somewhere in a text. -/
def IsExpression (tree : Tree) : Prop :=
  ∃ text before here rest fuel, ofText text = .ok (before ++ here) ∧
    read productions fuel expression here = .ok ([tree], rest)

/-- **A basic expression means a term that fits the ladder of operators.** -/
theorem exists_means (h : read productions fuel expression ts = .ok (trees, rest)) :
    ∃ tree, trees = [tree] ∧ Tells db 1 tree :=
  derives_of_read tellsName_production h 1 rfl

end SqlBridge.Grammar
