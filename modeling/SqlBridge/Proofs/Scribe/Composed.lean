/-
Functions that are written with operators, and whether the operators take their arguments as a
whole.

`CONCAT`, `MOD`, `ISNULL`, `LOCATE` from a place on, `GROUP_CONCAT` of several expressions and the
arithmetic of dates have no function of SQLite to call.  Their arguments are put beside operators as
they are, without parentheses.

* `Branch.Composes`: the arguments that are put beside an operator, and which.
* `Sql.Joins`: how such an argument stands in what is written.
* `Tree.whole_iff`: the operators take an argument as a whole exactly if it suits them.
-/
import SqlBridge.Proofs.Scribe.Heads
import SqlBridge.Proofs.Scribe.Written
import SqlBridge.Proofs.Sql.Operand

namespace SqlBridge

open Lexeme Scribe List

variable {lexeme : Lexeme} {name : String} {unit : Keyword}

/-! ### Operands in a stretch of SQL -/

theorem Lexeme.Whole.unique {other : Lexeme} {text : List Char} (h : lexeme.Whole text)
    (ho : other.Whole text) : other = lexeme := by
  cases text with
  | nil => cases h
  | cons first rest => exact Option.some.inj (ho.2.2.symm.trans h.2.2)

namespace Sql

variable {text part sql more p q a : Sql} {tokens : List Lexeme} {opening closing : String}
  {first last : Lexeme}

theorem Spells.of_append (h : Spells (sql ++ more) tokens) :
    ∃ left right, tokens = left ++ right ∧ sql.Spells left ∧ Spells more right := by
  rw [Spells, Piece.flatAll_append] at h
  exact ⟨_, _, (take_append_drop _ tokens).symm,
    (forall₂_take_append tokens _ _ h.flip).flip,
    (forall₂_drop_append tokens _ _ h.flip).flip⟩

theorem Spells.eq_of_raw (h : Spells [.raw opening] tokens) (hf : first.Whole opening.toList) :
    tokens = [first] := by
  obtain ⟨lexeme, _, hl, hr, rfl⟩ := forall₂_cons_left_iff.1 h
  cases forall₂_nil_left_iff.1 hr
  cases hl with
  | bare hw =>
    have hs : lexeme = first := hf.unique (by simpa [Piece.render] using hw)
    rw [hs]

/-- A part of some SQL is put between the operators of a joint: what stands around it, up to where
the expression ends. -/
def Joins (text part : Sql) (joint : Joint) (operand after : List Lexeme) : Prop :=
  part.Spells operand ∧ after.head? = joint.next? ∧ ∃ pre post,
    text.ReadsAs (pre ++ joint.before?.toList ++ operand ++ after ++ post) ∧
    (joint.before? = none → pre.getLast?.any isFence) ∧ post.head?.any isFence

/-- A part after a word that is an operator or where an expression begins, and before the end of the
expression. -/
theorem exists_joins {joint : Joint} (hr : text.ReadsAs tokens) (hf : Piece.flatAll text =
      Piece.flatAll (p ++ [Piece.raw opening] ++ part ++ a ++ [Piece.raw closing] ++ q))
    (ho : first.Whole opening.toList)
    (hb : joint.before? = some first ∨ joint.before? = none ∧ first.isFence)
    (hn : ∀ after, a.Spells after → after.head? = joint.next?)
    (hc : last.Whole closing.toList) (hl : last.isFence) :
    ∃ operand after, text.Joins part joint operand after := by
  obtain ⟨hs, hse⟩ := hr
  rw [Spells, hf] at hs
  obtain ⟨_, post, rfl, hs, -⟩ := Spells.of_append hs
  obtain ⟨_, end', rfl, hs, he⟩ := hs.of_append
  obtain ⟨_, after, rfl, hs, ha⟩ := hs.of_append
  obtain ⟨_, operand, rfl, hs, hop⟩ := hs.of_append
  obtain ⟨pre, begin', rfl, -, hbe⟩ := hs.of_append
  obtain rfl := he.eq_of_raw hc
  obtain rfl := hbe.eq_of_raw ho
  refine ⟨operand, after, hop, hn after ha, ?_⟩
  have hal : text.Spells (pre ++ [first] ++ operand ++ after ++ [last] ++ post) := by
    rw [Spells, hf]
    assumption
  rcases hb with hb | ⟨hb, hfe⟩
  · refine ⟨pre, last :: post, ?_, by simp [hb], hl⟩
    rw [hb]
    simpa using ReadsAs.mk hal hse
  · refine ⟨pre ++ [first], last :: post, ?_, fun _ => by simpa using hfe, hl⟩
    rw [hb]
    simpa using ReadsAs.mk hal hse

theorem separated_cons (sep : Piece) (first : Sql) (rest : List Sql) :
    separated sep (first :: rest) = first ++ rest.flatMap (sep :: ·) := by
  induction rest generalizing first with
  | nil => simp [separated, intercalate]
  | cons next rest ih =>
    have hn := ih next
    simp only [separated, intercalate, intersperse_cons_cons, flatten_cons] at hn ⊢
    rw [hn]
    simp

/-- A part in a row of parts with an operator between them. -/
theorem exists_joins_row {op : String} {before after : List Sql} (hr : text.ReadsAs tokens)
    (hf : Piece.flatAll text = Piece.flatAll (p ++ [Piece.raw opening] ++
      separated (.raw op) (before ++ part :: after) ++ [Piece.raw closing] ++ q))
    (ho : lexeme.Whole op.toList) (hop : first.Whole opening.toList)
    (hfi : first.isFence) (hc : last.Whole closing.toList)
    (hl : last.isFence) :
    ∃ operand rest, text.Joins part (.inRow lexeme before after) operand rest := by
  have hn : ∀ tokens, Spells (after.flatMap (.raw op :: ·)) tokens →
      tokens.head? = (Joint.inRow lexeme before after).next? := by
    intro tokens hs
    cases after with
    | nil => simpa [Joint.inRow] using forall₂_nil_left_iff.1 hs
    | cons next others =>
      rw [flatMap_cons, cons_append, ← singleton_append] at hs
      obtain ⟨_, _, rfl, hw, -⟩ := hs.of_append
      rw [hw.eq_of_raw ho]
      rfl
  cases before with
  | nil =>
    rw [nil_append, separated_cons] at hf
    refine exists_joins hr (p := p) (a := after.flatMap (.raw op :: ·)) (q := q) ?_ hop
      (.inr ⟨rfl, hfi⟩) hn hc hl
    simpa using hf
  | cons he others =>
    rw [cons_append, separated_cons] at hf
    refine exists_joins hr (p := p ++ [Piece.raw opening] ++ he ++ others.flatMap (.raw op :: ·))
      (a := after.flatMap (.raw op :: ·)) (q := q) ?_ ho (.inl rfl) hn hc hl
    simpa using hf

theorem whole_open : (symbol "(").Whole "(".toList := by decide

theorem whole_close : (symbol ")").Whole ")".toList := by decide

theorem whole_comma : (symbol ",").Whole ",".toList := by decide

theorem whole_bars : (symbol "||").Whole "||".toList := by decide

/-- A part in a row inside parentheses. -/
theorem exists_joins_group {op : String} {before after : List Sql} (hr : text.ReadsAs tokens)
    (ht : text = p ++ group (separated (.raw op) (before ++ part :: after)) ++ q)
    (ho : lexeme.Whole op.toList) :
    ∃ operand rest, text.Joins part (.inRow lexeme before after) operand rest := by
  have hf : Piece.flatAll text = Piece.flatAll (p ++ [Piece.raw "("] ++
      separated (.raw op) (before ++ part :: after) ++ [Piece.raw ")"] ++ q) := by
    rw [ht]
    simp [Piece.flatAll_append, group, Piece.flatAll, Piece.flat]
  exact exists_joins_row hr hf ho whole_open rfl whole_close rfl

/-- A call that is written. -/
theorem eq_of_call {args : List Sql} (h : call name args = .ok text) :
    text = .raw (Text.asciiUpper name) :: .raw "(" :: commaSeparated args ++ [Piece.raw ")"] := by
  unfold call at h
  dsimp only at h
  split at h
  · cases h
  · split at h
    · exact (Except.ok.inj h).symm
    · cases h

end Sql

/-! ### What is composed -/

/-- Where the amount of an interval is put: a number of weeks or of quarters is multiplied first. -/
def Joint.ofUnit (unit : Keyword) : Joint :=
  if unit = .WEEK ∨ unit = .QUARTER then ⟨none, some (.symbol "*")⟩
  else ⟨some (.symbol "||"), some (.symbol "||")⟩

def Tree.isCall (tree : Tree) : Bool :=
  tree.hasRule .functionCall || tree.hasRule .runtimeFunctionCall

/-- The amount of an interval, and its unit. -/
def Draft.HasAmount (interval amount : Draft) (unit : Keyword) : Prop :=
  (interval.branch.firstNode?.filter fun part => !part.tree.hasRule .intervalTimeStamp) =
    some amount ∧ interval.tree.unit? = some unit

/-- The arguments of a node that are put beside an operator, and between which. -/
inductive Branch.Composes (node : Branch) : Joint → Draft → Prop
  | concat {before after : List Draft} {argument : Draft} (hcall : node.tree.isCall)
      (hname : node.tree.functionName = "CONCAT")
      (harguments : node.arguments = before ++ argument :: after) :
      Composes node (.inRow (.symbol "||") before after) argument
  | mod {before after : List Draft} {argument : Draft} (hcall : node.tree.isCall)
      (hname : node.tree.functionName = "MOD")
      (harguments : node.arguments = before ++ argument :: after) :
      Composes node (.inRow (.symbol "%") before after) argument
  | isNull {argument : Draft} (hcall : node.tree.isCall)
      (hname : node.tree.functionName = "ISNULL") (harguments : node.arguments = [argument]) :
      Composes node ⟨none, some (.word "IS")⟩ argument
  | locate {needle haystack start : Draft} (hcall : node.tree.isCall)
      (hname : node.tree.functionName = "LOCATE")
      (harguments : node.arguments = [needle, haystack, start]) :
      Composes node ⟨some (.symbol "+"), some (.symbol "-")⟩ start
  | groupConcat {list argument : Draft} {before after : List Draft}
      (hrule : node.tree.hasRule .sumExpr) (hname : node.tree.functionName = "GROUP_CONCAT")
      (hstar : node.tree.hasSymbol .star = false) (hlist : node.child? .exprList = some list)
      (harguments : list.branch.nodes = before ++ argument :: after)
      (hseveral : before ++ after ≠ []) :
      Composes node (.inRow (.symbol "||") before after) argument
  | shift {date interval amount : Draft} {unit : Keyword} (hcall : node.tree.isCall)
      (hname : node.tree.functionName ∈ ["DATE_ADD", "ADDDATE", "DATE_SUB", "SUBDATE"])
      (harguments : node.arguments = [date, interval])
      (hinterval : interval.tree.hasRule .interval)
      (hamount : interval.HasAmount amount unit) :
      Composes node (.ofUnit unit) amount
  | shiftDays {date amount : Draft} (hcall : node.tree.isCall)
      (hname : node.tree.functionName ∈ ["ADDDATE", "SUBDATE"])
      (harguments : node.arguments = [date, amount])
      (hinterval : amount.tree.hasRule .interval = false) : Composes node (.ofUnit .DAY) amount
  | arithmetic {interval amount : Draft} {unit : Keyword}
      (hrule : node.tree.hasRule .bitExpr)
      (hinterval : node.child? .interval = some interval)
      (hamount : interval.HasAmount amount unit) :
      Composes node (.ofUnit unit) amount

/-- What is composed with a part that is written has it between the operators of a joint. -/
def Sql.Composed (joint : Joint) (argument : Draft) (text : Sql) : Prop :=
  ∃ part, argument.CanWrite part ∧ ∀ tokens, text.ReadsAs tokens →
    ∃ operand after, text.Joins part joint operand after

namespace Function

open Sql

variable {text : Sql}

theorem exists_joins_shifted {date amount : Sql} {subtract : Bool}
    (h : shifted date subtract amount unit = .ok text) {tokens : List Lexeme}
    (hr : text.ReadsAs tokens) :
    ∃ operand after, text.Joins amount (.ofUnit unit) operand after := by
  unfold shifted at h
  obtain ⟨⟨count, suffix⟩, hp, hca⟩ := Grammar.Phrase.bind_eq_ok h
  have ht := eq_of_call hca
  have hc : count = amount ∧ ¬(unit = .WEEK ∨ unit = .QUARTER) ∨
      (∃ factor, count = group (amount ++ [Piece.raw "*", .integer factor])) ∧
        (unit = .WEEK ∨ unit = .QUARTER) := by
    unfold intervalParts at hp
    split at hp
    case h_7 | h_8 =>
      cases hp
      exact .inr ⟨⟨_, rfl⟩, by simp⟩
    case h_9 => cases hp
    all_goals
      cases hp
      exact .inl ⟨rfl, by simp⟩
  generalize (if subtract then "-" else "+") = sign at ht
  rw [show Text.asciiUpper "DATETIME" = "DATETIME" by decide] at ht
  rcases hc with ⟨rfl, hu⟩ | ⟨⟨factor, rfl⟩, hu⟩
  · have hf : Piece.flatAll text = Piece.flatAll ((.raw "DATETIME" :: .raw "(" :: date) ++
        [Piece.raw ","] ++
          separated (.raw "||") ([[.string sign]] ++ count :: [[.string suffix]]) ++
        [Piece.raw ")"] ++ []) := by
      rw [ht]
      simp [commaSeparated, separated, concatenation, intercalate]
    rw [Joint.ofUnit, if_neg hu]
    exact exists_joins_row hr hf whole_bars whole_comma rfl whole_close rfl
  · have hs :
        text = (.raw "DATETIME" :: .raw "(" :: date ++ [Piece.raw ",", .string sign, .raw "||"]) ++
        group (separated (.raw "*") ([] ++ amount :: [[.integer factor]])) ++
        [Piece.raw "||", .string suffix, .raw ")"] := by
      rw [ht]
      simp [commaSeparated, separated, concatenation, intercalate, group]
    rw [Joint.ofUnit, if_pos hu]
    exact exists_joins_group hr hs (by decide)

theorem exists_joins_locateFrom {needle hay start : Sql}
    (h : locateFrom needle hay start = .ok text) {tokens : List Lexeme}
    (hr : text.ReadsAs tokens) :
    ∃ operand after, text.Joins start ⟨some (.symbol "+"), some (.symbol "-")⟩ operand after := by
  unfold locateFrom at h
  obtain ⟨_, -, h⟩ := Grammar.Phrase.bind_eq_ok h
  obtain ⟨found, -, h⟩ := Grammar.Phrase.bind_eq_ok h
  have ht :
      text = (words ["CASE", "WHEN"] ++ found ++ [Piece.raw ">", .integer 0, .raw "THEN"] ++
        found) ++
      [Piece.raw "+"] ++ start ++ [Piece.raw "-", .integer 1] ++ [Piece.raw "ELSE"] ++
        [.integer 0, .raw "END"] := by
    rw [← Except.ok.inj h]
    simp [Sql.word]
  have hm : (symbol "-").Whole "-".toList := by decide
  have hp : (symbol "+").Whole "+".toList := by decide
  have he : (Lexeme.word "ELSE").Whole "ELSE".toList := by decide
  refine exists_joins hr (congrArg Piece.flatAll ht) hp (.inl rfl) (fun after ha => ?_)
    he rfl
  rw [← singleton_append] at ha
  obtain ⟨_, _, rfl, hw, -⟩ := ha.of_append
  rw [hw.eq_of_raw hm]
  rfl

end Function

/-! ### What is written -/

/-- What stands in the place of one of several. -/
theorem exists_of_forall₂_append {α β : Type} {R : α → β → Prop} {before after : List α} {a : α}
    {others : List β} (h : List.Forall₂ R (before ++ a :: after) others) (op : Lexeme) :
    ∃ left b right, others = left ++ b :: right ∧ R a b ∧
      Joint.inRow op before after = .inRow op left right := by
  induction before generalizing others with
  | nil =>
    obtain ⟨b, right, hb, hr, rfl⟩ := forall₂_cons_left_iff.1 h
    refine ⟨[], b, right, rfl, hb, ?_⟩
    cases hr <;> rfl
  | cons first before ih =>
    obtain ⟨other, others, -, hre, rfl⟩ := forall₂_cons_left_iff.1 h
    obtain ⟨left, b, right, rfl, hb, hj⟩ := ih hre
    refine ⟨other :: left, b, right, rfl, hb, ?_⟩
    exact congrArg (Joint.mk (some op)) (congrArg Joint.next? hj)

namespace Draft

theorem yields_requiredAll (drafts : List Draft) :
    (requiredAll drafts).Yields (List.Forall₂ CanWrite drafts) := by
  induction drafts with
  | nil => exact results_pure .nil
  | cons draft rest ih =>
    refine results_bind draft.yields_canWrite fun sql hsq => ?_
    exact results_bind ih fun sqls hs => results_pure (.cons hsq hs)

end Draft

namespace Branch

open SqlBridge.Function Sql

variable {node : Branch} {joint : Joint} {argument : Draft}

/-- Functions on their arguments alone. -/
def plainNames : List String :=
  ["CONCAT", "MOD", "ISNULL", "LOCATE", "LEFT", "RIGHT", "SUBSTRING", "SUBSTR", "MID"]

/-- A call whose arguments are written first. -/
theorem functionCall_of_name (hn : node.tree.functionName = name)
    (hm : name ∈ plainNames) (db : String) :
    node.functionCall db = (do counterpart name (← Draft.requiredAll node.arguments)) := by
  unfold functionCall
  simp only [plainNames, mem_cons, not_mem_nil, or_false] at hm
  dsimp only
  rcases hm with rfl | rfl | rfl | rfl | rfl | rfl | rfl | rfl | rfl
  all_goals
    rw [hn]
    rfl

theorem yields_counterpart (hn : node.tree.functionName = name) (hm : name ∈ plainNames)
    (h : ∀ sqls, List.Forall₂ Draft.CanWrite node.arguments sqls →
      ∀ text, counterpart name sqls = .ok text → Composed joint argument text)
    (db : String) : (node.functionCall db).Yields (Composed joint argument) := by
  rw [functionCall_of_name hn hm]
  exact results_bind (Draft.yields_requiredAll _) fun sqls hs => yields_lift (h sqls hs)

theorem yields_shiftedBy {interval amount : Draft} (date : Sql) (subtract : Bool)
    (h : interval.HasAmount amount unit) :
    (shiftedBy date subtract interval).Yields (Composed (.ofUnit unit) amount) := by
  refine results_bind (results_part h.1) fun found hf => ?_
  subst found
  refine results_bind (results_part h.2) fun found hf => ?_
  subst found
  refine results_bind amount.yields_canWrite fun sql hs => yields_lift fun text ht => ?_
  exact ⟨sql, hs, fun tokens hr => exists_joins_shifted ht hr⟩

theorem yields_dateShiftCall {date amount : Draft} (ha : node.arguments = [date, argument])
    (h : argument.tree.hasRule .interval ∧ argument.HasAmount amount unit ∨
      argument.tree.hasRule .interval = false ∧ amount = argument ∧ unit = .DAY) :
    (node.dateShiftCall name).Yields (Composed (.ofUnit unit) amount) := by
  unfold dateShiftCall
  rw [ha]
  refine yields_then fun sql => ?_
  rcases h with ⟨hi, ham⟩ | ⟨hi, rfl, rfl⟩
  · rw [if_pos hi]
    exact yields_shiftedBy sql _ ham
  · rw [if_neg (by simp [hi])]
    split
    · refine results_bind amount.yields_canWrite fun count hc => yields_lift fun text ht => ?_
      exact ⟨count, hc, fun tokens hr => exists_joins_shifted ht hr⟩
    · exact results_throw trivial

theorem functionCall_of_shift (hn : node.tree.functionName = name)
    (hm : name ∈ ["DATE_ADD", "ADDDATE", "DATE_SUB", "SUBDATE"]) (db : String) :
    node.functionCall db = node.dateShiftCall name := by
  unfold functionCall
  simp only [mem_cons, not_mem_nil, or_false] at hm
  dsimp only
  rcases hm with rfl | rfl | rfl | rfl
  all_goals
    rw [hn]
    rfl

/-- A row of parts in parentheses, one of them an argument. -/
def Gathers (joint : Joint) (argument : Draft) (sql : Sql) : Prop :=
  ∃ left part right, sql = group (separated (.raw "||") (left ++ part :: right)) ∧
    argument.CanWrite part ∧ joint = .inRow (.symbol "||") left right

theorem Gathers.yields_call {operand p q : Sql} {args : List Sql}
    (h : Gathers joint argument operand) (ha : commaSeparated args = p ++ operand ++ q)
    (name : String) :
    (liftM (Sql.call name args) : Scribe Sql).Yields (Composed joint argument) := by
  obtain ⟨left, part, right, rfl, hp, rfl⟩ := h
  refine yields_lift fun text ht => ⟨part, hp, fun tokens hr => ?_⟩
  refine exists_joins_group hr (p := .raw (Text.asciiUpper name) :: .raw "(" :: p)
    (q := q ++ [Piece.raw ")"]) ?_ whole_bars
  rw [eq_of_call ht, ha]
  simp

theorem yields_aggregated {list : Draft} {before after : List Draft}
    (hst : node.tree.hasSymbol .star = false) (hli : node.child? .exprList = some list)
    (ha : list.branch.nodes = before ++ argument :: after) (hs : before ++ after ≠ []) :
    (node.aggregated "GROUP_CONCAT").Yields
      (Gathers (.inRow (.symbol "||") before after) argument) := by
  unfold aggregated
  rw [if_neg (by simp [hst])]
  refine results_bind (results_part hli) fun found hf => ?_
  subst found
  split
  · rename_i single hsi
    -- there is more than one
    have hl := congrArg length (ha.symm.trans hsi)
    simp only [length_append, length_cons, length_nil] at hl
    refine absurd ?_ hs
    rw [← length_eq_zero_iff, length_append]
    omega
  · refine results_bind (Draft.yields_requiredAll _) fun sqls hsq => results_pure ?_
    rw [ha] at hsq
    obtain ⟨left, part, right, rfl, hp, hj⟩ := exists_of_forall₂_append hsq (.symbol "||")
    exact ⟨left, part, right, rfl, hp, hj⟩

theorem yields_aggregate (hn : node.tree.functionName = "GROUP_CONCAT")
    (h : (node.aggregated "GROUP_CONCAT").Yields (Gathers joint argument)) :
    node.aggregate.Yields (Composed joint argument) := by
  unfold aggregate
  rw [hn]
  dsimp only
  split
  · exact results_bind (results_throw trivial) fun _ (hf : False) => hf.elim
  · refine results_bind h fun operand ho => ?_
    have hfi : (if node.tree.hasKeyword .DISTINCT then .raw "DISTINCT" :: operand
        else operand) = (if node.tree.hasKeyword .DISTINCT then [.raw "DISTINCT"] else []) ++
          operand := by
      split <;> rfl
    rw [hfi]
    generalize (if node.tree.hasKeyword .DISTINCT then [Piece.raw "DISTINCT"] else []) = p
    have hs : commaSeparated [p ++ operand] = p ++ operand ++ [] := by
      simp [commaSeparated, separated, intercalate]
    split
    · exact ho.yields_call hs _
    · exact ho.yields_call hs _
    · rename_i sep _ _
      split
      · exact results_throw trivial
      · have hb : commaSeparated [p ++ operand, [.string sep]] =
            p ++ operand ++ [Piece.raw ",", .string sep] := by
          simp [commaSeparated, separated, intercalate]
        exact ho.yields_call hb _

/-- What is written for a call. -/
theorem yields_call {expected : Sql → Prop} (hc : node.tree.isCall) {rule : Rule}
    {row : List Tree} (ht : node.tree = .node rule row) {db : String}
    (h : (node.functionCall db).Yields expected) :
    (node.write db rule).Yields fun sql? => ∀ sql ∈ sql?, expected sql := by
  have hw : (some <$> node.functionCall db : Scribe (Option Sql)).Yields
      fun sql? => ∀ sql ∈ sql?, expected sql := results_map h fun sql hs => by simpa using hs
  rw [Tree.isCall, ht, Tree.hasRule_node, Tree.hasRule_node, Bool.or_eq_true, decide_eq_true_eq,
    decide_eq_true_eq] at hc
  rcases hc with rfl | rfl
  · exact hw
  · exact hw

theorem Composes.exists_rule (h : node.Composes joint argument) :
    ∃ rule row, node.tree = .node rule row := by
  obtain ⟨rule, hr⟩ : ∃ rule, node.tree.hasRule rule := by
    cases h with
    | groupConcat hr | arithmetic hr => exact ⟨_, hr⟩
    | concat hc | mod hc | isNull hc | locate hc | shift hc | shiftDays hc =>
      exact (Bool.or_eq_true_iff.1 hc).elim (⟨_, ·⟩) (⟨_, ·⟩)
  exact ⟨rule, Tree.exists_of_hasRule hr⟩

/-- An argument beside an operator is put there as it is written on its own. -/
theorem Composes.yields_write (h : node.Composes joint argument) {rule : Rule} {row : List Tree}
    (ht : node.tree = .node rule row) (db : String) :
    (node.write db rule).Yields fun sql? => ∀ sql ∈ sql?, Composed joint argument sql := by
  cases h with
  | concat hc hn ha =>
    refine yields_call hc ht (yields_counterpart hn (by decide) (fun sqls hs text hte => ?_) _)
    rw [ha] at hs
    obtain ⟨left, part, right, rfl, hp, hj⟩ := exists_of_forall₂_append hs (.symbol "||")
    have hca : (if (left ++ part :: right).isEmpty then .error (Function.wrongCount _ _ _)
        else .ok (group (concatenation (left ++ part :: right))) : Except Error Sql) =
          .ok text := hte
    rw [if_neg (by simp)] at hca
    refine ⟨part, hp, fun tokens hr => ?_⟩
    rw [hj]
    refine exists_joins_group hr (p := []) (q := []) ?_ whole_bars
    rw [← Except.ok.inj hca]
    rfl
  | mod hc hn ha =>
    refine yields_call hc ht (yields_counterpart hn (by decide) (fun sqls hs text hte => ?_) _)
    rw [ha] at hs
    obtain ⟨left, part, right, hsp, hp, hj⟩ := exists_of_forall₂_append hs (.symbol "%")
    have hca : binary "MOD" sqls (fun a b => .ok (group (a ++ Sql.word "%" ++ b))) = .ok text := hte
    unfold binary at hca
    split at hca
    · refine ⟨part, hp, fun tokens hr => ?_⟩
      have hpe : (symbol "%").Whole "%".toList := by decide
      rw [hj]
      refine exists_joins_group hr (p := []) (q := []) ?_ hpe
      rw [← hsp, ← Except.ok.inj hca]
      simp [separated, List.intercalate, Sql.word]
    · cases hca
  | isNull hc hn ha =>
    refine yields_call hc ht (yields_counterpart hn (by decide) (fun sqls hs text hte => ?_) _)
    rw [ha] at hs
    obtain ⟨part, _, hp, hni, rfl⟩ := forall₂_cons_left_iff.1 hs
    cases hni
    have hca : (.ok (group (part ++ words ["IS", "NULL"])) : Except Error Sql) = .ok text := hte
    have hsq :
        text = [] ++ group (separated (.raw "IS") ([] ++ part :: [Sql.word "NULL"])) ++ [] := by
      rw [← Except.ok.inj hca]
      simp [separated, List.intercalate, Sql.word, words]
    exact ⟨part, hp, fun tokens hr => exists_joins_group hr hsq (by decide)⟩
  | locate hc hn ha =>
    refine yields_call hc ht (yields_counterpart hn (by decide) (fun sqls hs text hte => ?_) _)
    rw [ha] at hs
    obtain ⟨needle, _, -, ho, rfl⟩ := forall₂_cons_left_iff.1 hs
    obtain ⟨hay, _, -, hl, rfl⟩ := forall₂_cons_left_iff.1 ho
    obtain ⟨start, _, hst, hni, rfl⟩ := forall₂_cons_left_iff.1 hl
    cases hni
    exact ⟨start, hst, fun tokens hr => exists_joins_locateFrom hte hr⟩
  | groupConcat hru hn hsta hli ha hse =>
    obtain rfl : rule = .sumExpr := by simpa [ht] using hru
    exact results_map (yields_aggregate hn (yields_aggregated hsta hli ha hse))
      fun sql hsq => by simpa using hsq
  | shift hc hn ha hi ham =>
    refine yields_call hc ht ?_
    rw [functionCall_of_shift rfl hn]
    exact yields_dateShiftCall ha (.inl ⟨hi, ham⟩)
  | shiftDays hc hn ha hi =>
    refine yields_call hc ht ?_
    have hm : node.tree.functionName ∈ ["DATE_ADD", "ADDDATE", "DATE_SUB", "SUBDATE"] := by
      simp only [mem_cons, not_mem_nil, or_false] at hn ⊢
      tauto
    rw [functionCall_of_shift rfl hm]
    exact yields_dateShiftCall ha (.inr ⟨hi, rfl, rfl⟩)
  | arithmetic hru hi ham =>
    obtain rfl : rule = .bitExpr := by simpa [ht] using hru
    refine results_map (?_ : node.arithmetic.Yields (Composed _ argument)) fun sql hsq => by
      simpa using hsq
    unfold Branch.arithmetic
    rw [hi]
    have hsh (subtract : Bool) : (do
        let date ← Scribe.part "date arithmetic" "a date" node.firstNode?
        shiftedBy (← date.required) subtract _ : Scribe Sql).Yields (Composed _ argument) :=
      yields_then fun date => yields_then fun sql => yields_shiftedBy sql subtract ham
    refine yields_then fun op => ?_
    dsimp only
    split
    all_goals exact yields_then hsh

end Branch

/-- **Which arguments stay whole.**  An argument that is put beside an operator is taken as its
operand exactly if it suits the place: if, outside of parentheses and of `CASE`, it has no operator
that binds looser than the one beside it, nor one that binds alike if it stands on the right. -/
theorem Tree.whole_iff {sql : String} {query call : Tree} (hparse : Grammar.parse sql = .ok query)
    (hcall : call ∈ query.descendants) {database : String} {text : Sql}
    (hwritten : call.CanWrite database text) {joint : Joint} {argument : Draft}
    (hcomposes : (Draft.ofTree database call).branch.Composes joint argument) :
    ∃ part operand after, argument.CanWrite part ∧ text.Joins part joint operand after ∧
      (joint.Whole operand after ↔ joint.Suits operand) := by
  obtain ⟨rule, row, htree⟩ := hcomposes.exists_rule
  obtain rfl : call = .node rule row := (Draft.tree_ofTree database call).symm.trans htree
  obtain ⟨seen, hrun⟩ := hwritten
  have hends := (Draft.proper_of_mem hparse hcall database).write seen
  rw [hrun, Draft.tree_ofTree] at hends
  obtain ⟨tokens, hread, -⟩ := (hends.even text rfl).exists_readsAs
  obtain ⟨part, hpart, hjoins⟩ := (hcomposes.yields_write rfl database).of_run hrun text rfl
  obtain ⟨operand, after, hjoins⟩ := hjoins tokens hread
  exact ⟨part, operand, after, hpart, hjoins, Joint.whole_iff_suits hjoins.2.1⟩

/-- A product before the operator of `MOD`, which binds alike. -/
theorem Tree.whole_iff_product :
    let joint : Joint := ⟨none, some (.symbol "%")⟩
    ∃ query call text argument part operand after,
      Grammar.parse "SELECT MOD(a * b, c)" = .ok query ∧ call ∈ query.descendants ∧
      call.CanWrite "wp" text ∧ (Draft.ofTree "wp" call).branch.Composes joint argument ∧
      argument.CanWrite part ∧ text.Joins part joint operand after ∧
      (joint.Whole operand after ↔ joint.Suits operand) := by
  intro joint
  have hread : (do
      let query ← (Grammar.parse "SELECT MOD(a * b, c)").toOption
      let call ← query.descendants.find? fun tree => tree.isCall && tree.functionName == "MOD"
      let text ← ((call.write "wp").runFrom {}).1.toOption.join.filter fun _ =>
        (Draft.ofTree "wp" call).branch.arguments.length == 2
      return (query, call, text) : Option _).isSome = true := by decide +kernel
  obtain ⟨_, hfound⟩ := Option.isSome_iff_exists.1 hread
  simp only [Option.bind_eq_bind, Option.bind_eq_some_iff, toOption_eq_some,
    Option.join_eq_some_iff, Option.filter_eq_some_iff, beq_iff_eq] at hfound
  obtain ⟨query, hparse, call, hcall, text, ⟨htext, harguments⟩, -⟩ := hfound
  have hmem := List.mem_of_find?_eq_some hcall
  have hwritten : call.CanWrite "wp" text := ⟨{}, htext⟩
  have hfound := List.find?_some hcall
  rw [← Draft.tree_ofTree "wp" call, Bool.and_eq_true, beq_iff_eq] at hfound
  obtain ⟨argument, other, hpair⟩ := List.length_eq_two.1 harguments
  have hcomposes : (Draft.ofTree "wp" call).branch.Composes joint argument :=
    @Branch.Composes.mod _ [] [other] argument hfound.1 hfound.2 hpair
  obtain ⟨part, operand, after, h⟩ := Tree.whole_iff hparse hmem hwritten hcomposes
  exact ⟨query, call, text, argument, part, operand, after, hparse, hmem, hwritten, hcomposes, h⟩

/-- A sum before the operator of `MOD` is split: only its last operand is taken. -/
theorem Tree.mod_of_sum_split :
    let operand : List Lexeme := [.quoted .double "a", .symbol "+", .quoted .double "b"]
    let after : List Lexeme := [.symbol "%", .quoted .double "c"]
    (∃ query sql, Grammar.parse "SELECT MOD(a + b, c)" = .ok query ∧ query.CanWrite "wp" sql ∧
      Lexer.lexemes? sql.render =
        some ([Lexeme.word "SELECT", .symbol "("] ++ operand ++ after ++ [Lexeme.symbol ")"])) ∧
      leftOperand? operand (.symbol "%") = some [.quoted .double "b"] ∧
      ¬(Joint.mk none (some (.symbol "%"))).Whole operand after := by
  intro operand after
  have hread : (do
      let query ← (Grammar.parse "SELECT MOD(a + b, c)").toOption
      let sql ← ((query.write "wp").runFrom {}).1.toOption.join.filter fun sql =>
        Lexer.lexemes? sql.render ==
          some ([Lexeme.word "SELECT", .symbol "("] ++ operand ++ after ++ [Lexeme.symbol ")"])
      return (query, sql) : Option _).isSome = true := by decide +kernel
  obtain ⟨_, hfound⟩ := Option.isSome_iff_exists.1 hread
  simp only [Option.bind_eq_bind, Option.bind_eq_some_iff, toOption_eq_some,
    Option.join_eq_some_iff, Option.filter_eq_some_iff, beq_iff_eq] at hfound
  obtain ⟨query, hparse, sql, ⟨hsql, htokens⟩, -⟩ := hfound
  exact ⟨⟨query, sql, hparse, ⟨{}, hsql⟩, htokens⟩, by decide, by decide⟩

end SqlBridge
