/-
Updates and deletions with an order or a limit.

SQLite has neither on these statements, so the rows are selected by row id first.

* `Tree.filters`: the clauses that say which rows a statement touches.
* `Grammar.endsInFilters_of_parse`: a statement has each of them at most once, and in the order of a
  query.
* `RowFilters.perm_filter_rowid`: the rows whose row ids the query selects are the rows to touch.
* `Plan.limited_touches`: the plan of a limited statement, and the rows it touches.
-/
import Mathlib.Data.List.Nodup
import Mathlib.Data.List.Perm.Subperm
import SqlBridge.Proofs.Plan.Agreement
import SqlBridge.Proofs.Plan.Heads
import SqlBridge.Proofs.Scribe.Definition

namespace SqlBridge

open Scribe List

/-! ### Clauses -/

namespace Tree

/-- The clauses that say which rows a statement touches, in the order in which a query has them. -/
def filters (statement : Tree) : List Tree :=
  (statement.child? .whereClause).toList ++ (statement.child? .orderClause).toList ++
    (statement.child? .limitClause).toList

/-- The table of a limited statement, with its alias. -/
def targets (statement : Tree) : List Tree :=
  if statement.hasRule .updateStatement then (statement.child? .tableReferenceList).toList
  else (statement.child? .tableRef).toList ++ (statement.child? .tableAlias).toList

/-- Children that end in the clauses that say which rows a statement touches. -/
def EndsInFilters (row : List Tree) : Prop :=
  ∃ before conditions orders limits, row = before ++ (conditions ++ (orders ++ limits)) ∧
    before.all (!Plan.isFilter ·) ∧
    (conditions = [] ∨ ∃ below, conditions = [.node .whereClause below]) ∧
    (orders = [] ∨ ∃ below, orders = [.node .orderClause below]) ∧
    (limits = [] ∨ ∃ below, limits = [.node .limitClause below])

theorem EndsInFilters.append {before row : List Tree} (hb : before.all (!Plan.isFilter ·))
    (h : EndsInFilters row) : EndsInFilters (before ++ row) := by
  obtain ⟨others, conditions, orders, limits, rfl, ho, hc⟩ := h
  exact ⟨before ++ others, conditions, orders, limits, by simp, by simp [hb, ho], hc⟩

/-- The clauses of a statement stand in the order in which a query has them. -/
theorem EndsInFilters.filter_eq {rule : Rule} {row : List Tree} (h : EndsInFilters row) :
    row.filter Plan.isFilter = (node rule row).filters := by
  obtain ⟨before, conditions, orders, limits, rfl, hb, hco, ho, hl⟩ := h
  have hn : before.filter Plan.isFilter = [] := by
    rw [filter_eq_nil_iff]
    intro child hc
    simpa using all_eq_true.1 hb child hc
  have hf {rule : Rule} (hr : ∀ tree : Tree, tree.hasRule rule → Plan.isFilter tree)
      (rest : List Tree) : (before ++ rest).find? (hasRule rule) = rest.find? (hasRule rule) := by
    refine find?_append.trans ?_
    have hm : before.find? (hasRule rule) = none := by
      rw [find?_eq_none]
      intro child hc hh
      have hk := all_eq_true.1 hb child hc
      simp [hr child hh] at hk
    rw [hm, Option.none_or]
  rw [filter_append, hn, filters, child?, child?, child?, children,
    hf (by simp +contextual [Plan.isFilter]), hf (by simp +contextual [Plan.isFilter]),
    hf (by simp +contextual [Plan.isFilter])]
  rcases hco with rfl | ⟨_, rfl⟩ <;> rcases ho with rfl | ⟨_, rfl⟩ <;>
    rcases hl with rfl | ⟨_, rfl⟩ <;> simp [Plan.isFilter]

end Tree

namespace Grammar

open Phrase SqlBridge.Tree

variable {known : Known} {ts rest : List Token} {tree : Tree}

theorem endsInFilters_clauses :
    (Phrase.row [optionalWhere, optionalOrder, optionalLimit]).Each known
    fun row _ => EndsInFilters row := by
  have hw : optionalWhere.Each known fun trees _ =>
      trees = [] ∨ ∃ below, trees = [.node .whereClause below] :=
    ⟨fun below => .inr ⟨below, rfl⟩, .inl rfl⟩
  have ho (known : Known) : optionalOrder.Each known fun trees _ =>
      trees = [] ∨ ∃ below, trees = [.node .orderClause below] :=
    ⟨fun below => .inr ⟨below, rfl⟩, .inl rfl⟩
  have hl (known : Known) : optionalLimit.Each known fun trees _ =>
      trees = [] ∨ ∃ below, trees = [.node .limitClause below] :=
    ⟨fun below => .inr ⟨below, rfl⟩, .inl rfl⟩
  exact hw.imp fun conditions after hc => (ho after).imp fun orders after hor => (hl after).imp
    fun limits _ hli => ⟨[], conditions, orders, limits, rfl, rfl, hc, hor, hli⟩

/-- A part that is none of the clauses, before others. -/
theorem endsInFilters_cons {phrase next : Phrase} {parts : List Phrase}
    (hp : phrase.Each known fun trees _ => trees.all (!Plan.isFilter ·))
    (hr : ∀ known, (Phrase.row (next :: parts)).Each known fun row _ => EndsInFilters row) :
    (Phrase.row (phrase :: next :: parts)).Each known fun row _ => EndsInFilters row :=
  hp.imp fun _ after hl => (hr after).imp fun _ _ => EndsInFilters.append hl

theorem endsInFilters_of_derives {rule : Rule} {parts : List Phrase}
    (h : (Phrase.row parts).Each .any fun row _ => EndsInFilters row)
    (hd : (make rule parts).Derives IsCovered ts [tree] rest) : EndsInFilters tree.children := by
  obtain ⟨row, hr, ht⟩ := hd
  obtain rfl : tree = .node rule row := by simpa using ht
  obtain ⟨-, -, he⟩ := h.of_derives trivial hr
  exact he

theorem endsInFilters_updateStatement (h : updateStatement.Derives IsCovered ts [tree] rest) :
    EndsInFilters tree.children := by
  refine endsInFilters_of_derives (endsInFilters_cons ?_ fun _ => endsInFilters_cons ?_ fun _ =>
    endsInFilters_cons ?_ fun _ => endsInFilters_cons ?_ fun _ => endsInFilters_cons ?_ fun _ =>
    endsInFilters_cons ?_ fun _ => endsInFilters_clauses) h
  all_goals simp [optionalKeyword, Plan.isFilter]

theorem endsInFilters_deleteStatement (h : deleteStatement.Derives IsCovered ts [tree] rest) :
    EndsInFilters tree.children := by
  refine endsInFilters_of_derives (endsInFilters_cons ?_ fun _ => endsInFilters_cons ?_ fun _ =>
    endsInFilters_cons ?_ fun _ => endsInFilters_cons ?_ fun _ => endsInFilters_cons ?_ fun _ =>
    endsInFilters_cons ?_ fun _ => endsInFilters_clauses) h
  all_goals simp [Plan.isFilter, Phrase.unsupported]

/-- The rows that an update or a deletion touches are told by the clauses at its end. -/
theorem endsInFilters_of_parse {text : String} {stmt : Tree} {others : List Tree}
    (hp : parse text = .ok (.node .query (.node .simpleStatement [stmt] :: others)))
    (hk : stmt.hasRule .updateStatement ∨ stmt.hasRule .deleteStatement) :
    EndsInFilters stmt.children := by
  obtain ⟨ts, -, h⟩ := bind_eq_ok hp
  obtain ⟨⟨trees, rest⟩, hr, h⟩ := bind_eq_ok h
  obtain ⟨_, ⟨_, _, _, ⟨row, hs, rfl⟩, -, rfl⟩, rfl⟩ := derives_productions hr
  obtain rfl : row = [stmt] := by
    cases h
    rfl
  rcases derives_firstOf hs with hn | ⟨entry, he, -, hm⟩
  · exact hn.elim
  have ho {rule : Rule} {parts : List Phrase} {rest : List Token}
      (hm : (make rule parts).Derives IsCovered ts [stmt] rest)
      (hru : rule ≠ .updateStatement ∧ rule ≠ .deleteStatement) : EndsInFilters stmt.children := by
    obtain ⟨row, -, ht⟩ := hm
    obtain rfl : stmt = .node rule row := by simpa using ht
    simp [hru] at hk
  simp only [mem_cons, not_mem_nil, or_false] at he
  rcases he with rfl | rfl | rfl | rfl | rfl | rfl | rfl | rfl | rfl
  case inr.inr.inr.inr.inl => exact endsInFilters_updateStatement hm
  case inr.inr.inr.inr.inr.inl => exact endsInFilters_deleteStatement hm
  all_goals exact ho hm (by decide)

end Grammar

/-! ### Rows -/

/-- What the clauses of a statement mean for rows: those that `WHERE` keeps, which of two comes
first by `ORDER BY`, and the window of `LIMIT`. -/
structure RowFilters (ρ : Type) where
  holds : ρ → Bool
  precedes : ρ → ρ → Bool
  offset : Nat
  count : Nat

namespace RowFilters

variable {ρ : Type} {filters : RowFilters ρ} {rows picked : List ρ} {stmt : Tree}

/-- The rows that a clause of a query leaves. -/
def apply (filters : RowFilters ρ) (rows : List ρ) (clause : Tree) : List ρ :=
  if clause.hasRule .whereClause then rows.filter filters.holds
  else if clause.hasRule .orderClause then rows.mergeSort filters.precedes
  else if clause.hasRule .limitClause then (rows.drop filters.offset).take filters.count
  else rows

/-- The rows of a query with some clauses. -/
def select (filters : RowFilters ρ) (clauses : List Tree) (rows : List ρ) : List ρ :=
  clauses.foldl filters.apply rows

/-- The rows that a statement touches: those that satisfy its condition, sorted by its order, and of
these the window of its limit. -/
def touched (filters : RowFilters ρ) (statement : Tree) (rows : List ρ) : List ρ :=
  let kept := if statement.hasChild .whereClause then rows.filter filters.holds else rows
  let sorted := if statement.hasChild .orderClause then kept.mergeSort filters.precedes else kept
  if statement.hasChild .limitClause then (sorted.drop filters.offset).take filters.count else
    sorted

/-- A clause that a statement may have. -/
theorem foldl_clause {rule : Rule} {step : List ρ → List ρ}
    (h : ∀ below rows, filters.apply rows (.node rule below) = step rows) :
    (stmt.child? rule).toList.foldl filters.apply rows =
      if stmt.hasChild rule then step rows else rows := by
  rw [Tree.hasChild]
  cases hc : stmt.child? rule with
  | none => rfl
  | some clause =>
    obtain ⟨below, rfl⟩ := Tree.exists_of_hasRule (find?_some hc)
    exact h below rows

/-- A query with the clauses of a statement has the rows that the statement touches. -/
theorem select_filters (filters : RowFilters ρ) (stmt : Tree) (rows : List ρ) :
    filters.select stmt.filters rows = filters.touched stmt rows := by
  have hw : (stmt.child? .whereClause).toList.foldl filters.apply rows =
      if stmt.hasChild .whereClause then rows.filter filters.holds else rows :=
    foldl_clause fun _ _ => rfl
  have ho (kept : List ρ) : (stmt.child? .orderClause).toList.foldl filters.apply kept =
      if stmt.hasChild .orderClause then kept.mergeSort filters.precedes else kept := by
    let step : List ρ → List ρ := fun kept => kept.mergeSort filters.precedes
    have hs : ∀ below rows, filters.apply rows (.node .orderClause below) = step rows :=
      fun _ _ => rfl
    exact foldl_clause hs
  have hl (sorted : List ρ) : (stmt.child? .limitClause).toList.foldl filters.apply sorted =
      if stmt.hasChild .limitClause then (sorted.drop filters.offset).take filters.count
      else sorted := by
    let step : List ρ → List ρ := fun sorted => (sorted.drop filters.offset).take filters.count
    have hs : ∀ below rows, filters.apply rows (.node .limitClause below) = step rows :=
      fun _ _ => rfl
    exact foldl_clause hs
  rw [select, Tree.filters, foldl_append, foldl_append, hw, ho, hl]
  rfl

/-- Clauses choose among the rows. -/
theorem subperm_touched (filters : RowFilters ρ) (stmt : Tree) (rows : List ρ) :
    (filters.touched stmt rows).Subperm rows := by
  have hw (sorted : List ρ) :
      ((sorted.drop filters.offset).take filters.count).Subperm sorted :=
    ((take_sublist _ _).trans (drop_sublist _ _)).subperm
  have hk : (if stmt.hasChild .whereClause then rows.filter filters.holds else rows).Subperm
      rows := by
    split
    · exact filter_sublist.subperm
    · exact .refl rows
  have hs (kept : List ρ) : (if stmt.hasChild .orderClause then kept.mergeSort filters.precedes
      else kept).Subperm kept := by
    split
    · exact (mergeSort_perm kept _).subperm
    · exact .refl kept
  unfold touched
  extract_lets kept sorted
  split
  · exact (hw sorted).trans ((hs kept).trans hk)
  · exact (hs kept).trans hk

/-- Rows with row ids of their own are told by them. -/
theorem perm_filter_rowid {rowid : ρ → Int} (hro : (rows.map rowid).Nodup)
    (hp : picked.Subperm rows) :
    (rows.filter fun row => (picked.map rowid).contains (rowid row)).Perm picked := by
  have hn : rows.Nodup := List.Nodup.of_map rowid hro
  have hd : picked.Nodup := by
    obtain ⟨chosen, hpe, hsu⟩ := hp
    exact hpe.nodup_iff.1 (hsu.nodup hn)
  refine (perm_ext_iff_of_nodup (hn.filter _) hd).2 fun row => ?_
  rw [mem_filter, contains_iff_mem, mem_map]
  constructor
  · rintro ⟨hr, other, ho, heq⟩
    -- two rows with one row id are one row
    have hs : other = row := inj_on_of_nodup_map hro (hp.subset ho) hr heq
    exact hs ▸ ho
  · exact fun hr => ⟨hp.subset hr, row, hr, rfl⟩

end RowFilters

/-! ### Plans -/

namespace Draft

variable {db : String} {stmt : Tree}

/-- Trees one after the other that must stand for something. -/
theorem yields_writeEach_required (db : String) (trees : List Tree) :
    (writeEach required (trees.map (ofTree db))).Yields fun sql =>
      ∃ parts, List.Forall₂ (Tree.CanWrite db) trees parts ∧ sql = parts.flatten := by
  induction trees with
  | nil => exact results_pure ⟨[], .nil, rfl⟩
  | cons tree rest ih =>
    refine results_bind (yields_canWrite _) fun sql hs => ?_
    refine results_bind ih ?_
    rintro _ ⟨parts, hp, rfl⟩
    exact results_pure ⟨sql :: parts, .cons hs hp, rfl⟩

theorem yields_limitedFilters (db : String) (stmt : Tree) :
    (Plan.limitedFilters (ofTree db stmt).branch).Yields fun sql =>
      ∃ parts, List.Forall₂ (Tree.CanWrite db) stmt.filters parts ∧ sql = parts.flatten := by
  have hd : Plan.limitedFilters (ofTree db stmt).branch =
      writeEach required (stmt.filters.map (ofTree db)) := by
    simp only [Plan.limitedFilters, child?_ofTree, Tree.filters, map_append, Option.toList_map]
  rw [hd]
  exact yields_writeEach_required db _

theorem yields_limitedTarget (db : String) (stmt : Tree) :
    (Plan.limitedTarget (ofTree db stmt).branch).Yields fun sql =>
      ∃ parts, List.Forall₂ (Tree.CanWrite db) stmt.targets parts ∧ sql = parts.flatten := by
  have ht : (ofTree db stmt).branch.tree = stmt := tree_ofTree db stmt
  unfold Plan.limitedTarget Tree.targets
  rw [ht, child?_ofTree, child?_ofTree, child?_ofTree]
  split
  · cases stmt.child? .tableReferenceList with
    | none => exact results_throw trivial
    | some tables =>
      exact (yields_canWrite _).mono fun sql hs => ⟨[sql], .cons hs .nil, by simp⟩
  · cases stmt.child? .tableRef with
    | none => exact results_throw trivial
    | some table =>
      refine results_bind (results_pure rfl) ?_
      rintro _ rfl
      refine results_bind (yields_canWrite _) fun sql hs => ?_
      cases stmt.child? .tableAlias with
      | none => exact results_pure ⟨[sql], .cons hs .nil, by simp⟩
      | some name =>
        refine results_bind (yields_canWrite _) fun more hm => ?_
        exact results_pure ⟨[sql, more], .cons hs (.cons hm .nil), by simp⟩

/-- A limited statement: its head, and the rows whose ids a query with its clauses selects. -/
def IsLimited (database : String) (statement : Tree) (sql : Sql) : Prop :=
  ∃ he targets filters, (Plan.withoutFilters statement).CanWrite database he ∧
    List.Forall₂ (Tree.CanWrite database) statement.targets targets ∧
    List.Forall₂ (Tree.CanWrite database) statement.filters filters ∧
    sql = he ++ [Piece.raw "WHERE", .raw "rowid", .raw "IN",
      .group (Sql.words ["SELECT", "rowid", "FROM"] ++ targets.flatten ++ filters.flatten)]

theorem yields_limited (h : stmt.hasChild .orderClause || stmt.hasChild .limitClause) :
    (Plan.limited db (ofTree db stmt)).Yields (IsLimited db stmt) := by
  have htr : (ofTree db stmt).branch.tree = stmt := tree_ofTree db stmt
  unfold Plan.limited
  dsimp only
  rw [htr, if_pos h]
  refine results_bind (yields_canWrite _) fun he hh => ?_
  refine results_bind (yields_limitedTarget db stmt) ?_
  rintro _ ⟨targets, ht, rfl⟩
  refine results_bind (yields_limitedFilters db stmt) ?_
  rintro _ ⟨filters, hf, rfl⟩
  exact results_pure ⟨he, targets, filters, hh, ht, hf, rfl⟩

/-- The plan of an update or a deletion is one statement. -/
theorem yields_ofStatement {want : Sql → Prop}
    (hk : stmt.hasRule .updateStatement ∨ stmt.hasRule .deleteStatement)
    (h : (Plan.limited db (ofTree db stmt)).Yields want) :
    (Plan.ofStatement db (ofTree db stmt)).Yields fun plan =>
      ∃ sql, want sql ∧ plan.steps = [{ statements := [sql.render] }] := by
  have hs (verb : Verb) : (do
      return Plan.single verb stmt (← Plan.limited db (ofTree db stmt)) :
        Scribe Plan).Yields fun plan =>
      ∃ sql, want sql ∧ plan.steps = [{ statements := [sql.render] }] :=
    results_bind h fun sql hsq => results_pure ⟨sql, hsq, rfl⟩
  rcases hk with hu | hd
  · obtain ⟨row, rfl⟩ := Tree.exists_of_hasRule hu
    exact hs .update
  · obtain ⟨row, rfl⟩ := Tree.exists_of_hasRule hd
    exact hs .delete

end Draft

/-- **The plan of a limited update or deletion is one statement: its head without the clauses that
say which rows it touches, and these rows by the ids that a query of its table with just these
clauses selects.  Whatever the clauses mean, the rows are those that the statement touches.** -/
theorem Plan.limited_touches {text database : String} {statement : Tree} {others : List Tree}
    (hparse : Grammar.parse text =
      .ok (.node .query (.node .simpleStatement [statement] :: others)))
    (hkind : statement.hasRule .updateStatement = true ∨ statement.hasRule .deleteStatement = true)
    (hlimited : (statement.hasChild .orderClause || statement.hasChild .limitClause) = true)
    {plan : Plan} (hplan : (Plan.ofTree database
      (.node .query (.node .simpleStatement [statement] :: others))).outcome.1 = .ok plan) :
    (∃ head targets filters, (withoutFilters statement).CanWrite database head ∧
      List.Forall₂ (Tree.CanWrite database) statement.targets targets ∧
      List.Forall₂ (Tree.CanWrite database) statement.filters filters ∧
      plan.steps = [{ statements :=
        [Sql.render (head ++ [Piece.raw "WHERE", .raw "rowid", .raw "IN",
        .group (Sql.words ["SELECT", "rowid", "FROM"] ++ targets.flatten ++ filters.flatten)])]
          }]) ∧
    statement.children.filter isFilter = statement.filters ∧
    (withoutFilters statement).children = statement.children.filter (!isFilter ·) ∧
    ∀ (ρ : Type) (rowid : ρ → Int) (rows : List ρ), (rows.map rowid).Nodup →
      ∀ meaning : RowFilters ρ,
        (rows.filter fun row =>
          ((meaning.select statement.filters rows).map rowid).contains (rowid row)).Perm
          (meaning.touched statement rows) := by
  have hends := Grammar.endsInFilters_of_parse hparse hkind
  obtain ⟨rule, row, rfl⟩ : ∃ rule row, statement = .node rule row := by
    cases statement with
    | leaf token => simp at hkind
    | node rule row => exact ⟨rule, row, rfl⟩
  refine ⟨?_, hends.filter_eq, ?_, fun ρ rowid rows hrows meaning => ?_⟩
  · rw [ofTree_query database rfl others] at hplan
    obtain ⟨_, ⟨head, targets, filters, hhead, htargets, hfilters, rfl⟩, hsteps⟩ :=
      (Draft.yields_ofStatement hkind (Draft.yields_limited hlimited)).of_ok hplan
    exact ⟨head, targets, filters, hhead, htargets, hfilters, hsteps⟩
  · have hadmitted := Grammar.admitted_of_parse hparse
    rw [Tree.withoutFilters_node fun child hchild => hadmitted child ?_]
    · rfl
    · simp only [Tree.descendants, Tree.descendantsOfAll, List.mem_cons, List.mem_append]
      exact .inr (.inr (.inl (.inr (.inl (Tree.mem_descendantsOfAll.2 ⟨child, hchild, by simp⟩)))))
  · rw [meaning.select_filters]
    exact RowFilters.perm_filter_rowid hrows (meaning.subperm_touched _ rows)

/-- `DELETE FROM t AS x WHERE a ORDER BY b LIMIT 1` -/
def limitedDeletion : Tree :=
  let nameAt (name : String) (position : Nat) : Tree :=
    .node .identifier [.leaf ⟨.identifier, name, position⟩]
  .node .deleteStatement [.leaf ⟨.keyword .DELETE, "DELETE", 0⟩, .leaf ⟨.keyword .FROM, "FROM", 7⟩,
    .node .tableRef [nameAt "t" 12],
    .node .tableAlias [.leaf ⟨.keyword .AS, "AS", 14⟩, nameAt "x" 17],
    .node .whereClause [.leaf ⟨.keyword .WHERE, "WHERE", 19⟩, .node .columnRef [nameAt "a" 25]],
    .node .orderClause [.leaf ⟨.keyword .ORDER, "ORDER", 27⟩, .leaf ⟨.keyword .BY, "BY", 33⟩,
      .node .orderList [.node .orderExpression [.node .columnRef [nameAt "b" 36]]]],
    .node .limitClause [.leaf ⟨.keyword .LIMIT, "LIMIT", 38⟩,
      .node .limitOptions [.node .limitOption [.leaf ⟨.integer, "1", 44⟩]]]]

theorem Plan.limited_touches_deletion :
    Grammar.parse "DELETE FROM t AS x WHERE a ORDER BY b LIMIT 1" =
        .ok (.node .query [.node .simpleStatement [limitedDeletion], .leaf ⟨.ending, "", 45⟩]) ∧
      limitedDeletion.filters.map Tree.rule? =
        [some .whereClause, some .orderClause, some .limitClause] ∧
      ∃ plan, (Plan.ofTree "wp" (.node .query [.node .simpleStatement [limitedDeletion],
          .leaf ⟨.ending, "", 45⟩])).outcome.1 = .ok plan ∧
        plan.steps.map Step.statements = [["DELETE FROM \"t\" AS \"x\" WHERE rowid IN " ++
          "(SELECT rowid FROM \"t\" AS \"x\" WHERE \"a\" ORDER BY \"b\" ASC LIMIT 1)"]] ∧
        ∀ meaning : RowFilters Int, ([7, 5, 6].filter fun row =>
          ((meaning.select limitedDeletion.filters [7, 5, 6]).map id).contains row).Perm
          (meaning.touched limitedDeletion [7, 5, 6]) := by
  have hparse : Grammar.parse "DELETE FROM t AS x WHERE a ORDER BY b LIMIT 1" =
      .ok (.node .query [.node .simpleStatement [limitedDeletion], .leaf ⟨.ending, "", 45⟩]) := by
    with_unfolding_all rfl
  obtain ⟨plan, hplan, hstatements⟩ : ∃ plan, (Plan.ofTree "wp" (.node .query
      [.node .simpleStatement [limitedDeletion], .leaf ⟨.ending, "", 45⟩])).outcome.1 = .ok plan ∧
      plan.steps.map Step.statements = [["DELETE FROM \"t\" AS \"x\" WHERE rowid IN " ++
        "(SELECT rowid FROM \"t\" AS \"x\" WHERE \"a\" ORDER BY \"b\" ASC LIMIT 1)"]] :=
    ⟨_, rfl, by decide +kernel⟩
  refine ⟨hparse, rfl, plan, hplan, hstatements, fun meaning => ?_⟩
  exact (limited_touches hparse (.inr rfl) rfl hplan).2.2.2 Int id [7, 5, 6] (by decide) meaning

end SqlBridge
