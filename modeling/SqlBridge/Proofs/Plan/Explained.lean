/-
What is explained is what is carried out.

The SQL of a whole tree and the plan of its statement come about in two ways.  For a statement that
is one statement of SQLite, or that begins with one, they are the same computation: it fails alike,
meets the same features for counting found rows, and its text is the first statement of the plan.

* `Scribe.bind_congr_results`: steps that agree on what the computation before them returns.
* `Tree.write_query`: the text of a query is that of its statement.
* `Plan.first_ofStatement`: the first statement of a plan, by the kind of the statement.
* `Plan.first_eq_written`: the plan and the text of a statement that can be read.
-/
import SqlBridge.Proofs.Plan.Heads
import SqlBridge.Proofs.Plan.Mirrored

namespace SqlBridge

open Scribe List SqlBridge.Tree

variable {α β : Type} {bad : Error → Prop} {db : String} {rule : Rule} {stmt : Tree}

/-- Whether a statement is carried out as it is written, up to what comes after it: it has no order
and no limit as an update or deletion, and drops one index or table. -/
def Tree.isDirect (stmt : Tree) : Bool :=
  match stmt.rule? with
  | some .selectStatement | some .insertStatement | some .replaceStatement
  | some .createStatement => true
  | some .updateStatement | some .deleteStatement =>
    !(stmt.hasChild .orderClause || stmt.hasChild .limitClause)
  | some .dropStatement => stmt.hasChild .dropIndex ||
    ((stmt.child? .dropTable).bind (·.child? .tableRefList)).any fun tables =>
      (tables.childrenBy .tableRef).length == 1
  | _ => false

/-! ### Computations that agree -/

/-- A step may be replaced by one that agrees with it on what the computation before it returns. -/
theorem Scribe.bind_congr_results {scribe : Scribe α} {want : α → Prop} {next other : α → Scribe β}
    (h : scribe.Results bad want) (hn : ∀ a, want a → next a = other a) :
    scribe >>= next = scribe >>= other := by
  funext seen
  have hs := h seen
  show (scribe >>= next).runFrom seen = (scribe >>= other).runFrom seen
  rw [runFrom_bind, runFrom_bind]
  rcases hr : scribe.runFrom seen with ⟨_ | a, after⟩
  · rfl
  · rw [hr] at hs
    exact congrArg (runFrom · after) (hn a hs)

theorem Scribe.outcome_map (f : α → β) (scribe : Scribe α) :
    (f <$> scribe).outcome = (scribe.outcome.1.map f, scribe.outcome.2) := by
  rw [map_eq_pure_bind]
  show (scribe >>= fun a => pure (f a)).runFrom {} = _
  rw [runFrom_bind]
  show _ = ((scribe.runFrom {}).1.map f, (scribe.runFrom {}).2)
  rcases scribe.runFrom {} with ⟨_ | _, _⟩ <;> rfl

/-! ### The text of a query -/

/-- What is required of a draft is all that it is written as, if it is never left out. -/
theorem Draft.Proper.write_eq {draft : Draft} (h : draft.Proper bad) (hr : draft.tree.hasRule rule)
    (hw : rule.isWritten) : draft.write = some <$> draft.required := by
  obtain ⟨kids, ht⟩ := exists_of_hasRule hr
  rw [Draft.required, map_bind]
  refine (bind_pure _).symm.trans (bind_congr_results h.write fun sql? hs => ?_)
  rw [ht] at hs
  obtain ⟨sql, hsome, -⟩ := NodeReads.written hs hw
  obtain rfl : sql? = some sql := hsome
  rfl

/-- Parts of which only the first is written. -/
theorem Draft.sequence_cons {first : Draft} {rest : List Draft} {scribe : Scribe Sql}
    (hf : first.write = some <$> scribe) (hs : scribe.Results bad (· ≠ []))
    (hr : ∀ part ∈ rest, part.write = pure none) :
    Draft.sequence (first :: rest) = some <$> scribe := by
  have hrest : writeEach Draft.sql rest = pure [] := by
    clear hf hs
    induction rest with
    | nil => rfl
    | cons part rest ih =>
      rw [forall_mem_cons] at hr
      rw [writeEach, ih hr.2, Draft.sql, hr.1]
      rfl
  have he : scribe >>= (fun sql => pure (if sql.isEmpty then none else some sql)) =
      scribe >>= fun sql => pure (some sql) := by
    refine bind_congr_results hs fun sql hne => ?_
    rw [if_neg (by simpa using hne)]
  rw [map_eq_pure_bind, ← he]
  simp [Draft.sequence, writeEach, hrest, Draft.sql, hf]

theorem Tree.exists_rule_of_isDirect (h : stmt.isDirect) :
    ∃ rule, stmt.hasRule rule ∧ rule.isWritten := by
  cases stmt with
  | leaf token => cases h
  | node rule row =>
    refine ⟨rule, by simp, ?_⟩
    unfold isDirect at h
    split at h
    all_goals rename_i hr; first | (cases hr; rfl) | cases h

/-- The text of a query is that of its statement. -/
theorem Tree.write_query {others : List Tree} (hp : (Draft.ofTree db stmt).Proper bad)
    (hd : stmt.isDirect) (ho : ∀ other ∈ others, ∃ tok, other = .leaf tok ∧
      (tok.isSymbol .semicolon ∨ tok.isEnding)) :
    (node .query (.node .simpleStatement [stmt] :: others)).write db =
      some <$> (Draft.ofTree db stmt).required := by
  obtain ⟨rule, hr, hw⟩ := exists_rule_of_isDirect hd
  have ht : (Draft.ofTree db stmt).tree.hasRule rule := by rwa [Draft.tree_ofTree]
  have hne : (Draft.ofTree db stmt).required.Results bad (· ≠ []) :=
    (hp.required_rule ht hw).mono fun _ hs => hs.ne_nil
  have hsimple : (Draft.ofTree db (.node .simpleStatement [stmt])).write =
      some <$> (Draft.ofTree db stmt).required :=
    Draft.sequence_cons (hp.write_eq ht hw) hne fun _ hm => (by cases hm)
  show Draft.sequence
    (Draft.ofTree db (.node .simpleStatement [stmt]) :: Draft.ofTrees db others) = _
  refine Draft.sequence_cons hsimple hne ?_
  rw [Draft.ofTrees_eq_map, forall_mem_map]
  intro other hm
  obtain ⟨tok, rfl, ht⟩ := ho other hm
  show tok.sql = pure none
  rcases ht with ht | ht
  · rw [Token.sql, eq_of_beq ht]
    rfl
  · rw [Token.sql, eq_of_beq ht]

/-! ### The first statement of a plan -/

namespace Plan

/-- A table is dropped by the text of its statement. -/
theorem first_dropTables {verb drop ref : Tree} (hp : (Draft.ofTree db drop).Proper bad)
    (hv : verb.hasKind (.keyword .DROP)) (hd : drop.hasRule .dropTable)
    {tables : Tree} (ht : drop.child? .tableRefList = some tables)
    (hr : tables.childrenBy .tableRef = [ref]) :
    firstText? <$> dropTables (Draft.ofTree db drop) =
      (some ·.render) <$> (Draft.ofTree db (.node .dropStatement [verb, drop])).required := by
  obtain ⟨row, rfl⟩ := exists_of_hasRule hd
  have hm : ref ∈ tables.childrenBy .tableRef := by simp [hr]
  obtain ⟨below, rfl⟩ := exists_of_hasRule (mem_filter.1 hm).2
  have href := (hp.child (mem_of_find?_eq_some ht)).child (mem_filter.1 hm).1
  obtain ⟨name, hn⟩ : ∃ name, (node .tableRef below).lastName? = some name :=
    exists_lastName (Rule.isIn_of_admitsQualified (href.branch.demand rfl rfl))
  obtain ⟨mode, hmode⟩ : ∃ mode : List String,
      mode = if (node .dropTable row).hasChild .ifExists then ["IF", "EXISTS"] else [] :=
        ⟨_, rfl⟩
  have hdrop : (Draft.ofTree db (.node .dropTable row)).write =
      (fun sql => some (Sql.words ("TABLE" :: mode) ++ sql)) <$>
        (Draft.ofTree db (.node .tableRef below)).required := by
    show some <$> (Draft.ofTree db (.node .dropTable row)).branch.dropTable = _
    rw [Branch.dropTable, Branch.need, Draft.child?_ofTree, ht, Option.map_some, pure_bind,
      Draft.childrenBy_ofTree, hr, hmode]
    show some <$> ((Draft.ofTree db (.node .tableRef below)).required >>= _) = _
    rw [map_bind]
    rfl
  have hs : (Draft.ofTree db (.node .dropStatement [verb, .node .dropTable row])).required =
      (fun sql => Sql.words (["DROP", "TABLE"] ++ mode) ++ sql) <$>
        (Draft.ofTree db (.node .tableRef below)).required := by
    rw [Draft.required, Draft.write_ofTree]
    show Draft.sequence [Draft.ofTree db verb, Draft.ofTree db (.node .dropTable row)] >>= _ = _
    simp only [Draft.sequence, Draft.writeEach, Draft.sql, Draft.write_keyword hv rfl, hdrop,
      pure_bind, bind_assoc, bind_map_left, append_nil, Option.getD_some]
    rfl
  rw [hs, hmode, dropTables, Draft.child?_ofTree, ht]
  simp only [Option.map_some, Draft.childrenBy_ofTree, hr, map_cons, map_nil, dropSteps,
    Draft.tree_ofTree, hn, part, pure_bind, bind_assoc, map_bind, map_pure, Functor.map_map]
  rfl

/-- The first statement of a plan is what the statement is written as. -/
theorem first_ofStatement (hp : (Draft.ofTree db stmt).Proper bad) (hd : stmt.isDirect) :
    firstText? <$> ofStatement db (Draft.ofTree db stmt) =
      (some ·.render) <$> (Draft.ofTree db stmt).required := by
  have hsingle (verb : Verb) : firstText? <$> (do
      return single verb (Draft.ofTree db stmt).tree (← (Draft.ofTree db stmt).required) :
        Scribe Plan) = (some ·.render) <$> (Draft.ofTree db stmt).required := by
    rw [map_bind]
    rfl
  cases stmt with
  | leaf token => cases hd
  | node rule row =>
    unfold isDirect at hd
    split at hd
    all_goals rename_i hr; try cases hr
    · exact hsingle .select
    · exact hsingle .insert
    · exact hsingle .replace
    · exact hp.first_create rfl db
    all_goals try rw [Bool.not_eq_true'] at hd
    · show firstText? <$> (do return single .update _ (← limited db _) : Scribe Plan) = _
      rw [limited, if_neg (by simp [hd, Draft.branch])]
      exact hsingle .update
    · show firstText? <$> (do return single .delete _ (← limited db _) : Scribe Plan) = _
      rw [limited, if_neg (by simp [hd, Draft.branch])]
      exact hsingle .delete
    · show firstText? <$> drop (Draft.ofTree db (.node .dropStatement row)) = _
      unfold drop
      split
      · rename_i part hc
        obtain ⟨hpart, hi⟩ := hp.branch.child hc
        exact hpart.first_dropIndex hi
      · rename_i hn
        rw [Draft.child?_ofTree, Option.map_eq_none_iff] at hn
        rw [hasChild, hn, Option.isSome_none, Bool.false_or, Option.any_eq_true] at hd
        obtain ⟨tables, ht, hl⟩ := hd
        obtain ⟨drop, hf, hlist⟩ := Option.bind_eq_some_iff.1 ht
        obtain ⟨ref, href⟩ := length_eq_one_iff.1 (eq_of_beq hl)
        obtain ⟨verb, rfl, hv⟩ := hp.eq_of_child? rfl hf
        rw [Draft.child?_ofTree, hf]
        exact first_dropTables (hp.child (by simp [children])) hv (find?_some hf) hlist href
    · cases hd

end Plan

/-- **What is explained is what is carried out.**  For a statement that is carried out as it is
written, the plan has a first statement and the whole tree a text, and they are the same; or both
fail, with the same error.  In all cases the same features for counting found rows are met. -/
theorem Plan.first_eq_written {sql : String} {query : Tree} (hparse : Grammar.parse sql = .ok query)
    (hstmt : (query.child? .simpleStatement).bind firstNode? = some stmt)
    (hdirect : stmt.isDirect = true) (database : String) :
    let planned := (Plan.ofTree database query).outcome
    let written := (query.write database).outcome
    planned.1.map firstText? = written.1.map (·.map Sql.render) ∧ planned.2 = written.2 ∧
      ∀ plan, planned.1 = .ok plan → plan.firstText?.isSome := by
  intro planned written
  obtain ⟨found, others, hs, rfl, ho⟩ := Grammar.exists_statement_of_parse hparse
  have hnode : found.isNode = true := by cases hs <;> rfl
  obtain rfl : found = stmt := by
    have hf : (Tree.node .simpleStatement [found]).firstNode? = some stmt := hstmt
    simpa [firstNode?, Tree.children, hnode] using hf
  have hp : (Draft.ofTree database found).Proper fun _ => True := Draft.proper_statement hparse
  have hfirst := congrArg Scribe.outcome (first_ofStatement hp hdirect)
  have hwritten := congrArg (fun scribe => (Option.map Sql.render <$> scribe).outcome)
    (write_query hp hdirect ho)
  rw [Functor.map_map] at hwritten
  rw [← ofTree_query database hnode others, outcome_map, outcome_map] at hfirst
  rw [outcome_map, outcome_map] at hwritten
  obtain ⟨ho, hsame⟩ := Prod.mk.inj hfirst
  obtain ⟨hwo, hwsame⟩ := Prod.mk.inj hwritten
  refine ⟨ho.trans hwo.symm, hsame.trans hwsame.symm, fun plan hplan => ?_⟩
  rw [hplan] at ho
  cases hsql : (Draft.ofTree database found).required.outcome.1 with
  | error error =>
    rw [hsql] at ho
    cases ho
  | ok sql =>
    rw [hsql] at ho
    rw [Except.ok.inj ho]
    rfl

/-- A table with an index: the plan goes on after the statement. -/
theorem Plan.first_eq_written_createTable :
    ∃ query stmt, Grammar.parse "CREATE TABLE t (a INT, KEY (a))" = .ok query ∧
      (query.child? .simpleStatement).bind firstNode? = some stmt ∧ stmt.isDirect = true ∧
      (Plan.ofTree "db" query).outcome.1.map firstText? =
        (query.write "db").outcome.1.map (·.map Sql.render) := by
  have hread : (do
      let query ← (Grammar.parse "CREATE TABLE t (a INT, KEY (a))").toOption
      let stmt ← (query.child? .simpleStatement).bind firstNode?
      return stmt.isDirect : Option Bool) = some true := by decide +kernel
  simp only [Option.bind_eq_bind, Option.bind_eq_some_iff, toOption_eq_some] at hread
  obtain ⟨query, hparse, stmt, hstmt, hdirect⟩ := hread
  have hstmt := Option.bind_eq_some_iff.2 hstmt
  have hdirect : stmt.isDirect = true := Option.some.inj hdirect
  exact ⟨query, stmt, hparse, hstmt, hdirect,
    (Plan.first_eq_written hparse hstmt hdirect "db").1⟩

end SqlBridge
