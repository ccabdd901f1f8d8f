/-
Statements about a table of another database.

The name of a table is written with its qualifier, unless that is the name of the one database.  The
statements that create and drop a table take it from there; those that change a table or make an
index of it, and the catalog, take the last name alone.

* `Plan.Addresses`: a plan names a table with its qualifier, and leaves the catalog's table of the
  same last name alone.
* `Tree.leavesNoTrace`: the definitions for which nothing is recorded.
* `Plan.addresses_iff`: for a table of another database, these are the ones that address it.
-/
import SqlBridge.Proofs.Plan.Mirrored

namespace SqlBridge

open Scribe List Draft

variable {faulty : Error → Prop} {db : String}

/-! ### Tables of a plan -/

/-- A plan that names a table with its qualifier, and changes nothing in the catalog's table of the
same last name. -/
structure Plan.Addresses (plan : Plan) (schema table : String) : Prop where
  statements :
    ∀ step ∈ plan.steps, ∀ text ∈ step.statements, ∀ path, Sql.subject? text = some path →
    path.getLast? = some table → path = [schema, table]
  changes : ∀ step ∈ plan.steps, ∀ change ∈ step.change, change.table? ≠ some table

/-! ### Definitions -/

namespace Tree

/-- What a query creates, changes or drops. -/
def definition? (query : Tree) : Option Tree :=
  (query.child? .simpleStatement).bind fun simple =>
    [(Rule.createStatement, Rule.createIndex), (.createStatement, .createTable),
      (.alterStatement, .alterTable), (.dropStatement, .dropIndex),
      (.dropStatement, .dropTable)].findSome? fun kind =>
        (simple.child? kind.1).bind (·.child? kind.2)

/-- The tables that a definition is about. -/
def subjects (definition : Tree) : List Tree :=
  if definition.hasRule .createTable then (definition.child? .tableName).toList
  else if definition.hasRule .dropTable then
    (definition.child? .tableRefList).toList.flatMap (·.childrenBy .tableRef)
  else (definition.child? .tableRef).toList

/-- Whether nothing is recorded for a definition, and no index made: a table that the catalog does
not record, or options of a table. -/
def leavesNoTrace (definition : Tree) : Bool :=
  if definition.hasRule .createTable then
    !definition.isRecorded && (definition.child? .tableElementList).all fun elements =>
      (Index.ofElements elements).all (·.kind == .primary)
  else definition.hasRule .alterTable &&
    (definition.child? .alterList).all fun list => (list.childrenBy .alterListItem).isEmpty

/-- A table with a qualifier. -/
def names (table : Tree) : List String := (table.childrenBy .identifier).map nameText

theorem lastName?_of_names {named : Tree} {schema table : String}
    (h : named.names = [schema, table]) : named.lastName? = some table := by
  have hl : named.lastName? = named.names.getLast? := (getLast?_map ..).symm
  rw [hl, h]
  rfl

theorem tablePath_of_names {named : Tree} {schema table : String}
    (h : named.names = [schema, table]) (hs : Text.equalsIgnoringCase schema db = false) :
    named.tablePath db = [schema, table] := by
  have hn : (named.childrenBy .identifier).map nameText = [schema, table] := h
  rw [tablePath, hn]
  simp [hs]

end Tree

/-! ### Changes of the catalog -/

/-- What holds of every right member of a relation. -/
theorem forall_of_forall₂ {α β : Type} {as : List α} {bs : List β} {expected : β → Prop}
    (h : List.Forall₂ (fun _ b => expected b) as bs) : ∀ b ∈ bs, expected b := by
  induction h with
  | nil => simp
  | cons hf _ ih => exact forall_mem_cons.2 ⟨hf, ih⟩

namespace Plan

theorem changesTable_changing {sql : Sql} {change : CatalogChange} {table : String}
    (h : change.table? = some table) : (changing sql change).ChangesTable table := ⟨change, rfl, h⟩

/-- Some step changes a table. -/
def ChangesTable (table : String) (steps : List Step) : Prop :=
  ∃ step ∈ steps, step.ChangesTable table

theorem not_addresses {plan : Plan} {schema table : String} (h : ChangesTable table plan.steps) :
    ¬ plan.Addresses schema table := by
  obtain ⟨step, hs, change, hc, ht⟩ := h
  exact fun ha => ha.changes step hs change hc ht

variable {table : String}

/-- An `ALTER TABLE` changes the table, or has no actions and does nothing. -/
theorem changes_alter {stmt defn : Tree} (hr : stmt.hasRule .alterStatement)
    (hd : stmt.child? .alterTable = some defn)
    (ht : (defn.child? .tableRef).bind Tree.lastName? = some table) :
    (ofStatement db (Draft.ofTree db stmt)).Yields fun plan =>
      if (defn.child? .alterList).all fun list => (list.childrenBy .alterListItem).isEmpty then
        plan.steps = [] else ChangesTable table plan.steps := by
  obtain ⟨row, rfl⟩ := Tree.exists_of_hasRule hr
  show (alter _).Yields _
  have hp : (Draft.ofTree db (.node .alterStatement row)).branch.child? .alterTable =
      some (Draft.ofTree db defn) := by
    rw [child?_ofTree, hd]
    rfl
  refine results_bind (results_part hp) fun draft hdr => ?_
  subst draft
  rw [tree_ofTree, child?_ofTree]
  refine results_bind (results_part ht) fun found hf => ?_
  subst found
  cases hl : defn.child? .alterList with
  | none => exact results_pure rfl
  | some list =>
    simp only [Option.map_some, Option.all_some, childrenBy_ofTree, List.isEmpty_iff]
    by_cases hi : list.childrenBy .alterListItem = []
    · rw [hi]
      exact results_pure rfl
    · simp only [if_neg hi]
      refine results_bind (yields_alterActions _) fun steps hs => results_pure ?_
      obtain ⟨step, hm, ha⟩ := hs.2 (by simpa using hi)
      exact ⟨step, hm, ha.2⟩

theorem changes_createIndex {stmt create : Tree} (hr : stmt.hasRule .createStatement)
    (hc : stmt.child? .createIndex = some create)
    (ht : (create.child? .tableRef).bind Tree.lastName? = some table) :
    (ofStatement db (Draft.ofTree db stmt)).Yields fun plan =>
      ChangesTable table plan.steps := by
  obtain ⟨row, rfl⟩ := Tree.exists_of_hasRule hr
  show (Plan.create db _).Yields _
  unfold Plan.create
  rw [child?_ofTree, hc]
  dsimp only [Option.map_some]
  unfold createIndex
  rw [tree_ofTree]
  refine results_bind (results_part ht) fun found hf => ?_
  subst found
  exact yields_then fun _ => yields_then fun _ => results_pure
    ⟨_, mem_singleton_self _, changesTable_changing rfl⟩

theorem changes_dropIndex {stmt drop : Tree} (hr : stmt.hasRule .dropStatement)
    (hd : stmt.child? .dropIndex = some drop)
    (ht : (drop.child? .tableRef).bind Tree.lastName? = some table) :
    (ofStatement db (Draft.ofTree db stmt)).Yields fun plan =>
      ChangesTable table plan.steps := by
  obtain ⟨row, rfl⟩ := Tree.exists_of_hasRule hr
  show (Plan.drop _).Yields _
  unfold Plan.drop
  rw [child?_ofTree, hd]
  dsimp only [Option.map_some]
  unfold dropIndex
  rw [tree_ofTree]
  refine results_bind (results_part ht) fun found hf => ?_
  subst found
  exact yields_then fun _ => yields_then fun _ => results_pure
    ⟨_, mem_singleton_self _, changesTable_changing rfl⟩

theorem changes_dropSteps (ifExists : Bool) {references : List Draft} {reference : Draft}
    (hr : reference ∈ references) (ht : reference.tree.lastName? = some table) :
    (dropSteps ifExists references).Yields fun steps =>
      ChangesTable table (steps.map Prod.snd) := by
  induction references with
  | nil => cases hr
  | cons first rest ih =>
    unfold dropSteps
    rcases mem_cons.1 hr with rfl | hre
    · refine results_bind (results_part ht) ?_
      rintro _ rfl
      exact yields_then fun _ => yields_then fun _ => results_pure
        ⟨_, mem_cons_self, changesTable_changing rfl⟩
    · refine yields_then fun _ => yields_then fun _ => results_bind (ih hre) fun steps hs => ?_
      obtain ⟨step, hm, hst⟩ := hs
      exact results_pure ⟨step, mem_cons_of_mem _ hm, hst⟩

theorem changes_dropTables {stmt drop tables reference : Tree}
    (hru : stmt.hasRule .dropStatement) (hi : stmt.child? .dropIndex = none)
    (hd : stmt.child? .dropTable = some drop)
    (ht : drop.child? .tableRefList = some tables)
    (hr : reference ∈ tables.childrenBy .tableRef) (hta : reference.lastName? = some table) :
    (ofStatement db (Draft.ofTree db stmt)).Yields fun plan =>
      ChangesTable table plan.steps := by
  obtain ⟨row, rfl⟩ := Tree.exists_of_hasRule hru
  show (Plan.drop _).Yields _
  unfold Plan.drop
  rw [child?_ofTree, hi]
  dsimp only [Option.map_none]
  rw [child?_ofTree, hd]
  refine results_bind (results_part rfl) fun draft hdr => ?_
  subst draft
  unfold dropTables
  rw [child?_ofTree, ht]
  have hm : Draft.ofTree db reference ∈
      (Draft.ofTree db tables).branch.childrenBy .tableRef := by
    rw [childrenBy_ofTree]
    exact mem_map_of_mem hr
  exact results_bind (changes_dropSteps _ hm (by rwa [tree_ofTree])) fun steps hs =>
    results_pure hs

/-! ### Tables that are created -/

/-- The statements that create a table and its indexes, and the tables that they are about. -/
theorem results_subjects {verb create named : Tree}
    (hp : (Draft.ofTree db (.node .createStatement [verb, create])).Proper faulty)
    (hv : verb.hasKind (.keyword .CREATE)) (hcr : create.hasRule .createTable)
    (hn : create.child? .tableName = some named) (ht : named.lastName? = some table) :
    (ofStatement db (Draft.ofTree db (.node .createStatement [verb, create]))).Results
      faulty fun plan => ∃ text others,
        plan.steps = [⟨text :: others, some (.createTable create)⟩] ∧
        Sql.subject? text = some (named.tablePath db) ∧
        (∀ other ∈ others, Sql.subject? other = some [table]) ∧
        (others = [] ↔ (create.child? .tableElementList).all
          (fun elems => (Index.ofElements elems).all (·.kind == .primary))) := by
  have hc : (Draft.ofTree db create).Proper faulty := hp.child (by simp [Tree.children])
  have hna : (create.child? .tableName).bind Tree.lastName? = some table := by rw [hn]; exact ht
  rw [ofStatement_createTable hv hcr]
  unfold createTable
  rw [tree_ofTree]
  refine results_bind (results_part hna) fun found hf => ?_
  subst found
  refine results_bind (results_subject hp hv hcr hn) fun sql hs => ?_
  cases hel : create.child? .tableElementList with
  | none =>
    refine results_bind (results_pure rfl) ?_
    rintro _ rfl
    exact results_pure ⟨_, _, rfl, hs, by simp, by simp⟩
  | some elems =>
    have he := hc.child (mem_of_find?_eq_some hel)
    have hin : ∀ index ∈ Index.ofElements elems,
        (Branch.indexDefinition table index.name index.isUnique
          (Draft.ofTree db index.keys)).Results
          faulty fun sql => Sql.subject? (Sql.render (.raw "CREATE" :: sql)) = some [table] := by
      intro index hi
      obtain ⟨constraint, hco⟩ := Index.exists_constraint (Index.forall₂_ofElements he) index hi
      exact Branch.results_subject (find?_some hco.keys)
        (proper_keys he index hi) table index.name index.isUnique
    have hte : (indexStatements db table (Index.ofElements elems)).Results faulty
        (List.Forall₂ (fun _ text => Sql.subject? text = some [table])
          ((Index.ofElements elems).filter (·.kind != .primary))) := results_indexTexts hin
    refine results_bind hte fun others ho => results_pure ⟨_, _, rfl, hs, ?_, ?_⟩
    · exact forall_of_forall₂ ho
    · rw [← length_eq_zero_iff, ← ho.length_eq, length_eq_zero_iff,
        filter_eq_nil_iff]
      simp [bne]

/-! ### Statements about a table of another database -/

theorem not_addresses_of_yields {scribe : Scribe Plan} {plan : Plan} {schema : String}
    (h : scribe.Yields fun plan => ChangesTable table plan.steps)
    (hp : scribe.outcome.1 = .ok plan) :
    ¬ plan.Addresses schema table := not_addresses (h.of_ok hp)

/-- Where a table is created, its own statement is the only one with the qualifier. -/
theorem addresses_createTable {plan : Plan} {schema text : String} {others : List String}
    {create : Tree} (hn : (create.child? .tableName).bind Tree.lastName? = some table)
    (hst : plan.steps = [⟨text :: others, some (.createTable create)⟩])
    (hte : Sql.subject? text = some [schema, table])
    (ho : ∀ other ∈ others, Sql.subject? other = some [table]) :
    plan.Addresses schema table ↔ create.isRecorded = false ∧ others = [] := by
  have ht : (CatalogChange.createTable create).table? = some table ↔ create.isRecorded := by
    rw [CatalogChange.table?]
    split <;> simp_all
  constructor
  · rintro ⟨hs, hc⟩
    rw [hst] at hs hc
    have hch := hc _ (mem_singleton_self _) _ rfl
    refine ⟨by simpa [ht] using hch, ?_⟩
    by_contra hne
    obtain ⟨other, rest, rfl⟩ := exists_cons_of_ne_nil hne
    have hp := hs _ (mem_singleton_self _) other (by simp) [table]
      (ho other mem_cons_self) rfl
    cases hp
  · rintro ⟨hr, rfl⟩
    refine ⟨?_, ?_⟩
    · simp [hst, hte]
    · simp [hst, ht, hr]

end Plan

/-- A table of another database is addressed only where nothing is recorded.  The statements that
create, change and drop tables and indexes name a table with its qualifier, and leave the catalog's
table of the same name alone, exactly for a table that the catalog does not record and that has no
index of its own, and for an `ALTER TABLE` without actions. -/
theorem Plan.addresses_iff {sql schema table : String} {query definition named : Tree} {plan : Plan}
    (hparse : Grammar.parse sql = .ok query) (hdefinition : query.definition? = some definition)
    (hnamed : named ∈ definition.subjects) (hnames : named.names = [schema, table])
    (hschema : Text.equalsIgnoringCase schema database = false)
    (hplan : (Plan.ofTree database query).outcome.1 = .ok plan) :
    plan.Addresses schema table ↔ definition.leavesNoTrace = true := by
  have hlast := Tree.lastName?_of_names hnames
  obtain ⟨statement, others, hstatement, rfl⟩ := Grammar.isStatement_of_parse hparse
  have hdraft : (Draft.ofTree database statement).Proper fun _ => True :=
    Draft.proper_statement hparse
  rw [ofTree_query database (by cases hstatement <;> rfl)] at hplan
  -- the statement is of one of five kinds, and the definition is its part
  obtain ⟨⟨verb, part⟩, hkind, hfound⟩ := List.exists_of_findSome?_eq_some hdefinition
  obtain ⟨found, hchild, hpart⟩ := Option.bind_eq_some_iff.1 hfound
  obtain ⟨hrule, rfl⟩ : statement.hasRule verb = true ∧ statement = found := by
    have hmem := List.mem_of_find?_eq_some hchild
    obtain rfl := List.mem_singleton.1 hmem
    exact ⟨List.find?_some hchild, rfl⟩
  have hnamedBy {rule : Rule} (hsubjects : definition.subjects = (definition.child? rule).toList) :
      (definition.child? rule).bind Tree.lastName? = some table := by
    rw [hsubjects, Option.mem_toList] at hnamed
    rw [hnamed, Option.bind_some, hlast]
  have hdefinitionRule : definition.hasRule part = true := List.find?_some hpart
  obtain ⟨parts, rfl⟩ := Tree.exists_of_hasRule hdefinitionRule
  simp only [List.mem_cons, Prod.mk.injEq, List.not_mem_nil, or_false] at hkind
  rcases hkind with ⟨rfl, rfl⟩ | ⟨rfl, rfl⟩ | ⟨rfl, rfl⟩ | ⟨rfl, rfl⟩ | ⟨rfl, rfl⟩
  · exact iff_of_false (not_addresses_of_yields (changes_createIndex hrule hpart (hnamedBy rfl))
      hplan) (by simp [Tree.leavesNoTrace])
  · obtain ⟨row, rfl⟩ := Tree.exists_of_hasRule hrule
    obtain ⟨word, rfl, hword⟩ := hdraft.eq_of_child? rfl hpart
    have hname : (Tree.node .createTable parts).child? .tableName = some named := by
      simpa [Tree.subjects] using hnamed
    obtain ⟨text, others, hsteps, htext, hothers, hnone⟩ :=
      (results_subjects hdraft hword rfl hname hlast).of_ok hplan
    rw [Tree.tablePath_of_names hnames hschema] at htext
    rw [addresses_createTable (hnamedBy rfl) hsteps htext hothers, hnone]
    simp [Tree.leavesNoTrace]
  · have hsteps := (changes_alter hrule hpart (hnamedBy rfl)).of_ok hplan
    have htrace : (Tree.node .alterTable parts).leavesNoTrace =
        ((Tree.node .alterTable parts).child? .alterList).all fun list =>
          (list.childrenBy .alterListItem).isEmpty := rfl
    rw [htrace]
    split at hsteps
    · rename_i hempty
      exact iff_of_true ⟨by simp [hsteps], by simp [hsteps]⟩ hempty
    · rename_i hitems
      exact iff_of_false (not_addresses hsteps) hitems
  · exact iff_of_false (not_addresses_of_yields (changes_dropIndex hrule hpart (hnamedBy rfl))
      hplan) (by simp [Tree.leavesNoTrace])
  · obtain ⟨row, rfl⟩ := Tree.exists_of_hasRule hrule
    obtain ⟨word, rfl, hword⟩ := hdraft.eq_of_child? rfl hpart
    have hindex :
        (Tree.node .dropStatement [word, .node .dropTable parts]).child? .dropIndex = none := by
      cases word with
      | leaf token => rfl
      | node rule children => cases hword
    have hreference : ∃ tables, (Tree.node .dropTable parts).child? .tableRefList = some tables ∧
        named ∈ tables.childrenBy .tableRef := by
      simpa [Tree.subjects] using hnamed
    obtain ⟨tables, htables, hmem⟩ := hreference
    exact iff_of_false (not_addresses_of_yields
      (changes_dropTables rfl hindex hpart htables hmem hlast) hplan) (by simp [Tree.leavesNoTrace])

/-- A temporary table of another database is created there, and not recorded. -/
theorem Plan.addresses_iff_temporary :
    let sql := "CREATE TEMPORARY TABLE other.t (a INT, PRIMARY KEY (a))"
    ∃ query definition named plan, Grammar.parse sql = .ok query ∧
      query.definition? = some definition ∧ named ∈ definition.subjects ∧
      named.names = ["other", "t"] ∧ Text.equalsIgnoringCase "other" "wp" = false ∧
      (Plan.ofTree "wp" query).outcome.1 = .ok plan ∧ plan.Addresses "other" "t" := by
  intro sql
  have hread : (do
      let query ← (Grammar.parse sql).toOption
      let definition ← query.definition?.filter (·.leavesNoTrace)
      let named ← definition.subjects.head?.filter (·.names == ["other", "t"])
      let plan ← (Plan.ofTree "wp" query).outcome.1.toOption
      return (named, plan) : Option _).isSome = true := by decide +kernel
  obtain ⟨_, hfound⟩ := Option.isSome_iff_exists.1 hread
  simp only [Option.bind_eq_bind, Option.bind_eq_some_iff, toOption_eq_some,
    Option.filter_eq_some_iff, beq_iff_eq] at hfound
  obtain ⟨query, hparse, definition, ⟨hdefinition, htrace⟩, named, ⟨hnamed, hnames⟩, plan,
      hplan, -⟩ :=
    hfound
  have hmem : named ∈ definition.subjects := List.mem_of_mem_head? hnamed
  have hschema : Text.equalsIgnoringCase "other" "wp" = false := by decide
  exact ⟨query, definition, named, plan, hparse, hdefinition, hmem, hnames, hschema, hplan,
    (Plan.addresses_iff hparse hdefinition hmem hnames hschema hplan).2 htrace⟩

/-- A column that is added to a table of another database is added to the table of the same name
here. -/
theorem Plan.alter_unqualified :
    let sql := "ALTER TABLE other.t ADD b INT"
    ∃ query plan, Grammar.parse sql = .ok query ∧ (Plan.ofTree "wp" query).outcome.1 = .ok plan ∧
      plan.steps.flatMap Step.statements = ["ALTER TABLE \"t\" ADD COLUMN \"b\" INTEGER"] ∧
      plan.steps.map (·.change.bind CatalogChange.table?) = [some "t"] ∧
      ¬ plan.Addresses "other" "t" := by
  intro sql
  have hread : (do
      let query ← (Grammar.parse sql).toOption
      let plan ← (Plan.ofTree "wp" query).outcome.1.toOption
      return (plan.steps.flatMap Step.statements,
        plan.steps.map (·.change.bind CatalogChange.table?)) : Option _) =
      some (["ALTER TABLE \"t\" ADD COLUMN \"b\" INTEGER"], [some "t"]) := by decide +kernel
  simp only [Option.bind_eq_bind, Option.bind_eq_some_iff, toOption_eq_some, Option.pure_def,
    Option.some.injEq, Prod.mk.injEq] at hread
  obtain ⟨query, hparse, plan, hplan, hstatements, htables⟩ := hread
  refine ⟨query, plan, hparse, hplan, hstatements, htables, not_addresses ?_⟩
  obtain ⟨step, hstep, htable⟩ :
      ∃ step ∈ plan.steps, step.change.bind CatalogChange.table? = some "t" :=
    List.mem_map.1 (htables ▸ List.mem_singleton_self _)
  obtain ⟨change, hchange, hname⟩ := Option.bind_eq_some_iff.1 htable
  exact ⟨step, hstep, change, hchange, hname⟩

end SqlBridge
