/-
The planner takes the trees that the grammar makes.

Planning looks for children by their rules and fails if they are not there, and so does writing.
For the tree of a statement neither happens: what the planner looks for is what the grammar admits.

* `Draft.Proper.limited`: a limited update or deletion, whose head is a statement of its own.
* `Plan.results_ofStatement`: every statement.
* `Plan.ofTree_outcome`: a statement that was read is planned, or refused as unsupported or for the
  number of arguments of a call.
-/
import SqlBridge.Plan.Statement
import SqlBridge.Proofs.Catalog.IndexName
import SqlBridge.Proofs.Grammar.Opening
import SqlBridge.Proofs.Scribe.Definition

namespace SqlBridge

open Scribe Sql List SqlBridge.Tree Draft

variable {α : Type} {bad : Error → Prop}
variable {rule : Rule} {draft item : Draft} {index : Index}

/-- How a computation ends is known from what is made of its value. -/
theorem Scribe.results_of_map {β : Type} (f : α → β) {scribe : Scribe α}
    (h : (f <$> scribe : Scribe β).Results bad fun _ => True) :
    scribe.Results bad fun _ => True := by
  intro seen
  have hs := h seen
  rw [map_eq_pure_bind, runFrom_bind] at hs
  rcases hr : scribe.runFrom seen with ⟨_ | _, _⟩
  · rw [hr] at hs
    exact hs
  · trivial

/-! ### Parts by name -/

theorem Rule.eq_of_admitsVerb {verb : Keyword} {rules : List Rule} {row : List Tree}
    (h : Rule.admitsVerb verb rules row) : ∃ word part, row = [word, part] ∧
      word.hasKind (.keyword verb) ∧ ∃ rule ∈ rules, part.hasRule rule := by
  unfold admitsVerb at h
  split at h
  · rename_i word part
    rw [Bool.and_eq_true, any_eq_true] at h
    exact ⟨word, part, rfl, h⟩
  · cases h

/-- A verb is about one of two things. -/
theorem Branch.Proper.exists_other {node : Branch} (h : node.Proper bad) {verb : Keyword}
    {other : Rule} (hn : node.child? rule = none)
    (hv : Rule.admitsVerb verb [rule, other] node.tree.children) :
    ∃ part, node.child? other = some part ∧ part.Proper bad ∧ part.tree.hasRule other := by
  obtain ⟨word, tree, hro, -, hr⟩ := Rule.eq_of_admitsVerb hv
  have hm : tree ∈ node.tree.children := by simp [hro]
  refine h.exists_child (any_eq_true.2 ⟨tree, hm, ?_⟩)
  have hor : tree.hasRule rule ∨ tree.hasRule other := by simpa using hr
  refine hor.resolve_left fun hf => ?_
  obtain ⟨part, hp, -⟩ := h.exists_child (any_eq_true.2 ⟨tree, hm, hf⟩)
  rw [hn] at hp
  cases hp

/-- The parts of a rule that is there. -/
theorem Branch.Proper.exists_childrenBy {node : Branch} (h : node.Proper bad)
    (hr : Rule.isIn rule node.tree.children) :
    ∃ part, part ∈ node.childrenBy rule := by
  obtain ⟨part, hp, -, hs⟩ := h.exists_child hr
  exact ⟨part, mem_filter.2 ⟨mem_of_find?_eq_some hp, hs⟩⟩

theorem Rule.isIn_of_admitsKeys {row : List Tree} (h : Rule.admitsKeys row) :
    Rule.isIn .keyPart row := by
  unfold admitsKeys at h
  split at h
  · rw [Bool.and_eq_true] at h
    have hp := h.2
    unfold admitsKeyParts at hp
    split at hp
    all_goals simp_all [isIn]
  · cases h

theorem Draft.results_writeEach {write : Draft → Scribe Sql} {parts : List Draft}
    (h : ∀ part ∈ parts, (write part).Results bad fun _ => True) :
    (writeEach write parts).Results bad fun _ => True := by
  induction parts with
  | nil => exact results_pure trivial
  | cons part rest ih =>
    rw [forall_mem_cons] at h
    exact results_bind h.1 fun _ _ => results_bind (ih h.2) fun _ _ => results_pure trivial

theorem Draft.Proper.demand (h : draft.Proper bad)
    (hr : draft.tree.hasRule rule) {demand : List Tree → Bool}
    (hd : rule.demand? = some demand) : demand draft.tree.children := by
  obtain ⟨row, ht⟩ := exists_of_hasRule hr
  rw [ht]
  exact h.branch.demand ht hd

/-- A child that is there, and ends in a name. -/
theorem Draft.Proper.exists_name (h : draft.Proper bad)
    (hr : Rule.isIn rule draft.tree.children) {demand : List Tree → Bool}
    (hd : rule.demand? = some demand)
    (hn : ∀ row, demand row → Rule.isIn .identifier row) :
    ∃ name, (draft.tree.child? rule).bind lastName? = some name := by
  obtain ⟨part, hpa, hpr, hp⟩ := h.branch.exists_child hr
  obtain ⟨row, ht⟩ := exists_of_hasRule hp
  obtain ⟨name, hna⟩ : ∃ name, (Tree.node rule row).lastName? = some name :=
    exists_lastName (hn row (hpr.branch.demand ht hd))
  refine ⟨name, ?_⟩
  have hc : draft.tree.child? rule = some part.tree := by
    rw [show draft.tree = draft.branch.tree from rfl, h.branch.tree_child?, hpa]
    rfl
  rw [hc, Option.bind_some, ht]
  exact hna

/-! ### Limited updates and deletions -/

namespace Tree

variable {loose : Looseness} {depth : Nat} {row : List Tree}

/-- The parentheses of a row match without some of its nodes. -/
theorem isTidy_filter {test : Tree → Bool} (h : isTidy loose depth row)
    (hn : ∀ tree ∈ row, test tree = false → tree.isNode) :
    isTidy loose depth (row.filter test) := by
  induction row generalizing depth with
  | nil => exact h
  | cons tree rest ih =>
    rw [forall_mem_cons] at hn
    cases ht : test tree with
    | false =>
      rw [filter_cons_of_neg (by simp [ht])]
      refine ih ?_ hn.2
      cases tree with
      | leaf tok => cases hn.1 ht
      | node rule kids =>
        rw [isTidy, if_neg (by simp), if_neg (by simp), Bool.and_eq_true] at h
        exact h.2
    | true =>
      rw [filter_cons_of_pos ht]
      rw [isTidy] at h ⊢
      split_ifs at h ⊢
      · exact ih h hn.2
      · rw [Bool.and_eq_true] at h ⊢
        exact ⟨h.1, ih h.2 hn.2⟩
      · rw [Bool.and_eq_true] at h ⊢
        exact ⟨h.1, ih h.2 hn.2⟩

/-- Trees none of which is a loose run of children. -/
theorem flatMap_spliced (h : ∀ tree ∈ row, tree.hasRule .fragment = false) :
    row.flatMap spliced = row := by
  induction row with
  | nil => rfl
  | cons tree rest ih =>
    rw [forall_mem_cons] at h
    have hs : spliced tree = [tree] := by
      unfold spliced
      split
      · simp at h
      · rfl
    rw [flatMap_cons, hs, ih h.2]
    rfl

theorem isFilter_isNode {tree : Tree} (h : Plan.isFilter tree) : tree.isNode := by
  cases tree with
  | leaf tok => cases h
  | node rule kids => rfl

theorem isIn_filter {test : Tree → Bool} (h : Rule.isIn rule row)
    (hk : ∀ tree : Tree, tree.hasRule rule → test tree) :
    Rule.isIn rule (row.filter test) := by
  obtain ⟨tree, hm, hr⟩ := any_eq_true.1 h
  exact any_eq_true.2 ⟨tree, mem_filter.2 ⟨hm, hk tree hr⟩, hr⟩

theorem admits_withoutFilters (hr : rule = .updateStatement ∨ rule = .deleteStatement)
    (h : rule.admits row) : rule.admits (row.filter (!Plan.isFilter ·)) := by
  have hk {other : Rule} (ho : other ∉ [Rule.whereClause, .orderClause, .limitClause])
      {tree : Tree} (ht : tree.hasRule other) : !Plan.isFilter tree := by
    obtain ⟨below, rfl⟩ := exists_of_hasRule ht
    simpa [Plan.isFilter, and_assoc] using ho
  rcases hr with rfl | rfl
  · rw [Rule.admits_of_demand rfl, Bool.and_eq_true] at h ⊢
    refine ⟨isIn_filter h.1 fun tree => hk (by decide), ?_⟩
    have hp : row.all (isPlain .list) := h.2
    exact all_eq_true.2 fun tree ht =>
      all_eq_true.1 hp tree (mem_filter.1 ht).1
  · rw [Rule.admits_of_demand rfl, Bool.and_eq_true] at h ⊢
    refine ⟨isIn_filter h.1 fun tree => hk (by decide), ?_⟩
    exact isTidy_filter h.2 fun tree _ hte => isFilter_isNode (by simpa using hte)

/-- No child of an admitted node is a loose run of trees, so the children that stay are as they
were. -/
theorem withoutFilters_node (h : ∀ child ∈ row, child.isAdmitted) :
    Plan.withoutFilters (.node rule row) = .node rule (row.filter (!Plan.isFilter ·)) := by
  have hw : ∀ child ∈ row.filter (!Plan.isFilter ·), child.hasRule .fragment = false := by
    intro child hc
    have ha := h child (mem_filter.1 hc).1
    cases child with
    | leaf tok => rfl
    | node other below =>
      rw [hasRule_node, decide_eq_false_iff_not]
      rintro rfl
      rw [isAdmitted, Rule.admits_of_demand rfl] at ha
      cases ha
  rw [Plan.withoutFilters, assemble, children, flatMap_spliced hw]
  rfl

/-- The statement without the clauses that say which rows it touches is proper again. -/
theorem proper_withoutFilters (hk : rule = .updateStatement ∨ rule = .deleteStatement)
    (h : ∀ below ∈ Tree.node rule row :: (Tree.node rule row).descendants, below.Proper bad) :
    ∃ others, Plan.withoutFilters (.node rule row) = .node rule others ∧
      ∀ below ∈ Tree.node rule others :: (Tree.node rule others).descendants, below.Proper bad := by
  rw [forall_mem_cons] at h
  have hr : ∀ child ∈ row, ∀ below ∈ child :: child.descendants, below.Proper bad :=
    fun child hc below hb => h.2 below (mem_descendantsOfAll.2 ⟨child, hc, hb⟩)
  have ht : Plan.withoutFilters (.node rule row) = .node rule (row.filter (!Plan.isFilter ·)) :=
    withoutFilters_node fun child hc => (hr child hc child (by simp)).admitted
  refine ⟨_, ht, forall_mem_cons.2 ?_⟩
  refine ⟨⟨h.1.refuses, admits_withoutFilters hk h.1.admitted, by simp, ?_⟩, ?_⟩
  · intro hn
    rcases hk with rfl | rfl <;> cases hn
  · intro below hb
    obtain ⟨child, hc, hb⟩ := mem_descendantsOfAll.1 hb
    exact hr child (mem_filter.1 hc).1 below hb

end Tree

namespace Draft.Proper

variable {stmt : Draft}

/-- What the rows of a limited statement are selected from. -/
theorem limitedTarget (h : stmt.Proper bad) (hk : rule = .updateStatement ∨ rule = .deleteStatement)
    (hr : stmt.tree.hasRule rule) :
    (Plan.limitedTarget stmt.branch).Results bad fun _ => True := by
  unfold Plan.limitedTarget
  split
  · rename_i hu
    obtain ⟨tables, ht, hp, hl⟩ := h.branch.exists_child (h.demand hu rfl)
    refine results_bind (results_part ht) ?_
    rintro tables rfl
    exact (hp.required_rule hl rfl).mono fun _ _ => trivial
  · rename_i hu
    have hd : stmt.tree.hasRule .deleteStatement := by
      rcases hk with rfl | rfl
      · exact absurd hr hu
      · exact hr
    obtain ⟨table, hta, hp, hn⟩ := h.branch.exists_child (h.demand hd rfl)
    refine results_bind (results_part hta) ?_
    rintro table rfl
    refine results_bind (hp.required_rule hn rfl) fun table _ => ?_
    split
    · rename_i name hn
      obtain ⟨hp, hr⟩ := h.branch.child hn
      exact results_bind (hp.required_rule hr rfl) fun _ _ => results_pure trivial
    · exact results_pure trivial

theorem limitedFilters (h : stmt.Proper bad) :
    (Plan.limitedFilters stmt.branch).Results bad fun _ => True := by
  have hc {rule : Rule} (hw : rule.isWritten) :
      ∀ part ∈ (stmt.branch.child? rule).toList, part.required.Results bad fun _ => True := by
    intro part hp
    obtain ⟨hpr, hr⟩ := h.branch.child (Option.mem_toList.1 hp)
    exact (hpr.required_rule hr hw).mono fun _ _ => trivial
  refine results_writeEach fun part hp => ?_
  simp only [mem_append] at hp
  rcases hp with (hwh | ho) | hl
  · exact hc rfl part hwh
  · exact hc rfl part ho
  · exact hc rfl part hl

/-- An update or a deletion, its rows selected by row id where it is limited. -/
theorem limited (h : stmt.Proper bad) (hk : rule = .updateStatement ∨ rule = .deleteStatement)
    (hr : stmt.tree.hasRule rule) (db : String) :
    (Plan.limited db stmt).Results bad fun _ => True := by
  have hw : rule.isWritten := by rcases hk with rfl | rfl <;> rfl
  unfold Plan.limited
  extract_lets node
  split
  · obtain ⟨row, ht⟩ := exists_of_hasRule hr
    obtain ⟨others, hh, hb⟩ := proper_withoutFilters hk (ht ▸ h.tree_below)
    have hp := proper_ofTree db _ hb
    have hn : node.tree = .node rule row := ht
    have hs : (ofTree db (.node rule others)).tree.hasRule rule := by
      simp [ofTree, Draft.tree]
    rw [hn, hh]
    refine results_bind (hp.required_rule hs hw) fun he _ => ?_
    refine results_bind (h.limitedTarget hk hr) fun target _ => ?_
    exact results_bind h.limitedFilters fun filters _ => results_pure trivial
  · exact (h.required_rule hr hw).mono fun _ _ => trivial

/-! ### Creating -/

/-- A node with a list of keys declares an index. -/
theorem exists_index (h : draft.Proper bad)
    (hk : Rule.isIn .keyList draft.tree.children) (kind : IndexKind) :
    ∃ index, Index.ofNode draft.tree kind = .ok index := by
  obtain ⟨keys, hc, hpr, hr⟩ := h.branch.exists_child hk
  have hl : draft.tree.child? .keyList = some keys.tree := by
    rw [show draft.tree = draft.branch.tree from rfl, h.branch.tree_child?, hc]
    rfl
  obtain ⟨part, hpa, hp⟩ := any_eq_true.1 (Rule.isIn_of_admitsKeys (hpr.demand hr rfl))
  have hm : part ∈ keys.tree.childrenBy .keyPart := mem_filter.2 ⟨hpa, hp⟩
  unfold Index.ofNode
  rw [hl]
  dsimp only
  split
  · rename_i hn
    rw [map_eq_nil_iff.1 hn] at hm
    cases hm
  · exact ⟨_, rfl⟩

/-- A statement that is written as it stands. -/
theorem written (h : stmt.Proper bad) (hr : stmt.tree.hasRule rule)
    (hw : rule.isWritten) : stmt.required.Results bad fun _ => True :=
  (h.required_rule hr hw).mono fun _ _ => trivial

end Draft.Proper

/-! ### Indexes of tables -/

namespace Index

theorem child?_keyList {node : Tree} {kind : IndexKind}
    (h : ofNode node kind = .ok index) : node.child? .keyList = some index.keys := by
  unfold ofNode at h
  split at h
  · cases h
  · rename_i keys hk
    split at h
    · cases h
    · cases h
      exact hk

end Index

namespace Tree

/-- The keys of an index of a table stand in its list of elements. -/
theorem mem_descendants_of_ofElements {elems : Tree} (h : index ∈ Index.ofElements elems) :
    index.keys ∈ elems.descendants ∧ index.keys.hasRule .keyList := by
  obtain ⟨declared, hd, name, rfl⟩ := Index.exists_of_mem_named h
  obtain ⟨con, hc, hof⟩ := mem_filterMap.1 hd
  obtain ⟨element, he, hch⟩ := mem_filterMap.1 hc
  obtain ⟨kind, -, hok⟩ := Option.bind_eq_some_iff.1 hof
  have hi : Index.ofNode con kind = .ok declared := by
    cases hn : Index.ofNode con kind with
    | error error => simp [hn, Except.toOption] at hok
    | ok other => simpa [hn, Except.toOption] using hok
  have hl := Index.child?_keyList hi
  refine ⟨?_, find?_some hl⟩
  have hm := mem_descendants_of_mem_children (mem_filter.1 he).1
  have hb := mem_descendants_trans element (mem_descendants_of_child? hch)
    (mem_descendants_of_child? hl)
  exact mem_descendants_trans elems hm hb

end Tree

/-! ### The first statement of a plan -/

namespace Draft

variable {tree : Tree} {row : List Tree} {db : String}

/-- A draft that is written without fail, and without any feature to note. -/
def IsSilent (draft : Draft) : Prop := ∃ sql?, draft.write = pure sql?

theorem isSilent_node (hw : Branch.write db rule ⟨.node rule row, row.map (ofTree db)⟩ =
      sequence (row.map (ofTree db)))
    (h : ∀ tree ∈ row, (ofTree db tree).IsSilent) : (ofTree db (.node rule row)).IsSilent := by
  have he : ∃ sql, writeEach Draft.sql (row.map (ofTree db)) = pure sql := by
    clear hw
    induction row with
    | nil => exact ⟨[], rfl⟩
    | cons tree rest ih =>
      rw [forall_mem_cons] at h
      obtain ⟨sql?, ht⟩ := h.1
      obtain ⟨others, hr⟩ := ih h.2
      exact ⟨sql?.getD [] ++ others, by simp [writeEach, Draft.sql, ht, hr]⟩
  obtain ⟨sql, hs⟩ := he
  exact ⟨_, by rw [write_ofTree, hw, Draft.sequence, hs, pure_bind]⟩

theorem isSilent_keyPart (h : tree.hasRule .keyPart) (hp : (ofTree db tree).Proper bad) :
    (ofTree db tree).IsSilent := by
  obtain ⟨row, rfl⟩ := exists_of_hasRule h
  have hd : Rule.admitsKeyPart row := hp.branch.demand rfl rfl
  have hr : ∀ part ∈ row, part.hasRule .identifier ∨ part.hasRule .fieldLength ∨
      part.hasRule .direction := by
    unfold Rule.admitsKeyPart at hd
    split at hd <;> simp_all
  refine isSilent_node rfl fun part hm => ?_
  rcases hr part hm with hr | hr | hr <;> obtain ⟨below, rfl⟩ := exists_of_hasRule hr
  · obtain ⟨token, ht⟩ : ∃ token, (Tree.node .identifier below).firstToken? = some token :=
      exists_firstToken ((hp.child hm).branch.demand rfl rfl)
    exact ⟨_, by rw [write_ofTree, Branch.write, Branch.identifier, ht]; rfl⟩
  · exact ⟨none, rfl⟩
  · have hd := (hp.child hm).branch.demand rfl rfl
    split at hd
    · refine isSilent_node rfl (forall_mem_singleton.2 ?_)
      rcases Bool.or_eq_true_iff.1 hd with ha | hd
      · exact ⟨_, write_keyword ha rfl⟩
      · exact ⟨_, write_keyword hd rfl⟩
    · cases hd

/-- The columns of an index are written without fail. -/
theorem isSilent_keyList (h : tree.hasRule .keyList) (hp : (ofTree db tree).Proper bad) :
    (ofTree db tree).IsSilent := by
  obtain ⟨row, rfl⟩ := exists_of_hasRule h
  have hd : Rule.admitsKeys row := hp.branch.demand rfl rfl
  have hparts {row : List Tree} (hd : Rule.admitsKeyParts row) : ∀ part ∈ row,
      part.hasRule .keyPart ∨ part.hasKind (.symbol .comma) ∨
        part.hasKind (.symbol .closeParen) := by
    fun_induction Rule.admitsKeyParts row <;> simp_all
  refine isSilent_node rfl fun part hm => ?_
  unfold Rule.admitsKeys at hd
  split at hd
  · rw [Bool.and_eq_true] at hd
    rcases mem_cons.1 hm with rfl | hr
    · exact ⟨_, write_symbol hd.1 rfl⟩
    · rcases hparts hd.2 part hr with hr | hr | hr
      · exact isSilent_keyPart hr (hp.child hm)
      · exact ⟨_, write_symbol hr rfl⟩
      · exact ⟨_, write_symbol hr rfl⟩
  · cases hd

theorem IsSilent.exists_required (h : draft.IsSilent) (hp : draft.Proper bad)
    (hr : draft.tree.hasRule rule) (hw : rule.isWritten) :
    ∃ sql, draft.required = pure sql := by
  obtain ⟨sql?, hs⟩ := h
  obtain ⟨kids, ht⟩ := exists_of_hasRule hr
  have hread := hp.write {}
  rw [hs, ht] at hread
  obtain ⟨sql, hsome, -⟩ := NodeReads.written hread hw
  obtain rfl : sql? = some sql := hsome
  exact ⟨sql, by rw [required, hs]; rfl⟩

end Draft

namespace Plan

variable {db table : String}

/-- The first statement of a plan. -/
def firstText? (plan : Plan) : Option String := (plan.steps.flatMap Step.statements).head?

theorem exists_indexStatements {indexes : List Index}
    (h : ∀ index ∈ indexes, index.keys.hasRule .keyList ∧
      ∃ bad, ∀ below ∈ index.keys :: index.keys.descendants, below.Proper bad) :
    ∃ texts, indexStatements db table indexes = pure texts := by
  induction indexes with
  | nil => exact ⟨[], rfl⟩
  | cons index rest ih =>
    rw [forall_mem_cons] at h
    obtain ⟨texts, ht⟩ := ih h.2
    obtain ⟨hk, bad, hb⟩ := h.1
    have hp := proper_ofTree db _ hb
    obtain ⟨sql, hs⟩ := (isSilent_keyList hk hp).exists_required hp (by simpa using hk) rfl
    unfold indexStatements
    split
    · exact ⟨texts, ht⟩
    · exact ⟨_, by rw [Branch.indexDefinition, hs, ht]; rfl⟩

end Plan

namespace Draft.Proper

open Plan (firstText?)

variable {stmt : Draft}

theorem first_createIndex {create : Draft} (hc : create.Proper bad)
    (hi : create.tree.hasRule .createIndex) :
    firstText? <$> Plan.createIndex stmt create = (some ·.render) <$> stmt.required := by
  have hd := hc.demand hi rfl
  simp only [Bool.and_eq_true] at hd
  obtain ⟨name, hn⟩ := hc.exists_name hd.1.1 rfl fun _ => Rule.isIn_of_admitsQualified
  obtain ⟨index, hx⟩ : ∃ index, Index.ofCreateIndex create.tree = .ok index :=
    hc.exists_index hd.2 _
  rw [Plan.createIndex, hn, hx]
  show firstText? <$> (stmt.required >>= _) = _
  rw [map_bind]
  rfl

theorem first_createTable {create : Draft} (hc : create.Proper bad)
    (ht : create.tree.hasRule .createTable) (db : String) :
    firstText? <$> Plan.createTable db stmt create =
      (some ·.render) <$> stmt.required := by
  have hd : Rule.admitsTable create.tree.children := hc.demand ht rfl
  rw [Rule.admitsTable, Bool.and_eq_true, Bool.and_eq_true] at hd
  obtain ⟨name, hn⟩ := hc.exists_name hd.1.1 rfl fun _ => Rule.isIn_of_admitsQualified
  have hb : ∀ below ∈ create.tree.descendants, below.Proper bad :=
    (forall_mem_cons.1 hc.tree_below).2
  -- the indexes come after the table, and are written without fail
  have hkeys (elems : Tree) (he : create.tree.child? .tableElementList = some elems) :
      ∃ texts, Plan.indexStatements db name (Index.ofElements elems) = pure texts := by
    refine Plan.exists_indexStatements fun index hi => ?_
    obtain ⟨hm, hk⟩ := mem_descendants_of_ofElements hi
    have hs := mem_descendants_trans _ (mem_descendants_of_child? he) hm
    refine ⟨hk, bad, forall_mem_cons.2 ⟨hb _ hs, fun lower hl => ?_⟩⟩
    exact hb lower (mem_descendants_trans _ hs hl)
  cases he : create.tree.child? .tableElementList with
  | none =>
    rw [Plan.createTable, hn, he]
    show firstText? <$> (stmt.required >>= _) = _
    rw [map_bind]
    rfl
  | some elems =>
    obtain ⟨texts, ht⟩ := hkeys elems he
    rw [Plan.createTable, hn, he]
    show firstText? <$> (stmt.required >>= fun sql =>
      Plan.indexStatements db name (Index.ofElements elems) >>= _) = _
    rw [ht, map_bind]
    rfl

/-- What is created first is what the statement is written as. -/
theorem first_create (h : stmt.Proper bad) (hr : stmt.tree.hasRule .createStatement) (db : String) :
    firstText? <$> Plan.create db stmt = (some ·.render) <$> stmt.required := by
  unfold Plan.create
  split
  · rename_i create hc
    obtain ⟨hp, hi⟩ := h.branch.child hc
    exact hp.first_createIndex hi
  · rename_i hn
    obtain ⟨create, hc, hp, ht⟩ := h.branch.exists_other hn (h.demand hr rfl)
    rw [hc]
    exact hp.first_createTable ht db

theorem planCreate (h : stmt.Proper bad) (hr : stmt.tree.hasRule .createStatement) (db : String) :
    (Plan.create db stmt).Results bad fun _ => True := by
  refine results_of_map firstText? ?_
  rw [h.first_create hr db]
  exact results_map (h.written hr rfl) fun _ _ => trivial

/-! ### Dropping -/

theorem first_dropIndex {drop : Draft} (hd : drop.Proper bad) (hi : drop.tree.hasRule .dropIndex) :
    firstText? <$> Plan.dropIndex stmt drop = (some ·.render) <$> stmt.required := by
  have hr := hd.demand hi rfl
  rw [Bool.and_eq_true] at hr
  obtain ⟨table, ht⟩ := hd.exists_name hr.1 rfl fun _ => Rule.isIn_of_admitsQualified
  obtain ⟨name, hn⟩ := hd.exists_name hr.2 rfl fun _ h => h
  rw [Plan.dropIndex, ht, hn]
  show firstText? <$> (stmt.required >>= _) = _
  rw [map_bind]
  rfl

end Draft.Proper

theorem Plan.results_dropSteps {references : List Draft} (ifExists : Bool)
    (h : ∀ reference ∈ references, reference.Proper bad ∧
      reference.tree.hasRule .tableRef) :
    (Plan.dropSteps ifExists references).Results bad fun _ => True := by
  induction references with
  | nil => exact results_pure trivial
  | cons reference rest ih =>
    rw [forall_mem_cons] at h
    obtain ⟨row, ht⟩ := exists_of_hasRule h.1.2
    obtain ⟨name, hn⟩ : ∃ name, (Tree.node .tableRef row).lastName? = some name :=
      exists_lastName (Rule.isIn_of_admitsQualified (h.1.1.branch.demand ht rfl))
    rw [← ht] at hn
    refine results_bind (results_part hn) fun table _ => ?_
    refine results_bind (h.1.1.written h.1.2 rfl) fun sql _ => ?_
    exact results_bind (ih h.2) fun _ _ => results_pure trivial

namespace Draft.Proper

variable {stmt : Draft}

theorem planDrop (h : stmt.Proper bad) (hru : stmt.tree.hasRule .dropStatement) :
    (Plan.drop stmt).Results bad fun _ => True := by
  unfold Plan.drop
  split
  · rename_i drop hd
    obtain ⟨hp, hi⟩ := h.branch.child hd
    refine results_of_map Plan.firstText? ?_
    rw [hp.first_dropIndex hi]
    exact results_map (h.written hru rfl) fun _ _ => trivial
  · rename_i hn
    obtain ⟨drop, hd, hp, -⟩ := h.branch.exists_other hn (h.demand hru rfl)
    refine results_bind (results_part hd) ?_
    rintro drop rfl
    refine results_bind (Plan.results_dropSteps _ fun reference hr => ?_) fun _ _ =>
      results_pure trivial
    split at hr
    · rename_i tables ht
      exact (hp.branch.child ht).1.branch.childrenBy hr
    · cases hr

end Draft.Proper

/-! ### Altering -/

namespace Plan

variable {table : String}

theorem results_addIndex {con : Draft} (h : con.Proper bad) :
    (addIndex table con).Results bad fun _ => True := by
  unfold addIndex
  split
  · rename_i index keys _ hk
    obtain ⟨hp, hr⟩ := h.branch.child hk
    refine h.branch.results_unless ?_
    exact results_bind (Branch.results_indexDefinition hp hr _ _ _) fun _ _ =>
      results_pure trivial
  · exact h.branch.results_unsupported _

theorem results_onlyColumns {elems : List Draft} (h : ∀ element ∈ elems, element.Proper bad) :
    (onlyColumns elems).Results bad fun cols => (cols = [] → elems = []) ∧
      ∀ col ∈ cols, col.Proper bad ∧ col.tree.hasRule .columnDefinition := by
  induction elems with
  | nil => exact results_pure (by simp)
  | cons element rest ih =>
    rw [forall_mem_cons] at h
    unfold onlyColumns
    split
    · rename_i col hco
      refine results_bind (ih h.2) fun cols hc => results_pure ⟨by simp, ?_⟩
      exact forall_mem_cons.2 ⟨h.1.branch.child hco, hc.2⟩
    · exact h.1.branch.results_unsupported _

theorem results_addColumns {cols : List Draft} (h : ∀ col ∈ cols,
      col.Proper bad ∧ col.tree.hasRule .columnDefinition) :
    (addColumns table cols).Results bad fun _ => True := by
  induction cols with
  | nil => exact results_pure trivial
  | cons col rest ih =>
    rw [forall_mem_cons] at h
    obtain ⟨row, ht⟩ := exists_of_hasRule h.1.2
    refine h.1.1.branch.results_unless ?_
    refine results_bind (h.1.1.branch.columnDefinition ht false) fun defn _ => ?_
    exact results_bind (ih h.2) fun _ _ => results_pure trivial

theorem results_alterAdd (h : item.Proper bad)
    (ha : (item.tree.children.any fun tree => tree.hasRule .tableConstraintDef ||
      tree.hasRule .tableElementList || tree.hasRule .columnDefinition)) :
    (alterAdd table item.branch).Results bad fun _ => True := by
  have hi {rule : Rule} (hn : item.branch.child? rule = none) :
      Rule.isIn rule item.tree.children = false := by
    rw [← Bool.not_eq_true]
    intro hin
    obtain ⟨part, hpa, -⟩ := h.branch.exists_child hin
    rw [hn] at hpa
    cases hpa
  unfold alterAdd
  split
  · rename_i con hco
    obtain ⟨hp, -⟩ := h.branch.child hco
    exact results_bind (results_addIndex hp) fun _ _ => results_pure trivial
  · rename_i hn
    have hf : ∀ cols : List Draft, (cols ≠ [] ∧ ∀ col ∈ cols,
        col.Proper bad ∧ col.tree.hasRule .columnDefinition) →
        (do if cols.isEmpty then throw (.malformed (.lacks "ALTER TABLE ... ADD" "a column"))
            addColumns table cols : Scribe (List Step)).Results bad fun _ => True := by
      rintro cols ⟨hne, hc⟩
      rw [if_neg (by simpa using hne)]
      exact results_addColumns hc
    split
    · rename_i elems he
      obtain ⟨hp, hr⟩ := h.branch.child he
      have hb : ∀ part ∈ elems.branch.childrenBy .tableElement, part.Proper bad :=
        fun part hpa => (hp.branch.childrenBy hpa).1
      obtain ⟨part, hpa⟩ := hp.branch.exists_childrenBy (hp.demand hr rfl)
      refine results_bind (results_onlyColumns hb) fun cols hc => hf cols ?_
      refine ⟨fun hni => ?_, hc.2⟩
      rw [hc.1 hni] at hpa
      cases hpa
    · rename_i hno
      have hcol : Rule.isIn .columnDefinition item.tree.children := by
        obtain ⟨tree, hm, hr⟩ := any_eq_true.1 ha
        have hfi := any_eq_false.1 (hi hn) tree hm
        have hs := any_eq_false.1 (hi hno) tree hm
        refine any_eq_true.2 ⟨tree, hm, ?_⟩
        simpa [hfi, hs] using hr
      obtain ⟨col, hch, hp⟩ := h.branch.exists_child hcol
      refine results_bind (results_pure ?_) hf
      rw [hch]
      simpa using hp

theorem ends_alterDrop (h : item.Proper bad)
    (hd : (item.tree.children.any fun tree => tree.hasRule .indexName ||
      tree.hasKind (.keyword .PRIMARY) || tree.hasKind (.keyword .FOREIGN) ||
        tree.hasRule .identifier)) :
    Ends bad (fun _ => True) (alterDrop table item.tree) := by
  unfold alterDrop
  split
  · trivial
  · rename_i hi
    split
    · exact h.tree.refuses _ trivial
    split
    · exact h.tree.refuses _ trivial
    · rename_i hp hf
      split
      · trivial
      · rename_i hc
        -- one of the four has to be there
        exfalso
        obtain ⟨tree, hm, ha⟩ := any_eq_true.1 hd
        simp only [Bool.or_eq_true] at ha
        rcases ha with ((hn | hk) | hk) | hn
        · obtain ⟨name, hs⟩ := h.exists_name (any_eq_true.2 ⟨tree, hm, hn⟩) rfl
            fun _ h => h
          rw [hi] at hs
          cases hs
        · refine hp ?_
          rw [hasKeyword, hasToken_eq_any]
          exact any_eq_true.2 ⟨tree, hm, hk⟩
        · refine hf ?_
          rw [hasKeyword, hasToken_eq_any]
          exact any_eq_true.2 ⟨tree, hm, hk⟩
        · have hs : (item.tree.child? .identifier).isSome :=
            find?_isSome.2 ⟨tree, hm, hn⟩
          rw [Option.map_eq_none_iff] at hc
          rw [hc] at hs
          cases hs

theorem ends_alterRename (h : item.Proper bad) :
    Ends bad (fun _ => True) (alterRename table item.tree) := by
  unfold alterRename
  split
  · trivial
  split
  · exact h.tree.refuses _ trivial
  split
  · trivial
  · exact h.tree.refuses _ trivial

theorem results_alterActions {items : List Draft} (h : ∀ item ∈ items,
      item.Proper bad ∧ item.tree.hasRule .alterListItem) :
    (alterActions table items).Results bad fun _ => True := by
  induction items generalizing table with
  | nil => exact results_pure trivial
  | cons item rest ih =>
    rw [forall_mem_cons] at h
    obtain ⟨⟨hp, hru⟩, hr⟩ := h
    have hd : Rule.admitsAction item.tree.children := hp.demand hru rfl
    have hf : (item.tree.children.filterMap token?).head?.bind Token.keyword? =
        item.tree.firstKeyword? := rfl
    rw [Rule.admitsAction, hf] at hd
    unfold alterActions
    split
    · rename_i hk
      rw [hk] at hd
      refine results_bind (results_alterAdd hp hd) fun _ _ => ?_
      exact results_bind (ih hr) fun _ _ => results_pure trivial
    · rename_i hk
      rw [hk] at hd
      refine results_bind (results_lift (ends_alterDrop hp hd)) fun _ _ => ?_
      exact results_bind (ih hr) fun _ _ => results_pure trivial
    · refine results_bind (results_lift (ends_alterRename hp)) fun renamed _ => ?_
      exact results_bind (ih hr) fun _ _ => results_pure trivial
    · exact hp.branch.results_unsupported _
    · exact hp.branch.results_unsupported _

theorem results_alter {stmt : Draft} (h : stmt.Proper bad)
    (hr : stmt.tree.hasRule .alterStatement) :
    (alter stmt.branch).Results bad fun _ => True := by
  obtain ⟨alter, ha, hp, ht⟩ := h.branch.exists_child (h.demand hr rfl)
  obtain ⟨name, hn⟩ := hp.exists_name (hp.demand ht rfl) rfl
    fun _ => Rule.isIn_of_admitsQualified
  refine results_bind (results_part ha) ?_
  rintro alter rfl
  refine results_bind (results_part hn) fun table _ => ?_
  refine results_bind (results_alterActions fun item hi => ?_) fun _ _ => results_pure trivial
  split at hi
  · rename_i list hl
    exact (hp.branch.child hl).1.branch.childrenBy hi
  · cases hi

/-! ### All statements -/

theorem results_ofStatement {stmt : Draft} (h : stmt.Proper bad) (db : String) :
    (ofStatement db stmt).Results bad fun _ => True := by
  have hr {rule : Rule} (hs : stmt.rule = rule) (hne : rule ≠ .fragment) :
      stmt.tree.hasRule rule := by
    unfold Draft.rule at hs
    cases ht : stmt.tree with
    | leaf tok =>
      rw [ht] at hs
      exact absurd hs.symm hne
    | node other kids =>
      rw [ht] at hs
      exact hasRule_node.trans (decide_eq_true hs)
  have hw {rule : Rule} (verb : Verb) (hs : stmt.rule = rule)
      (hne : rule ≠ .fragment) (hw : rule.isWritten) :
      (do return single verb stmt.tree (← stmt.required) : Scribe Plan).Results bad
        fun _ => True :=
    results_bind (h.written (hr hs hne) hw) fun _ _ => results_pure trivial
  unfold ofStatement
  split
  case h_1 hse => exact hw .select hse (by decide) rfl
  case h_2 hi => exact hw .insert hi (by decide) rfl
  case h_3 hre => exact hw .replace hre (by decide) rfl
  case h_4 hu =>
    exact results_bind (h.limited (.inl rfl) (hr hu (by decide)) db) fun _ _ =>
      results_pure trivial
  case h_5 hd =>
    exact results_bind (h.limited (.inr rfl) (hr hd (by decide)) db) fun _ _ =>
      results_pure trivial
  case h_6 hc => exact h.planCreate (hr hc (by decide)) db
  case h_7 ha => exact results_alter h (hr ha (by decide))
  case h_8 hdr => exact h.planDrop (hr hdr (by decide))
  case h_9 => exact results_pure trivial
  case h_10 => exact h.branch.results_unsupported _

theorem results_ofTree {tree : Tree} (h : ∀ below ∈ tree :: tree.descendants, below.Proper bad)
    (hru : tree.hasRule .query) (db : String) :
    (ofTree db tree).Results bad fun _ => True := by
  have hr := proper_ofTree db tree h
  have hq : (Draft.ofTree db tree).tree.hasRule .query := by
    rw [tree_ofTree]
    exact hru
  obtain ⟨simple, hsi, hp, hs⟩ := hr.branch.exists_child (hr.demand hq rfl)
  have hn : simple.tree.children.any isNode := hp.demand hs rfl
  obtain ⟨stmt, hf, hb⟩ : ∃ stmt, simple.branch.firstNode? = some stmt ∧
      stmt.Proper bad := by
    rw [show simple.tree = simple.branch.tree from rfl, ← hp.branch.trees, any_map] at hn
    obtain ⟨part, hpa⟩ := Option.isSome_iff_exists.1 (find?_isSome.2 (by simpa using hn))
    exact ⟨part, hpa, hp.branch.below part (mem_of_find?_eq_some hpa)⟩
  have hfo : ((Draft.ofTree db tree).branch.child? .simpleStatement).bind
      (·.branch.firstNode?) = some stmt := by
    rw [hsi, Option.bind_some, hf]
  unfold ofTree
  dsimp only
  rw [hfo]
  exact results_ofStatement hb db

end Plan

theorem Error.eq_of_isRefusal {error : Error} (h : error.IsRefusal) :
    (∃ feature, error = .unsupported feature) ∨
      ∃ name arity count, error = .invalidToken (.argumentCount name arity count) := by
  cases error with
  | unsupported feature => exact .inl ⟨feature, rfl⟩
  | invalidToken fault =>
    cases fault with
    | argumentCount name arity count => exact .inr ⟨name, arity, count, rfl⟩
    | _ => cases h
  | _ => cases h

/-- The planner takes what the grammar makes.  A statement that was read, and in which no function
with a form of its own is called by name, is planned, or refused: for a construct without a
counterpart, or for the number of arguments of a call. -/
theorem Plan.ofTree_outcome {sql : String} {tree : Tree} (h : Grammar.parse sql = .ok tree)
    (hnamed : ∀ below ∈ tree.descendants, below.isNamedCall = false) (database : String) :
    (∃ plan, (Plan.ofTree database tree).outcome.1 = .ok plan) ∨
      (∃ feature, (Plan.ofTree database tree).outcome.1 = .error (.unsupported feature)) ∨
      ∃ name arity count, (Plan.ofTree database tree).outcome.1 =
        .error (.invalidToken (.argumentCount name arity count)) := by
  obtain ⟨statement, others, -, htree⟩ := Grammar.isStatement_of_parse h
  have hnone : ∀ below ∈ tree :: tree.descendants, below.isNamedCall = false :=
    List.forall_mem_cons.2 ⟨by rw [htree]; rfl, hnamed⟩
  have hproper : ∀ below ∈ tree :: tree.descendants, below.Proper Error.IsRefusal := by
    refine Grammar.proper_of_parse (fun _ hrefusal => hrefusal) h fun below hbelow htrue => ?_
    exact absurd (htrue.symm.trans (hnone below hbelow)) (by decide)
  have hends : Ends Error.IsRefusal (fun _ => True) (Plan.ofTree database tree).outcome.1 :=
    Plan.results_ofTree hproper (by simp [htree]) database {}
  cases houtcome : (Plan.ofTree database tree).outcome.1 with
  | ok plan => exact .inl ⟨plan, rfl⟩
  | error error =>
    rw [houtcome] at hends
    rcases Error.eq_of_isRefusal hends with ⟨feature, rfl⟩ | ⟨name, arity, count, rfl⟩
    · exact .inr (.inl ⟨feature, rfl⟩)
    · exact .inr (.inr ⟨name, arity, count, rfl⟩)

/-- The functions with a form of their own, called by their keywords. -/
theorem Plan.ofTree_outcome_cast :
    let sql := "SELECT CAST(a AS CHAR), EXTRACT(YEAR FROM b)"
    ∃ tree, Grammar.parse sql = .ok tree ∧ (∀ below ∈ tree.descendants, below.isNamedCall = false) ∧
      ((∃ plan, (Plan.ofTree "db" tree).outcome.1 = .ok plan) ∨
        (∃ feature, (Plan.ofTree "db" tree).outcome.1 = .error (.unsupported feature)) ∨
        ∃ name arity count, (Plan.ofTree "db" tree).outcome.1 =
          .error (.invalidToken (.argumentCount name arity count))) := by
  intro sql
  have hread : (Grammar.parse sql).toOption.any (fun tree =>
      tree.descendants.all fun below => !below.isNamedCall) = true := by decide +kernel
  cases hparse : Grammar.parse sql with
  | error error =>
    rw [hparse] at hread
    cases hread
  | ok tree =>
    rw [hparse] at hread
    have hnamed : ∀ below ∈ tree.descendants, below.isNamedCall = false := by
      simpa using List.all_eq_true.1 hread
    exact ⟨tree, rfl, hnamed, Plan.ofTree_outcome hparse hnamed "db"⟩

/-- A name in backticks is no keyword: such a call lacks the unit that `EXTRACT` asks for. -/
example : ((do Plan.ofTree "db" (← Grammar.parse "SELECT `EXTRACT`(a)") : Scribe Plan).outcome.1
    matches .error (.malformed _)) = true := by decide +kernel

end SqlBridge
