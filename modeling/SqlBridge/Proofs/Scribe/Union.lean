/-
How queries that are united are written.

A query in parentheses is written without them when it is a member of a compound select, so a tree
of unions becomes the chain of its members.

* `Tree.Unites`: the tree of unions that a query is.
* `Tree.Unites.writes`: it is written as its `SELECT`s in their order with its unions between them.
* `united_bags_iff`: what is written has the same rows as the query, whatever the rows of its
  `SELECT`s, just if the tree keeps its groups and has no `UNION DISTINCT`.
-/
import SqlBridge.Proofs.Scribe.Heads
import SqlBridge.Proofs.Scribe.Written
import SqlBridge.Proofs.Sql.Compound

namespace SqlBridge

open Scribe Sql List

/-- The keywords of a union. -/
def UnionKind.keywords : UnionKind → List Keyword
  | .plain => [.UNION]
  | .distinct => [.UNION, .DISTINCT]
  | .all => [.UNION, .ALL]

/-- A query without order and limit, and the tree of unions that it is: parentheses group, and
unions one after the other associate to the left. -/
inductive Tree.Unites : Tree → Compound Tree → Prop
  | select {row : List Tree} (h : Tree.keywordAhead? row = some .SELECT) :
      Unites (.node .querySpecification row) (.select (.node .querySpecification row))
  | parens {opening closing : Token} {row : List Tree} {compound : Compound Tree}
      (h : Unites (.node .queryExpression row) compound) :
      Unites (.node .queryExpressionParens
        [.leaf opening, .node .queryExpression row, .leaf closing]) compound
  | member {member : Tree} {compound : Compound Tree} (h : Unites member compound) :
      Unites (.node .queryExpression [member]) compound
  | union {row : List Tree} {words : List Token} {member : Tree} {kind : UnionKind}
      {left right : Compound Tree} (hleft : Unites (.node .queryExpression row) left)
      (hwords : words.map Token.kind = kind.keywords.map .keyword) (hright : Unites member right) :
      Unites (.node .queryExpression
        (row ++ [Tree.node .unionClause (words.map .leaf ++ [member])])) (.union kind left right)

/-- Tokens that a `SELECT` may be written as. -/
def Tree.WrittenAs (database : String) (select : Tree) (tokens : List Lexeme) : Prop :=
  ∃ sql, select.CanWrite database sql ∧ Lexer.lexemes? sql.render = some tokens

/-- The `SELECT`s of a tree of unions in their order, with its unions between them. -/
structure Compound.Written (database : String) (compound : Compound Tree) (sql : Sql) : Prop where
  ne_nil : sql ≠ []
  reads : ∃ members, List.Forall₂ (Tree.WrittenAs database) compound.selects members ∧
    (∀ member ∈ members, IsMember member) ∧ sql.ReadsAs (chained compound.kinds members)

/-- A query that is written as a tree of unions. -/
def Tree.Writes (database : String) (tree : Tree) (compound : Compound Tree) : Prop :=
  (tree.write database).Yields fun sql? => ∃ sql, sql? = some sql ∧ compound.Written database sql

variable {db : String} {tree : Tree} {compound : Compound Tree}

/-! ### Keywords -/

/-- A keyword of a query is written as it is. -/
theorem Draft.sql_keyword {tok : Token} {kw : Keyword} (hki : tok.kind = .keyword kw)
    (hk : kw ∈ [Keyword.SELECT, .UNION, .DISTINCT, .ALL]) :
    (Draft.ofTree db (.leaf tok)).sql = pure (word kw.spelling) := by
  have hw : (Draft.ofTree db (.leaf tok)).write = some <$> kw.sql := by
    show tok.sql = _
    rw [Token.sql, hki]
  have hs : kw.sql = (return word kw.spelling) := by
    simp only [mem_cons, not_mem_nil, or_false] at hk
    rcases hk with rfl | rfl | rfl | rfl
    all_goals rfl
  rw [Draft.sql, hw, hs]
  rfl

/-- A stretch of SQL that begins with `SELECT` reads so. -/
theorem Sql.ReadsAs.select {sql : Sql} {ts : List Lexeme}
    (h : ReadsAs (word "SELECT" ++ sql) ts) : ∃ rest, ts = .word "SELECT" :: rest := by
  have hs : List.Forall₂ Piece.Single (.raw "SELECT" :: Piece.flatAll sql) ts := h.spells
  cases hs with
  | @cons _ lex _ rest hf _ =>
    have hw : lex.Whole "SELECT".toList := by
      cases hf with
      | bare hw => simpa [Piece.render] using hw
    have hl : Lexeme.ofBare? "SELECT".toList = some (.word "SELECT") := by decide
    have heq : some lex = some (.word "SELECT") := hw.2.2.symm.trans hl
    exact ⟨rest, by rw [Option.some.inj heq]⟩

/-! ### Members -/

/-- Parts in a row begin with the first if it is a keyword of a query. -/
theorem Draft.yields_sequence_keyword {tok : Token} {kw : Keyword} (hki : tok.kind = .keyword kw)
    (hk : kw ∈ [Keyword.SELECT, .UNION, .DISTINCT, .ALL]) (rest : List Draft) :
    (Draft.sequence (Draft.ofTree db (.leaf tok) :: rest)).Yields fun sql? =>
      ∀ sql ∈ sql?, ∃ others, sql = word kw.spelling ++ others := by
  have hf : (Draft.ofTree db (.leaf tok)).sql.Yields (· = word kw.spelling) := by
    rw [Draft.sql_keyword hki hk]
    exact results_pure rfl
  have ha : (Draft.writeEach Draft.sql (Draft.ofTree db (.leaf tok) :: rest)).Yields
      fun sql => ∃ others, sql = word kw.spelling ++ others := by
    refine results_bind hf ?_
    rintro _ rfl
    exact yields_then fun others => results_pure ⟨others, rfl⟩
  refine results_bind ha fun sql hs => results_pure ?_
  intro written hw
  split at hw
  · cases hw
  · cases hw
    exact hs

/-- A `SELECT` is written as a member of a compound select. -/
theorem Tree.writes_select {bad : Error → Prop} {row : List Tree}
    (hs : Tree.keywordAhead? row = some .SELECT)
    (hp : (Draft.ofTree db (.node .querySpecification row)).Proper bad) :
    (Tree.node .querySpecification row).Writes db (.select (.node .querySpecification row)) := by
  refine yields_of_run fun seen sql? hr => ?_
  have hre : Tree.Reads (.node .querySpecification row) sql? := by
    have he := hp.write seen
    rw [Draft.tree_ofTree] at he
    rw [Tree.write] at hr
    rwa [hr] at he
  obtain ⟨sql, hsq, hne⟩ := hre.written rfl
  obtain rfl : sql? = some sql := hsq
  obtain ⟨ts, ht, hev⟩ := (hre.even sql rfl).exists_readsAs
  have hb : ∃ others, sql = word "SELECT" ++ others := by
    obtain ⟨tok, rest, rfl, hk⟩ : ∃ tok rest, row = .leaf tok :: rest ∧
        tok.kind = .keyword .SELECT := by
      cases row with
      | nil => cases hs
      | cons first rest =>
        cases first with
        | node => cases hs
        | leaf tok => exact ⟨tok, rest, rfl, Token.kind_of_keyword? hs⟩
    exact (Draft.yields_sequence_keyword hk (by simp) _).of_run hr sql rfl
  obtain ⟨others, rfl⟩ := hb
  refine ⟨_, rfl, hne, [ts], .cons ⟨_, ⟨seen, hr⟩, ht.lexemes?⟩ .nil, ?_, ?_⟩
  · simpa using ⟨ht.select, hev⟩
  · simpa [chained, Compound.kinds, stretches, intercalate] using ht

namespace Compound.Written

variable {left right : Compound Tree} {kind : UnionKind} {sql more : Sql}

theorem length_eq {members : List (List Lexeme)}
    (h : List.Forall₂ (Tree.WrittenAs db) compound.selects members) :
    members.length = compound.kinds.length + 1 := by
  rw [← h.length_eq, compound.length_selects, size]

/-- Two compound selects with a union between them. -/
theorem union (hl : left.Written db sql) (hri : right.Written db more) :
    (union kind left right).Written db
      (sql ++ (Sql.words (kind.keywords.map Keyword.spelling) ++ more)) := by
  obtain ⟨members, hm, hal, hre⟩ := hl.reads
  obtain ⟨others, ho, ha, hr⟩ := hri.reads
  refine ⟨by simp [hl.ne_nil], members ++ others, rel_append hm ho, ?_, ?_⟩
  · exact forall_mem_append.2 ⟨hal, ha⟩
  · have hne : others ≠ [] := by
      rintro rfl
      simpa using length_eq ho
    have hw : ReadsAs (Sql.words (kind.keywords.map Keyword.spelling))
        (.word "UNION" :: kind.words) := by
      cases kind
      all_goals exact readsAs_words (by decide)
    rw [kinds, chained_append (length_eq hm) hne]
    exact hre.append (hw.append hr)

end Compound.Written

/-! ### Unions -/

namespace Draft

variable {want : Sql → Prop} {parts more : List Draft}

theorem yields_writeEach_single {draft : Draft} (h : draft.sql.Yields want) :
    (writeEach Draft.sql [draft]).Yields want := by
  have ho : writeEach Draft.sql [draft] = draft.sql := by simp [writeEach]
  rwa [ho]

theorem yields_sequence (hne : ∀ sql, want sql → sql ≠ [])
    (h : (writeEach Draft.sql parts).Yields want) :
    (sequence parts).Yields fun sql? => ∃ sql, sql? = some sql ∧ want sql := by
  refine results_bind h fun sql hs => results_pure ⟨sql, ?_, hs⟩
  rw [if_neg (by simpa using hne sql hs)]

/-- Parts that are written as a whole are so one after the other. -/
theorem yields_writeEach
    (h : (sequence parts).Yields fun sql? => ∃ sql, sql? = some sql ∧ want sql) :
    (writeEach Draft.sql parts).Yields want := by
  refine yields_of_run fun seen sql hr => ?_
  have hwh : ((sequence parts).runFrom seen).1 = .ok (if sql.isEmpty then none else some sql) := by
    rw [sequence, runFrom_bind]
    rcases hp : (writeEach Draft.sql parts).runFrom seen with ⟨outcome, after⟩
    rw [hp] at hr
    obtain rfl : outcome = .ok sql := hr
    rfl
  obtain ⟨written, hw, he⟩ := h.of_run hwh
  split at hw
  · cases hw
  · cases hw
    exact he

/-- The keywords of a union are written as they are. -/
theorem writeEach_keywords {words : List Token} {kws : List Keyword}
    (hw : words.map Token.kind = kws.map .keyword)
    (h : ∀ kw ∈ kws, kw ∈ [Keyword.SELECT, .UNION, .DISTINCT, .ALL]) :
    writeEach Draft.sql (ofTrees db (words.map .leaf)) =
      pure (Sql.words (kws.map Keyword.spelling)) := by
  induction words generalizing kws with
  | nil =>
    obtain rfl : kws = [] := by simpa using hw.symm
    rfl
  | cons tok rest ih =>
    cases kws with
    | nil => simp at hw
    | cons kw others =>
      rw [map_cons, map_cons, cons.injEq] at hw
      rw [forall_mem_cons] at h
      rw [map_cons, ofTrees, writeEach, sql_keyword hw.1 h.1, ih hw.2 h.2]
      rfl

end Draft

open Draft

/-- A tree of unions has no order and no limit of its own. -/
theorem Tree.Unites.hasChild_eq_false {row : List Tree} {rule : Rule}
    (hr : rule = .orderClause ∨ rule = .limitClause)
    (h : (Tree.node .queryExpression row).Unites compound) :
    (Tree.node .queryExpression row).hasChild rule = false := by
  have hn : ∀ child ∈ row, child.hasRule rule = false := by
    generalize ht : Tree.node .queryExpression row = tree at h
    induction h generalizing row with
    | select | parens => cases ht
    | member h =>
      cases ht
      rcases hr with rfl | rfl <;> cases h <;> simp
    | union _ _ _ ihLeft _ =>
      cases ht
      refine forall_mem_append.2 ⟨ihLeft rfl, ?_⟩
      rcases hr with rfl | rfl <;> simp
  simpa [Tree.hasChild, Tree.child?, Tree.children] using hn

namespace Tree

variable {row : List Tree}

/-- A query in parentheses is written without them if it has no order and no limit. -/
theorem writes_parens {opening closing : Token}
    (hp : ((node .queryExpression row).hasChild .orderClause ||
      (node .queryExpression row).hasChild .limitClause) = false)
    (h : (node .queryExpression row).Writes db compound) :
    (node .queryExpressionParens
      [.leaf opening, .node .queryExpression row, .leaf closing]).Writes db compound := by
  let node : Branch := ⟨.node .queryExpressionParens
    [.leaf opening, .node .queryExpression row, .leaf closing],
    ofTrees db [.leaf opening, .node .queryExpression row, .leaf closing]⟩
  have hc : node.child? .queryExpression = some (ofTree db (.node .queryExpression row)) := by
    simp [node, Branch.child?, ofTrees]
  have hne : (node.need .queryExpression).Yields
      (· = ofTree db (.node .queryExpression row)) := by
    unfold Branch.need
    rw [hc]
    exact results_pure rfl
  have hn : node.nestedQuery.Yields (compound.Written db) := by
    refine results_bind hne ?_
    rintro _ rfl
    refine results_bind (yields_required h) fun query hq => ?_
    rw [tree_ofTree, if_neg (by simp [hp])]
    exact results_pure hq
  exact results_map hn fun sql hs => ⟨sql, rfl, hs⟩

theorem writes_member {member : Tree} (h : member.Writes db compound) :
    (node .queryExpression [member]).Writes db compound :=
  yields_sequence (fun _ hs => hs.ne_nil) (yields_writeEach_single (yields_sql h))

theorem writes_union {words : List Token} {member : Tree} {kind : UnionKind}
    {left right : Compound Tree} (hl : (node .queryExpression row).Writes db left)
    (hw : words.map Token.kind = kind.keywords.map .keyword)
    (hr : member.Writes db right) :
    (node .queryExpression (row ++
      [node .unionClause (words.map .leaf ++ [member])])).Writes
      db (.union kind left right) := by
  have hk : ∀ kw ∈ kind.keywords, kw ∈ [Keyword.SELECT, .UNION, .DISTINCT, .ALL] := by
    cases kind <;> decide
  -- the clause: its keywords, then its member
  have hc : (writeEach Draft.sql (ofTrees db (words.map .leaf ++ [member]))).Yields
      fun sql => ∃ more, sql = Sql.words (kind.keywords.map Keyword.spelling) ++ more ∧
        right.Written db more := by
    rw [ofTrees_eq_map, map_append, ← ofTrees_eq_map, writeEach_append,
      writeEach_keywords hw hk]
    refine results_bind (results_pure rfl) ?_
    rintro _ rfl
    refine results_bind (yields_writeEach (writes_member hr)) fun more hm => ?_
    exact results_pure ⟨more, rfl, hm⟩
  have hs : (ofTree db (.node .unionClause (words.map .leaf ++ [member]))).sql.Yields
      fun sql => ∃ more, sql = Sql.words (kind.keywords.map Keyword.spelling) ++ more ∧
        right.Written db more := by
    refine yields_sql (yields_sequence ?_ hc)
    rintro _ ⟨more, rfl, hm⟩
    simp [hm.ne_nil]
  have hro : (writeEach Draft.sql (ofTrees db
      (row ++ [node .unionClause (words.map .leaf ++ [member])]))).Yields
      ((Compound.union kind left right).Written db) := by
    rw [ofTrees_eq_map, map_append, ← ofTrees_eq_map, writeEach_append]
    refine results_bind (yields_writeEach hl) fun sql hl => ?_
    refine results_bind (yields_writeEach_single hs) ?_
    rintro _ ⟨more, rfl, hm⟩
    exact results_pure (hl.union hm)
  exact yields_sequence (fun _ hs => hs.ne_nil) hro

end Tree

/-- **A tree of unions is written as its `SELECT`s with its unions between them.** -/
theorem Tree.Unites.writes {bad : Error → Prop} (h : tree.Unites compound)
    (hp : ∀ below ∈ tree :: tree.descendants, below.hasRule .querySpecification →
      (ofTree db below).Proper bad) : tree.Writes db compound := by
  induction h with
  | select hs => exact Tree.writes_select hs (hp _ (by simp) (by simp))
  | @parens opening closing row compound h ih =>
    have hpl : ((Tree.node .queryExpression row).hasChild .orderClause ||
        (Tree.node .queryExpression row).hasChild .limitClause) = false := by
      rw [h.hasChild_eq_false (.inl rfl), h.hasChild_eq_false (.inr rfl), Bool.or_self]
    refine writes_parens hpl (ih fun below hb => hp below ?_)
    simp only [descendants, descendantsOfAll, mem_cons, mem_append] at hb ⊢
    tauto
  | member h ih =>
    refine writes_member (ih fun below hb => hp below ?_)
    simp only [descendants, descendantsOfAll, mem_cons, mem_append] at hb ⊢
    tauto
  | @union row words member kind left right hl hw hri ihLeft ihRight =>
    have hb {below : Tree} (h : below ∈ descendantsOfAll
        (row ++ [Tree.node .unionClause (words.map .leaf ++ [member])])) :
        below.hasRule .querySpecification → (ofTree db below).Proper bad :=
      hp below (by simp [descendants, h])
    refine writes_union (ihLeft fun below hm hr => ?_) hw
      (ihRight fun below hm => hb ?_)
    · -- the row before the clause is no node of the tree, but what is below it is
      rcases mem_cons.1 hm with rfl | hm
      · simp at hr
      · obtain ⟨tree, ht, hm⟩ := mem_descendantsOfAll.1 hm
        exact hb (mem_descendantsOfAll.2 ⟨tree, by simp [ht], hm⟩) hr
    · have hc : below ∈ descendantsOfAll (words.map .leaf ++ [member]) :=
        mem_descendantsOfAll.2 ⟨member, by simp, hm⟩
      refine mem_descendantsOfAll.2 ⟨.node .unionClause (words.map .leaf ++ [member]), by simp, ?_⟩
      exact mem_cons_of_mem _ hc

/-- **What is written for queries that are united has the same rows as they have**, whatever the
rows of each `SELECT`, just if the tree of unions keeps its groups and has no `UNION DISTINCT`. -/
theorem united_bags_iff {text database : String} {query tree : Tree}
    (hparse : Grammar.parse text = .ok query) (htree : tree ∈ query.descendants)
    {compound : Compound Tree} (hunites : tree.Unites compound) {sql? : Option Sql}
    (hwrite : (tree.write database).outcome.1 = .ok sql?) :
    ∃ sql tokens, sql? = some sql ∧ Lexer.lexemes? sql.render = some tokens ∧
      ((∃ chain, Chain.ofLexemes? tokens = some chain ∧
          List.Forall₂ (Tree.WrittenAs database) compound.selects chain.members ∧
          ∀ (ρ : Type) [DecidableEq ρ] (bags : Nat → Multiset ρ),
            chain.bag bags = compound.bag bags 0) ↔
        compound.Keeps ∧ .distinct ∉ compound.kinds) := by
  have hproper : ∀ below ∈ tree :: tree.descendants, below.hasRule .querySpecification = true →
      (ofTree database below).Proper fun _ => True := by
    intro below hbelow _
    have hall := Grammar.proper_of_parse (fun _ _ => trivial) hparse fun _ _ _ _ _ => trivial
    have hmem : below ∈ query.descendants := by
      rcases List.mem_cons.1 hbelow with rfl | hbelow
      · exact htree
      · exact Tree.mem_descendants_trans query htree hbelow
    refine proper_ofTree database below fun other hother => hall other (List.mem_cons_of_mem _ ?_)
    rcases List.mem_cons.1 hother with rfl | hother
    · exact hmem
    · exact Tree.mem_descendants_trans query hmem hother
  obtain ⟨sql, rfl, hwritten⟩ := (hunites.writes hproper).of_ok hwrite
  obtain ⟨members, hmembers, hall, hreads⟩ := hwritten.reads
  refine ⟨sql, _, rfl, hreads.lexemes?, ?_⟩
  rw [Chain.ofLexemes?_chained (Compound.Written.length_eq hmembers) hall]
  by_cases hdistinct : .distinct ∈ compound.kinds
  · simp [hdistinct]
  · rw [if_neg hdistinct]
    constructor
    · rintro ⟨chain, hchain, -, hbags⟩
      cases hchain
      exact ⟨Compound.bag_eq_flat_iff.1 fun ρ _ bags => (hbags ρ bags).symm, hdistinct⟩
    · rintro ⟨hkeeps, -⟩
      exact ⟨_, rfl, hmembers, fun ρ _ bags => hkeeps.bag_eq.symm⟩

/-- A `SELECT` of a column, at a byte offset. -/
def selectAt (name : String) (position : Nat) : Tree :=
  .node .querySpecification [.leaf ⟨.keyword .SELECT, "SELECT", position⟩,
    .node .selectItemList [.node .selectItem [.node .columnRef
      [.node .identifier [.leaf ⟨.identifier, name, position + 7⟩]]]]]

/-- `(SELECT b UNION SELECT c)`, at a byte offset. -/
def unionInParens (position : Nat) : Tree :=
  .node .queryExpressionParens [.leaf ⟨.symbol .openParen, "(", position⟩,
    .node .queryExpression [selectAt "b" (position + 1),
      .node .unionClause [.leaf ⟨.keyword .UNION, "UNION", position + 10⟩,
        selectAt "c" (position + 16)]],
    .leaf ⟨.symbol .closeParen, ")", position + 24⟩]

/-- `SELECT a UNION (SELECT b UNION SELECT c)` -/
def unionOfUnion : Tree :=
  .node .queryExpression [selectAt "a" 0,
    .node .unionClause [.leaf ⟨.keyword .UNION, "UNION", 9⟩, unionInParens 15]]

/-- `SELECT a UNION ALL (SELECT b UNION SELECT c)` -/
def unionAllOfUnion : Tree :=
  .node .queryExpression [selectAt "a" 0,
    .node .unionClause [.leaf ⟨.keyword .UNION, "UNION", 9⟩, .leaf ⟨.keyword .ALL, "ALL", 15⟩,
      unionInParens 19]]

/-- A statement that is a query. -/
def statementOf (tree : Tree) (ending : Nat) : Tree :=
  .node .query [.node .simpleStatement [.node .selectStatement [tree]],
    .leaf ⟨.ending, "", ending⟩]

theorem unites_selectAt (name : String) (pos : Nat) :
    (selectAt name pos).Unites (.select (selectAt name pos)) := .select rfl

/-- The union of the queries in parentheses. -/
def unionBC (position : Nat) : Compound Tree :=
  .union .plain (.select (selectAt "b" (position + 1))) (.select (selectAt "c" (position + 16)))

theorem unites_unionInParens (pos : Nat) :
    (unionInParens pos).Unites (unionBC pos) := by
  refine .parens ?_
  exact @Tree.Unites.union [selectAt "b" (pos + 1)] [⟨.keyword .UNION, "UNION", pos + 10⟩] _
    .plain _ _ (.member (unites_selectAt _ _)) rfl (unites_selectAt _ _)

theorem unites_unionOfUnion :
    unionOfUnion.Unites (.union .plain (.select (selectAt "a" 0)) (unionBC 15)) :=
  @Tree.Unites.union [selectAt "a" 0] [⟨.keyword .UNION, "UNION", 9⟩] _
    .plain _ _ (.member (unites_selectAt _ _)) rfl (unites_unionInParens 15)

/-- The groups of a `UNION` of a `UNION` do not matter. -/
theorem united_bags_iff_union :
    ∃ query sql tokens chain,
      Grammar.parse "SELECT a UNION (SELECT b UNION SELECT c)" = .ok query ∧
      unionOfUnion ∈ query.descendants ∧
      unionOfUnion.Unites (.union .plain (.select (selectAt "a" 0)) (unionBC 15)) ∧
      (unionOfUnion.write "wp").outcome.1 = .ok (some sql) ∧
      Lexer.lexemes? sql.render = some tokens ∧ Chain.ofLexemes? tokens = some chain ∧
      ∀ (ρ : Type) [DecidableEq ρ] (bags : Nat → Multiset ρ), chain.bag bags =
        (Compound.union .plain (.select (selectAt "a" 0)) (unionBC 15)).bag bags 0 := by
  have hparse : Grammar.parse "SELECT a UNION (SELECT b UNION SELECT c)" =
      .ok (statementOf unionOfUnion 40) := by
    with_unfolding_all rfl
  have hmem : unionOfUnion ∈ (statementOf unionOfUnion 40).descendants := by
    simp [statementOf, Tree.descendants, Tree.descendantsOfAll]
  have hwrite : (unionOfUnion.write "wp").outcome.1 = .ok (some [.raw "SELECT", .name "a",
      .raw "UNION", .raw "SELECT", .name "b", .raw "UNION", .raw "SELECT", .name "c"]) := rfl
  obtain ⟨sql, tokens, hsql, htokens, hiff⟩ :=
    united_bags_iff hparse hmem unites_unionOfUnion hwrite
  obtain ⟨chain, hchain, -, hbags⟩ := hiff.2 (by decide)
  exact ⟨_, _, tokens, chain, hparse, hmem, unites_unionOfUnion, hwrite,
    Option.some.inj hsql ▸ htokens, hchain, hbags⟩

/-- With a row that all three `SELECT`s have, MySQL answers it twice, and what is written once. -/
theorem unionAll_of_union_regrouped :
    Grammar.parse "SELECT a UNION ALL (SELECT b UNION SELECT c)" =
        .ok (statementOf unionAllOfUnion 44) ∧
      unionAllOfUnion.Unites (.union .all (.select (selectAt "a" 0)) (unionBC 19)) ∧
      ((unionAllOfUnion.write "wp").outcome.1.map (Option.map Sql.render) =
        .ok (some "SELECT \"a\" UNION ALL SELECT \"b\" UNION SELECT \"c\"")) ∧
      ∃ chain, (Lexer.lexemes? "SELECT \"a\" UNION ALL SELECT \"b\" UNION SELECT \"c\"").bind
          Chain.ofLexemes? = some chain ∧
        (Compound.union .all (.select (selectAt "a" 0)) (unionBC 19)).bag (fun _ => {()}) 0 =
          ({(), ()} : Multiset Unit) ∧
        chain.bag (fun _ => {()}) = ({()} : Multiset Unit) := by
  refine ⟨by with_unfolding_all rfl, ?_, ?_,
    ⟨[.all, .plain], ["a", "b", "c"].map fun name => [.word "SELECT", .quoted .double name]⟩,
    by decide +kernel, by decide, by decide⟩
  · exact @Tree.Unites.union [selectAt "a" 0] [⟨.keyword .UNION, "UNION", 9⟩,
      ⟨.keyword .ALL, "ALL", 15⟩]
      _ .all _ _ (.member (unites_selectAt _ _)) rfl (unites_unionInParens 19)
  · decide +kernel

end SqlBridge
