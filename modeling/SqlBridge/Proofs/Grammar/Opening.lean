/-
How the syntax tree of a statement begins.

* `Tree.IsQuery`: a query begins with a `SELECT`, or with a query in parentheses.
* `Tree.IsStatement`: a statement begins with such a query or with the keyword of its rule, as far
  as the rule does not write its first word by itself.
* `Grammar.isStatement_of_parse`: a text that can be read is such a statement.
-/
import SqlBridge.Grammar.Statement
import SqlBridge.Proofs.Grammar.Read

namespace SqlBridge

namespace Tree

/-- A query expression, told by its first part. -/
inductive IsQuery : Tree → Prop
  | plain {token : Token} {items rest : List Tree} (h : token.isKeyword .SELECT) :
      IsQuery (.node .queryExpression (.node .querySpecification (.leaf token :: items) :: rest))
  | nested {opening closing : Token} {inner : Tree} {rest : List Tree} (h : IsQuery inner) :
      IsQuery (.node .queryExpression
        (.node .queryExpressionParens [.leaf opening, inner, .leaf closing] :: rest))

/-- The rules of statements that begin with a keyword which is written as it is. -/
def keywordRules : List (Rule × Keyword) :=
  [(.deleteStatement, .DELETE), (.createStatement, .CREATE), (.dropStatement, .DROP)]

/-- The rules of statements whose first word does not depend on the tree. -/
def wordedRules : List Rule :=
  [.insertStatement, .replaceStatement, .updateStatement, .alterStatement, .setStatement]

/-- A statement, told by its first part. -/
inductive IsStatement : Tree → Prop
  | select {query : Tree} {rest : List Tree} (h : query.IsQuery) :
      IsStatement (.node .selectStatement (query :: rest))
  | keyword {rule : Rule} {keyword : Keyword} {token : Token} {rest : List Tree}
      (hrule : (rule, keyword) ∈ keywordRules) (h : token.isKeyword keyword) :
      IsStatement (.node rule (.leaf token :: rest))
  | worded {rule : Rule} {children : List Tree} (hrule : rule ∈ wordedRules) :
      IsStatement (.node rule children)

end Tree

namespace Grammar

open Phrase

variable {ts rest : List Token} {trees : List Tree}

/-- What stands for a query is one. -/
def ReadsQuery (name : Name) : Reads := fun _ trees _ =>
  name = .queryExpression → ∃ tree, trees = [tree] ∧ tree.IsQuery

theorem readsQuery_production (name : Name) (ts : List Token) (trees : List Tree)
    (rest : List Token) (h : (productions name).Derives ReadsQuery ts trees rest) :
    ReadsQuery name ts trees rest := by
  rintro rfl
  obtain ⟨_, ⟨_, _, _, hte, -, rfl⟩, rfl⟩ := h
  refine ⟨_, rfl, ?_⟩
  rcases hte with ⟨-, _, ⟨_, _, _, ⟨opening, -, -, rfl⟩, ⟨_, _, _, hin, ⟨closing, -, -, rfl⟩, rfl⟩,
    rfl⟩, rfl⟩ | ⟨-, _, ⟨_, _, _, ⟨token, -, ht, rfl⟩, -, rfl⟩, rfl⟩
  · obtain ⟨inner, rfl, hq⟩ := hin rfl
    exact .nested hq
  · exact .plain ht

/-- A statement that begins with the keyword of its rule. -/
theorem isStatement_of_keyword {rule : Rule} {k : Keyword} {next : Phrase} {parts : List Phrase}
    (hr : (rule, k) ∈ Tree.keywordRules)
    (h : (make rule (keyword k :: next :: parts)).Derives ReadsQuery ts trees rest) :
    ∃ tree, trees = [tree] ∧ tree.IsStatement := by
  obtain ⟨_, ⟨_, _, _, ⟨token, -, ht, rfl⟩, -, rfl⟩, rfl⟩ := h
  exact ⟨_, rfl, .keyword hr ht⟩

theorem isStatement_of_worded {rule : Rule} {parts : List Phrase} (hr : rule ∈ Tree.wordedRules)
    (h : (make rule parts).Derives ReadsQuery ts trees rest) :
    ∃ tree, trees = [tree] ∧ tree.IsStatement := by
  obtain ⟨kids, -, rfl⟩ := h
  exact ⟨_, rfl, .worded hr⟩

theorem isStatement_of_derives (h : simpleStatement.Derives ReadsQuery ts trees rest) :
    ∃ stmt, trees = [.node .simpleStatement [stmt]] ∧ stmt.IsStatement := by
  obtain ⟨kids, hro, rfl⟩ := h
  suffices ho : ∃ stmt, kids = [stmt] ∧ stmt.IsStatement by
    obtain ⟨stmt, rfl, hs⟩ := ho
    exact ⟨stmt, rfl, hs⟩
  rcases derives_firstOf hro with hn | ⟨entry, he, -, hr⟩
  · exact hn.elim
  simp only [List.mem_cons, List.not_mem_nil, or_false] at he
  rcases he with rfl | rfl | rfl | rfl | rfl | rfl | rfl | rfl | rfl
  · obtain ⟨_, ⟨_, _, _, hq, -, rfl⟩, rfl⟩ := hr
    obtain ⟨query, rfl, hi⟩ := hq rfl
    exact ⟨_, rfl, .select hi⟩
  · exact isStatement_of_worded (by decide) hr
  · exact isStatement_of_worded (by decide) hr
  · exact isStatement_of_worded (by decide) hr
  · exact isStatement_of_keyword (by decide) hr
  · exact isStatement_of_keyword (by decide) hr
  · exact isStatement_of_worded (by decide) hr
  · exact isStatement_of_keyword (by decide) hr
  · exact isStatement_of_worded (by decide) hr

/-- A text that can be read is a statement, maybe with a semicolon after it. -/
theorem exists_statement_of_parse {text : String} {tree : Tree} (h : parse text = .ok tree) :
    ∃ stmt others, stmt.IsStatement ∧
      tree = .node .query (.node .simpleStatement [stmt] :: others) ∧
      ∀ other ∈ others, ∃ token, other = .leaf token ∧
        (token.isSymbol .semicolon ∨ token.isEnding) := by
  obtain ⟨ts, -, h⟩ := bind_eq_ok h
  obtain ⟨⟨trees, rest⟩, hr, h⟩ := bind_eq_ok h
  obtain ⟨_, ⟨_, _, _, hf, ⟨semi, _, _, hs, ⟨ending, -, he, rfl⟩, rfl⟩, rfl⟩, rfl⟩ :=
    derives_of_read readsQuery_production hr
  obtain ⟨stmt, rfl, hi⟩ := isStatement_of_derives hf
  cases h
  refine ⟨stmt, semi ++ [.leaf ending], hi, rfl, List.forall_mem_append.2 ⟨?_, ?_⟩⟩
  · rcases hs with ⟨-, token, -, hk, rfl⟩ | ⟨-, rfl, -⟩
    · simpa using .inl hk
    · simp
  · simpa using .inr he

theorem isStatement_of_parse {text : String} {tree : Tree} (h : parse text = .ok tree) :
    ∃ stmt others, stmt.IsStatement ∧
      tree = .node .query (.node .simpleStatement [stmt] :: others) := by
  obtain ⟨stmt, others, hs, he, -⟩ := exists_statement_of_parse h
  exact ⟨stmt, others, hs, he⟩

end Grammar

end SqlBridge
