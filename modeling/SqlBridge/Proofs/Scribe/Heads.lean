/-
What a statement is written to begin with.

A draft is headed if what it writes begins with a data word (`Draft.Heads`); a draft of a query or
of another statement that was read is (`Draft.heads_query`, `Draft.heads_statement`).
-/
import SqlBridge.Proofs.Grammar.Opening
import SqlBridge.Proofs.Scribe.Results
import SqlBridge.Proofs.Sql.FirstWord

namespace SqlBridge

open List

open Scribe

/-- SQL that a draft is written as, after what was seen before it. -/
def Draft.CanWrite (draft : Draft) (sql : Sql) : Prop :=
  ∃ seen, (draft.write.runFrom seen).1 = .ok (some sql)

def Tree.CanWrite (database : String) (tree : Tree) (sql : Sql) : Prop :=
  (Draft.ofTree database tree).CanWrite sql

theorem Draft.yields_canWrite (draft : Draft) : draft.required.Yields draft.CanWrite := by
  have hw : draft.write.Yields fun sql? => ∀ sql ∈ sql?, draft.CanWrite sql := by
    refine yields_of_run ?_
    rintro seen _ hr sql rfl
    exact ⟨seen, hr⟩
  refine results_bind hw fun sql? hs => ?_
  cases sql? with
  | none => exact results_throw trivial
  | some sql => exact results_pure (hs sql rfl)

/-- What is written, and begins with a data word. -/
def Sql.IsHeaded (sql? : Option Sql) : Prop := ∃ sql, sql? = some sql ∧ sql.Headed

namespace Draft

/-- A draft that is written to begin with a data word. -/
def Heads (draft : Draft) : Prop := draft.write.Yields Sql.IsHeaded

section Written

variable {draft : Draft} {want : Sql → Prop}

theorem yields_sql (h : draft.write.Yields fun sql? => ∃ sql, sql? = some sql ∧ want sql) :
    draft.sql.Yields want := by
  refine results_bind h ?_
  rintro _ ⟨sql, rfl, hs⟩
  exact results_pure hs

theorem yields_required (h : draft.write.Yields fun sql? => ∃ sql, sql? = some sql ∧ want sql) :
    draft.required.Yields want := by
  refine results_bind h ?_
  rintro _ ⟨sql, rfl, hs⟩
  exact results_pure hs

theorem Heads.required (h : draft.Heads) : draft.required.Yields Sql.Headed := yields_required h

end Written

/-- Parts in a row begin as the first does. -/
theorem Heads.sequence {first : Draft} (h : first.Heads) (rest : List Draft) :
    (sequence (first :: rest)).Yields Sql.IsHeaded := by
  have written : (writeEach Draft.sql (first :: rest)).Yields Sql.Headed :=
    results_bind (yields_sql h) fun sql hs => yields_then fun others =>
      results_pure (hs.append others)
  refine results_bind written fun sql hs => results_pure ?_
  obtain ⟨word, hw, tail, rfl⟩ := hs
  exact ⟨_, rfl, word, hw, tail, rfl⟩

/-- A node that writes its parts in a row begins as its first part does. -/
theorem heads_node {db : String} {rule : Rule} {first : Tree} {rest : List Tree}
    (hr : ∀ node : Branch, node.write db rule = node.sequence)
    (h : (ofTree db first).Heads) : (ofTree db (.node rule (first :: rest))).Heads := by
  have hw : (ofTree db (.node rule (first :: rest))).write =
      sequence (ofTree db first :: ofTrees db rest) := hr _
  unfold Heads
  rw [hw]
  exact h.sequence _

/-- The keywords that data statements begin with are written as they are. -/
theorem heads_keyword {db : String} {tok : Token} {kw : Keyword} (ht : tok.isKeyword kw)
    (hk : kw ∈ [Keyword.SELECT, .DELETE, .CREATE, .DROP]) :
    (ofTree db (.leaf tok)).Heads := by
  have hki : tok.kind = .keyword kw := by simpa [Token.isKeyword] using ht
  have hw : (ofTree db (.leaf tok)).write = some <$> kw.sql := by
    show tok.sql = _
    rw [Token.sql, hki]
  have hs : kw.sql = (return Sql.word kw.spelling) ∧ kw.spelling ∈ dataWords := by
    simp only [mem_cons, not_mem_nil, or_false] at hk
    rcases hk with rfl | rfl | rfl | rfl
    all_goals exact ⟨rfl, by decide⟩
  unfold Heads
  rw [hw, hs.1]
  refine results_map (results_pure rfl) ?_
  rintro sql rfl
  exact ⟨_, rfl, _, hs.2, [], rfl⟩

theorem heads_query {db : String} {tree : Tree} (h : tree.IsQuery) :
    (ofTree db tree).Heads := by
  induction h with
  | plain ht =>
    refine heads_node (fun _ => rfl) ?_
    exact heads_node (fun _ => rfl) (heads_keyword ht (by simp))
  | @nested opening closing inner rest h ih =>
    refine heads_node (fun _ => rfl) ?_
    -- the parentheses are dropped, or the query is selected from
    have hr : inner.hasRule .queryExpression := by cases h <;> rfl
    have hn : ∀ node : Branch, node.parts = ofTrees db [.leaf opening, inner, .leaf closing] →
        (node.need .queryExpression).Yields fun part => part = ofTree db inner := by
      intro node hp
      have hc : node.child? .queryExpression = some (ofTree db inner) := by
        have hl : Tree.hasRule .queryExpression (.leaf opening) = false := rfl
        simp [Branch.child?, hp, ofTrees, hr, hl]
      unfold Branch.need
      rw [hc]
      exact results_pure rfl
    refine results_map (results_bind (hn _ rfl) ?_) fun sql hs => ⟨sql, rfl, hs⟩
    rintro part rfl
    refine results_bind ih.required fun query hq => ?_
    split
    · exact results_pure ⟨"SELECT", by decide, _, rfl⟩
    · exact results_pure hq

theorem yields_insertion (node : Branch) : node.insertion.Yields Sql.Headed := by
  have hv : (if node.tree.hasRule .replaceStatement then "REPLACE" else "INSERT") ∈ dataWords := by
    split <;> decide
  refine yields_then fun table => yields_then fun rows => ?_
  dsimp only
  cases node.child? .insertUpdateList with
  | none => exact yields_then fun update => results_pure ⟨_, hv, _, rfl⟩
  | some list => exact yields_then fun update => results_pure ⟨_, hv, _, rfl⟩

theorem yields_update (node : Branch) : node.update.Yields Sql.Headed := by
  have ending (mode : List String) :
      (do
        let rest ← writeEach Draft.sql (node.parts.filter (!Branch.isUpdateWord ·))
        return Sql.words ("UPDATE" :: mode) ++ rest : Scribe Sql).Yields Sql.Headed :=
    yields_then fun rest => results_pure ⟨"UPDATE", by decide, _, rfl⟩
  refine yields_then fun tables => ?_
  dsimp only
  split
  · split
    · exact yields_then fun _ => ending _
    · exact ending _
  · exact results_throw trivial

/-- A statement that was read begins with a data word, but for those that are planned otherwise. -/
theorem heads_statement (db : String) {stmt : Tree} (h : stmt.IsStatement)
    (rule : Rule) (hr : stmt.rule? = some rule)
    (hp : rule ≠ .alterStatement ∧ rule ≠ .setStatement) :
    (ofTree db stmt).Heads := by
  cases h with
  | select hq => exact heads_node (fun _ => rfl) (heads_query hq)
  | keyword hk ht =>
    simp only [Tree.keywordRules, mem_cons, Prod.mk.injEq, not_mem_nil, or_false]
      at hk
    rcases hk with ⟨rfl, rfl⟩ | ⟨rfl, rfl⟩ | ⟨rfl, rfl⟩
    all_goals exact heads_node (fun _ => rfl) (heads_keyword ht (by simp))
  | worded hw =>
    simp only [Tree.wordedRules, mem_cons, not_mem_nil, or_false] at hw
    rcases hw with rfl | rfl | rfl | rfl | rfl
    · exact results_map (yields_insertion _) fun sql hs => ⟨sql, rfl, hs⟩
    · exact results_map (yields_insertion _) fun sql hs => ⟨sql, rfl, hs⟩
    · exact results_map (yields_update _) fun sql hs => ⟨sql, rfl, hs⟩
    · exact absurd (Option.some.inj hr).symm hp.1
    · exact absurd (Option.some.inj hr).symm hp.2

end Draft

end SqlBridge
