/-
The catalog after any changes of tables, in whatever order they come.

* `Follows`: the tables of the catalog after changes that succeed, from empty ones.  Nothing is
  asked of the changes but that they succeed.
* `Follows.exists_stored`: what is reached are the written rows of a typed catalog, so a property of
  typed rows that every change keeps (`Follows.of_step`) holds of all of them.
-/
import SqlBridge.Proofs.Catalog.Reachable

namespace SqlBridge

/-- A script succeeds on written rows exactly if it can be described and its commands succeed on the
typed rows. -/
theorem Script.perform_stored_eq_ok {script : Script} {cat : Catalog} {after : Tables} :
    script.perform Command.perform cat.stored = .ok ((), after) ↔
      script.failure = none ∧
        ∃ next, cat.after? script.commands = some next ∧ next.stored = after := by
  rw [perform_stored]
  cases cat.after? script.commands with
  | none => simp
  | some next =>
    cases script.failure with
    | none => simp
    | some error => simp

/-- The tables of the catalog of a database after any changes that succeed. -/
inductive Follows (schema : String) : Tables → Prop where
  | empty : Follows schema {}
  | step {tables after : Tables} {facts : TableFacts} {change : CatalogChange}
      (before : Follows schema tables)
      (done : (change.script schema facts).perform Command.perform tables = .ok ((), after)) :
      Follows schema after

namespace Follows

variable {schema : String} {tables : Tables}

/-- The catalog of a first table. -/
theorem ofCreateTable {tree : Tree}
    (h : (Script.createTable schema tree).perform Command.perform {} = .ok ((), tables)) :
    Follows schema tables :=
  @step schema _ _ {} (.createTable tree) .empty h

/-- What holds of no rows and is kept by the commands of every change holds of what is reached. -/
theorem of_step {P : Catalog → Prop} (he : P {})
    (hs : ∀ (cat next : Catalog) (facts : TableFacts) (change : CatalogChange), P cat →
      (change.script schema facts).failure = none →
      cat.after? (change.script schema facts).commands = some next → P next)
    (h : Follows schema tables) : ∃ cat : Catalog, tables = cat.stored ∧ P cat := by
  induction h with
  | empty => exact ⟨{}, rfl, he⟩
  | step _ done ih =>
    obtain ⟨cat, rfl, hc⟩ := ih
    obtain ⟨hf, next, hn, rfl⟩ := Script.perform_stored_eq_ok.1 done
    exact ⟨next, rfl, hs _ _ _ _ hc hf hn⟩

theorem exists_stored (h : Follows schema tables) : ∃ cat : Catalog, tables = cat.stored := by
  obtain ⟨cat, ht, -⟩ := h.of_step (P := fun _ => True) trivial fun _ _ _ _ _ _ _ => trivial
  exact ⟨cat, ht⟩

end Follows

end SqlBridge
