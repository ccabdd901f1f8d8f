/-
The catalog after the statements of a session.

* `Tables.facts`: what the catalog knows about the table of a change, read back from its row.
* `CatalogChange.follow`: what the catalog does for a change of a table.
* `Driven`: the tables of the catalog after statements that succeed, from empty ones.  What a change
  is asked to meet where it is made is a parameter.
-/
import SqlBridge.Grammar.Statement
import SqlBridge.Plan.Statement
import SqlBridge.Proofs.Catalog.Followed

namespace SqlBridge

/-- The recorded collation of a table. -/
def Tables.collation? (tables : Tables) (place : Place) : Option String :=
  ((tables.tables.find? fun record => record.IsAt place).bind
    (·.value? "table_collation")).bind Value.text?

/-- What the catalog knows about the table of a change. -/
def Tables.facts (tables : Tables) (db : String) : CatalogChange → TableFacts
  | .addColumn table _ => .ofCollation (tables.collation? ⟨db, table⟩)
  | _ => {}

/-- What the catalog does for a change of a table. -/
def CatalogChange.follow (db : String) (change : CatalogChange) :
    StateT Tables (Except Error) Unit := fun tables =>
  (change.script db (tables.facts db change)).perform Command.perform tables

/-- The changes of tables that a statement is planned to make. -/
def plannedChanges (db sql : String) : Except Error (List CatalogChange) := do
  let tree ← Grammar.parse sql
  let plan ← (Plan.ofTree db tree).outcome.1
  return plan.steps.filterMap Step.change

/-- The tables of the catalog before and after changes that succeed one after the other. -/
inductive FollowsEach (database : String) (allowed : Tables → CatalogChange → Prop) :
    Tables → List CatalogChange → Tables → Prop where
  | nil {tables : Tables} : FollowsEach database allowed tables [] tables
  | cons {tables next after : Tables} {change : CatalogChange} {rest : List CatalogChange}
      (permitted : allowed tables change) (done : change.follow database tables = .ok ((), next))
      (others : FollowsEach database allowed next rest after) :
      FollowsEach database allowed tables (change :: rest) after

/-- The tables of the catalog of a database after statements that succeed. -/
inductive Driven (database : String) (allowed : Tables → CatalogChange → Prop) : Tables → Prop where
  | start : Driven database allowed {}
  | statement {sql : String} {changes : List CatalogChange} {tables after : Tables}
      (before : Driven database allowed tables)
      (planned : plannedChanges database sql = .ok changes)
      (done : FollowsEach database allowed tables changes after) : Driven database allowed after

section Steps

variable {db : String} {allowed : Tables → CatalogChange → Prop} {P : Catalog → Prop}
  {tables after : Tables} {changes : List CatalogChange}

/-- What every permitted change keeps of typed rows is kept by several. -/
theorem FollowsEach.of_step
    (hs : ∀ (cat next : Catalog) (facts : TableFacts) (change : CatalogChange), P cat →
      allowed cat.stored change →
      cat.after? (change.script db facts).commands = some next → P next)
    (h : FollowsEach db allowed tables changes after)
    (ht : ∃ cat : Catalog, tables = cat.stored ∧ P cat) :
    ∃ cat : Catalog, after = cat.stored ∧ P cat := by
  induction h with
  | nil => exact ht
  | cons permitted done _ ih =>
    obtain ⟨cat, rfl, hc⟩ := ht
    obtain ⟨-, next, hn, rfl⟩ := Script.perform_stored_eq_ok.1 done
    exact ih ⟨next, rfl, hs _ _ _ _ hc permitted hn⟩

/-- What holds of no rows and is kept by every permitted change holds after any statements. -/
theorem Driven.of_step (he : P {})
    (hs : ∀ (cat next : Catalog) (facts : TableFacts) (change : CatalogChange), P cat →
      allowed cat.stored change →
      cat.after? (change.script db facts).commands = some next → P next)
    (h : Driven db allowed tables) : ∃ cat : Catalog, tables = cat.stored ∧ P cat := by
  induction h with
  | start => exact ⟨{}, rfl, he⟩
  | statement _ _ done ih => exact done.of_step hs ih

end Steps

/-! ### Running statements -/

section Runs

variable {db : String} {allowed : Tables → CatalogChange → Prop}
  [∀ tables change, Decidable (allowed tables change)] {tables after : Tables}

/-- The tables of the catalog after changes one after the other, if they are permitted. -/
def afterChanges? (db : String) (allowed : Tables → CatalogChange → Prop)
    [∀ tables change, Decidable (allowed tables change)] :
    List CatalogChange → Tables → Option Tables
  | [], tables => some tables
  | change :: rest, tables =>
    if allowed tables change then
      match change.follow db tables with
      | .ok ((), next) => afterChanges? db allowed rest next
      | .error _ => none
    else none

/-- The tables of the catalog after statements one after the other. -/
def afterStatements? (db : String) (allowed : Tables → CatalogChange → Prop)
    [∀ tables change, Decidable (allowed tables change)] : List String → Tables → Option Tables
  | [], tables => some tables
  | sql :: rest, tables =>
    match plannedChanges db sql with
    | .ok changes =>
      (afterChanges? db allowed changes tables).bind (afterStatements? db allowed rest)
    | .error _ => none

theorem FollowsEach.of_afterChanges? {changes : List CatalogChange}
    (h : afterChanges? db allowed changes tables = some after) :
    FollowsEach db allowed tables changes after := by
  induction changes generalizing tables with
  | nil =>
    cases h
    exact .nil
  | cons change rest ih =>
    rw [afterChanges?] at h
    split at h
    · rename_i ha
      split at h
      · rename_i next hd
        exact .cons ha hd (ih h)
      · cases h
    · cases h

theorem Driven.of_afterStatements? {sqls : List String} (hb : Driven db allowed tables)
    (h : afterStatements? db allowed sqls tables = some after) :
    Driven db allowed after := by
  induction sqls generalizing tables with
  | nil =>
    cases h
    exact hb
  | cons sql rest ih =>
    rw [afterStatements?] at h
    split at h
    · rename_i changes hp
      obtain ⟨next, hn, ha⟩ := Option.bind_eq_some_iff.1 h
      exact ih (.statement hb hp (.of_afterChanges? hn)) ha
    · cases h

end Runs

end SqlBridge
