/-
The indexes of a renamed table.

SQLite keeps the name of an index when its table is renamed, so every index of the table is dropped
and made again from the definition that SQLite has of it, with its first quoted name exchanged.

* `Text.replaceFirst_append`: before the first quote there is no place for a quoted name.
* `WrittenIndex.renamedIndex?_keptRow`: the two statements for one index.
* `Call.renameIndexes_recreates`: all indexes of the table, one after the other.
-/
import SqlBridge.Proofs.Session.IndexName

namespace SqlBridge

open List

variable (index : WrittenIndex)

/-- A quoted name is found where the first quote stands. -/
theorem Text.replaceFirst_append {old new before after : List Char} (h : '"' ∉ before) :
    replaceFirst ('"' :: old) new (before ++ '"' :: (old ++ after)) = before ++ (new ++ after) := by
  induction before with
  | nil =>
    have ha : after? ('"' :: old) ('"' :: (old ++ after)) = some after :=
      after?_eq_some.2 (cons_append ..).symm
    rw [nil_append, nil_append, replaceFirst, ha]
  | cons c rest ih =>
    rw [mem_cons, not_or] at h
    have hn : after? ('"' :: old) (c :: (rest ++ '"' :: (old ++ after))) = none := by
      rw [Option.eq_none_iff_forall_ne_some]
      intro following hf
      exact h.1 (List.cons.inj (after?_eq_some.1 hf)).1.symm
    rw [cons_append, replaceFirst, hn, cons_append]
    exact congrArg (c :: ·) (ih h.2)

/-- An index, with what its columns are written as. -/
structure WrittenIndex where
  name : String
  unique : Bool
  keys : Draft
  columns : Sql
  seen : Sightings
  written : keys.required.outcome = (.ok columns, seen)

namespace WrittenIndex

/-- The statement that makes an index, under a name. -/
def sql (index : WrittenIndex) (name table : String) : Sql :=
  .raw "CREATE" :: (Sql.words (if index.unique then ["UNIQUE", "INDEX"] else ["INDEX"]) ++
    [Piece.name name, .raw "ON", .name table] ++ index.columns)

/-- What SQLite has of an index when its table was renamed. -/
def keptRow (table newName : String) (index : WrittenIndex) : Row where
  columns := ["name", "sql"]
  values := [.text (indexName table index.name),
    .text (index.sql (indexName table index.name) newName).render]

/-- The statements that give an index the name of the renamed table. -/
def recreation (table newName : String) (index : WrittenIndex) : List String :=
  ["DROP INDEX " ++ Text.quoted '"' (indexName table index.name),
    (index.sql (indexName newName index.name) newName).render]

/-- An index is made by `CREATE` and its definition. -/
theorem outcome_indexDefinition (table : String) :
    ((fun defn => Sql.render (.raw "CREATE" :: defn)) <$>
      Branch.indexDefinition table index.name index.unique index.keys).outcome =
      (.ok (index.sql (indexName table index.name) table).render, index.seen) := by
  have hk : (index.keys.required).runFrom {} = (.ok index.columns, index.seen) := index.written
  rw [map_eq_pure_bind, Branch.indexDefinition, bind_assoc]
  change Scribe.runFrom _ {} = _
  rw [Scribe.runFrom_bind, hk]
  rfl

/-- Only the name of an index stands before the first quote of its definition. -/
theorem toList_render_sql (name table : String) : (index.sql name table).render.toList =
      (if index.unique then "CREATE UNIQUE INDEX " else "CREATE INDEX ").toList ++
        '"' :: ((Text.doubled '"' name.toList ++ ['"']) ++
          (Piece.renderAfter (some .word) (.raw "ON" :: .name table :: index.columns)).toList) := by
  have hn : (Text.quoted '"' name).toList = '"' :: (Text.doubled '"' name.toList ++ ['"']) := by
    simp [Text.quoted]
  have hg : ∀ word ∈ ["CREATE", "UNIQUE", "INDEX", "ON"], (Piece.raw word).glue = .word := by
    decide +kernel
  rw [← cons_append, ← hn, sql, Sql.render]
  simp only [forall_mem_cons] at hg
  cases index.unique <;>
    simp [Sql.words, Piece.renderAfter, Piece.spacedAfter, Piece.render, Glue.spaced, hg,
      show (Piece.name name).glue = .word from rfl]
theorem quote_not_mem_create (unique : Bool) :
    '"' ∉ (if unique then "CREATE UNIQUE INDEX " else "CREATE INDEX ").toList := by
  cases unique <;> decide

/-- The statements for one index, whatever quotes or copies of names the names hold. -/
theorem renamedIndex?_keptRow (table newName : String) :
    Call.renamedIndex? table newName (index.keptRow table newName) =
      some ("DROP INDEX " ++ Text.quoted '"' (indexName table index.name),
        (index.sql (indexName newName index.name) newName).render) := by
  have ha : Text.after? (indexName table "").toList (indexName table index.name).toList =
      some index.name.toList := by
    rw [Text.after?_eq_some, toList_indexName, toList_indexName]
    simp
  have hr : Text.replaceFirst (Text.quoted '"' (indexName table index.name)).toList
      (Text.quoted '"' (indexName newName index.name)).toList
      (index.sql (indexName table index.name) newName).render.toList =
      (index.sql (indexName newName index.name) newName).render.toList := by
    rw [toList_render_sql, toList_render_sql, Text.quoted, String.toList_ofList,
      cons_append, Text.replaceFirst_append (quote_not_mem_create _)]
    simp [Text.quoted]
  simp [Call.renamedIndex?, keptRow, Value.text?, ha, hr]
end WrittenIndex
namespace Call
variable {σ : Type} (storage : Storage σ)
/-- Sends some texts one after the other, until one is refused. -/
def sendEach (texts : List String) : Call σ Unit :=
  texts.forM fun sql => do let _ ← send storage ⟨sql, []⟩
/-- Dropping and making again all indexes on a list. -/
theorem recreateIndexes_keptRows (table newName : String) (indexes : List WrittenIndex) :
    recreateIndexes storage table newName (indexes.map (WrittenIndex.keptRow table newName)) =
      sendEach storage (indexes.flatMap (WrittenIndex.recreation table newName)) := by
  induction indexes with
  | nil => rfl
  | cons index rest ih =>
    rw [map_cons, recreateIndexes, WrittenIndex.renamedIndex?_keptRow, ih]
    simp [sendEach, WrittenIndex.recreation]
/-- When a table has its new name and SQLite lists its indexes, each of them in turn is dropped
under its old name and made by `CREATE` and its definition for the renamed table. -/
theorem renameIndexes_recreates (table newName : String) (indexes : List WrittenIndex)
    (report : Report) (session : Session σ)
    (hl : (storage.perform (indexListing newName) session.storage).1 =
      .ok (indexes.map (WrittenIndex.keptRow table newName))) :
    (∀ index ∈ indexes, ∃ create,
      index.recreation table newName =
        ["DROP INDEX " ++ Text.quoted '"' (indexName table index.name), create] ∧
      ((fun definition => Sql.render (.raw "CREATE" :: definition)) <$>
        Branch.indexDefinition newName index.name index.unique index.keys).outcome =
        (.ok create, index.seen)) ∧
    (renameIndexes storage table newName).runFrom report session =
      (do let _ ← send storage (indexListing newName)
          sendEach storage (indexes.flatMap (WrittenIndex.recreation table newName))).runFrom
        report session := by
  refine ⟨fun index _ => ⟨_, rfl, index.outcome_indexDefinition newName⟩, ?_⟩
  have hi : renameIndexes storage table newName =
      send storage (indexListing newName) >>=
        recreateIndexes storage table newName := rfl
  rw [hi, runFrom_bind, runFrom_bind, runFrom_send, hl]
  exact congrArg (runFrom · _ _) (recreateIndexes_keptRows storage table newName indexes)

/-- The indexes of a table `t` that is now called `u`: the name of one is a quoted name of the
other. -/
def tangledIndexes : List WrittenIndex :=
  let keys : Draft := Draft.ofTree "wp" (.node .keyList [.leaf ⟨.symbol .openParen, "(", 0⟩,
    .node .keyPart [.node .identifier [.leaf ⟨.identifier, "c", 1⟩]],
    .leaf ⟨.symbol .closeParen, ")", 2⟩])
  let columns : Sql := [.operator "(", .name "c", .operator ")"]
  [⟨"a", true, keys, columns, {}, rfl⟩, ⟨"\"t__a\"", false, keys, columns, {}, rfl⟩]

/-- A storage that lists them and takes every other statement. -/
def tangledStorage : Storage Unit where
  execute statement s :=
    (.ok (if statement = indexListing "u" then
      tangledIndexes.map (WrittenIndex.keptRow "t" "u") else []), s)
  patience _ _ := 0

theorem renameIndexes_recreates_tangled :
    ((renameIndexes tangledStorage "t" "u").runFrom { query := "" }
      { storage := () }).1.2.executed = [indexListing "u", ⟨"DROP INDEX \"t__a\"", []⟩,
        ⟨"CREATE UNIQUE INDEX \"u__a\" ON \"u\" (\"c\")", []⟩,
        ⟨"DROP INDEX \"t__\"\"t__a\"\"\"", []⟩,
        ⟨"CREATE INDEX \"u__\"\"t__a\"\"\" ON \"u\" (\"c\")", []⟩] := by
  rw [(renameIndexes_recreates tangledStorage "t" "u" tangledIndexes { query := "" }
    { storage := () } rfl).2]
  decide +kernel

end Call

end SqlBridge
