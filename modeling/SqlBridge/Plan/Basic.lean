/-
Plans: the SQLite statements that a MySQL statement stands for, with the changes of the catalog that
follow them.
-/
import SqlBridge.Catalog.Script

namespace SqlBridge

/-- What kind of statement a query is. -/
inductive Verb where
  | select | insert | replace | update | delete | create | alter | drop | set | transaction
deriving DecidableEq, Repr

def Verb.name : Verb → String
  | .select => "SELECT"
  | .insert => "INSERT"
  | .replace => "REPLACE"
  | .update => "UPDATE"
  | .delete => "DELETE"
  | .create => "CREATE"
  | .alter => "ALTER"
  | .drop => "DROP"
  | .set => "SET"
  | .transaction => "TRANSACTION"

/-- A change of a table that the catalog has to follow. -/
inductive CatalogChange where
  | createTable (definition : Tree)
  | addColumn (table : String) (definition : Tree)
  | dropColumn (table column : String)
  | addIndex (table : String) (index : Index)
  | dropIndex (table index : String)
  | renameTable (table newName : String)
  | renameColumn (table column newName : String)
  | dropTable (table : String)

/-- What the catalog does for a change; a new column needs the facts about its table. -/
def CatalogChange.script (schema : String) (facts : TableFacts) : CatalogChange → Script
  | .createTable definition => Script.createTable schema definition
  | .addColumn table definition => Script.addColumn ⟨schema, table⟩ definition facts
  | .dropColumn table column => Script.dropColumn ⟨schema, table⟩ column
  | .addIndex table index => Script.addIndex ⟨schema, table⟩ index
  | .dropIndex table index => Script.dropIndex ⟨schema, table⟩ index
  | .renameTable table newName => Script.renameTable ⟨schema, table⟩ newName
  | .renameColumn table column newName => Script.renameColumn ⟨schema, table⟩ column newName
  | .dropTable table => Script.dropTable ⟨schema, table⟩

/-- Statements to execute, and then a change of the catalog. -/
structure Step where
  statements : List String
  change : Option CatalogChange := none

structure Plan where
  verb : Verb
  /-- The table that the statement is about. -/
  table : Option String := none
  steps : List Step := []
  /-- A table; if it exists already, there is nothing to do. -/
  unlessExists : Option String := none

end SqlBridge
