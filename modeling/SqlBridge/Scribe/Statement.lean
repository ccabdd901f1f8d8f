/-
What every rule of the grammar is written as, and the SQLite text of a whole tree.

* `Branch.write` is the list of all rules.  A rule without an entry writes its parts one after the
  other.
* `Draft.ofTree` drafts a tree from its leaves up.
* `Tree.write` is the computation that writes a tree.
-/
import SqlBridge.Scribe.Definition
import SqlBridge.Scribe.Expression
import SqlBridge.Scribe.Manipulation

namespace SqlBridge

/-- How a node is written; `database` is the name of the one database. -/
def Branch.write (database : String) (rule : Rule) (node : Branch) : Scribe (Option Sql) :=
  match rule with
  -- clauses without a counterpart
  | .lockingClause | .insertLockOption | .deleteStatementOption | .fieldLength | .precision
  | .typeDatetimePrecision | .fieldOptions | .stringList | .charsetWithOptBinary | .charsetName
  | .collationName | .indexTypeClause | .indexType | .indexOption | .createTableOptions
  | .createTableOption | .engineRef | .place | .setStatement => return none
  -- queries
  | .queryExpressionParens => some <$> node.nestedQuery
  | .selectOption => node.selectOption
  | .selectAlias | .tableAlias => some <$> node.aliased
  | .fromClause => node.fromClause
  | .indexHintList | .indexHint => Scribe.unsupported .indexHints
  | .groupByClause => node.groupByClause
  | .olapOption => Scribe.unsupported .withRollup
  | .orderExpression => some <$> node.orderTerm
  -- insertions and updates
  | .insertStatement | .replaceStatement => some <$> node.insertion
  | .insertFromConstructor => some <$> node.insertedValues
  | .fields => some <$> node.insertedColumns
  | .values => node.valuesRow
  | .insertUpdateList => some <$> node.conflictClause
  | .updateElement => some <$> node.assignment
  | .updateStatement => some <$> node.update
  -- definitions
  | .createTable => node.createTable
  | .tableName | .tableRef => node.tableName database
  | .tableElementList => some <$> node.tableElements
  | .columnDefinition => some <$> node.columnDefinition false
  | .dataType => do return some (← columnTypeSql node.tree)
  | .columnAttribute => node.columnAttribute
  | .references => some <$> node.references
  | .tableConstraintDef => node.constraint
  | .constraintName => node.constraintName
  | .duplicateAsQueryExpression => some <$> node.tableQuery
  | .createIndex => some <$> node.createIndex
  | .alterStatement | .alterTable | .alterList | .alterListItem =>
    Scribe.unsupported .alterOutsideDriver
  | .dropTable => some <$> node.dropTable
  | .dropIndex => some <$> node.dropIndex
  -- expressions
  | .boolPri => node.comparison
  | .bitExpr => some <$> node.arithmetic
  | .simpleExpr => node.simpleExpression
  | .textStringLiteral => return some [.string node.tree.text]
  | .boolLiteral => return some [.literal (.boolean (node.tree.hasKeyword .TRUE))]
  | .temporalLiteral => do (← node.need .textStringLiteral).write
  | .columnRef => node.columnName database
  | .identifier => some <$> node.identifier
  | .functionCall | .runtimeFunctionCall => some <$> node.functionCall database
  | .sumExpr => some <$> node.aggregate
  | .castType => Scribe.unsupported .castTypeOutsideCast
  | .interval | .intervalTimeStamp => Scribe.unsupported .intervalOutsideArithmetic
  | .systemVariable => return some [.literal .null]
  | .userVariable => Scribe.unsupported .userVariables
  | _ => node.sequence

namespace Draft

mutual

/-- A tree with the computation that writes it, and so for all its parts. -/
def ofTree (database : String) : Tree → Draft
  | .leaf token => .mk (.leaf token) [] token.sql
  | .node rule children =>
    let parts := ofTrees database children
    .mk (.node rule children) parts (Branch.write database rule ⟨.node rule children, parts⟩)

def ofTrees (database : String) : List Tree → List Draft
  | [] => []
  | tree :: rest => ofTree database tree :: ofTrees database rest

end

end Draft

namespace Tree

/-- The SQLite counterpart of a tree, `none` if it stands for nothing. -/
def write (database : String) (tree : Tree) : Scribe (Option Sql) :=
  (Draft.ofTree database tree).write

/-- The SQLite counterpart of the definition of a column; `keyed` if it is the primary key by a
constraint of its table. -/
def writeColumn (database : String) (keyed : Bool) (tree : Tree) : Scribe Sql :=
  (Draft.ofTree database tree).branch.columnDefinition keyed

end Tree

end SqlBridge
