/-
The names of grammar rules: each interior node of a syntax tree carries one.

`fragment` marks a loose run of children; building a node splices such runs into their parent, so
it is not a rule that can be looked up by name.
-/

namespace SqlBridge

inductive Rule where
  | fragment | query | simpleStatement | selectStatement
  | queryExpression | queryExpressionParens | querySpecification | unionClause
  | selectOption | selectItemList | selectItem | selectAlias
  | tableWild | fromClause | tableReferenceList | tableReference
  | tableFactor | singleTable | derivedTable | tableReferenceListParens
  | tableAlias | indexHintList | indexHint | joinedTable
  | innerJoinType | outerJoinType | naturalJoinType | identifierList
  | identifierListWithParentheses | whereClause | groupByClause | olapOption
  | havingClause | orderClause | orderList | orderExpression
  | direction | limitClause | limitOptions | limitOption
  | lockingClause | insertStatement | replaceStatement | insertLockOption
  | insertFromConstructor | fields | insertValues | valueList
  | values | insertQueryExpression | insertUpdateList | updateList
  | updateElement | updateStatement | deleteStatement | deleteStatementOption
  | createStatement | createTable | createIndex | ifNotExists
  | ifExists | tableName | tableRef | tableRefList
  | tableElementList | tableElement | columnDefinition | fieldDefinition
  | dataType | fieldLength | precision | typeDatetimePrecision
  | fieldOptions | stringList | charsetWithOptBinary | charsetName
  | collationName | columnAttribute | generatedColumn | signedLiteral
  | references | tableConstraintDef | constraintName | indexName
  | keyList | keyPart | indexTypeClause | indexType
  | indexOption | createTableOptions | createTableOption | engineRef
  | duplicateAsQueryExpression | alterStatement | alterTable | alterList
  | alterListItem | place | dropStatement | dropTable
  | dropIndex | setStatement | expr | boolPri
  | compOp | predicate | bitExpr | simpleExpr
  | exprList | exprWithParentheses | subquery | literal
  | textLiteral | textStringLiteral | numLiteral | nullLiteral
  | boolLiteral | temporalLiteral | columnRef | identifier
  | qualifiedIdentifier | functionCall | runtimeFunctionCall | sumExpr
  | udfExprList | udfExpr | castType | interval
  | intervalTimeStamp | caseExpression | whenExpression | elseExpression
  | systemVariable | userVariable
deriving DecidableEq, Repr, Inhabited

namespace Rule

/-- The place of a rule in declaration order. -/
def index (rule : Rule) : Nat := rule.ctorIdx

/-- The grammar names of the rules, in declaration order. -/
def names : List String :=
  ["%fragment", "query", "simpleStatement", "selectStatement", "queryExpression",
   "queryExpressionParens", "querySpecification", "unionClause", "selectOption", "selectItemList",
   "selectItem", "selectAlias", "tableWild", "fromClause", "tableReferenceList", "tableReference",
   "tableFactor", "singleTable", "derivedTable", "tableReferenceListParens", "tableAlias",
   "indexHintList", "indexHint", "joinedTable", "innerJoinType", "outerJoinType", "naturalJoinType",
   "identifierList", "identifierListWithParentheses", "whereClause", "groupByClause", "olapOption",
   "havingClause", "orderClause", "orderList", "orderExpression", "direction", "limitClause",
   "limitOptions", "limitOption", "lockingClause", "insertStatement", "replaceStatement",
   "insertLockOption", "insertFromConstructor", "fields", "insertValues", "valueList", "values",
   "insertQueryExpression", "insertUpdateList", "updateList", "updateElement", "updateStatement",
   "deleteStatement", "deleteStatementOption", "createStatement", "createTable", "createIndex",
   "ifNotExists", "ifExists", "tableName", "tableRef", "tableRefList", "tableElementList",
   "tableElement", "columnDefinition", "fieldDefinition", "dataType", "fieldLength", "precision",
   "typeDatetimePrecision", "fieldOptions", "stringList", "charsetWithOptBinary", "charsetName",
   "collationName", "columnAttribute", "generatedColumn", "signedLiteral", "references",
   "tableConstraintDef", "constraintName", "indexName", "keyList", "keyPart", "indexTypeClause",
   "indexType", "indexOption", "createTableOptions", "createTableOption", "engineRef",
   "duplicateAsQueryExpression", "alterStatement", "alterTable", "alterList", "alterListItem",
   "place", "dropStatement", "dropTable", "dropIndex", "setStatement", "expr", "boolPri", "compOp",
   "predicate", "bitExpr", "simpleExpr", "exprList", "exprWithParentheses", "subquery", "literal",
   "textLiteral", "textStringLiteral", "numLiteral", "nullLiteral", "boolLiteral",
   "temporalLiteral", "columnRef", "identifier", "qualifiedIdentifier", "functionCall",
   "runtimeFunctionCall", "sumExpr", "udfExprList", "udfExpr", "castType", "interval",
   "intervalTimeStamp", "caseExpression", "whenExpression", "elseExpression", "systemVariable",
   "userVariable"]

/-- The grammar name of a rule. -/
def name (rule : Rule) : String := names.getD rule.index ""

/-- Every rule, in declaration order. -/
def all : List Rule := (List.range (Rule.userVariable.index + 1)).map ofNat

/-- The rules that can be looked up by name. -/
def named : List Rule := all.filter (· ≠ .fragment)

def ofName? (name : String) : Option Rule := named.find? (·.name == name)

end Rule

end SqlBridge
