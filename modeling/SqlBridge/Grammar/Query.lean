/-
Queries: `SELECT`, joins, `UNION`, ordering and limits.
-/
import SqlBridge.Grammar.Expression

namespace SqlBridge.Grammar

open Phrase

/-! ### Tables -/

def indexHintKeywords : List Keyword := [.USE, .FORCE, .IGNORE]

def indexHint : Phrase :=
  make .indexHint [anyKeyword indexHintKeywords, anyKeyword [.INDEX, .KEY],
    optional (.keyword .FOR) (row [keyword .FOR,
      .choose (.keyword .JOIN) (keyword .JOIN)
        (row [anyKeyword [.ORDER, .GROUP], keyword .BY])]),
    symbol .openParen,
    commaListUntilClose (.choose (.keyword .PRIMARY) (keyword .PRIMARY) identifier),
    symbol .closeParen]

def indexHintList : Phrase :=
  make .indexHintList [indexHint,
    .loop (.both (.symbol .comma) (.nth 1 (Lookahead.oneOf indexHintKeywords)))
      (.seq (symbol .comma) indexHint)]

/-- A parenthesis that opens a query. -/
def atQueryInParentheses : Lookahead :=
  .both (.symbol .openParen) (.either (.keywordAt 1 .SELECT) (.symbolAt 1 .openParen))

def tableFactor : Phrase :=
  make .tableFactor [firstOf
    (make .singleTable [tableRef, tableAlias,
      optional (.anyKeyword indexHintKeywords) indexHintList])
    [(atQueryInParentheses, make .derivedTable [subquery, tableAlias]),
     (.symbol .openParen, make .tableReferenceListParens
        [symbol .openParen, .ref .tableReferences, symbol .closeParen])]]

def joinCondition : Phrase :=
  firstOf .nothing
    [(.keyword .ON, row [keyword .ON, expression]),
     (.keyword .USING, row [keyword .USING, identifierListInParentheses])]

def joinedTable : Phrase :=
  firstOf
    (make .joinedTable [make .innerJoinType [optionalKeywordOf [.INNER, .CROSS], keyword .JOIN],
      tableFactor, joinCondition])
    [(.keyword .NATURAL, make .joinedTable
        [make .naturalJoinType [keyword .NATURAL,
          .choose (.keyword .INNER) (keyword .INNER)
            (optional (.anyKeyword [.LEFT, .RIGHT]) (row [anyToken, optionalKeyword .OUTER])),
          keyword .JOIN],
         tableFactor]),
     (.anyKeyword [.LEFT, .RIGHT], make .joinedTable
        [make .outerJoinType [anyToken, optionalKeyword .OUTER, keyword .JOIN],
         tableFactor, joinCondition]),
     (.keyword .STRAIGHT_JOIN, make .joinedTable
        [make .innerJoinType [anyToken], tableFactor, joinCondition])]

def joinStarts : List Keyword := [.JOIN, .INNER, .CROSS, .LEFT, .RIGHT, .NATURAL, .STRAIGHT_JOIN]

def tableReference : Phrase :=
  make .tableReference [tableFactor, .loop (.anyKeyword joinStarts) joinedTable]

/-- What the name `tableReferences` stands for. -/
def tableReferences : Phrase := make .tableReferenceList [commaList tableReference]

/-! ### Clauses -/

def fromClause : Phrase :=
  make .fromClause [keyword .FROM,
    .choose (.keyword .DUAL) (keyword .DUAL) (.ref .tableReferences)]

def whereClause : Phrase := make .whereClause [keyword .WHERE, expression]

def groupByClause : Phrase :=
  make .groupByClause [keyword .GROUP, keyword .BY, commaList expression,
    optional (.both (.keyword .WITH) (.keywordAt 1 .ROLLUP))
      (make .olapOption [anyToken, anyToken])]

def havingClause : Phrase := make .havingClause [keyword .HAVING, expression]

def limitOption : Phrase :=
  make .limitOption [.token
    (fun token => token.kind == .integer || token.kind == .parameter || token.kind.isName)
    "a LIMIT value"]

def limitClause : Phrase :=
  make .limitClause [keyword .LIMIT, make .limitOptions [limitOption,
    firstOf .nothing
      [(.symbol .comma, row [symbol .comma, limitOption]),
       (.keyword .OFFSET, row [keyword .OFFSET, limitOption])]]]

def optionalWhere : Phrase := optional (.keyword .WHERE) whereClause

def optionalOrder : Phrase := optional (.keyword .ORDER) orderClause

def optionalLimit : Phrase := optional (.keyword .LIMIT) limitClause

def optionalLocking : Phrase :=
  firstOf .nothing
    [(.both (.keyword .FOR) (.nth 1 (Lookahead.oneOf [.UPDATE, .SHARE])),
        make .lockingClause [anyToken, anyToken]),
     (.keyword .LOCK, make .lockingClause
        [keyword .LOCK, keyword .IN, keyword .SHARE, keyword .MODE])]

/-! ### Queries -/

def selectOptions : List Keyword :=
  [.ALL, .DISTINCT, .DISTINCTROW, .HIGH_PRIORITY, .STRAIGHT_JOIN, .SQL_SMALL_RESULT,
   .SQL_BIG_RESULT, .SQL_BUFFER_RESULT, .SQL_CACHE, .SQL_NO_CACHE, .SQL_CALC_FOUND_ROWS]

/-- `table.*` or `schema.table.*`. -/
def atTableWild : Lookahead :=
  .both .name (.both (.symbolAt 1 .dot)
    (.either (.symbolAt 2 .star) (.both (.symbolAt 3 .dot) (.symbolAt 4 .star))))

def tableWild : Phrase :=
  make .tableWild [identifier, symbol .dot,
    optional (.opposite (.symbol .star)) (row [dottedIdentifier, symbol .dot]),
    symbol .star]

def selectAlias : Phrase :=
  firstOf .nothing
    [(.keyword .AS, make .selectAlias [keyword .AS, aliasName]),
     (.either .name .string, make .selectAlias [aliasName])]

def selectItem : Phrase :=
  .choose atTableWild (make .selectItem [tableWild]) (make .selectItem [expression, selectAlias])

def selectItemList : Phrase :=
  make .selectItemList [commaList (.choose (.symbol .star) (symbol .star) selectItem)]

def querySpecification : Phrase :=
  make .querySpecification [keyword .SELECT,
    .loop (.anyKeyword selectOptions) (make .selectOption [anyToken]),
    selectItemList,
    optional (.keyword .FROM) fromClause,
    optionalWhere,
    optional (.keyword .GROUP) groupByClause,
    optional (.keyword .HAVING) havingClause]

def queryTerm : Phrase :=
  .choose (.symbol .openParen)
    (make .queryExpressionParens [symbol .openParen, .ref .queryExpression, symbol .closeParen])
    querySpecification

/-- What the name `queryExpression` stands for. -/
def queryExpression : Phrase :=
  make .queryExpression [queryTerm,
    .loop (.keyword .UNION)
      (make .unionClause [keyword .UNION, optionalKeywordOf [.ALL, .DISTINCT], queryTerm]),
    optionalOrder, optionalLimit]

def selectStatement : Phrase := make .selectStatement [.ref .queryExpression, optionalLocking]

end SqlBridge.Grammar
