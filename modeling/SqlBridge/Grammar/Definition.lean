/-
Statements that define tables and indexes: `CREATE`, `ALTER` and `DROP`.
-/
import SqlBridge.Grammar.Query

namespace SqlBridge.Grammar

open Phrase

/-! ### Columns -/

def clockKeywords : List Keyword :=
  [.CURRENT_TIMESTAMP, .NOW, .CURRENT_DATE, .CURRENT_TIME, .UTC_TIMESTAMP]

/-- A function that tells the time, with an optional precision. -/
def clockCall : Phrase :=
  make .runtimeFunctionCall [anyKeyword clockKeywords,
    optional (.symbol .openParen) (row [symbol .openParen,
      optional (kind .integer)
        (make .udfExprList [make .udfExpr [make .numLiteral [anyToken]]]),
      symbol .closeParen])]

/-- Tokens a literal default starts with. -/
def startsLiteral (token : Token) : Bool :=
  token.kind.isText || token.kind.isNumber || Lookahead.oneOf [.NULL, .TRUE, .FALSE] token

def defaultValue : Phrase :=
  firstOf (expected "a default value")
    [(.symbol .openParen, expressionInParentheses),
     (.either (.symbol .minus) (.symbol .plus), make .signedLiteral
        [anyToken, make .numLiteral [.token (·.kind.isNumber) "a number"]]),
     (.anyKeyword clockKeywords, clockCall),
     (.nth 0 startsLiteral, .ref .simpleExpression)]

def referentialAction : Phrase :=
  firstOf (expected "a referential action")
    [(.anyKeyword [.RESTRICT, .CASCADE], anyToken),
     (.keyword .SET, row [keyword .SET, anyKeyword [.NULL, .DEFAULT]]),
     (.keyword .NO, row [keyword .NO, keyword .ACTION])]

def references : Phrase :=
  make .references [keyword .REFERENCES, tableRef,
    optional (.symbol .openParen) identifierListInParentheses,
    optional (.keyword .MATCH)
      (row [keyword .MATCH, .token (·.kind.isName) "FULL, PARTIAL or SIMPLE"]),
    .loop (.both (.keyword .ON) (.nth 1 (Lookahead.oneOf [.DELETE, .UPDATE])))
      (row [anyToken, anyToken, referentialAction])]

def constraintName : Phrase := make .constraintName [keyword .CONSTRAINT, optional .name identifier]

/-- The attributes a column may have, each with what tells it apart. -/
def columnAttributes : List (Lookahead × Phrase) :=
  let entry (test : Lookahead) (parts : List Phrase) : Lookahead × Phrase :=
    (test, make .columnAttribute parts)
  [entry (.both (.keyword .NOT) (.keywordAt 1 .NULL)) [anyToken, anyToken],
   entry (.anyKeyword [.NULL, .AUTO_INCREMENT, .VISIBLE, .INVISIBLE]) [anyToken],
   entry (.keyword .DEFAULT) [anyToken, defaultValue],
   entry (.keyword .ON) [anyToken, keyword .UPDATE, clockCall],
   entry (.keyword .PRIMARY) [anyToken, keyword .KEY],
   entry (.keyword .KEY) [anyToken],
   entry (.keyword .UNIQUE) [anyToken, optionalKeyword .KEY],
   entry (.keyword .COMMENT) [anyToken, textString],
   entry (.keyword .COLLATE) [anyToken, collationName],
   entry (.anyKeyword [.COLUMN_FORMAT, .STORAGE]) [anyToken, .token
     (fun token => token.kind.isName || Lookahead.oneOf [.DEFAULT, .FIXED] token)
     "a column format"],
   entry (.both (.keyword .SERIAL) (.keywordAt 1 .DEFAULT))
     [anyToken, anyToken, keyword .VALUE],
   entry (.both (.keyword .CONSTRAINT) (.either (.keywordAt 2 .CHECK) (.keywordAt 1 .CHECK)))
     [constraintName, keyword .CHECK, expressionInParentheses],
   entry (.keyword .CHECK) [anyToken, expressionInParentheses],
   (.keyword .REFERENCES, references)]

def atColumnAttribute : Lookahead := fun tokens => columnAttributes.any (·.1 tokens)

def generatedColumn : Phrase :=
  make .generatedColumn [
    optional (.keyword .GENERATED) (row [keyword .GENERATED, keyword .ALWAYS]),
    keyword .AS, expressionInParentheses, optionalKeywordOf [.VIRTUAL, .STORED]]

def columnDefinition : Phrase :=
  make .columnDefinition [identifier, make .fieldDefinition [dataType,
    optional (.anyKeyword [.GENERATED, .AS]) generatedColumn,
    .loop atColumnAttribute (firstOf .nothing columnAttributes)]]

/-! ### Indexes and constraints -/

def indexTypeClause : Phrase :=
  make .indexTypeClause [anyKeyword [.USING, .TYPE],
    make .indexType [anyKeyword [.BTREE, .RTREE, .HASH]]]

/-- The options an index may have, each with what tells it apart. -/
def indexOptions : List (Lookahead × Phrase) :=
  [(.keyword .COMMENT, make .indexOption [anyToken, textString]),
   (.anyKeyword [.USING, .TYPE], make .indexOption [indexTypeClause]),
   (.keyword .KEY_BLOCK_SIZE, make .indexOption
      [anyToken, optionalSymbol .equal, integerToken "a number"]),
   (.anyKeyword [.VISIBLE, .INVISIBLE], make .indexOption [anyToken])]

def indexOptionList : Phrase :=
  .loop (fun tokens => indexOptions.any (·.1 tokens)) (firstOf .nothing indexOptions)

def keyPart : Phrase :=
  make .keyPart [identifier, optionalLength,
    optional (.anyKeyword [.ASC, .DESC]) (make .direction [anyToken])]

def keyList : Phrase := make .keyList [symbol .openParen, commaList keyPart, symbol .closeParen]

/-- A name for an index, unless the word starts the type clause. -/
def optionalIndexName : Phrase :=
  let typeClauseAhead := .both (.keyword .TYPE) (.opposite (.symbolAt 1 .openParen))
  optional (.both .name (.opposite typeClauseAhead)) indexName

def optionalIndexType : Phrase := optional (.anyKeyword [.USING, .TYPE]) indexTypeClause

/-- What follows the keywords of an index. -/
def indexTail (name : Phrase) : Phrase := row [name, optionalIndexType, keyList, indexOptionList]

/-- The constraints that may have a name of their own. -/
def nameableConstraints : List (Lookahead × List Phrase) :=
  [(.keyword .PRIMARY, [anyToken, keyword .KEY, indexTail .nothing]),
   (.keyword .UNIQUE, [anyToken, optionalKeywordOf [.KEY, .INDEX], indexTail optionalIndexName]),
   (.keyword .FOREIGN, [anyToken, keyword .KEY, optional .name indexName, keyList, references]),
   (.keyword .CHECK, [anyToken, expressionInParentheses])]

/-- Plain indexes, which have an index name only. -/
def plainIndexes : List (Lookahead × List Phrase) :=
  [(.anyKeyword [.KEY, .INDEX], [anyToken, indexTail optionalIndexName]),
   (.anyKeyword [.FULLTEXT, .SPATIAL],
      [anyToken, optionalKeywordOf [.KEY, .INDEX], indexTail optionalIndexName])]

/-- One of some constraints. -/
def constraintOf (entries : List (Lookahead × List Phrase)) : Phrase :=
  firstOf (expected "a table constraint") (entries.map fun entry => (entry.1, row entry.2))

def tableConstraint : Phrase :=
  make .tableConstraintDef [.choose (.keyword .CONSTRAINT)
    (.seq constraintName (constraintOf nameableConstraints))
    (constraintOf (nameableConstraints ++ plainIndexes))]

def constraintStarts : List Keyword :=
  [.CONSTRAINT, .PRIMARY, .UNIQUE, .FOREIGN, .CHECK, .KEY, .INDEX, .FULLTEXT, .SPATIAL]

def tableElementList : Phrase :=
  make .tableElementList [commaList (make .tableElement
    [.choose (.anyKeyword constraintStarts) tableConstraint columnDefinition])]

/-! ### Table options -/

def atTableOption : Lookahead := fun tokens =>
  match tokens.head?.bind Token.keyword? with
  | some .ENGINE | some .CHARSET | some .COLLATE | some .AUTO_INCREMENT | some .COMMENT
  | some .ROW_FORMAT => true
  | some .CHARACTER => Lookahead.keywordAt 1 .SET tokens
  | some .DEFAULT => Lookahead.nth 1 (Lookahead.oneOf [.CHARSET, .CHARACTER, .COLLATE]) tokens
  | _ =>
    Lookahead.name tokens &&
      Lookahead.nth 1 (fun token => token.isSymbol .equal || token.kind.isNumber) tokens

def optionValue (token : Token) : Bool :=
  token.kind.isNumber || token.kind.isText || token.kind == .identifier || token.keyword?.isSome

def tableOption : Phrase :=
  make .createTableOption [optionalKeyword .DEFAULT,
    firstOf (row [identifier, optionalSymbol .equal, .token optionValue "an option value"])
      [(.keyword .ENGINE, row [anyToken, optionalSymbol .equal, make .engineRef
          [.token (fun token => token.kind.isName || token.kind.isText) "an engine name"]]),
       (.anyKeyword [.CHARSET, .CHARACTER],
          row [charsetKeyword, optionalSymbol .equal, charsetName]),
       (.keyword .COLLATE, row [anyToken, optionalSymbol .equal, collationName]),
       (.keyword .AUTO_INCREMENT,
          row [anyToken, optionalSymbol .equal, integerToken "a number"]),
       (.keyword .COMMENT, row [anyToken, optionalSymbol .equal, textString])]]

/-- Options side by side, with a comma between any two or none. -/
def optionalTableOptions : Phrase :=
  optional atTableOption (make .createTableOptions [tableOption,
    .loop (.either (.symbol .comma) atTableOption)
      (.seq (optionalSymbol .comma) tableOption)])

/-! ### CREATE -/

def optionalIfNotExists : Phrase :=
  optional (.keyword .IF) (make .ifNotExists [keyword .IF, keyword .NOT, keyword .EXISTS])

def optionalIfExists : Phrase :=
  optional (.keyword .IF) (make .ifExists [keyword .IF, keyword .EXISTS])

def atTableElements : Lookahead := .both (.symbol .openParen) (.opposite atQueryInParentheses)

def atTableQuery : Lookahead :=
  .either (.anyKeyword [.AS, .SELECT, .REPLACE, .IGNORE]) (.symbol .openParen)

def tableQuery : Phrase :=
  make .duplicateAsQueryExpression
    [optionalKeywordOf [.REPLACE, .IGNORE], optionalKeyword .AS, .ref .queryExpression]

def createTable : Phrase :=
  make .createTable [optionalKeyword .TEMPORARY, keyword .TABLE, optionalIfNotExists,
    qualifiedName .tableName,
    firstOf
      (row [optionalTableOptions, .choose atTableQuery tableQuery (expected "'(' or AS")])
      [(.keyword .LIKE, row [keyword .LIKE, tableRef]),
       (atTableElements, row [parenthesized tableElementList, optionalTableOptions,
          optional atTableQuery tableQuery])]]

def createIndex : Phrase :=
  make .createIndex [optionalKeywordOf [.UNIQUE, .FULLTEXT, .SPATIAL], keyword .INDEX, indexName,
    optionalIndexType, keyword .ON, tableRef, keyList, indexOptionList]

def createStatement : Phrase :=
  make .createStatement [keyword .CREATE, firstOf (expected "TABLE or INDEX")
    [(.anyKeyword [.TEMPORARY, .TABLE], createTable),
     (.anyKeyword [.UNIQUE, .FULLTEXT, .SPATIAL, .INDEX], createIndex)]]

/-! ### ALTER -/

def optionalPlace : Phrase :=
  firstOf .nothing
    [(.keyword .FIRST, make .place [keyword .FIRST]),
     (.keyword .AFTER, make .place [keyword .AFTER, identifier])]

def alterAdd : Phrase :=
  .choose (.anyKeyword constraintStarts) tableConstraint
    (.seq (optionalKeyword .COLUMN) (.choose (.symbol .openParen)
      (parenthesized tableElementList) (row [columnDefinition, optionalPlace])))

def alterDrop : Phrase :=
  firstOf (row [optionalKeyword .COLUMN, identifier, optionalKeywordOf [.RESTRICT, .CASCADE]])
    [(.anyKeyword [.INDEX, .KEY], row [anyToken, indexName]),
     (.keyword .PRIMARY, row [anyToken, keyword .KEY]),
     (.keyword .FOREIGN, row [anyToken, keyword .KEY, identifier])]

def alterRename : Phrase :=
  .choose (.anyKeyword [.COLUMN, .INDEX, .KEY])
    (row [anyToken, identifier, keyword .TO, identifier])
    (row [optionalKeywordOf [.TO, .AS], qualifiedName .tableName])

def alterItem : Phrase :=
  firstOf (expected "an ALTER TABLE action")
    [(atTableOption, make .createTableOptions [tableOption]),
     (.keyword .ADD, make .alterListItem [keyword .ADD, alterAdd]),
     (.keyword .DROP, make .alterListItem [keyword .DROP, alterDrop]),
     (.keyword .CHANGE, make .alterListItem [keyword .CHANGE, optionalKeyword .COLUMN, identifier,
        columnDefinition, optionalPlace]),
     (.keyword .MODIFY, make .alterListItem [keyword .MODIFY, optionalKeyword .COLUMN,
        columnDefinition, optionalPlace]),
     (.keyword .RENAME, make .alterListItem [keyword .RENAME, alterRename])]

/-- The statement goes on: neither its end nor a semicolon comes next. -/
def goesOn : Lookahead := .both (.nth 0 (!·.isEnding)) (.opposite (.symbol .semicolon))

def alterStatement : Phrase :=
  make .alterStatement [keyword .ALTER, make .alterTable [keyword .TABLE, tableRef,
    optional goesOn (make .alterList [commaList alterItem])]]

/-! ### DROP -/

def dropStatement : Phrase :=
  make .dropStatement [keyword .DROP, .choose (.keyword .INDEX)
    (make .dropIndex [keyword .INDEX, indexName, keyword .ON, tableRef])
    (make .dropTable [optionalKeyword .TEMPORARY, keyword .TABLE, optionalIfExists,
      make .tableRefList [commaList tableRef], optionalKeywordOf [.RESTRICT, .CASCADE]])]

end SqlBridge.Grammar
