/-
Expressions.

Loosest first: `OR`, `XOR`, `AND`, `NOT`, comparisons and `IS`, predicates (`IN`, `BETWEEN`, `LIKE`,
`REGEXP`), then the ladder of operators on numbers and bits, then simple expressions.  A chain of
one logical operator is a single node; operators of the ladder lean to the left.
-/
import SqlBridge.Grammar.DataType

namespace SqlBridge.Grammar

open Phrase

def expression : Phrase := .ref .expression

def expressionList : Phrase := make .exprList [commaList expression]

def expressionInParentheses : Phrase :=
  make .exprWithParentheses [symbol .openParen, expression, symbol .closeParen]

def subquery : Phrase :=
  make .subquery [symbol .openParen, .ref .queryExpression, symbol .closeParen]

/-! ### Logical operators -/

/-- A chain of one logical operator over tighter expressions. -/
def logicalChain (operator : Token → Bool) (tighter : Phrase) : Phrase :=
  .extend (.nth 0 operator) .expr tighter
    (.loop (.nth 0 operator) (.seq (.token operator "an operator") tighter))

def isOr (token : Token) : Bool := token.isKeyword .OR || token.isSymbol .logicalOr

def isXor (token : Token) : Bool := token.isKeyword .XOR

def isAnd (token : Token) : Bool := token.isKeyword .AND || token.isSymbol .logicalAnd

/-- What the name `expression` stands for. -/
def disjunction : Phrase :=
  logicalChain isOr (logicalChain isXor (logicalChain isAnd (.ref .negation)))

def isComparison (token : Token) : Bool := token.symbol?.any Symbol.isComparison

/-- Comparisons and `IS`, from left to right. -/
def comparison : Phrase :=
  .climb (.either (.keyword .IS) (.nth 0 isComparison)) .boolPri (.ref .predicate)
    (.choose (.keyword .IS)
      (row [keyword .IS, optionalKeyword .NOT, anyKeyword [.NULL, .TRUE, .FALSE, .UNKNOWN]])
      (row [make .compOp [anyToken],
        .choose (.anyKeyword [.ANY, .SOME, .ALL]) (row [anyToken, subquery]) (.ref .predicate)]))

/-- What the name `negation` stands for. -/
def negation : Phrase :=
  .choose (.keyword .NOT) (make .expr [keyword .NOT, .ref .negation]) comparison

/-! ### Predicates -/

def predicateKeywords : List Keyword := [.IN, .BETWEEN, .LIKE, .REGEXP, .RLIKE]

/-- A predicate operator, maybe after `NOT`. -/
def atPredicate : Lookahead :=
  .either (.anyKeyword predicateKeywords)
    (.both (.keyword .NOT) (.nth 1 (Lookahead.oneOf predicateKeywords)))

def predicateTail : Phrase :=
  .seq (optionalKeyword .NOT) (firstOf (row [anyToken, .ref .operand])
    [(.keyword .IN, .seq (keyword .IN)
        (.choose (.keywordAt 1 .SELECT) subquery (parenthesized expressionList))),
     (.keyword .BETWEEN,
        row [keyword .BETWEEN, .ref .operand, keyword .AND, .ref .predicate]),
     (.keyword .LIKE, row [keyword .LIKE, .ref .simpleExpression,
        optional (.keyword .ESCAPE) (row [keyword .ESCAPE, .ref .simpleExpression])])])

/-- What the name `predicate` stands for. -/
def predicate : Phrase := .extend atPredicate .predicate (.ref .operand) predicateTail

/-! ### The ladder of operators -/

def intervalUnits : List Keyword :=
  [.MICROSECOND, .SECOND, .MINUTE, .HOUR, .DAY, .WEEK, .MONTH, .QUARTER, .YEAR]

def intervalUnit : Phrase := make .intervalTimeStamp [anyKeyword intervalUnits]

def interval : Phrase := make .interval [keyword .INTERVAL, expression, intervalUnit]

def isOneOfSymbols (symbols : List Symbol) (token : Token) : Bool :=
  token.symbol?.any symbols.contains

/-- The binary operators on numbers and bits, loosest level first. -/
def operatorLadder : List (Token → Bool) :=
  [isOneOfSymbols [.pipe],
   isOneOfSymbols [.ampersand],
   isOneOfSymbols [.shiftLeft, .shiftRight],
   isOneOfSymbols [.plus, .minus],
   fun token => isOneOfSymbols [.star, .slash, .percent] token ||
     Lookahead.oneOf [.DIV, .MOD] token,
   isOneOfSymbols [.caret]]

/-- A chain of operators of the first level over the levels below it. -/
def ladder : List (Token → Bool) → Phrase
  | [] => .ref .simpleExpression
  | level :: tighter =>
    .climb (.nth 0 level) .bitExpr (ladder tighter)
      (.seq (.token level "an operator") (.choose (.keyword .INTERVAL) interval (ladder tighter)))

/-- What the name `operand` stands for. -/
def operand : Phrase := ladder operatorLadder

/-! ### Literals, variables and `CASE` -/

def literal (rule : Rule) (parts : List Phrase) : Phrase := make .literal [make rule parts]

def textLiteral : Phrase := literal .textLiteral [textString]

def systemVariable : Phrase :=
  make .systemVariable [symbol .atAt,
    optional (.both (.anyKeyword [.GLOBAL, .SESSION, .LOCAL]) (.symbolAt 1 .dot))
      (row [anyToken, symbol .dot]),
    dottedIdentifier,
    optional (.symbol .dot) (row [symbol .dot, dottedIdentifier])]

def caseExpression : Phrase :=
  let whenExpression := make .whenExpression [keyword .WHEN, expression, keyword .THEN, expression]
  make .caseExpression [keyword .CASE,
    optional (.opposite (.keyword .WHEN)) expression,
    .choose (.keyword .WHEN) (.loop (.keyword .WHEN) whenExpression) (expected "WHEN"),
    optional (.keyword .ELSE) (make .elseExpression [keyword .ELSE, expression]),
    keyword .END]

/-- Parentheses around one expression, or around a list of them. -/
def parentheses : Phrase :=
  let content := .extend (.symbol .comma) .exprList expression
    (.loop (.symbol .comma) (.seq (symbol .comma) expression))
  let rule (trees : List Tree) : Rule :=
    if trees.any (Tree.hasRule .exprList) then .simpleExpr else .exprWithParentheses
  .node rule (parenthesized content)

/-! ### Calls -/

/-- The order clause of queries and of `GROUP_CONCAT`. -/
def orderClause : Phrase :=
  make .orderClause [keyword .ORDER, keyword .BY,
    make .orderList [commaList (make .orderExpression [expression,
      optional (.anyKeyword [.ASC, .DESC]) (make .direction [anyToken])])]]

def aggregates : List Keyword := [.COUNT, .SUM, .AVG, .MIN, .MAX, .GROUP_CONCAT]

def aggregateArguments : Phrase :=
  row [symbol .openParen, optionalKeywordOf [.DISTINCT, .ALL],
    .choose (.symbol .star) (symbol .star) expressionList]

def aggregate : Phrase :=
  .choose (.keyword .GROUP_CONCAT)
    (make .sumExpr [anyToken, aggregateArguments,
      optional (.keyword .ORDER) orderClause,
      optional (.keyword .SEPARATOR) (row [keyword .SEPARATOR, textString]),
      symbol .closeParen])
    (make .sumExpr [anyToken, aggregateArguments, symbol .closeParen])

def cast : Phrase :=
  make .runtimeFunctionCall [anyToken, symbol .openParen, expression, keyword .AS, castType,
    symbol .closeParen]

def convert : Phrase :=
  make .runtimeFunctionCall [anyToken, symbol .openParen, expression,
    .choose (.keyword .USING) (row [keyword .USING, charsetName])
      (row [symbol .comma, castType]),
    symbol .closeParen]

def extract : Phrase :=
  make .runtimeFunctionCall [anyToken, symbol .openParen, intervalUnit, keyword .FROM, expression,
    symbol .closeParen]

def argument (phrase : Phrase) : Phrase := make .udfExpr [phrase]

/-- A keyword between two arguments, kept as a comma. -/
def commaFor (keyword : Keyword) (place : CommaPlace) : Phrase :=
  .asComma (·.isKeyword keyword) keyword.spelling place

/-- `POSITION(needle IN haystack)`. -/
def positionCall : Phrase :=
  make .runtimeFunctionCall [anyToken, symbol .openParen,
    make .udfExprList [argument (.ref .operand), commaFor .IN .here, argument expression],
    symbol .closeParen]

def argumentList : Phrase :=
  make .udfExprList
    [commaList (argument (.choose (.keyword .INTERVAL) interval expression))]

/-- Arguments with commas, or with `FROM` and `FOR`. -/
def substringArguments : Phrase :=
  make .udfExprList [argument expression,
    .choose (.keyword .FROM)
      (row [commaFor .FROM .next, argument expression,
        optional (.keyword .FOR) (row [commaFor .FOR .next, argument expression])])
      (.loop (.symbol .comma) (.seq (symbol .comma) (argument expression)))]

/-- The parentheses of a call and what is in them. -/
def callTail (arguments : Phrase) : Phrase :=
  row [symbol .openParen, optional (.opposite (.symbol .closeParen)) arguments, symbol .closeParen]

/-- Functions that may be written without parentheses. -/
def clockFunctions : List Keyword :=
  [.CURRENT_TIMESTAMP, .CURRENT_DATE, .CURRENT_TIME, .UTC_TIMESTAMP]

/-! ### Simple expressions -/

/-- A keyword before an opening parenthesis. -/
def callOf (keywords : List Keyword) : Lookahead :=
  .both (.anyKeyword keywords) (.symbolAt 1 .openParen)

def kind (kind : Token.Kind) : Lookahead := .nth 0 (·.kind == kind)

def simpleBase : Phrase :=
  firstOf (expected "an expression")
    [(.nth 0 (isOneOfSymbols [.minus, .plus, .tilde, .bang]),
        make .simpleExpr [anyToken, .ref .simpleExpression]),
     (.keyword .BINARY, make .simpleExpr [anyToken, .ref .simpleExpression]),
     (.symbol .openParen, .choose (.keywordAt 1 .SELECT) subquery parentheses),
     (.keyword .EXISTS, make .simpleExpr [anyToken, subquery]),
     (.symbol .atAt, systemVariable),
     (kind .userVariable, make .userVariable [anyToken]),
     (kind .parameter, make .simpleExpr [anyToken]),
     (.string, textLiteral),
     (.number, literal .numLiteral [anyToken]),
     (.keyword .NULL, literal .nullLiteral [anyToken]),
     (.anyKeyword [.TRUE, .FALSE], literal .boolLiteral [anyToken]),
     (.both (.anyKeyword [.DATE, .TIME, .TIMESTAMP]) (.nth 1 (·.kind.isText)),
        literal .temporalLiteral [anyToken, textString]),
     (.keyword .CASE, caseExpression),
     (.keyword .INTERVAL, unsupported "INTERVAL outside of date arithmetic"),
     (.keyword .MATCH, unsupported "MATCH ... AGAINST"),
     (callOf aggregates, aggregate),
     (callOf [.CAST], cast),
     (callOf [.CONVERT], convert),
     (callOf [.EXTRACT], extract),
     (callOf [.POSITION], positionCall),
     (.anyKeyword clockFunctions, make .runtimeFunctionCall [anyToken,
        optional (.symbol .openParen) (callTail argumentList)]),
     (callOf [.SUBSTRING, .SUBSTR],
        make .runtimeFunctionCall [anyToken, callTail substringArguments]),
     (.both (.nth 0 (·.keyword?.isSome)) (.symbolAt 1 .openParen),
        make .runtimeFunctionCall [anyToken, callTail argumentList]),
     (.both (.either (kind .identifier) (kind .backtickName)) (.symbolAt 1 .openParen),
        make .functionCall [make .identifier [anyToken], callTail argumentList]),
     (.name, columnRef)]

/-- What the name `simpleExpression` stands for. -/
def simpleExpression : Phrase :=
  .extend (.keyword .COLLATE) .simpleExpr simpleBase (row [keyword .COLLATE, collationName])

end SqlBridge.Grammar
