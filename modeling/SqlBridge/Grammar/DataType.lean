/-
Data types: the type name with its lengths, options and character set.
-/
import SqlBridge.Grammar.Identifier

namespace SqlBridge.Grammar

open Phrase

/-- One or more string tokens side by side, which stand for one text. -/
def textString : Phrase :=
  .choose .string (make .textStringLiteral [.loop .string anyToken]) (expected "a string")

def integerToken (what : String) : Phrase := .token (·.kind == .integer) what

/-- A number in parentheses. -/
def fieldLength : Phrase :=
  make .fieldLength [symbol .openParen, .token (·.kind.isNumber) "a length", symbol .closeParen]

def optionalLength : Phrase := optional (.symbol .openParen) fieldLength

/-- One number, or two with a comma between, in parentheses. -/
def lengthOrPrecision : Phrase :=
  .choose (.symbolAt 2 .comma)
    (make .precision [symbol .openParen, integerToken "a number", symbol .comma,
      integerToken "a number", symbol .closeParen])
    fieldLength

def optionalLengthOrPrecision : Phrase := optional (.symbol .openParen) lengthOrPrecision

def datetimePrecision : Phrase :=
  make .typeDatetimePrecision [symbol .openParen, integerToken "a precision", symbol .closeParen]

def optionalDatetimePrecision : Phrase := optional (.symbol .openParen) datetimePrecision

def charsetName : Phrase :=
  make .charsetName [.token
    (fun token => token.kind.isName || token.kind.isText ||
      Lookahead.oneOf [.BINARY, .DEFAULT] token)
    "a character set name"]

def collationName : Phrase :=
  make .collationName [.token
    (fun token => token.kind.isName || token.kind.isText || token.isKeyword .BINARY)
    "a collation name"]

/-- `CHARSET` or `CHARACTER SET`. -/
def charsetKeyword : Phrase :=
  .choose (.keyword .CHARSET) (keyword .CHARSET) (row [keyword .CHARACTER, keyword .SET])

def atCharset : Lookahead :=
  .either (.keyword .CHARSET) (.both (.keyword .CHARACTER) (.keywordAt 1 .SET))

/-- The character set clause of a string type. -/
def optionalCharset : Phrase :=
  firstOf .nothing
    [(atCharset, make .charsetWithOptBinary
        [charsetKeyword, charsetName, optionalKeyword .BINARY]),
     (.anyKeyword [.ASCII, .UNICODE], make .charsetWithOptBinary
        [anyToken, optionalKeyword .BINARY]),
     (.keyword .BYTE, make .charsetWithOptBinary [anyToken]),
     (.keyword .BINARY, make .charsetWithOptBinary
        [anyToken, .choose atCharset (row [charsetKeyword, charsetName])
          (optionalKeywordOf [.ASCII, .UNICODE])])]

def fieldOptionKeywords : List Keyword := [.UNSIGNED, .SIGNED, .ZEROFILL]

def optionalFieldOptions : Phrase :=
  optional (.anyKeyword fieldOptionKeywords)
    (make .fieldOptions [.loop (.anyKeyword fieldOptionKeywords) anyToken])

def stringList : Phrase :=
  make .stringList [symbol .openParen, commaList textString, symbol .closeParen]

def dataType : Phrase :=
  let type (keywords : List Keyword) (rest : List Phrase) : Lookahead × Phrase :=
    (.anyKeyword keywords, make .dataType (anyToken :: rest))
  firstOf (expected "a data type")
    [type [.INT, .INTEGER, .TINYINT, .SMALLINT, .MEDIUMINT, .BIGINT]
       [optionalLength, optionalFieldOptions],
     type [.REAL, .DOUBLE]
       [optionalKeyword .PRECISION, optionalLengthOrPrecision, optionalFieldOptions],
     type [.FLOAT, .DECIMAL, .DEC, .NUMERIC, .FIXED]
       [optionalLengthOrPrecision, optionalFieldOptions],
     type [.BIT, .BINARY, .VARBINARY, .YEAR] [optionalLength],
     type [.BOOL, .BOOLEAN, .SERIAL, .DATE, .JSON] [],
     type [.CHAR, .CHARACTER] [optionalKeyword .VARYING, optionalLength, optionalCharset],
     type [.VARCHAR, .NVARCHAR] [optionalLength, optionalCharset],
     type [.NATIONAL] [anyKeyword [.CHAR, .CHARACTER, .VARCHAR], optionalKeyword .VARYING,
       optionalLength, optionalCharset],
     type [.NCHAR] [optionalKeywordOf [.VARCHAR, .VARYING], optionalLength, optionalCharset],
     type [.LONG] [.choose (.anyKeyword [.VARCHAR, .VARBINARY]) anyToken
       (optional (.keyword .CHAR) (row [keyword .CHAR, keyword .VARYING])), optionalCharset],
     type [.TIME, .TIMESTAMP, .DATETIME] [optionalDatetimePrecision],
     type [.TINYBLOB, .BLOB, .MEDIUMBLOB, .LONGBLOB] [optionalLength],
     type [.TINYTEXT, .TEXT, .MEDIUMTEXT, .LONGTEXT] [optionalLength, optionalCharset],
     type [.ENUM, .SET] [stringList, optionalCharset],
     type [.GEOMETRY, .POINT, .LINESTRING, .POLYGON, .MULTIPOINT, .MULTILINESTRING, .MULTIPOLYGON,
       .GEOMETRYCOLLECTION, .GEOMCOLLECTION] []]

/-- The type a value can be cast to. -/
def castType : Phrase :=
  let type (keywords : List Keyword) (rest : List Phrase) : Lookahead × Phrase :=
    (.anyKeyword keywords, make .castType (anyToken :: rest))
  firstOf (expected "a cast type")
    [type [.SIGNED, .UNSIGNED] [optionalKeywordOf [.INT, .INTEGER]],
     type [.CHAR, .BINARY, .NCHAR] [optionalLength, optionalCharset],
     type [.DECIMAL, .FLOAT] [optionalLengthOrPrecision],
     type [.DATETIME, .TIME] [optionalDatetimePrecision],
     type [.DATE, .DOUBLE, .REAL, .JSON, .INT, .INTEGER, .YEAR] []]

end SqlBridge.Grammar
