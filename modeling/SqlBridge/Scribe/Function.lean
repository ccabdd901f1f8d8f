/-
MySQL's functions in terms of SQLite's functions and operators.

`counterpart` says what a call is written as, given its name in upper case and its arguments as
they are written.  Functions that both dialects share keep their name, some only change it, and the
others are composed.
-/
import SqlBridge.Sql.Checked

namespace SqlBridge.Function

open Sql

/-- Functions that both dialects have. -/
def shared : List String :=
  ["ABS", "ACOS", "ASIN", "ATAN", "ATAN2", "COS", "DEGREES", "EXP", "FLOOR", "PI", "RADIANS",
   "ROUND", "SIGN", "SIN", "SQRT", "TAN", "TRIM", "LTRIM", "RTRIM", "LOWER", "UPPER", "REPLACE",
   "INSTR", "HEX", "CHAR", "COALESCE", "IFNULL", "NULLIF", "DATE", "TIME", "LN", "LOG", "LOG2",
   "LOG10", "POWER", "CEIL"]

/-- Functions that have another name in SQLite. -/
def renamed : List (String × String) :=
  [("CEILING", "CEIL"), ("POW", "POWER"), ("ASCII", "UNICODE"), ("CHAR_LENGTH", "LENGTH"),
   ("CHARACTER_LENGTH", "LENGTH"), ("LCASE", "LOWER"), ("UCASE", "UPPER"), ("IF", "IIF")]

/-- The version that `VERSION()` reports. -/
def serverVersion : String := "8.0.38"

/-! ### Counting arguments -/

def wrongCount (name : String) (expected : Arity) (arguments : List Sql) : Error :=
  .invalidToken (.argumentCount name expected arguments.length)

def unary (name : String) (arguments : List Sql) (write : Sql → Except Error Sql) :
    Except Error Sql :=
  match arguments with
  | [x] => write x
  | _ => .error (wrongCount name (.exactly 1) arguments)

def binary (name : String) (arguments : List Sql) (write : Sql → Sql → Except Error Sql) :
    Except Error Sql :=
  match arguments with
  | [x, y] => write x y
  | _ => .error (wrongCount name (.exactly 2) arguments)

def ternary (name : String) (arguments : List Sql) (write : Sql → Sql → Sql → Except Error Sql) :
    Except Error Sql :=
  match arguments with
  | [x, y, z] => write x y z
  | _ => .error (wrongCount name (.exactly 3) arguments)

/-! ### Text -/

/-- Operands joined by `||`. -/
def concatenation (parts : List Sql) : Sql := separated (.raw "||") parts

/-- An empty string under a condition: MySQL yields one where SQLite would count from the other end
of a text. -/
def emptyWhen (condition otherwise : Sql) : Sql :=
  words ["CASE", "WHEN"] ++ condition ++ [Piece.raw "THEN", .string "", .raw "ELSE"] ++ otherwise ++
    word "END"

def left (text length : Sql) : Except Error Sql := call "SUBSTR" [text, [.integer 1], length]

def right (text length : Sql) : Except Error Sql := do
  let suffix ← call "SUBSTR" [text, [.raw "-", .group length]]
  return emptyWhen [.group length, .raw "<", .integer 1] suffix

def substringFrom (text start : Sql) : Except Error Sql := do
  let suffix ← call "SUBSTR" [text, start]
  return emptyWhen [.group start, .raw "=", .integer 0] suffix

def substring (text start length : Sql) : Except Error Sql := do
  let window ← call "SUBSTR" [text, start, length]
  return emptyWhen
    [.group start, .raw "=", .integer 0, .raw "OR", .group length, .raw "<", .integer 1] window

def locate (needle haystack : Sql) : Except Error Sql := call "INSTR" [haystack, needle]

/-- The position of the first occurrence from `start` on, 0 if there is none. -/
def locateFrom (needle haystack start : Sql) : Except Error Sql := do
  let found ← call "INSTR" [← call "SUBSTR" [haystack, start], needle]
  return words ["CASE", "WHEN"] ++ found ++ [Piece.raw ">", .integer 0, .raw "THEN"] ++ found ++
    word "+" ++ start ++ [Piece.raw "-", .integer 1, .raw "ELSE", .integer 0, .raw "END"]

/-- A text repeated: as many NULs in hexadecimal, each replaced by the text. -/
def repeated (text count : Sql) : Except Error Sql := do
  call "REPLACE" [← call "HEX" [← call "ZEROBLOB" [count]], [.string "00"], text]

/-! ### Casts and numbers -/

def cast (operand : Sql) (type : String) : Except Error Sql :=
  call "CAST" [operand ++ words ["AS", type]]

/-- A value cast to a MySQL type. -/
def castTo (operand : Sql) : Keyword → Except Error Sql
  | .SIGNED | .UNSIGNED | .INT | .INTEGER | .YEAR => cast operand "INTEGER"
  | .CHAR | .NCHAR => cast operand "TEXT"
  | .DECIMAL | .DOUBLE | .FLOAT | .REAL => cast operand "REAL"
  | .BINARY => cast operand "BLOB"
  | .DATE => call "DATE" [operand]
  | .DATETIME => call "DATETIME" [operand]
  | .TIME => call "TIME" [operand]
  | keyword => .error (.unsupported (.castTo keyword))

def cotangent (x : Sql) : Except Error Sql := do
  return group ([.integer 1, .raw "/"] ++ (← call "TAN" [x]))

/-- A random number from 0 to 1 in steps of a millionth. -/
def random : Except Error Sql := do
  let bits ← call "ABS" [← call "RANDOM" []]
  return group (group (bits ++ [Piece.raw "%", .integer 1000000]) ++
    [Piece.raw "/", ← number "1000000.0"])

/-! ### Dates -/

/-- A specifier of `STRFTIME` applied to a date, as an integer. -/
def formatted (specifier : String) (date : Sql) : Except Error Sql := do
  cast (← call "STRFTIME" [[.string specifier], date]) "INTEGER"

/-- A part of a date as an integer, for a function or a unit of `EXTRACT`. -/
def datePart (name : String) (date : Sql) : Except Error Sql :=
  match name with
  | "DAY" | "DAYOFMONTH" => formatted "%d" date
  | "DAYOFYEAR" => formatted "%j" date
  | "HOUR" => formatted "%H" date
  | "MINUTE" => formatted "%M" date
  | "MONTH" => formatted "%m" date
  | "SECOND" => formatted "%S" date
  | "YEAR" => formatted "%Y" date
  | "DAYOFWEEK" => do return group ((← formatted "%w" date) ++ [Piece.raw "+", .integer 1])
  | "WEEKDAY" => do
    return group (group ((← formatted "%w" date) ++ [Piece.raw "+", .integer 6]) ++
      [Piece.raw "%", .integer 7])
  | "QUARTER" => do
    return group (group ((← formatted "%m" date) ++ [Piece.raw "+", .integer 2]) ++
      [Piece.raw "/", .integer 3])
  | _ => .error (.unsupported (.datePart name))

/-- The amount and the unit that SQLite counts an interval in. -/
def intervalParts (amount : Sql) : Keyword → Except Error (Sql × String)
  | .SECOND => .ok (amount, " seconds")
  | .MINUTE => .ok (amount, " minutes")
  | .HOUR => .ok (amount, " hours")
  | .DAY => .ok (amount, " days")
  | .MONTH => .ok (amount, " months")
  | .YEAR => .ok (amount, " years")
  | .WEEK => .ok (group (amount ++ [Piece.raw "*", .integer 7]), " days")
  | .QUARTER => .ok (group (amount ++ [Piece.raw "*", .integer 3]), " months")
  | unit => .error (.unsupported (.intervalUnit unit))

/-- A date moved by an amount of some unit, back if `subtract`. -/
def shifted (date : Sql) (subtract : Bool) (amount : Sql) (unit : Keyword) : Except Error Sql := do
  let (count, suffix) ← intervalParts amount unit
  let sign := if subtract then "-" else "+"
  call "DATETIME" [date, concatenation [[.string sign], count, [.string suffix]]]

def daysBetween (later earlier : Sql) : Except Error Sql := do
  let last ← call "JULIANDAY" [← call "DATE" [later]]
  let first ← call "JULIANDAY" [← call "DATE" [earlier]]
  cast (last ++ word "-" ++ first) "INTEGER"

/-- What the specifiers of `DATE_FORMAT` are for `STRFTIME`. -/
def specifiers : List (Char × String) :=
  [('d', "%d"), ('e', "%d"), ('H', "%H"), ('k', "%H"), ('i', "%M"), ('j', "%j"), ('m', "%m"),
   ('c', "%m"), ('s', "%S"), ('S', "%S"), ('T', "%H:%M:%S"), ('Y', "%Y"), ('X', "%Y"),
   ('x', "%Y"), ('w', "%w"), ('U', "%W"), ('u', "%W"), ('V', "%W"), ('v', "%W"), ('%', "%%")]

/-- A pattern of `DATE_FORMAT` as one of `STRFTIME`. -/
def datePattern : List Char → Except Error (List Char)
  | [] => .ok []
  | ['%'] => .ok ['%', '%']
  | '%' :: c :: rest =>
    match specifiers.lookup c with
    | some specifier => do return specifier.toList ++ (← datePattern rest)
    | none => .error (.unsupported (.formatSpecifier c))
  | c :: rest => do return c :: (← datePattern rest)

/-! ### Calls -/

/-- What a function is written as that SQLite neither shares nor has under another name. -/
def composed (name : String) (arguments : List Sql) : Except Error Sql :=
  match name with
  | "GREATEST" =>
    if arguments.length < 2 then .error (wrongCount name (.atLeast 2) arguments)
    else call "MAX" arguments
  | "LEAST" =>
    if arguments.length < 2 then .error (wrongCount name (.atLeast 2) arguments)
    else call "MIN" arguments
  | "COT" => unary name arguments cotangent
  | "LEFT" => binary name arguments left
  | "RIGHT" => binary name arguments right
  | "SUBSTRING" | "SUBSTR" | "MID" =>
    match arguments with
    | [text, start] => substringFrom text start
    | _ => ternary name arguments substring
  | "LOCATE" =>
    match arguments with
    | [needle, haystack] => locate needle haystack
    | _ => ternary name arguments locateFrom
  | "POSITION" =>
    match arguments with
    | [needle, haystack] => locate needle haystack
    | _ => .error (.unsupported (.function name))
  | "CONCAT" =>
    if arguments.isEmpty then .error (wrongCount name (.atLeast 1) arguments)
    else .ok (group (concatenation arguments))
  | "MOD" => binary name arguments fun a b => .ok (group (a ++ word "%" ++ b))
  | "LENGTH" | "OCTET_LENGTH" =>
    unary name arguments fun text => do call "LENGTH" [← cast text "BLOB"]
  | "REPEAT" => binary name arguments repeated
  | "SPACE" => unary name arguments (repeated [.string " "])
  | "ISNULL" => unary name arguments fun x => .ok (group (x ++ words ["IS", "NULL"]))
  | "RAND" => if arguments.isEmpty then random else .error (.unsupported .seededRandom)
  | "LAST_INSERT_ID" =>
    if arguments.isEmpty then call "LAST_INSERT_ROWID" []
    else .error (.unsupported .lastInsertIdOf)
  | "DATEDIFF" => binary name arguments daysBetween
  | "DAY" | "DAYOFMONTH" | "DAYOFYEAR" | "HOUR" | "MINUTE" | "MONTH" | "SECOND" | "YEAR"
  | "DAYOFWEEK" | "WEEKDAY" | "QUARTER" | "WEEK" | "MICROSECOND" =>
    unary name arguments (datePart name)
  | "NOW" | "CURRENT_TIMESTAMP" | "SYSDATE" | "UTC_TIMESTAMP" | "LOCALTIME" | "LOCALTIMESTAMP" =>
    .ok (word "CURRENT_TIMESTAMP")
  | "CURDATE" | "CURRENT_DATE" => .ok (word "CURRENT_DATE")
  | "CURTIME" | "CURRENT_TIME" => .ok (word "CURRENT_TIME")
  | "TIMESTAMP" =>
    match arguments with
    | [date] => call "DATETIME" [date]
    | _ => .error (.unsupported (.function name))
  | "UNIX_TIMESTAMP" =>
    match arguments with
    | [] => formatted "%s" [.string "now"]
    | _ => unary name arguments (formatted "%s")
  | "FROM_UNIXTIME" =>
    unary name arguments fun seconds => call "DATETIME" [seconds, [.string "unixepoch"]]
  | "VERSION" => .ok [.string serverVersion]
  | _ => .error (.unsupported (.function name))

/-- What a call is written as. -/
def counterpart (name : String) (arguments : List Sql) : Except Error Sql :=
  if name == "ATAN" && arguments.length == 2 then call "ATAN2" arguments
  else if name == "LOG" && arguments.length == 1 then call "LN" arguments
  else if shared.contains name then call name arguments
  else match renamed.lookup name with
    | some other => call other arguments
    | none => composed name arguments

end SqlBridge.Function
