/-
The words of MySQL that the grammar knows.

A reserved word never stands for a name by itself; an unreserved one may.  Words are looked up
without regard to the case of ASCII letters.
-/
import SqlBridge.Text.Basic

namespace SqlBridge

/-- A keyword, reserved ones first, each group in alphabetical order. -/
inductive Keyword where
  | ADD | ALL | ALTER | AND | AS | ASC | BETWEEN | BIGINT
  | BINARY | BLOB | BY | CASCADE | CASE | CHANGE | CHAR | CHARACTER
  | CHECK | COLLATE | COLUMN | CONSTRAINT | CONVERT | CREATE | CROSS | CURRENT_DATE
  | CURRENT_TIME | CURRENT_TIMESTAMP | DATABASE | DEC | DECIMAL | DEFAULT | DELAYED | DELETE
  | DESC | DISTINCT | DISTINCTROW | DIV | DOUBLE | DROP | DUAL | ELSE
  | EXISTS | FALSE | FLOAT | FOR | FORCE | FOREIGN | FROM | FULLTEXT
  | GENERATED | GROUP | HAVING | HIGH_PRIORITY | IF | IGNORE | IN | INDEX
  | INNER | INSERT | INT | INTEGER | INTERVAL | INTO | IS | JOIN
  | KEY | LEFT | LIKE | LIMIT | LOCK | LONG | LONGBLOB | LONGTEXT
  | LOW_PRIORITY | MATCH | MEDIUMBLOB | MEDIUMINT | MEDIUMTEXT | MOD | NATURAL | NOT
  | NULL | NUMERIC | ON | OR | ORDER | OUTER | PRECISION | PRIMARY
  | REAL | REFERENCES | REGEXP | RENAME | REPLACE | RESTRICT | RIGHT | RLIKE
  | SCHEMA | SELECT | SEPARATOR | SET | SMALLINT | SPATIAL | SQL_BIG_RESULT | SQL_CALC_FOUND_ROWS
  | SQL_SMALL_RESULT | STORED | STRAIGHT_JOIN | TABLE | THEN | TINYBLOB | TINYINT | TINYTEXT
  | TO | TRUE | UNION | UNIQUE | UNSIGNED | UPDATE | USE | USING
  | UTC_TIMESTAMP | VALUES | VARBINARY | VARCHAR | VARYING | VIRTUAL | WHEN | WHERE
  | WITH | XOR | ZEROFILL | ACTION | ADDDATE | AFTER | ALWAYS | ANY
  | ASCII | AUTO_INCREMENT | AVG | BEGIN | BIT | BOOL | BOOLEAN | BTREE
  | BYTE | CAST | CHARSET | COLUMN_FORMAT | COMMENT | COMMIT | COUNT | CURDATE
  | CURTIME | DATE | DATE_ADD | DATE_SUB | DATETIME | DAY | DUPLICATE | END
  | ENGINE | ENUM | ESCAPE | EXTRACT | FIRST | FIXED | GEOMCOLLECTION | GEOMETRY
  | GEOMETRYCOLLECTION | GLOBAL | GROUP_CONCAT | HASH | HOUR | INVISIBLE | JSON | KEY_BLOCK_SIZE
  | LINESTRING | LOCAL | MAX | MICROSECOND | MIN | MINUTE | MODE | MODIFY
  | MONTH | MULTILINESTRING | MULTIPOINT | MULTIPOLYGON | NAMES | NATIONAL | NCHAR | NO
  | NOW | NVARCHAR | OFFSET | POINT | POLYGON | POSITION | QUARTER | QUICK
  | ROLLBACK | ROLLUP | ROW_FORMAT | RTREE | SECOND | SERIAL | SESSION | SHARE
  | SIGNED | SOME | SQL_BUFFER_RESULT | SQL_CACHE | SQL_NO_CACHE | START | STORAGE | SUBDATE
  | SUBSTR | SUBSTRING | SUM | SYSDATE | TEMPORARY | TEXT | TIME | TIMESTAMP
  | TRANSACTION | TRIM | TYPE | UNICODE | UNKNOWN | VALUE | VISIBLE | WEEK
  | WORK | YEAR
deriving DecidableEq, Repr, Inhabited

namespace Keyword

/-- The place of a keyword in declaration order. -/
def index (keyword : Keyword) : Nat := keyword.ctorIdx

/-- The canonical (uppercase) spellings, in declaration order and in rows of eight. -/
def spellings : List (List String) :=
  [["ADD", "ALL", "ALTER", "AND", "AS", "ASC", "BETWEEN", "BIGINT"],
   ["BINARY", "BLOB", "BY", "CASCADE", "CASE", "CHANGE", "CHAR", "CHARACTER"],
   ["CHECK", "COLLATE", "COLUMN", "CONSTRAINT", "CONVERT", "CREATE", "CROSS", "CURRENT_DATE"],
   ["CURRENT_TIME", "CURRENT_TIMESTAMP", "DATABASE", "DEC", "DECIMAL", "DEFAULT",
    "DELAYED", "DELETE"],
   ["DESC", "DISTINCT", "DISTINCTROW", "DIV", "DOUBLE", "DROP", "DUAL", "ELSE"],
   ["EXISTS", "FALSE", "FLOAT", "FOR", "FORCE", "FOREIGN", "FROM", "FULLTEXT"],
   ["GENERATED", "GROUP", "HAVING", "HIGH_PRIORITY", "IF", "IGNORE", "IN", "INDEX"],
   ["INNER", "INSERT", "INT", "INTEGER", "INTERVAL", "INTO", "IS", "JOIN"],
   ["KEY", "LEFT", "LIKE", "LIMIT", "LOCK", "LONG", "LONGBLOB", "LONGTEXT"],
   ["LOW_PRIORITY", "MATCH", "MEDIUMBLOB", "MEDIUMINT", "MEDIUMTEXT", "MOD", "NATURAL", "NOT"],
   ["NULL", "NUMERIC", "ON", "OR", "ORDER", "OUTER", "PRECISION", "PRIMARY"],
   ["REAL", "REFERENCES", "REGEXP", "RENAME", "REPLACE", "RESTRICT", "RIGHT", "RLIKE"],
   ["SCHEMA", "SELECT", "SEPARATOR", "SET", "SMALLINT", "SPATIAL",
    "SQL_BIG_RESULT", "SQL_CALC_FOUND_ROWS"],
   ["SQL_SMALL_RESULT", "STORED", "STRAIGHT_JOIN", "TABLE", "THEN", "TINYBLOB",
    "TINYINT", "TINYTEXT"],
   ["TO", "TRUE", "UNION", "UNIQUE", "UNSIGNED", "UPDATE", "USE", "USING"],
   ["UTC_TIMESTAMP", "VALUES", "VARBINARY", "VARCHAR", "VARYING", "VIRTUAL", "WHEN", "WHERE"],
   ["WITH", "XOR", "ZEROFILL", "ACTION", "ADDDATE", "AFTER", "ALWAYS", "ANY"],
   ["ASCII", "AUTO_INCREMENT", "AVG", "BEGIN", "BIT", "BOOL", "BOOLEAN", "BTREE"],
   ["BYTE", "CAST", "CHARSET", "COLUMN_FORMAT", "COMMENT", "COMMIT", "COUNT", "CURDATE"],
   ["CURTIME", "DATE", "DATE_ADD", "DATE_SUB", "DATETIME", "DAY", "DUPLICATE", "END"],
   ["ENGINE", "ENUM", "ESCAPE", "EXTRACT", "FIRST", "FIXED", "GEOMCOLLECTION", "GEOMETRY"],
   ["GEOMETRYCOLLECTION", "GLOBAL", "GROUP_CONCAT", "HASH", "HOUR", "INVISIBLE",
    "JSON", "KEY_BLOCK_SIZE"],
   ["LINESTRING", "LOCAL", "MAX", "MICROSECOND", "MIN", "MINUTE", "MODE", "MODIFY"],
   ["MONTH", "MULTILINESTRING", "MULTIPOINT", "MULTIPOLYGON", "NAMES", "NATIONAL", "NCHAR", "NO"],
   ["NOW", "NVARCHAR", "OFFSET", "POINT", "POLYGON", "POSITION", "QUARTER", "QUICK"],
   ["ROLLBACK", "ROLLUP", "ROW_FORMAT", "RTREE", "SECOND", "SERIAL", "SESSION", "SHARE"],
   ["SIGNED", "SOME", "SQL_BUFFER_RESULT", "SQL_CACHE", "SQL_NO_CACHE", "START",
    "STORAGE", "SUBDATE"],
   ["SUBSTR", "SUBSTRING", "SUM", "SYSDATE", "TEMPORARY", "TEXT", "TIME", "TIMESTAMP"],
   ["TRANSACTION", "TRIM", "TYPE", "UNICODE", "UNKNOWN", "VALUE", "VISIBLE", "WEEK"],
   ["WORK", "YEAR"]]

/-- The canonical (uppercase) spelling. -/
def spelling (keyword : Keyword) : String :=
  (spellings.getD (keyword.index / 8) []).getD (keyword.index % 8) ""

/-- Every keyword, in declaration order. -/
def all : List Keyword := (List.range (Keyword.YEAR.index + 1)).map ofNat

/-- Whether a word cannot be used as a bare name; those words are declared first. -/
def isReserved (keyword : Keyword) : Bool := keyword.index ≤ Keyword.ZEROFILL.index

/-- The keyword a word spells, if any; ASCII case does not matter. -/
def ofWord? (word : String) : Option Keyword :=
  let upper := Text.asciiUpper word
  all.find? (·.spelling == upper)

/-- Every keyword, sorted by spelling. -/
def sorted : List Keyword := all.mergeSort (fun a b => a.spelling ≤ b.spelling)

end Keyword

end SqlBridge
