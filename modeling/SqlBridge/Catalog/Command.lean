/-
The writes that keep the catalog.

A `Command` says what is written, and `Command.query` how.  What comes from a statement or a table
is always the value of a parameter, so the text of a command's statement does not depend on it.
-/
import SqlBridge.Catalog.Column
import SqlBridge.Catalog.Query

namespace SqlBridge

/-- A table of a database. -/
structure Place where
  schema : String
  table : String
deriving DecidableEq, Repr

/-- The row of a table. -/
structure TableRow where
  place : Place
  engine : String
  collation : String
  /-- The option `AUTO_INCREMENT`, if given; its number, if it is one. -/
  autoIncrement : Option (Option Int64)
  comment : Option String
deriving DecidableEq, Repr

/-- The row of a column of an index. -/
structure IndexRow where
  unique : Bool
  index : String
  position : Int64
  column : String
  /-- The direction in which the column is sorted, if it is. -/
  collation : Option String
  /-- How much of the column is indexed, if not all. -/
  length : Option Int64
  nullable : Bool
  method : IndexMethod
  comment : String
deriving DecidableEq, Repr

inductive Command where
  | createRegister (register : Register)
  | createCache
  | recordTable (row : TableRow)
  | recordColumn (place : Place) (ordinal : Int64) (column : Column)
  /-- Record a column after the ones that are recorded. -/
  | appendColumn (place : Place) (column : Column)
  | recordIndexPart (place : Place) (row : IndexRow)
  /-- Record a column of an index by what is recorded about the column. -/
  | addIndexPart (place : Place) (index : Index) (leading : String) (position : Int64)
      (part : KeyPart)
  /-- Give a column a key unless it has one that takes precedence. -/
  | promoteKey (place : Place) (column : String) (key : ColumnKey)
  /-- Give the columns that an index leads the keys they have by the other indexes. -/
  | recomputeKeys (place : Place) (index : String)
  /-- Move the columns after one up. -/
  | closeOrdinalGap (place : Place) (column : String)
  /-- Move the index parts after a column up. -/
  | closeIndexGaps (place : Place) (column : String)
  | forgetTable (register : Register) (place : Place)
  | forgetColumn (register : Register) (place : Place) (column : String)
  | forgetIndex (place : Place) (index : String)
  | renameTable (register : Register) (place : Place) (newName : String)
  | renameColumn (register : Register) (place : Place) (column newName : String)
  | cacheType (table column type : String)
  | uncacheTable (table : String)
  | uncacheColumn (table column : String)
  | renameCachedTable (table newName : String)
  | renameCachedColumn (table column newName : String)

/-! ### Rows -/

def TableRow.rowFormat (row : TableRow) : String :=
  if row.engine == "MyISAM" then "FIXED" else "DYNAMIC"

/-- The row of a table, column by column. -/
def TableRow.values (row : TableRow) : List (String × Value) :=
  [("table_schema", .text row.place.schema), ("table_name", .text row.place.table),
   ("table_type", .text "BASE TABLE"), ("engine", .text row.engine),
   ("row_format", .text row.rowFormat), ("table_collation", .text row.collation)] ++
  (row.autoIncrement.map fun number => ("auto_increment", Value.ofOption .integer number)).toList ++
  (row.comment.map fun comment => ("table_comment", Value.text comment)).toList

/-- The row of a column, column by column. -/
def Column.values (column : Column) (place : Place) (ordinal : Int64) : List (String × Value) :=
  [("table_schema", .text place.schema), ("table_name", .text place.table),
   ("column_name", .text column.name), ("ordinal_position", .integer ordinal),
   ("column_default", .ofOption .text column.defaultText),
   ("is_nullable", .text (if column.nullable then "YES" else "NO")),
   ("data_type", .text column.dataType.name),
   ("character_maximum_length", .ofOption .integer (column.extent.map Extent.characters)),
   ("character_octet_length", .ofOption .integer (column.extent.map Extent.octets)),
   ("numeric_precision", .ofOption .integer (column.digits.map Digits.precision)),
   ("numeric_scale", .ofOption .integer (column.digits.bind Digits.scale)),
   ("datetime_precision", .ofOption .integer column.datetimePrecision),
   ("character_set_name", .ofOption .text (column.encoding.map Encoding.charset)),
   ("collation_name", .ofOption .text (column.encoding.map Encoding.collation)),
   ("column_type", .text column.columnType), ("column_key", .text column.key.name),
   ("extra", .text column.extra), ("privileges", .text "select,insert,update,references"),
   ("column_comment", .text column.comment),
   ("generation_expression", .text column.generationExpression), ("srs_id", .null)]

/-- The row of an index part, column by column. -/
def IndexRow.values (row : IndexRow) (place : Place) : List (String × Value) :=
  [("table_schema", .text place.schema), ("table_name", .text place.table),
   ("non_unique", .ofBool (!row.unique)), ("index_schema", .text place.schema),
   ("index_name", .text row.index), ("seq_in_index", .integer row.position),
   ("column_name", .text row.column), ("collation", .ofOption .text row.collation),
   ("cardinality", .integer 0), ("sub_part", .ofOption .integer row.length), ("packed", .null),
   ("nullable", .text (if row.nullable then "YES" else "")), ("index_type", .text row.method.name),
   ("comment", .text ""), ("index_comment", .text row.comment), ("is_visible", .text "YES"),
   ("expression", .null)]

/-! ### Queries -/

namespace Term

/-- The condition that a column has a value. -/
def has (source : Option String) (column value : String) : Term :=
  (Term.column source column).equals (.bound (.text value))

/-- The condition that a column of one table has the value it has in a row of another. -/
def agrees (source other : String) (column : String) : Term :=
  (Term.column (some source) column).equals (.column (some other) column)

end Term

namespace Place

/-- The rows about a table. -/
def condition (place : Place) (source : Option String) : Term :=
  (Term.has source "table_schema" place.schema).and (.has source "table_name" place.table)

/-- The rows about a column of a table. -/
def columnCondition (place : Place) (source : Option String) (column : String) : Term :=
  (place.condition source).and (.has source "column_name" column)

/-- The rows about an index of a table. -/
def indexCondition (place : Place) (index : String) : Term :=
  (place.condition none).and (.has none "index_name" index)

end Place

namespace Command

/-- The insertion of a row of parameters. -/
def insertion (register : Register) (row : List (String × Value)) : Query :=
  .insert false register.name (row.map fun entry => (entry.1, .bound entry.2))

/-- The position after those of the recorded columns. -/
def nextOrdinal (place : Place) : Term :=
  .scalar <| .mk
    (.operation .plus (.coalesce (.maximum (.column none "ordinal_position")) (.number 0))
      (.number 1))
    ⟨Register.columns.name, none⟩ (place.condition none)

/-- The insertion of a column's row at the next position. -/
def appending (place : Place) (row : List (String × Value)) : Query :=
  .insert false Register.columns.name <| row.map fun entry =>
    (entry.1, if entry.1 == "ordinal_position" then nextOrdinal place else .bound entry.2)

/-- The types of columns that are indexed by the space they take. -/
def spatialTypes : List String :=
  ["geometry", "geometrycollection", "point", "multipoint", "linestring", "multilinestring",
   "polygon", "multipolygon"]

/-- The method of an index by its declaration, else by the type of its first column. -/
def indexMethod (place : Place) (index : Index) (leading : String) : Term :=
  let leadingType := Term.scalar <| .mk (.column none "data_type")
    ⟨Register.columns.name, none⟩ (place.columnCondition none leading)
  .coalesce (.bound (.ofOption .text (index.explicitMethod?.map IndexMethod.name)))
    (.cases (.branch (.isOneOf leadingType spatialTypes) (.text "SPATIAL")
      (.otherwise (.text "BTREE"))))

/-- The row of an index part, from the row `c` of its column and the method in the row `t`. -/
def indexPartRow (index : Index) (position : Int64) (part : KeyPart) : List (String × Term) :=
  let ofColumn := Term.column (some "c")
  let method := Term.column (some "t") "index_type"
  let length := Term.bound (.ofOption .integer part.length)
  [("table_schema", ofColumn "table_schema"), ("table_name", ofColumn "table_name"),
   ("non_unique", .bound (.ofBool (!index.isUnique))), ("index_schema", ofColumn "table_schema"),
   ("index_name", .bound (.text index.name)), ("seq_in_index", .bound (.integer position)),
   ("column_name", ofColumn "column_name"),
   ("collation", .cases (.branch (method.isText "FULLTEXT") .null
      (.branch (.bound (.ofBool part.descending)) (.text "D") (.otherwise (.text "A"))))),
   ("cardinality", .number 0),
   ("sub_part", .cases (.branch (.isNotNull length)
      (.least length (.coalesce (ofColumn "character_maximum_length") length))
      (.branch (method.isText "SPATIAL") (.number 32) .ending))),
   ("packed", .null),
   ("nullable", .cases (.branch ((ofColumn "is_nullable").isText "YES") (.text "YES")
      (.otherwise (.text "")))),
   ("index_type", method), ("comment", .text ""), ("index_comment", .bound (.text index.comment)),
   ("is_visible", .text "YES"), ("expression", .null)]

/-- The key of a column that is given another: the one that takes precedence. -/
def promotedKey (key : ColumnKey) : Term :=
  let old := Term.column none "column_key"
  let new := Term.bound (.text key.name)
  .cases (.branch ((old.isText "PRI").or (new.isText "PRI")) (.text "PRI")
    (.branch ((old.isText "UNI").or (new.isText "UNI")) (.text "UNI") (.otherwise (.text "MUL"))))

/-- The key of a column by the indexes it leads, one apart. -/
def remainingKey (index : String) : Term :=
  let key := Term.cases <|
    .branch (.equals .count (.number 0)) (.text "") <|
    .branch (.equals (.maximum ((Term.column (some "s") "index_name").isText "PRIMARY"))
      (.number 1)) (.text "PRI") <|
    .branch (.equals (.minimum (.column (some "s") "non_unique")) (.number 0)) (.text "UNI") <|
    .otherwise (.text "MUL")
  .scalar <| .mk key ⟨Register.statistics.name, some "s"⟩ <|
    ((((Term.agrees "s" Register.columns.name "table_schema").and
      (.agrees "s" Register.columns.name "table_name")).and
      (.agrees "s" Register.columns.name "column_name")).and
      ((Term.column (some "s") "seq_in_index").equals (.number 1))).and
      (.operation .unequal (.column (some "s") "index_name") (.bound (.text index)))

/-- The columns that an index leads. -/
def ledColumns (place : Place) (index : String) : Selection :=
  .mk (.column none "column_name") ⟨Register.statistics.name, none⟩ <|
    (place.indexCondition index).and ((Term.column none "seq_in_index").equals (.number 1))

/-- The position of a column. -/
def ordinalOf (place : Place) (column : String) : Term :=
  .scalar <| .mk (.column none "ordinal_position") ⟨Register.columns.name, none⟩
    (place.columnCondition none column)

/-- The position of a column in the index of an index part. -/
def positionInIndex (column : String) : Term :=
  .scalar <| .mk (.column (some "s") "seq_in_index") ⟨Register.statistics.name, some "s"⟩ <|
    (((Term.agrees "s" Register.statistics.name "table_schema").and
      (.agrees "s" Register.statistics.name "table_name")).and
      (.agrees "s" Register.statistics.name "index_name")).and
      (.has (some "s") "column_name" column)

/-- Rows move up that stand after a position. -/
def movingUp (register : Register) (place : Place) (counter : String) (position : Term) : Query :=
  .update register.name counter (.operation .minus (.column none counter) (.number 1))
    ((place.condition none).and (.operation .greater (.column none counter) position))

/-- The SQLite query of a command. -/
def query : Command → Query
  | .createRegister register => .createTable register.name register.layout
  | .createCache => .createTable typeCache typeCacheLayout
  | .recordTable row => insertion .tables row.values
  | .recordColumn place ordinal column => insertion .columns (column.values place ordinal)
  | .appendColumn place column => appending place (column.values place 0)
  | .recordIndexPart place row => insertion .statistics (row.values place)
  | .addIndexPart place index leading position part =>
    .insertSelected Register.statistics.name (indexPartRow index position part)
      [.table ⟨Register.columns.name, some "c"⟩,
       .single (indexMethod place index leading) "index_type" "t"]
      (place.columnCondition (some "c") part.column)
  | .promoteKey place column key =>
    .update Register.columns.name "column_key" (promotedKey key)
      (place.columnCondition none column)
  | .recomputeKeys place index =>
    .update Register.columns.name "column_key" (remainingKey index)
      (((place.condition none).and
        (.operation .unequal (.column none "column_key") (.text "PRI"))).and
        (.isAmong (.column none "column_name") (ledColumns place index)))
  | .closeOrdinalGap place column =>
    movingUp .columns place "ordinal_position" (ordinalOf place column)
  | .closeIndexGaps place column =>
    movingUp .statistics place "seq_in_index" (positionInIndex column)
  | .forgetTable register place => .delete register.name (place.condition none)
  | .forgetColumn register place column =>
    .delete register.name (place.columnCondition none column)
  | .forgetIndex place index => .delete Register.statistics.name (place.indexCondition index)
  | .renameTable register place newName =>
    .update register.name "table_name" (.bound (.text newName)) (place.condition none)
  | .renameColumn register place column newName =>
    .update register.name "column_name" (.bound (.text newName))
      (place.columnCondition none column)
  | .cacheType table column type =>
    .insert true typeCache [("table", .bound (.text table)),
      ("column_or_index", .bound (.text column)), ("mysql_type", .bound (.text type))]
  | .uncacheTable table => .delete typeCache (.has none "table" table)
  | .uncacheColumn table column =>
    .delete typeCache ((Term.has none "table" table).and (.has none "column_or_index" column))
  | .renameCachedTable table newName =>
    .update typeCache "table" (.bound (.text newName)) (.has none "table" table)
  | .renameCachedColumn table column newName =>
    .update typeCache "column_or_index" (.bound (.text newName))
      ((Term.has none "table" table).and (.has none "column_or_index" column))

/-- The SQLite statement of a command. -/
def statement (command : Command) : Statement := command.query.statement

end Command

end SqlBridge
