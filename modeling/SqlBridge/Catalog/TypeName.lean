/-
The names of data types as the catalog reports them.
-/
import SqlBridge.Error
import SqlBridge.Tree

namespace SqlBridge

inductive TypeName where
  | tinyint | smallint | mediumint | int | bigint
  | float | double | decimal
  | bit | binary | varbinary
  | year | date | time | timestamp | datetime
  | tinyblob | blob | mediumblob | longblob
  | char | varchar | tinytext | text | mediumtext | longtext | enum | set
  | json
  | geometry | geometrycollection | point | multipoint | linestring | multilinestring
  | polygon | multipolygon
deriving DecidableEq, Repr, Inhabited

namespace TypeName

def name : TypeName → String
  | .tinyint => "tinyint"
  | .smallint => "smallint"
  | .mediumint => "mediumint"
  | .int => "int"
  | .bigint => "bigint"
  | .float => "float"
  | .double => "double"
  | .decimal => "decimal"
  | .bit => "bit"
  | .binary => "binary"
  | .varbinary => "varbinary"
  | .year => "year"
  | .date => "date"
  | .time => "time"
  | .timestamp => "timestamp"
  | .datetime => "datetime"
  | .tinyblob => "tinyblob"
  | .blob => "blob"
  | .mediumblob => "mediumblob"
  | .longblob => "longblob"
  | .char => "char"
  | .varchar => "varchar"
  | .tinytext => "tinytext"
  | .text => "text"
  | .mediumtext => "mediumtext"
  | .longtext => "longtext"
  | .enum => "enum"
  | .set => "set"
  | .json => "json"
  | .geometry => "geometry"
  | .geometrycollection => "geometrycollection"
  | .point => "point"
  | .multipoint => "multipoint"
  | .linestring => "linestring"
  | .multilinestring => "multilinestring"
  | .polygon => "polygon"
  | .multipolygon => "multipolygon"

def isSpatial : TypeName → Bool
  | .geometry | .geometrycollection | .point | .multipoint | .linestring | .multilinestring
  | .polygon | .multipolygon => true
  | _ => false

/-- Whether values of the type have a character set. -/
def isCharacter : TypeName → Bool
  | .char | .varchar | .tinytext | .text | .mediumtext | .longtext | .enum | .set => true
  | _ => false

/-- The type that the keywords of a data type name. -/
def ofKeywords (keywords : List Keyword) : Except Error TypeName :=
  match keywords.head? with
  | none => .error (.malformed (.lacks "data type" "a name"))
  | some first =>
    match first with
    | .TINYINT | .BOOL | .BOOLEAN => .ok .tinyint
    | .SMALLINT => .ok .smallint
    | .MEDIUMINT => .ok .mediumint
    | .INT | .INTEGER => .ok .int
    | .BIGINT | .SERIAL => .ok .bigint
    | .FLOAT => .ok .float
    | .DOUBLE | .REAL => .ok .double
    | .DECIMAL | .NUMERIC | .FIXED | .DEC => .ok .decimal
    | .BIT => .ok .bit
    | .BINARY => .ok .binary
    | .VARBINARY => .ok .varbinary
    | .YEAR => .ok .year
    | .DATE => .ok .date
    | .TIME => .ok .time
    | .TIMESTAMP => .ok .timestamp
    | .DATETIME => .ok .datetime
    | .TINYBLOB => .ok .tinyblob
    | .BLOB => .ok .blob
    | .MEDIUMBLOB => .ok .mediumblob
    | .LONGBLOB => .ok .longblob
    | .TINYTEXT => .ok .tinytext
    | .TEXT => .ok .text
    | .MEDIUMTEXT => .ok .mediumtext
    | .LONGTEXT => .ok .longtext
    | .ENUM => .ok .enum
    | .SET => .ok .set
    | .JSON => .ok .json
    | .GEOMETRY => .ok .geometry
    | .GEOMETRYCOLLECTION | .GEOMCOLLECTION => .ok .geometrycollection
    | .POINT => .ok .point
    | .MULTIPOINT => .ok .multipoint
    | .LINESTRING => .ok .linestring
    | .MULTILINESTRING => .ok .multilinestring
    | .POLYGON => .ok .polygon
    | .MULTIPOLYGON => .ok .multipolygon
    | .LONG => if keywords.contains .VARBINARY then .ok .mediumblob else .ok .mediumtext
    | .VARCHAR | .NVARCHAR => .ok .varchar
    | .CHAR | .CHARACTER | .NCHAR | .NATIONAL =>
      if keywords.contains .VARCHAR || keywords.contains .VARYING then .ok .varchar
      else .ok .char
    | keyword => .error (.unsupported (.dataType keyword))

/-- The type that a data type names. -/
def ofDataType (dataType : Tree) : Except Error TypeName := ofKeywords dataType.childKeywords

end TypeName

end SqlBridge
