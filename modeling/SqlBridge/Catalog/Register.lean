/-
The tables in which the catalog is kept: three registers, of tables, columns and index parts, and a
cache of column types.
-/
namespace SqlBridge

inductive Register where
  | tables | columns | statistics
deriving DecidableEq, Repr

namespace Register

def name : Register → String
  | .tables => "_mysql_information_schema_tables"
  | .columns => "_mysql_information_schema_columns"
  | .statistics => "_mysql_information_schema_statistics"

/-- The definitions of a register's columns. -/
def layout : Register → List String
  | .tables =>
    ["TABLE_CATALOG TEXT NOT NULL DEFAULT 'def'", "TABLE_SCHEMA TEXT NOT NULL",
     "TABLE_NAME TEXT NOT NULL", "TABLE_TYPE TEXT NOT NULL", "ENGINE TEXT NOT NULL",
     "VERSION INTEGER NOT NULL DEFAULT 10", "ROW_FORMAT TEXT NOT NULL",
     "TABLE_ROWS INTEGER NOT NULL DEFAULT 0", "AVG_ROW_LENGTH INTEGER NOT NULL DEFAULT 0",
     "DATA_LENGTH INTEGER NOT NULL DEFAULT 0", "MAX_DATA_LENGTH INTEGER NOT NULL DEFAULT 0",
     "INDEX_LENGTH INTEGER NOT NULL DEFAULT 0", "DATA_FREE INTEGER NOT NULL DEFAULT 0",
     "AUTO_INCREMENT INTEGER", "CREATE_TIME TEXT NOT NULL DEFAULT CURRENT_TIMESTAMP",
     "UPDATE_TIME TEXT", "CHECK_TIME TEXT", "TABLE_COLLATION TEXT NOT NULL", "CHECKSUM INTEGER",
     "CREATE_OPTIONS TEXT", "TABLE_COMMENT TEXT NOT NULL DEFAULT ''"]
  | .columns =>
    ["TABLE_CATALOG TEXT NOT NULL DEFAULT 'def'", "TABLE_SCHEMA TEXT NOT NULL",
     "TABLE_NAME TEXT NOT NULL", "COLUMN_NAME TEXT NOT NULL", "ORDINAL_POSITION INTEGER NOT NULL",
     "COLUMN_DEFAULT TEXT", "IS_NULLABLE TEXT NOT NULL", "DATA_TYPE TEXT NOT NULL",
     "CHARACTER_MAXIMUM_LENGTH INTEGER", "CHARACTER_OCTET_LENGTH INTEGER",
     "NUMERIC_PRECISION INTEGER", "NUMERIC_SCALE INTEGER", "DATETIME_PRECISION INTEGER",
     "CHARACTER_SET_NAME TEXT", "COLLATION_NAME TEXT", "COLUMN_TYPE TEXT NOT NULL",
     "COLUMN_KEY TEXT NOT NULL DEFAULT ''", "EXTRA TEXT NOT NULL DEFAULT ''",
     "PRIVILEGES TEXT NOT NULL", "COLUMN_COMMENT TEXT NOT NULL DEFAULT ''",
     "GENERATION_EXPRESSION TEXT NOT NULL DEFAULT ''", "SRS_ID INTEGER"]
  | .statistics =>
    ["TABLE_CATALOG TEXT NOT NULL DEFAULT 'def'", "TABLE_SCHEMA TEXT NOT NULL",
     "TABLE_NAME TEXT NOT NULL", "NON_UNIQUE INTEGER NOT NULL", "INDEX_SCHEMA TEXT NOT NULL",
     "INDEX_NAME TEXT NOT NULL", "SEQ_IN_INDEX INTEGER NOT NULL", "COLUMN_NAME TEXT",
     "COLLATION TEXT", "CARDINALITY INTEGER", "SUB_PART INTEGER", "PACKED TEXT",
     "NULLABLE TEXT NOT NULL", "INDEX_TYPE TEXT NOT NULL", "COMMENT TEXT NOT NULL DEFAULT ''",
     "INDEX_COMMENT TEXT NOT NULL DEFAULT ''", "IS_VISIBLE TEXT NOT NULL DEFAULT 'YES'",
     "EXPRESSION TEXT"]

end Register

/-- The table that caches the types of columns. -/
def typeCache : String := "_mysql_data_types_cache"

def typeCacheLayout : List String :=
  ["\"table\" TEXT NOT NULL", "column_or_index TEXT NOT NULL", "mysql_type TEXT NOT NULL",
   "PRIMARY KEY(\"table\", column_or_index)"]

/-- The definition of a table of the catalog, a column to a line. -/
def catalogTableSql (name : String) (layout : List String) : String :=
  s!"CREATE TABLE IF NOT EXISTS {name} (\n        " ++ String.intercalate ",\n        " layout ++
    "\n    ) STRICT"

end SqlBridge
