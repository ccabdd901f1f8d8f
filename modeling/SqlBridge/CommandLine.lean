/-
The command line.

* Without arguments it says how it is used.
* `keywords` lists the keywords.
* `explain` shows how a statement is read and what it is written as.
* A statement is run on a storage that takes everything and has no rows; `--dry-run` shows the
  statements that are sent.
-/
import SqlBridge.Session.Query
import SqlBridge.Text.CharacterSets

namespace SqlBridge.CommandLine

/-- What the program prints, and how it ends. -/
structure Output where
  exitCode : UInt32 := 0
  stdout : String := ""
  stderr : String := ""
deriving DecidableEq, Repr

structure Options where
  dryRun : Bool := false
  debug : Bool := false
  database : Option String := none
deriving DecidableEq, Repr

/-- What the program is asked to do. -/
inductive Request where
  | usage
  | keywords
  | explain (sql : String)
  | execute (sql : String) (options : Options)
deriving DecidableEq, Repr

/-- Reads arguments; `none` for arguments that are not understood. -/
def readArguments (options : Options) (query : Option String) : List String → Option Request
  | [] => some (match query with
    | some sql => .execute sql options
    | none => .usage)
  | "--dry-run" :: rest => readArguments { options with dryRun := true } query rest
  | "--debug" :: rest => readArguments { options with debug := true } query rest
  | "--format" :: format :: rest | "-f" :: format :: rest =>
    if format == "json" || format == "table" then readArguments options query rest else none
  | "-d" :: path :: rest | "--database" :: path :: rest =>
    readArguments { options with database := some path } query rest
  | argument :: rest =>
    if "-".isPrefixOf argument && argument != "-" then none
    else match query, argument, rest with
      | none, "keywords", [] => some .keywords
      | none, "explain", [sql] => some (.explain sql)
      | none, "explain", _ | none, "keywords", _ => none
      | none, sql, _ => readArguments options (some sql) rest
      | some _, _, _ => none

/-- Lines of text, each ended. -/
def lines (texts : List String) : String := String.join (texts.map (· ++ "\n"))

/-- The text of a failure. -/
def errorLine (message : String) : String := lines ["Error: " ++ message]

def usage : Output where
  stdout := lines ["mysqlite — MySQL on SQLite", "", "Usage: mysqlite <QUERY> [OPTIONS]", "",
    "Try: mysqlite --help"]

def keywordLine (keyword : Keyword) : String :=
  "  " ++ keyword.spelling ++ if keyword.isReserved then " (reserved)" else ""

def keywordReference : Output where
  stdout := lines <| ["mysqlite Keyword Reference", ""] ++ Keyword.sorted.map keywordLine ++
    ["", s!"{Keyword.sorted.length} keywords, {Rule.named.length} grammar rules"]

/-- What a tree is written as, or why it is not. -/
def writtenLine (database : String) (tree : Tree) : String :=
  match (tree.write database).outcome.1 with
  | .ok (some sql) => "  " ++ sql.render
  | .ok none => "  (nothing to execute)"
  | .error error => "  ✗ " ++ error.message

def explain (database sql : String) : Output :=
  let heading := lines ["mysqlite Query Explanation", "", "Query: " ++ sql, ""]
  match Grammar.parse sql with
  | .error error => { exitCode := 1, stdout := heading, stderr := errorLine error.message }
  | .ok tree =>
    { stdout := heading ++ lines ["Parse Tree:", tree.outline, "Translated SQL:",
        writtenLine database tree] }

/-- A text without blanks at its ends. -/
def trimmed (text : String) : String :=
  let front := text.toList.dropWhile Text.isBlank
  String.ofList (front.reverse.dropWhile Text.isBlank).reverse

/-- What is said of the result of a query. -/
def resultLines (report : Report) : List String :=
  match report.returned with
  | .rows _ => ["(no results)"]
  | .affected count =>
    s!"✓ {count} rows affected" ::
      match report.lastInsertId with
      | some id => if 0 < id then [s!"✓ last insert id {id}"] else []
      | none => []
  | .success success => [(if success then "✓ " else "✗ ") ++ trimmed report.query]

/-- What is said of the statements that were sent. -/
def sentLines (report : Report) : List String :=
  "SQLite statements:" :: report.executed.map fun statement => "  " ++ statement.display

def execute (config : Config) (options : Options) (sql : String) : Output :=
  let config := { config with
    path := if options.dryRun then ":memory:" else options.database.getD config.path
    debug := config.debug || options.debug }
  let action : Action Unit Report := do
    Session.prepare Storage.accepting config
    Session.query Storage.accepting config sql
  match ((ExceptT.run action).run { storage := () }).1 with
  | .error error => { exitCode := 1, stderr := errorLine error.message }
  | .ok report =>
    let sent := if options.dryRun then lines (sentLines report) else ""
    match report.failure with
    | some failure => { exitCode := 1, stdout := sent, stderr := errorLine failure }
    | none => { stdout := if options.dryRun then sent else lines (resultLines report) }

/-- Does what the arguments ask for. -/
def answer (config : Config) : Request → Output
  | .usage => usage
  | .keywords => keywordReference
  | .explain sql => explain config.database sql
  | .execute sql options => execute config options sql

/-- What the program prints for some arguments. -/
def run (arguments : List String) : Output :=
  match readArguments {} none arguments with
  | some request => answer {} request
  | none => { exitCode := 2, stderr := errorLine "arguments not understood" }

end SqlBridge.CommandLine
