/-
Settings from a text in TOML.

`debug` is a boolean, `fetch_mode` is `"assoc"` or `"num"`, and the table `database` has the strings
`path`, `name` and `journal_mode`.  All are optional, and there are no other keys.
-/
import SqlBridge.Config
import SqlBridge.Toml.Reader

namespace SqlBridge

namespace FetchMode

def ofName? : String → Option FetchMode
  | "assoc" => some .byName
  | "num" => some .byPosition
  | _ => none

/-- A fetch mode by its name, or as the only key of a table with nothing under it. -/
def ofToml? : Toml.Value → Option FetchMode
  | .text name => ofName? name
  | .table _ [(name, .table _ [])] => ofName? name
  | _ => none

end FetchMode

namespace Config

/-- Settings with one of the database. -/
def setDatabase (config : Config) : String × Toml.Value → Option Config
  | ("path", .text path) => some { config with path }
  | ("name", .text name) => some { config with database := name }
  | ("journal_mode", .text mode) => some { config with journalMode := some mode }
  | _ => none

/-- Settings with one more. -/
def set (config : Config) : String × Toml.Value → Option Config
  | ("debug", .boolean debug) => some { config with debug }
  | ("fetch_mode", value) => (FetchMode.ofToml? value).map fun mode =>
      { config with fetchMode := mode }
  | ("database", .table _ entries) => entries.foldlM setDatabase config
  | _ => none

/-- The settings that a text gives. -/
def ofText? (text : String) : Option Config := do
  (← Toml.read text).foldlM set {}

end Config

end SqlBridge
