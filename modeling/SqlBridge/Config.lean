/-
Settings of a session.
-/
import SqlBridge.Value.Fetched

namespace SqlBridge

structure Config where
  /-- Whether a failing query is an error instead of a result that reports the failure. -/
  debug : Bool := false
  fetchMode : FetchMode := .byName
  /-- The database file. -/
  path : String := ":memory:"
  /-- The name of the one database. -/
  database : String := "wp"
  journalMode : Option String := none
deriving DecidableEq, Repr, Inhabited

/-- The journal modes of SQLite. -/
def journalModes : List String := ["DELETE", "TRUNCATE", "PERSIST", "MEMORY", "WAL", "OFF"]

/-- The upper case of a character.  Beyond ASCII only the characters count whose upper case is in
ASCII: no other can be part of a journal mode. -/
def upperInAscii (c : Char) : List Char :=
  match c.toNat with
  | 0xDF => ['S', 'S']
  | 0x131 => ['I']
  | 0x17F => ['S']
  | 0xFB00 => ['F', 'F']
  | 0xFB01 => ['F', 'I']
  | 0xFB02 => ['F', 'L']
  | 0xFB03 => ['F', 'F', 'I']
  | 0xFB04 => ['F', 'F', 'L']
  | 0xFB05 => ['S', 'T']
  | 0xFB06 => ['S', 'T']
  | _ => [c.toUpper]

/-- The journal mode that a text names, in any case. -/
def journalMode? (text : String) : Option String :=
  let upper := String.ofList (text.toList.flatMap upperInAscii)
  if journalModes.contains upper then some upper else none

end SqlBridge
