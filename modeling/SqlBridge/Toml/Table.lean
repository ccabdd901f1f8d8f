/-
Tables of a TOML document.

A table is opened by a header, by a header below it, by a dotted key or in braces.  What may be
added later depends on that: a header opens a table once, a dotted key adds only to tables that
dotted keys made, and nothing is added to a table in braces.
-/
namespace SqlBridge.Toml

/-- How a table came to be. -/
inductive Origin where
  | header | implied | dotted | inline
deriving DecidableEq, Repr

/-- The values that settings have; numbers, dates and arrays are not among them. -/
inductive Value where
  | boolean (value : Bool)
  | text (value : String)
  | table (origin : Origin) (entries : List (String × Value))
deriving Repr

/-- The keys of a table with their values, in order. -/
abbrev Entries := List (String × Value)

/-- Puts another value under a key that is there. -/
def replace (key : String) (value : Value) (entries : Entries) : Entries :=
  entries.map fun entry => if entry.1 = key then (key, value) else entry

/-- Adds a value under a dotted key. -/
def insert (value : Value) : (path : List String) → Entries → Option Entries
  | [], _ => none
  | [key], entries =>
    if (entries.lookup key).isSome then none else some (entries ++ [(key, value)])
  | key :: path, entries =>
    match entries.lookup key with
    | none => do
      let inner ← insert value path []
      return entries ++ [(key, .table .dotted inner)]
    | some (.table .dotted inner) => do
      let inner ← insert value path inner
      return replace key (.table .dotted inner) entries
    | some _ => none

/-- Opens the table that a header names. -/
def declare : (path : List String) → Entries → Option Entries
  | [], _ => none
  | [key], entries =>
    match entries.lookup key with
    | none => some (entries ++ [(key, .table .header [])])
    | some (.table .implied inner) => some (replace key (.table .header inner) entries)
    | some _ => none
  | key :: path, entries =>
    match entries.lookup key with
    | none => do
      let inner ← declare path []
      return entries ++ [(key, .table .implied inner)]
    | some (.table .inline _) => none
    | some (.table origin inner) => do
      let inner ← declare path inner
      return replace key (.table origin inner) entries
    | some _ => none

/-- Changes the entries of the table at a path. -/
def update (change : Entries → Option Entries) : (path : List String) → Entries → Option Entries
  | [], entries => change entries
  | key :: path, entries =>
    match entries.lookup key with
    | some (.table origin inner) => do
      let inner ← update change path inner
      return replace key (.table origin inner) entries
    | _ => none

end SqlBridge.Toml
