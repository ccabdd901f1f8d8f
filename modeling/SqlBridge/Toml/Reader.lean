/-
Reading TOML documents in which every value is a boolean, a string on one line or a table.

A document is read line by line: a line is blank, a header in brackets or a key with a value, and
may end in a comment.
-/
import SqlBridge.Toml.Table

namespace SqlBridge.Toml

def skipBlanks (text : List Char) : List Char := text.dropWhile fun c => c == ' ' || c == '\t'

/-- Whether a character may not stand in strings and comments. -/
def isControl (c : Char) : Bool := (c.toNat < 0x20 && c != '\t') || c.toNat == 0x7F

/-! ### Strings -/

def hexValue? (c : Char) : Option Nat :=
  if '0' ≤ c ∧ c ≤ '9' then some (c.toNat - '0'.toNat)
  else if 'a' ≤ c ∧ c ≤ 'f' then some (c.toNat - 'a'.toNat + 10)
  else if 'A' ≤ c ∧ c ≤ 'F' then some (c.toNat - 'A'.toNat + 10)
  else none

/-- The character with a code in hexadecimal. -/
def charOfHex? (digits : List Char) : Option Char := do
  let values ← digits.mapM hexValue?
  let code := values.foldl (fun code value => 16 * code + value) 0
  if code.isValidChar then some (Char.ofNat code) else none

/-- The character that a letter after a backslash stands for. -/
def escape? : Char → Option Char
  | 'b' => some '\x08'
  | 't' => some '\t'
  | 'n' => some '\n'
  | 'f' => some '\x0c'
  | 'r' => some '\r'
  | '"' => some '"'
  | '\\' => some '\\'
  | _ => none

/-- The rest of a string in double quotes, and what follows it. -/
def readBasic : List Char → Option (List Char × List Char)
  | [] => none
  | '"' :: rest => some ([], rest)
  | '\\' :: 'u' :: a :: b :: c :: d :: rest => do
    let char ← charOfHex? [a, b, c, d]
    let (value, rest) ← readBasic rest
    return (char :: value, rest)
  | '\\' :: 'U' :: a :: b :: c :: d :: e :: f :: g :: h :: rest => do
    let char ← charOfHex? [a, b, c, d, e, f, g, h]
    let (value, rest) ← readBasic rest
    return (char :: value, rest)
  | '\\' :: c :: rest => do
    let char ← escape? c
    let (value, rest) ← readBasic rest
    return (char :: value, rest)
  | c :: rest =>
    if isControl c || c == '\\' then none else do
      let (value, rest) ← readBasic rest
      return (c :: value, rest)

/-- The rest of a string in single quotes, and what follows it. -/
def readLiteral : List Char → Option (List Char × List Char)
  | [] => none
  | '\'' :: rest => some ([], rest)
  | c :: rest =>
    if isControl c then none else do
      let (value, rest) ← readLiteral rest
      return (c :: value, rest)

/-! ### Keys -/

def isBareChar (c : Char) : Bool := c.isAlphanum || c == '_' || c == '-'

def readKeyPart (text : List Char) : Option (String × List Char) :=
  match text with
  | '"' :: rest => (readBasic rest).map fun (key, rest) => (String.ofList key, rest)
  | '\'' :: rest => (readLiteral rest).map fun (key, rest) => (String.ofList key, rest)
  | _ =>
    let key := text.takeWhile isBareChar
    if key.isEmpty then none else some (String.ofList key, text.drop key.length)

/-- A dotted key, and what follows it and the blanks after it. -/
def readKey : (fuel : Nat) → List Char → Option (List String × List Char)
  | 0, _ => none
  | fuel + 1, text => do
    let (part, rest) ← readKeyPart text
    match skipBlanks rest with
    | '.' :: rest =>
      let (path, rest) ← readKey fuel (skipBlanks rest)
      return (part :: path, rest)
    | rest => return ([part], rest)

/-! ### Values -/

mutual

def readValue : (fuel : Nat) → List Char → Option (Value × List Char)
  | 0, _ => none
  | fuel + 1, text =>
    match text with
    | 't' :: 'r' :: 'u' :: 'e' :: rest => some (.boolean true, rest)
    | 'f' :: 'a' :: 'l' :: 's' :: 'e' :: rest => some (.boolean false, rest)
    | '"' :: rest => (readBasic rest).map fun (value, rest) => (.text (String.ofList value), rest)
    | '\'' :: rest =>
      (readLiteral rest).map fun (value, rest) => (.text (String.ofList value), rest)
    | '{' :: rest =>
      match skipBlanks rest with
      | '}' :: rest => some (.table .inline [], rest)
      | rest => readInline fuel [] rest
    | _ => none

/-- The keys and values of a table in braces, from a key on. -/
def readInline : (fuel : Nat) → Entries → List Char → Option (Value × List Char)
  | 0, _, _ => none
  | fuel + 1, entries, text => do
    let (path, value, rest) ← readPair fuel text
    let entries ← insert value path entries
    match skipBlanks rest with
    | ',' :: rest => readInline fuel entries (skipBlanks rest)
    | '}' :: rest => return (.table .inline entries, rest)
    | _ => none

/-- A key and its value. -/
def readPair : (fuel : Nat) → List Char → Option (List String × Value × List Char)
  | 0, _ => none
  | fuel + 1, text => do
    let (path, rest) ← readKey (fuel + 1) text
    match rest with
    | '=' :: rest =>
      let (value, rest) ← readValue fuel (skipBlanks rest)
      return (path, value, rest)
    | _ => none

end

/-! ### Lines -/

/-- Whether nothing but blanks and a comment is left of a line. -/
def isLineEnd (text : List Char) : Bool :=
  match skipBlanks text with
  | [] => true
  | '#' :: comment => !comment.any isControl
  | _ => false

/-- A document so far, and the table that keys go to. -/
structure Document where
  entries : Entries := []
  current : List String := []

/-- A document with one line more. -/
def addLine (document : Document) (line : List Char) : Option Document :=
  if isLineEnd line then some document else
    match skipBlanks line with
    | '[' :: rest => do
      let (path, rest) ← readKey (line.length + 1) (skipBlanks rest)
      match rest with
      | ']' :: rest =>
        if isLineEnd rest then
          return { entries := ← declare path document.entries, current := path }
        else none
      | _ => none
    | text => do
      -- enough for three steps of reading at every character
      let (path, value, rest) ← readPair (3 * line.length + 3) text
      if isLineEnd rest then
        return { document with
          entries := ← update (insert value path) document.current document.entries }
      else none

/-- The lines of a text; a carriage return before a line feed belongs to the line's end. -/
def lines : List Char → List (List Char)
  | [] => [[]]
  | '\n' :: rest => [] :: lines rest
  | '\r' :: '\n' :: rest => [] :: lines rest
  | c :: rest =>
    match lines rest with
    | [] => [[c]]
    | line :: others => (c :: line) :: others

/-- The entries of a document. -/
def read (text : String) : Option Entries :=
  ((lines text.toList).foldlM addLine {}).map Document.entries

end SqlBridge.Toml
