/-
Texts and their characters: ASCII letters, decimal integers, parts of a text and quoted text.

Letters are compared without regard to case, other characters stand for themselves only.  In quoted
text a quote character is written twice, and in string literals a backslash gives the next character
another meaning.
-/

namespace SqlBridge.Text

/-! ### ASCII letters -/

/-- The text with ASCII lowercase letters raised. -/
def asciiUpper (text : String) : String := String.ofList (text.toList.map Char.toUpper)

/-- Equality up to the case of ASCII letters. -/
def equalsIgnoringCase (a b : String) : Bool := asciiUpper a == asciiUpper b

def isHexDigit (c : Char) : Bool := c.isDigit || ('a' ≤ c && c ≤ 'f') || ('A' ≤ c && c ≤ 'F')

/-! ### Decimal integers -/

/-- The number that decimal digits write. -/
def digitsValue (digits : List Char) : Nat :=
  digits.foldl (fun value c => 10 * value + (c.toNat - '0'.toNat)) 0

/-- The 64-bit integer that a text writes: ASCII digits after an optional sign. -/
def toInt64? (text : String) : Option Int64 :=
  let (negative, digits) := match text.toList with
    | '-' :: rest => (true, rest)
    | '+' :: rest => (false, rest)
    | rest => (false, rest)
  if digits.isEmpty || !digits.all Char.isDigit then none
  else
    let magnitude : Int := digitsValue digits
    let value := if negative then -magnitude else magnitude
    if Int64.minValue.toInt ≤ value ∧ value ≤ Int64.maxValue.toInt then
      some (Int64.ofInt value)
    else none

/-! ### Parts of a text -/

/-- What follows a beginning. -/
def after? (start : List Char) (text : List Char) : Option (List Char) :=
  if start.isPrefixOf text then some (text.drop start.length) else none

/-- Whether characters occur in a row. -/
def occursIn (part : List Char) : List Char → Bool
  | [] => part.isEmpty
  | c :: rest => part.isPrefixOf (c :: rest) || occursIn part rest

/-- A text with the first occurrence of a part exchanged for another. -/
def replaceFirst (old new : List Char) : List Char → List Char
  | [] => if old.isEmpty then new else []
  | c :: rest =>
    match after? old (c :: rest) with
    | some following => new ++ following
    | none => c :: replaceFirst old new rest

/-- Whether a text occurs in another. -/
def contains (whole part : String) : Bool := occursIn part.toList whole.toList

/-! ### Quoted text -/

/-- Every quote character of the text written twice. -/
def doubled (quote : Char) : List Char → List Char
  | [] => []
  | c :: rest => if c == quote then c :: c :: doubled quote rest else c :: doubled quote rest

/-- The text between two quote characters, with the quote written twice inside. -/
def quoted (quote : Char) (text : String) : String :=
  String.ofList (quote :: doubled quote text.toList ++ [quote])

/-- What a backslash and the character after it stand for.  `\%` and `\_` stay as they are, since
they mean something to `LIKE`. -/
def escaped : Char → List Char
  | '0' => ['\x00']
  | 'b' => ['\x08']
  | 'n' => ['\n']
  | 'r' => ['\r']
  | 't' => ['\t']
  | 'Z' => ['\x1a']
  | '%' => ['\\', '%']
  | '_' => ['\\', '_']
  | c => [c]

/-- The text that a quoted body stands for.  A backslash at the very end stands for itself. -/
def unescape (quote : Char) (escapes : Bool) : List Char → List Char
  | [] => []
  | [c] => [c]
  | c :: d :: rest =>
    if c == quote && d == quote then quote :: unescape quote escapes rest
    else if c == '\\' && escapes then escaped d ++ unescape quote escapes rest
    else c :: unescape quote escapes (d :: rest)

/-- The body of a text that starts and ends with its own quote character, else the whole text. -/
def quotedBody (quote : Char) (text : List Char) : List Char :=
  match text with
  | c :: rest =>
    if c == quote && rest.getLast? == some quote then rest.dropLast else text
  | [] => []

/-- The text a quoted token stands for. -/
def unquoted (quote : Char) (escapes : Bool) (text : String) : String :=
  String.ofList (unescape quote escapes (quotedBody quote text.toList))

end SqlBridge.Text
