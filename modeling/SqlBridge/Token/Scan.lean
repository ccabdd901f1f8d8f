/-
Reading a text as tokens.

Between tokens there may be blanks and comments.  `gap` and `lexeme?` say how many characters the
gap or token at the head of a text takes; `scan` walks the text once, counting down through what it
has already read.  The last token is always the ending, at the length of the text in bytes.
-/
import SqlBridge.Error
import SqlBridge.Token
import SqlBridge.Text.Basic
import SqlBridge.Text.CharacterSets

namespace SqlBridge.Token

/-- Blanks between tokens. -/
def isGapChar (c : Char) : Bool := c == ' ' || c == '\t' || c == '\r' || c == '\n'

/-- The characters up to the end of the line.  A carriage return ends a line only before a line
feed; alone it spoils the comment. -/
def lineLength? (text : List Char) : Option Nat :=
  let line := text.takeWhile fun c => c != '\r' && c != '\n'
  match text.drop line.length with
  | '\r' :: '\n' :: _ => some line.length
  | '\r' :: _ => none
  | _ => some line.length

/-- The characters through the first `*/`. -/
def blockLength? : List Char → Option Nat
  | '*' :: '/' :: _ => some 2
  | _ :: rest => (blockLength? rest).map (· + 1)
  | [] => none

/-- The length of the blank or comment at the head of a text, 0 if there is none. -/
def gap : List Char → Nat
  | '#' :: rest => ((lineLength? rest).map (· + 1)).getD 0
  | '-' :: '-' :: rest =>
    match rest with
    | [] => 2
    | c :: _ => if isGapChar c then ((lineLength? rest).map (· + 2)).getD 0 else 0
  | '/' :: '*' :: rest => ((blockLength? rest).map (· + 2)).getD 0
  | c :: _ => if isGapChar c then 1 else 0
  | [] => 0

/-- The characters after an opening quote through the closing one.  A doubled quote does not close,
nor does a character after a backslash where backslashes escape. -/
def closingLength? (quote : Char) (escapes : Bool) : List Char → Option Nat
  | [] => none
  | [c] => if c == quote then some 1 else none
  | c :: d :: rest =>
    if c == '\\' && escapes then (closingLength? quote escapes rest).map (· + 2)
    else if c == quote then
      if d == quote then (closingLength? quote escapes rest).map (· + 2) else some 1
    else (closingLength? quote escapes (d :: rest)).map (· + 1)

def wordLength (text : List Char) : Nat := (text.takeWhile Text.isWordChar).length

def digitsLength (text : List Char) : Nat := (text.takeWhile Char.isDigit).length

/-- A length that is positive and where no word character follows. -/
def endsWord (text : List Char) (length : Nat) : Bool :=
  0 < length && !((text.drop length).head?.any Text.isWordChar)

def hexLength (text : List Char) : Nat :=
  match text with
  | '0' :: x :: rest =>
    let digits := (rest.takeWhile Text.isHexDigit).length
    if (x == 'x' || x == 'X') && 0 < digits then digits + 2 else 0
  | _ => 0

/-- Digits and a point, with any digits after it. -/
def decimalLength (text : List Char) : Nat :=
  let whole := digitsLength text
  match text.drop whole with
  | '.' :: rest => if 0 < whole then whole + 1 + digitsLength rest else 0
  | _ => 0

/-- The length of `e` or `E`, a sign or none, and digits. -/
def exponentLength (text : List Char) : Nat :=
  match text with
  | e :: rest =>
    if e == 'e' || e == 'E' then
      let sign := match rest with
        | s :: _ => if s == '+' || s == '-' then 1 else 0
        | [] => 0
      let digits := digitsLength (rest.drop sign)
      if 0 < digits then 1 + sign + digits else 0
    else 0
  | [] => 0

/-- Digits, maybe a point and digits, and an exponent. -/
def floatLength (text : List Char) : Nat :=
  let mantissa := if 0 < decimalLength text then decimalLength text else digitsLength text
  let exponent := exponentLength (text.drop mantissa)
  if 0 < mantissa && 0 < exponent then mantissa + exponent else 0

/-- The number at the head of a text; a word character must not follow it. -/
def number? (text : List Char) : Option (Kind × Nat) :=
  if endsWord text (hexLength text) then some (.hexadecimal, hexLength text)
  else if endsWord text (floatLength text) then some (.float, floatLength text)
  else if endsWord text (decimalLength text) then some (.decimal, decimalLength text)
  else if endsWord text (digitsLength text) then some (.integer, digitsLength text)
  else none

/-- A word is a keyword if it spells one. -/
def word (text : List Char) : Kind × Nat :=
  let length := wordLength text
  match Keyword.ofWord? (String.ofList (text.take length)) with
  | some keyword => (.keyword keyword, length)
  | none => (.identifier, length)

def quotedLexeme? (quote : Char) (escapes : Bool) (kind : Kind) (rest : List Char) :
    Option (Kind × Nat) :=
  (closingLength? quote escapes rest).map fun length => (kind, length + 1)

/-- The variable whose name follows an `@`. -/
def userVariable? (rest : List Char) : Option (Kind × Nat) :=
  match rest with
  | '`' :: name => (closingLength? '`' false name).map fun length => (.userVariable, length + 2)
  | _ => if 0 < wordLength rest then some (.userVariable, wordLength rest + 1) else none

def symbolLexeme? (text : List Char) : Option (Kind × Nat) :=
  (Symbol.startOf? text).map fun symbol => (.symbol symbol, symbol.spelling.length)

/-- The kind and length of the token at the head of a text. -/
def lexeme? (text : List Char) : Option (Kind × Nat) :=
  match text with
  | [] => none
  | '`' :: rest => quotedLexeme? '`' false .backtickName rest
  | '\'' :: rest => quotedLexeme? '\'' true .singleQuoted rest
  | '"' :: rest => quotedLexeme? '"' true .doubleQuoted rest
  | '?' :: _ => some (.parameter, 1)
  | '@' :: '@' :: _ => symbolLexeme? text
  | '@' :: rest => userVariable? rest
  | c :: _ =>
    if c.isDigit then some ((number? text).getD (word text))
    else if Text.isWordChar c then some (word text)
    else symbolLexeme? text

/-- The tokens of a text from the byte offset `position` on; the first `skip` characters belong to
what was read before. -/
def scan (position skip : Nat) : List Char → Except Error (List Token)
  | [] => .ok [⟨.ending, "", position⟩]
  | c :: rest =>
    match skip with
    | skip + 1 => scan (position + c.utf8Size) skip rest
    | 0 =>
      match gap (c :: rest) with
      | length + 1 => scan (position + c.utf8Size) length rest
      | 0 =>
        match lexeme? (c :: rest) with
        | some (kind, length) => do
          let tokens ← scan (position + c.utf8Size) (length - 1) rest
          return ⟨kind, String.ofList ((c :: rest).take length), position⟩ :: tokens
        | none => .error (.parse position (.unreadable (String.ofList ((c :: rest).take 16))))

/-- The tokens of a statement. -/
def ofText (text : String) : Except Error (List Token) := scan 0 0 text.toList

end SqlBridge.Token
