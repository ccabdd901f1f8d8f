/-
Statements that consist of a transaction command.

A command is its words with blanks between them, in any case, with blanks and at most one semicolon
around.  Case is by simple folding, so the long s and the Kelvin sign count as letters too.
-/
import SqlBridge.Text.CharacterSets

namespace SqlBridge

inductive TransactionCommand where
  | begin | commit | rollback
deriving DecidableEq, Repr

namespace TransactionCommand

def name : TransactionCommand → String
  | .begin => "BEGIN"
  | .commit => "COMMIT"
  | .rollback => "ROLLBACK"

/-- The capital letter that a character folds with. -/
def capital (c : Char) : Char :=
  if c = '\u017f' then 'S' else if c = '\u212a' then 'K' else c.toUpper

/-- The words that make up each command. -/
def phrases : List (TransactionCommand × List String) :=
  [(.begin, ["START", "TRANSACTION"]), (.begin, ["BEGIN"]), (.begin, ["BEGIN", "WORK"]),
   (.commit, ["COMMIT"]), (.commit, ["COMMIT", "WORK"]),
   (.rollback, ["ROLLBACK"]), (.rollback, ["ROLLBACK", "WORK"])]

def skipBlanks (text : List Char) : List Char := text.dropWhile Text.isBlank

/-- What follows a word, given in capitals. -/
def afterWord? : (word : List Char) → (text : List Char) → Option (List Char)
  | [], text => some text
  | _ :: _, [] => none
  | letter :: word, c :: text => if capital c = letter then afterWord? word text else none

/-- What follows words with blanks between them. -/
def afterWords? : (words : List String) → (text : List Char) → Option (List Char)
  | [], text => some text
  | [word], text => afterWord? word.toList text
  | word :: words, text => do
    let rest ← afterWord? word.toList text
    if (rest.head?.map Text.isBlank).getD false then afterWords? words (skipBlanks rest) else none

/-- Blanks with at most one semicolon among them. -/
def isTail (text : List Char) : Bool :=
  match skipBlanks text with
  | [] => true
  | ';' :: rest => (skipBlanks rest).isEmpty
  | _ => false

/-- Whether a text consists of some words. -/
def isPhrase (words : List String) (text : List Char) : Bool :=
  (afterWords? words (skipBlanks text)).any isTail

/-- The command that a statement consists of. -/
def ofText? (sql : String) : Option TransactionCommand :=
  (phrases.find? fun phrase => isPhrase phrase.2 sql.toList).map Prod.fst

end TransactionCommand

end SqlBridge
