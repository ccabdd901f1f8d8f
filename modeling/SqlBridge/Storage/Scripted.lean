/-
A storage that answers by rules.

A statement gets the answer of the first rule that still applies and whose text occurs in it, and no
rows without such a rule.  A rule can be limited to a number of uses.
-/
import SqlBridge.Storage.Basic
import SqlBridge.Text.Basic

namespace SqlBridge

/-- An answer to the statements that contain a text. -/
structure AnswerRule where
  text : String
  /-- How often the rule still applies; without a number it always does. -/
  uses : Option Nat
  answer : Answer

namespace AnswerRule

def applies (rule : AnswerRule) (statement : Statement) : Bool :=
  rule.uses != some 0 && Text.contains statement.sql rule.text

def used (rule : AnswerRule) : AnswerRule := { rule with uses := rule.uses.map (· - 1) }

/-- The answer of the first rule that applies, and the rules after it is used. -/
def answer? (statement : Statement) : List AnswerRule → Option (Answer × List AnswerRule)
  | [] => none
  | rule :: rest =>
    if rule.applies statement then some (rule.answer, rule.used :: rest)
    else (answer? statement rest).map fun (answer, rest) => (answer, rule :: rest)

/-- The uses that are left of all limited rules. -/
def usesLeft : List AnswerRule → Nat
  | [] => 0
  | rule :: rest => rule.uses.getD 0 + usesLeft rest

end AnswerRule

/-- The storage that follows rules.  Only limited rules may answer that it is busy. -/
def Storage.scripted : Storage (List AnswerRule) where
  execute statement rules :=
    match AnswerRule.answer? statement rules with
    | some (answer, rules) => (answer, rules)
    | none => (.ok [], rules)
  patience _ rules := AnswerRule.usesLeft rules

end SqlBridge
