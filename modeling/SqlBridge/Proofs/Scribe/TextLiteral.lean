/-
String literals come out as the text they stand for, but for NUL and backslashes.

A text can be spelled in MySQL between quotes of either kind, with its backslashes doubled and its
quotes doubled or after a backslash (`Escaped`).  The statement that selects it is written as one
SQLite string.  SQLite has no escapes but the doubled quote, and the writer doubles backslashes all
the same, so the string reads as the text without NUL and with every backslash twice
(`select_text`); a single backslash comes out as two (`select_backslash`).

* `Escaped.closingLength?` and `Escaped.unescape`: the scanner finds the end of such a literal, and
  it stands for the text.
* `ofText_select_escaped`: the tokens of the statement.
-/
import SqlBridge.Grammar.Statement
import SqlBridge.Proofs.Sql.Lexeme
import SqlBridge.Proofs.Token.Tiling
import SqlBridge.Scribe.Statement

namespace SqlBridge

open List

/-- How a text is spelled between quotes: its backslashes doubled, and its quotes doubled or after a
backslash. -/
inductive Escaped (quote : Quote) : List Char → List Char → Prop
  | nil : Escaped quote [] []
  | backslash {text body : List Char} (h : Escaped quote text body) :
      Escaped quote ('\\' :: text) ('\\' :: '\\' :: body)
  | quote {text body : List Char} {mark : Char} (hmark : mark = '\\' ∨ mark = quote.char)
      (h : Escaped quote text body) :
      Escaped quote (quote.char :: text) (mark :: quote.char :: body)
  | other {text body : List Char} {c : Char} (hquote : c ≠ quote.char) (hbackslash : c ≠ '\\')
      (h : Escaped quote text body) : Escaped quote (c :: text) (c :: body)

namespace Escaped

variable {quote : Quote} {text body : List Char}

theorem char_ne_backslash (quote : Quote) : quote.char ≠ '\\' := by cases quote <;> decide

/-- The literal ends at the quote after it and no sooner. -/
theorem closingLength? (h : Escaped quote text body) :
    Token.closingLength? quote.char true (body ++ [quote.char]) = some (body.length + 1) := by
  induction h with
  | nil => simp [Token.closingLength?]
  | backslash _ ih => simp [Token.closingLength?, ih]
  | quote hm _ ih =>
    rcases hm with rfl | rfl
    · simp [Token.closingLength?, ih]
    · simp [Token.closingLength?, ih, char_ne_backslash]
  | @other text body c hq hb _ ih =>
    obtain ⟨d, rest, hr⟩ : ∃ d rest, body ++ [quote.char] = d :: rest := by
      cases body with
      | nil => exact ⟨quote.char, [], rfl⟩
      | cons d rest => exact ⟨d, rest ++ [quote.char], rfl⟩
    rw [cons_append, hr, Token.closingLength?, ← hr, ih]
    simp [hq, hb]

/-- It stands for the text. -/
theorem unescape (h : Escaped quote text body) : Text.unescape quote.char true body = text := by
  have ho := char_ne_backslash quote
  have hc : Text.escaped quote.char = [quote.char] := by cases quote <;> rfl
  induction h with
  | nil => rfl
  | backslash _ ih => simp [Text.unescape, Text.escaped, ho.symm, ih]
  | quote hm _ ih =>
    rcases hm with rfl | rfl
    · simp [Text.unescape, ho.symm, hc, ih]
    · simp [Text.unescape, ih]
  | @other text body c hq hb _ ih =>
    cases body with
    | nil => simpa [Text.unescape] using ih
    | cons d rest => simp [Text.unescape, hq, hb, ih]

end Escaped

/-! ### The statement that selects a text -/

/-- The kind of the literals in quotes of a kind. -/
def Quote.kind : Quote → Token.Kind
  | .double => .doubleQuoted
  | .single => .singleQuoted

/-- A body between two quotes. -/
def Quote.around (quote : Quote) (body : List Char) : List Char :=
  quote.char :: body ++ [quote.char]

namespace Token

variable {quote : Quote} {text body : List Char}

theorem scan_escaped (h : Escaped quote text body) (pos : Nat) :
    scan pos 0 (quote.around body) =
      .ok [⟨quote.kind, String.ofList (quote.around body), pos⟩,
        ⟨.ending, "", pos + octets (quote.around body)⟩] := by
  have hg : gap (quote.around body) = 0 := by cases quote <;> rfl
  have hle : lexeme? (quote.around body) = some (quote.kind, (quote.around body).length) := by
    have hl : (quote.around body).length = body.length + 1 + 1 := by simp [Quote.around]
    have hq (kind : Kind) : quotedLexeme? quote.char true kind (body ++ [quote.char]) =
        some (kind, body.length + 1 + 1) := by
      rw [quotedLexeme?, h.closingLength?]
      rfl
    rw [hl]
    cases quote with
    | double => exact hq .doubleQuoted
    | single => exact hq .singleQuoted
  rw [Quote.around, cons_append] at *
  rw [scan, hg]
  simp only [hle, length_cons, Nat.add_sub_cancel]
  rw [scan_skip, take_length, drop_length, scan, ← length_cons, take_length]
  simp [Nat.add_assoc]

theorem lexeme?_select (rest : List Char) :
    lexeme? ("SELECT".toList ++ ' ' :: rest) = some (.keyword .SELECT, 6) := by
  have hk : Keyword.ofWord? "SELECT" = some .SELECT := by decide
  have hl : wordLength ("SELECT".toList ++ ' ' :: rest) = 6 := rfl
  have hw : word ("SELECT".toList ++ ' ' :: rest) = (.keyword .SELECT, 6) := by
    rw [word, hl]
    have ht : String.ofList (("SELECT".toList ++ ' ' :: rest).take 6) = "SELECT" := rfl
    simp only [ht, hk]
  rw [← hw]
  rfl

theorem ofText_select_escaped (h : Escaped quote text body) :
    ofText ("SELECT " ++ String.ofList (quote.around body)) =
      .ok [⟨.keyword .SELECT, "SELECT", 0⟩,
        ⟨quote.kind, String.ofList (quote.around body), 7⟩,
        ⟨.ending, "", 7 + octets (quote.around body)⟩] := by
  have ht : ("SELECT " ++ String.ofList (quote.around body)).toList =
      "SELECT".toList ++ ' ' :: quote.around body := by
    simp
  have hb : scan 6 0 (' ' :: quote.around body) = scan 7 0 (quote.around body) := rfl
  have hw : scan 0 0 ("SELECT".toList ++ ' ' :: quote.around body) =
      (scan 6 0 (' ' :: quote.around body)).map (⟨.keyword .SELECT, "SELECT", 0⟩ :: ·) := by
    have hl := lexeme?_select (quote.around body)
    have hg : gap ("SELECT".toList ++ ' ' :: quote.around body) = 0 := rfl
    rw [show "SELECT".toList = ['S', 'E', 'L', 'E', 'C', 'T'] from rfl, cons_append] at *
    rw [scan, hg]
    simp only [hl]
    rfl
  rw [ofText, ht, hw, hb, scan_escaped h]
  rfl

theorem text_escaped (h : Escaped quote text body) (pos : Nat) :
    Token.text ⟨quote.kind, String.ofList (quote.around body), pos⟩ = String.ofList text := by
  have hb : Text.quotedBody quote.char (quote.around body) = body := by
    simp [Text.quotedBody, Quote.around]
  have hu : Text.unquoted quote.char true (String.ofList (quote.around body)) =
      String.ofList text := by
    rw [Text.unquoted, String.toList_ofList, hb, h.unescape]
  cases quote with
  | double => exact hu
  | single => exact hu

end Token

namespace Literal

/-- The text that a written string reads as. -/
theorem content_eq (text : List Char) :
    content text =
      (text.filter (· ≠ '\x00')).flatMap fun c => if c = '\\' then ['\\', '\\'] else [c] := by
  fun_induction content text with
  | case1 => rfl
  | case2 rest ih => simp [ih]
  | case3 rest ih => simp [ih]
  | case4 c rest hb hn ih =>
    have ho : c ≠ '\\' := hb
    have hk : c ≠ '\x00' := hn
    simp [ho, hk, ih]

end Literal

/-- The tree of the statement that selects a literal. -/
def selectionOf (token ending : Token) : Tree :=
  .node .query [.node .simpleStatement [.node .selectStatement [.node .queryExpression
    [.node .querySpecification [.leaf ⟨.keyword .SELECT, "SELECT", 0⟩,
      .node .selectItemList [.node .selectItem [.node .literal [.node .textLiteral
        [.node .textStringLiteral [.leaf token]]]]]]]]], .leaf ending]

/-- How the literal is spelled makes no difference to the tree. -/
theorem parse_select_escaped {quote : Quote} {text body : List Char} (h : Escaped quote text body) :
    Grammar.parse ("SELECT " ++ String.ofList (quote.around body)) =
      .ok (selectionOf ⟨quote.kind, String.ofList (quote.around body), 7⟩
        ⟨.ending, "", 7 + Token.octets (quote.around body)⟩) := by
  rw [Grammar.parse, Token.ofText_select_escaped h]
  cases quote <;> with_unfolding_all rfl

theorem render_select_string (value : String) :
    Sql.render [.raw "SELECT", .string value] = "SELECT " ++ Sql.render [.string value] := by
  have hg : Piece.glue (.raw "SELECT") = .word := by decide
  have hs : Piece.spacedAfter (.string value) (some .word) := rfl
  simp only [Sql.render, Piece.renderAfter, hg, hs]
  simp [Piece.spacedAfter, Piece.render]
  rfl

/-- **A selected text comes out as one string.**  However a text is spelled, the statement that
selects it is written as `SELECT` and one SQLite string, which reads as the text without NUL and
with every backslash twice. -/
theorem select_text (database : String) {quote : Quote} {text body : List Char}
    (h : Escaped quote text body) :
    ∃ tree sql literal,
      Grammar.parse ("SELECT " ++ String.ofList (quote.around body)) = .ok tree ∧
      (tree.write database).outcome = (.ok (some sql), {}) ∧
      sql.render = "SELECT " ++ literal ∧
      Lexer.lexemes? literal = some [.quoted .single (String.ofList
        ((text.filter (· ≠ '\x00')).flatMap fun c => if c = '\\' then ['\\', '\\'] else [c]))] := by
  have htext := Token.text_escaped h 7
  have hsingle : Piece.Single (.string (String.ofList text))
      (.quoted .single (String.ofList (Literal.content text))) := by
    simpa using Piece.Single.string (String.ofList text)
  have hlexemes := Sql.lexemes?_render (Sql.spells_single rfl hsingle) (List.isChain_singleton _)
  refine ⟨_, [.raw "SELECT", .string (String.ofList text)],
    Sql.render [.string (String.ofList text)],
    parse_select_escaped h, ?_, render_select_string _, ?_⟩
  · rw [← htext]
    rfl
  · rw [hlexemes, Literal.content_eq]

/-- It comes out so with quotes of both kinds, a NUL and a backslash. -/
theorem select_text_quotes_backslash :
    Escaped .double "a'\x00\\\"".toList "a'\x00\\\\\"\"".toList ∧
    ∃ tree sql literal,
      Grammar.parse ("SELECT " ++ String.ofList (Quote.double.around "a'\x00\\\\\"\"".toList)) =
        .ok tree ∧
      (tree.write "wp").outcome = (.ok (some sql), {}) ∧
      sql.render = "SELECT " ++ literal ∧
      Lexer.lexemes? literal = some [.quoted .single "a'\\\\\""] := by
  have hescaped : Escaped .double "a'\x00\\\"".toList "a'\x00\\\\\"\"".toList :=
    .other (by decide) (by decide) <| .other (by decide) (by decide) <|
      .other (by decide) (by decide) <| .backslash <| .quote (.inr rfl) .nil
  exact ⟨hescaped, select_text "wp" hescaped⟩

/-- **A backslash comes out as two.**  The literal that stands for one backslash is written as a
string that reads as two. -/
theorem select_backslash :
    Escaped .single ['\\'] ['\\', '\\'] ∧
    ∃ tree sql,
      Grammar.parse "SELECT '\\\\'" = .ok tree ∧
      (tree.write "wp").outcome = (.ok (some sql), {}) ∧
      sql.render = "SELECT '\\\\'" ∧
      Lexer.lexemes? sql.render = some [.word "SELECT", .quoted .single "\\\\"] ∧
      "\\\\" ≠ String.ofList ['\\'] := by
  have hescaped : Escaped .single ['\\'] ['\\', '\\'] := .backslash .nil
  have htext : "SELECT '\\\\'" = "SELECT " ++ String.ofList (Quote.single.around ['\\', '\\']) := by
    decide
  refine ⟨hescaped, _, [.raw "SELECT", .string "\\"], htext ▸ parse_select_escaped hescaped, ?_,
    by decide, by decide, by decide⟩
  rfl

end SqlBridge
