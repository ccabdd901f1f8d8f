/-
The tokens of SQLite, and how a written stretch of SQL reads as tokens.

A lexer takes a text character by character.  What is outside quotes goes on as long as it can, so
that `<=` is one token; quotes work as in `Scanner`.  A text that holds anything else than words,
numbers, symbols and quoted texts, a comment for instance, has no tokens.

* `Lexer.lexemes?`: the tokens of a text.
* `Piece.Single`: the pieces that are one token; `Piece.flat` takes groups apart into such pieces.
* `Sql.lexemes?_render`: a stretch of SQL reads as the tokens of its pieces.  The spaces that are
  written keep them apart, except a number from a dot (`Lexeme.Apart`).
-/
import SqlBridge.Proofs.Sql.Quoting

namespace SqlBridge

open List

inductive Lexeme where
  /-- A keyword, or another word outside quotes. -/
  | word (text : String)
  | number (spelling : String)
  /-- Punctuation or an operator. -/
  | symbol (text : String)
  /-- A name in double quotes or a string in single ones, as it reads. -/
  | quoted (quote : Quote) (text : String)
deriving DecidableEq, Repr

namespace Lexeme

def isWordChar (c : Char) : Bool := c.isAlphanum || c == '_' || c == '$' || 128 ≤ c.toNat

def isBlank (c : Char) : Bool := [' ', '\t', '\n', '\x0c', '\r'].contains c

def isQuote (c : Char) : Bool := c == '"' || c == '\''

def symbols : List (List Char) :=
  ["(", ")", ",", ".", ";", "+", "-", "*", "/", "%", "=", "<", ">", "&", "|", "~", "?", "<=", "<>",
    "<<", ">=", ">>", "!=", "==", "||"].map String.toList

/-- Two characters that are taken together.  The last three open a comment or are no operators of
the expressions here. -/
def pairs : List (List Char) :=
  ["<=", "<>", "<<", ">=", ">>", "!=", "==", "||", "--", "/*", "->"].map String.toList

/-- Whether a text begins like a number. -/
def isNumeric : List Char → Bool
  | [] => false
  | ['.'] => false
  | first :: _ => first.isDigit || first == '.'

/-- Whether a character goes on with a text outside quotes. -/
def goesOn (text : List Char) (c : Char) : Bool :=
  if isNumeric text then
    isWordChar c || c == '.' ||
      ((c == '+' || c == '-') && (text.getLast? == some 'e' || text.getLast? == some 'E'))
  else if text == ['.'] then c.isDigit
  else if text.head?.any isWordChar then isWordChar c
  else pairs.contains (text ++ [c])

/-- The token that a text outside quotes is. -/
def ofBare? (text : List Char) : Option Lexeme :=
  if Sql.isNumber text then some (.number (String.ofList text))
  else if isNumeric text then none
  else if text.head?.any isWordChar && text.all isWordChar then some (.word (String.ofList text))
  else if symbols.contains text then some (.symbol (String.ofList text))
  else none

/-- Two tokens that are read apart without a space, where the writer leaves none. -/
def Apart : Lexeme → Lexeme → Prop
  | .number _, .symbol "." => False
  | .symbol ".", .number _ => False
  | _, _ => True

end Lexeme

/-- Where a lexer is. -/
inductive Lexer.Mode where
  | between
  /-- In a word, a number or a symbol. -/
  | inside (text : List Char)
  | quoting (quote : Quote) (text : List Char)
  /-- After a quote that closes the text unless it comes twice. -/
  | closing (quote : Quote) (text : List Char)
  /-- At something that is no token. -/
  | lost
deriving DecidableEq, Repr

structure Lexer where
  mode : Lexer.Mode := .between
  found : List Lexeme := []
deriving DecidableEq, Repr

namespace Lexer

open Lexeme

/-- A character after a token that has ended. -/
def enter (lexer : Lexer) (c : Char) : Lexer :=
  if lexer.mode = .lost then lexer
  else if isBlank c then { lexer with mode := .between }
  else if c = '"' then { lexer with mode := .quoting .double [] }
  else if c = '\'' then { lexer with mode := .quoting .single [] }
  else { lexer with mode := .inside [c] }

/-- What was being read ends. -/
def settle (lexer : Lexer) : Lexer :=
  match lexer.mode with
  | .inside text =>
    match ofBare? text with
    | some lexeme => { mode := .between, found := lexer.found ++ [lexeme] }
    | none => { lexer with mode := .lost }
  | .closing quote text =>
    { mode := .between, found := lexer.found ++ [Lexeme.quoted quote (String.ofList text)] }
  | _ => lexer

def step (lexer : Lexer) (c : Char) : Lexer :=
  match lexer.mode with
  | .between => lexer.enter c
  | .inside text =>
    if goesOn text c then { lexer with mode := .inside (text ++ [c]) }
    else if isQuote c && text.getLast?.any isWordChar then { lexer with mode := .lost }
    else lexer.settle.enter c
  | .quoting quote text =>
    if c = quote.char then { lexer with mode := .closing quote text }
    else { lexer with mode := .quoting quote (text ++ [c]) }
  | .closing quote text =>
    if c = quote.char then { lexer with mode := .quoting quote (text ++ [c]) }
    else lexer.settle.enter c
  | .lost => lexer

/-- The tokens of a text, if it is made of tokens. -/
def lexemes? (text : String) : Option (List Lexeme) :=
  let last := (text.toList.foldl step {}).settle
  if last.mode = .between then some last.found else none

end Lexer

/-! ### Text that goes on -/

namespace Lexeme

variable {before text : List Char} {c : Char}

/-- Each character of a text goes on with what stands before it. -/
def Grows (before : List Char) : List Char → Prop
  | [] => True
  | c :: rest => goesOn before c ∧ Grows (before ++ [c]) rest

instance (before text : List Char) : Decidable (Grows before text) :=
  match text with
  | [] => .isTrue trivial
  | c :: rest =>
    have := instDecidableGrows (before ++ [c]) rest
    inferInstanceAs (Decidable (goesOn before c ∧ Grows (before ++ [c]) rest))

theorem grows_append {rest : List Char} (h : Grows before text)
    (hr : Grows (before ++ text) rest) : Grows before (text ++ rest) := by
  induction text generalizing before with
  | nil => simpa using hr
  | cons c tail ih => exact ⟨h.1, ih h.2 (by simpa using hr)⟩

theorem isNumeric_append (h : isNumeric text) (rest : List Char) :
    isNumeric (text ++ rest) := by
  unfold isNumeric at h
  split at h
  · cases h
  · cases h
  · rename_i first tail ho
    cases tail with
    | nil =>
      have hf : first ≠ '.' := fun hd => ho hd rfl
      have hdi : first.isDigit := by simpa [hf] using h
      rw [cons_append, nil_append]
      unfold isNumeric
      split
      · contradiction
      · simp_all
      · simp_all
    | cons second tail => simpa [isNumeric] using h

theorem isWordChar_of_isDigit (h : c.isDigit) : isWordChar c := by
  simp [isWordChar, Char.isAlphanum, h]

theorem isWordChar_of_isHexDigit (h : Text.isHexDigit c) : isWordChar c := by
  simp only [Text.isHexDigit, Bool.or_eq_true, Bool.and_eq_true, decide_eq_true_eq] at h
  have hw (h : c.isUpper = true ∨ c.isLower = true) : isWordChar c := by
    have ha : c.isAlpha = true := Bool.or_eq_true_iff.2 h
    simp [isWordChar, Char.isAlphanum, ha]
  rcases h with (h | ⟨hl, hh⟩) | ⟨hl, hh⟩
  · exact isWordChar_of_isDigit h
  · have hz : 'f' ≤ 'z' := by decide
    have hlo : (decide ('a' ≤ c) && decide (c ≤ 'z')) = true := by
      simp [hl, Char.le_trans hh hz]
    exact hw (.inr hlo)
  · have hz : 'F' ≤ 'Z' := by decide
    exact hw (.inl (decide_eq_true ⟨hl, Char.le_trans hh hz⟩))

/-- After the beginning of a number, characters of words and points go on. -/
theorem grows_of_isNumeric (hb : isNumeric before)
    (h : ∀ c ∈ text, isWordChar c ∨ c = '.') : Grows before text := by
  induction text generalizing before with
  | nil => trivial
  | cons c rest ih =>
    refine ⟨?_, ih (isNumeric_append hb _) fun d hd => h d (by simp [hd])⟩
    rw [goesOn, if_pos hb]
    rcases h c (by simp) with hc | rfl
    · simp [hc]
    · simp

theorem grows_word (hn : isNumeric before = false)
    (hb : before.head?.any isWordChar) (h : ∀ c ∈ text, isWordChar c) : Grows before text := by
  induction text generalizing before with
  | nil => trivial
  | cons c rest ih =>
    obtain ⟨first, tail, rfl⟩ : ∃ first tail, before = first :: tail := by
      cases before with
      | nil => simp at hb
      | cons first tail => exact ⟨first, tail, rfl⟩
    have hf : isWordChar first := by simpa using hb
    have hdo : first ≠ '.' := by
      rintro rfl
      exact absurd hf (by decide)
    have hdi : first.isDigit = false := by
      unfold isNumeric at hn
      split at hn
      · contradiction
      · simp_all
      · simp_all
    refine ⟨?_, ih ?_ (by simpa using hf) fun d hd => h d (by simp [hd])⟩
    · rw [goesOn, if_neg (by simp [hn]), if_neg (by simp [hdo]), if_pos hb]
      exact h c (by simp)
    · rw [cons_append]
      unfold isNumeric
      split
      · rfl
      · rfl
      · simp_all

/-- A text that is one token: it goes on to its end, and neither begins as a quoted text nor is
skipped. -/
def Whole (lexeme : Lexeme) : List Char → Prop
  | [] => False
  | first :: rest =>
    (isBlank first = false ∧ isQuote first = false) ∧ Grows [first] rest ∧
      ofBare? (first :: rest) = some lexeme

instance (lex : Lexeme) (text : List Char) : Decidable (Whole lex text) :=
  match text with
  | [] => .isFalse id
  | _ :: _ => inferInstanceAs (Decidable (_ ∧ _))

/-! ### Numbers -/

theorem plain_of_isDigit (h : c.isDigit) : isBlank c = false ∧ isQuote c = false := by
  have ho : ∀ d ∈ [' ', '\t', '\n', '\x0c', '\r', '"', '\''], c ≠ d := by
    rintro d hd rfl
    revert h
    simp only [mem_cons, not_mem_nil, or_false] at hd
    rcases hd with rfl | rfl | rfl | rfl | rfl | rfl | rfl <;> decide
  simp only [forall_mem_cons] at ho
  simp [isBlank, isQuote, ho]

/-- The digits and points of a mantissa go on, and begin a number. -/
theorem grows_mantissa (h : Sql.isMantissa text) :
    ∃ first rest, text = first :: rest ∧ (isBlank first = false ∧ isQuote first = false) ∧
      Grows [first] rest ∧ isNumeric text := by
  obtain ⟨rest, ht, hdr, hh⟩ := Piece.exists_rest_of_takeWhile (· != '.') text
  simp only [Sql.isMantissa, hdr, Bool.and_eq_true, all_eq_true] at h
  obtain ⟨⟨hw, hf⟩, hs⟩ := h
  have hpo : ∀ point ∈ rest.head?, point = '.' := fun point hp => by simpa using hh point hp
  generalize hta : text.takeWhile (· != '.') = whole at hw hs ht
  cases whole with
  | cons first digits =>
    -- after a digit everything goes on
    have hdi : first.isDigit := hw first (by simp)
    have hn : isNumeric [first] := by
      have hdo : first ≠ '.' := by
        rintro rfl
        exact absurd hdi (by decide)
      unfold isNumeric
      split <;> simp_all
    rw [cons_append] at ht
    refine ⟨first, digits ++ rest, ht, plain_of_isDigit hdi, grows_of_isNumeric hn ?_, ?_⟩
    · intro c hc
      rcases mem_append.1 hc with hc | hc
      · exact .inl (isWordChar_of_isDigit (hw c (by simp [hc])))
      · cases rest with
        | nil => cases hc
        | cons point fraction =>
          rcases mem_cons.1 hc with rfl | hc
          · exact .inr (hpo c rfl)
          · exact .inl (isWordChar_of_isDigit (hf c (by simpa using hc)))
    · rw [ht]
      exact isNumeric_append hn _
  | nil =>
    -- a point has a digit after it
    obtain ⟨point, digit, digits, rfl⟩ : ∃ point digit digits, rest = point :: digit :: digits := by
      cases rest with
      | nil => simp at hs
      | cons point digits =>
        cases digits with
        | nil => simp at hs
        | cons digit digits => exact ⟨point, digit, digits, rfl⟩
    obtain rfl : point = '.' := hpo point rfl
    have hd : ∀ c ∈ digit :: digits, c.isDigit := fun c hc => hf c (by simpa using hc)
    refine ⟨'.', digit :: digits, by simpa using ht, by decide, ⟨?_, ?_⟩, ?_⟩
    · rw [goesOn, if_neg (by decide), if_pos (by decide)]
      exact hd digit (by simp)
    · refine grows_of_isNumeric (by simp [isNumeric]) fun c hc => ?_
      exact .inl (isWordChar_of_isDigit (hd c (by simp [hc])))
    · rw [ht]
      simp [isNumeric]

/-- An exponent goes on with the mantissa. -/
theorem grows_exponent (hb : isNumeric before) {e : Char}
    (he : e = 'e' ∨ e = 'E') (h : Sql.isExponent text) :
    Grows before (e :: text) := by
  have hw : isWordChar e := by rcases he with rfl | rfl <;> decide
  refine ⟨by rw [goesOn, if_pos hb]; simp [hw], ?_⟩
  have hn := isNumeric_append hb [e]
  simp only [Sql.isExponent, Bool.and_eq_true, all_eq_true] at h
  obtain ⟨-, hd⟩ := h
  have hs {sign : Char} (hs : sign = '+' ∨ sign = '-') {rest : List Char}
      (hr : ∀ c ∈ rest, c.isDigit) : Grows (before ++ [e]) (sign :: rest) := by
    refine ⟨?_, grows_of_isNumeric (isNumeric_append hn _) fun c hc =>
      .inl (isWordChar_of_isDigit (hr c hc))⟩
    rw [goesOn, if_pos hn, getLast?_concat]
    rcases he with rfl | rfl <;> rcases hs with rfl | rfl <;> decide
  split at hd
  · exact hs (.inl rfl) hd
  · exact hs (.inr rfl) hd
  · exact grows_of_isNumeric hn fun c hc => .inl (isWordChar_of_isDigit (hd c hc))

theorem whole_of_isNumber (h : Sql.isNumber text) :
    Whole (.number (String.ofList text)) text := by
  have hb : ofBare? text = some (.number (String.ofList text)) := by rw [ofBare?, if_pos h]
  have hh {x : Char} (hx : x = 'x' ∨ x = 'X') {digits : List Char}
      (hd : !digits.isEmpty && digits.all Text.isHexDigit) :
      Grows ['0'] (x :: digits) := by
    simp only [Bool.and_eq_true, all_eq_true] at hd
    refine grows_of_isNumeric (by decide) fun c hc => ?_
    rcases mem_cons.1 hc with rfl | hc
    · rcases hx with rfl | rfl <;> exact .inl (by decide)
    · exact .inl (isWordChar_of_isHexDigit (hd.2 c hc))
  unfold Sql.isNumber at h
  split at h
  · exact ⟨by decide, hh (.inl rfl) h, hb⟩
  · exact ⟨by decide, hh (.inr rfl) h, hb⟩
  · obtain ⟨rest, ht, hdr, hhe⟩ :=
      Piece.exists_rest_of_takeWhile (fun c => c != 'e' && c != 'E') text
    dsimp only at h
    rw [hdr] at h
    cases rest with
    | nil =>
      obtain ⟨first, tail, hf, hp, hg, -⟩ := grows_mantissa h
      rw [append_nil, hf] at ht
      subst ht
      exact ⟨hp, hg, hb⟩
    | cons e exponent =>
      obtain ⟨hm, hex⟩ := Bool.and_eq_true_iff.1 h
      have he : e = 'e' ∨ e = 'E' := by simpa [imp_iff_not_or] using hhe e rfl
      obtain ⟨first, tail, hf, hp, hg, hn⟩ := grows_mantissa hm
      rw [hf] at ht hn
      subst ht
      exact ⟨hp, grows_append hg (grows_exponent hn he hex), hb⟩

end Lexeme

/-! ### One token -/

namespace Lexer

open Lexeme

variable {before text : List Char} {c : Char}

theorem foldl_grows (h : Grows before text) (found : List Lexeme) :
    text.foldl step { mode := .inside before, found } =
      { mode := .inside (before ++ text), found } := by
  induction text generalizing before with
  | nil => simp
  | cons c rest ih =>
    rw [foldl_cons]
    simp only [step, if_pos h.1]
    rw [ih h.2, append_assoc]
    rfl

theorem foldl_whole {lex : Lexeme} {text : List Char} (h : Whole lex text) (found : List Lexeme) :
    text.foldl step { mode := .between, found } = { mode := .inside text, found } := by
  cases text with
  | nil => exact h.elim
  | cons first rest =>
    obtain ⟨⟨hb, hq⟩, hg, -⟩ := h
    simp only [isQuote, Bool.or_eq_false_iff, beq_eq_false_iff_ne] at hq
    rw [foldl_cons]
    simp only [step, enter, hb, hq, if_neg, reduceCtorEq, not_false_eq_true,
      Bool.false_eq_true]
    exact foldl_grows hg found

theorem settle_whole {lex : Lexeme} {text : List Char} (h : Whole lex text) (found : List Lexeme) :
    settle { mode := .inside text, found } = { mode := .between, found := found ++ [lex] } := by
  cases text with
  | nil => exact h.elim
  | cons first rest => simp [settle, h.2.2]

theorem foldl_quoting (quote : Quote) (found : List Lexeme) (text : List Char) :
    (Text.doubled quote.char text ++ [quote.char]).foldl step
        { mode := .quoting quote [], found } = { mode := .closing quote text, found } :=
  Text.foldl_doubled (fun before => mk (.quoting quote before) found)
    (fun before => mk (.closing quote before) found)
    (by simp [step]) (by simp [step]) (by simp +contextual [step]) text

theorem foldl_quoted (quote : Quote) (found : List Lexeme) (text : List Char) :
    (quote.char :: Text.doubled quote.char text ++ [quote.char]).foldl step
        { mode := .between, found } = { mode := .closing quote text, found } := by
  have ho : step { mode := .between, found } quote.char =
      { mode := .quoting quote [], found } := by cases quote <;> rfl
  rw [cons_append, foldl_cons, ho, foldl_quoting]

/-- Whether a character ends what is being read. -/
def Mode.Breaks (c : Char) : Mode → Prop
  | .between => True
  | .inside text =>
    goesOn text c = false ∧ (isQuote c && text.getLast?.any isWordChar) = false
  | .closing quote _ => c ≠ quote.char
  | .quoting _ _ | .lost => False

theorem step_of_breaks {lexer : Lexer} (h : lexer.mode.Breaks c) :
    lexer.step c = lexer.settle.step c := by
  have he {lexer : Lexer} (hm : lexer.mode = .between ∨ lexer.mode = .lost) :
      lexer.enter c = lexer.step c := by
    rcases hm with hm | hm <;> simp [step, enter, hm]
  obtain ⟨mode, found⟩ := lexer
  cases mode with
  | between => rfl
  | inside text =>
    obtain ⟨hg, hq⟩ := h
    have hs : (settle ⟨.inside text, found⟩).mode = .between ∨
        (settle ⟨.inside text, found⟩).mode = .lost := by
      simp only [settle]
      split <;> simp
    rw [← he hs]
    simp [step, hg, hq]
  | quoting quote text => exact h.elim
  | closing quote text =>
    have ho : c ≠ quote.char := h
    have hs : (settle ⟨.closing quote text, found⟩).mode = .between := rfl
    rw [← he (.inl hs)]
    simp [step, ho]
  | lost => exact h.elim

end Lexer

/-! ### Pieces -/

namespace Piece

mutual

/-- A piece with its groups taken apart. -/
def flat : Piece → List Piece
  | .group inside => .raw "(" :: flatAll inside ++ [raw ")"]
  | piece => [piece]

def flatAll : List Piece → List Piece
  | [] => []
  | piece :: rest => piece.flat ++ flatAll rest

end

theorem flatAll_append (pieces more : List Piece) :
    flatAll (pieces ++ more) = flatAll pieces ++ flatAll more := by
  induction pieces with
  | nil => rfl
  | cons piece rest ih => simp [flatAll, ih]

theorem renderAfter_append_close (prev : Option Glue) (pieces rest : List Piece) :
    renderAfter prev (pieces ++ .raw ")" :: rest) =
      renderAfter prev pieces ++ ")" ++ renderAfter (some .close) rest := by
  induction pieces generalizing prev with
  | nil =>
    have hg : glue (.raw ")") = .close := rfl
    have hs : spacedAfter (.raw ")") prev = false := by
      cases prev with
      | none => rfl
      | some prev => cases prev <;> rfl
    simp [renderAfter, render, hg, hs]
  | cons piece tail ih => simp [renderAfter, ih, String.append_assoc]

/-- What follows a group or a closing parenthesis is written alike. -/
theorem renderAfter_close (pieces : List Piece) :
    renderAfter (some .close) pieces = renderAfter (some .group) pieces := by
  cases pieces with
  | nil => rfl
  | cons piece rest =>
    have hs : piece.spacedAfter (some .close) = piece.spacedAfter (some .group) := by
      simp only [spacedAfter]
      cases piece.glue <;> rfl
    rw [renderAfter, renderAfter, hs]

/-- So is what follows an opening parenthesis or begins a text. -/
theorem renderAfter_open (pieces : List Piece) :
    renderAfter (some .open) pieces = renderAfter none pieces := by
  cases pieces with
  | nil => rfl
  | cons piece rest => rw [renderAfter, renderAfter]; rfl

mutual

theorem renderAfter_flat (piece : Piece) (prev : Option Glue) (rest : List Piece) :
    renderAfter prev (piece.flat ++ rest) = renderAfter prev (piece :: rest) := by
  match piece with
  | .raw _ | .name _ | .literal _ | .operator _ => rfl
  | .group inside =>
    have hs : spacedAfter (.raw "(") prev = spacedAfter (.group inside) prev := by
      cases prev with
      | none => rfl
      | some prev => cases prev <;> rfl
    have hg : glue (.raw "(") = .open := rfl
    rw [flat, cons_append, cons_append, append_assoc, renderAfter, renderAfter,
      hs, hg, renderAfter_flatAll inside, singleton_append, renderAfter_append_close,
      renderAfter_close, renderAfter_open]
    simp [render, glue, String.append_assoc]

/-- Groups are written as their parts are. -/
theorem renderAfter_flatAll (pieces : List Piece) (prev : Option Glue) (rest : List Piece) :
    renderAfter prev (flatAll pieces ++ rest) = renderAfter prev (pieces ++ rest) := by
  match pieces with
  | [] => rfl
  | piece :: tail =>
    rw [flatAll, append_assoc, renderAfter_flat piece, cons_append, renderAfter,
      renderAfter, renderAfter_flatAll tail]

end

/-- A piece that is one token. -/
inductive Single : Piece → Lexeme → Prop
  | name (text : String) : Single (.name text) (.quoted .double text)
  | string (value : String) :
      Single (.string value) (.quoted .single (String.ofList (Literal.content value.toList)))
  | bare {piece : Piece} {lexeme : Lexeme} (h : lexeme.Whole piece.render.toList) :
      Single piece lexeme

/-- A character that ends a token where a piece ends: a space, punctuation, and after an opening
parenthesis or a dot what else may stand there. -/
def Ends (piece : Piece) (lexeme : Lexeme) (c : Char) : Prop :=
  c ∈ [' ', '(', ')', ','] ∨ (c = '.' ∧ ∀ spelling, lexeme ≠ .number spelling) ∨
    piece.glue = .open ∨ (piece.glue = .dot ∧ c.isDigit = false)

open Lexeme Lexer

theorem goesOn_eq_false {lex : Lexeme} {text : List Char} (h : lex.Whole text) {c : Char}
    (hc : c ∈ [' ', '(', ')', ','] ∨ (c = '.' ∧ ∀ spelling, lex ≠ .number spelling)) :
    goesOn text c = false := by
  have hb : ofBare? text = some lex := by
    cases text with
    | nil => exact h.elim
    | cons first rest => exact h.2.2
  have hm : c ∈ [' ', '(', ')', ',', '.'] := by
    rcases hc with hc | ⟨rfl, -⟩
    · revert hc; simp; tauto
    · simp
  have hch : isWordChar c = false ∧ c.isDigit = false ∧ c ≠ '+' ∧ c ≠ '-' ∧
      c ∉ pairs.filterMap List.getLast? := by
    simp only [mem_cons, not_mem_nil, or_false] at hm
    rcases hm with rfl | rfl | rfl | rfl | rfl <;> decide
  obtain ⟨hw, hd, hpl, hmi, hp⟩ := hch
  unfold goesOn
  split
  · rename_i hnu
    have hdo : c ≠ '.' := by
      rcases hc with hc | ⟨-, hn⟩
      · rintro rfl
        exact absurd hc (by decide)
      · -- what begins like a number is a number
        rw [ofBare?] at hb
        split at hb
        · exact absurd (Option.some.inj hb).symm (hn _)
        · cases hb
    simp [hw, hdo, hpl, hmi]
  · split
    · exact hd
    · split
      · exact hw
      · simp only [contains_eq_mem, decide_eq_false_iff_not]
        intro hme
        exact hp (mem_filterMap.2 ⟨_, hme, getLast?_concat⟩)

/-- What a lexer does with a piece that is one token: it reads the token and waits for a character
that ends it. -/
theorem Single.read {piece : Piece} {lex : Lexeme} (h : Single piece lex) :
    ∃ mode : Mode,
      (∀ found, piece.render.toList.foldl step { mode := .between, found } = { mode, found }) ∧
      (∀ found, settle { mode, found } = { mode := .between, found := found ++ [lex] }) ∧
      ∀ c, piece.Ends lex c → mode.Breaks c := by
  cases h with
  | name text =>
    refine ⟨.closing .double text.toList, fun found => ?_, fun found => ?_, fun c hc => ?_⟩
    · rw [render, Text.quoted, String.toList_ofList]
      exact foldl_quoted .double found text.toList
    · simp [settle]
    · rintro rfl
      revert hc
      simp [Ends, glue, Quote.char]
  | string value =>
    refine ⟨.closing .single (Literal.content value.toList), fun found => ?_, fun found => rfl,
      fun c hc => ?_⟩
    · rw [Piece.string, render, Literal.render, String.toList_ofList, Literal.textBody_eq_doubled]
      exact foldl_quoted .single found (Literal.content value.toList)
    · rintro rfl
      revert hc
      simp [Ends, glue, Piece.string, Quote.char]
  | bare hw =>
    refine ⟨.inside piece.render.toList, foldl_whole hw, settle_whole hw, fun c hc => ?_⟩
    have hs {spelling : String} (hg : piece.glue.spelling? = some spelling) :
        piece.render.toList = spelling.toList := by rw [render_of_spelling hg]
    rcases hc with hc | hc | ho | ⟨hdo, hd⟩
    · refine ⟨goesOn_eq_false hw (.inl hc), ?_⟩
      have hq : isQuote c = false := by
        simp only [mem_cons, not_mem_nil, or_false] at hc
        rcases hc with rfl | rfl | rfl | rfl <;> decide
      rw [hq, Bool.false_and]
    · refine ⟨goesOn_eq_false hw (.inr hc), ?_⟩
      rw [hc.1]
      rfl
    · rw [hs (by rw [ho]; rfl)]
      refine ⟨?_, by simp [isWordChar]⟩
      simp [goesOn, isNumeric, isWordChar, pairs]
    · rw [hs (by rw [hdo]; rfl)]
      refine ⟨?_, by simp [isWordChar]⟩
      rw [goesOn, if_neg (by decide), if_pos (by decide)]
      exact hd

/-- A dot is read as a dot. -/
theorem Single.eq_dot {piece : Piece} {lex : Lexeme} (h : Single piece lex)
    (hr : piece.render = ".") : lex = .symbol "." := by
  cases h with
  | name text =>
    have hh := congrArg (fun text => text.toList.head?) hr
    simp [render, Text.quoted] at hh
  | string value =>
    have hh := congrArg (fun text => text.toList.head?) hr
    simp [Piece.string, render, Literal.render] at hh
  | bare hw =>
    rw [hr] at hw
    exact (Option.some.inj hw.2.2).symm

/-- Its text begins with a digit only if it is a number. -/
theorem Single.exists_head {piece : Piece} {lex : Lexeme} (h : Single piece lex) :
    ∃ c tail, piece.render.toList = c :: tail ∧
      (c.isDigit → ∃ spelling, lex = .number spelling) := by
  cases h with
  | name text =>
    exact ⟨'"', _, by rw [render, Text.quoted, String.toList_ofList, cons_append],
      fun hd => absurd hd (by decide)⟩
  | string value =>
    exact ⟨'\'', _, by
      rw [Piece.string, render, Literal.render, String.toList_ofList, cons_append],
      fun hd => absurd hd (by decide)⟩
  | bare hw =>
    cases hr : piece.render.toList with
    | nil =>
      rw [hr] at hw
      exact hw.elim
    | cons c tail =>
      refine ⟨c, tail, rfl, fun hd => ?_⟩
      rw [hr] at hw
      have hb := hw.2.2
      have hn : isNumeric (c :: tail) := by
        have hdo : c ≠ '.' := by
          rintro rfl
          exact absurd hd (by decide)
        unfold isNumeric
        split <;> simp_all
      rw [ofBare?] at hb
      split at hb
      · exact ⟨_, (Option.some.inj hb).symm⟩
      · cases hb

/-- The piece that comes next without a space ends the token. -/
theorem ends_of_unspaced {piece next : Piece} {lex nextLexeme : Lexeme}
    (h : Single piece lex) (hn : Single next nextLexeme) (ha : lex.Apart nextLexeme)
    (hsp : next.spacedAfter (some piece.glue) = false) {c : Char} {tail : List Char}
    (hc : next.render.toList = c :: tail) : piece.Ends lex c := by
  by_cases ho : piece.glue = .open
  · exact .inr (.inr (.inl ho))
  by_cases hdo : piece.glue = .dot
  · refine .inr (.inr (.inr ⟨hdo, ?_⟩))
    obtain rfl := h.eq_dot (render_of_spelling (by rw [hdo]; rfl))
    obtain ⟨c', tail', hc', hdi⟩ := hn.exists_head
    obtain ⟨rfl, rfl⟩ := List.cons.inj (hc.symm.trans hc')
    by_contra hnu
    obtain ⟨spelling, rfl⟩ := hdi (by simpa using hnu)
    exact ha
  obtain ⟨d, hd, hs⟩ | ⟨inside, rfl⟩ := punctuation_of_unspaced ⟨ho, hdo⟩ hsp
  · have hr := render_of_spelling hs
    rw [hr, String.toList_ofList] at hc
    obtain ⟨rfl, -⟩ := List.cons.inj hc
    by_cases hp : d = '.'
    · refine .inr (.inl ⟨hp, ?_⟩)
      rintro spelling rfl
      obtain rfl := hn.eq_dot (by rw [hr, hp])
      exact ha
    · refine .inl ?_
      simp only [mem_cons, not_mem_nil, or_false] at hd ⊢
      tauto
  · refine .inl ?_
    rw [render, String.toList_append, String.toList_append] at hc
    obtain ⟨rfl, -⟩ := List.cons.inj hc
    decide

/-- A lexer that waits at the end of one token reads the next piece. -/
theorem foldl_next {piece next : Piece} {lex nextLexeme : Lexeme} {mode nextMode : Mode}
    {found : List Lexeme}
    (hse : settle { mode, found } = { mode := .between, found := found ++ [lex] })
    (hb : ∀ c, piece.Ends lex c → mode.Breaks c)
    (hr : next.render.toList.foldl step { mode := .between, found := found ++ [lex] } =
      { mode := nextMode, found := found ++ [lex] })
    (h : Single piece lex) (hn : Single next nextLexeme) (ha : lex.Apart nextLexeme) :
    (space (some piece.glue) next ++ next.render.toList).foldl step { mode, found } =
      { mode := nextMode, found := found ++ [lex] } := by
  cases hs : next.spacedAfter (some piece.glue) with
  | true =>
    have hsp : space (some piece.glue) next = [' '] := by simp [space, hs]
    have hbl : step { mode, found } ' ' = { mode := .between, found := found ++ [lex] } := by
      rw [step_of_breaks (hb ' ' (.inl (by decide))), hse]
      rfl
    rw [hsp, singleton_append, foldl_cons, hbl, hr]
  | false =>
    have hsp : space (some piece.glue) next = [] := by simp [space, hs]
    obtain ⟨c, tail, hc, -⟩ := hn.exists_head
    have he := hb c (ends_of_unspaced h hn ha hs hc)
    rw [hsp, nil_append, hc, foldl_cons, step_of_breaks he, hse, ← foldl_cons,
      ← hc, hr]

theorem settle_foldl_row {piece : Piece} {lex : Lexeme} {mode : Mode} {found : List Lexeme}
    (hs : settle { mode, found } = { mode := .between, found := found ++ [lex] })
    (hb : ∀ c, piece.Ends lex c → mode.Breaks c)
    (h : Single piece lex) {pieces : List Piece} {lexs : List Lexeme}
    (hp : List.Forall₂ Single pieces lexs) (ha : (lex :: lexs).IsChain Lexeme.Apart) :
    ((renderAfter (some piece.glue) pieces).toList.foldl step { mode, found }).settle =
      { mode := .between, found := found ++ lex :: lexs } := by
  induction hp generalizing piece lex mode found with
  | nil => exact hs
  | cons hnex hre ih =>
    obtain ⟨hf, ht⟩ := isChain_cons_cons.1 ha
    obtain ⟨nextMode, hr, hne, hn⟩ := hnex.read
    rw [toList_renderAfter_cons, foldl_append,
      foldl_next hs hb (hr _) h hnex hf,
      ih (hne _) hn hnex ht, append_assoc]
    rfl

end Piece

namespace Sql

open Piece Lexer

/-- A stretch of SQL whose pieces are tokens. -/
def Spells (sql : Sql) (lexemes : List Lexeme) : Prop := List.Forall₂ Single (flatAll sql) lexemes

theorem Spells.append {sql more : Sql} {lexs moreLexemes : List Lexeme}
    (h : sql.Spells lexs) (hm : Spells more moreLexemes) :
    Spells (sql ++ more) (lexs ++ moreLexemes) := by
  rw [Spells, flatAll_append]
  exact rel_append h hm

theorem spells_nil : Spells [] [] := .nil

theorem Spells.group {sql : Sql} {lexs : List Lexeme} (h : sql.Spells lexs) :
    Spells [.group sql] (.symbol "(" :: lexs ++ [Lexeme.symbol ")"]) := by
  have ho : Single (.raw "(") (.symbol "(") := .bare (by rw [Piece.render]; decide)
  have hc : Single (.raw ")") (.symbol ")") := .bare (by rw [Piece.render]; decide)
  rw [Spells, flatAll, flatAll, flat, append_nil]
  exact .cons ho (rel_append h (.cons hc .nil))

/-- A piece that is one token, and no group. -/
theorem spells_single {piece : Piece} {lex : Lexeme} (hf : piece.flat = [piece])
    (h : Single piece lex) : Spells [piece] [lex] := by
  rw [Spells, flatAll, flatAll, hf, append_nil]
  exact .cons h .nil

/-- **A written stretch of SQL is read as the tokens of its pieces.** -/
theorem lexemes?_render {sql : Sql} {lexs : List Lexeme} (h : sql.Spells lexs)
    (ha : lexs.IsChain Lexeme.Apart) : lexemes? sql.render = some lexs := by
  have hl : ((renderAfter none (flatAll sql)).toList.foldl step {}).settle =
      { mode := .between, found := lexs } := by
    unfold Spells at h
    generalize flatAll sql = pieces at h
    cases h with
    | nil => rfl
    | cons hf hres =>
      obtain ⟨mode, hre, hs, hb⟩ := hf.read
      have hsp (piece : Piece) : space none piece = [] := rfl
      rw [toList_renderAfter_cons, hsp, nil_append, foldl_append, hre,
        settle_foldl_row (hs _) hb hf hres ha, nil_append]
  have hr : sql.render = renderAfter none (flatAll sql) := by
    simpa [render] using (renderAfter_flatAll sql none []).symm
  rw [lexemes?, hr]
  simp only [hl, if_pos]

end Sql

end SqlBridge
