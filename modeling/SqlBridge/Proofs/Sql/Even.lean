/-
Stretches of SQL whose parentheses match.

* `Looseness`: which commas and keywords may stand outside parentheses.
* `Lexeme.isEven`: tokens with matching parentheses, and nothing outside them that is too loose.
* `Sql.Even`: a stretch that reads as such tokens.  Stretches side by side and stretches in
  parentheses are even again, and so is all that the writer puts between them.
-/
import SqlBridge.Proofs.Sql.Grouping

namespace SqlBridge

open List

/-- What may stand outside parentheses in a stretch of text, from the least to the most. -/
inductive Looseness where
  /-- No comma, no `PRIMARY` and no `UNION`. -/
  | item
  /-- No comma and no `UNION`. -/
  | definition
  /-- No `UNION`. -/
  | list
  /-- Anything. -/
  | compound
deriving DecidableEq

namespace Looseness

/-- Whether a stretch of text can stand where another is asked for. -/
def fits : Looseness → Looseness → Bool
  | .item, _ | _, .compound | .definition, .definition | .definition, .list | .list, .list => true
  | _, _ => false

/-- The looseness inside a number of parentheses. -/
def within (loose : Looseness) (depth : Nat) : Looseness := if depth = 0 then loose else .compound

variable {loose other : Looseness} {depth : Nat}
variable {tight : Looseness} {piece : Piece}

@[simp] theorem item_fits : item.fits loose := rfl

@[simp] theorem fits_compound : loose.fits .compound := by cases loose <;> rfl

@[simp] theorem fits_self : loose.fits loose := by cases loose <;> rfl

theorem fits_trans (h : tight.fits other) (ho : other.fits loose) :
    tight.fits loose := by
  cases tight <;> cases other <;> cases loose <;> first | rfl | exact h | exact ho

@[simp] theorem within_zero : loose.within 0 = loose := rfl

@[simp] theorem within_succ : loose.within (depth + 1) = .compound := rfl

theorem within_fits (h : loose.fits other) :
    (loose.within depth).fits (other.within depth) := by
  cases depth with
  | zero => exact h
  | succ depth => rfl

theorem within_within {opened : Nat} :
    (loose.within depth).within opened = loose.within (depth + opened) := by
  cases depth with
  | zero => rw [within_zero, Nat.zero_add]
  | succ depth => cases opened <;> simp [within]

/-- Inside a row whose parentheses match, the depth is more by what it has opened so far.  The test
of the row counts parentheses, and what is outside of them has to be flat. -/
theorem add_append_of_counts {α : Type} {opens closes : α → Prop} [DecidablePred opens]
    [DecidablePred closes] {flat : Looseness → α → Bool} {test : Looseness → Nat → List α → Bool}
    (hnil : ∀ loose depth, test loose depth [] = (depth == 0))
    (hcons : ∀ loose depth a row, test loose depth (a :: row) =
      if opens a then test loose (depth + 1) row
      else if closes a then depth != 0 && test loose (depth - 1) row
      else flat (loose.within depth) a && test loose depth row)
    {opened : Nat} {row others : List α} (h : test (loose.within depth) opened row) :
    test loose (depth + opened) (row ++ others) = test loose depth others := by
  induction row generalizing opened with
  | nil =>
    obtain rfl : opened = 0 := by simpa [hnil] using h
    rfl
  | cons a row ih =>
    rw [hcons] at h
    rw [cons_append, hcons]
    split_ifs at h ⊢
    · exact ih h
    · rw [Bool.and_eq_true, bne_iff_ne] at h
      have hd : depth + opened - 1 = depth + (opened - 1) := by omega
      have hi : depth + opened != 0 := bne_iff_ne.2 (by omega)
      rw [hd, ih h.2, hi, Bool.true_and]
    · rw [Bool.and_eq_true, within_within] at h
      rw [h.1, Bool.true_and]
      exact ih h.2

end Looseness

namespace Lexeme

variable {tight : Looseness}

/-- A token that can stand outside parentheses. -/
def isFlat (loose : Looseness) (lex : Lexeme) : Bool :=
  lex != .symbol "(" && lex != .symbol ")" &&
    (lex != .symbol "," || Looseness.list.fits loose) &&
    (lex != .word "PRIMARY" || Looseness.definition.fits loose) &&
    (lex != .word "UNION" || Looseness.compound.fits loose)

/-- Whether the parentheses of some tokens match that begin inside some, and whether what stands
outside all of them is flat. -/
@[simp]
def isEven (loose : Looseness) : Nat → List Lexeme → Bool
  | depth, [] => depth == 0
  | depth, lex :: rest =>
    if lex = .symbol "(" then isEven loose (depth + 1) rest
    else if lex = .symbol ")" then depth != 0 && isEven loose (depth - 1) rest
    else lex.isFlat (loose.within depth) && isEven loose depth rest

variable {loose : Looseness} {depth : Nat} {lex : Lexeme} {ts rest : List Lexeme}

@[simp] theorem isEven_open :
    isEven loose depth (.symbol "(" :: rest) = isEven loose (depth + 1) rest := by
  rw [isEven, if_pos rfl]

@[simp] theorem isEven_close :
    isEven loose (depth + 1) (.symbol ")" :: rest) = isEven loose depth rest := by
  rw [isEven, if_neg (by decide), if_pos rfl]
  simp

theorem ne_of_isFlat (h : lex.isFlat loose) :
    lex ≠ .symbol "(" ∧ lex ≠ .symbol ")" := by
  simp only [isFlat, Bool.and_eq_true, bne_iff_ne] at h
  exact h.1.1.1

theorem isFlat_mono (hf : tight.fits loose) (h : lex.isFlat tight) : lex.isFlat loose := by
  have hm {least : Looseness} {other : Lexeme}
      (ho : lex != other || least.fits tight) :
      (lex != other || least.fits loose) := by
    rw [Bool.or_eq_true] at ho ⊢
    exact ho.imp_right fun hl => Looseness.fits_trans hl hf
  simp only [isFlat, Bool.and_eq_true] at h ⊢
  exact ⟨⟨⟨h.1.1.1, hm h.1.1.2⟩, hm h.1.2⟩, hm h.2⟩

theorem isEven_cons (h : lex.isFlat (loose.within depth)) :
    isEven loose depth (lex :: rest) = isEven loose depth rest := by
  rw [isEven, if_neg (ne_of_isFlat h).1, if_neg (ne_of_isFlat h).2, h, Bool.true_and]

/-- Tokens whose parentheses match leave the depth as it is. -/
theorem isEven_append (h : isEven (loose.within depth) 0 ts) :
    isEven loose depth (ts ++ rest) = isEven loose depth rest :=
  Looseness.add_append_of_counts (fun _ _ => rfl) (fun _ _ _ _ => rfl) h

theorem isEven_of_isFlat (h : ∀ lex ∈ ts, lex.isFlat loose) :
    isEven loose 0 ts := by
  induction ts with
  | nil => rfl
  | cons lex others ih =>
    rw [forall_mem_cons] at h
    rw [isEven_cons (by simpa using h.1)]
    exact ih h.2

theorem isEven_mono (hf : tight.fits loose)
    (h : isEven tight depth ts) : isEven loose depth ts := by
  induction ts generalizing depth with
  | nil => exact h
  | cons lex others ih =>
    rw [isEven] at h ⊢
    split_ifs at h ⊢
    · exact ih h
    · rw [Bool.and_eq_true] at h ⊢
      exact ⟨h.1, ih h.2⟩
    · rw [Bool.and_eq_true] at h ⊢
      exact ⟨isFlat_mono (Looseness.within_fits hf) h.1, ih h.2⟩

end Lexeme

open Lexeme

namespace Sql

variable {tight : Looseness} {piece : Piece}

/-- A stretch of SQL that reads as tokens with matching parentheses, after some that were opened. -/
def EvenFrom (loose : Looseness) (depth : Nat) (sql : Sql) : Prop :=
  ∃ lexemes, sql.Spells lexemes ∧ Settled lexemes ∧ isEven loose depth lexemes

/-- A stretch of SQL that reads as tokens with matching parentheses. -/
def Even (loose : Looseness) (sql : Sql) : Prop := sql.EvenFrom loose 0

variable {loose : Looseness} {depth : Nat} {sql more : Sql}

theorem even_nil : Even loose [] :=
  ⟨[], spells_nil, settled_of_forall (by simp), rfl⟩

theorem Even.append_from (h : sql.Even (loose.within depth)) (hm : EvenFrom loose depth more) :
    EvenFrom loose depth (sql ++ more) := by
  obtain ⟨lexs, hsp, hse, hev⟩ := h
  obtain ⟨others, ho, hs, he⟩ := hm
  refine ⟨lexs ++ others, hsp.append ho, hse.append hs, ?_⟩
  rw [isEven_append hev]
  exact he

theorem Even.append (h : sql.Even loose) (hm : Even loose more) : Even loose (sql ++ more) := by
  have hz : sql.Even (loose.within 0) := h
  exact hz.append_from hm

theorem Even.mono (h : sql.Even tight) (hf : tight.fits loose) :
    sql.Even loose := by
  obtain ⟨lexs, hsp, hs, he⟩ := h
  exact ⟨lexs, hsp, hs, isEven_mono hf he⟩

theorem Even.inside (h : sql.Even loose) : sql.Even .compound := h.mono Looseness.fits_compound

theorem settled_symbol (text : String) (h : text ≠ ".") : Settled [.symbol text] :=
  settled_of_forall (by simpa [isDot] using h)

theorem settled_parens {lexs : List Lexeme} (h : Settled lexs) :
    Settled (.symbol "(" :: lexs ++ [symbol ")"]) :=
  ((settled_symbol "(" (by decide)).append h).append (settled_symbol ")" (by decide))

theorem isEven_parens {lexs : List Lexeme} (h : isEven .compound 0 lexs) :
    isEven loose 0 (.symbol "(" :: lexs ++ [symbol ")"]) := by
  rw [cons_append, isEven_open, isEven_append (by simpa using h)]
  exact isEven_close

/-- Whatever stands in parentheses. -/
theorem Even.group (h : sql.Even .compound) : Even loose (group sql) := by
  obtain ⟨lexs, hsp, hs, he⟩ := h
  exact ⟨_, hsp.group, settled_parens hs, isEven_parens he⟩

/-- So it is if the parentheses are words of their own. -/
theorem Even.parens (h : sql.Even .compound) : Even loose (.raw "(" :: sql ++ [Piece.raw ")"]) := by
  obtain ⟨lexs, hsp, hs, he⟩ := h
  refine ⟨.symbol "(" :: lexs ++ [Lexeme.symbol ")"], ?_, settled_parens hs, isEven_parens he⟩
  have hf : Piece.flatAll (.raw "(" :: sql ++ [Piece.raw ")"]) = Piece.flatAll (Sql.group sql) := by
    simp [Sql.group, Piece.flatAll, Piece.flatAll_append, Piece.flat]
  have hg := hsp.group
  unfold Spells at hg ⊢
  rwa [hf]

/-! ### Single tokens -/

theorem even_single {lex : Lexeme} (hf : piece.flat = [piece])
    (h : Piece.Single piece lex) (hp : lex.isFlat loose)
    (hd : lex.isDot = false) : Even loose [piece] :=
  ⟨[lex], spells_single hf h, settled_of_forall (by simpa using hd),
    isEven_of_isFlat (by simpa using hp)⟩

/-- Whether a text is one word. -/
def isLetters (text : List Char) : Bool :=
  text.head?.any (fun c => isWordChar c && !c.isDigit) && text.all isWordChar

theorem isNumber_cons {first : Char} (hd : first.isDigit = false) (hdo : first ≠ '.')
    (rest : List Char) : isNumber (first :: rest) = false := by
  have hz : first ≠ '0' := by
    rintro rfl
    cases hd
  have hm (rest : List Char) : isMantissa (first :: rest) = false := by
    simp [isMantissa, hdo, hd]
  unfold isNumber
  split
  · simp_all
  · simp_all
  · -- before an exponent there is nothing, or the character that is no digit
    by_cases he : (first != 'e' && first != 'E')
    · have ht : (first :: rest).takeWhile (fun c => c != 'e' && c != 'E') =
          first :: rest.takeWhile fun c => c != 'e' && c != 'E' := takeWhile_cons_of_pos he
      rw [ht]
      dsimp only
      split
      · exact hm _
      · rw [hm, Bool.false_and]
    · have ht : (first :: rest).takeWhile (fun c => c != 'e' && c != 'E') = [] :=
        takeWhile_cons_of_neg he
      rw [ht]
      rfl

/-- A word is read whole. -/
theorem whole_of_isLetters {text : List Char} (h : isLetters text) :
    Whole (.word (String.ofList text)) text := by
  cases text with
  | nil => cases h
  | cons first rest =>
    simp only [isLetters, head?_cons, Option.any_some, Bool.and_eq_true, Bool.not_eq_true',
      all_cons, all_eq_true] at h
    obtain ⟨⟨hf, hd⟩, -, hr⟩ := h
    have ho {c : Char} (hc : isWordChar c = false) : first ≠ c := by
      rintro rfl
      rw [hf] at hc
      cases hc
    have hdo : first ≠ '.' := ho rfl
    have hn (rest : List Char) : isNumeric (first :: rest) = false := by
      cases rest <;> simp [isNumeric, hd, hdo]
    refine ⟨?_, grows_word (hn []) (by simpa using hf) hr, ?_⟩
    · simp [isBlank, isQuote, ho (c := ' ') rfl, ho (c := '\t') rfl, ho (c := '\n') rfl,
        ho (c := '\x0c') rfl, ho (c := '\r') rfl, ho (c := '"') rfl,
        ho (c := '\'') rfl]
    · rw [ofBare?, isNumber_cons hd hdo, hn]
      simpa [hf] using hr

/-- Whether a text is one token that can stand anywhere, and no dot. -/
def isWord (text : String) : Bool :=
  if isLetters text.toList then text != "UNION" && text != "PRIMARY"
  else (ofBare? text.toList).any fun lex =>
    decide (Whole lex text.toList) && lex.isFlat .item && !lex.isDot

theorem exists_of_isWord {text : String} (h : isWord text = true) :
    ∃ lex, Whole lex text.toList ∧ lex.isFlat .item = true ∧ lex.isDot = false := by
  unfold isWord at h
  split at h
  · rename_i hle
    refine ⟨.word text, by simpa using whole_of_isLetters hle, ?_, rfl⟩
    rw [Bool.and_eq_true, bne_iff_ne, bne_iff_ne] at h
    simp [isFlat, h.1, h.2]
  · obtain ⟨lex, -, hl⟩ := (Option.any_eq_true _ _).1 h
    simp only [Bool.and_eq_true, decide_eq_true_eq, Bool.not_eq_true'] at hl
    exact ⟨lex, hl.1.1, hl.1.2, hl.2⟩

/-- Whether a piece is one token that can stand anywhere, and no dot. -/
def isToken : Piece → Bool
  | .raw text | .operator text => isWord text
  | .name _ | .literal (.text _) => true
  | .literal (.number spelling) => isNumber spelling.toList
  | .literal constant => isWord constant.render
  | .group _ => false

theorem single_of_isToken (h : isToken piece = true) :
    ∃ lex, piece.flat = [piece] ∧ Piece.Single piece lex ∧ lex.isFlat .item = true ∧
      lex.isDot = false := by
  have hf {text : String} (hfl : piece.flat = [piece]) (hr : piece.render = text)
      (hwo : isWord text = true) : ∃ lex, piece.flat = [piece] ∧ Piece.Single piece lex ∧
        lex.isFlat .item = true ∧ lex.isDot = false := by
    obtain ⟨lex, hw, hl, hd⟩ := exists_of_isWord hwo
    exact ⟨lex, hfl, .bare (hr ▸ hw), hl, hd⟩
  match piece with
  | .raw text => exact hf rfl (by simp [Piece.render]) h
  | .operator text => exact hf rfl (by simp [Piece.render]) h
  | .name text => exact ⟨_, rfl, .name text, by simp [isFlat], rfl⟩
  | .literal (.text value) => exact ⟨_, rfl, .string value, by simp [isFlat], rfl⟩
  | .literal (.number spelling) =>
    have hw : Whole (.number spelling) (Piece.render (.literal (.number spelling))).toList := by
      simpa [Piece.render, Literal.render] using whole_of_isNumber h
    exact ⟨_, rfl, .bare hw, by simp [isFlat], rfl⟩
  | .literal (.integer value) => exact hf rfl (by simp [Piece.render]) h
  | .literal (.boolean value) => exact hf rfl (by simp [Piece.render]) h
  | .literal .null => exact hf rfl (by simp [Piece.render]) h

theorem even_of_isToken (h : isToken piece = true) : Even loose [piece] := by
  obtain ⟨lex, hf, hs, hl, hd⟩ := single_of_isToken h
  exact even_single hf hs (isFlat_mono Looseness.item_fits hl) hd

theorem even_name (text : String) : Even loose [.name text] := even_of_isToken rfl

theorem even_string (value : String) : Even loose [.string value] := even_of_isToken rfl

theorem even_tokens {sql : Sql} (h : sql.all isToken = true) : Even loose sql := by
  induction sql with
  | nil => exact even_nil
  | cons piece rest ih =>
    rw [all_cons, Bool.and_eq_true] at h
    exact (even_of_isToken h.1).append (ih h.2)

/-! ### Lists -/

theorem even_separated {sep : Piece} (hs : Even loose [sep]) {parts : List Sql}
    (h : ∀ part ∈ parts, Even loose part) : Even loose (separated sep parts) := by
  induction parts with
  | nil => exact even_nil
  | cons first rest ih =>
    rw [forall_mem_cons] at h
    cases rest with
    | nil => simpa [separated, List.intercalate] using h.1
    | cons second others =>
      have hsp : separated sep (first :: second :: others) =
          first ++ ([sep] ++ separated sep (second :: others)) := by
        simp [separated, List.intercalate]
      rw [hsp]
      exact h.1.append (hs.append (ih h.2))

theorem even_comma (hc : Looseness.list.fits loose = true) : Even loose [.raw ","] :=
  have hw : Whole (.symbol ",") (Piece.raw ",").render.toList := by decide
  even_single rfl (.bare hw) (by simp [isFlat, hc]) rfl

theorem even_primary (h : Looseness.definition.fits loose = true) : Even loose [.raw "PRIMARY"] :=
  have hw : Whole (.word "PRIMARY") (Piece.raw "PRIMARY").render.toList := by decide
  even_single rfl (.bare hw) (by simp [isFlat, h]) rfl

theorem even_commaSeparated (hc : Looseness.list.fits loose) {parts : List Sql}
    (h : ∀ part ∈ parts, Even loose part) : Even loose (commaSeparated parts) :=
  even_separated (even_comma hc) h

/-- A stretch of SQL that stands for something. -/
structure Stands (loose : Looseness) (sql : Sql) : Prop where
  even : sql.Even loose
  ne_nil : sql ≠ []

theorem Stands.mono (h : sql.Stands tight) (hf : tight.fits loose) :
    sql.Stands loose := ⟨h.even.mono hf, h.ne_nil⟩

theorem Stands.append (h : sql.Stands loose) (hm : Even loose more) : Stands loose (sql ++ more) :=
  ⟨h.even.append hm, by simp [h.ne_nil]⟩

theorem Stands.prepend (h : more.Stands loose) (hs : Even loose sql) : Stands loose (sql ++ more) :=
  ⟨hs.append h.even, by simp [h.ne_nil]⟩

theorem stands_group (h : sql.Even .compound) : Stands loose (group sql) :=
  ⟨h.group, by simp [group]⟩

theorem stands_cons (h : Even loose (piece :: more)) : Stands loose (piece :: more) :=
  ⟨h, by simp⟩

end Sql

end SqlBridge
