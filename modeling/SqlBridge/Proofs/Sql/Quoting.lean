/-
What comes from a statement stays inside quotes.

Pieces of SQL are written one after the other, some without a space between them.  Whatever names
and texts they hold, a reader that follows SQLite's rules for quotes finds exactly those names and
texts between the quotes, and opens no comment outside them (`render_quoted`).

* `Piece.quotations` and `Piece.outer`: what a piece has inside and outside quotes.
* `Piece.Made`: the pieces that can be built; `Made.contained`: a scanner finds in them just that.
* `settle_foldl_renderAfter`: so it does in a row of pieces, since no quote meets the one before it.
* `isChain_append_outerAfter`: no two pieces open a comment together.
-/
import SqlBridge.Proofs.Sql.Glue
import SqlBridge.Proofs.Sql.Scanner
import SqlBridge.Sql.Checked

namespace SqlBridge

open Scanner List

/-! ### Texts -/

namespace Literal

/-- What stands between the quotes of a string literal: backslashes doubled, NUL left out. -/
def content : List Char → List Char
  | [] => []
  | '\\' :: rest => '\\' :: '\\' :: content rest
  | '\x00' :: rest => content rest
  | c :: rest => c :: content rest

theorem textBody_eq_doubled (text : List Char) :
    textBody text = Text.doubled '\'' (content text) := by
  fun_induction textBody text with
  | case1 => rfl
  | case2 rest ih => simp [content, Text.doubled, ih]
  | case3 rest ih => simp [content, Text.doubled, ih]
  | case4 rest ih => simp [content, ih]
  | case5 c rest hq hb hn ih =>
    have ho : c ≠ '\'' := hq
    rw [content]
    · simp [Text.doubled, ho, ih]
    · exact hb
    · exact hn

end Literal

namespace Piece

variable {text before : List Char} {piece : Piece} {prev : Option Glue} {scanner : Scanner}

mutual

/-- The names and texts of a piece in order, with the quotes they are put in. -/
def quotations : Piece → List (Quote × List Char)
  | .name text => [(.double, text.toList)]
  | .literal (.text value) => [(.single, Literal.content value.toList)]
  | .group inside => quotationsOfAll inside
  | _ => []

def quotationsOfAll : List Piece → List (Quote × List Char)
  | [] => []
  | piece :: rest => piece.quotations ++ quotationsOfAll rest

end

mutual

/-- What is written of a piece outside quotes. -/
def outer : Piece → List Char
  | .raw text | .operator text => text.toList
  | .name _ | .literal (.text _) => []
  | .literal constant => constant.render.toList
  | .group inside => '(' :: outerAfter none inside ++ [')']

def outerAfter (previous : Option Glue) : List Piece → List Char
  | [] => []
  | piece :: rest =>
    (if piece.spacedAfter previous then [' '] else []) ++ piece.outer ++
      outerAfter (some piece.glue) rest

end

/-- The pieces that can be built: fixed texts that have no quotes and open no comment, any names and
texts, and what is checked before it is written. -/
inductive Made : Piece → Prop
  | raw {text : String} (hbare : IsBare text.toList)
      (hcomment : ¬ ['-', '-'] <:+: text.toList ∧ ¬ ['/', '*'] <:+: text.toList) : Made (.raw text)
  | name (text : String) : Made (.name text)
  | string (value : String) : Made (.string value)
  | integer (value : Int) : Made (.integer value)
  | boolean (value : Bool) : Made (.literal (.boolean value))
  | null : Made (.literal .null)
  | number {text : String} {piece : Piece} (h : Sql.number text = .ok piece) : Made piece
  | operator {text : String} {piece : Piece} (h : Sql.operator text = .ok piece) : Made piece
  | group {inside : List Piece} (h : ∀ piece ∈ inside, Made piece) : Made (.group inside)

/-! ### Numbers and operators -/

/-- A character that is neither a quote nor begins a comment. -/
def IsCalm (c : Char) : Prop := (c ≠ '"' ∧ c ≠ '\'') ∧ c ≠ '-' ∧ c ≠ '/'

theorem isCalm_of_isDigit {c : Char} (h : c.isDigit) : IsCalm c := by
  refine ⟨⟨?_, ?_⟩, ?_, ?_⟩ <;>
  · rintro rfl
    exact absurd h (by decide)

theorem isCalm_of_isHexDigit {c : Char} (h : Text.isHexDigit c) : IsCalm c := by
  refine ⟨⟨?_, ?_⟩, ?_, ?_⟩ <;>
  · rintro rfl
    exact absurd h (by decide)

/-- A text outside quotes: it has none, and opens no comment. -/
def IsPlainText (text : List Char) : Prop := IsBare text ∧ text.IsChain Apart

theorem isPlainText_of_calm (h : ∀ c ∈ text, IsCalm c) : IsPlainText text :=
  ⟨fun c hc => (h c hc).1, isChain_apart_of_calm fun c hc => (h c hc).2⟩

/-- A sign before digits. -/
theorem isPlainText_sign {digits : List Char} (h : ∀ c ∈ digits, c.isDigit) :
    IsPlainText ('-' :: digits) := by
  obtain ⟨hb, hch⟩ := isPlainText_of_calm fun c hc => isCalm_of_isDigit (h c hc)
  refine ⟨?_, hch.cons fun c hc => ?_⟩
  · rw [IsBare, forall_mem_cons]
    exact ⟨by decide, hb⟩
  · have hd := isCalm_of_isDigit (h c (mem_of_mem_head? hc))
    exact ⟨fun ho => hd.2.1 ho.2, fun ho => absurd ho.1 (by decide)⟩

theorem isPlainText_integer (value : Int) : IsPlainText (toString value).toList := by
  have hd (n : Nat) : ∀ c ∈ (toString n).toList, c.isDigit := by
    intro c hc
    rw [Nat.toString_eq_ofList_toDigits, String.toList_ofList] at hc
    exact Nat.isDigit_of_mem_toDigits (by omega) (by omega) hc
  cases value with
  | ofNat n => exact isPlainText_of_calm fun c hc => isCalm_of_isDigit (hd n c hc)
  | negSucc n =>
    show IsPlainText ("-" ++ toString (n + 1)).toList
    rw [String.toList_append]
    exact isPlainText_sign (hd (n + 1))

/-- A text is what it begins with and a rest that begins otherwise. -/
theorem exists_rest_of_takeWhile (p : Char → Bool) (text : List Char) :
    ∃ rest, text = text.takeWhile p ++ rest ∧ text.drop (text.takeWhile p).length = rest ∧
      ∀ c ∈ rest.head?, p c = false := by
  refine ⟨text.dropWhile p, takeWhile_append_dropWhile.symm, ?_, ?_⟩
  · calc text.drop (text.takeWhile p).length
        = (text.takeWhile p ++ text.dropWhile p).drop (text.takeWhile p).length := by
          rw [takeWhile_append_dropWhile]
      _ = text.dropWhile p := drop_left
  · intro c hc
    have hn := text.head?_dropWhile_not p
    rw [Option.mem_def.1 hc] at hn
    exact hn

theorem isCalm_of_isMantissa (h : Sql.isMantissa text = true) :
    ∀ c ∈ text, IsCalm c := by
  obtain ⟨rest, ht, hd, hh⟩ := exists_rest_of_takeWhile (· != '.') text
  simp only [Sql.isMantissa, hd, Bool.and_eq_true, all_eq_true] at h
  obtain ⟨⟨hw, hf⟩, -⟩ := h
  intro c hc
  rw [ht, mem_append] at hc
  rcases hc with hc | hc
  · exact isCalm_of_isDigit (hw c hc)
  · cases rest with
    | nil => cases hc
    | cons point fraction =>
      have hp : point = '.' := by simpa using hh point rfl
      rcases mem_cons.1 hc with rfl | hc
      · rw [hp]
        exact ⟨by decide, by decide⟩
      · exact isCalm_of_isDigit (hf c hc)

theorem isPlainText_exponent (h : Sql.isExponent text = true) :
    IsPlainText text := by
  simp only [Sql.isExponent, Bool.and_eq_true, all_eq_true] at h
  obtain ⟨-, hd⟩ := h
  split at hd
  · refine isPlainText_of_calm fun c hc => ?_
    rcases mem_cons.1 hc with rfl | hc
    · exact ⟨by decide, by decide⟩
    · exact isCalm_of_isDigit (hd c hc)
  · exact isPlainText_sign hd
  · exact isPlainText_of_calm fun c hc => isCalm_of_isDigit (hd c hc)

/-- What follows a calm text joins it without a comment. -/
theorem IsPlainText.append_of_calm (hb : ∀ c ∈ before, IsCalm c)
    (h : IsPlainText text) : IsPlainText (before ++ text) := by
  obtain ⟨hba, hch⟩ := isPlainText_of_calm hb
  refine ⟨?_, hch.append h.2 fun c hc d _ => ?_⟩
  · intro c hc
    rcases mem_append.1 hc with hc | hc
    · exact hba c hc
    · exact h.1 c hc
  · have hca := (hb c (mem_of_getLast? hc)).2
    exact ⟨fun ho => hca.1 ho.1, fun ho => hca.2 ho.1⟩

theorem isPlainText_hex {x : Char} (hx : x = 'x' ∨ x = 'X') {digits : List Char}
    (h : (!digits.isEmpty && digits.all Text.isHexDigit) = true) :
    IsPlainText ('0' :: x :: digits) := by
  simp only [Bool.and_eq_true, all_eq_true] at h
  have hca : ∀ c ∈ ['0', x], IsCalm c := by
    rcases hx with rfl | rfl <;> simp [IsCalm]
  exact (isPlainText_of_calm fun c hc => isCalm_of_isHexDigit (h.2 c hc)).append_of_calm hca

theorem isPlainText_number (h : Sql.isNumber text = true) :
    IsPlainText text := by
  unfold Sql.isNumber at h
  split at h
  · exact isPlainText_hex (.inl rfl) h
  · exact isPlainText_hex (.inr rfl) h
  · obtain ⟨rest, ht, hd, hh⟩ :=
      exists_rest_of_takeWhile (fun c => c != 'e' && c != 'E') text
    dsimp only at h
    rw [hd] at h
    rw [ht]
    cases rest with
    | nil =>
      rw [append_nil]
      exact isPlainText_of_calm (isCalm_of_isMantissa h)
    | cons e exponent =>
      obtain ⟨hm, hex⟩ := Bool.and_eq_true_iff.1 h
      have he : e = 'e' ∨ e = 'E' := by simpa [imp_iff_not_or] using hh e rfl
      have hc : ∀ c ∈ [e], IsCalm c := by
        rcases he with rfl | rfl <;> simp [IsCalm]
      exact ((isPlainText_exponent hex).append_of_calm hc).append_of_calm
        (isCalm_of_isMantissa hm)

theorem isPlainText_operator {text : String} (h : text ∈ sqliteOperators) :
    IsPlainText text.toList := by
  have ha : ∀ text ∈ sqliteOperators, text.toList.all (fun c => c != '"' && c != '\'') ∧
      (text.toList.all (fun c => c != '-' && c != '/') ∨ text.toList.length = 1) := by
    decide +kernel
  obtain ⟨hb, hca | hs⟩ := ha text h
  · exact ⟨by simpa [IsBare] using hb, isChain_apart_of_calm (by simpa using hca)⟩
  · obtain ⟨c, hc⟩ := length_eq_one_iff.1 hs
    refine ⟨by simpa [IsBare] using hb, ?_⟩
    rw [hc]
    exact .singleton c

/-! ### One piece -/

/-- What there is to know of a piece: a scanner that reads it finds its quotations, is left outside
quotes or, if the piece is a word, at its closing quote; and the piece opens no comment. -/
structure Contained (piece : Piece) : Prop where
  found : ∀ scanner : Scanner, scanner.mode = .outside →
    (piece.render.toList.foldl step scanner).settle = scanner.add piece.outer piece.quotations
  closed : ∀ scanner : Scanner, scanner.mode = .outside →
    (piece.render.toList.foldl step scanner).mode = .outside ∨ piece.glue = .word
  apart : piece.outer.IsChain Apart

/-- A piece that is written as it is. -/
theorem contained_of_plain (ho : piece.outer = piece.render.toList)
    (hq : piece.quotations = []) (h : IsPlainText piece.render.toList) :
    Contained piece where
  found scanner hm := by
    rw [foldl_bare hm h.1, ho, hq]
    exact settle_of_outside hm
  closed scanner hm := by
    rw [foldl_bare hm h.1]
    exact .inl hm
  apart := ho ▸ h.2

theorem contained_name (text : String) : Contained (.name text) where
  found scanner hm := by
    rw [render, Text.quoted, String.toList_ofList, outer, quotations]
    exact foldl_quoted hm .double text.toList
  closed _ _ := .inr rfl
  apart := .nil

theorem contained_string (value : String) : Contained (.string value) where
  found scanner hm := by
    rw [string, render, Literal.render, String.toList_ofList, Literal.textBody_eq_doubled, outer,
      quotations]
    exact foldl_quoted hm .single (Literal.content value.toList)
  closed _ _ := .inr rfl
  apart := .nil

/-! ### Pieces in a row -/

/-- A scanner that may read on after a piece of the given glue. -/
def Ready (previous : Option Glue) (scanner : Scanner) : Prop :=
  scanner.settle.mode = .outside ∧ (scanner.mode = .outside ∨ previous = some .word)

theorem ready_of_outside (h : scanner.mode = .outside) :
    Ready prev scanner :=
  ⟨by rw [settle_of_outside h, h], .inl h⟩

/-- The space before a piece, if there is one. -/
def space (previous : Option Glue) (piece : Piece) : List Char :=
  if piece.spacedAfter previous then [' '] else []

theorem toList_renderAfter_cons (prev : Option Glue) (piece : Piece) (rest : List Piece) :
    (renderAfter prev (piece :: rest)).toList =
      space prev piece ++ piece.render.toList ++
        (renderAfter (some piece.glue) rest).toList := by
  rw [renderAfter, String.toList_append, String.toList_append, space]
  split <;> rfl

theorem outerAfter_cons (prev : Option Glue) (piece : Piece) (rest : List Piece) :
    outerAfter prev (piece :: rest) =
      space prev piece ++ piece.outer ++ outerAfter (some piece.glue) rest := by
  rw [outerAfter, space]

/-- A quote that could be doubled is not: the next piece comes after a space or begins with
punctuation. -/
theorem foldl_settle (hr : Ready prev scanner) (piece : Piece) :
    (space prev piece ++ piece.render.toList).foldl step scanner =
      piece.render.toList.foldl step (scanner.settle.add (space prev piece) []) := by
  obtain ⟨hse, hm⟩ := hr
  rw [foldl_append]
  cases hs : piece.spacedAfter prev with
  | true =>
    have hsp : space prev piece = [' '] := by simp [space, hs]
    rw [hsp, foldl_cons, foldl_nil, step_settle (by decide),
      step_bare hse (by decide)]
  | false =>
    have hsp : space prev piece = [] := by simp [space, hs]
    rw [hsp, foldl_nil, add_nil]
    rcases hm with hm | rfl
    · rw [settle_of_outside hm]
    · -- after a word only punctuation and groups come without a space
      obtain ⟨c, hc, tail, ht⟩ := render_of_unspaced (by decide) hs
      have hq : c ≠ '"' ∧ c ≠ '\'' := by
        simp only [mem_cons, not_mem_nil, or_false] at hc
        rcases hc with rfl | rfl | rfl | rfl <;> decide
      rw [ht, String.toList_append, String.toList_ofList, foldl_append, foldl_append,
        foldl_cons, foldl_nil, foldl_cons, foldl_nil, step_settle hq]

theorem settle_foldl_renderAfter {pieces : List Piece} (h : ∀ piece ∈ pieces, Contained piece)
    (hr : Ready prev scanner) : ((renderAfter prev pieces).toList.foldl step scanner).settle =
      scanner.settle.add (outerAfter prev pieces) (quotationsOfAll pieces) := by
  induction pieces generalizing prev scanner with
  | nil =>
    rw [renderAfter, outerAfter, quotationsOfAll, add_nil]
    rfl
  | cons piece rest ih =>
    obtain ⟨hp, hre⟩ := forall_mem_cons.1 h
    rw [toList_renderAfter_cons, foldl_append, foldl_settle hr]
    have hm : (scanner.settle.add (space prev piece) []).mode = .outside := hr.1
    have hf := hp.found _ hm
    -- only a word can end at a quote, so the scanner may read on
    have hn : Ready (some piece.glue)
        (piece.render.toList.foldl step (scanner.settle.add (space prev piece) [])) := by
      refine ⟨?_, (hp.closed _ hm).imp_right fun hg => by rw [hg]⟩
      rw [hf]
      exact hm
    rw [ih hre hn, hf, add_add, add_add, outerAfter_cons, quotationsOfAll, nil_append,
      append_assoc]

/-! ### No comment between pieces -/

theorem outer_of_spelling {spelling : String}
    (h : piece.glue.spelling? = some spelling) : piece.outer = spelling.toList := by
  rw [← render_of_spelling h]
  cases piece with
  | raw text => rw [outer, render]
  | operator text => rw [outer, render]
  | name _ => simp [glue, Glue.spelling?] at h
  | literal _ => simp [glue, Glue.spelling?] at h
  | group _ => simp [glue, Glue.spelling?] at h

/-- Glue that lets anything follow without a space. -/
def Joins (previous : Option Glue) : Prop :=
  previous = none ∨ previous = some .open ∨ previous = some .dot

theorem head_outer_of_unspaced (hsp : piece.spacedAfter prev = false) (hj : ¬ Joins prev) :
    ∀ d ∈ piece.outer.head?, d ∈ ['(', ')', ',', '.'] := by
  intro d hd
  simp only [Joins, not_or] at hj
  obtain ⟨hn, ho, hdo⟩ := hj
  obtain ⟨glue, rfl⟩ := Option.ne_none_iff_exists'.1 hn
  have hp : glue ≠ .open ∧ glue ≠ .dot := by simpa using And.intro ho hdo
  obtain ⟨c, hc, hs⟩ | ⟨inside, rfl⟩ := punctuation_of_unspaced hp hsp
  · rw [outer_of_spelling hs, String.toList_ofList] at hd
    obtain rfl : c = d := by simpa using hd
    exact hc
  · rw [outer] at hd
    obtain rfl : '(' = d := by simpa using hd
    simp

/-- Text that a piece may follow without a space. -/
def Calm (text : List Char) : Prop := ∀ c ∈ text.getLast?, c ≠ '-' ∧ c ≠ '/'

theorem isChain_append_piece (h : piece.outer.IsChain Apart) (hb : before.IsChain Apart)
    (hca : Joins prev → Calm before) :
    (before ++ (space prev piece ++ piece.outer)).IsChain Apart := by
  have hsp (c : Char) : Apart c ' ' ∧ Apart ' ' c := by simp [Apart]
  cases hs : piece.spacedAfter prev with
  | true =>
    rw [space, if_pos hs]
    refine hb.append (h.cons fun d _ => (hsp d).2) fun c _ d hd => ?_
    obtain rfl : ' ' = d := by simpa using hd
    exact (hsp c).1
  | false =>
    rw [space, hs, if_neg Bool.false_ne_true, nil_append]
    refine hb.append h fun c hc d hd => ?_
    by_cases hj : Joins prev
    · -- anything may follow, but what stands before does not end in a dash or a slash
      obtain ⟨hda, hsl⟩ := hca hj c hc
      exact ⟨fun ho => hda ho.1, fun ho => hsl ho.1⟩
    · -- the second character of an opener is no punctuation
      have hd := head_outer_of_unspaced hs hj d hd
      constructor
      · rintro ⟨-, rfl⟩
        exact absurd hd (by decide)
      · rintro ⟨-, rfl⟩
        exact absurd hd (by decide)

/-- After an opening parenthesis or a dot the text is calm. -/
theorem calm_of_joins (h : Joins (some piece.glue)) (before : List Char) :
    Calm (before ++ piece.outer) := by
  have hl {c : Char} (hs : piece.glue.spelling? = some (String.ofList [c]))
      (hc : c ≠ '-' ∧ c ≠ '/') : Calm (before ++ piece.outer) := by
    intro d hd
    rw [outer_of_spelling hs, String.toList_ofList] at hd
    obtain rfl : c = d := by simpa using hd
    exact hc
  rcases h with hn | ho | hdo
  · cases hn
  · refine hl (c := '(') ?_ (by decide)
    rw [Option.some.inj ho]
    rfl
  · refine hl (c := '.') ?_ (by decide)
    rw [Option.some.inj hdo]
    rfl

theorem isChain_append_outerAfter {pieces : List Piece} (h : ∀ piece ∈ pieces, Contained piece)
    (hb : before.IsChain Apart) (hc : Joins prev → Calm before) :
    (before ++ outerAfter prev pieces).IsChain Apart := by
  induction pieces generalizing prev before with
  | nil => simpa [outerAfter] using hb
  | cons piece rest ih =>
    obtain ⟨hp, hr⟩ := forall_mem_cons.1 h
    rw [outerAfter_cons, ← append_assoc]
    refine ih hr (isChain_append_piece hp.apart hb hc) fun hj => ?_
    rw [← append_assoc]
    exact calm_of_joins hj _

/-! ### Every piece -/

theorem contained_group {inside : List Piece} (h : ∀ piece ∈ inside, Contained piece) :
    Contained (.group inside) := by
  have hr (scanner : Scanner) (hm : scanner.mode = .outside) :
      (render (.group inside)).toList.foldl step scanner =
        scanner.add (outer (.group inside)) (quotationsOfAll inside) := by
    have ho : (scanner.add ['('] []).mode = .outside := hm
    have hre : Ready none (scanner.add ['('] []) := ready_of_outside ho
    have hi := settle_foldl_renderAfter h hre
    rw [settle_of_outside ho, add_add] at hi
    have hcl : ((renderAfter none inside).toList.foldl step
        (scanner.add ['('] [])).settle.mode = .outside := by
      rw [hi]
      exact hm
    have ht : (render (.group inside)).toList =
        '(' :: ((renderAfter none inside).toList ++ [')']) := by
      rw [render, String.toList_append, String.toList_append]
      rfl
    rw [ht, foldl_cons, step_bare hm (by decide), foldl_append, foldl_cons,
      foldl_nil, step_settle (by decide), step_bare hcl (by decide), hi, add_add,
      outer]
    simp
  constructor
  · intro scanner hm
    rw [hr scanner hm]
    exact settle_of_outside hm
  · intro scanner hm
    rw [hr scanner hm]
    exact .inl hm
  · have ho : (['('] ++ outerAfter none inside).IsChain Apart :=
      isChain_append_outerAfter h (.singleton _) fun _ c hc => by
        obtain rfl : '(' = c := by simpa using hc
        decide
    rw [outer]
    refine ho.append (.singleton _) fun c _ d hd => ?_
    obtain rfl : ')' = d := by simpa using hd
    simp [Apart]

theorem Made.contained (h : Made piece) : Contained piece := by
  induction h with
  | raw hb hc => exact contained_of_plain rfl rfl ⟨hb, isChain_apart_iff.2 hc⟩
  | name text => exact contained_name text
  | string value => exact contained_string value
  | integer value => exact contained_of_plain rfl rfl (isPlainText_integer value)
  | boolean value =>
    refine contained_of_plain rfl rfl (isPlainText_of_calm ?_)
    cases value <;> simp [render, Literal.render, IsCalm]
  | null =>
    refine contained_of_plain rfl rfl (isPlainText_of_calm ?_)
    simp [render, Literal.render, IsCalm]
  | number h =>
    unfold Sql.number at h
    split at h
    case isTrue hn =>
      cases h
      exact contained_of_plain rfl rfl (isPlainText_number hn)
    case isFalse => cases h
  | @operator text _ h =>
    unfold Sql.operator at h
    dsimp only at h
    split at h
    case isTrue hl =>
      cases h
      have hm : Text.asciiUpper text ∈ sqliteOperators := contains_iff_mem.1 hl
      exact contained_of_plain rfl rfl (isPlainText_operator hm)
    case isFalse => cases h
  | group _ ih => exact contained_group ih

end Piece

/-- Whatever names and texts it holds, a stretch of SQL is read back with every quote closed, with
just these names and texts between the quotes, and with no comment outside them. -/
theorem Sql.render_quoted {sql : Sql} (h : ∀ piece ∈ sql, Piece.Made piece) :
    (scan sql.render).mode = .outside ∧
      (scan sql.render).regions = Piece.quotationsOfAll sql ∧
      ¬ ['-', '-'] <:+: (scan sql.render).outside ∧
        ¬ ['/', '*'] <:+: (scan sql.render).outside := by
  have hcontained : ∀ piece ∈ sql, piece.Contained := fun piece hpiece => (h piece hpiece).contained
  have hscan : scan sql.render =
      Scanner.add {} (Piece.outerAfter none sql) (Piece.quotationsOfAll sql) :=
    Piece.settle_foldl_renderAfter hcontained (Piece.ready_of_outside rfl)
  have hapart : ([] ++ Piece.outerAfter none sql).IsChain Apart :=
    Piece.isChain_append_outerAfter hcontained .nil fun _ c hc => by simp at hc
  rw [hscan]
  exact ⟨rfl, rfl, isChain_apart_iff.1 hapart⟩

/-- Quotes of both kinds, an empty name, comments inside a text, an empty group, and a minus before
a negative number. -/
def Sql.tangled : Sql :=
  [.raw "SELECT", .name "", .raw ".", .name "a\"--", .raw ",", .operator "-", .integer (-1),
   .raw "MAX", .group [.string "it's /* \\", .raw ",", .group [], .literal (.number "1e-5")]]

theorem Sql.render_quoted_tangled :
    tangled.render = "SELECT \"\".\"a\"\"--\", - -1 MAX('it''s /* \\\\', () 1e-5)" ∧
      (∀ piece ∈ tangled, Piece.Made piece) ∧
      (scan tangled.render).mode = .outside ∧
      (scan tangled.render).regions =
        [(.double, []), (.double, "a\"--".toList), (.single, "it's /* \\\\".toList)] ∧
      ¬ ['-', '-'] <:+: (scan tangled.render).outside ∧
      ¬ ['/', '*'] <:+: (scan tangled.render).outside := by
  have hraw {text : String} (hbare : text.toList.all fun c => c != '"' && c != '\'')
      (hcalm : text.toList.all fun c => c != '-' && c != '/') : Piece.Made (.raw text) :=
    .raw (by simpa [IsBare] using hbare)
      (isChain_apart_iff.1 (isChain_apart_of_calm (by simpa using hcalm)))
  have hminus : Sql.operator "-" = .ok (.operator "-") := rfl
  have hnumber : Sql.number "1e-5" = .ok (.literal (.number "1e-5")) := rfl
  have hmade : ∀ piece ∈ tangled, Piece.Made piece := by
    simp only [tangled, List.forall_mem_cons]
    refine ⟨hraw (by decide) (by decide), .name _, hraw (by decide) (by decide), .name _,
      hraw (by decide) (by decide), .operator hminus, .integer _, hraw (by decide) (by decide),
      .group ?_, by simp⟩
    simp only [List.forall_mem_cons]
    exact ⟨.string _, hraw (by decide) (by decide), .group (by simp), .number hnumber, by simp⟩
  obtain ⟨hmode, hregions, hcomments⟩ := render_quoted hmade
  exact ⟨by decide, hmade, hmode, hregions.trans (by decide +kernel), hcomments⟩

end SqlBridge
