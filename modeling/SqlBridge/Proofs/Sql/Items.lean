/-
Tokens outside parentheses, and the stretches between them.

* `Lexeme.outer`: the tokens outside all parentheses.
* `Lexeme.cut`: tokens cut at a separator that stands outside parentheses.
* `Lexeme.enclosed`: the tokens up to the parenthesis that closes.
* `Sql.ReadsAs`: the tokens of a stretch of SQL, one by one.
* `Sql.Declares`: how often a stretch of SQL says outside parentheses that something is the primary
  key.
-/
import SqlBridge.Proofs.Sql.Even

namespace SqlBridge

open List

namespace Lexeme

/-- How many parentheses are open after a token. -/
def depthAfter (depth : Nat) (lex : Lexeme) : Nat :=
  if lex = .symbol "(" then depth + 1 else if lex = .symbol ")" then depth - 1 else depth

/-- The tokens outside all parentheses, where some may be open at first. -/
def outer : Nat → List Lexeme → List Lexeme
  | _, [] => []
  | depth, lex :: rest =>
    let others := outer (lex.depthAfter depth) rest
    if depth = 0 ∧ lex.isParen = false then lex :: others else others

/-- Tokens cut at every separator that stands outside parentheses. -/
def cut (sep : Lexeme) : Nat → List Lexeme → List (List Lexeme)
  | _, [] => [[]]
  | depth, lex :: rest =>
    let others := cut sep (lex.depthAfter depth) rest
    if depth = 0 ∧ lex = sep then [] :: others else others.modifyHead (lex :: ·)

/-- The tokens up to the parenthesis that closes what was open before them. -/
def enclosed : Nat → List Lexeme → List Lexeme
  | _, [] => []
  | depth, lex :: rest =>
    if depth = 0 ∧ lex = .symbol ")" then [] else lex :: enclosed (lex.depthAfter depth) rest

variable {loose : Looseness} {depth : Nat} {lex sep : Lexeme}
  {ts rest : List Lexeme}

theorem isParen_of_isFlat (h : lex.isFlat loose) : lex.isParen = false := by
  simp [isParen, ne_of_isFlat h]

theorem depthAfter_of_isFlat (h : lex.isFlat loose) : lex.depthAfter depth = depth := by
  rw [depthAfter, if_neg (ne_of_isFlat h).1, if_neg (ne_of_isFlat h).2]

/-- What a token does whose parentheses match with those after it. -/
theorem isEven_cases (h : isEven loose depth (lex :: rest)) :
    isEven loose (lex.depthAfter depth) rest ∧
      (lex = .symbol "(" ∨ lex = .symbol ")" ∧ depth ≠ 0 ∨
        lex.isFlat (loose.within depth)) := by
  rw [isEven] at h
  split_ifs at h with ho hc
  · exact ⟨by rw [depthAfter, if_pos ho]; exact h, .inl ho⟩
  · rw [Bool.and_eq_true, bne_iff_ne] at h
    exact ⟨by rw [depthAfter, if_neg ho, if_pos hc]; exact h.2, .inr (.inl ⟨hc, h.1⟩)⟩
  · rw [Bool.and_eq_true] at h
    exact ⟨by rw [depthAfter_of_isFlat h.1]; exact h.2, .inr (.inr h.1)⟩

theorem outer_append (h : isEven loose depth ts) :
    outer depth (ts ++ rest) = outer depth ts ++ outer 0 rest := by
  induction ts generalizing depth with
  | nil =>
    obtain rfl : depth = 0 := by simpa [isEven] using h
    rfl
  | cons lex others ih =>
    rw [cons_append, outer, outer, ih (isEven_cases h).1]
    split <;> rfl

/-- What stands outside all parentheses is flat. -/
theorem isFlat_of_mem_outer (h : isEven loose depth ts) (hm : lex ∈ outer depth ts) :
    lex.isFlat loose := by
  induction ts generalizing depth with
  | nil => cases hm
  | cons first others ih =>
    obtain ⟨hr, hc⟩ := isEven_cases h
    rw [outer] at hm
    split at hm
    · rename_i hfl
      rcases mem_cons.1 hm with rfl | hm
      · obtain ⟨rfl, hp⟩ := hfl
        rcases hc with rfl | ⟨rfl, -⟩ | hf
        · cases hp
        · cases hp
        · exact hf
      · exact ih hr hm
    · exact ih hr hm

theorem outer_of_isFlat (h : ∀ lex ∈ ts, lex.isFlat loose) : outer 0 ts = ts := by
  induction ts with
  | nil => rfl
  | cons first others ih =>
    rw [forall_mem_cons] at h
    rw [outer, depthAfter_of_isFlat h.1, ih h.2, if_pos ⟨rfl, isParen_of_isFlat h.1⟩]

theorem enclosed_append (h : isEven loose depth ts) :
    enclosed depth (ts ++ .symbol ")" :: rest) = ts := by
  induction ts generalizing depth with
  | nil =>
    obtain rfl : depth = 0 := by simpa [isEven] using h
    simp [enclosed]
  | cons lex others ih =>
    obtain ⟨hr, hc⟩ := isEven_cases h
    have hg : ¬ (depth = 0 ∧ lex = .symbol ")") := by
      rintro ⟨hd, rfl⟩
      rcases hc with ho | ⟨-, hne⟩ | hf
      · exact absurd ho (by decide)
      · exact hne hd
      · exact (ne_of_isFlat hf).2 rfl
    rw [cons_append, enclosed, if_neg hg, ih hr]

/-- What is too loose to stand in some tokens is not among those outside all parentheses. -/
theorem count_outer_eq_zero (hl : lex.isFlat loose = false)
    (h : isEven loose depth ts) : (outer depth ts).count lex = 0 := by
  refine count_eq_zero.2 fun hm => ?_
  exact absurd ((isFlat_of_mem_outer h hm).symm.trans hl) (by decide)

theorem isEven_both (h : isEven loose 0 ts) (hr : isEven loose 0 rest) :
    isEven loose 0 (ts ++ rest) := by
  have hw : isEven (loose.within 0) 0 ts := h
  rw [isEven_append hw]
  exact hr

theorem isEven_intercalate (hs : sep.isFlat loose) {parts : List (List Lexeme)}
    (h : ∀ part ∈ parts, isEven loose 0 part) :
    isEven loose 0 ([sep].intercalate parts) := by
  induction parts with
  | nil => rfl
  | cons first rest ih =>
    rw [forall_mem_cons] at h
    cases rest with
    | nil => simpa [intercalate] using h.1
    | cons second others =>
      have hsp : [sep].intercalate (first :: second :: others) =
          first ++ sep :: [sep].intercalate (second :: others) := by
        simp [intercalate]
      have hw : sep.isFlat (loose.within 0) := hs
      rw [hsp]
      refine isEven_both h.1 ?_
      rw [isEven_cons hw]
      exact ih h.2

/-- A separator that is too loose to stand in some tokens does not cut them. -/
theorem cut_append (hs : sep.isFlat loose = false) (hp : sep.isParen = false)
    (h : isEven loose depth ts) :
    cut sep depth (ts ++ rest) = (cut sep 0 rest).modifyHead (ts ++ ·) := by
  induction ts generalizing depth with
  | nil =>
    obtain rfl : depth = 0 := by simpa [isEven] using h
    cases hcu : cut sep 0 rest <;> simp [hcu]
  | cons lex others ih =>
    obtain ⟨hr, hc⟩ := isEven_cases h
    have hst : ¬ (depth = 0 ∧ lex = sep) := by
      rintro ⟨rfl, rfl⟩
      rcases hc with rfl | ⟨rfl, -⟩ | hf
      · cases hp
      · cases hp
      · exact absurd (hf.symm.trans hs) (by decide)
    rw [cons_append, cut, ih hr, if_neg hst, modifyHead_modifyHead]
    rfl

/-- **Parts with a separator between them are found again.** -/
theorem cut_intercalate (hs : sep.isFlat loose = false)
    (hp : sep.isParen = false) {parts : List (List Lexeme)}
    (h : ∀ part ∈ parts, isEven loose 0 part) (hne : parts ≠ []) :
    cut sep 0 ([sep].intercalate parts) = parts := by
  induction parts with
  | nil => exact absurd rfl hne
  | cons first rest ih =>
    rw [forall_mem_cons] at h
    cases rest with
    | nil =>
      have hc : cut sep 0 (first ++ []) = (cut sep 0 []).modifyHead (first ++ ·) :=
        cut_append hs hp h.1
      simpa [intercalate, cut] using hc
    | cons second others =>
      have hsp : [sep].intercalate (first :: second :: others) =
          first ++ sep :: [sep].intercalate (second :: others) := by
        simp [intercalate]
      have hd : sep.depthAfter 0 = 0 := by
        simp only [isParen, Bool.or_eq_false_iff, beq_eq_false_iff_ne] at hp
        rw [depthAfter, if_neg hp.1, if_neg hp.2]
      rw [hsp, cut_append hs hp h.1, cut, if_pos ⟨rfl, rfl⟩, hd,
        ih h.2 (by simp)]
      simp

end Lexeme

namespace Sql

open Lexeme

variable {sql more : Sql} {ts others : List Lexeme}

/-- A stretch of SQL that reads as some tokens, wherever it stands. -/
structure ReadsAs (sql : Sql) (tokens : List Lexeme) : Prop where
  spells : sql.Spells tokens
  settled : Settled tokens

theorem Even.exists_readsAs {loose : Looseness} (h : sql.Even loose) :
    ∃ ts, sql.ReadsAs ts ∧ isEven loose 0 ts := by
  obtain ⟨ts, hsp, hs, he⟩ := h
  exact ⟨ts, ⟨hsp, hs⟩, he⟩

/-- **The text of a stretch of SQL has its tokens.** -/
theorem ReadsAs.lexemes? (h : sql.ReadsAs ts) : Lexer.lexemes? sql.render = some ts :=
  lexemes?_render h.spells h.settled.chain

theorem ReadsAs.append (h : sql.ReadsAs ts) (hm : ReadsAs more others) :
    ReadsAs (sql ++ more) (ts ++ others) :=
  ⟨h.spells.append hm.spells, h.settled.append hm.settled⟩

theorem readsAs_nil : ReadsAs [] [] := ⟨spells_nil, settled_of_forall (by simp)⟩

theorem readsAs_single {piece : Piece} {lex : Lexeme} (hf : piece.flat = [piece])
    (h : Piece.Single piece lex) (hd : lex.isDot = false) : ReadsAs [piece] [lex] :=
  ⟨spells_single hf h, settled_of_forall (by simpa using hd)⟩

theorem readsAs_name (text : String) : ReadsAs [.name text] [.quoted .double text] :=
  readsAs_single rfl (.name text) rfl

theorem readsAs_word {text : String} (h : isLetters text.toList) :
    ReadsAs (word text) [.word text] := by
  have hw : Whole (.word text) (Piece.raw text).render.toList := by
    simpa [Piece.render] using whole_of_isLetters h
  exact readsAs_single rfl (.bare hw) rfl

theorem readsAs_words {texts : List String} (h : ∀ text ∈ texts, isLetters text.toList) :
    ReadsAs (words texts) (texts.map .word) := by
  induction texts with
  | nil => exact readsAs_nil
  | cons text rest ih =>
    rw [forall_mem_cons] at h
    exact (readsAs_word h.1).append (ih h.2)

theorem readsAs_symbol {text : String} (h : Whole (.symbol text) text.toList) (hd : text ≠ ".") :
    ReadsAs [.raw text] [.symbol text] := by
  have hw : Whole (.symbol text) (Piece.raw text).render.toList := by simpa [Piece.render] using h
  exact readsAs_single rfl (.bare hw) (by simpa [isDot] using hd)

theorem readsAs_commaSeparated {parts : List Sql} {items : List (List Lexeme)}
    (h : List.Forall₂ ReadsAs parts items) :
    ReadsAs (commaSeparated parts) ([.symbol ","].intercalate items) := by
  have hc : ReadsAs [.raw ","] [.symbol ","] := readsAs_symbol (by decide) (by decide)
  induction h with
  | nil => exact readsAs_nil
  | @cons part item parts items hf hr ih =>
    cases hr with
    | nil => simpa [commaSeparated, separated, intercalate] using hf
    | @cons second next others rest hs hr =>
      have hp : commaSeparated (part :: second :: others) =
          part ++ ([Piece.raw ","] ++ commaSeparated (second :: others)) := by
        simp [commaSeparated, separated, intercalate]
      have hi : [symbol ","].intercalate (item :: next :: rest) =
          item ++ ([symbol ","] ++ [symbol ","].intercalate (next :: rest)) := by
        simp [intercalate]
      rw [hp, hi]
      exact hf.append (hc.append ih)

/-! ### Primary keys -/

/-- A stretch of a definition in which `PRIMARY` stands some times outside parentheses. -/
def Declares (count : Nat) (sql : Sql) : Prop :=
  ∃ ts, sql.ReadsAs ts ∧ isEven .definition 0 ts ∧
    (outer 0 ts).count (.word "PRIMARY") = count

variable {count : Nat}

theorem Declares.even (h : sql.Declares count) : sql.Even .definition := by
  obtain ⟨ts, hr, he, -⟩ := h
  exact ⟨ts, hr.spells, hr.settled, he⟩

theorem Declares.append {countMore : Nat} (h : sql.Declares count) (hm : Declares countMore more) :
    Declares (count + countMore) (sql ++ more) := by
  obtain ⟨ts, hr, hev, rfl⟩ := h
  obtain ⟨others, ho, he, rfl⟩ := hm
  refine ⟨ts ++ others, hr.append ho, isEven_both hev he, ?_⟩
  rw [outer_append hev, count_append]

/-- What can stand in an expression declares no key. -/
theorem Even.declares (h : sql.Even .item) : sql.Declares 0 := by
  obtain ⟨ts, hr, he⟩ := h.exists_readsAs
  exact ⟨ts, hr, isEven_mono rfl he, count_outer_eq_zero (by decide) he⟩

theorem declares_words {texts : List String} (h : ∀ text ∈ texts, isLetters text.toList)
    (hf : ∀ text ∈ texts, (Lexeme.word text).isFlat .definition) :
    Declares (texts.count "PRIMARY") (Sql.words texts) := by
  have ha : ∀ lex ∈ texts.map Lexeme.word, lex.isFlat .definition := by
    simpa using hf
  refine ⟨texts.map .word, readsAs_words h, isEven_of_isFlat ha, ?_⟩
  rw [outer_of_isFlat ha, List.count, countP_map, List.count]
  refine countP_congr fun text _ => ?_
  simp

end Sql

end SqlBridge
