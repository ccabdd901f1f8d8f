/-
What the counterparts of the functions on texts mean.

A formula is a stretch of SQLite with its meaning: `Formula.sql` gives the pieces, `Formula.value`
the value.  A position in a text counts from 1, and `window` is the part of a text between two
positions, whether these lie in the text or not.

* `left_right_meaning`: `LEFT` and `RIGHT` mean what they mean in MySQL.
* `substring_meaning_iff`: `SUBSTRING` does, but for a start before the first character.
* `locate_meaning_iff`: `LOCATE` does from a position in the text on.
* `Tree.write_textCall`: the counterparts are what calls are written as.
-/
import SqlBridge.Proofs.Scribe.Composed
import SqlBridge.Proofs.Scribe.Definition

namespace SqlBridge

open Sql List

/-! ### Texts -/

namespace Text

/-- The characters from one position on and before another. -/
def window (text : List Char) (first last : Int) : List Char :=
  (text.take (last - 1).toNat).drop (first - 1).toNat

/-- The position that a start stands for: a negative one counts from the end. -/
def positionOf (text : List Char) (start : Int) : Int :=
  if start < 0 then text.length + start + 1 else start

/-- `SUBSTR` of SQLite.  A negative length takes the characters before the start. -/
def substr (text : List Char) (start : Int) : Option Int → List Char
  | none => text.drop (positionOf text start - 1).toNat
  | some length =>
    let place := positionOf text start
    if 0 ≤ length then window text place (place + length) else window text (place + length) place

/-- `INSTR` of SQLite: the position of the first occurrence, 0 if there is none. -/
def instr (part : List Char) : List Char → Nat
  | [] => if part = [] then 1 else 0
  | c :: rest =>
    if part <+: c :: rest then 1 else if instr part rest = 0 then 0 else instr part rest + 1

theorem substr_one (text : List Char) (n : Int) : substr text 1 (some n) = text.take n.toNat := by
  have hp : positionOf text 1 = 1 := rfl
  simp only [substr, hp, window]
  split
  next hn =>
    have he : (1 + n - 1).toNat = n.toNat := by omega
    simp [he]
  next hn =>
    have he : n.toNat = 0 := by omega
    simp [he]

theorem substr_neg {text : List Char} {n : Int} (h : 1 ≤ n) :
    substr text (-n) none = text.drop (text.length - n.toNat) := by
  have hn : -n < 0 := by omega
  simp only [substr, positionOf, if_pos hn]
  congr 1
  omega

/-- The first occurrence, where there is one. -/
theorem instr_cases (part text : List Char) :
    (instr part text = 0 ∧ ∀ k ≤ text.length, ¬ part <+: text.drop k) ∨
      ∃ k ≤ text.length, instr part text = k + 1 ∧ part <+: text.drop k ∧
        ∀ j < k, ¬ part <+: text.drop j := by
  induction text with
  | nil => by_cases h : part = [] <;> simp [instr, h]
  | cons c rest ih =>
    by_cases hp : part <+: c :: rest
    · exact .inr ⟨0, by simp, by simp [instr, hp], hp, by simp⟩
    · rcases ih with ⟨h0, hn⟩ | ⟨k, hk, hf, ho, hm⟩
      · refine .inl ⟨by simp [instr, hp, h0], fun k hk => ?_⟩
        cases k with
        | zero => exact hp
        | succ k => exact hn k (by simpa using hk)
      · refine .inr ⟨k + 1, by simpa using hk, by simp [instr, hp, hf], ho, fun j hj => ?_⟩
        cases j with
        | zero => exact hp
        | succ j => exact hm j (by omega)

theorem infix_iff_drop {part text : List Char} :
    part <:+: text ↔ ∃ k ≤ text.length, part <+: text.drop k := by
  rw [infix_iff_prefix_suffix]
  constructor
  · rintro ⟨tail, hp, hs⟩
    rw [suffix_iff_eq_drop.1 hs] at hp
    exact ⟨_, by omega, hp⟩
  · rintro ⟨k, -, hp⟩
    exact ⟨_, hp, drop_suffix k text⟩

end Text

/-! ### Formulas -/

/-- A stretch of SQLite with its value.  There is none where the least integer is negated, which
gives no integer. -/
structure Formula (α : Type) where
  sql : Sql
  value : Option α

namespace Formula

/-- An argument, as it is written, and its value. -/
@[simp] def argument {α : Type} (sql : Sql) (value : α) : Formula α := ⟨sql, some value⟩

@[simp] def text (value : String) : Formula (List Char) := ⟨[.string value], some value.toList⟩

@[simp] def integer (value : Int) : Formula Int := ⟨[.integer value], some value⟩

@[simp] def group (inside : Formula Int) : Formula Int := ⟨[.group inside.sql], inside.value⟩

@[simp] def minus (x : Formula Int) : Formula Int :=
  ⟨.raw "-" :: x.sql, x.value.bind fun n => if n = Int64.minValue.toInt then none else some (-n)⟩

/-- An operator between two formulas. -/
@[simp] def between {α β γ : Type} (operator : String) (f : α → β → γ) (x : Formula α)
    (y : Formula β) : Formula γ :=
  ⟨x.sql ++ .raw operator :: y.sql, do return f (← x.value) (← y.value)⟩

/-- The texts that `||` joins; a number is one by its digits. -/
@[simp] def shown (number : Formula Int) : Formula (List Char) :=
  ⟨number.sql, number.value.map fun n => (toString n).toList⟩

/-- A call with its arguments. -/
def called (name : String) (arguments : List Sql) : Sql :=
  .raw name :: .raw "(" :: commaSeparated arguments ++ [Piece.raw ")"]

section Counterparts

variable (whole part needle haystack : Formula (List Char)) (start length : Formula Int)

@[simp] def substrFrom : Formula (List Char) :=
  ⟨called "SUBSTR" [whole.sql, start.sql],
    do return Text.substr (← whole.value) (← start.value) none⟩

@[simp] def substr : Formula (List Char) :=
  ⟨called "SUBSTR" [whole.sql, start.sql, length.sql], do
    return Text.substr (← whole.value) (← start.value) (some (← length.value))⟩

@[simp] def instr : Formula Int :=
  ⟨called "INSTR" [whole.sql, part.sql], do return Text.instr (← part.value) (← whole.value)⟩

/-- Only the part of a `CASE` that is chosen is evaluated. -/
@[simp] def cases {α : Type} (test : Formula Bool) (yes no : Formula α) : Formula α :=
  ⟨.raw "CASE" :: .raw "WHEN" :: test.sql ++ .raw "THEN" :: yes.sql ++ .raw "ELSE" :: no.sql ++
    [Piece.raw "END"], test.value.bind fun holds => if holds then yes.value else no.value⟩

@[simp] def isZero (x : Formula Int) : Formula Bool :=
  between "=" (fun a b => decide (a = b)) x (integer 0)

@[simp] def isLow (x : Formula Int) : Formula Bool :=
  between "<" (fun a b => decide (a < b)) x (integer 1)

def left : Formula (List Char) := substr whole (integer 1) length

def right : Formula (List Char) :=
  cases (isLow (group length)) (text "") (substrFrom whole (minus (group length)))

def substringFrom : Formula (List Char) :=
  cases (isZero (group start)) (text "") (substrFrom whole start)

def substring : Formula (List Char) :=
  cases (between "OR" or (isZero (group start)) (isLow (group length))) (text "")
    (substr whole start length)

def locateFrom : Formula Int :=
  let found := instr (substrFrom haystack start) needle
  cases (between ">" (fun a b => decide (a > b)) found (integer 0))
    (between "-" (· - ·) (between "+" (· + ·) found start) (integer 1)) (integer 0)

end Counterparts

theorem call_eq {name : String} {args : List Sql} (h : (name, args.length) ∈
    [("SUBSTR", 2), ("SUBSTR", 3), ("INSTR", 2), ("DATETIME", 2)]) :
    call name args = .ok (called name args) := by
  have ha : ∀ entry ∈ [("SUBSTR", 2), ("SUBSTR", 3), ("INSTR", 2), ("DATETIME", 2)],
      Text.asciiUpper entry.1 = entry.1 ∧
        (sqliteFunctions.lookup entry.1).any (·.admits entry.2) := by decide +kernel
  obtain ⟨hu, hl⟩ := ha _ h
  obtain ⟨arity, hs, hd⟩ := (Option.any_eq_true _ _).1 hl
  rw [call, hu, hs]
  simp [hd, called]

/-- What is written for the functions on texts is what the formulas are written as. -/
theorem sql_counterparts (text needle : Formula (List Char)) (start length : Formula Int) :
    Function.left text.sql length.sql = .ok (left text length).sql ∧
    Function.right text.sql length.sql = .ok (right text length).sql ∧
    Function.substringFrom text.sql start.sql = .ok (substringFrom text start).sql ∧
    Function.substring text.sql start.sql length.sql = .ok (substring text start length).sql ∧
    Function.locateFrom needle.sql text.sql start.sql = .ok (locateFrom needle text start).sql := by
  refine ⟨?_, ?_, ?_, ?_, ?_⟩ <;>
    simp [Function.left, Function.right, Function.substringFrom, Function.substring,
      Function.locateFrom, Function.emptyWhen, call_eq, left, right, substringFrom, substring,
      locateFrom, words, word, bind, Except.bind, pure, Except.pure]

theorem counterpart_texts (x y z : Sql) :
    Function.counterpart "LEFT" [x, y] = Function.left x y ∧
    Function.counterpart "RIGHT" [x, y] = Function.right x y ∧
    Function.counterpart "LOCATE" [x, y, z] = Function.locateFrom x y z ∧
    ∀ name ∈ ["SUBSTRING", "SUBSTR", "MID"],
      Function.counterpart name [x, y] = Function.substringFrom x y ∧
      Function.counterpart name [x, y, z] = Function.substring x y z := by
  have hn : ∀ name ∈ ["LEFT", "RIGHT", "LOCATE", "SUBSTRING", "SUBSTR", "MID"],
      (name == "ATAN") = false ∧ (name == "LOG") = false ∧ Function.shared.contains name = false ∧
        Function.renamed.lookup name = none := by decide +kernel
  have hc {name : String} (h : name ∈ ["LEFT", "RIGHT", "LOCATE", "SUBSTRING", "SUBSTR", "MID"])
      (args : List Sql) : Function.counterpart name args = Function.composed name args := by
    obtain ⟨ha, hl, hs, hr⟩ := hn name h
    rw [Function.counterpart, ha, hl, hs, hr]
    rfl
  refine ⟨hc (by simp) _, hc (by simp) _, hc (by simp) _, ?_⟩
  simp only [mem_cons, not_mem_nil, or_false, forall_eq_or_imp, forall_eq]
  refine ⟨⟨hc (by simp) _, hc (by simp) _⟩, ⟨hc (by simp) _, hc (by simp) _⟩, hc (by simp) _,
    hc (by simp) _⟩

/-! ### Parts of texts -/

theorem eval_right (text length : Sql) (chars : List Char) (n : Int) :
    (right (argument text chars) (argument length n)).value =
      some (chars.drop (chars.length - n.toNat)) := by
  by_cases hn : n < 1
  · have hz : n.toNat = 0 := by omega
    simp [right, hn, hz]
  · have hm : n ≠ -9223372036854775808 := by omega
    simp [right, hn, hm, Text.substr_neg (by omega : 1 ≤ n)]

/-- **`LEFT` and `RIGHT` give the first and the last characters of a text**, as many as are asked
for, and none for a number below 1.  The number is not negated where that would be no integer. -/
theorem left_right_meaning (text length : Sql) (chars : List Char) (n : Int64) :
    let left := Formula.left (argument text chars) (argument length n.toInt)
    let right := Formula.right (argument text chars) (argument length n.toInt)
    Function.counterpart "LEFT" [text, length] = .ok left.sql ∧
    Function.counterpart "RIGHT" [text, length] = .ok right.sql ∧
    left.value = some (chars.take n.toInt.toNat) ∧
    right.value = some (chars.drop (chars.length - n.toInt.toNat)) := by
  intro left right
  have hw := sql_counterparts (argument text chars) (argument text chars)
    (argument length n.toInt) (argument length n.toInt)
  obtain ⟨hl, hr, -⟩ := counterpart_texts text length length
  exact ⟨hl.trans hw.1, hr.trans hw.2.1, congrArg some (Text.substr_one chars _),
    eval_right _ _ _ _⟩

/-- `SUBSTRING` of MySQL. -/
def substringOf (text : List Char) (start : Int) (length : Option Int) : List Char :=
  if start = 0 ∨ (text.length : Int) < start ∨ start < -text.length ∨ length.any (· < 1) then []
  else match length with
    | none => text.drop (Text.positionOf text start - 1).toNat
    | some length => (text.drop (Text.positionOf text start - 1).toNat).take length.toNat

theorem substr_none_eq_iff (text : List Char) (p : Int) :
    (if p = 0 then [] else Text.substr text p none) = substringOf text p none ↔
      -text.length ≤ p ∨ text = [] := by
  simp only [Text.substr, substringOf, Option.any_none, Bool.false_eq_true, or_false]
  by_cases hp : p < -text.length
  · have h0 : p ≠ 0 := by omega
    have hb : (Text.positionOf text p - 1).toNat = 0 := by
      simp only [Text.positionOf]
      split <;> omega
    rw [if_neg h0, if_pos (by simp [hp]), hb, drop_zero]
    simp [Int.not_le.2 hp]
  · refine iff_of_true ?_ (.inl (by omega))
    by_cases h0 : p = 0
    · simp [h0]
    · rw [if_neg h0]
      split
      · have hl : (text.length : Int) < p := by omega
        rw [drop_eq_nil_iff, Text.positionOf]
        split <;> omega
      · rfl

theorem substr_some_eq_iff (text : List Char) (p n : Int) :
    (if p = 0 ∨ n < 1 then [] else Text.substr text p (some n)) = substringOf text p (some n) ↔
      -text.length ≤ p ∨ text = [] ∨ text.length + p + n ≤ 0 := by
  simp only [Text.substr, substringOf, Option.any_some, decide_eq_true_eq]
  by_cases hn : n < 1
  · simp only [hn, or_true, if_true, true_iff]
    omega
  by_cases h0 : p = 0
  · simp [h0]
  have hl : 0 ≤ n := by omega
  rw [if_neg (by simp [h0, hn]), if_pos hl, Text.window]
  by_cases hp : p < -text.length
  · -- the window reaches over the first character
    have hb : (Text.positionOf text p - 1).toNat = 0 ∧
        (Text.positionOf text p + n - 1).toNat = (text.length + p + n).toNat := by
      simp only [Text.positionOf]
      split <;> omega
    have hz : (text.length + p + n).toNat = 0 ↔ text.length + p + n ≤ 0 := by omega
    rw [if_pos (by simp [hp]), hb.1, hb.2, drop_zero, take_eq_nil_iff, hz]
    simp [Int.not_le.2 hp, or_comm]
  · refine iff_of_true ?_ (.inl (by omega))
    have hb : 1 ≤ Text.positionOf text p := by
      simp only [Text.positionOf]
      split <;> omega
    rw [drop_take]
    split
    · have hl : (text.length : Int) < p := by omega
      rw [take_eq_nil_iff, drop_eq_nil_iff]
      refine .inr ?_
      simp only [Text.positionOf]
      split <;> omega
    · congr 1
      omega

/-- **`SUBSTRING` gives what it gives in MySQL, but for a start before the first character** that a
window from there reaches over. -/
theorem substring_meaning_iff (text start length : Sql) (chars : List Char) (p n : Int) :
    let suffix := substringFrom (argument text chars) (argument start p)
    let part := substring (argument text chars) (argument start p) (argument length n)
    (∀ name ∈ ["SUBSTRING", "SUBSTR", "MID"],
      Function.counterpart name [text, start] = .ok suffix.sql ∧
      Function.counterpart name [text, start, length] = .ok part.sql) ∧
    (suffix.value = some (substringOf chars p none) ↔ -chars.length ≤ p ∨ chars = []) ∧
    (part.value = some (substringOf chars p (some n)) ↔
      -chars.length ≤ p ∨ chars = [] ∨ chars.length + p + n ≤ 0) := by
  intro suffix part
  have hw := sql_counterparts (argument text chars) (argument text chars) (argument start p)
    (argument length n)
  refine ⟨fun name hn => ?_, ?_, ?_⟩
  · obtain ⟨-, -, -, hc⟩ := counterpart_texts text start length
    exact ⟨(hc name hn).1.trans hw.2.2.1, (hc name hn).2.trans hw.2.2.2.1⟩
  · have he : suffix.value = some (if p = 0 then [] else Text.substr chars p none) := by
      by_cases hp : p = 0 <;> simp [suffix, substringFrom, hp]
    rw [he, Option.some.injEq]
    exact substr_none_eq_iff chars p
  · have he : part.value = some (if p = 0 ∨ n < 1 then [] else Text.substr chars p (some n)) := by
      by_cases hp : p = 0 <;> by_cases hn : n < 1 <;>
        simp [part, substring, hp, hn]
    rw [he, Option.some.injEq]
    exact substr_some_eq_iff chars p n

/-- The characters before the first one are not counted. -/
theorem substring_before_first :
    (substringFrom (argument [.string "abc"] "abc".toList) (argument [.integer (-5)] (-5))).value =
      some "abc".toList ∧ substringOf "abc".toList (-5) none = [] := by
  decide

/-! ### Searching -/

/-- A part stands in a text at a position, maybe the one after its end. -/
def OccursAt (part text : List Char) (place : Int) : Prop :=
  1 ≤ place ∧ place ≤ text.length + 1 ∧ part <+: text.drop (place - 1).toNat

/-- `LOCATE` of MySQL: the first position from `start` on, 0 if there is none. -/
def Locates (part text : List Char) (start place : Int) : Prop :=
  (1 ≤ start ∧ start ≤ place ∧ OccursAt part text place ∧
      ∀ other, start ≤ other → other < place → ¬ OccursAt part text other) ∨
    (place = 0 ∧ (start < 1 ∨ ∀ other, start ≤ other → ¬ OccursAt part text other))

theorem eval_locateFrom (needle haystack start : Sql) (part text : List Char) (p : Int) :
    (locateFrom (argument needle part) (argument haystack text) (argument start p)).value =
      let found := Text.instr part (Text.substr text p none)
      some (if found = 0 then 0 else found + p - 1 : Int) := by
  by_cases h : Text.instr part (Text.substr text p none) = 0
  · simp [locateFrom, h]
  · have hp : 0 < Text.instr part (Text.substr text p none) := by omega
    simp [locateFrom, h, hp]

theorem locates_iff_of_pos {part text : List Char} {p : Int} (hp : 1 ≤ p) :
    let found := Text.instr part (Text.substr text p none)
    Locates part text p (if found = 0 then 0 else found + p - 1) ↔
      p ≤ text.length + 1 ∨ part ≠ [] := by
  intro found
  have hs : Text.substr text p none = text.drop (p - 1).toNat := by
    simp [Text.substr, Text.positionOf, Int.not_lt.2 (by omega : 0 ≤ p)]
  have hd {place : Int} (h : p ≤ place) : text.drop (place - 1).toNat =
      (Text.substr text p none).drop (place - p).toNat := by
    rw [hs, drop_drop]
    congr 1
    omega
  have hl : (Text.substr text p none).length = text.length - (p - 1).toNat := by
    rw [hs, length_drop]
  rcases Text.instr_cases part (Text.substr text p none) with ⟨h0, hn⟩ | ⟨k, hk, hf, ho, hm⟩
  · have he : part ≠ [] := by
      rintro rfl
      exact hn 0 (by omega) nil_prefix
    rw [if_pos h0]
    refine iff_of_true (.inr ⟨rfl, .inr fun other hot ⟨_, hle, hpre⟩ => ?_⟩) (.inr he)
    rw [hd hot] at hpre
    exact hn _ (by omega) hpre
  · have hf' : found = k + 1 := hf
    rw [if_neg (by omega), hf']
    have hplace : (k + 1 : Nat) + p - 1 = k + p := by omega
    rw [hplace]
    by_cases hin : p ≤ text.length + 1
    · refine iff_of_true (.inl ⟨hp, by omega, ⟨by omega, by omega, ?_⟩, ?_⟩) (.inl hin)
      · rw [hd (by omega)]
        simpa using ho
      · rintro other hot hlt ⟨-, -, hpre⟩
        rw [hd hot] at hpre
        exact hm _ (by omega) hpre
    · -- only the empty text occurs after the end
      have hz : part = [] := by
        rw [hs, drop_drop, drop_eq_nil_of_le (by omega)] at ho
        exact prefix_nil.1 ho
      refine iff_of_false ?_ (by simp [hz, hin])
      rintro (⟨-, -, ⟨-, hle, -⟩, -⟩ | ⟨h, -⟩) <;> omega

theorem locates_iff_of_not_pos {part text : List Char} {p : Int} (hp : p < 1) :
    let found := Text.instr part (Text.substr text p none)
    Locates part text p (if found = 0 then 0 else found + p - 1) ↔
      ¬ part <:+: Text.substr text p none ∨ (p = 0 ∧ part <+: text) := by
  intro found
  have hl (place : Int) : Locates part text p place ↔ place = 0 := by
    simp only [Locates, hp, true_or, and_true, or_iff_right_iff_imp]
    omega
  rw [hl, Text.infix_iff_drop]
  rcases Text.instr_cases part (Text.substr text p none) with ⟨h0, hn⟩ | ⟨k, hk, hf, ho, hm⟩
  · rw [if_pos h0]
    exact iff_of_true rfl (.inl fun ⟨k, hk, h⟩ => hn k hk h)
  · have hf' : found = k + 1 := hf
    have hi : ∃ k, k ≤ (Text.substr text p none).length ∧
        part <+: (Text.substr text p none).drop k := ⟨k, hk, ho⟩
    rw [if_neg (by omega), hf']
    simp only [hi, not_true_eq_false, false_or]
    by_cases h0 : p = 0
    · have hs : Text.substr text p none = text := by simp [h0, Text.substr, Text.positionOf]
      rw [hs] at ho hm
      subst h0
      refine ⟨fun h => ⟨rfl, ?_⟩, fun h => ?_⟩
      · obtain rfl : k = 0 := by omega
        exact ho
      · have hz : ¬ 0 < k := fun hlt => hm 0 hlt h.2
        omega
    · refine iff_of_false (fun h => ?_) (by simp [h0])
      have hs : Text.substr text p none = text.drop (text.length + p).toNat := by
        have hneg : p < 0 := by omega
        simp only [Text.substr, Text.positionOf, if_pos hneg]
        congr 1
        omega
      rw [hs] at hk ho hm
      rw [length_drop] at hk
      -- the whole of what is counted from the end lies before the occurrence
      rw [drop_drop, drop_eq_nil_of_le (by omega), prefix_nil] at ho
      subst ho
      exact hm 0 (by omega) nil_prefix

/-- **`LOCATE` gives what it gives in MySQL** from a position in the text on.  From one after it, it
finds the empty text, and from one before the first it counts from the end, or from the position
before the first. -/
theorem locate_meaning_iff (needle haystack start : Sql) (part text : List Char) (p : Int) :
    let formula := locateFrom (argument needle part) (argument haystack text) (argument start p)
    Function.counterpart "LOCATE" [needle, haystack, start] = .ok formula.sql ∧
    ∃ place, formula.value = some place ∧
      (Locates part text p place ↔ if 1 ≤ p then p ≤ text.length + 1 ∨ part ≠ []
        else ¬ part <:+: Text.substr text p none ∨ (p = 0 ∧ part <+: text)) := by
  intro formula
  have hw := sql_counterparts (argument haystack text) (argument needle part) (argument start p)
    (argument start p)
  obtain ⟨-, -, hc, -⟩ := counterpart_texts needle haystack start
  refine ⟨hc.trans hw.2.2.2.2, _, eval_locateFrom _ _ _ _ _ _, ?_⟩
  by_cases hp : 1 ≤ p
  · rw [if_pos hp]
    exact locates_iff_of_pos hp
  · rw [if_neg hp]
    exact locates_iff_of_not_pos (by omega)

/-- An occurrence is found from the position before the first on. -/
theorem locate_before_first :
    (locateFrom (argument [.string "b"] "b".toList) (argument [.string "abc"] "abc".toList)
      (argument [.integer 0] 0)).value = some (1 : Int) ∧ Locates "b".toList "abc".toList 0 0 := by
  exact ⟨by decide, .inr ⟨rfl, .inl (by decide)⟩⟩

end Formula

/-! ### Calls -/

theorem Draft.firstNode?_ofTree (db : String) (tree : Tree) :
    (ofTree db tree).branch.firstNode? = tree.firstNode?.map (ofTree db) := by
  rw [branch_ofTree, Branch.firstNode?, find?_map, Tree.firstNode?]
  simp [Function.comp_def]

namespace Tree

variable {tree : Tree}

/-- The arguments of a call, in order. -/
def arguments (tree : Tree) : List Tree :=
  match tree.child? .udfExprList with
  | some list => (list.childrenBy .udfExpr).filterMap firstNode?
  | none => []

theorem arguments_ofTree (db : String) (tree : Tree) :
    (Draft.ofTree db tree).branch.arguments = tree.arguments.map (Draft.ofTree db) := by
  rw [Branch.arguments, Draft.child?_ofTree, arguments]
  cases tree.child? .udfExprList with
  | none => rfl
  | some list =>
    dsimp only [Option.map_some]
    rw [Draft.childrenBy_ofTree, filterMap_map, map_filterMap]
    exact filterMap_congr fun part _ => Draft.firstNode?_ofTree db part

theorem write_of_isCall (h : tree.isCall) (db : String) :
    tree.write db = some <$> (Draft.ofTree db tree).branch.functionCall db := by
  rcases Bool.or_eq_true_iff.1 h with h | h
  all_goals
    obtain ⟨row, rfl⟩ := exists_of_hasRule h
    rfl

/-- **A call of one of the functions on texts** is written as the counterpart of the function for
what its arguments are written as. -/
theorem write_textCall (h : tree.isCall)
    (hn : tree.functionName ∈ ["LEFT", "RIGHT", "SUBSTRING", "SUBSTR", "MID", "LOCATE"])
    (db : String) :
    tree.write db = some <$> (do
      Function.counterpart tree.functionName
        (← Draft.requiredAll (tree.arguments.map (Draft.ofTree db)))) := by
  have hp : tree.functionName ∈ Branch.plainNames := by
    revert hn
    simp only [Branch.plainNames, mem_cons, not_mem_nil, or_false]
    tauto
  rw [write_of_isCall h, Branch.functionCall_of_name (by simp [Draft.branch]) hp, arguments_ofTree]

end Tree

end SqlBridge
