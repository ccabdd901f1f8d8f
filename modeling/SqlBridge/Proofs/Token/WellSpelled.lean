/-
The tokens of a text are spelled as their kinds say.

* `Token.WellSpelled`: a number can be written as it stands, and a keyword is the one that it
  spells.
* `Token.wellSpelled_of_ofText`: so it is for every token of a text.
-/
import SqlBridge.Proofs.Sql.Quoting
import SqlBridge.Proofs.Token.Ending

namespace SqlBridge

open List

variable {text : List Char}

/-! ### Numbers -/

namespace Sql

/-- The characters before an exponent. -/
def IsMantissaChar (c : Char) : Prop := c.isDigit ∨ c = '.'

theorem IsMantissaChar.ne {c : Char} (h : IsMantissaChar c) {other : Char}
    (hd : other.isDigit = false) (hp : other ≠ '.') : c ≠ other := by
  rintro rfl
  rcases h with h | h
  · rw [hd] at h
    cases h
  · exact hp h

/-- Digits are taken up to a point. -/
theorem takeWhile_digits {digits : List Char} (h : ∀ c ∈ digits, c.isDigit) (rest : List Char) :
    (digits ++ rest).takeWhile (· != '.') = digits ++ rest.takeWhile (· != '.') := by
  refine takeWhile_append_of_pos fun c hc => ?_
  have hd := h c hc
  rw [bne_iff_ne]
  rintro rfl
  exact absurd hd (by decide)

theorem isMantissa_digits {digits : List Char} (h : ∀ c ∈ digits, c.isDigit) (hne : digits ≠ []) :
    isMantissa digits := by
  have hw : digits.takeWhile (· != '.') = digits := by simpa using takeWhile_digits h []
  simp only [isMantissa, hw, drop_length, drop_nil, Bool.and_eq_true, all_eq_true]
  exact ⟨⟨h, by simp⟩, by simp [hne]⟩

theorem isMantissa_decimal {whole fraction : List Char} (h : ∀ c ∈ whole, c.isDigit)
    (hne : whole ≠ []) (hf : ∀ c ∈ fraction, c.isDigit) :
    isMantissa (whole ++ '.' :: fraction) := by
  have hw : (whole ++ '.' :: fraction).takeWhile (· != '.') = whole := by
    simp [takeWhile_digits h]
  simp only [isMantissa, hw, drop_left, drop_succ_cons, drop_zero,
    Bool.and_eq_true, all_eq_true]
  exact ⟨⟨h, hf⟩, by simp [hne]⟩

/-- Digits after a sign, or without one. -/
theorem isExponent_digits {sign digits : List Char} (hs : sign = [] ∨ sign = ['+'] ∨ sign = ['-'])
    (h : ∀ c ∈ digits, c.isDigit) (hne : digits ≠ []) : isExponent (sign ++ digits) := by
  have hd : !digits.isEmpty && digits.all Char.isDigit := by
    simpa [hne] using h
  rcases hs with rfl | rfl | rfl
  · cases digits with
    | nil => exact absurd rfl hne
    | cons first rest =>
      have hf := h first (by simp)
      unfold isExponent
      split
      · rename_i heq
        obtain ⟨rfl, -⟩ := cons.inj heq
        exact absurd hf (by decide)
      · rename_i heq
        obtain ⟨rfl, -⟩ := cons.inj heq
        exact absurd hf (by decide)
      · exact hd
  · exact hd
  · exact hd

/-- A mantissa, maybe with an exponent, is a number. -/
theorem isNumber_of_isMantissa {mantissa rest : List Char} (h : isMantissa mantissa)
    (hch : ∀ c ∈ mantissa, IsMantissaChar c)
    (hr : rest = [] ∨ ∃ e exponent, (e = 'e' ∨ e = 'E') ∧ isExponent exponent ∧
      rest = e :: exponent) :
    isNumber (mantissa ++ rest) := by
  have hx {x : Char} (hx : x = 'x' ∨ x = 'X') (digits : List Char) :
      mantissa ++ rest ≠ '0' :: x :: digits := by
    intro heq
    cases mantissa with
    | nil => cases h
    | cons first others =>
      cases others with
      | nil =>
        rcases hr with rfl | ⟨e, exponent, he, -, rfl⟩
        · simp at heq
        · obtain ⟨-, rfl, -⟩ : first = '0' ∧ e = x ∧ exponent = digits := by simpa using heq
          rcases hx with rfl | rfl <;> simp at he
      | cons second others =>
        obtain ⟨-, rfl, -⟩ : first = '0' ∧ second = x ∧ others ++ rest = digits := by
          simpa using heq
        have hs := hch second (by simp)
        rcases hx with rfl | rfl
        · exact absurd rfl (hs.ne (by decide) (by decide))
        · exact absurd rfl (hs.ne (by decide) (by decide))
  have ht : (mantissa ++ rest).takeWhile (fun c => c != 'e' && c != 'E') = mantissa := by
    rw [takeWhile_append_of_pos]
    · rcases hr with rfl | ⟨e, exponent, rfl | rfl, -, rfl⟩ <;> simp
    · intro c hc
      have hl : c ≠ 'e' := (hch c hc).ne (by decide) (by decide)
      have hu : c ≠ 'E' := (hch c hc).ne (by decide) (by decide)
      simp [hl, hu]
  unfold isNumber
  split
  · rename_i digits heq
    exact absurd heq (hx (.inl rfl) digits)
  · rename_i digits heq
    exact absurd heq (hx (.inr rfl) digits)
  · dsimp only
    rw [ht, drop_left]
    rcases hr with rfl | ⟨e, exponent, -, hex, rfl⟩
    · exact h
    · simp [h, hex]

end Sql

namespace Token

open Sql

/-- The digits at the head of a text. -/
theorem exists_digits (text : List Char) :
    ∃ digits rest, text = digits ++ rest ∧ digitsLength text = digits.length ∧
      (∀ c ∈ digits, c.isDigit) := by
  refine ⟨text.takeWhile Char.isDigit, text.dropWhile Char.isDigit,
    takeWhile_append_dropWhile.symm, rfl, fun c hc => ?_⟩
  exact all_eq_true.1 all_takeWhile c hc

theorem isNumber_hexLength (h : 0 < hexLength text) : isNumber (text.take (hexLength text)) := by
  unfold hexLength at h ⊢
  split at h
  · rename_i x rest
    dsimp only at h ⊢
    split at h
    · rename_i hx
      rw [if_pos hx]
      obtain ⟨hx, hd⟩ := Bool.and_eq_true_iff.1 hx
      have ht :
          rest.take (rest.takeWhile Text.isHexDigit).length = rest.takeWhile Text.isHexDigit :=
        (prefix_iff_eq_take.1 ( takeWhile_prefix _)).symm
      have hne : (rest.takeWhile Text.isHexDigit).isEmpty = false := by
        simpa [length_pos_iff] using hd
      rw [take_succ_cons, take_succ_cons, ht]
      rcases Bool.or_eq_true_iff.1 hx with hx | hx
      · rw [eq_of_beq hx]
        simp [isNumber, hne]
      · rw [eq_of_beq hx]
        simp [isNumber, hne]
    · cases h
  · cases h

/-- Digits with a point after them, and maybe more digits. -/
theorem exists_decimal (h : 0 < decimalLength text) :
    ∃ whole fraction rest, text = whole ++ '.' :: fraction ++ rest ∧
      decimalLength text = (whole ++ '.' :: fraction).length ∧ whole ≠ [] ∧
      (∀ c ∈ whole, c.isDigit) ∧ ∀ c ∈ fraction, c.isDigit := by
  obtain ⟨whole, rest, ht, hl, hw⟩ := exists_digits text
  have hd : decimalLength text = decimalLength text := rfl
  nth_rewrite 2 [decimalLength] at hd
  rw [hl] at hd
  nth_rewrite 2 [ht] at hd
  rw [drop_left] at hd
  split at hd
  · rename_i fraction
    obtain ⟨digits, rest, rfl, hl', hdi⟩ := exists_digits fraction
    split at hd
    · rename_i hp
      refine ⟨whole, digits, rest, by simp [ht], ?_, length_pos_iff.1 hp, hw, hdi⟩
      rw [hd, hl', length_append, length_cons]
      exact Nat.add_right_comm ..
    · omega
  · omega

theorem exists_exponent (h : 0 < exponentLength text) :
    ∃ e exponent rest, text = e :: exponent ++ rest ∧ exponentLength text = (e :: exponent).length ∧
      (e = 'e' ∨ e = 'E') ∧ isExponent exponent := by
  cases text with
  | nil => cases h
  | cons e after =>
    obtain ⟨sign, body, ha, hsi, hl⟩ : ∃ sign body, after = sign ++ body ∧
        (sign = [] ∨ sign = ['+'] ∨ sign = ['-']) ∧
        exponentLength (e :: after) = if e == 'e' || e == 'E' then
          if 0 < digitsLength body then 1 + sign.length + digitsLength body else 0 else 0 := by
      cases after with
      | nil => exact ⟨[], [], rfl, .inl rfl, rfl⟩
      | cons s rest =>
        by_cases hs : (s == '+' || s == '-')
        · refine ⟨[s], rest, rfl, .inr ?_, by simp [exponentLength, hs]⟩
          simpa using hs
        · exact ⟨[], s :: rest, rfl, .inl rfl, by simp [exponentLength, hs]⟩
    rw [hl] at h ⊢
    split at h
    · rename_i he
      split at h
      · rename_i hd
        rw [if_pos he, if_pos hd]
        obtain ⟨digits, rest, rfl, hl', hal⟩ := exists_digits body
        refine ⟨e, sign ++ digits, rest, by simp [ha], ?_, by simpa using he, ?_⟩
        · rw [hl', length_cons, length_append]
          omega
        · exact isExponent_digits hsi hal (length_pos_iff.1 (hl' ▸ hd))
      · cases h
    · cases h

/-- What is taken as a number without an exponent. -/
theorem exists_mantissa {length : Nat} (hp : 0 < length)
    (h : length = decimalLength text ∨ length = digitsLength text) :
    ∃ mantissa rest, text = mantissa ++ rest ∧ length = mantissa.length ∧ isMantissa mantissa ∧
      ∀ c ∈ mantissa, IsMantissaChar c := by
  rcases h with rfl | rfl
  · obtain ⟨whole, fraction, rest, ht, hl, hne, hw, hf⟩ := exists_decimal hp
    refine ⟨_, rest, ht, hl, isMantissa_decimal hw hne hf, fun c hc => ?_⟩
    rcases mem_append.1 hc with hc | hc
    · exact .inl (hw c hc)
    · rcases mem_cons.1 hc with rfl | hc
      · exact .inr rfl
      · exact .inl (hf c hc)
  · obtain ⟨digits, rest, ht, hl, hd⟩ := exists_digits text
    refine ⟨digits, rest, ht, hl, isMantissa_digits hd ?_, fun c hc => .inl (hd c hc)⟩
    rintro rfl
    simp [hl] at hp

theorem isNumber_floatLength (h : 0 < floatLength text) :
    isNumber (text.take (floatLength text)) := by
  obtain ⟨length, hl, hf⟩ : ∃ length,
      (length = decimalLength text ∨ length = digitsLength text) ∧
      floatLength text = if 0 < length && 0 < exponentLength (text.drop length) then
        length + exponentLength (text.drop length) else 0 := by
    by_cases hd : 0 < decimalLength text
    · exact ⟨_, .inl rfl, by simp [floatLength, hd]⟩
    · exact ⟨_, .inr rfl, by simp [floatLength, hd]⟩
  rw [hf] at h ⊢
  split at h
  · rename_i hb
    rw [if_pos hb]
    obtain ⟨hp, hex⟩ : 0 < length ∧ 0 < exponentLength (text.drop length) := by
      simpa using hb
    obtain ⟨mantissa, rest, rfl, rfl, hm, hc⟩ := exists_mantissa hp hl
    rw [drop_left] at hex ⊢
    obtain ⟨e, exponent, after, rfl, hl', he, hex⟩ := exists_exponent hex
    rw [hl', take_length_add_append, take_left]
    exact isNumber_of_isMantissa hm hc (.inr ⟨e, exponent, he, hex, rfl⟩)
  · cases h

/-- **What is read as a number can be written as one.** -/
theorem isNumber_of_number? {kind : Kind} {length : Nat}
    (h : number? text = some (kind, length)) : isNumber (text.take length) := by
  have hp {length : Nat} (h : endsWord text length) : 0 < length := by
    simpa using (Bool.and_eq_true_iff.1 h).1
  unfold number? at h
  split at h
  · rename_i he
    cases h
    exact isNumber_hexLength (hp he)
  · split at h
    · rename_i he
      cases h
      exact isNumber_floatLength (hp he)
    · have hm {length : Nat} (he : endsWord text length)
          (h : length = decimalLength text ∨ length = digitsLength text) :
          isNumber (text.take length) := by
        obtain ⟨mantissa, rest, ht, hl, hm, hc⟩ := exists_mantissa (hp he) h
        rw [ht, hl, take_left]
        simpa using isNumber_of_isMantissa hm hc (.inl rfl)
      split at h
      · rename_i he
        cases h
        exact hm he (.inl rfl)
      · split at h
        · rename_i he
          cases h
          exact hm he (.inr rfl)
        · cases h

/-! ### Texts -/

/-- A token is spelled as its kind says. -/
structure WellSpelled (token : Token) : Prop where
  number : token.kind.isNumber → isNumber token.value.toList
  keyword : ∀ keyword, token.kind = .keyword keyword → Keyword.ofWord? token.value = some keyword

/-- The spelling of a token that is neither a number nor a keyword does not matter. -/
theorem wellSpelled_other {kind : Kind} (hn : kind.isNumber = false)
    (hk : ∀ keyword, kind ≠ .keyword keyword) (value : String) (pos : Nat) :
    WellSpelled ⟨kind, value, pos⟩ :=
  ⟨fun h => absurd h (by simpa using hn), fun keyword h => absurd h (hk keyword)⟩

theorem wellSpelled_word (text : List Char) (pos : Nat) :
    WellSpelled ⟨(word text).1, String.ofList (text.take (word text).2), pos⟩ := by
  unfold word
  dsimp only
  split
  · rename_i keyword hk
    refine ⟨by simp [Kind.isNumber], fun other ho => ?_⟩
    cases ho
    exact hk
  · exact wellSpelled_other rfl (by simp) _ _

theorem wellSpelled_number {found : Kind × Nat} (h : number? text = some found)
    (pos : Nat) : WellSpelled ⟨found.1, String.ofList (text.take found.2), pos⟩ := by
  have hk : ∀ keyword, found.1 ≠ .keyword keyword := by
    unfold number? at h
    repeat' split at h
    all_goals cases h
    all_goals simp
  exact ⟨fun _ => by simpa using isNumber_of_number? h, fun keyword h => absurd h (hk keyword)⟩

/-- A digit begins a number, or else a word. -/
theorem wellSpelled_digit (text : List Char) (pos : Nat) :
    WellSpelled ⟨((number? text).getD (word text)).1,
      String.ofList (text.take ((number? text).getD (word text)).2), pos⟩ := by
  cases hn : number? text with
  | none =>
    rw [Option.getD_none]
    exact wellSpelled_word text pos
  | some number =>
    rw [Option.getD_some]
    exact wellSpelled_number hn pos

theorem wellSpelled_lexeme {found : Kind × Nat} (h : lexeme? text = some found)
    (pos : Nat) : WellSpelled ⟨found.1, String.ofList (text.take found.2), pos⟩ := by
  have quoted {quote : Char} {escapes : Bool} {kind : Kind} {rest : List Char}
      (hk : kind.isNumber = false ∧ ∀ keyword, kind ≠ .keyword keyword)
      (h : quotedLexeme? quote escapes kind rest = some found) :
      WellSpelled ⟨found.1, String.ofList (text.take found.2), pos⟩ := by
    obtain ⟨_, -, rfl⟩ := Option.map_eq_some_iff.1 h
    exact wellSpelled_other hk.1 hk.2 _ _
  have symbol (h : symbolLexeme? text = some found) :
      WellSpelled ⟨found.1, String.ofList (text.take found.2), pos⟩ := by
    obtain ⟨_, -, rfl⟩ := Option.map_eq_some_iff.1 h
    exact wellSpelled_other rfl (by simp) _ _
  have named {rest : List Char} (h : userVariable? rest = some found) :
      WellSpelled ⟨found.1, String.ofList (text.take found.2), pos⟩ := by
    have hk : found.1 = .userVariable := by
      unfold userVariable? at h
      split at h
      · obtain ⟨_, -, rfl⟩ := Option.map_eq_some_iff.1 h
        rfl
      · split at h
        · cases h
          rfl
        · cases h
    rw [hk]
    exact wellSpelled_other rfl (by simp) _ _
  unfold lexeme? at h
  split at h
  · cases h
  · exact quoted ⟨rfl, by simp⟩ h
  · exact quoted ⟨rfl, by simp⟩ h
  · exact quoted ⟨rfl, by simp⟩ h
  · cases h
    exact wellSpelled_other rfl (by simp) _ _
  · exact symbol h
  · exact named h
  · split at h
    · obtain rfl := Option.some.inj h
      exact wellSpelled_digit _ pos
    · split at h
      · obtain rfl := Option.some.inj h
        exact wellSpelled_word _ pos
      · exact symbol h

/-- **Every token of a text is spelled as its kind says.** -/
theorem wellSpelled_of_ofText {text : String} {ts : List Token} (h : ofText text = .ok ts) :
    ∀ token ∈ ts, token.WellSpelled := by
  refine of_scan (P := fun ts => ∀ token ∈ ts, token.WellSpelled) ?_ ?_ h
  · exact fun _ => forall_mem_singleton.2 (wellSpelled_other rfl (by simp) _ _)
  · exact fun pos _ hl hts => forall_mem_cons.2 ⟨wellSpelled_lexeme hl pos, hts⟩

end Token

end SqlBridge
