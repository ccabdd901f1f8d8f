/-
Lower case and the parts of a text.

The lower case of a text keeps a plain ending as it is (`lowercase_append_inj`), and texts that
differ only in the case of ASCII letters have the same lower case
(`lowercase_eq_of_equalsIgnoringCase`). What a character becomes depends on its neighbours only for
a capital sigma, and there only on whether they are cased or case-ignorable.
-/
import Mathlib.Data.List.Forall2
import SqlBridge.Text.Basic
import SqlBridge.Text.Lowercase

namespace SqlBridge.Text

open List

/-! ### Endings -/

/-- The number of characters that a text becomes. -/
def lowerLength (text : List Char) : Nat := text.length + text.count 'İ'

/-- The lower case of a beginning has a length that does not depend on what follows. -/
theorem lowerAfter_append (before text ending : List Char) :
    ∃ lowered, lowered.length = lowerLength text ∧
      lowerAfter before (text ++ ending) = lowered ++
        lowerAfter (text.reverse ++ before) ending := by
  induction text generalizing before with
  | nil => exact ⟨[], rfl, rfl⟩
  | cons c rest ih =>
    obtain ⟨lowered, hl, hr⟩ := ih (c :: before)
    have hb : (c :: rest).reverse ++ before = rest.reverse ++ c :: before := by simp
    rw [cons_append, lowerAfter, hr, hb]
    refine ⟨_, ?_, (append_assoc _ _ _).symm⟩
    rw [length_append, hl, lowerLength, lowerLength, count_cons, length_cons]
    by_cases hs : c = 'Σ'
    · subst hs
      simp
      omega
    · by_cases hd : c = 'İ'
      · subst hd
        simp
        omega
      · simp [hs, hd]
        omega

/-- Characters that lower case keeps. -/
def IsLow (c : Char) : Prop := c ≠ 'Σ' ∧ c ≠ 'İ' ∧ lowerChar c = c

theorem lowerAfter_of_isLow {before text : List Char} (h : ∀ c ∈ text, IsLow c) :
    lowerAfter before text = text := by
  induction text generalizing before with
  | nil => rfl
  | cons c rest ih =>
    rw [forall_mem_cons] at h
    obtain ⟨⟨hs, hd, hl⟩, hr⟩ := h
    rw [lowerAfter, ih hr]
    simp [hs, hd, hl]

/-- Two texts with one beginning and plain endings have the same lower case only if the endings are
the same. -/
theorem lowercase_append_inj {text ending ending' : String} (h : ∀ c ∈ ending.toList, IsLow c)
    (h' : ∀ c ∈ ending'.toList, IsLow c)
    (heq : lowercase (text ++ ending) = lowercase (text ++ ending')) : ending = ending' := by
  have hli := congrArg String.toList heq
  simp only [lowercase, String.toList_ofList, String.toList_append] at hli
  obtain ⟨lowered, hl, hf⟩ := lowerAfter_append [] text.toList ending.toList
  obtain ⟨lowered', hl', hs⟩ := lowerAfter_append [] text.toList ending'.toList
  rw [hf, hs, lowerAfter_of_isLow h, lowerAfter_of_isLow h'] at hli
  exact String.toList_injective (append_inj hli (hl.trans hl'.symm)).2

theorem isLow_of_isDigit {c : Char} (h : c.isDigit) : IsLow c := by
  simp only [Char.isDigit, Bool.and_eq_true, decide_eq_true_eq] at h
  have hm : c.toNat ≤ 57 := UInt32.le_iff_toNat_le.1 h.2
  have hl : c.toLower = c := by
    refine dif_neg fun hu => ?_
    have : 65 ≤ c.toNat := UInt32.le_iff_toNat_le.1 hu.1
    omega
  refine ⟨?_, ?_, by rw [lowerChar, if_pos (by omega), hl]⟩
  · rintro rfl
    exact absurd hm (by decide)
  · rintro rfl
    exact absurd hm (by decide)

/-! ### ASCII letters -/

def IsLetter (c : Char) : Prop := (65 ≤ c.toNat ∧ c.toNat ≤ 90) ∨ (97 ≤ c.toNat ∧ c.toNat ≤ 122)

theorem toNat_toUpper (c : Char) :
    c.toUpper.toNat = if 97 ≤ c.toNat ∧ c.toNat ≤ 122 then c.toNat - 32 else c.toNat := by
  have hc : ('a'.val ≤ c.val ∧ c.val ≤ 'z'.val) ↔ 97 ≤ c.toNat ∧ c.toNat ≤ 122 := by
    rw [UInt32.le_iff_toNat_le, UInt32.le_iff_toNat_le]
    rfl
  by_cases h : 'a'.val ≤ c.val ∧ c.val ≤ 'z'.val
  · have hs : (c.val + ('A'.val - 'a'.val)).toNat = (c.toNat + 4294967264) % 4294967296 := by
      rw [UInt32.toNat_add]
      rfl
    have := hc.1 h
    have hu : c.toUpper = ⟨c.val + ('A'.val - 'a'.val), _⟩ := dif_pos h
    rw [if_pos this, hu]
    show (c.val + ('A'.val - 'a'.val)).toNat = _
    omega
  · have hu : c.toUpper = c := dif_neg h
    rw [if_neg (mt hc.2 h), hu]

theorem toNat_toLower (c : Char) :
    c.toLower.toNat = if 65 ≤ c.toNat ∧ c.toNat ≤ 90 then c.toNat + 32 else c.toNat := by
  have hc : (c.val ≥ 'A'.val ∧ c.val ≤ 'Z'.val) ↔ 65 ≤ c.toNat ∧ c.toNat ≤ 90 := by
    rw [ge_iff_le, UInt32.le_iff_toNat_le, UInt32.le_iff_toNat_le]
    rfl
  by_cases h : c.val ≥ 'A'.val ∧ c.val ≤ 'Z'.val
  · have hs : (c.val + ('a'.val - 'A'.val)).toNat = (c.toNat + 32) % 4294967296 := by
      rw [UInt32.toNat_add]
      rfl
    have := hc.1 h
    have hl : c.toLower = ⟨c.val + ('a'.val - 'A'.val), _⟩ := dif_pos h
    rw [if_pos this, hl]
    show (c.val + ('a'.val - 'A'.val)).toNat = _
    omega
  · have hl : c.toLower = c := dif_neg h
    rw [if_neg (mt hc.2 h), hl]

/-- Two characters that differ at most in the case of an ASCII letter. -/
def Alike (c d : Char) : Prop := c = d ∨ (IsLetter c ∧ IsLetter d ∧ c.toLower = d.toLower)

theorem alike_of_toUpper_eq {c d : Char} (h : c.toUpper = d.toUpper) : Alike c d := by
  have hn := congrArg Char.toNat h
  rw [toNat_toUpper, toNat_toUpper] at hn
  by_cases heq : c.toNat = d.toNat
  · exact .inl (Char.toNat_inj.1 heq)
  · refine .inr ⟨?_, ?_, Char.toNat_inj.1 ?_⟩
    · unfold IsLetter
      split at hn <;> split at hn <;> omega
    · unfold IsLetter
      split at hn <;> split at hn <;> omega
    · rw [toNat_toLower, toNat_toLower]
      split at hn <;> split at hn <;> split <;> split <;> omega

/-- What holds of all code points of letters holds of letters. -/
theorem forall_isLetter {p : Nat → Prop}
    (h : ∀ n < 123, (65 ≤ n ∧ n ≤ 90) ∨ (97 ≤ n ∧ n ≤ 122) → p n) {c : Char} (hc : IsLetter c) :
    p c.toNat := by
  refine h _ ?_ hc
  unfold IsLetter at hc
  omega

/-- Letters are cased and not case-ignorable. -/
theorem cased_of_isLetter {c : Char} : IsLetter c → casedCharacters.contains c :=
  forall_isLetter (p := (casedCharacters.holds false ·)) (by decide +kernel)

theorem not_caseIgnorable_of_isLetter {c : Char} :
    IsLetter c → caseIgnorableCharacters.contains c = false :=
  forall_isLetter (p := (caseIgnorableCharacters.holds false · = false)) (by decide +kernel)

/-- What comes next is cased alike. -/
theorem casedFirst_eq_of_alike {text text' : List Char} (h : List.Forall₂ Alike text text') :
    casedFirst text = casedFirst text' := by
  induction h with
  | nil => rfl
  | @cons c d rest rest' hcd hr ih =>
    rcases hcd with rfl | ⟨hc, hd, -⟩
    · unfold casedFirst at ih ⊢
      by_cases hi : caseIgnorableCharacters.contains c
      · rwa [dropWhile_cons_of_pos hi, dropWhile_cons_of_pos hi]
      · rw [dropWhile_cons_of_neg hi, dropWhile_cons_of_neg hi]
    · unfold casedFirst
      rw [dropWhile_cons_of_neg (by simp [not_caseIgnorable_of_isLetter hc]),
        dropWhile_cons_of_neg (by simp [not_caseIgnorable_of_isLetter hd])]
      show casedCharacters.contains c = casedCharacters.contains d
      rw [cased_of_isLetter hc, cased_of_isLetter hd]

theorem lowerAfter_eq_of_alike {before before' text text' : List Char}
    (hb : List.Forall₂ Alike before before') (h : List.Forall₂ Alike text text') :
    lowerAfter before text = lowerAfter before' text' := by
  induction h generalizing before before' with
  | nil => rfl
  | @cons c d rest rest' hcd hr ih =>
    rw [lowerAfter, lowerAfter, ih (.cons hcd hb), casedFirst_eq_of_alike hb,
      casedFirst_eq_of_alike hr]
    rcases hcd with rfl | ⟨hc, hd, hl⟩
    · rfl
    · have ha {e : Char} (he : IsLetter e) : e.toNat < 128 := by
        unfold IsLetter at he
        omega
      have hp {e : Char} (he : IsLetter e) : (e == 'Σ') = false ∧ (e == 'İ') = false := by
        constructor
        · refine beq_false_of_ne fun heq => ?_
          subst heq
          exact absurd (ha he) (by decide)
        · refine beq_false_of_ne fun heq => ?_
          subst heq
          exact absurd (ha he) (by decide)
      simp only [(hp hc).1, (hp hc).2, (hp hd).1, (hp hd).2, lowerChar,
        if_pos (ha hc), if_pos (ha hd), hl]

/-- Texts that are the same but for the case of ASCII letters have the same lower case. -/
theorem lowercase_eq_of_equalsIgnoringCase {a b : String} (h : equalsIgnoringCase a b) :
    lowercase a = lowercase b := by
  have hu : a.toList.map Char.toUpper = b.toList.map Char.toUpper := by
    have hl := congrArg String.toList (beq_iff_eq.1 h)
    simpa [asciiUpper] using hl
  have ha : List.Forall₂ Alike a.toList b.toList := by
    generalize a.toList = text at hu
    generalize b.toList = text' at hu
    induction text generalizing text' with
    | nil =>
      cases text' with
      | nil => exact .nil
      | cons d rest => cases hu
    | cons c rest ih =>
      cases text' with
      | nil => cases hu
      | cons d rest' =>
        rw [map_cons, map_cons] at hu
        obtain ⟨hcd, hr⟩ := cons.inj hu
        exact .cons (alike_of_toUpper_eq hcd) (ih rest' hr)
  rw [lowercase, lowercase, lowerAfter_eq_of_alike .nil ha]

end SqlBridge.Text
