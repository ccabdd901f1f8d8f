/-
Patterns of dates are rewritten specifier by specifier.

* `Directive.split`: a pattern of `DATE_FORMAT`, cut from the left into literal characters, pairs of
  a percent sign and a character, and maybe a last percent sign alone.
* `Directive.isAligned`: in a pattern of `STRFTIME`, every percent sign has a specifier after it.
* `datePattern_directives`: what is written for a pattern is written part by part.
-/
import SqlBridge.Scribe.Function

namespace SqlBridge

open List

variable (pattern : List Char)

/-- A part of a pattern. -/
inductive Directive where
  | literal (c : Char)
  /-- A percent sign and the character after it. -/
  | pair (c : Char)
  /-- A percent sign that nothing comes after. -/
  | percent
deriving DecidableEq

namespace Directive

/-- The parts of a pattern, cut from the left. -/
def split : List Char → List Directive
  | [] => []
  | ['%'] => [.percent]
  | '%' :: c :: rest => .pair c :: split rest
  | c :: rest => .literal c :: split rest

/-- The characters of a part. -/
def text : Directive → List Char
  | .literal c => [c]
  | .pair c => ['%', c]
  | .percent => ['%']

/-- The character of a pair that is no specifier. -/
def unknown? : Directive → Option Char
  | .pair c => if (Function.specifiers.lookup c).isNone then some c else none
  | _ => none

/-- What is written for a part. -/
def rewritten : Directive → List Char
  | .literal c => [c]
  | .pair c => ((Function.specifiers.lookup c).map String.toList).getD []
  | .percent => ['%', '%']

/-- Whether every percent sign has a specifier of `STRFTIME` after it. -/
def isAligned : List Char → Bool
  | [] => true
  | ['%'] => false
  | '%' :: c :: rest =>
    ['d', 'H', 'M', 'j', 'm', 'S', 'Y', 'w', 'W', '%'].contains c && isAligned rest
  | _ :: rest => isAligned rest

/-- A character that neither stands alone as a percent sign nor begins a pair. -/
theorem ne_percent {c : Char} {rest : List Char} (hlast : c = '%' → rest = [] → False)
    (hpair : ∀ d others, c = '%' → rest = d :: others → False) : c ≠ '%' := by
  intro hc
  cases rest with
  | nil => exact hlast hc rfl
  | cons d others => exact hpair d others hc rfl

theorem isAligned_append {first second : List Char} (h : isAligned first) :
    isAligned (first ++ second) = isAligned second := by
  fun_induction isAligned first with
  | case1 => rfl
  | case2 => cases h
  | case3 c rest ih =>
    rw [Bool.and_eq_true] at h
    rw [cons_append, cons_append, isAligned, h.1, ih h.2, Bool.true_and]
  | case4 c rest h₁ h₂ ih =>
    have hc := ne_percent h₁ h₂
    rw [cons_append, isAligned, ih h] <;> simp [hc]

/-- A literal or a percent sign, and whatever a specifier stands for. -/
theorem isAligned_rewritten {part : Directive} (h : part ≠ .literal '%') :
    isAligned part.rewritten := by
  have hs : ∀ entry ∈ Function.specifiers, isAligned entry.2.toList := by decide
  cases part with
  | literal c => simp_all [rewritten, isAligned]
  | percent => rfl
  | pair c =>
    rw [rewritten]
    cases hl : Function.specifiers.lookup c with
    | none => rfl
    | some specifier =>
      obtain ⟨before, after, he, -⟩ := lookup_eq_some_iff.1 hl
      exact hs (c, specifier) (by rw [he]; simp)

theorem flatMap_text_split : (split pattern).flatMap text = pattern := by
  fun_induction split pattern with
  | case1 | case2 => rfl
  | case3 c rest ih => simp [text, ih]
  | case4 c rest h₁ h₂ ih => simp [text, ih]

/-- Where no percent sign stands alone, the parts of what follows are cut as if it stood alone. -/
theorem split_append {first : List Char} (h : .percent ∉ split first) (second : List Char) :
    split (first ++ second) = split first ++ split second := by
  fun_induction split first with
  | case1 => rfl
  | case2 => simp at h
  | case3 c rest ih => simp_all [split]
  | case4 c rest h₁ h₂ ih =>
    have hc := ne_percent h₁ h₂
    rw [cons_append, split, ih (by simp_all), cons_append] <;> simp [hc]

theorem isAligned_flatMap_split : isAligned ((split pattern).flatMap rewritten) := by
  fun_induction split pattern with
  | case1 | case2 => rfl
  | case3 c rest ih => rw [flatMap_cons, isAligned_append (isAligned_rewritten (by simp)), ih]
  | case4 c rest h₁ h₂ ih =>
    have hc := ne_percent h₁ h₂
    rw [flatMap_cons, isAligned_append (isAligned_rewritten (by simpa using hc)), ih]

end Directive

open Directive

/-- The first character that is no specifier is refused; else every part is rewritten. -/
theorem Function.datePattern_eq :
    datePattern pattern = match (split pattern).filterMap unknown? with
      | [] => .ok ((split pattern).flatMap rewritten)
      | c :: _ => .error (.unsupported (.formatSpecifier c)) := by
  -- the loop takes the same one or two characters as the cut does
  fun_induction datePattern pattern with
  | case1 => rfl
  | case2 => rfl
  | case3 c rest specifier hs ih =>
    have hu : (pair c).unknown? = none := by simp [unknown?, hs]
    have hr : (pair c).rewritten = specifier.toList := by simp [rewritten, hs]
    rw [split, filterMap_cons_none hu, flatMap_cons, hr, ih]
    split <;> rfl
  | case4 c rest hs =>
    have hu : (pair c).unknown? = some c := by simp [unknown?, hs]
    rw [split, filterMap_cons_some hu]
  | case5 c rest h₁ h₂ ih =>
    rw [split, filterMap_cons_none rfl, ih]
    · split <;> rfl
    all_goals simp [ne_percent h₁ h₂]

/-- **Patterns are rewritten specifier by specifier.**  A pattern is refused exactly if some pair
has a character that is no specifier, and the first of these is named; else the result is what is
written for the parts, one after the other, and every percent sign in it has a specifier after it.
A pattern that does not end in a percent sign alone is rewritten apart from what comes after it. -/
theorem Function.datePattern_directives (pattern : List Char) :
    (split pattern).flatMap text = pattern ∧
    (∀ error, datePattern pattern = .error error ↔ ∃ c,
      ((split pattern).filterMap unknown?).head? = some c ∧
        error = .unsupported (.formatSpecifier c)) ∧
    (∀ result, datePattern pattern = .ok result ↔
      (split pattern).filterMap unknown? = [] ∧ result = (split pattern).flatMap rewritten) ∧
    (∀ result, datePattern pattern = .ok result → isAligned result = true) ∧
    (.percent ∉ split pattern → ∀ more, datePattern (pattern ++ more) = do
      return (← datePattern pattern) ++ (← datePattern more)) := by
  refine ⟨flatMap_text_split pattern, fun error => ?_, fun result => ?_, fun result h => ?_,
    fun hp more => ?_⟩
  · rw [datePattern_eq]
    cases (split pattern).filterMap unknown? with
    | nil => simp
    | cons c rest => simpa using eq_comm
  · rw [datePattern_eq]
    cases (split pattern).filterMap unknown? with
    | nil => simpa using eq_comm
    | cons c rest => simp
  · rw [datePattern_eq] at h
    split at h
    · cases h
      exact isAligned_flatMap_split pattern
    · cases h
  · rw [datePattern_eq, split_append hp, filterMap_append, flatMap_append, datePattern_eq pattern,
      datePattern_eq more]
    cases (split pattern).filterMap unknown? with
    | cons c rest => rfl
    | nil =>
      rw [nil_append]
      split <;> rfl

end SqlBridge
