/-
SQLite's rules for quotes, as a machine that reads a text character by character.

Outside quotes a quote of either kind opens a region.  Inside, the same quote closes the region,
unless it comes twice: then it stands for itself and the region goes on.  A scanner keeps the
regions it has closed, decoded, and the text outside them.

* `Scanner.foldl_bare`: text without quotes stays outside.
* `Scanner.foldl_quoted`: a text that is quoted by doubling comes back as it was.
* `isChain_apart_iff`: no comment opens in a text if no two neighbours open one.
-/
import Mathlib.Data.List.Chain
import SqlBridge.Text.Basic

namespace SqlBridge

open List

/-- Between its quotes, a text with its quotes doubled is read as it was: the first of the two
closes the quotes, the second opens them again. -/
theorem Text.foldl_doubled {σ : Type} {step : σ → Char → σ} {quote : Char}
    (inside closing : List Char → σ) (hc : ∀ text, step (inside text) quote = closing text)
    (ho : ∀ text, step (closing text) quote = inside (text ++ [quote]))
    (hi : ∀ text c, c ≠ quote → step (inside text) c = inside (text ++ [c])) (text : List Char) :
    (doubled quote text ++ [quote]).foldl step (inside []) = closing text := by
  have hf (before : List Char) : (doubled quote text ++ [quote]).foldl step (inside before) =
      closing (before ++ text) := by
    induction text generalizing before with
    | nil => simp [doubled, hc]
    | cons c rest ih =>
      by_cases hq : c = quote
      · subst hq
        simp [doubled, hc, ho, ih]
      · simp [doubled, hq, hi, ih]
  exact hf []

inductive Quote where
  | double | single
deriving DecidableEq, Repr

def Quote.char : Quote → Char
  | .double => '"'
  | .single => '\''

/-- Where a scanner is. -/
inductive Scanner.Mode where
  | outside
  | inside (quote : Quote) (region : List Char)
  /-- After a quote that closes the region unless it comes twice. -/
  | closing (quote : Quote) (region : List Char)
deriving DecidableEq, Repr

structure Scanner where
  mode : Scanner.Mode := .outside
  /-- The text outside quotes. -/
  outside : List Char := []
  /-- The regions that were closed, in order, with doubled quotes read as one. -/
  regions : List (Quote × List Char) := []
deriving DecidableEq, Repr

namespace Scanner

variable {scanner : Scanner}

/-- A character outside quotes. -/
def enter (scanner : Scanner) (c : Char) : Scanner :=
  if c = '"' then { scanner with mode := .inside .double [] }
  else if c = '\'' then { scanner with mode := .inside .single [] }
  else { scanner with mode := .outside, outside := scanner.outside ++ [c] }

/-- A region whose closing quote did not come twice is closed. -/
def settle (scanner : Scanner) : Scanner :=
  match scanner.mode with
  | .closing quote region =>
    { mode := .outside, outside := scanner.outside,
      regions := scanner.regions ++ [(quote, region)] }
  | _ => scanner

def step (scanner : Scanner) (c : Char) : Scanner :=
  match scanner.mode with
  | .outside => scanner.enter c
  | .inside quote region =>
    if c = quote.char then { scanner with mode := .closing quote region }
    else { scanner with mode := .inside quote (region ++ [c]) }
  | .closing quote region =>
    if c = quote.char then { scanner with mode := .inside quote (region ++ [c]) }
    else scanner.settle.enter c

/-- What is found in a text. -/
def scan (text : String) : Scanner := (text.toList.foldl step {}).settle

/-- A scanner that has found more. -/
def add (scanner : Scanner) (outside : List Char) (regions : List (Quote × List Char)) : Scanner :=
  { scanner with
    outside := scanner.outside ++ outside
    regions := scanner.regions ++ regions }

@[simp] theorem add_add (scanner : Scanner) (outside outside' : List Char)
    (regions regions' : List (Quote × List Char)) :
    (scanner.add outside regions).add outside' regions' =
      scanner.add (outside ++ outside') (regions ++ regions') := by
  simp [add]

@[simp] theorem add_nil (scanner : Scanner) : scanner.add [] [] = scanner := by
  simp [add]

theorem settle_of_outside (h : scanner.mode = .outside) :
    scanner.settle = scanner := by
  rw [settle, h]

/-! ### Text without quotes -/

def IsBare (text : List Char) : Prop := ∀ c ∈ text, c ≠ '"' ∧ c ≠ '\''

theorem step_bare (h : scanner.mode = .outside) {c : Char}
    (hc : c ≠ '"' ∧ c ≠ '\'') : scanner.step c = scanner.add [c] [] := by
  rw [step, h]
  dsimp only
  rw [enter, if_neg hc.1, if_neg hc.2, ← h]
  simp [add]

theorem foldl_bare (h : scanner.mode = .outside) {text : List Char}
    (hb : IsBare text) : text.foldl step scanner = scanner.add text [] := by
  induction text generalizing scanner with
  | nil => simp
  | cons c rest ih =>
    have hm : (scanner.add [c] []).mode = .outside := h
    rw [foldl_cons, step_bare h (hb c (by simp)),
      ih hm fun d hd => hb d (by simp [hd])]
    simp

/-- Any character but a quote settles what stands before it. -/
theorem step_settle {c : Char} (hc : c ≠ '"' ∧ c ≠ '\'') :
    scanner.step c = scanner.settle.step c := by
  cases hm : scanner.mode with
  | outside => rw [settle_of_outside hm]
  | inside quote region => rw [settle, hm]
  | closing quote region =>
    have ho : c ≠ quote.char := by
      cases quote
      · exact hc.1
      · exact hc.2
    have hs : scanner.settle.mode = .outside := by rw [settle, hm]
    rw [step, hm]
    dsimp only
    rw [if_neg ho, step, hs]

/-! ### Quoted text -/

theorem foldl_region (quote : Quote) (outside : List Char) (regions : List (Quote × List Char))
    (text : List Char) :
    (Text.doubled quote.char text ++ [quote.char]).foldl step
        { mode := .inside quote [], outside, regions } =
      { mode := .closing quote text, outside, regions } :=
  Text.foldl_doubled (fun region => Scanner.mk (.inside quote region) outside regions)
    (fun region => Scanner.mk (.closing quote region) outside regions)
    (by simp [step]) (by simp [step]) (by simp +contextual [step]) text

theorem foldl_quoted (h : scanner.mode = .outside) (quote : Quote) (text : List Char) :
    ((quote.char :: Text.doubled quote.char text ++ [quote.char]).foldl step scanner).settle =
      scanner.add [] [(quote, text)] := by
  have ho : scanner.step quote.char =
      { mode := .inside quote [], outside := scanner.outside, regions := scanner.regions } := by
    rw [step, h]
    cases quote <;> rfl
  rw [cons_append, foldl_cons, ho, foldl_region, settle, add, h, append_nil]

end Scanner

/-! ### Comments -/

/-- Two neighbours that do not open a comment. -/
def Apart (c d : Char) : Prop := ¬ (c = '-' ∧ d = '-') ∧ ¬ (c = '/' ∧ d = '*')

/-- A comment opens where two neighbours open it. -/
theorem isChain_apart_iff {text : List Char} :
    text.IsChain Apart ↔ ¬ ['-', '-'] <:+: text ∧ ¬ ['/', '*'] <:+: text := by
  constructor
  · intro h
    have hp (c d : Char) (ho : [c, d] <:+: text) : Apart c d := by
      obtain ⟨before, after, rfl⟩ := ho
      simpa using h.left_of_append.right_of_append
    exact ⟨fun ho => (hp _ _ ho).1 ⟨rfl, rfl⟩, fun ho => (hp _ _ ho).2 ⟨rfl, rfl⟩⟩
  · rintro ⟨hd, hs⟩
    rw [isChain_iff_forall_rel_of_append_cons_cons]
    rintro c d before after rfl
    constructor
    · rintro ⟨rfl, rfl⟩
      exact hd ⟨before, after, by simp⟩
    · rintro ⟨rfl, rfl⟩
      exact hs ⟨before, after, by simp⟩

/-- A text without dashes and slashes opens no comment. -/
theorem isChain_apart_of_calm {text : List Char} (h : ∀ c ∈ text, c ≠ '-' ∧ c ≠ '/') :
    text.IsChain Apart := by
  induction text with
  | nil => exact .nil
  | cons c rest ih =>
    obtain ⟨hda, hs⟩ := h c (by simp)
    refine (ih fun d hd => h d (by simp [hd])).cons fun d _ => ?_
    exact ⟨fun ho => hda ho.1, fun ho => hs ho.1⟩

end SqlBridge
