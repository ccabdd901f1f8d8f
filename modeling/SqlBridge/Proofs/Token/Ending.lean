/-
The ending is the last token of a text, and no other token is an ending.
-/
import SqlBridge.Token.Scan

namespace SqlBridge.Token

open List

variable {found : Kind × Nat} {text : List Char}

/-! ### No character begins an ending -/

theorem quotedLexeme?_kind {quote : Char} {escapes : Bool} {kind : Kind} {rest : List Char}
    (h : quotedLexeme? quote escapes kind rest = some found) : found.1 = kind := by
  obtain ⟨_, -, rfl⟩ := Option.map_eq_some_iff.1 h
  rfl

theorem symbolLexeme?_kind (h : symbolLexeme? text = some found) : found.1 ≠ .ending := by
  obtain ⟨_, -, rfl⟩ := Option.map_eq_some_iff.1 h
  simp

theorem userVariable?_kind {rest : List Char}
    (h : userVariable? rest = some found) : found.1 ≠ .ending := by
  unfold userVariable? at h
  split at h
  · obtain ⟨_, -, rfl⟩ := Option.map_eq_some_iff.1 h
    simp
  · split at h
    · cases h
      simp
    · cases h

theorem word_kind (text : List Char) : (word text).1 ≠ .ending := by
  unfold word
  dsimp only
  split <;> simp

theorem number?_kind (h : number? text = some found) :
    found.1 ≠ .ending := by
  unfold number? at h
  repeat' split at h
  all_goals cases h
  all_goals simp

/-- A digit begins a number, or else a word. -/
theorem number?_getD_kind (text : List Char) : ((number? text).getD (word text)).1 ≠ .ending := by
  cases hn : number? text with
  | none =>
    rw [Option.getD_none]
    exact word_kind text
  | some number =>
    rw [Option.getD_some]
    exact number?_kind hn

theorem lexeme?_kind (h : lexeme? text = some found) :
    found.1 ≠ .ending := by
  unfold lexeme? at h
  split at h
  · cases h
  · simp [quotedLexeme?_kind h]
  · simp [quotedLexeme?_kind h]
  · simp [quotedLexeme?_kind h]
  · cases h
    simp
  · exact symbolLexeme?_kind h
  · exact userVariable?_kind h
  · split at h
    · obtain rfl := Option.some.inj h
      exact number?_getD_kind _
    · split at h
      · obtain rfl := Option.some.inj h
        exact word_kind _
      · exact symbolLexeme?_kind h

/-! ### Texts -/

/-- What holds of the ending alone, and is kept by one more lexeme, holds of the tokens of a
text. -/
theorem of_scan {P : List Token → Prop} (he : ∀ pos, P [⟨.ending, "", pos⟩])
    (hl : ∀ {text kind length} (pos : Nat) {ts : List Token}, lexeme? text = some (kind, length) →
      P ts → P (⟨kind, String.ofList (text.take length), pos⟩ :: ts))
    {pos skip : Nat} {ts : List Token} (h : scan pos skip text = .ok ts) : P ts := by
  induction text generalizing pos skip ts with
  | nil =>
    cases h
    exact he pos
  | cons c rest ih =>
    unfold scan at h
    split at h
    · exact ih h
    · split at h
      · exact ih h
      · split at h
        · rename_i kind length hx
          cases hr : scan (pos + c.utf8Size) (length - 1) rest with
          | error error =>
            rw [hr] at h
            cases h
          | ok others =>
            rw [hr] at h
            cases h
            exact hl pos hx (ih hr)
        · cases h

/-- A row of tokens with one ending, at its end. -/
def EndsOnce (tokens : List Token) : Prop :=
  ∃ before ending, tokens = before ++ [ending] ∧ ending.isEnding ∧
    ∀ token ∈ before, token.isEnding = false

theorem endsOnce_scan {pos skip : Nat} {ts : List Token}
    (h : scan pos skip text = .ok ts) : EndsOnce ts := by
  refine of_scan (fun _ => ⟨[], _, rfl, rfl, by simp⟩) ?_ h
  rintro _ _ _ _ _ hl ⟨before, ending, rfl, he, hb⟩
  refine ⟨_ :: before, ending, rfl, he, ?_⟩
  rw [forall_mem_cons]
  exact ⟨by simpa [isEnding] using lexeme?_kind hl, hb⟩

end SqlBridge.Token
