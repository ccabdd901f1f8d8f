/-
Where no space is written.

Two pieces stand side by side only at punctuation: `Glue.spaced_eq_false` lists the cases, and
`Piece.render_of_spelling` says that punctuation is written as itself.
-/
import SqlBridge.Sql.Piece

namespace SqlBridge

variable {piece : Piece}

namespace Glue

/-- The text of punctuation. -/
def spelling? : Glue → Option String
  | .open => some "("
  | .close => some ")"
  | .comma => some ","
  | .dot => some "."
  | .function | .group | .word => none

theorem eq_of_spelling_ofText {text spelling : String}
    (h : (ofText text).spelling? = some spelling) : text = spelling := by
  unfold ofText at h
  split at h
  case h_5 => cases h
  all_goals exact Option.some.inj h

theorem ofText_ne_group (text : String) : ofText text ≠ .group := by
  unfold ofText
  split <;> simp

/-- What stands on either side where there is no space. -/
theorem spaced_eq_false {prev next : Glue} (h : prev.spaced next = false) :
    (prev = .open ∨ prev = .dot) ∨ (next = .close ∨ next = .comma ∨ next = .dot) ∨
      (prev = .function ∧ (next = .open ∨ next = .group)) := by
  cases prev <;> cases next <;> simp [spaced] at h ⊢

end Glue

namespace Piece

/-- Punctuation is written as itself. -/
theorem render_of_spelling {spelling : String}
    (h : piece.glue.spelling? = some spelling) : piece.render = spelling := by
  cases piece with
  | raw text =>
    rw [glue] at h
    split at h
    · simp [Glue.spelling?] at h
    · rw [render]
      exact Glue.eq_of_spelling_ofText h
  | operator text =>
    rw [render]
    exact Glue.eq_of_spelling_ofText h
  | name _ => simp [glue, Glue.spelling?] at h
  | literal _ => simp [glue, Glue.spelling?] at h
  | group _ => simp [glue, Glue.spelling?] at h

/-- Only groups attach as groups. -/
theorem exists_of_glue_eq_group (h : piece.glue = .group) : ∃ inside, piece = .group inside := by
  cases piece with
  | raw text =>
    rw [glue] at h
    split at h
    · cases h
    · exact absurd h (Glue.ofText_ne_group text)
  | operator text => exact absurd h (Glue.ofText_ne_group text)
  | name _ => cases h
  | literal _ => cases h
  | group inside => exact ⟨inside, rfl⟩

/-- What stands without a space after anything but an opening parenthesis or a dot: punctuation, or
a group. -/
theorem punctuation_of_unspaced {prev : Glue}
    (hp : prev ≠ .open ∧ prev ≠ .dot) (h : prev.spaced piece.glue = false) :
    (∃ c ∈ ['(', ')', ',', '.'], piece.glue.spelling? = some (String.ofList [c])) ∨
      ∃ inside, piece = .group inside := by
  rcases Glue.spaced_eq_false h with (ho | hd) | (hc | hco | hd) | ⟨-, hop | hg⟩
  · exact absurd ho hp.1
  · exact absurd hd hp.2
  · exact .inl ⟨')', by simp, by rw [hc]; rfl⟩
  · exact .inl ⟨',', by simp, by rw [hco]; rfl⟩
  · exact .inl ⟨'.', by simp, by rw [hd]; rfl⟩
  · exact .inl ⟨'(', by simp, by rw [hop]; rfl⟩
  · exact .inr (exists_of_glue_eq_group hg)

/-- How its text begins. -/
theorem render_of_unspaced {prev : Glue}
    (hp : prev ≠ .open ∧ prev ≠ .dot) (h : prev.spaced piece.glue = false) :
    ∃ c ∈ ['(', ')', ',', '.'], ∃ tail, piece.render = String.ofList [c] ++ tail := by
  obtain ⟨c, hc, hs⟩ | ⟨inside, rfl⟩ := punctuation_of_unspaced hp h
  · exact ⟨c, hc, "", by rw [render_of_spelling hs, String.append_empty]⟩
  · refine ⟨'(', by simp, renderAfter none inside ++ ")", ?_⟩
    rw [render, String.append_assoc]

end Piece

end SqlBridge
