/-
The word that a statement begins with.

SQLite tells statements apart by their first word.  `dataWords` are those of the statements that
work on the contents of a database and leave its transactions alone; a stretch of SQL that begins
with one of them (`Sql.Headed`) is written so (`Sql.Headed.isData_render`).
-/
import SqlBridge.Proofs.Sql.Glue

namespace SqlBridge

open List

namespace Text

/-- The letters that a text begins with. -/
def firstWord (text : String) : String := String.ofList (text.toList.takeWhile Char.isAlpha)

/-- A word is the first if no letter follows it. -/
theorem firstWord_append {word tail : String} (hw : word.toList.all Char.isAlpha)
    (ht : tail.toList.head?.all (!·.isAlpha)) : firstWord (word ++ tail) = word := by
  have hs : tail.toList.takeWhile Char.isAlpha = [] := by
    cases hl : tail.toList with
    | nil => rfl
    | cons c rest =>
      rw [hl] at ht
      simp at ht
      simp [ht]
  have hw' : ∀ c ∈ word.toList, c.isAlpha := by simpa using hw
  rw [firstWord, String.toList_append, takeWhile_append_of_pos hw', hs]
  simp

/-- What comes after the first word does not matter to it. -/
theorem firstWord_append_of_stop {text more : String}
    (hs : text.toList.any (!·.isAlpha)) : firstWord (text ++ more) = firstWord text := by
  have hsh : (text.toList.takeWhile Char.isAlpha).length ≠ text.toList.length := by
    intro hl
    have ha := all_takeWhile (p := Char.isAlpha) (l := text.toList)
    rw [( takeWhile_prefix _).eq_of_length hl] at ha
    simp only [all_eq_true, any_eq_true, Bool.not_eq_true'] at ha hs
    obtain ⟨c, hc, hn⟩ := hs
    rw [ha c hc] at hn
    cases hn
  rw [firstWord, firstWord, String.toList_append, takeWhile_append, if_neg hsh]

end Text

/-- The first words of the statements that work on the contents of a database. -/
def dataWords : List String :=
  ["SELECT", "INSERT", "REPLACE", "UPDATE", "DELETE", "CREATE", "ALTER", "DROP", "PRAGMA"]

/-- Whether a text is a statement that works on the contents of a database. -/
def IsData (text : String) : Prop := Text.firstWord text ∈ dataWords

instance (text : String) : Decidable (IsData text) :=
  inferInstanceAs (Decidable (Text.firstWord text ∈ dataWords))

theorem isAlpha_of_mem_dataWords {word : String} (h : word ∈ dataWords) :
    word.toList.all Char.isAlpha := by
  have ha : ∀ word ∈ dataWords, word.toList.all Char.isAlpha := by decide +kernel
  exact ha word h

/-- A data word in front of something that does not go on with a letter. -/
theorem isData_append {word tail : String} (hw : word ∈ dataWords)
    (ht : tail.toList.head?.all (!·.isAlpha)) : IsData (word ++ tail) := by
  rw [IsData, Text.firstWord_append (isAlpha_of_mem_dataWords hw) ht]
  exact hw

/-- A text with a data word and what comes after it. -/
def BeginsData (text : String) : Prop := IsData text ∧ text.toList.any (!·.isAlpha)

instance (text : String) : Decidable (BeginsData text) := inferInstanceAs (Decidable (_ ∧ _))

theorem BeginsData.append {text : String} (h : BeginsData text) (more : String) :
    BeginsData (text ++ more) := by
  obtain ⟨hd, hs⟩ := h
  refine ⟨?_, ?_⟩
  · rw [IsData, Text.firstWord_append_of_stop hs]
    exact hd
  · rw [String.toList_append, any_append, hs]
    rfl

namespace Sql

/-- A stretch of SQL that begins with a data word. -/
def Headed (sql : Sql) : Prop := ∃ word ∈ dataWords, ∃ rest, sql = .raw word :: rest

theorem Headed.append {sql : Sql} (h : sql.Headed) (others : Sql) : Headed (sql ++ others) := by
  obtain ⟨word, hw, rest, rfl⟩ := h
  exact ⟨word, hw, rest ++ others, rfl⟩

theorem glue_of_mem_dataWords {word : String} (h : word ∈ dataWords) :
    (Piece.raw word).glue ≠ .open ∧ (Piece.raw word).glue ≠ .dot := by
  have ha : ∀ word ∈ dataWords,
      (Piece.raw word).glue ≠ .open ∧ (Piece.raw word).glue ≠ .dot := by decide +kernel
  exact ha word h

/-- What begins with a data word is written with it as its first word. -/
theorem Headed.isData_render {sql : Sql} (h : sql.Headed) : IsData sql.render := by
  obtain ⟨word, hw, rest, rfl⟩ := h
  have hr : render (.raw word :: rest) =
      word ++ Piece.renderAfter (some (Piece.raw word).glue) rest := by
    simp [render, Piece.renderAfter, Piece.spacedAfter, Piece.render]
  rw [hr]
  refine isData_append hw ?_
  cases rest with
  | nil => simp [Piece.renderAfter]
  | cons piece rest =>
    rw [Piece.renderAfter, Piece.spacedAfter]
    cases hs : (Piece.raw word).glue.spaced piece.glue with
    | true => simp
    | false =>
      obtain ⟨c, hc, tail, ht⟩ := Piece.render_of_unspaced (glue_of_mem_dataWords hw) hs
      rw [ht]
      simp at hc ⊢
      rcases hc with rfl | rfl | rfl | rfl <;> decide

end Sql

end SqlBridge
