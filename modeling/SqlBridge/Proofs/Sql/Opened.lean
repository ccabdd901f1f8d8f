/-
Groups and explicit parentheses are written alike.

A stretch of SQL may hold a group, or the two parentheses as words with the pieces between them.
The writer tells its neighbours apart (a group is glued as a group, a parenthesis as one), so that
the texts agree is a fact about `Glue.spaced`.

* `Piece.Opens`: one group, at any depth, is replaced by its parentheses and its pieces.
* `Piece.flatAll_eq_of_opens`: one such step leaves the pieces that a stretch is made of.
* `Sql.render_opened`: no such step changes the text, the steps lead to the stretch without groups,
  and the text depends on that stretch only.
-/
import Mathlib.Logic.Relation
import SqlBridge.Proofs.Sql.Lexeme

namespace SqlBridge

open List Relation

namespace Piece

/-- One group, at any depth, is replaced by two parentheses and what is in it. -/
inductive Opens : List Piece → List Piece → Prop
  | here (before inside after : List Piece) :
      Opens (before ++ group inside :: after)
        (before ++ raw "(" :: (inside ++ raw ")" :: after))
  | within (before after : List Piece) {inside opened : List Piece} (h : Opens inside opened) :
      Opens (before ++ group inside :: after) (before ++ group opened :: after)

variable {pieces opened : List Piece}

/-- A step keeps what is left when all groups are taken apart. -/
theorem flatAll_eq_of_opens (h : Opens pieces opened) : flatAll opened = flatAll pieces := by
  induction h with
  | here before inside after => simp [flatAll_append, flatAll, flat]
  | within before after _ ih => simp [flatAll_append, flatAll, flat, ih]

/-! ### Steps among other pieces -/

theorem Opens.append_left (before : List Piece) (h : Opens pieces opened) :
    Opens (before ++ pieces) (before ++ opened) := by
  cases h with
  | here before' inside after =>
    simp only [← append_assoc before before']
    exact .here _ _ _
  | within before' after h =>
    simp only [← append_assoc before before']
    exact .within _ _ h

theorem Opens.append_right (after : List Piece) (h : Opens pieces opened) :
    Opens (pieces ++ after) (opened ++ after) := by
  cases h with
  | here before inside after' =>
    simp only [append_assoc, cons_append]
    exact .here _ _ _
  | within before after' h =>
    simp only [append_assoc, cons_append]
    exact .within _ _ h

mutual

/-- Steps take a piece apart. -/
theorem opens_flat (piece : Piece) : ReflTransGen Opens [piece] piece.flat := by
  match piece with
  | .raw _ | .name _ | .literal _ | .operator _ => exact .refl
  | .group inside =>
    -- first everything inside, then the group itself
    have hi : ReflTransGen Opens [group inside] [group (flatAll inside)] :=
      (opens_flatAll inside).lift (fun pieces => [group pieces]) fun _ _ h => .within [] [] h
    exact hi.tail (.here [] (flatAll inside) [])

/-- Steps take all groups of a stretch apart. -/
theorem opens_flatAll (pieces : List Piece) : ReflTransGen Opens pieces (flatAll pieces) := by
  match pieces with
  | [] => exact .refl
  | piece :: rest =>
    have hp : ReflTransGen Opens (piece :: rest) (piece.flat ++ rest) :=
      (opens_flat piece).lift (· ++ rest) fun _ _ h => h.append_right rest
    have hr : ReflTransGen Opens (piece.flat ++ rest) (piece.flat ++ flatAll rest) :=
      (opens_flatAll rest).lift (piece.flat ++ ·) fun _ _ h => h.append_left piece.flat
    exact hp.trans hr

end

mutual

theorem group_notMem_flat (piece : Piece) (inside : List Piece) : group inside ∉ piece.flat := by
  match piece with
  | .raw _ | .name _ | .literal _ | .operator _ => simp [flat]
  | .group pieces => simp [flat, group_notMem_flatAll pieces inside]

theorem group_notMem_flatAll (pieces inside : List Piece) : group inside ∉ flatAll pieces := by
  match pieces with
  | [] => simp [flatAll]
  | piece :: rest =>
    rw [flatAll, mem_append, not_or]
    exact ⟨group_notMem_flat piece inside, group_notMem_flatAll rest inside⟩

end

/-- When all groups are taken apart, no step is left. -/
theorem not_opens_flatAll (pieces opened : List Piece) : ¬Opens (flatAll pieces) opened := by
  intro h
  have hg : ∃ inside, group inside ∈ flatAll pieces := by
    generalize flatAll pieces = flattened at h
    cases h with
    | here before inside after => exact ⟨inside, by simp⟩
    | within before after h => exact ⟨_, mem_append_right before mem_cons_self⟩
  obtain ⟨inside, hi⟩ := hg
  exact group_notMem_flatAll pieces inside hi

end Piece

namespace Sql

open Piece

/-- A stretch is written as its pieces are when all groups are taken apart. -/
theorem render_flatAll (sql : Sql) : render (flatAll sql) = sql.render := by
  simpa [render] using renderAfter_flatAll sql none []

/-- Groups and explicit parentheses are written alike: to replace a group, at any depth and between
any pieces, by its parentheses and its pieces leaves the text.  Such steps end at the stretch
without groups, so the text depends on that stretch only. -/
theorem render_opened (sql : Sql) :
    (∀ opened : Sql, Opens sql opened → opened.render = sql.render) ∧
      ReflTransGen Opens sql (flatAll sql) ∧ (∀ opened, ¬Opens (flatAll sql) opened) ∧
      ∀ other : Sql, flatAll other = flatAll sql → other.render = sql.render := by
  have hflat : ∀ other : Sql, flatAll other = flatAll sql → other.render = sql.render := by
    intro other h
    rw [← render_flatAll other, h, render_flatAll]
  refine ⟨fun opened h => hflat opened (flatAll_eq_of_opens h), opens_flatAll sql,
    not_opens_flatAll sql, hflat⟩

/-- An empty group after a function, and one that holds another between a dot and a comma. -/
example : render [.raw "PI", .group [], .raw ".", .group [.group [.name "a"]], .raw ","] =
    render [.raw "PI", .raw "(", .raw ")", .raw ".", .raw "(", .group [.name "a"], .raw ")",
      .raw ","] := by decide

end Sql

end SqlBridge
