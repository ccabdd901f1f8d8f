/-
Compound selects: what they stand for in MySQL and in SQLite.

Queries that are united make a tree in MySQL, where parentheses group.  SQLite has no parentheses
around the members of a compound select: it takes them one after the other, from the left.  Both
give a bag of rows for every choice of a bag for each `SELECT`.

* `Compound.bag`: the rows of a tree of unions.
* `unite`: the rows of a chain of unions.
* `Compound.bag_eq_flat_iff`: a tree and the chain of its members have the same rows for all bags
  just if the tree keeps its groups in the sense of `Compound.Keeps`.
* `Chain.ofLexemes?`: the compound select that SQLite reads in some tokens.
-/
import Mathlib.Data.Multiset.Dedup
import SqlBridge.Proofs.Sql.Items

namespace SqlBridge

open List

/-- What stands between two queries that are united. -/
inductive UnionKind where
  /-- `UNION` -/
  | plain
  /-- `UNION DISTINCT` -/
  | distinct
  /-- `UNION ALL` -/
  | all
deriving DecidableEq

/-- Queries that are united, with `SELECT`s at the leaves. -/
inductive Compound (α : Type) where
  | select (query : α)
  | union (kind : UnionKind) (left right : Compound α)

variable {α ρ : Type}

namespace UnionKind

def isAll : UnionKind → Bool
  | .all => true
  | .plain | .distinct => false

/-- The rows of a union: duplicates stay only if it says so. -/
def combine [DecidableEq ρ] (kind : UnionKind) (left right : Multiset ρ) : Multiset ρ :=
  if kind.isAll then left + right else (left + right).dedup

variable [DecidableEq ρ] {kind : UnionKind} {left right : Multiset ρ} {row : ρ}

theorem combine_of_isAll (h : kind.isAll) : kind.combine left right = left + right := by
  rw [combine, if_pos h]

theorem combine_of_not_isAll (h : kind.isAll = false) :
    kind.combine left right = (left + right).dedup := by
  rw [combine, if_neg (by simp [h])]

@[simp] theorem mem_combine : row ∈ kind.combine left right ↔ row ∈ left ∨ row ∈ right := by
  unfold combine
  split <;> simp

end UnionKind

/-! ### Chains -/

section Chains

variable [DecidableEq ρ]

/-- The rows of a chain of unions: those so far, united with one bag after the other. -/
def unite (bags : Nat → Multiset ρ) : List UnionKind → (next : Nat) → Multiset ρ → Multiset ρ
  | [], _, rows => rows
  | kind :: rest, next, rows => unite bags rest (next + 1) (kind.combine rows (bags next))

variable {bags : Nat → Multiset ρ} {kinds more : List UnionKind} {next : Nat} {rows : Multiset ρ}
  {row : ρ}

theorem unite_append :
    unite bags (kinds ++ more) next rows =
      unite bags more (next + kinds.length) (unite bags kinds next rows) := by
  induction kinds generalizing next rows with
  | nil => rfl
  | cons kind rest ih =>
    rw [cons_append, unite, ih, unite, length_cons]
    have hn : next + 1 + rest.length = next + (rest.length + 1) := by omega
    rw [hn]

/-- A chain has the rows that are in one of its bags. -/
theorem mem_unite :
    row ∈ unite bags kinds next rows ↔ row ∈ rows ∨ ∃ i < kinds.length, row ∈ bags (next + i) := by
  induction kinds generalizing next rows with
  | nil => simp [unite]
  | cons kind rest ih =>
    rw [unite, ih, UnionKind.mem_combine, or_assoc, length_cons]
    refine or_congr_right ⟨?_, ?_⟩
    · rintro (hf | ⟨i, hi, hr⟩)
      · exact ⟨0, by omega, hf⟩
      · exact ⟨i + 1, by omega, by rwa [← Nat.add_assoc, Nat.add_right_comm]⟩
    · rintro ⟨i, hi, hr⟩
      cases i with
      | zero => exact .inl hr
      | succ i => exact .inr ⟨i, by omega, by rwa [Nat.add_right_comm, Nat.add_assoc]⟩

/-- Where duplicates stay, the rows so far are only added to. -/
theorem unite_add (h : kinds.all UnionKind.isAll) (others : Multiset ρ) :
    unite bags kinds next (others + rows) = others + unite bags kinds next rows := by
  induction kinds generalizing next rows with
  | nil => rfl
  | cons kind rest ih =>
    rw [all_cons, Bool.and_eq_true] at h
    rw [unite, unite, UnionKind.combine_of_isAll h.1, UnionKind.combine_of_isAll h.1,
      Multiset.add_assoc, ih h.2]

/-- Bags without rows add none, but duplicates are removed all the same. -/
theorem unite_empty (h : ∀ i < kinds.length, bags (next + i) = 0) :
    unite bags kinds next rows = if kinds.all UnionKind.isAll then rows else rows.dedup := by
  induction kinds generalizing next rows with
  | nil => rfl
  | cons kind rest ih =>
    have hf : bags next = 0 := h 0 (by simp)
    have hr : ∀ i < rest.length, bags (next + 1 + i) = 0 := by
      intro i hi
      rw [Nat.add_right_comm]
      exact h (i + 1) (by simpa using hi)
    rw [unite, ih hr, hf, all_cons]
    cases hk : kind.isAll
    · rw [UnionKind.combine_of_not_isAll hk, Multiset.add_zero, Multiset.dedup_idem]
      simp
    · rw [UnionKind.combine_of_isAll hk, Multiset.add_zero, Bool.true_and]

/-- A chain whose last union removes duplicates has none. -/
theorem nodup_unite (hr : rows.Nodup) (h : ∀ last ∈ kinds.getLast?, last.isAll = false) :
    (unite bags kinds next rows).Nodup := by
  rcases eq_nil_or_concat kinds with rfl | ⟨before, last, rfl⟩
  · exact hr
  · rw [concat_eq_append] at h ⊢
    rw [unite_append, unite, unite, UnionKind.combine_of_not_isAll (h last (by simp))]
    exact Multiset.nodup_dedup _

end Chains

/-! ### Trees -/

namespace Compound

/-- The unions of a tree in the order of the text. -/
def kinds : Compound α → List UnionKind
  | .select _ => []
  | .union kind left right => left.kinds ++ kind :: right.kinds

/-- The `SELECT`s of a tree in the order of the text. -/
def selects : Compound α → List α
  | .select query => [query]
  | .union _ left right => left.selects ++ right.selects

def size (compound : Compound α) : Nat := compound.kinds.length + 1

/-- The rows of a tree of unions whose first `SELECT` has a number; they are numbered one by one. -/
def bag [DecidableEq ρ] (bags : Nat → Multiset ρ) : Compound α → (first : Nat) → Multiset ρ
  | .select _, first => bags first
  | .union kind left right, first =>
    kind.combine (left.bag bags first) (right.bag bags (first + left.size))

/-- The rows of the chain of the members of a tree. -/
def flat [DecidableEq ρ] (bags : Nat → Multiset ρ) (compound : Compound α) (first : Nat) :
    Multiset ρ :=
  unite bags compound.kinds (first + 1) (bags first)

/-- A tree whose groups do not matter: on the right of a `UNION ALL` all duplicates stay, and what
is on the right of a `UNION` does not end in a `UNION ALL`. -/
def Keeps : Compound α → Prop
  | .select _ => True
  | .union kind left right =>
    if kind.isAll then left.Keeps ∧ right.kinds.all UnionKind.isAll
    else ∀ last ∈ right.kinds.getLast?, last.isAll = false

instance decidableKeeps : (compound : Compound α) → Decidable compound.Keeps
  | .select _ => .isTrue trivial
  | .union kind left right =>
    have := decidableKeeps left
    inferInstanceAs (Decidable (if kind.isAll then left.Keeps ∧
      right.kinds.all UnionKind.isAll
      else ∀ last ∈ right.kinds.getLast?, last.isAll = false))

variable {compound left right : Compound α} {kind : UnionKind} {first : Nat}

theorem size_pos (compound : Compound α) : 0 < compound.size := Nat.succ_pos _

theorem length_selects (compound : Compound α) : compound.selects.length = compound.size := by
  induction compound with
  | select query => rfl
  | union kind left right ihLeft ihRight =>
    simp only [selects, size, kinds, length_append, length_cons] at ihLeft ihRight ⊢
    omega

theorem keeps_union_of_isAll (h : kind.isAll) :
    (union kind left right).Keeps ↔ left.Keeps ∧ right.kinds.all UnionKind.isAll := by
  rw [Keeps, if_pos h]

theorem keeps_union_of_not_isAll (h : kind.isAll = false) :
    (union kind left right).Keeps ↔ ∀ last ∈ right.kinds.getLast?, last.isAll = false := by
  rw [Keeps, if_neg (by simp [h])]

section Rows

variable [DecidableEq ρ] {bags : Nat → Multiset ρ} {row : ρ}

/-- In a chain the right side of a union is taken apart. -/
theorem flat_union :
    (union kind left right).flat bags first =
      unite bags right.kinds (first + left.size + 1)
        (kind.combine (left.flat bags first) (bags (first + left.size))) := by
  rw [flat, kinds, unite_append, unite]
  have hn : first + 1 + left.kinds.length = first + left.size := by
    rw [size]
    omega
  rw [hn]
  rfl

/-- A tree and the chain of its members have the same rows, duplicates apart. -/
theorem mem_flat_iff : row ∈ compound.flat bags first ↔ row ∈ compound.bag bags first := by
  induction compound generalizing first with
  | select query => rfl
  | union kind left right ihLeft ihRight =>
    have hr : row ∈ right.bag bags (first + left.size) ↔ row ∈ bags (first + left.size) ∨
        ∃ i < right.kinds.length, row ∈ bags (first + left.size + 1 + i) := by
      rw [← ihRight, flat, mem_unite]
    rw [flat_union, mem_unite, UnionKind.mem_combine, bag, UnionKind.mem_combine, ihLeft, hr,
      or_assoc]

theorem bag_of_all (h : compound.kinds.all UnionKind.isAll) :
    compound.bag bags first = compound.flat bags first := by
  induction compound generalizing first with
  | select query => rfl
  | union kind left right ihLeft ihRight =>
    rw [kinds, all_append, all_cons, Bool.and_eq_true, Bool.and_eq_true] at h
    rw [flat_union, bag, UnionKind.combine_of_isAll h.2.1, UnionKind.combine_of_isAll h.2.1,
      unite_add h.2.2, ihLeft h.1, ihRight h.2.2]
    rfl

/-- A tree that keeps its groups and the chain of its members have the same rows. -/
theorem Keeps.bag_eq (h : compound.Keeps) : compound.bag bags first = compound.flat bags first := by
  induction compound generalizing first with
  | select query => rfl
  | union kind left right ih _ =>
    cases hk : kind.isAll with
    | true =>
      rw [keeps_union_of_isAll hk] at h
      rw [flat_union, bag, UnionKind.combine_of_isAll hk, UnionKind.combine_of_isAll hk,
        unite_add h.2, ih h.1, bag_of_all h.2]
      rfl
    | false =>
      -- neither side has duplicates, so it is enough that they have the same rows
      rw [keeps_union_of_not_isAll hk] at h
      have hb : ((union kind left right).bag bags first).Nodup := by
        rw [bag, UnionKind.combine_of_not_isAll hk]
        exact Multiset.nodup_dedup _
      have hf : ((union kind left right).flat bags first).Nodup := by
        rw [flat_union]
        refine nodup_unite ?_ h
        rw [UnionKind.combine_of_not_isAll hk]
        exact Multiset.nodup_dedup _
      exact (Multiset.Nodup.ext hb hf).2 fun row => mem_flat_iff.symm

/-- If only the first bag has rows, and each of them once, these are the rows of a tree. -/
theorem bag_of_empty (hf : (bags first).Nodup)
    (h : ∀ i, 0 < i → i < compound.size → bags (first + i) = 0) :
    compound.bag bags first = bags first := by
  induction compound generalizing first with
  | select query => rfl
  | union kind left right ihLeft ihRight =>
    have hs : (union kind left right).size = left.size + right.size := by
      simp only [size, kinds, length_append, length_cons]
      omega
    rw [hs] at h
    have he : bags (first + left.size) = 0 :=
      h left.size left.size_pos (by have := right.size_pos; omega)
    have hl : left.bag bags first = bags first := ihLeft hf fun i hp hi => h i hp (by omega)
    have hr : right.bag bags (first + left.size) = bags (first + left.size) := by
      refine ihRight (by rw [he]; exact Multiset.nodup_zero) fun i hp hi => ?_
      rw [Nat.add_assoc]
      exact h (left.size + i) (by omega) (by omega)
    rw [bag, hl, hr, he, UnionKind.combine, Multiset.add_zero, hf.dedup, ite_self]

theorem flat_of_empty (hf : (bags first).Nodup)
    (h : ∀ i, 0 < i → i < compound.size → bags (first + i) = 0) :
    compound.flat bags first = bags first := by
  have he : ∀ i < compound.kinds.length, bags (first + 1 + i) = 0 := by
    intro i hi
    rw [Nat.add_assoc]
    exact h (1 + i) (by omega) (by rw [size]; omega)
  rw [flat, unite_empty he, hf.dedup, ite_self]

end Rows

/-- A bag with one row at two places, and none elsewhere. -/
def twice (here there : Nat) (place : Nat) : Multiset Unit :=
  if place = here ∨ place = there then {()} else 0

theorem nodup_twice (here there place : Nat) : (twice here there place).Nodup := by
  unfold twice
  split
  · exact Multiset.nodup_singleton ()
  · exact Multiset.nodup_zero

theorem twice_of_ne {here there place : Nat} (hh : place ≠ here) (ht : place ≠ there) :
    twice here there place = 0 := by
  rw [twice, if_neg (by simp [hh, ht])]

@[simp] theorem twice_here {here there : Nat} : twice here there here = {()} := by simp [twice]

@[simp] theorem twice_there {here there : Nat} : twice here there there = {()} := by simp [twice]

/-- On the right of a `UNION ALL` no duplicates may be removed: a row that is in the first bag of
both sides comes twice, and once if the chain removes duplicates later. -/
theorem all_of_bag_eq (hk : kind.isAll) (h : ∀ bags : Nat → Multiset Unit,
      (union kind left right).bag bags first = (union kind left right).flat bags first) :
    right.kinds.all UnionKind.isAll := by
  by_contra hn
  let bags := twice first (first + left.size)
  have hh : bags first = {()} := twice_here
  have ht : bags (first + left.size) = {()} := twice_there
  have he : ∀ i, 0 < i → i ≠ left.size → bags (first + i) = 0 := by
    intro i hp hne
    exact twice_of_ne (by omega) (by omega)
  have hb : (union kind left right).bag bags first = {()} + {()} := by
    have hl : left.bag bags first = bags first :=
      bag_of_empty (nodup_twice _ _ _) fun i hp hi => he i hp (by omega)
    have hr : right.bag bags (first + left.size) = bags (first + left.size) := by
      refine bag_of_empty (nodup_twice _ _ _) fun i hp _ => ?_
      rw [Nat.add_assoc]
      exact he (left.size + i) (by omega) (by omega)
    rw [bag, hl, hr, UnionKind.combine_of_isAll hk, hh, ht]
  have hf : (union kind left right).flat bags first = {()} := by
    have hl : left.flat bags first = bags first :=
      flat_of_empty (nodup_twice _ _ _) fun i hp hi => he i hp (by omega)
    have hre : ∀ i < right.kinds.length, bags (first + left.size + 1 + i) = 0 := by
      intro i _
      rw [Nat.add_assoc, Nat.add_assoc]
      exact he (left.size + (1 + i)) (by omega) (by omega)
    rw [flat_union, unite_empty hre, if_neg hn, hl, UnionKind.combine_of_isAll hk, hh, ht]
    decide
  have hs : ({()} + {()} : Multiset Unit) = {()} := hb.symm.trans ((h bags).trans hf)
  exact absurd hs (by decide)

/-- What is on the right of a `UNION` does not end in a `UNION ALL`: a row of the first and the last
bag would come twice. -/
theorem not_isAll_of_bag_eq (hki : kind.isAll = false) (h : ∀ bags : Nat → Multiset Unit,
      (union kind left right).bag bags first = (union kind left right).flat bags first) :
    ∀ last ∈ right.kinds.getLast?, last.isAll = false := by
  intro last hl
  by_contra hno
  have ha : last.isAll := by simpa using hno
  obtain ⟨before, hk⟩ := getLast?_eq_some_iff.1 hl
  let bags := twice first (first + left.size + 1 + before.length)
  have hh : bags first = {()} := twice_here
  have ht : bags (first + left.size + 1 + before.length) = {()} := twice_there
  have hn : ((union kind left right).bag bags first).Nodup := by
    rw [bag, UnionKind.combine_of_not_isAll hki]
    exact Multiset.nodup_dedup _
  have hf : (union kind left right).flat bags first =
      unite bags before (first + left.size + 1)
        (kind.combine (left.flat bags first) (bags (first + left.size))) + {()} := by
    rw [flat_union, hk, unite_append, unite, unite, UnionKind.combine_of_isAll ha, ht]
  have hm : () ∈ unite bags before (first + left.size + 1)
      (kind.combine (left.flat bags first) (bags (first + left.size))) := by
    rw [mem_unite, UnionKind.mem_combine, flat, mem_unite, hh]
    simp
  rw [h bags, hf, Multiset.nodup_add] at hn
  exact Multiset.disjoint_left.1 hn.2.2 hm (by simp)

theorem keeps_of_bag_eq (h : ∀ bags : Nat → Multiset Unit,
    compound.bag bags first = compound.flat bags first) : compound.Keeps := by
  induction compound with
  | select query => trivial
  | union kind left right ih _ =>
    cases hk : kind.isAll with
    | false =>
      rw [keeps_union_of_not_isAll hk]
      exact not_isAll_of_bag_eq hk h
    | true =>
      rw [keeps_union_of_isAll hk]
      have ha := all_of_bag_eq hk h
      refine ⟨ih fun bags => ?_, ha⟩
      -- with no duplicates removed on the right, both sides are the left one and the same rows
      have hs := h bags
      rw [flat_union, bag, UnionKind.combine_of_isAll hk, UnionKind.combine_of_isAll hk,
        unite_add ha, bag_of_all ha] at hs
      exact Multiset.add_left_inj.1 hs

/-- **A tree of unions and the chain of its members have the same rows for all bags just if the tree
keeps its groups.** -/
theorem bag_eq_flat_iff :
    (∀ (ρ : Type) [DecidableEq ρ] (bags : Nat → Multiset ρ),
      compound.bag bags first = compound.flat bags first) ↔ compound.Keeps :=
  ⟨fun h => keeps_of_bag_eq (h Unit), fun h _ _ _ => h.bag_eq⟩

end Compound

/-! ### Reading -/

/-- A compound select of SQLite: its members, and the unions between them. -/
structure Chain where
  kinds : List UnionKind
  members : List (List Lexeme)
deriving DecidableEq

namespace Chain

/-- A member and the union before it, after its first word; SQLite has no `UNION DISTINCT`. -/
def member? : List Lexeme → Option (UnionKind × List Lexeme)
  | .word "ALL" :: .word "SELECT" :: rest => some (.all, .word "SELECT" :: rest)
  | .word "SELECT" :: rest => some (.plain, .word "SELECT" :: rest)
  | _ => none

def members? : List (List Lexeme) → Option (List (UnionKind × List Lexeme))
  | [] => some []
  | stretch :: rest => do
    let member ← member? stretch
    return member :: (← members? rest)

/-- The compound select that some tokens are: they are cut at every `UNION` outside parentheses. -/
def ofLexemes? (tokens : List Lexeme) : Option Chain :=
  match Lexeme.cut (.word "UNION") 0 tokens with
  | (.word "SELECT" :: first) :: rest =>
    (members? rest).map fun members =>
      ⟨members.map Prod.fst, (.word "SELECT" :: first) :: members.map Prod.snd⟩
  | _ => none

/-- The rows of a compound select. -/
def bag [DecidableEq ρ] (bags : Nat → Multiset ρ) (chain : Chain) : Multiset ρ :=
  unite bags chain.kinds 1 (bags 0)

end Chain

/-- The word that stands between `UNION` and the next member. -/
def UnionKind.words : UnionKind → List Lexeme
  | .plain => []
  | .distinct => [.word "DISTINCT"]
  | .all => [.word "ALL"]

/-- Members with the words before them, each but the first after its `UNION`. -/
def stretches (kinds : List UnionKind) : List (List Lexeme) → List (List Lexeme)
  | [] => []
  | first :: rest => first :: zipWith (fun kind member => kind.words ++ member) kinds rest

/-- A text that can be a member of a compound select. -/
structure IsMember (tokens : List Lexeme) : Prop where
  select : ∃ rest, tokens = .word "SELECT" :: rest
  even : Lexeme.isEven .list 0 tokens

/-- The tokens of a compound select. -/
def chained (kinds : List UnionKind) (members : List (List Lexeme)) : List Lexeme :=
  [.word "UNION"].intercalate (stretches kinds members)

section Reading

open Lexeme

variable {kinds more : List UnionKind} {kind : UnionKind} {members others : List (List Lexeme)}

theorem stretches_append (hl : members.length = kinds.length + 1) :
    stretches (kinds ++ kind :: more) (members ++ others) =
      stretches kinds members ++ (stretches more others).modifyHead (kind.words ++ ·) := by
  cases members with
  | nil => simp at hl
  | cons first rest =>
    have hr : kinds.length = rest.length := by simpa using hl.symm
    rw [cons_append, stretches, zipWith_append hr, stretches]
    cases others <;> simp [stretches]

theorem intercalate_append {sep : Lexeme} {parts stretches : List (List Lexeme)}
    (hp : parts ≠ []) (h : stretches ≠ []) (words : List Lexeme) :
    [sep].intercalate (parts ++ stretches.modifyHead (words ++ ·)) =
      [sep].intercalate parts ++ (sep :: words ++ [sep].intercalate stretches) := by
  induction parts with
  | nil => exact absurd rfl hp
  | cons first rest ih =>
    cases rest with
    | nil =>
      cases stretches with
      | nil => exact absurd rfl h
      | cons next others => cases others <;> simp [intercalate]
    | cons second others =>
      have hr := ih (by simp)
      simp only [cons_append, intercalate, intersperse_cons_cons, flatten_cons,
        append_assoc] at hr ⊢
      rw [hr]

/-- Compound selects with a union between them. -/
theorem chained_append (hl : members.length = kinds.length + 1) (ho : others ≠ []) :
    chained (kinds ++ kind :: more) (members ++ others) =
      chained kinds members ++ (.word "UNION" :: kind.words ++ chained more others) := by
  have hne {kinds : List UnionKind} {members : List (List Lexeme)} (h : members ≠ []) :
      stretches kinds members ≠ [] := by
    cases members with
    | nil => exact absurd rfl h
    | cons first rest => simp [stretches]
  rw [chained, stretches_append hl, intercalate_append (hne ?_) (hne ho), chained, chained]
  rintro rfl
  simp at hl

theorem Chain.member?_words {member : List Lexeme} (h : IsMember member) :
    Chain.member? (kind.words ++ member) =
      if kind = .distinct then none else some (kind, member) := by
  obtain ⟨rest, rfl⟩ := h.select
  cases kind <;> rfl

/-- The members of a compound select are found again, unless there is a `UNION DISTINCT`. -/
theorem Chain.members?_zipWith (hl : kinds.length = members.length)
    (h : ∀ member ∈ members, IsMember member) :
    Chain.members? (zipWith (fun kind member => kind.words ++ member) kinds members) =
      if .distinct ∈ kinds then none else some (kinds.zip members) := by
  induction kinds generalizing members with
  | nil =>
    cases members with
    | nil => rfl
    | cons member rest => simp at hl
  | cons kind others ih =>
    cases members with
    | nil => simp at hl
    | cons member rest =>
      rw [forall_mem_cons] at h
      have hr := ih (by simpa using hl) h.2
      rw [zipWith_cons_cons, members?, member?_words h.1, hr]
      by_cases hk : kind = .distinct
      · simp [hk]
      · by_cases ho : .distinct ∈ others <;> simp [hk, ho, Ne.symm hk]

theorem isEven_zipWith (h : ∀ member ∈ members, IsMember member) :
    ∀ stretch ∈ zipWith (fun kind member => kind.words ++ member) kinds members,
      isEven .list 0 stretch := by
  induction kinds generalizing members with
  | nil => simp
  | cons kind others ih =>
    cases members with
    | nil => simp
    | cons member rest =>
      rw [forall_mem_cons] at h
      refine forall_mem_cons.2 ⟨?_, ih h.2⟩
      cases kind with
      | plain => exact h.1.even
      | distinct | all =>
        show isEven .list 0 (_ :: member)
        rw [isEven_cons (by rfl)]
        exact h.1.even

/-- **A compound select is read as its members and unions**, unless there is a `UNION DISTINCT`. -/
theorem Chain.ofLexemes?_chained (hl : members.length = kinds.length + 1)
    (h : ∀ member ∈ members, IsMember member) :
    Chain.ofLexemes? (chained kinds members) =
      if .distinct ∈ kinds then none else some ⟨kinds, members⟩ := by
  cases members with
  | nil => simp at hl
  | cons first rest =>
    have hr : kinds.length = rest.length := by simpa using hl.symm
    have he : ∀ stretch ∈ stretches kinds (first :: rest), isEven .list 0 stretch := by
      rw [forall_mem_cons] at h
      exact forall_mem_cons.2 ⟨h.1.even, isEven_zipWith h.2⟩
    have hc : cut (.word "UNION") 0 (chained kinds (first :: rest)) =
        stretches kinds (first :: rest) :=
      cut_intercalate rfl rfl he (by simp [stretches])
    rw [forall_mem_cons] at h
    obtain ⟨after, rfl⟩ := h.1.select
    rw [ofLexemes?, hc]
    simp only [stretches]
    rw [members?_zipWith hr h.2]
    split
    · rfl
    · rw [Option.map_some, map_fst_zip (by omega), map_snd_zip (by omega)]

end Reading

end SqlBridge
