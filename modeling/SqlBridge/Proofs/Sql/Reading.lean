/-
SQLite's table gives every row of tokens at most one term.

`SqlTerm.ofLexemes?_eq_some_iff`: tokens are read as a term exactly if the term has these tokens and
is grouped by the table.  So a term is read back if and only if it is grouped, and in no other way
with the same operators (`SqlTerm.reads_bare_iff`).
-/
import SqlBridge.Proofs.Sql.Term

namespace SqlBridge

open List

variable {lex : Lexeme} {ts rest : List Lexeme} {op : SqlOperator} {term left : SqlTerm}
  {fuel floor more : Nat}

theorem Lexeme.after?_eq_some :
    lex.after? ts = some rest ↔ ts = lex :: rest := by
  cases ts with
  | nil => simp [after?]
  | cons first tail =>
    rw [after?]
    split
    · simp_all
    · simp_all

/-! ### Operators at the head of tokens -/

theorem Unary.of?_eq_some {op : Unary} :
    of? lex = some op ↔ op.lexeme = lex ∧ op ≠ .bang := by
  constructor
  · intro h
    unfold of? at h
    have hm := mem_of_find?_eq_some h
    refine ⟨by simpa using find?_some h, ?_⟩
    rintro rfl
    exact absurd hm (by decide)
  · rintro ⟨rfl, hb⟩
    cases op with
    | bang => exact absurd rfl hb
    | _ => decide

namespace SqlOperator

theorem mem_all (op : SqlOperator) : op ∈ all := by
  cases op with
  | binary op =>
    cases op with
    | like neg => cases neg <;> decide
    | regexp neg => cases neg <;> decide
    | _ => decide
  | isIn neg => cases neg <;> decide
  | between neg => cases neg <;> decide

theorem eq_of_of? (h : of? ts = some (op, rest)) : ts = op.lexemes ++ rest := by
  obtain ⟨found, -, hf⟩ := exists_of_findSome?_eq_some h
  obtain ⟨tail, ht, heq⟩ := Option.map_eq_some_iff.1 hf
  obtain ⟨rfl, rfl⟩ := Prod.mk.inj heq
  obtain ⟨start, hs, hsa⟩ := dropPrefix?_eq_some_iff.1 ht
  rwa [eq_of_beq hsa] at hs

/-- Of two operators, one begins like the other only if it is `IS NOT`. -/
theorem comparable {first second : SqlOperator}
    (h : first.lexemes <+: second.lexemes ∨ second.lexemes <+: first.lexemes) :
    first = second ∨ (first = .binary .is ∧ second = .binary .isNot) ∨
      (first = .binary .isNot ∧ second = .binary .is) := by
  have ha : ∀ first ∈ all, ∀ second ∈ all,
      (first.lexemes <+: second.lexemes ∨ second.lexemes <+: first.lexemes) →
      first = second ∨ (first = .binary .is ∧ second = .binary .isNot) ∨
        (first = .binary .isNot ∧ second = .binary .is) := by decide +kernel
  exact ha first (mem_all first) second (mem_all second) h

theorem of?_lexemes (op : SqlOperator) (hr : op = .binary .is → rest.head? ≠ some (.word "NOT")) :
    of? (op.lexemes ++ rest) = some (op, rest) := by
  by_cases hi : op = .binary .isNot
  · subst hi
    simp [of?, all, lexemes, Binary.lexemes, dropPrefix?]
  obtain ⟨found, hf⟩ : ∃ found, of? (op.lexemes ++ rest) = some found := by
    refine Option.isSome_iff_exists.1 (findSome?_isSome_iff.2 ⟨op, mem_all op, ?_⟩)
    rw [dropPrefix?_append_of_beq _ (beq_self_eq_true _)]
    rfl
  obtain ⟨other, tail⟩ := found
  have ht := eq_of_of? hf
  have hb : other.lexemes <+: op.lexemes ∨ op.lexemes <+: other.lexemes :=
    prefix_or_prefix_of_prefix ⟨tail, ht.symm⟩ (prefix_append _ rest)
  rcases comparable hb with rfl | ⟨-, ho⟩ | ⟨rfl, rfl⟩
  · rw [hf, append_cancel_left ht]
  · exact absurd ho hi
  · -- `IS NOT` is not there, since no `NOT` follows
    have hn : rest = .word "NOT" :: tail := (cons.inj ht).2
    exact absurd (by rw [hn]; rfl) (hr rfl)

/-- An `IS` that is read has no `NOT` after it. -/
theorem head?_ne_not_of_of? (h : of? ts = some (.binary .is, rest)) :
    rest.head? ≠ some (.word "NOT") := by
  intro hn
  obtain ⟨tail, rfl⟩ : ∃ tail, rest = .word "NOT" :: tail := by
    cases rest with
    | nil => cases hn
    | cons first tail => exact ⟨tail, by rw [Option.some.inj hn]⟩
  have hi : of? ts = some (.binary .isNot, tail) := by
    rw [eq_of_of? h]
    exact of?_lexemes (.binary .isNot) (by simp)
  cases h.symm.trans hi

/-- Punctuation that closes, and the word `ESCAPE`, are no operators. -/
theorem of?_eq_none (h : lex = .symbol ")" ∨ lex = .word "ESCAPE")
    (rest : List Lexeme) : of? (lex :: rest) = none := by
  cases hfo : of? (lex :: rest) with
  | none => rfl
  | some found =>
    obtain ⟨op, tail⟩ := found
    have ht := eq_of_of? hfo
    have hh : ∀ op ∈ all, ∃ first ∈ op.lexemes.head?,
        first ≠ .symbol ")" ∧ first ≠ .word "ESCAPE" := by decide
    obtain ⟨first, hf, hc, he⟩ := hh op (mem_all op)
    have hs : some lex = some first := by
      rw [← hf, ← head?_cons, ht, head?_append, hf]
      rfl
    obtain rfl := Option.some.inj hs
    tauto

end SqlOperator

theorem Next.of?_of_operator (h : SqlOperator.of? ts = some (op, rest)) :
    Next.of? ts = some (.operator op.rank) := by
  have hh : ts.head? ≠ some (.word "ESCAPE") := by
    intro he
    cases ts with
    | nil => cases he
    | cons first tail =>
      rw [SqlOperator.of?_eq_none (.inr (Option.some.inj he))] at h
      cases h
  rw [of?, if_neg hh, h]
  rfl

theorem Next.of?_of_none (h : SqlOperator.of? ts = none) :
    ∀ next ∈ Next.of? ts, next = .escape := by
  intro next hn
  rw [of?, h] at hn
  split at hn
  · exact (Option.some.inj hn).symm
  · cases hn

theorem Next.exists_of_escape (h : Next.of? ts = some .escape) :
    ∃ rest, ts = .word "ESCAPE" :: rest := by
  rw [of?] at h
  split at h
  · rename_i hh
    cases ts with
    | nil => cases hh
    | cons first rest => exact ⟨rest, by rw [Option.some.inj hh]⟩
  · obtain ⟨found, -, hf⟩ := Option.map_eq_some_iff.1 h
    cases hf

theorem Next.of?_close (rest : List Lexeme) : Next.of? (.symbol ")" :: rest) = none := by
  rw [Next.of?, if_neg (by simp), SqlOperator.of?_eq_none (.inl rfl)]
  rfl

/-- Whether a reader that takes no operator below `floor` stops here. -/
def Next.Stops (floor : Nat) : Next → Prop
  | .operator rank => rank < floor
  | .escape => True

theorem Unary.leaves_iff {op : Unary} {next : Next} : op.Leaves next ↔ next.Stops op.rank := by
  cases next <;> rfl

theorem Binary.leaves_iff {op : Binary} {next : Next} :
    op.Leaves next ↔
      next.Stops (op.rank + 1) ∧ (next = .escape → ∀ negated, op ≠ .like negated) := by
  cases next with
  | operator rank => simp [Leaves, Next.Stops, Nat.lt_succ_iff]
  | escape => simp [Leaves, Next.Stops]

theorem Ternary.leaves_iff {next : Next} :
    Ternary.Leaves next ↔ next.Stops (equalityRank + 1) := by
  cases next with
  | operator rank => exact Nat.lt_succ_iff.symm
  | escape => rfl

namespace SqlTerm

open Lexeme

/-! ### What is read is grouped -/

theorem eq_of_readPath {path : List String}
    (h : readPath ts = (path, rest)) : ts = pathLexemes path ++ rest := by
  fun_induction readPath ts generalizing path with
  | case1 name tail tailPath tailRest hr ih =>
    obtain ⟨rfl, rfl⟩ := Prod.mk.inj h
    simp [pathLexemes, ih hr]
  | case2 => obtain ⟨rfl, rfl⟩ := Prod.mk.inj h; rfl
  | case3 => obtain ⟨rfl, rfl⟩ := Prod.mk.inj h; rfl

/-- What there is to know of a term that was read before some tokens. -/
structure IsRead (term : SqlTerm) (rest : List Lexeme) : Prop where
  grouped : term.Grouped
  endsAt : ∀ next ∈ Next.of? rest, term.EndsAt next

/-- A term that was read from tokens as an operand. -/
def IsReadAlone (term : SqlTerm) (tokens rest : List Lexeme) : Prop :=
  tokens = term.print ++ rest ∧ term.IsRead rest ∧ ∀ floor, term.OpensAt floor

/-- A term that was read from tokens up to the first operator below a rank. -/
def IsReadAbove (floor : Nat) (term : SqlTerm) (tokens rest : List Lexeme) : Prop :=
  tokens = term.print ++ rest ∧ term.IsRead rest ∧ term.OpensAt floor ∧
    ∀ next ∈ Next.of? rest, next.Stops floor

theorem isRead_readAtom (h : readAtom ts = some (term, rest)) : term.IsReadAlone ts rest := by
  unfold readAtom at h
  split at h
  · rename_i first tail
    generalize hp : readPath tail = found at h
    obtain ⟨path, tailRest⟩ := found
    obtain ⟨rfl, rfl⟩ := Prod.mk.inj (Option.some.inj h)
    exact ⟨by rw [print, eq_of_readPath hp, cons_append], ⟨trivial, fun _ _ => trivial⟩,
      fun _ => trivial⟩
  · split at h
    · rename_i hc
      obtain ⟨rfl, rfl⟩ := Prod.mk.inj (Option.some.inj h)
      exact ⟨rfl, ⟨hc, fun _ _ => trivial⟩, fun _ => trivial⟩
    · cases h
  · cases h

/-- What the four parts of the reader do, for a given fuel. -/
structure Sound (fuel : Nat) : Prop where
  read : ∀ {floor tokens term rest}, read fuel floor tokens = some (term, rest) →
    term.IsReadAbove floor tokens rest
  readOperand : ∀ {tokens term rest}, readOperand fuel tokens = some (term, rest) →
    term.IsReadAlone tokens rest
  readOn : ∀ {floor left tokens term rest}, readOn fuel floor left tokens = some (term, rest) →
    left.IsRead tokens → left.OpensAt floor → term.IsReadAbove floor (left.print ++ tokens) rest
  readRight : ∀ {operator left tokens term rest},
    readRight fuel operator left tokens = some (term, rest) →
    (operator = .binary .is → tokens.head? ≠ some (.word "NOT")) →
    left.Grouped → left.EndsAt (.operator operator.rank) →
    left.print ++ operator.lexemes ++ tokens = term.print ++ rest ∧ term.IsRead rest ∧
      ∀ floor ≤ operator.rank, left.OpensAt floor → term.OpensAt floor

theorem sound_zero : Sound 0 where
  read h := by simp [read] at h
  readOperand h := by simp [SqlTerm.readOperand] at h
  readOn h := by simp [readOn] at h
  readRight h := by simp [readRight] at h

theorem Sound.read_succ (ih : Sound fuel)
    (h : SqlTerm.read (fuel + 1) floor ts = some (term, rest)) :
    term.IsReadAbove floor ts rest := by
  rw [SqlTerm.read] at h
  simp only [Option.bind_eq_bind, Option.bind_eq_some_iff, Prod.exists] at h
  obtain ⟨opd, tail, ho, hon⟩ := h
  obtain ⟨rfl, hr, hop⟩ := ih.readOperand ho
  exact ih.readOn hon hr (hop floor)

theorem Sound.readOperand_succ (ih : Sound fuel)
    (h : SqlTerm.readOperand (fuel + 1) ts = some (term, rest)) :
    term.IsReadAlone ts rest := by
  cases ts with
  | nil => simp [SqlTerm.readOperand] at h
  | cons first tail =>
    rw [SqlTerm.readOperand] at h
    split at h
    · rename_i hopen
      simp only [Option.bind_eq_bind, Option.bind_eq_some_iff, Prod.exists, Option.some.injEq,
        Prod.mk.injEq, after?_eq_some] at h
      obtain ⟨inside, _, hi, _, rfl, rfl, rfl⟩ := h
      obtain ⟨ht, hr, -⟩ := ih.read hi
      refine ⟨?_, ⟨hr.grouped, fun _ _ => trivial⟩, fun _ => trivial⟩
      rw [hopen, ht, print]
      simp
    · split at h
      · rename_i op ho
        obtain ⟨hl, hb⟩ := Unary.of?_eq_some.1 ho
        simp only [Option.bind_eq_bind, Option.bind_eq_some_iff, Prod.exists, Option.some.injEq,
          Prod.mk.injEq] at h
        obtain ⟨opd, _, hop, rfl, rfl⟩ := h
        obtain ⟨ht, hr, hope, hs⟩ := ih.read hop
        refine ⟨by rw [ht, print, hl]; rfl, ⟨⟨hb, hr.grouped, hope⟩, ?_⟩,
          fun _ => trivial⟩
        exact fun next hn => ⟨Unary.leaves_iff.2 (hs next hn), hr.endsAt next hn⟩
      · exact isRead_readAtom h

theorem Sound.readOn_succ (ih : Sound fuel)
    (h : SqlTerm.readOn (fuel + 1) floor left ts = some (term, rest)) (hl : left.IsRead ts)
    (hop : left.OpensAt floor) : term.IsReadAbove floor (left.print ++ ts) rest := by
  rw [SqlTerm.readOn] at h
  split at h
  · rename_i hno
    obtain ⟨rfl, rfl⟩ := Prod.mk.inj (Option.some.inj h)
    refine ⟨rfl, hl, hop, fun next hn => ?_⟩
    rw [Next.of?_of_none hno next hn]
    trivial
  · rename_i op tail ho
    have hn := Next.of?_of_operator ho
    split at h
    · rename_i hb
      obtain ⟨rfl, rfl⟩ := Prod.mk.inj (Option.some.inj h)
      refine ⟨rfl, hl, hop, fun next hm => ?_⟩
      rw [hn] at hm
      rw [← Option.some.inj hm]
      exact hb
    · rename_i ha
      simp only [Option.bind_eq_bind, Option.bind_eq_some_iff, Prod.exists] at h
      obtain ⟨longer, _, hr, hon⟩ := h
      have hnot : op = .binary .is → tail.head? ≠ some (.word "NOT") := by
        rintro rfl
        exact SqlOperator.head?_ne_not_of_of? ho
      obtain ⟨ht, hre, hlo⟩ := ih.readRight hr hnot hl.grouped (hl.endsAt _ hn)
      have hres := ih.readOn hon hre (hlo floor (by omega) hop)
      rwa [SqlOperator.eq_of_of? ho, ← append_assoc, ht]

theorem Sound.readRight_succ (ih : Sound fuel)
    (h : SqlTerm.readRight (fuel + 1) op left ts = some (term, rest))
    (hno : op = .binary .is → ts.head? ≠ some (.word "NOT"))
    (hl : left.Grouped) (hen : left.EndsAt (.operator op.rank)) :
    left.print ++ op.lexemes ++ ts = term.print ++ rest ∧ term.IsRead rest ∧
      ∀ floor ≤ op.rank, left.OpensAt floor → term.OpensAt floor := by
  cases op with
  | isIn neg =>
    rw [SqlTerm.readRight] at h
    simp only [Option.bind_eq_bind, Option.bind_eq_some_iff, Prod.exists, Option.some.injEq,
      Prod.mk.injEq, after?_eq_some] at h
    obtain ⟨_, rfl, list, _, hlis, _, rfl, rfl, rfl⟩ := h
    obtain ⟨rfl, hr, -⟩ := ih.read hlis
    refine ⟨by simp [print], ⟨⟨hl, hr.grouped, hen⟩, fun _ _ => trivial⟩, ?_⟩
    exact fun floor hf ho => ⟨hf, ho⟩
  | between neg =>
    rw [SqlTerm.readRight] at h
    simp only [Option.bind_eq_bind, Option.bind_eq_some_iff, Prod.exists, Option.some.injEq,
      Prod.mk.injEq, after?_eq_some] at h
    obtain ⟨low, _, hlow, _, rfl, high, _, hhigh, rfl, rfl⟩ := h
    obtain ⟨rfl, hlo, hlowOpens, -⟩ := ih.read hlow
    obtain ⟨rfl, hh, hhi, hs⟩ := ih.read hhigh
    have ha (more : List Lexeme) :
        Next.of? (.word "AND" :: more) = some (.operator Binary.and.rank) :=
      Next.of?_of_operator (SqlOperator.of?_lexemes (.binary .and) (by simp))
    refine ⟨by simp [print, SqlOperator.lexemes, Ternary.separator], ⟨?_, fun next hn => ?_⟩, ?_⟩
    · exact ⟨hl, hlo.grouped, hh.grouped, hen, hlowOpens,
        hlo.endsAt _ (ha _), hhi⟩
    · exact ⟨Ternary.leaves_iff.2 (hs next hn), hh.endsAt next hn⟩
    · exact fun floor hf ho => ⟨hf, ho⟩
  | binary op =>
    rw [SqlTerm.readRight] at h
    simp only [Option.bind_eq_bind, Option.bind_eq_some_iff, Prod.exists] at h
    obtain ⟨right, tail, hrig, hre⟩ := h
    obtain ⟨rfl, hr, ho, hs⟩ := ih.read hrig
    split at hre
    · -- a pattern with its escape character
      rename_i neg escapeTokens hescape
      obtain rfl := after?_eq_some.1 hescape
      simp only [Option.bind_eq_some_iff, Prod.exists, Option.some.injEq, Prod.mk.injEq] at hre
      obtain ⟨escape, _, hr', rfl, rfl⟩ := hre
      obtain ⟨rfl, he, hes, hesc⟩ := ih.read hr'
      refine ⟨?_, ⟨?_, fun next hn => ?_⟩, fun floor hf ho => ⟨hf, ho⟩⟩
      · simp [print, SqlOperator.lexemes, Binary.lexemes, Ternary.opening, Ternary.separator]
      · exact ⟨hl, hr.grouped, he.grouped, hen, ho,
          hr.endsAt .escape rfl, hes⟩
      · exact ⟨Ternary.leaves_iff.2 (hesc next hn), he.endsAt next hn⟩
    · rename_i hli
      simp only [Option.some.injEq, Prod.mk.injEq] at hre
      obtain ⟨rfl, rfl⟩ := hre
      refine ⟨by simp [print, SqlOperator.lexemes], ⟨?_, fun next hn => ?_⟩,
        fun floor hf ho => ⟨hf, ho⟩⟩
      · refine ⟨hl, hr.grouped, hen, ho, ?_⟩
        rintro rfl hhe
        refine hno rfl ?_
        cases hp : right.print with
        | nil => rw [hp] at hhe; cases hhe
        | cons first more => rw [hp] at hhe; exact hhe
      · refine ⟨Binary.leaves_iff.2 ⟨hs next hn, ?_⟩, hr.endsAt next hn⟩
        -- an `ESCAPE` here would have been read with the pattern
        rintro rfl neg rfl
        obtain ⟨more, hm⟩ := Next.exists_of_escape hn
        exact hli neg more rfl (after?_eq_some.2 hm)

theorem sound (fuel : Nat) : Sound fuel := by
  induction fuel with
  | zero => exact sound_zero
  | succ fuel ih => exact ⟨ih.read_succ, ih.readOperand_succ, ih.readOn_succ, ih.readRight_succ⟩

/-! ### What is grouped is read -/

/-- A term whose end is where other tokens begin. -/
structure EndsBefore (term : SqlTerm) (rest : List Lexeme) : Prop where
  dot : rest.head? ≠ some (.symbol ".")
  endsAt : ∀ next ∈ Next.of? rest, term.EndsAt next

/-- A term that is read wherever it stands: the reader gets to its end and goes on from there, with
enough fuel. -/
def Readable (term : SqlTerm) : Prop :=
  ∀ (floor fuel more : Nat) (rest : List Lexeme) (result : SqlTerm × List Lexeme),
    term.OpensAt floor → term.EndsBefore rest →
    (∀ enough, fuel ≤ enough → readOn enough floor term rest = some result) →
    fuel + 3 * term.print.length ≤ more → read more floor (term.print ++ rest) = some result

theorem readOn_of_stops (h : ∀ next ∈ Next.of? rest, next.Stops floor) (hf : 1 ≤ fuel) :
    readOn fuel floor term rest = some (term, rest) := by
  obtain ⟨fuel, rfl⟩ : ∃ less, fuel = less + 1 := ⟨fuel - 1, by omega⟩
  rw [readOn]
  cases ho : SqlOperator.of? rest with
  | none => rfl
  | some found =>
    have hs := h _ (Next.of?_of_operator ho)
    simp only [if_pos (show found.1.rank < floor from hs)]

/-- If nothing goes on with it, the reader stops at its end. -/
theorem Readable.alone (h : term.Readable) (ho : term.OpensAt floor) (he : term.EndsBefore rest)
    (hs : ∀ next ∈ Next.of? rest, next.Stops floor) (hm : 3 * term.print.length + 1 ≤ more) :
    read more floor (term.print ++ rest) = some (term, rest) :=
  h _ _ _ _ _ ho he (fun _ => readOn_of_stops hs) (by omega)

/-- An operand that is read on its own. -/
theorem readable_of_readOperand
    (h : ∀ {fuel rest}, term.EndsBefore rest → 3 * term.print.length ≤ fuel + 2 →
      readOperand (fuel + 1) (term.print ++ rest) = some (term, rest))
    (hp : term.print ≠ []) : term.Readable := by
  intro floor fuel more rest result _ he hon hm
  have hl : 0 < term.print.length := length_pos_iff.2 hp
  obtain ⟨more, rfl⟩ : ∃ less, more = less + 2 := ⟨more - 2, by omega⟩
  rw [read]
  simp only [Option.bind_eq_bind, Option.bind_eq_some_iff, Prod.exists]
  exact ⟨term, rest, h he (by omega), hon (more + 1) (by omega)⟩

theorem readable_constant (h : lex.isConstant) :
    (constant lex).Readable := by
  refine readable_of_readOperand (fun {_ rest} _ _ => ?_) (by simp [print])
  have hop : lex ≠ .symbol "(" := by rintro rfl; cases h
  have hu : Unary.of? lex = none := by
    cases ho : Unary.of? lex with
    | none => rfl
    | some op =>
      obtain ⟨rfl, -⟩ := Unary.of?_eq_some.1 ho
      cases op <;> revert h <;> decide
  have ha : readAtom (lex :: rest) = some (.constant lex, rest) := by
    unfold readAtom
    split
    · rename_i heq
      obtain ⟨rfl, rfl⟩ := cons.inj heq
      cases h
    · rename_i heq
      obtain ⟨rfl, rfl⟩ := cons.inj heq
      rw [if_pos h]
    · contradiction
  rw [print, singleton_append, readOperand, if_neg hop, hu]
  exact ha

theorem readPath_pathLexemes (path : List String)
    (h : rest.head? ≠ some (.symbol ".")) : readPath (pathLexemes path ++ rest) = (path, rest) := by
  induction path with
  | nil =>
    show readPath rest = ([], rest)
    unfold readPath
    split
    · rename_i dot name tail
      rw [if_neg]
      rintro rfl
      exact h rfl
    · rfl
  | cons name path ih =>
    show readPath (.symbol "." :: .quoted .double name :: (pathLexemes path ++ rest)) = _
    rw [readPath, if_pos rfl, ih]

theorem readable_column (first : String) (path : List String) :
    (column first path).Readable := by
  refine readable_of_readOperand (fun he _ => ?_) (by simp [print])
  have hu : Unary.of? (.quoted .double first) = none := by
    cases ho : Unary.of? (.quoted .double first) with
    | none => rfl
    | some op =>
      obtain ⟨hl, -⟩ := Unary.of?_eq_some.1 ho
      cases op <;> cases hl
  rw [print, cons_append, readOperand, if_neg (by simp), hu]
  simp only [readAtom, readPath_pathLexemes path he.dot]

theorem opensAt_zero (term : SqlTerm) : term.OpensAt 0 := by
  induction term with
  | binary op left right hl => exact ⟨Nat.zero_le _, hl⟩
  | isIn neg left list hl => exact ⟨Nat.zero_le _, hl⟩
  | ternary op neg left middle right hl => exact ⟨Nat.zero_le _, hl⟩
  | _ => trivial

/-- A closing parenthesis ends every term. -/
theorem endsBefore_close (term : SqlTerm) (rest : List Lexeme) :
    term.EndsBefore (.symbol ")" :: rest) := by
  exact ⟨by simp, by simp [Next.of?_close]⟩

/-- What stands in parentheses is read up to the one that closes them. -/
theorem Readable.inParens {inside : SqlTerm} (h : inside.Readable) (rest : List Lexeme)
    (hm : 3 * inside.print.length + 1 ≤ more) :
    read more 0 (inside.print ++ .symbol ")" :: rest) = some (inside, .symbol ")" :: rest) :=
  h.alone (opensAt_zero inside) (endsBefore_close inside rest) (by simp [Next.of?_close]) hm

theorem Readable.parens {inside : SqlTerm} (h : inside.Readable) :
    (parens inside).Readable := by
  refine readable_of_readOperand (fun {fuel rest} _ hf => ?_) (by simp [print])
  simp only [print, cons_append, length_cons, length_append, length_nil] at hf
  have hr :
      read fuel 0 (inside.print ++ .symbol ")" :: rest) = some (inside, .symbol ")" :: rest) :=
    h.inParens rest (by omega)
  have ht : (SqlTerm.parens inside).print ++ rest =
      .symbol "(" :: (inside.print ++ .symbol ")" :: rest) := by simp [print]
  rw [ht, readOperand, if_pos rfl]
  simp [hr, after?]

theorem Readable.unary {op : Unary} (hb : op ≠ .bang) {opd : SqlTerm}
    (h : opd.Readable) (ho : opd.OpensAt op.rank) :
    (unary op opd).Readable := by
  refine readable_of_readOperand (fun {fuel rest} he hf => ?_) (by simp [print])
  simp only [print, length_cons] at hf
  have hs : ∀ next ∈ Next.of? rest, next.Stops op.rank := fun next hn =>
    Unary.leaves_iff.1 (he.endsAt next hn).1
  have hr : read fuel op.rank (opd.print ++ rest) = some (opd, rest) :=
    h.alone ho ⟨he.dot, fun next hn => (he.endsAt next hn).2⟩ hs (by omega)
  have hop : op.lexeme ≠ .symbol "(" := by cases op <;> decide
  rw [print, cons_append, readOperand, if_neg hop, Unary.of?_eq_some.2 ⟨rfl, hb⟩]
  simp [hr]

/-- An operator after a left operand: the reader gets to the end of the operand, takes the operator
and what stands on its right, and goes on. -/
theorem Readable.operation (whole : SqlTerm) (op : SqlOperator) (tail : List Lexeme)
    (h : left.Readable) (he : left.EndsAt (.operator op.rank))
    (hp : whole.print = left.print ++ op.lexemes ++ tail)
    (hop : ∀ floor, whole.OpensAt floor → floor ≤ op.rank ∧ left.OpensAt floor)
    (hn : ∀ rest, op = .binary .is → (tail ++ rest).head? ≠ some (.word "NOT"))
    (hr : ∀ {fuel rest}, whole.EndsBefore rest → 3 * tail.length + 1 ≤ fuel →
      readRight (fuel + 1) op left (tail ++ rest) = some (whole, rest)) : whole.Readable := by
  intro floor fuel more rest result hw hb hon hm
  obtain ⟨hfl, hl⟩ := hop floor hw
  have ho : SqlOperator.of? (op.lexemes ++ (tail ++ rest)) = some (op, tail ++ rest) :=
    op.of?_lexemes (hn rest)
  have hle : 0 < op.lexemes.length := by
    have ha : ∀ op ∈ SqlOperator.all, 0 < op.lexemes.length := by decide
    exact ha op op.mem_all
  have hd : (op.lexemes ++ (tail ++ rest)).head? ≠ some (.symbol ".") := by
    have ha : ∀ op ∈ SqlOperator.all, ∃ first ∈ op.lexemes.head?, first ≠ .symbol "." := by
      decide
    obtain ⟨first, hf, hot⟩ := ha op op.mem_all
    rw [head?_append, Option.mem_def.1 hf]
    simpa using hot
  have hg (enough : Nat) (hen : fuel + 3 * tail.length + 3 ≤ enough) :
      readOn enough floor left (op.lexemes ++ (tail ++ rest)) = some result := by
    obtain ⟨enough, rfl⟩ : ∃ less, enough = less + 2 := ⟨enough - 2, by omega⟩
    rw [readOn, ho]
    simp only [if_neg (Nat.not_lt.2 hfl), Option.bind_eq_bind, Option.bind_eq_some_iff, Prod.exists]
    exact ⟨whole, rest, hr hb (by omega), hon (enough + 1) (by omega)⟩
  have hre : read more floor (left.print ++ (op.lexemes ++ (tail ++ rest))) = some result := by
    refine h _ _ _ _ _ hl ⟨hd, ?_⟩ hg ?_
    · simpa [Next.of?_of_operator ho] using he
    · rw [hp] at hm
      simp only [length_append] at hm
      omega
  simpa [hp] using hre

theorem print_ne_nil (term : SqlTerm) : term.print ≠ [] := by
  induction term with
  | binary op left right hl => simp [print, hl]
  | isIn neg left list hl => simp [print, hl]
  | ternary op neg left middle right hl => simp [print, hl]
  | _ => simp [print]

theorem Readable.binary {op : Binary} {left right : SqlTerm} (hle : left.Readable)
    (hr : right.Readable) (hen : left.EndsAt (.operator op.rank))
    (ho : right.OpensAt (op.rank + 1))
    (hno : op = .is → right.print.head? ≠ some (.word "NOT")) :
    (binary op left right).Readable := by
  refine operation (.binary op left right) (.binary op) right.print hle hen rfl
    (fun floor h => h) ?_ ?_
  · intro rest his
    cases hp : right.print with
    | nil => exact absurd hp right.print_ne_nil
    | cons first more =>
      have hh := hno (SqlOperator.binary.inj his)
      rw [hp] at hh
      exact hh
  · intro fuel rest hb hf
    have hre : read fuel (op.rank + 1) (right.print ++ rest) = some (right, rest) :=
      hr.alone ho ⟨hb.dot, fun next hn => (hb.endsAt next hn).2⟩
        (fun next hn => (Binary.leaves_iff.1 (hb.endsAt next hn).1).1) hf
    rw [readRight, hre]
    simp only [Option.bind_eq_bind, Option.bind_some]
    split
    · -- an `ESCAPE` would not be left to others
      rename_i neg more he
      have hl := (hb.endsAt .escape (by rw [after?_eq_some.1 he]; rfl)).1
      exact absurd rfl (hl neg)
    · rfl

theorem Readable.isIn (neg : Bool) {list : SqlTerm} (hl : left.Readable)
    (hli : list.Readable) (he : left.EndsAt (.operator equalityRank)) :
    (isIn neg left list).Readable := by
  refine operation (.isIn neg left list) (.isIn neg)
    (.symbol "(" :: list.print ++ [symbol ")"]) hl he (by simp [print]) (fun floor h => h)
    (by simp) ?_
  intro fuel rest _ hf
  simp only [cons_append, length_cons, length_append, length_nil] at hf
  have hr : read fuel 0 (list.print ++ .symbol ")" :: rest) = some (list, .symbol ")" :: rest) :=
    hli.inParens rest (by omega)
  have ht : .symbol "(" :: list.print ++ [symbol ")"] ++ rest =
      .symbol "(" :: (list.print ++ .symbol ")" :: rest) := by simp
  rw [readRight, ht]
  simp [hr, after?]

/-- The middle operand is read up to the word that separates it. -/
theorem Readable.middle {middle : SqlTerm} (h : middle.Readable) {op : Ternary}
    (ho : middle.OpensAt (equalityRank + 1)) (he : middle.EndsAt op.next)
    (rest : List Lexeme) (hmo : 3 * middle.print.length + 1 ≤ more) :
    read more (equalityRank + 1) (middle.print ++ op.separator :: rest) =
      some (middle, op.separator :: rest) := by
  have hn : Next.of? (op.separator :: rest) = some op.next := by
    cases op with
    | between => exact Next.of?_of_operator (SqlOperator.of?_lexemes (.binary .and) (by simp))
    | escape => rfl
  refine h.alone ho ⟨?_, ?_⟩ ?_ hmo
  · cases op <;> simp [Ternary.separator]
  · simpa [hn] using he
  · intro next hm
    rw [hn] at hm
    obtain rfl := Option.some.inj hm
    cases op with
    | between => exact (by decide : Binary.and.rank < equalityRank + 1)
    | escape => trivial

theorem Readable.ternary {op : Ternary} (neg : Bool) {left middle right : SqlTerm}
    (hl : left.Readable) (hmid : middle.Readable) (hri : right.Readable)
    (he : left.EndsAt (.operator equalityRank)) (hm : middle.OpensAt (equalityRank + 1))
    (hmi : middle.EndsAt op.next) (hr : right.OpensAt (equalityRank + 1)) :
    (ternary op neg left middle right).Readable := by
  have hre {fuel : Nat} {rest : List Lexeme}
      (hb : (SqlTerm.ternary op neg left middle right).EndsBefore rest)
      (hf : 3 * (middle.print ++ op.separator :: right.print).length + 1 ≤ fuel) :
      read fuel (equalityRank + 1) (middle.print ++ op.separator :: (right.print ++ rest)) =
          some (middle, op.separator :: (right.print ++ rest)) ∧
        read fuel (equalityRank + 1) (right.print ++ rest) = some (right, rest) := by
    simp only [length_append, length_cons] at hf
    refine ⟨hmid.middle hm hmi _ (by omega), ?_⟩
    exact hri.alone hr ⟨hb.dot, fun next hn => (hb.endsAt next hn).2⟩
      (fun next hn => Ternary.leaves_iff.1 (hb.endsAt next hn).1) (by omega)
  cases op with
  | between =>
    refine operation (.ternary .between neg left middle right) (.between neg)
      (middle.print ++ Ternary.between.separator :: right.print) hl he
      (by simp [print, SqlOperator.lexemes]) (fun floor h => h) (by simp) ?_
    intro fuel rest hb hf
    obtain ⟨hlo, hh⟩ := hre hb hf
    rw [readRight, append_assoc, cons_append, hlo]
    simp [after?, Ternary.separator, hh]
  | escape =>
    refine operation (.ternary .escape neg left middle right) (.binary (.like neg))
      (middle.print ++ Ternary.escape.separator :: right.print) hl he
      (by simp [print, SqlOperator.lexemes, Binary.lexemes, Ternary.opening]) (fun floor h => h)
      (by simp) ?_
    intro fuel rest hb hf
    obtain ⟨hp, hes⟩ := hre hb hf
    rw [readRight, append_assoc, cons_append]
    simp only [Option.bind_eq_bind]
    rw [show read fuel (Binary.rank (.like neg) + 1) _ = _ from hp]
    simp [after?, Ternary.separator, hes]

theorem readable_of_grouped (h : term.Grouped) : term.Readable := by
  induction term with
  | constant lex => exact readable_constant h
  | column first path => exact readable_column first path
  | parens inside ih => exact (ih h).parens
  | unary op opd ih => exact (ih h.2.1).unary h.1 h.2.2
  | binary op left right ihLeft ihRight =>
    obtain ⟨hl, hr, he, ho, hn⟩ := h
    exact (ihLeft hl).binary (ihRight hr) he ho hn
  | isIn neg left list ihLeft ihList =>
    obtain ⟨hl, hli, he⟩ := h
    exact (ihLeft hl).isIn neg (ihList hli) he
  | ternary op neg left middle right ihLeft ihMiddle ihRight =>
    obtain ⟨hl, hmid, hr, he, hm, hmi, hri⟩ := h
    exact (ihLeft hl).ternary neg (ihMiddle hmid) (ihRight hr) he hm
      hmi hri

/-- **SQLite's table gives tokens one term at most.**  Tokens are read as a term exactly if the term
has these tokens and is grouped by the table. -/
theorem ofLexemes?_eq_some_iff :
    ofLexemes? ts = some term ↔ term.print = ts ∧ term.Grouped := by
  constructor
  · intro h
    unfold ofLexemes? at h
    split at h
    · rename_i found hr
      obtain ⟨ht, hi, -⟩ := (sound _).read hr
      obtain rfl := Option.some.inj h
      exact ⟨by simpa using ht.symm, hi.grouped⟩
    · cases h
  · rintro ⟨rfl, hg⟩
    have hn : Next.of? [] = none := rfl
    have hr : read (3 * term.print.length + 1) 0 (term.print ++ []) = some (term, []) :=
      (readable_of_grouped hg).alone (opensAt_zero term) ⟨by simp, by simp [hn]⟩
        (by simp [hn]) (by omega)
    rw [append_nil] at hr
    rw [ofLexemes?, hr]

end SqlTerm

end SqlBridge
