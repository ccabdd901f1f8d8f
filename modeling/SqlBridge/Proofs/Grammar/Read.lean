/-
What a successful reading tells, phrase by phrase.

`Phrase.read` spends one unit of fuel per step down.  `Phrase.Derives` says without fuel, by
recursion on the phrase, what a phrase reads if its names are read in some way, so a reading is
taken apart by pattern matching and never by opening the reader itself.

* `Phrase.Keeps`: a property of readings that the tokens, names and nodes of a phrase have, and with
  them what the phrase reads (`Phrase.Keeps.of_derives`).
* `Phrase.derives_of_read`: a property of the readings of all names, if it carries over from the
  names in a production to the production, carries over to every reading.
-/
import SqlBridge.Grammar.Phrase

namespace SqlBridge.Grammar.Phrase

variable {grammar : Name → Phrase} {fuel : Nat} {ts rest : List Token} {trees : List Tree}
  {names : Name → Reads}

/-! ### Tests -/

theorem kind_of_oneOf {keywords : List Keyword} {token : Token}
    (h : Lookahead.oneOf keywords token) :
    ∃ keyword ∈ keywords, token.kind = .keyword keyword := by
  unfold Lookahead.oneOf Token.keyword? at h
  split at h
  · rename_i keyword hk
    exact ⟨keyword, by simpa using h, hk⟩
  · cases h

/-- A test of the next token says that there is one. -/
theorem exists_of_nth {test : Token → Bool} (h : Lookahead.nth 0 test ts) :
    ∃ token after, ts = token :: after ∧ test token := by
  cases ts with
  | nil => cases h
  | cons token after => exact ⟨token, after, rfl, by simpa [Lookahead.nth] using h⟩

/-! ### Readings without fuel -/

/-- From some tokens, trees are read and other tokens left. -/
abbrev Reads := List Token → List Tree → List Token → Prop

/-- The rounds of a loop, a row of trees each. -/
inductive Rounds (test : Lookahead) (body : Reads) :
  List Token → List (List Tree) → List Token → Prop
  | stop {ts : List Token} (h : test ts = false) : Rounds test body ts [] ts
  | round {ts middle rest : List Token} {row : List Tree} {rows : List (List Tree)}
      (ht : test ts) (hb : body ts row middle) (hr : Rounds test body middle rows rest) :
      Rounds test body ts (row :: rows) rest

/-- What a phrase reads, if names are read as told. -/
def Derives (names : Name → Reads) : Phrase → Reads
  | .nothing, ts, trees, rest => trees = [] ∧ rest = ts
  | .token accepts _, ts, trees, rest =>
    ∃ token, ts = token :: rest ∧ accepts token ∧ trees = [.leaf token]
  | .asComma accepts _ place, ts, trees, rest =>
    ∃ token, ts = token :: rest ∧ accepts token ∧ trees = [.leaf (place.comma token rest)]
  | .ref name, ts, trees, rest => names name ts trees rest
  | .seq first second, ts, trees, rest =>
    ∃ left middle right, first.Derives names ts left middle ∧
      second.Derives names middle right rest ∧ trees = left ++ right
  | .choose test yes no, ts, trees, rest =>
    test ts ∧ yes.Derives names ts trees rest ∨
      test ts = false ∧ no.Derives names ts trees rest
  | .loop test body, ts, trees, rest =>
    ∃ rows, Rounds test (body.Derives names) ts rows rest ∧ trees = rows.flatten
  | .node rule body, ts, trees, rest =>
    ∃ children, body.Derives names ts children rest ∧ trees = [.node (rule children) children]
  | .extend test rule base tail, ts, trees, rest =>
    ∃ left middle, base.Derives names ts left middle ∧
      ((test middle ∧ ∃ right, tail.Derives names middle right rest ∧
        trees = [.node rule (left ++ right)]) ∨ (trees = left ∧ rest = middle))
  | .climb test rule base tail, ts, trees, rest =>
    ∃ left middle rows, base.Derives names ts left middle ∧
      Rounds test (tail.Derives names) middle rows rest ∧ trees = chain rule left rows
  | .refuse _, _, _, _ => False

/-- What holds of every row that the body reads where the test holds. -/
theorem Rounds.forall {test : Lookahead} {body : Reads} {rows : List (List Tree)}
    {p : List Tree → Prop} (h : Rounds test body ts rows rest)
    (hb : ∀ ts row rest, test ts → body ts row rest → p row) : ∀ row ∈ rows, p row := by
  induction h with
  | stop => simp
  | round ht hr _ ih => exact List.forall_mem_cons.2 ⟨hb _ _ _ ht hr, ih⟩

/-- Readings of the tokens, names and nodes of a phrase have a property. -/
@[simp]
def Keeps (names : Name → Reads) (want : Reads) : Phrase → Prop
  | .nothing | .refuse _ => True
  | .token accepts _ => ∀ token rest, accepts token → want (token :: rest) [.leaf token] rest
  | .asComma accepts _ place =>
    ∀ token rest, accepts token → want (token :: rest) [.leaf (place.comma token rest)] rest
  | .ref name => ∀ ts trees rest, names name ts trees rest → want ts trees rest
  | .seq first second => first.Keeps names want ∧ second.Keeps names want
  | .choose _ yes no => yes.Keeps names want ∧ no.Keeps names want
  | .loop _ body => body.Keeps names want
  | .node rule body => (∀ ts trees rest, want ts [.node (rule trees) trees] rest) ∨
      body.Keeps names want ∧ ∀ ts trees rest, body.Derives names ts trees rest →
        want ts trees rest → want ts [.node (rule trees) trees] rest
  | .extend _ rule base tail | .climb _ rule base tail =>
    base.Keeps names want ∧ tail.Keeps names want ∧
      ∀ ts trees rest, want ts trees rest → want ts [.node rule trees] rest

/-- What a phrase reads has a property that goes from parts to rows of them. -/
theorem Keeps.of_derives {want : Reads} {phrase : Phrase} (nothing : ∀ ts, want ts [] ts)
    (append : ∀ {ts left middle right rest}, want ts left middle → want middle right rest →
      want ts (left ++ right) rest)
    (h : phrase.Keeps names want) (hr : phrase.Derives names ts trees rest) :
    want ts trees rest := by
  induction phrase generalizing ts trees rest with
  | nothing =>
    obtain ⟨rfl, rfl⟩ := hr
    exact nothing _
  | token | asComma =>
    obtain ⟨token, rfl, ha, rfl⟩ := hr
    exact h token rest ha
  | ref => exact h ts trees rest hr
  | seq first second ihFirst ihSecond =>
    obtain ⟨left, middle, right, hl, hri, rfl⟩ := hr
    exact append (ihFirst h.1 hl) (ihSecond h.2 hri)
  | choose test yes no ihYes ihNo =>
    exact hr.elim (fun hr => ihYes h.1 hr.2) fun hr => ihNo h.2 hr.2
  | loop test body ih =>
    obtain ⟨rows, hro, rfl⟩ := hr
    induction hro with
    | stop => exact nothing _
    | round _ hb _ ihRounds => exact append (ih h hb) ihRounds
  | node rule body ih =>
    obtain ⟨kids, hb, rfl⟩ := hr
    exact h.elim (fun h => h ts kids rest) fun h => h.2 ts kids rest hb (ih h.1 hb)
  | extend test rule base tail ihBase ihTail =>
    obtain ⟨left, middle, hb, ⟨-, right, ht, rfl⟩ | ⟨rfl, rfl⟩⟩ := hr
    · exact h.2.2 _ _ _ (append (ihBase h.1 hb) (ihTail h.2.1 ht))
    · exact ihBase h.1 hb
  | climb test rule base tail ihBase ihTail =>
    -- each round of the chain goes over what was read before it
    obtain ⟨left, middle, rows, hb, hro, rfl⟩ := hr
    have hleft := ihBase h.1 hb
    clear hb
    induction hro generalizing left with
    | stop => exact hleft
    | round _ ht _ ihRounds => exact ihRounds _ (h.2.2 _ _ _ (append hleft (ihTail h.2.1 ht)))
  | refuse => exact hr.elim

/-- From a step after another to the first step. -/
theorem bind_eq_ok {α β : Type} {outcome : Except Error α} {next : α → Except Error β} {b : β}
    (h : outcome >>= next = .ok b) : ∃ a, outcome = .ok a ∧ next a = .ok b := by
  cases outcome with
  | ok a => exact ⟨a, rfl, h⟩
  | error error => cases h

theorem take_eq_ok {accepts : Token → Bool} {expected : String}
    {keep : Token → List Token → Token} (h : take accepts expected keep ts = .ok (trees, rest)) :
    ∃ token, ts = token :: rest ∧ accepts token ∧ trees = [.leaf (keep token rest)] := by
  unfold take at h
  split at h
  · rename_i token others
    split at h
    · rename_i ha
      cases h
      exact ⟨token, rfl, ha, rfl⟩
    · cases h
  · cases h

/-- By induction on the fuel: what is read is derived, if the productions derive no more than their
names are read as. -/
theorem derives_of_readWhile (h : ∀ name ts trees rest, (grammar name).Derives names ts trees rest →
      names name ts trees rest) (fuel : Nat) :
    (∀ phrase ts trees rest, read grammar fuel phrase ts = .ok (trees, rest) →
      phrase.Derives names ts trees rest) ∧
    (∀ test body ts rows rest, readWhile grammar fuel test body ts = .ok (rows, rest) →
      Rounds test (body.Derives names) ts rows rest) := by
  induction fuel with
  | zero => exact ⟨fun _ _ _ _ hr => (by cases hr), fun _ _ _ _ _ hr => (by cases hr)⟩
  | succ fuel ih =>
    obtain ⟨reads, repeats⟩ := ih
    refine ⟨fun phrase ts trees rest hr => ?_, fun test body ts rows rest hr => ?_⟩
    · cases phrase with
      | nothing =>
        cases hr
        exact ⟨rfl, rfl⟩
      | token accepts expected => exact take_eq_ok hr
      | asComma accepts expected place => exact take_eq_ok hr
      | ref name => exact h name ts trees rest (reads _ _ _ _ hr)
      | seq first second =>
        obtain ⟨⟨left, middle⟩, hl, hr⟩ := bind_eq_ok hr
        obtain ⟨⟨right, after⟩, hri, hr⟩ := bind_eq_ok hr
        cases hr
        exact ⟨left, middle, right, reads _ _ _ _ hl, reads _ _ _ _ hri, rfl⟩
      | choose test yes no =>
        simp only [read] at hr
        cases ht : test ts with
        | true => exact .inl ⟨ht, reads _ _ _ _ (by simpa [ht] using hr)⟩
        | false => exact .inr ⟨ht, reads _ _ _ _ (by simpa [ht] using hr)⟩
      | loop test body =>
        obtain ⟨⟨rows, after⟩, hro, hr⟩ := bind_eq_ok hr
        cases hr
        exact ⟨rows, repeats _ _ _ _ _ hro, rfl⟩
      | node rule body =>
        obtain ⟨⟨kids, after⟩, hb, hr⟩ := bind_eq_ok hr
        cases hr
        exact ⟨kids, reads _ _ _ _ hb, rfl⟩
      | extend test rule base tail =>
        obtain ⟨⟨left, middle⟩, hb, hr⟩ := bind_eq_ok hr
        refine ⟨left, middle, reads _ _ _ _ hb, ?_⟩
        dsimp only at hr
        split at hr
        · rename_i hte
          obtain ⟨⟨right, after⟩, ht, hr⟩ := bind_eq_ok hr
          cases hr
          exact .inl ⟨hte, right, reads _ _ _ _ ht, rfl⟩
        · cases hr
          exact .inr ⟨rfl, rfl⟩
      | climb test rule base tail =>
        obtain ⟨⟨left, middle⟩, hb, hr⟩ := bind_eq_ok hr
        obtain ⟨⟨rows, after⟩, hro, hr⟩ := bind_eq_ok hr
        cases hr
        exact ⟨left, middle, rows, reads _ _ _ _ hb, repeats _ _ _ _ _ hro, rfl⟩
      | refuse refusal => cases hr
    · rw [readWhile] at hr
      split at hr
      · rename_i ht
        obtain ⟨⟨row, middle⟩, hro, hr⟩ := bind_eq_ok hr
        obtain ⟨⟨others, after⟩, ho, hr⟩ := bind_eq_ok hr
        cases hr
        exact .round ht (reads _ _ _ _ hro) (repeats _ _ _ _ _ ho)
      · rename_i ht
        cases hr
        exact .stop (by simpa using ht)

theorem derives_of_read (h : ∀ name ts trees rest, (grammar name).Derives names ts trees rest →
      names name ts trees rest) {phrase : Phrase}
    (hr : read grammar fuel phrase ts = .ok (trees, rest)) : phrase.Derives names ts trees rest :=
  (derives_of_readWhile h fuel).1 phrase ts trees rest hr

/-- What the first of several phrases whose test holds reads, one of them reads. -/
theorem derives_firstOf {otherwise : Phrase} {entries : List (Lookahead × Phrase)}
    (h : (firstOf otherwise entries).Derives names ts trees rest) :
    otherwise.Derives names ts trees rest ∨ ∃ entry ∈ entries, entry.1 ts ∧
      entry.2.Derives names ts trees rest := by
  induction entries with
  | nil => exact .inl h
  | cons entry entries ih =>
    rcases h with ⟨ht, hy⟩ | ⟨-, hno⟩
    · exact .inr ⟨entry, by simp, ht, hy⟩
    · exact (ih hno).imp_right fun ⟨other, ho, hd⟩ => ⟨other, by simp [ho], hd⟩

end SqlBridge.Grammar.Phrase
