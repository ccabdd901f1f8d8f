/-
Reading ends, and moves on.

`Phrase.read` calls itself for the parts of a phrase and for what names stand for.  `Calls` is this
relation between calls, a phrase and the tokens ahead each.  Some of its steps take no token: they
lead down the ladder of expressions, or to a part of the phrase.  `Phrase.span` counts them, so the
tokens ahead and the span together (`Call.weight`) get less with every call.

* `Phrase.Steps`, `Phrase.sober`: what is checked of the grammar.  Loops and nodes take a token, and
  no test of a token takes the ending.
* `Call.IsSound.step`: the calls of a sound call are sound and weigh less.
* `settles_of_calls`: with fuel beyond its weight a call comes to an end, if the calls it makes do.
* `reading_progresses`: what follows for every row of tokens with one ending, at its end.
-/
import Mathlib.Data.List.Permutation
import Mathlib.Logic.Relation
import SqlBridge.Grammar.Statement
import SqlBridge.Proofs.Grammar.Read
import SqlBridge.Proofs.Token.Ending

namespace SqlBridge.Grammar

open Phrase List Relation

theorem endsOnce_tail {token : Token} {ts : List Token} (h : Token.EndsOnce (token :: ts))
    (ht : token.isEnding = false) : Token.EndsOnce ts := by
  obtain ⟨before, ending, he, hending, hb⟩ := h
  cases before with
  | nil =>
    cases he
    rw [hending] at ht
    cases ht
  | cons other before =>
    cases he
    exact ⟨before, ending, rfl, hending, fun token hm => hb token (by simp [hm])⟩

/-- A bound for the span of what a name stands for. -/
def Name.span : Name → Nat
  | .expression => 110
  | .negation => 100
  | .predicate => 90
  | .operand => 80
  | .simpleExpression => 50
  | .queryExpression | .tableReferences => 20

/-! ### Phrases that take a token -/

namespace Phrase

variable {phrase : Phrase} {ts rest : List Token} {trees : List Tree}

/-- Whether a phrase takes a token wherever it is read. -/
def moves : Phrase → Bool
  | .nothing | .loop _ _ => false
  | .token _ _ | .asComma _ _ _ | .ref _ | .refuse _ => true
  | .seq first second => first.moves || second.moves
  | .choose _ yes no => yes.moves && no.moves
  | .node _ body => body.moves
  | .extend _ _ base _ | .climb _ _ base _ => base.moves

/-- A phrase takes a token at the head of some tokens, of which its tests may tell more. -/
def MovesAt : Phrase → List Token → Prop
  | .nothing, _ => False
  | .token _ _, _ | .asComma _ _ _, _ | .ref _, _ | .refuse _, _ => True
  | .seq first second, ts => first.MovesAt ts ∨ ∀ rest, second.MovesAt rest
  | .choose test yes no, ts =>
    (test ts → yes.MovesAt ts) ∧ (test ts = false → no.MovesAt ts)
  | .loop test body, ts => test ts ∧ body.MovesAt ts
  | .node _ body, ts => body.MovesAt ts
  | .extend _ _ base _, ts | .climb _ _ base _, ts => base.MovesAt ts

/-- How many steps down a phrase may take before the first token. -/
def span : Phrase → Nat
  | .nothing | .token _ _ | .asComma _ _ _ | .refuse _ => 0
  | .ref name => name.span + 1
  | .seq first second => max first.span (if first.moves then 0 else second.span) + 1
  | .choose _ yes no => max yes.span no.span + 1
  | .loop _ body => body.span + 2
  | .node _ body => body.span + 1
  | .extend _ _ base _ => base.span + 1
  | .climb _ _ base _ => base.span + 2

/-- Whether what may come after a token has a span that one token outweighs. -/
def fits : Phrase → Bool
  | .nothing | .token _ _ | .asComma _ _ _ | .ref _ | .refuse _ => true
  | .seq first second => first.fits && second.fits && second.span < 900
  | .choose _ yes no => yes.fits && no.fits
  | .loop _ body | .node _ body => body.fits
  | .extend _ _ base tail | .climb _ _ base tail => base.fits && tail.fits && tail.span < 900

/-- Whether no test of a token takes the ending, except maybe the last one. -/
def sober (last : Bool) (value : String) (position : Nat) : Phrase → Bool
  | .nothing | .ref _ | .refuse _ => true
  | .token accepts _ | .asComma accepts _ _ => last || !accepts ⟨.ending, value, position⟩
  | .seq first second => first.sober false value position && second.sober last value position
  | .choose _ yes no => yes.sober last value position && no.sober last value position
  | .loop _ body => body.sober false value position
  | .node _ body => body.sober last value position
  | .extend _ _ base tail | .climb _ _ base tail =>
    base.sober false value position && tail.sober false value position

/-- The rounds of loops take a token, and nodes are made of some, except the empty row of values. -/
def Steps : Phrase → List Token → Prop
  | .nothing, _ | .token _ _, _ | .asComma _ _ _, _ | .ref _, _ | .refuse _, _ => True
  | .seq first second, ts => first.Steps ts ∧ ∀ rest, second.Steps rest
  | .choose test yes no, ts =>
    (test ts → yes.Steps ts) ∧ (test ts = false → no.Steps ts)
  | .loop test body, _ => ∀ ts, test ts → body.MovesAt ts ∧ body.Steps ts
  | .node rule body, ts => (body.MovesAt ts ∨ (∀ kids, rule kids = .values) ∧
      ∃ test yes, body = Phrase.optional test yes ∧ yes.moves) ∧ body.Steps ts
  | .extend test _ base tail, ts =>
    base.MovesAt ts ∧ base.Steps ts ∧ ∀ rest, test rest → tail.Steps rest
  | .climb test _ base tail, ts =>
    base.MovesAt ts ∧ base.Steps ts ∧
      ∀ rest, test rest → tail.MovesAt rest ∧ tail.Steps rest

/-- Whether a phrase steps wherever it is read. -/
def steady : Phrase → Bool
  | .nothing | .token _ _ | .asComma _ _ _ | .ref _ | .refuse _ => true
  | .seq first second => first.steady && second.steady
  | .choose _ yes no => yes.steady && no.steady
  | .loop _ body | .node _ body => body.moves && body.steady
  | .extend _ _ base tail => base.moves && base.steady && tail.steady
  | .climb _ _ base tail => base.moves && base.steady && (tail.moves && tail.steady)

theorem movesAt_of_moves (h : phrase.moves) : phrase.MovesAt ts := by
  induction phrase generalizing ts with
  | nothing => cases h
  | token | asComma | ref | refuse => trivial
  | seq first second ihFirst ihSecond =>
    exact (Bool.or_eq_true_iff.1 h).imp ihFirst fun h _ => ihSecond h
  | choose test yes no ihYes ihNo =>
    obtain ⟨hy, hn⟩ := Bool.and_eq_true_iff.1 h
    exact ⟨fun _ => ihYes hy, fun _ => ihNo hn⟩
  | loop => cases h
  | node rule body ih => exact ih h
  | extend test rule base tail ih => exact ih h
  | climb test rule base tail ih => exact ih h

theorem steps_of_steady (h : phrase.steady) : phrase.Steps ts := by
  induction phrase generalizing ts with
  | nothing | token | asComma | ref | refuse => trivial
  | seq first second ihFirst ihSecond =>
    obtain ⟨hf, hs⟩ := Bool.and_eq_true_iff.1 h
    exact ⟨ihFirst hf, fun _ => ihSecond hs⟩
  | choose test yes no ihYes ihNo =>
    obtain ⟨hy, hn⟩ := Bool.and_eq_true_iff.1 h
    exact ⟨fun _ => ihYes hy, fun _ => ihNo hn⟩
  | loop test body ih =>
    obtain ⟨hm, hs⟩ := Bool.and_eq_true_iff.1 h
    exact fun _ _ => ⟨movesAt_of_moves hm, ih hs⟩
  | node rule body ih =>
    obtain ⟨hm, hs⟩ := Bool.and_eq_true_iff.1 h
    exact ⟨.inl (movesAt_of_moves hm), ih hs⟩
  | extend test rule base tail ihBase ihTail =>
    obtain ⟨h, ht⟩ := Bool.and_eq_true_iff.1 h
    obtain ⟨hm, hb⟩ := Bool.and_eq_true_iff.1 h
    exact ⟨movesAt_of_moves hm, ihBase hb, fun _ _ => ihTail ht⟩
  | climb test rule base tail ihBase ihTail =>
    obtain ⟨h, ht⟩ := Bool.and_eq_true_iff.1 h
    obtain ⟨hm, hb⟩ := Bool.and_eq_true_iff.1 h
    obtain ⟨htm, ht⟩ := Bool.and_eq_true_iff.1 ht
    exact ⟨movesAt_of_moves hm, ihBase hb, fun _ _ => ⟨movesAt_of_moves htm, ihTail ht⟩⟩

/-- From some tokens to fewer, and not past the ending. -/
structure Advances (ts rest : List Token) : Prop where
  suffix : rest <:+ ts
  shorter : rest.length < ts.length
  ends : Token.EndsOnce ts → Token.EndsOnce rest

/-- Names are read as phrases that take a token. -/
abbrev Moving : Name → Reads := fun _ ts _ rest => Advances ts rest

theorem suffix_of_derives (h : phrase.Derives Moving ts trees rest) : rest <:+ ts := by
  have hk : phrase.Keeps Moving fun ts _ rest => rest <:+ ts := by
    clear h
    induction phrase with
    | token | asComma => exact fun token rest _ => suffix_cons token rest
    | ref => exact fun _ _ _ h => h.suffix
    | _ => simp_all [Keeps]
  exact hk.of_derives (fun _ => suffix_rfl) (fun hl hr => hr.trans hl) h

theorem length_le_of_derives (h : phrase.Derives Moving ts trees rest) : rest.length ≤ ts.length :=
  (suffix_of_derives h).length_le

theorem length_le_of_rounds {test : Lookahead} {rows : List (List Tree)}
    (h : Rounds test (phrase.Derives Moving) ts rows rest) : rest.length ≤ ts.length :=
  have hl : (loop test phrase).Derives Moving ts rows.flatten rest := ⟨rows, h, rfl⟩
  length_le_of_derives hl

theorem shorter_of_derives (hm : phrase.MovesAt ts) (h : phrase.Derives Moving ts trees rest) :
    rest.length < ts.length := by
  induction phrase generalizing ts trees rest with
  | nothing => exact hm.elim
  | token | asComma =>
    obtain ⟨token, rfl, -, -⟩ := h
    exact Nat.lt_succ_self _
  | ref => exact h.shorter
  | seq first second ihFirst ihSecond =>
    obtain ⟨left, middle, right, hl, hr, -⟩ := h
    rcases hm with hm | hm
    · exact Nat.lt_of_le_of_lt (length_le_of_derives hr) (ihFirst hm hl)
    · exact Nat.lt_of_lt_of_le (ihSecond (hm middle) hr) (length_le_of_derives hl)
  | choose test yes no ihYes ihNo =>
    rcases h with ⟨ht, h⟩ | ⟨ht, h⟩
    · exact ihYes (hm.1 ht) h
    · exact ihNo (hm.2 ht) h
  | loop test body ih =>
    obtain ⟨rows, hr, -⟩ := h
    cases hr with
    | stop ht =>
      rw [hm.1] at ht
      cases ht
    | round _ hb hr => exact Nat.lt_of_le_of_lt (length_le_of_rounds hr) (ih hm.2 hb)
  | node rule body ih =>
    obtain ⟨kids, hb, -⟩ := h
    exact ih hm hb
  | extend test rule base tail ihBase _ =>
    obtain ⟨left, middle, hb, ⟨-, right, ht, -⟩ | ⟨-, rfl⟩⟩ := h
    · exact Nat.lt_of_le_of_lt (length_le_of_derives ht) (ihBase hm hb)
    · exact ihBase hm hb
  | climb test rule base tail ihBase _ =>
    obtain ⟨left, middle, rows, hb, hr, -⟩ := h
    exact Nat.lt_of_le_of_lt (length_le_of_rounds hr) (ihBase hm hb)
  | refuse => exact h.elim

/-- What is left is not past the ending. -/
theorem ends_of_derives (hs : ∀ value position, phrase.sober false value position)
    (h : phrase.Derives Moving ts trees rest) (he : Token.EndsOnce ts) : Token.EndsOnce rest := by
  have hk : phrase.Keeps Moving fun ts _ rest => Token.EndsOnce ts → Token.EndsOnce rest := by
    clear h
    induction phrase with
    | token accepts | asComma accepts =>
      intro token rest ha he
      refine endsOnce_tail he ?_
      rcases token with ⟨kind, value, position⟩
      have hf := hs value position
      cases kind <;> first | rfl | simp [ha, sober] at hf
    | ref => exact fun _ _ _ h => h.ends
    | _ => simp_all [Keeps, sober]
  exact hk.of_derives (fun _ => id) (fun hl hr he => hr (hl he)) h he

/-- What takes no token makes no tree, except the empty row of values. -/
theorem shorter_or_of_derives (hs : phrase.Steps ts) (h : phrase.Derives Moving ts trees rest) :
    rest.length < ts.length ∨ ∀ tree ∈ trees, tree = .node .values [] := by
  induction phrase generalizing ts trees rest with
  | nothing => exact .inr (by simp [h.1])
  | token | asComma | ref | refuse => exact .inl (shorter_of_derives (movesAt_of_moves rfl) h)
  | seq first second ihFirst ihSecond =>
    obtain ⟨left, middle, right, hl, hr, rfl⟩ := h
    rcases ihFirst hs.1 hl with hf | hf
    · exact .inl (Nat.lt_of_le_of_lt (length_le_of_derives hr) hf)
    · rcases ihSecond (hs.2 middle) hr with hse | hse
      · exact .inl (Nat.lt_of_lt_of_le hse (length_le_of_derives hl))
      · exact .inr (forall_mem_append.2 ⟨hf, hse⟩)
  | choose test yes no ihYes ihNo =>
    rcases h with ⟨ht, h⟩ | ⟨ht, h⟩
    · exact ihYes (hs.1 ht) h
    · exact ihNo (hs.2 ht) h
  | loop test body ih =>
    by_cases ht : test ts
    · have hm : (loop test body).MovesAt ts := ⟨ht, (hs ts ht).1⟩
      exact .inl (shorter_of_derives hm h)
    · obtain ⟨rows, hr, rfl⟩ := h
      cases hr with
      | stop => exact .inr (by simp)
      | round hte => exact absurd hte ht
  | node rule body ih =>
    obtain ⟨kids, hb, rfl⟩ := h
    rcases hs.1 with hm | ⟨hr, test, yes, rfl, hy⟩
    · exact .inl (shorter_of_derives hm hb)
    · rcases hb with ⟨-, hb⟩ | ⟨-, rfl, -⟩
      · exact .inl (shorter_of_derives (movesAt_of_moves hy) hb)
      · exact .inr (by simp [hr])
  | extend test rule base tail =>
    have hm : (extend test rule base tail).MovesAt ts := hs.1
    exact .inl (shorter_of_derives hm h)
  | climb test rule base tail =>
    have hm : (climb test rule base tail).MovesAt ts := hs.1
    exact .inl (shorter_of_derives hm h)

end Phrase

/-! ### The grammar -/

section Productions

variable (name : Name) (ts : List Token)

theorem span_productions :
    (productions name).span ≤ name.span ∧ (productions name).fits := by
  cases name <;> decide

theorem fits_query : query.fits ∧ query.span < 900 ∧
    ∀ value position, query.sober true value position :=
  ⟨by decide, by decide, fun _ _ => by cbv⟩

theorem sober_productions (value : String) (position : Nat) :
    (productions name).sober false value position := by
  cases name <;> rfl

theorem steps_row_one {phrase : Phrase} {ts : List Token} (h : phrase.Steps ts) :
    (row [phrase]).Steps ts := h

theorem movesAt_textString : textString.MovesAt ts :=
  ⟨fun h => ⟨h, trivial⟩, fun _ => trivial⟩

/-- One of several phrases takes a token where one of their tests holds. -/
theorem movesAt_firstOf {otherwise : Phrase} {entries : List (Lookahead × Phrase)} {ts : List Token}
    (h : entries.all (·.2.moves)) (ht : entries.any (·.1 ts)) :
    (firstOf otherwise entries).MovesAt ts := by
  induction entries with
  | nil => cases ht
  | cons entry entries ih =>
    obtain ⟨hm, h⟩ := Bool.and_eq_true_iff.1 h
    refine ⟨fun _ => movesAt_of_moves hm, fun hf => ih h ?_⟩
    simpa [hf] using ht

theorem steps_textString : textString.Steps ts :=
  ⟨fun h => ⟨.inl ⟨h, trivial⟩, fun _ _ => ⟨trivial, trivial⟩⟩, fun _ => trivial⟩

theorem steps_optionalFieldOptions : optionalFieldOptions.Steps ts :=
  ⟨fun h => ⟨.inl ⟨h, trivial⟩, fun _ _ => ⟨trivial, trivial⟩⟩, fun _ => trivial⟩

theorem steps_dataType : dataType.Steps ts := by
  repeat' first
    | with_reducible exact steps_textString _
    | with_reducible exact steps_optionalFieldOptions _
    | with_reducible apply steps_row_one
    | exact steps_of_steady (by decide)
    | intro _
    | exact .inl (movesAt_of_moves (by decide))
    | apply And.intro

theorem steps_simpleBase : simpleBase.Steps ts := by
  repeat' first
    | with_reducible exact steps_textString _
    | with_reducible apply steps_row_one
    | exact steps_of_steady (by decide)
    | exact .inl (movesAt_of_moves (by decide))
    | exact .inl (movesAt_textString _)
    | intro _
    | apply And.intro

theorem movesAt_simpleBase : simpleBase.MovesAt ts := by
  repeat' first
    | exact movesAt_of_moves (by decide)
    | exact movesAt_textString _
    | intro _
    | apply And.intro

theorem steps_columnDefinition : columnDefinition.Steps ts := by
  repeat' first
    | with_reducible exact steps_textString _
    | with_reducible exact steps_dataType _
    | with_reducible apply steps_row_one
    | exact steps_of_steady (by decide)
    | exact .inl (movesAt_of_moves (by decide))
    | exact movesAt_firstOf rfl (by assumption)
    | intro _
    | apply And.intro

theorem steps_indexOptionList : indexOptionList.Steps ts := by
  repeat' first
    | with_reducible exact steps_textString _
    | with_reducible apply steps_row_one
    | exact steps_of_steady (by decide)
    | exact .inl (movesAt_of_moves (by decide))
    | exact movesAt_firstOf rfl (by assumption)
    | intro _
    | apply And.intro

theorem steps_query : query.Steps ts := by
  repeat' first
    | with_reducible exact steps_textString _
    | with_reducible exact steps_columnDefinition _
    | with_reducible exact steps_indexOptionList _
    | with_reducible apply steps_row_one
    | exact steps_of_steady (by decide)
    | exact .inl (movesAt_of_moves (by decide))
    | exact movesAt_of_moves (by decide)
    | exact .inr ⟨fun _ => rfl, _, _, rfl, rfl⟩
    | intro _
    | apply And.intro

theorem steps_productions : (productions name).Steps ts := by
  cases name with
  | simpleExpression =>
    exact ⟨movesAt_simpleBase ts, steps_simpleBase ts, fun _ _ => steps_of_steady (by decide)⟩
  | _ => exact steps_of_steady (by decide)

theorem movesAt_productions : (productions name).MovesAt ts := by
  cases name with
  | simpleExpression => exact movesAt_simpleBase ts
  | _ => exact movesAt_of_moves (by decide)

end Productions

/-! ### Calls of the reader -/

/-- A phrase to be read at the head of some tokens. -/
structure Call where
  phrase : Phrase
  tokens : List Token

namespace Call

variable {call inner : Call} {trees : List Tree} {rest : List Token}

/-- What a call reads, with fuel enough. -/
def Gives (call : Call) (trees : List Tree) (rest : List Token) : Prop :=
  ∃ fuel, read productions fuel call.phrase call.tokens = .ok (trees, rest)

/-- One round of a loop, and what is left after it. -/
def Turn (test : Lookahead) (body : Phrase) (ts rest : List Token) : Prop :=
  test ts ∧ ∃ row, (Call.mk body ts).Gives row rest

/-- The rounds of the loop that a call runs. -/
inductive Repeats : Call → Call → Prop
  | loop {test : Lookahead} {body : Phrase} {ts middle : List Token}
      (hr : ReflTransGen (Turn test body) ts middle) (ht : test middle) :
      Repeats ⟨.loop test body, ts⟩ ⟨body, middle⟩
  | climb {test : Lookahead} {rule : Rule} {base tail : Phrase} {ts after middle : List Token}
      {trees : List Tree} (hb : Gives ⟨base, ts⟩ trees after)
      (hr : ReflTransGen (Turn test tail) after middle) (ht : test middle) :
      Repeats ⟨.climb test rule base tail, ts⟩ ⟨tail, middle⟩

/-- The calls that a call makes itself. -/
inductive Calls : Call → Call → Prop
  | name {name : Name} {ts : List Token} : Calls ⟨.ref name, ts⟩ ⟨productions name, ts⟩
  | first {first second : Phrase} {ts : List Token} : Calls ⟨.seq first second, ts⟩ ⟨first, ts⟩
  | second {first second : Phrase} {ts rest : List Token} {trees : List Tree}
      (hf : Gives ⟨first, ts⟩ trees rest) : Calls ⟨.seq first second, ts⟩ ⟨second, rest⟩
  | choice {test : Lookahead} {yes no : Phrase} {ts : List Token} :
      Calls ⟨.choose test yes no, ts⟩ ⟨if test ts then yes else no, ts⟩
  | inside {rule : List Tree → Rule} {body : Phrase} {ts : List Token} :
      Calls ⟨.node rule body, ts⟩ ⟨body, ts⟩
  | extended {test : Lookahead} {rule : Rule} {base tail : Phrase} {ts : List Token} :
      Calls ⟨.extend test rule base tail, ts⟩ ⟨base, ts⟩
  | extension {test : Lookahead} {rule : Rule} {base tail : Phrase} {ts rest : List Token}
      {trees : List Tree} (hb : Gives ⟨base, ts⟩ trees rest) (ht : test rest) :
      Calls ⟨.extend test rule base tail, ts⟩ ⟨tail, rest⟩
  | climbed {test : Lookahead} {rule : Rule} {base tail : Phrase} {ts : List Token} :
      Calls ⟨.climb test rule base tail, ts⟩ ⟨base, ts⟩
  | round {call inner : Call} (h : Repeats call inner) : Calls call inner

/-- A bound for the steps down that are left. -/
def weight (call : Call) : Nat := 1000 * call.tokens.length + call.phrase.span

/-- What every call has that is made for a row of tokens with its ending. -/
structure IsSound (call : Call) : Prop where
  ends : Token.EndsOnce call.tokens
  fits : call.phrase.fits
  sober : ∃ last, ∀ value position, call.phrase.sober last value position
  steps : call.phrase.Steps call.tokens

theorem Gives.derives (h : call.Gives trees rest) :
    call.phrase.Derives Moving call.tokens trees rest := by
  obtain ⟨fuel, h⟩ := h
  refine derives_of_read (fun name ts trees rest hd => ?_) h
  exact ⟨suffix_of_derives hd, shorter_of_derives (movesAt_productions name ts) hd,
    ends_of_derives (sober_productions name) hd⟩

theorem turns_advance {test : Lookahead} {body : Phrase} {ts middle : List Token}
    (hs : ∀ value position, body.sober false value position) (he : Token.EndsOnce ts)
    (hr : ReflTransGen (Turn test body) ts middle) : middle <:+ ts ∧ Token.EndsOnce middle := by
  induction hr with
  | refl => exact ⟨suffix_rfl, he⟩
  | tail _ hturn ih =>
    obtain ⟨-, row, hg⟩ := hturn
    exact ⟨(suffix_of_derives hg.derives).trans ih.1, ends_of_derives hs hg.derives ih.2⟩

/-- The rounds of loops take a token. -/
theorem IsSound.shorter_of_repeats (h : call.IsSound) (hr : Repeats call inner)
    (hg : inner.Gives trees rest) : rest.length < inner.tokens.length := by
  cases hr with
  | loop _ ht => exact shorter_of_derives (h.steps _ ht).1 hg.derives
  | climb _ _ ht => exact shorter_of_derives (h.steps.2.2 _ ht).1 hg.derives

/-- The calls of a sound call are sound and weigh less. -/
theorem IsSound.step (h : call.IsSound) (hc : Calls call inner) :
    inner.IsSound ∧ inner.weight < call.weight ∧ inner.tokens <:+ call.tokens := by
  obtain ⟨he, hf, ⟨last, hs⟩, hst⟩ := h
  cases hc with
  | @name name ts =>
    obtain ⟨hsp, hfi⟩ := span_productions name
    refine ⟨⟨he, hfi, ⟨false, sober_productions name⟩, steps_productions name _⟩, ?_, suffix_rfl⟩
    simp only [weight, Phrase.span]
    omega
  | first =>
    simp only [Phrase.fits, Phrase.sober, Bool.and_eq_true, forall_and] at hf hs
    refine ⟨⟨he, hf.1.1, ⟨false, hs.1⟩, hst.1⟩, ?_, suffix_rfl⟩
    simp only [weight, Phrase.span]
    omega
  | @second first second ts rest trees hg =>
    simp only [Phrase.fits, Phrase.sober, Bool.and_eq_true, forall_and, decide_eq_true_eq] at hf hs
    have hl := length_le_of_derives hg.derives
    refine ⟨⟨ends_of_derives hs.1 hg.derives he, hf.1.2, ⟨last, hs.2⟩, hst.2 _⟩, ?_,
      suffix_of_derives hg.derives⟩
    cases hm : first.moves with
    | true =>
      have hlt := shorter_of_derives (movesAt_of_moves hm) hg.derives
      simp only [weight, Phrase.span, hm] at hl hlt ⊢
      omega
    | false =>
      simp only [weight, Phrase.span, hm] at hl ⊢
      simp only [Bool.false_eq_true, if_false]
      omega
  | @choice test yes no ts =>
    simp only [Phrase.fits, Phrase.sober, Bool.and_eq_true, forall_and] at hf hs
    cases ht : test ts with
    | true =>
      refine ⟨⟨he, hf.1, ⟨last, hs.1⟩, hst.1 ht⟩, ?_, suffix_rfl⟩
      simp only [weight, Phrase.span, if_true]
      omega
    | false =>
      refine ⟨⟨he, hf.2, ⟨last, hs.2⟩, hst.2 ht⟩, ?_, suffix_rfl⟩
      simp only [weight, Phrase.span, Bool.false_eq_true, if_false]
      omega
  | inside => exact ⟨⟨he, hf, ⟨last, hs⟩, hst.2⟩, Nat.lt_succ_self _, suffix_rfl⟩
  | extended =>
    simp only [Phrase.fits, Phrase.sober, Bool.and_eq_true, forall_and] at hf hs
    exact ⟨⟨he, hf.1.1, ⟨false, hs.1⟩, hst.2.1⟩, Nat.lt_succ_self _, suffix_rfl⟩
  | extension hg ht =>
    simp only [Phrase.fits, Phrase.sober, Bool.and_eq_true, forall_and, decide_eq_true_eq] at hf hs
    have hlt := shorter_of_derives hst.1 hg.derives
    refine ⟨⟨ends_of_derives hs.1 hg.derives he, hf.1.2, ⟨false, hs.2⟩, hst.2.2 _ ht⟩, ?_,
      suffix_of_derives hg.derives⟩
    simp only [weight, Phrase.span] at hlt ⊢
    omega
  | climbed =>
    simp only [Phrase.fits, Phrase.sober, Bool.and_eq_true, forall_and] at hf hs
    refine ⟨⟨he, hf.1.1, ⟨false, hs.1⟩, hst.2.1⟩, ?_, suffix_rfl⟩
    simp only [weight, Phrase.span]
    omega
  | round hr =>
    cases hr with
    | loop hr ht =>
      obtain ⟨hsu, hen⟩ := turns_advance hs he hr
      have hl := hsu.length_le
      refine ⟨⟨hen, hf, ⟨false, hs⟩, (hst _ ht).2⟩, ?_, hsu⟩
      simp only [weight, Phrase.span] at hl ⊢
      omega
    | climb hg hr ht =>
      simp only [Phrase.fits, Phrase.sober, Bool.and_eq_true, forall_and, decide_eq_true_eq]
        at hf hs
      obtain ⟨hsu, hen⟩ := turns_advance hs.2 (ends_of_derives hs.1 hg.derives he) hr
      have hl := hsu.length_le
      have hlt := shorter_of_derives hst.1 hg.derives
      refine ⟨⟨hen, hf.1.2, ⟨false, hs.2⟩, (hst.2.2 _ ht).2⟩, ?_,
        hsu.trans (suffix_of_derives hg.derives)⟩
      simp only [weight, Phrase.span] at hl hlt ⊢
      omega

end Call

/-! ### Fuel -/

/-- Another token was needed, or what stands there has no counterpart. -/
def RefusesToken : Error → Prop
  | .parse _ (.expected _ _) | .unsupported (.atPosition _ _) => True
  | _ => False

/-- From some fuel on the outcome is the same, and a refusal if it is no success. -/
def Settles {α : Type} (bound : Nat) (outcome : Nat → Except Error α) : Prop :=
  ∃ final, (∀ error, final = .error error → RefusesToken error) ∧
    ∀ fuel, bound ≤ fuel → outcome fuel = final

namespace Settles

variable {α β : Type} {bound more : Nat} {outcome : Nat → Except Error α}

theorem ok (a : α) : Settles bound fun _ => .ok a := ⟨.ok a, (fun _ h => nomatch h), fun _ _ => rfl⟩

theorem mono (h : Settles bound outcome) (hb : bound ≤ more) : Settles more outcome := by
  obtain ⟨final, hf, h⟩ := h
  exact ⟨final, hf, fun fuel hm => h fuel (Nat.le_trans hb hm)⟩

/-- One unit of fuel more for the step before. -/
theorem succ (h : Settles bound fun fuel => outcome (fuel + 1)) : Settles (bound + 1) outcome := by
  obtain ⟨final, hf, h⟩ := h
  refine ⟨final, hf, fun fuel hb => ?_⟩
  cases fuel with
  | zero => cases hb
  | succ fuel => exact h fuel (Nat.le_of_succ_le_succ hb)

theorem bind {next : α → Nat → Except Error β} (h : Settles bound outcome) (hb : bound ≤ more)
    (hn : ∀ a, (∃ fuel, outcome fuel = .ok a) → Settles more (next a)) :
    Settles more fun fuel => outcome fuel >>= (next · fuel) := by
  obtain ⟨final, hf, h⟩ := h.mono hb
  cases final with
  | error error =>
    refine ⟨.error error, fun _ he => hf _ (by cases he; rfl), fun fuel hm => ?_⟩
    simp only [h fuel hm]
    rfl
  | ok a =>
    obtain ⟨result, hr, hne⟩ := hn a ⟨more, h more (Nat.le_refl _)⟩
    refine ⟨result, hr, fun fuel hm => ?_⟩
    simp only [h fuel hm]
    exact hne fuel hm

end Settles

theorem refusesToken_unexpected (what : String) (ts : List Token) :
    RefusesToken (unexpected what ts) :=
  trivial

theorem settles_take {accepts : Token → Bool} {expected : String}
    {keep : Token → List Token → Token} {ts : List Token} {bound : Nat} :
    Settles bound fun _ => take accepts expected keep ts := by
  refine ⟨_, fun error h => ?_, fun _ _ => rfl⟩
  unfold Phrase.take at h
  split at h
  · split at h
    · cases h
    · cases h
      exact refusesToken_unexpected ..
  · cases h
    exact refusesToken_unexpected ..

open Call

/-- Rounds that settle and take a token each come to an end. -/
theorem settles_readWhile {test : Lookahead} {body : Phrase} {ts : List Token}
    (hs : ∀ middle, ReflTransGen (Turn test body) ts middle → test middle →
      Settles ((mk body middle).weight + 1) (read productions · body middle) ∧
      ∀ row rest, (mk body middle).Gives row rest → rest.length < middle.length) :
    Settles ((mk body ts).weight + 2) (readWhile productions · test body ts) := by
  induction hn : ts.length using Nat.strongRecOn generalizing ts with
  | ind n ih =>
    refine Settles.succ ?_
    cases ht : test ts with
    | false =>
      simp only [readWhile, ht, Bool.false_eq_true, if_false]
      exact .ok _
    | true =>
      simp only [readWhile, ht, if_true]
      obtain ⟨hb, hlt⟩ := hs ts .refl ht
      refine hb.bind (Nat.le_refl _) ?_
      rintro ⟨row, rest⟩ hr
      have hl := hlt row rest hr
      have hrest := ih rest.length (hn ▸ hl)
        (fun middle hm => hs middle (.head ⟨ht, row, hr⟩ hm)) rfl
      refine hrest.bind ?_ fun _ _ => .ok _
      simp only [weight]
      omega

/-- A call settles if the calls that it makes do. -/
theorem settles_of_calls {call : Call} (h : call.IsSound) (hc : ∀ inner, Calls call inner →
      Settles (inner.weight + 1) (read productions · inner.phrase inner.tokens)) :
    Settles (call.weight + 1) (read productions · call.phrase call.tokens) := by
  have lt {inner : Call} (hi : Calls call inner) : inner.weight + 1 ≤ call.weight := (h.step hi).2.1
  obtain ⟨phrase, ts⟩ := call
  refine Settles.succ ?_
  cases phrase with
  | nothing => exact .ok _
  | token | asComma => exact settles_take
  | ref name => exact (hc _ .name).mono (lt .name)
  | seq first second =>
    refine (hc _ .first).bind (lt .first) fun (trees, rest) hf => ?_
    exact (hc _ (.second hf)).bind (lt (.second hf)) fun _ _ => .ok _
  | choose test yes no => exact (hc _ .choice).mono (lt .choice)
  | loop test body =>
    have hw : Settles ((mk body ts).weight + 2) (readWhile productions · test body ts) :=
      settles_readWhile fun middle hr ht =>
        ⟨hc _ (.round (.loop hr ht)), fun _ _ => h.shorter_of_repeats (.loop hr ht)⟩
    exact hw.bind (Nat.le_refl _) fun _ _ => .ok _
  | node rule body => exact (hc _ .inside).bind (lt .inside) fun _ _ => .ok _
  | extend test rule base tail =>
    refine (hc _ .extended).bind (lt .extended) fun (trees, rest) hb => ?_
    cases ht : test rest with
    | false =>
      simp only [ht, Bool.false_eq_true, if_false]
      exact .ok _
    | true =>
      simp only [ht, if_true]
      exact (hc _ (.extension hb ht)).bind (lt (.extension hb ht)) fun _ _ => .ok _
  | climb test rule base tail =>
    refine (hc _ .climbed).bind (lt .climbed) fun (trees, rest) hb => ?_
    have hw : Settles ((mk tail rest).weight + 2) (readWhile productions · test tail rest) :=
      settles_readWhile fun middle hr ht =>
        ⟨hc _ (.round (.climb hb hr ht)), fun _ _ => h.shorter_of_repeats (.climb hb hr ht)⟩
    refine hw.bind ?_ fun _ _ => .ok _
    have hg : Gives ⟨base, ts⟩ trees rest := hb
    have hlt := shorter_of_derives h.steps.1 hg.derives
    have hf := h.fits
    simp only [fits, Bool.and_eq_true, decide_eq_true_eq] at hf
    simp only [weight, Phrase.span] at hlt ⊢
    omega
  | refuse refusal => exact ⟨_, fun _ he => by cases he; cases refusal <;> trivial, fun _ _ => rfl⟩

/-- By induction on the weight. -/
theorem Call.IsSound.settles {call : Call} (h : call.IsSound) :
    Settles (call.weight + 1) (read productions · call.phrase call.tokens) := by
  induction hw : call.weight using Nat.strongRecOn generalizing call with
  | ind n ih =>
    subst hw
    exact settles_of_calls h fun inner hc =>
      have hi := h.step hc
      ih inner.weight hi.2.1 hi.1 rfl

theorem Call.IsSound.of_reaches {call inner : Call} (h : call.IsSound)
    (hr : ReflTransGen Calls call inner) : inner.IsSound ∧ inner.tokens <:+ call.tokens := by
  induction hr with
  | refl => exact ⟨h, suffix_rfl⟩
  | tail _ hc ih =>
    have hs := ih.1.step hc
    exact ⟨hs.1, hs.2.2.trans ih.2⟩

theorem Call.IsSound.weight_lt {call inner : Call} (h : call.IsSound)
    (hr : TransGen Calls call inner) : inner.weight < call.weight := by
  induction hr with
  | single hc => exact (h.step hc).2.1
  | tail hr hc ih => exact Nat.lt_trans ((h.of_reaches hr.to_reflTransGen).1.step hc).2.1 ih

theorem isSound_query {tokens : List Token} (h : Token.EndsOnce tokens) :
    (mk query tokens).IsSound :=
  ⟨h, fits_query.1, ⟨true, fits_query.2.2⟩, steps_query tokens⟩

/-- Reading moves on, and it ends.  Of all the calls made for some tokens with one ending, at their
end, none starts past the ending; if it succeeds, it takes a token or makes no tree, except the
empty row of values, and a call of a name always takes one; each round of its loop takes a token;
and between it and a call of the same phrase below it a token is taken.  More fuel gives nothing
else, and the outcome is a tree or the refusal of a token. -/
theorem reading_progresses {tokens : List Token} (h : Token.EndsOnce tokens) :
    (∀ call, ReflTransGen Calls ⟨query, tokens⟩ call →
      (Token.EndsOnce call.tokens ∧ call.tokens <:+ tokens) ∧
      (∀ trees rest, call.Gives trees rest →
        (rest.length < call.tokens.length ∨ ∀ tree ∈ trees, tree = .node .values []) ∧
        ∀ name, call.phrase = .ref name → rest.length < call.tokens.length) ∧
      (∀ round trees rest, Repeats call round → round.Gives trees rest →
        rest.length < round.tokens.length) ∧
      ∀ inner, TransGen Calls call inner → inner.phrase = call.phrase →
        inner.tokens.length < call.tokens.length) ∧
    (∀ fuel, fuelFor tokens ≤ fuel →
      read productions fuel query tokens = read productions (fuelFor tokens) query tokens) ∧
    ((∃ tree, ofTokens tokens = .ok tree) ∨
      ∃ error, ofTokens tokens = .error error ∧ RefusesToken error) := by
  have hq := isSound_query h
  have hset : Settles (fuelFor tokens) (read productions · query tokens) := by
    refine hq.settles.mono ?_
    have hs := fits_query.2.1
    simp only [weight, fuelFor]
    omega
  obtain ⟨final, hf, hset⟩ := hset
  refine ⟨fun call hr => ?_, fun fuel hfu =>
    (hset fuel hfu).trans (hset _ (Nat.le_refl _)).symm, ?_⟩
  · obtain ⟨hs, hsu⟩ := hq.of_reaches hr
    refine ⟨⟨hs.ends, hsu⟩, fun trees rest hg => ⟨shorter_or_of_derives hs.steps hg.derives,
      fun name hp => ?_⟩, fun round trees rest hrep => hs.shorter_of_repeats hrep,
      fun inner hi hp => ?_⟩
    · have hd := hg.derives
      rw [hp] at hd
      exact hd.shorter
    · have hw := hs.weight_lt hi
      simp only [weight, hp] at hw
      omega
  · have hread : read productions (fuelFor tokens) query tokens = final := hset _ (Nat.le_refl _)
    cases final with
    | error error =>
      refine .inr ⟨error, ?_, hf error rfl⟩
      rw [ofTokens, hread]
      rfl
    | ok reading =>
      obtain ⟨trees, rest⟩ := reading
      have hg : (Call.mk query tokens).Gives trees rest := ⟨_, hread⟩
      obtain ⟨kids, -, rfl⟩ := hg.derives
      refine .inl ⟨.node .query kids, ?_⟩
      rw [ofTokens, hread]
      rfl

theorem reading_progresses_select :
    let tokens : List Token :=
      [⟨.keyword .SELECT, "SELECT", 0⟩, ⟨.integer, "1", 7⟩, ⟨.ending, "", 8⟩]
    Token.EndsOnce tokens ∧ ∀ fuel, 4000 ≤ fuel →
      read productions fuel query tokens = read productions 4000 query tokens :=
  have h : Token.EndsOnce [⟨.keyword .SELECT, "SELECT", 0⟩, ⟨.integer, "1", 7⟩, ⟨.ending, "", 8⟩] :=
    ⟨[_, _], _, rfl, rfl, by decide⟩
  ⟨h, (reading_progresses h).2.1⟩

end SqlBridge.Grammar
