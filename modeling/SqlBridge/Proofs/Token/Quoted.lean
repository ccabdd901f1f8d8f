/-
Quoting and unquoting are inverse.

The scanner looks for the end of a quoted token and `Text.unescape` reads its body; both are
compared with one relation, `Decodes`, that says what a body stands for.

* `closingLength?_of_decodes`, `decodes_of_closingLength?`: the scanner closes exactly such bodies;
* `unescape_of_decodes`: the text of a token is what its body stands for;
* `quoting_unquoting`: a quoted text is one token and stands for the text, and every quoted token
  of any text has a body that stands for its text.
-/
import SqlBridge.Proofs.Token.Tiling

namespace SqlBridge.Token

open List

/-! ### Bodies -/

/-- A body between two quotes and the text it stands for.  Quotes are doubled or escaped, and a
backslash that escapes has a character after it. -/
inductive Decodes (quote : Char) (escapes : Bool) : (body text : List Char) → Prop
  | nil : Decodes quote escapes [] []
  | doubled {body text : List Char} (h : Decodes quote escapes body text) :
      Decodes quote escapes (quote :: quote :: body) (quote :: text)
  | escape {body text : List Char} (c : Char) (hescapes : escapes)
      (h : Decodes quote escapes body text) :
      Decodes quote escapes ('\\' :: c :: body) (Text.escaped c ++ text)
  | plain {body text : List Char} {c : Char} (hquote : c ≠ quote)
      (hslash : c = '\\' → escapes = false) (h : Decodes quote escapes body text) :
      Decodes quote escapes (c :: body) (c :: text)

section Bodies

variable {quote : Char} {escapes : Bool} {body text rest : List Char} {n : Nat}

theorem closingLength?_of_decodes (hq : quote ≠ '\\') (h : Decodes quote escapes body text)
    (hr : rest.head? ≠ some quote) :
    closingLength? quote escapes (body ++ quote :: rest) = some (body.length + 1) := by
  induction h with
  | nil =>
    cases rest with
    | nil => simp [closingLength?]
    | cons d rest =>
      have hd : d ≠ quote := by simpa using hr
      simp [closingLength?, hq, hd]
  | doubled h ih => simp [closingLength?, hq, ih]
  | escape c he h ih =>
    subst he
    simp [closingLength?, ih]
  | @plain body text c hc hs h ih =>
    have hp : (c == '\\' && escapes) = false := by
      by_cases hb : c = '\\'
      · simp [hs hb]
      · simp [hb]
    -- the closing quote makes sure that a character follows
    obtain ⟨d, more, hm⟩ : ∃ d more, body ++ quote :: rest = d :: more :=
      exists_cons_of_ne_nil (by simp)
    rw [hm] at ih
    rw [cons_append, hm, closingLength?, hp, ih]
    simp [hc]

theorem decodes_of_closingLength? (h : closingLength? quote escapes rest = some n) :
    ∃ body text, rest.take n = body ++ [quote] ∧ Decodes quote escapes body text := by
  fun_induction closingLength? quote escapes rest generalizing n with
  | case1 => cases h
  | case2 c hc =>
    cases h
    exact ⟨[], [], by simpa using hc, .nil⟩
  | case3 => cases h
  | case4 c d rest hc ih =>
    obtain ⟨m, hm, rfl⟩ := Option.map_eq_some_iff.1 h
    obtain ⟨body, text, ht, hs⟩ := ih hm
    obtain ⟨rfl, he⟩ : c = '\\' ∧ escapes := by simpa using hc
    exact ⟨_, _, by rw [take_succ_cons, take_succ_cons, ht]; rfl, .escape d he hs⟩
  | case5 c d rest _ hc hd ih =>
    obtain ⟨m, hm, rfl⟩ := Option.map_eq_some_iff.1 h
    obtain ⟨body, text, ht, hs⟩ := ih hm
    obtain rfl : c = quote := by simpa using hc
    obtain rfl : d = c := by simpa using hd
    exact ⟨_, _, by rw [take_succ_cons, take_succ_cons, ht]; rfl, .doubled hs⟩
  | case6 c d rest _ hc _ =>
    cases h
    exact ⟨[], [], by simpa using hc, .nil⟩
  | case7 c d rest hb hc ih =>
    obtain ⟨m, hm, rfl⟩ := Option.map_eq_some_iff.1 h
    obtain ⟨body, text, ht, hs⟩ := ih hm
    refine ⟨c :: body, c :: text, by rw [take_succ_cons, ht]; rfl, .plain ?_ ?_ hs⟩
    · simpa using hc
    · rintro rfl
      simpa using hb

theorem unescape_of_decodes (hq : quote ≠ '\\') (h : Decodes quote escapes body text) :
    Text.unescape quote escapes body = text := by
  induction h with
  | nil => rfl
  | doubled h ih => simp [Text.unescape, ih]
  | escape c he h ih =>
    subst he
    simp [Text.unescape, ih, hq.symm]
  | @plain body text c hc hs h ih =>
    have hp : (c == '\\' && escapes) = false := by
      by_cases hb : c = '\\'
      · simp [hs hb]
      · simp [hb]
    cases body with
    | nil =>
      rw [← ih]
      rfl
    | cons d body => simp [Text.unescape, hc, hp, ih]

end Bodies

/-! ### Styles -/

/-- How a text is quoted. -/
inductive QuoteStyle where
  | backtick | single | double

namespace QuoteStyle

def quote : QuoteStyle → Char
  | .backtick => '`'
  | .single => '\''
  | .double => '"'

/-- Whether a backslash escapes. -/
def escapes : QuoteStyle → Bool
  | .backtick => false
  | .single | .double => true

def kind : QuoteStyle → Kind
  | .backtick => .backtickName
  | .single => .singleQuoted
  | .double => .doubleQuoted

/-- A text with the quotes doubled, and the backslashes where they escape. -/
def body (style : QuoteStyle) (text : List Char) : List Char :=
  text.flatMap fun c => if c = style.quote ∨ c = '\\' ∧ style.escapes then [c, c] else [c]

/-- A text in quotes. -/
def write (style : QuoteStyle) (text : String) : String :=
  String.ofList (style.quote :: style.body text.toList ++ [style.quote])

variable (style : QuoteStyle)

theorem quote_ne : style.quote ≠ '\\' := by cases style <;> decide

theorem decodes_body (text : List Char) :
    Decodes style.quote style.escapes (style.body text) text := by
  induction text with
  | nil => exact .nil
  | cons c rest ih =>
    unfold body at ih ⊢
    rw [flatMap_cons]
    by_cases hq : c = style.quote
    · rw [if_pos (.inl hq), hq]
      exact .doubled ih
    · by_cases hs : c = '\\' ∧ style.escapes
      · obtain ⟨rfl, he⟩ := hs
        rw [if_pos (.inr ⟨rfl, he⟩)]
        exact .escape '\\' he ih
      · rw [if_neg (by simp [hq, hs])]
        exact .plain hq (by simpa using fun hc => not_and.1 hs hc) ih

/-- The text of a quoted token is what its body stands for. -/
theorem text_of_decodes {body text : List Char} (h : Decodes style.quote style.escapes body text)
    (pos : Nat) :
    (⟨style.kind, String.ofList (style.quote :: body ++ [style.quote]), pos⟩ : Token).text =
      String.ofList text := by
  have hb : Text.quotedBody style.quote (style.quote :: body ++ [style.quote]) = body := by
    simp [Text.quotedBody]
  have hu : Text.unquoted style.quote style.escapes
      (String.ofList (style.quote :: body ++ [style.quote])) = String.ofList text := by
    rw [Text.unquoted, String.toList_ofList, hb, unescape_of_decodes style.quote_ne h]
  cases style <;> exact hu

theorem gap_quote (rest : List Char) : gap (style.quote :: rest) = 0 := by
  cases style <;> rfl

theorem lexeme?_quote (rest : List Char) :
    lexeme? (style.quote :: rest) = quotedLexeme? style.quote style.escapes style.kind rest := by
  cases style <;> rfl

theorem number?_getD_ne_kind (text : List Char) :
    ((number? text).getD (word text)).1 ≠ style.kind := by
  unfold number? word
  dsimp only
  cases style <;> repeat' split
  all_goals simp [kind]

/-- Only a quote begins a quoted token. -/
theorem exists_quote_of_lexeme? {text : List Char} {n : Nat}
    (h : lexeme? text = some (style.kind, n)) : ∃ rest, text = style.quote :: rest := by
  have symbols {text : List Char} (hs : symbolLexeme? text = some (style.kind, n)) : False := by
    obtain ⟨symbol, -, hf⟩ := Option.map_eq_some_iff.1 hs
    cases style <;> cases hf
  unfold lexeme? at h
  split at h
  · cases h
  · have hk := quotedLexeme?_kind h
    cases style <;> cases hk <;> exact ⟨_, rfl⟩
  · have hk := quotedLexeme?_kind h
    cases style <;> cases hk <;> exact ⟨_, rfl⟩
  · have hk := quotedLexeme?_kind h
    cases style <;> cases hk <;> exact ⟨_, rfl⟩
  · cases style <;> cases h
  · exact (symbols h).elim
  · unfold userVariable? at h
    split at h
    · obtain ⟨_, -, hf⟩ := Option.map_eq_some_iff.1 h
      cases style <;> cases hf
    · split at h
      · cases style <;> cases h
      · cases h
  · split at h
    · exact absurd (congrArg Prod.fst (Option.some.inj h)) (style.number?_getD_ne_kind _)
    · split at h
      · have hw := congrArg Prod.fst (Option.some.inj h)
        unfold word at hw
        dsimp only at hw
        split at hw <;> cases style <;> cases hw
      · exact (symbols h).elim

/-- The value of a quoted token is a body between two quotes. -/
theorem exists_decodes_of_lexeme? {text : List Char} {n : Nat}
    (h : lexeme? text = some (style.kind, n)) :
    ∃ body spelled, text.take n = style.quote :: body ++ [style.quote] ∧
      Decodes style.quote style.escapes body spelled := by
  obtain ⟨rest, rfl⟩ := style.exists_quote_of_lexeme? h
  rw [lexeme?_quote] at h
  obtain ⟨m, hm, hf⟩ := Option.map_eq_some_iff.1 h
  obtain ⟨body, spelled, ht, hs⟩ := decodes_of_closingLength? hm
  obtain rfl : m + 1 = n := congrArg Prod.snd hf
  exact ⟨body, spelled, by rw [take_succ_cons, ht]; rfl, hs⟩

end QuoteStyle

/-! ### Tokens -/

/-- A quoted text is read as one token. -/
theorem ofText_write (style : QuoteStyle) (text : String) :
    ofText (style.write text) = .ok [⟨style.kind, style.write text, 0⟩,
      ⟨.ending, "", (style.write text).utf8ByteSize⟩] := by
  have hs := style.decodes_body text.toList
  unfold QuoteStyle.write
  generalize style.body text.toList = body at hs
  have hl : lexeme? (style.quote :: (body ++ [style.quote])) =
      some (style.kind, body.length + 2) := by
    rw [style.lexeme?_quote, quotedLexeme?, closingLength?_of_decodes style.quote_ne hs (by simp)]
    rfl
  have ht : (style.quote :: (body ++ [style.quote])).take (body.length + 2) =
      style.quote :: (body ++ [style.quote]) := take_of_length_le (by simp)
  rw [ofText, String.toList_ofList, cons_append, scan, style.gap_quote]
  dsimp only
  rw [hl]
  dsimp only
  rw [ht, scan_skip, drop_of_length_le (by simp), take_of_length_le (by simp)]
  rw [scan, Nat.zero_add, ← octets_cons]
  rfl

theorem decodes_of_mem_turns (style : QuoteStyle) {pos : Nat} {text : List Char}
    {outcome : Except Error (List Token)} (h : Turns pos text outcome) {tokens : List Token}
    (hok : outcome = .ok tokens) {token : Token} (ht : token ∈ tokens)
    (hk : token.kind = style.kind) :
    ∃ body spelled, token.value.toList = style.quote :: body ++ [style.quote] ∧
      Decodes style.quote style.escapes body spelled ∧ token.text = String.ofList spelled := by
  induction h generalizing tokens with
  | done =>
    cases hok
    rw [mem_singleton.1 ht] at hk
    cases style <;> cases hk
  | skip hg h ih => exact ih hok ht
  | @token pos length text kind outcome hg hl h ih =>
    cases outcome with
    | error error => cases hok
    | ok others =>
      cases hok
      rcases mem_cons.1 ht with rfl | hm
      · dsimp only at hk
        subst hk
        obtain ⟨body, spelled, hv, hs⟩ := style.exists_decodes_of_lexeme? hl
        rw [hv]
        exact ⟨body, spelled, String.toList_ofList .., hs, style.text_of_decodes hs pos⟩
      · exact ih rfl hm
  | stuck => cases hok

/-- Quoting and unquoting are inverse.  A text in quotes of any style is read as one token of the
style's kind and the ending, and the token stands for the text; and in every text, a quoted token
is a body between two quotes that stands for the text of the token. -/
theorem quoting_unquoting (style : QuoteStyle) :
    (∀ text : String, ∃ token, ofText (style.write text) =
        .ok [token, ⟨.ending, "", (style.write text).utf8ByteSize⟩] ∧
      token.kind = style.kind ∧ token.text = text) ∧
    ∀ sql tokens, ofText sql = .ok tokens → ∀ token ∈ tokens, token.kind = style.kind →
      ∃ body spelled, token.value.toList = style.quote :: body ++ [style.quote] ∧
        Decodes style.quote style.escapes body spelled ∧ token.text = String.ofList spelled := by
  constructor
  · intro text
    refine ⟨_, ofText_write style text, rfl, ?_⟩
    rw [QuoteStyle.write, style.text_of_decodes (style.decodes_body text.toList),
      String.ofList_toList]
  · intro sql tokens h token ht hk
    exact decodes_of_mem_turns style (turns_scan 0 sql.toList) h ht hk

end SqlBridge.Token
