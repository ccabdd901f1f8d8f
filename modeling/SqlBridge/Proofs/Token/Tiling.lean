/-
The tokens of a text tile it.

A text that can be read is gap, token, gap, token, and so on up to a last gap; the tokens are
spelled by the characters between the gaps and keep the byte offsets at which these begin.

* `Trivia`, `Gap`: what may stand between two tokens, said without the scanner.
* `Tiles`: a text cut into gaps and tokens.
* `Turns`: the turns of the loop that reads a text, with a finite number of them.
* `turns_scan`: the loop ends on every text; `tiles_of_turns`: if it ends well, the tokens tile the
  text.
-/
import SqlBridge.Proofs.Token.Ending

namespace SqlBridge.Token

open List

variable {c : Char} {n : Nat} {rest : List Char} {found : Kind × Nat}

/-! ### Bytes -/

/-- The number of bytes that some characters take. -/
def octets (text : List Char) : Nat := (String.ofList text).utf8ByteSize

@[simp] theorem octets_nil : octets [] = 0 := by simp [octets]

@[simp] theorem octets_cons (c : Char) (rest : List Char) :
    octets (c :: rest) = c.utf8Size + octets rest := by
  simp [octets, String.ofList_cons]

@[simp] theorem octets_append (text more : List Char) :
    octets (text ++ more) = octets text + octets more := by
  simp [octets, String.ofList_append]

/-! ### Gaps -/

def blanks : List Char := [' ', '\t', '\r', '\n']

/-- What follows the last character of a line. -/
inductive EndsLine : List Char → Prop
  | atEnd : EndsLine []
  | lineFeed {rest : List Char} : EndsLine ('\n' :: rest)
  | both {rest : List Char} : EndsLine ('\r' :: '\n' :: rest)

/-- A text within one line. -/
def InLine (text : List Char) : Prop := ∀ c ∈ text, c ≠ '\r' ∧ c ≠ '\n'

/-- A blank or a comment, and what follows it. -/
inductive Trivia : (piece rest : List Char) → Prop
  | blank {c : Char} {rest : List Char} (h : c ∈ blanks) : Trivia [c] rest
  | hash {body rest : List Char} (hbody : InLine body) (hrest : EndsLine rest) :
      Trivia ('#' :: body) rest
  | dashes {body rest : List Char} (hbody : InLine body) (hrest : EndsLine rest)
      (hnext : ∀ c ∈ (body ++ rest).head?, c ∈ blanks) : Trivia ('-' :: '-' :: body) rest
  /-- A block comment ends at the first `*/`. -/
  | block {body rest : List Char} (hfirst : ¬ ['*', '/'] <:+: body ++ ['*']) :
      Trivia ('/' :: '*' :: (body ++ ['*', '/'])) rest

/-- Blanks and comments in a row, and what follows them. -/
inductive Gap : (text rest : List Char) → Prop
  | nil {rest : List Char} : Gap [] rest
  | cons {piece text rest : List Char} (hpiece : Trivia piece (text ++ rest)) (h : Gap text rest) :
      Gap (piece ++ text) rest

/-- A text from a byte offset on, cut into gaps and tokens. -/
inductive Tiles : (position : Nat) → (text : List Char) → List Token → Prop
  | ending {position : Nat} {gap : List Char} (hgap : Gap gap []) :
      Tiles position gap [⟨.ending, "", position + octets gap⟩]
  | token {position : Nat} {gap value rest : List Char} {kind : Kind} {tokens : List Token}
      (hgap : Gap gap (value ++ rest)) (hvalue : value ≠ []) (hkind : kind ≠ .ending)
      (h : Tiles (position + octets gap + octets value) rest tokens) :
      Tiles position (gap ++ value ++ rest)
        (⟨kind, String.ofList value, position + octets gap⟩ :: tokens)

/-! ### What the scanner skips -/

theorem mem_blanks_of_isGapChar (h : isGapChar c) : c ∈ blanks := by
  simpa [isGapChar, blanks, or_assoc] using h

theorem lineLength?_eq_some {text : List Char} (h : lineLength? text = some n) :
    InLine (text.take n) ∧ EndsLine (text.drop n) := by
  have hs := text.takeWhile_append_dropWhile (p := fun c => c != '\r' && c != '\n')
  have hh := text.head?_dropWhile_not fun c => c != '\r' && c != '\n'
  have hl : InLine (text.takeWhile fun c => c != '\r' && c != '\n') := by
    have ha := text.all_takeWhile (p := fun c => c != '\r' && c != '\n')
    intro c hc
    simpa using all_eq_true.1 ha c hc
  unfold lineLength? at h
  dsimp only at h
  generalize text.takeWhile (fun c => c != '\r' && c != '\n') = line at h hs hl
  generalize text.dropWhile (fun c => c != '\r' && c != '\n') = rest at hs hh
  subst hs
  rw [drop_left] at h
  -- the first character after the line ends it, or the comment is spoiled
  split at h
  · cases h
    rw [take_left, drop_left]
    exact ⟨hl, .both⟩
  · cases h
  · rename_i hcr
    cases h
    rw [take_left, drop_left]
    refine ⟨hl, ?_⟩
    cases rest with
    | nil => exact .atEnd
    | cons c rest =>
      have hc : c = '\r' ∨ c = '\n' := by simpa [Decidable.imp_iff_not_or] using hh
      rcases hc with rfl | rfl
      · exact absurd rfl (hcr rest)
      · exact .lineFeed

theorem blockLength?_eq_some {text : List Char} (h : blockLength? text = some n) :
    ∃ body, text.take n = body ++ ['*', '/'] ∧ ¬ ['*', '/'] <:+: body ++ ['*'] := by
  fun_induction blockLength? text generalizing n with
  | case1 rest =>
    cases h
    exact ⟨[], by simp, by simp [infix_cons_iff]⟩
  | case2 c rest hc ih =>
    obtain ⟨m, hm, rfl⟩ := Option.map_eq_some_iff.1 h
    obtain ⟨body, ht, hf⟩ := ih hm
    refine ⟨c :: body, by simp [ht], ?_⟩
    rw [cons_append, infix_cons_iff]
    rintro (hh | hi)
    · obtain ⟨hst, hs⟩ := cons_prefix_cons.1 hh
      -- the `/` would be the next character of the text
      cases body with
      | nil => simp at hs
      | cons d body =>
        obtain ⟨rfl, -⟩ := cons_prefix_cons.1 hs
        cases rest with
        | nil => simp at ht
        | cons e rest =>
          cases m with
          | zero => simp at ht
          | succ m =>
            rw [take_succ_cons, cons_append] at ht
            obtain ⟨rfl, -⟩ := cons.inj ht
            exact hc rest hst.symm rfl
    · exact hf hi
  | case3 => cases h

/-- What the scanner skips is a blank or a comment. -/
theorem trivia_of_gap {text : List Char} (h : gap text = n + 1) :
    Trivia (text.take (n + 1)) (text.drop (n + 1)) := by
  have hs {length? : Option Nat} {more : Nat} (hp : (length?.map (· + more)).getD 0 = n + 1) :
      ∃ m, length? = some m ∧ m + more = n + 1 := by
    cases length? with
    | none => cases hp
    | some m => exact ⟨m, rfl, hp⟩
  unfold gap at h
  split at h
  · obtain ⟨m, hm, hn⟩ := hs h
    obtain rfl : m = n := by omega
    obtain ⟨hb, hr⟩ := lineLength?_eq_some hm
    exact .hash hb hr
  · rename_i rest
    split at h
    · cases h
      exact .dashes (by simp [InLine]) .atEnd (by simp)
    · rename_i c rest'
      split at h
      · rename_i hc
        obtain ⟨m, hm, hn⟩ := hs h
        obtain rfl : m + 1 = n := by omega
        obtain ⟨hb, hr⟩ := lineLength?_eq_some hm
        refine .dashes hb hr ?_
        rw [drop_succ_cons, drop_succ_cons, take_append_drop]
        simpa using mem_blanks_of_isGapChar hc
      · cases h
  · rename_i rest
    obtain ⟨m, hm, hn⟩ := hs h
    obtain rfl : m + 1 = n := by omega
    obtain ⟨body, ht, hf⟩ := blockLength?_eq_some hm
    rw [take_succ_cons, take_succ_cons, ht]
    exact .block hf
  · rename_i c rest _ _ _
    split at h
    · rename_i hc
      cases h
      exact .blank (mem_blanks_of_isGapChar hc)
    · cases h
  · cases h

/-! ### Every token takes a character -/

theorem isWordChar_of_isDigit (h : c.isDigit) : Text.isWordChar c := by
  have ha : c.toNat < 0x80 := by
    simp only [Char.isDigit, Bool.and_eq_true, decide_eq_true_eq] at h
    have := UInt32.le_iff_toNat_le.1 h.2
    simp only [Char.toNat]
    exact Nat.lt_of_le_of_lt this (by decide)
  simp [Text.isWordChar, Text.isAlphanumeric, ha, Char.isAlphanum, h]

theorem wordLength_pos (h : Text.isWordChar c) :
    0 < wordLength (c :: rest) := by
  simp [wordLength, h]

theorem word_length (text : List Char) : (word text).2 = wordLength text := by
  unfold word
  dsimp only
  split <;> rfl

theorem quotedLexeme?_pos {quote : Char} {escapes : Bool} {kind : Kind}
    (h : quotedLexeme? quote escapes kind rest = some found) : 0 < found.2 := by
  obtain ⟨_, -, rfl⟩ := Option.map_eq_some_iff.1 h
  simp

theorem symbolLexeme?_pos {text : List Char}
    (h : symbolLexeme? text = some found) : 0 < found.2 := by
  obtain ⟨symbol, -, rfl⟩ := Option.map_eq_some_iff.1 h
  cases symbol <;> decide

theorem userVariable?_pos (h : userVariable? rest = some found) : 0 < found.2 := by
  unfold userVariable? at h
  split at h
  · obtain ⟨_, -, rfl⟩ := Option.map_eq_some_iff.1 h
    simp
  · split at h
    · cases h
      simp
    · cases h

theorem number?_pos {text : List Char} (h : number? text = some found) :
    0 < found.2 := by
  have hp {length : Nat} (he : endsWord text length) : 0 < length := by
    simp only [endsWord, Bool.and_eq_true, decide_eq_true_eq] at he
    exact he.1
  unfold number? at h
  repeat' split at h
  all_goals cases h
  all_goals exact hp (by assumption)

theorem lexeme?_pos {text : List Char} (h : lexeme? text = some found) :
    0 < found.2 := by
  unfold lexeme? at h
  split at h
  · cases h
  · exact quotedLexeme?_pos h
  · exact quotedLexeme?_pos h
  · exact quotedLexeme?_pos h
  · cases h
    simp
  · exact symbolLexeme?_pos h
  · exact userVariable?_pos h
  · split at h
    · rename_i hd
      obtain rfl := Option.some.inj h
      cases hn : number? _ with
      | none =>
        rw [Option.getD_none, word_length]
        exact wordLength_pos (isWordChar_of_isDigit hd)
      | some number =>
        rw [Option.getD_some]
        exact number?_pos hn
    · split at h
      · rename_i hw
        obtain rfl := Option.some.inj h
        rw [word_length]
        exact wordLength_pos hw
      · exact symbolLexeme?_pos h

/-! ### The loop -/

/-- The loop that reads a text from a byte offset on, turn by turn, and how it ends.  A turn drops
what was skipped or read, so a turn that reads nothing would be followed by the same one. -/
inductive Turns : (position : Nat) → (text : List Char) → Except Error (List Token) → Prop
  | done {position : Nat} : Turns position [] (.ok [⟨.ending, "", position⟩])
  | skip {position : Nat} {text : List Char} {outcome : Except Error (List Token)}
      (hgap : gap text ≠ 0)
      (h : Turns (position + octets (text.take (gap text))) (text.drop (gap text)) outcome) :
      Turns position text outcome
  | token {position length : Nat} {text : List Char} {kind : Kind}
      {outcome : Except Error (List Token)} (hgap : gap text = 0)
      (hlexeme : lexeme? text = some (kind, length))
      (h : Turns (position + octets (text.take length)) (text.drop length) outcome) :
      Turns position text
        (outcome.map (⟨kind, String.ofList (text.take length), position⟩ :: ·))
  | stuck {position : Nat} {text : List Char} (htext : text ≠ []) (hgap : gap text = 0)
      (hlexeme : lexeme? text = none) :
      Turns position text (.error (.parse position (.unreadable (String.ofList (text.take 16)))))

/-- Characters that were read before only move the offset. -/
theorem scan_skip (pos skip : Nat) (text : List Char) :
    scan pos skip text = scan (pos + octets (text.take skip)) 0 (text.drop skip) := by
  induction text generalizing pos skip with
  | nil => simp [scan]
  | cons c rest ih =>
    cases skip with
    | zero => simp
    | succ skip =>
      rw [scan, ih, take_succ_cons, drop_succ_cons, octets_cons, Nat.add_assoc]

/-- The loop ends on every text, with what the scanner gives. -/
theorem turns_scan (pos : Nat) (text : List Char) :
    Turns pos text (scan pos 0 text) := by
  induction hle : text.length using Nat.strongRecOn generalizing pos text with
  | ind n ih =>
    cases text with
    | nil => exact .done
    | cons c rest =>
      -- a turn that takes a character leaves a shorter text
      have ht (taken : Nat) : Turns (pos + octets ((c :: rest).take (taken + 1)))
          ((c :: rest).drop (taken + 1)) (scan (pos + c.utf8Size) taken rest) := by
        rw [scan_skip, take_succ_cons, drop_succ_cons, octets_cons, ← Nat.add_assoc]
        refine ih (rest.drop taken).length ?_ _ _ rfl
        simp only [length_drop, ← hle, length_cons]
        omega
      rw [scan]
      split
      · rename_i length hg
        have hs := ht length
        rw [← Nat.succ_eq_add_one, ← hg] at hs
        exact .skip (by simp [hg]) hs
      · rename_i hg
        split
        · rename_i kind length hl
          obtain ⟨taken, rfl⟩ : ∃ taken, length = taken + 1 :=
            ⟨length - 1, by have := lexeme?_pos hl; dsimp only at this; omega⟩
          exact .token hg hl (ht taken)
        · rename_i hl
          exact .stuck (by simp) hg hl

/-- If the loop ends well, its tokens tile the text. -/
theorem tiles_of_turns {pos : Nat} {text : List Char} {outcome : Except Error (List Token)}
    (h : Turns pos text outcome) {tokens : List Token} (hok : outcome = .ok tokens) :
    Tiles pos text tokens := by
  induction h generalizing tokens with
  | done =>
    cases hok
    exact .ending .nil
  | @skip pos text outcome hg h ih =>
    obtain ⟨n, hn⟩ := Nat.exists_eq_succ_of_ne_zero hg
    have hp := trivia_of_gap hn
    rw [← Nat.succ_eq_add_one, ← hn] at hp
    -- the gap that follows, if any, is joined to what was skipped
    have hj : ∀ {piece rest : List Char}, Trivia piece rest →
        Tiles (pos + octets piece) rest tokens → Tiles pos (piece ++ rest) tokens := by
      intro piece rest hp hr
      generalize hs : pos + octets piece = start at hr
      cases hr with
      | ending hg =>
        rw [← hs, Nat.add_assoc, ← octets_append]
        exact .ending (.cons (by simpa using hp) hg)
      | @token _ gap value rest kind others hg hv hk ho =>
        rw [← hs, Nat.add_assoc pos, ← octets_append] at ho ⊢
        rw [← append_assoc, ← append_assoc]
        refine .token (.cons ?_ hg) hv hk ho
        simpa using hp
    have hw := hj hp (ih hok)
    rwa [take_append_drop] at hw
  | @token pos length text kind outcome hg hl h ih =>
    cases outcome with
    | error error => cases hok
    | ok others =>
      cases hok
      have hpo := lexeme?_pos hl
      have hv : text.take length ≠ [] := by
        cases text with
        | nil => cases hl
        | cons c rest =>
          dsimp only at hpo
          simp only [ne_eq, take_eq_nil_iff, not_or]
          exact ⟨by omega, by simp⟩
      have ht : Tiles pos ([] ++ text.take length ++ text.drop length)
          (⟨kind, String.ofList (text.take length), pos + octets []⟩ :: others) :=
        .token .nil hv (lexeme?_kind hl) (by simpa using ih rfl)
      simpa using ht
  | stuck => cases hok

/-! ### Consequences of a tiling -/

namespace Tiles

variable {pos : Nat} {text : List Char} {tokens : List Token}

section

variable (h : Tiles pos text tokens)
include h

/-- The last token is the ending, after the whole text. -/
theorem getLast? : tokens.getLast? = some ⟨.ending, "", pos + octets text⟩ := by
  induction h with
  | ending => rfl
  | token hg hv hk h ih =>
    rw [getLast?_cons, ih]
    simp [Nat.add_assoc]

/-- Every token but the ending is spelled by characters of the text, at its offset. -/
theorem slice {token : Token} (ht : token ∈ tokens) (hk : token.kind ≠ .ending) :
    token.value ≠ "" ∧ ∃ before after, text = before ++ token.value.toList ++ after ∧
      pos + octets before = token.position := by
  induction h with
  | ending =>
    rw [mem_singleton.1 ht] at hk
    exact absurd rfl hk
  | @token pos gap value rest kind tokens hg hv _ h ih =>
    rcases mem_cons.1 ht with rfl | hr
    · refine ⟨by simpa using hv, gap, rest, by simp, rfl⟩
    · obtain ⟨hne, before, after, rfl, hp⟩ := ih hr
      refine ⟨hne, gap ++ value ++ before, after, by simp, ?_⟩
      rw [← hp]
      simp [Nat.add_assoc]

theorem position_le {token : Token} (ht : token ∈ tokens) : pos ≤ token.position := by
  induction h with
  | ending =>
    rw [mem_singleton.1 ht]
    exact Nat.le_add_right ..
  | token hg hv hk h ih =>
    rcases mem_cons.1 ht with rfl | hr
    · exact Nat.le_add_right ..
    · have := ih hr
      omega

/-- Each token ends before the next begins. -/
theorem pairwise :
    tokens.Pairwise fun token next => token.position + token.value.utf8ByteSize ≤
      next.position := by
  induction h with
  | ending => simp
  | token hg hv hk h ih =>
    exact pairwise_cons.2 ⟨fun next hn => h.position_le hn, ih⟩

end

end Tiles

/-- The loop that reads a text ends on every text.  If it ends well, the text is cut into gaps and
tokens; the last token is the only ending, at the length of the text; every other is spelled by the
part of the text at its offset, and no two of these parts overlap. -/
theorem ofText_tiles (text : String) :
    Turns 0 text.toList (ofText text) ∧
    ∀ tokens, ofText text = .ok tokens →
      Tiles 0 text.toList tokens ∧
      EndsOnce tokens ∧ tokens.getLast? = some ⟨.ending, "", text.utf8ByteSize⟩ ∧
      (∀ token ∈ tokens, token.kind ≠ .ending → token.value ≠ "" ∧
        ∃ before after, text = before ++ token.value ++ after ∧
          before.utf8ByteSize = token.position) ∧
      tokens.Pairwise fun token next =>
        token.position + token.value.utf8ByteSize ≤ next.position := by
  refine ⟨turns_scan 0 text.toList, fun tokens hok => ?_⟩
  have htiles := tiles_of_turns (turns_scan 0 text.toList) hok
  refine ⟨htiles, endsOnce_scan hok, ?_, fun token htoken hkind => ?_, htiles.pairwise⟩
  · simpa [octets] using htiles.getLast?
  · obtain ⟨hne, before, after, htext, hposition⟩ := htiles.slice htoken hkind
    refine ⟨hne, String.ofList before, String.ofList after, ?_, by simpa [octets] using hposition⟩
    rw [← String.ofList_toList (s := text), htext]
    simp [String.ofList_append, String.append_assoc]

/-- Comments of all kinds, a minus before a minus, and a quote inside a name of several bytes. -/
theorem ofText_tiles_comments :
    let text := "/* * / */a--1# b\r\n+`é```-- "
    ∃ tokens, ofText text = .ok tokens ∧
      tokens.map (·.position) = [9, 10, 11, 12, 18, 19, 28] ∧
      Turns 0 text.toList (.ok tokens) ∧ Tiles 0 text.toList tokens ∧ EndsOnce tokens ∧
      tokens.getLast? = some ⟨.ending, "", text.utf8ByteSize⟩ := by
  have hpositions : ((ofText "/* * / */a--1# b\r\n+`é```-- ").toOption.map
      (List.map (·.position))) = some [9, 10, 11, 12, 18, 19, 28] := by decide +kernel
  cases htokens : ofText "/* * / */a--1# b\r\n+`é```-- " with
  | error error =>
    rw [htokens] at hpositions
    cases hpositions
  | ok tokens =>
    rw [htokens] at hpositions
    obtain ⟨hturns, htiles⟩ := ofText_tiles "/* * / */a--1# b\r\n+`é```-- "
    obtain ⟨htiles, honce, hlast, -⟩ := htiles tokens htokens
    exact ⟨tokens, htokens, Option.some.inj hpositions, htokens ▸ hturns, htiles, honce, hlast⟩

end SqlBridge.Token
