/-
What calls and types are written as.

The counterparts of functions, casts and types of columns are stretches of SQL that stand for
something and whose parentheses match, given that their arguments are.  They fail with refusals
only: the names of the functions that they call are all known.

* `Error.IsRefusal`: an unsupported construct, or a wrong number of arguments.
* `Function.composes_counterpart`: the counterpart of any function.
-/
import SqlBridge.Proofs.Outcome
import SqlBridge.Proofs.Sql.Even
import SqlBridge.Scribe.Statement

namespace SqlBridge

open List

variable {name : String}

/-- A construct without a counterpart, or a wrong number of arguments. -/
def Error.IsRefusal : Error → Prop
  | .unsupported _ | .invalidToken (.argumentCount _ _ _) => True
  | _ => False

/-- An outcome that is refused, or stands for something. -/
structure Composes (outcome : Except Error Sql) : Prop where
  ends : Ends Error.IsRefusal (Sql.Stands .item) outcome

theorem composes_ok {sql : Sql} (h : sql.Stands .item) : Composes (.ok sql) := ⟨h⟩

theorem composes_refusal {error : Error} (h : error.IsRefusal) : Composes (.error error) := ⟨h⟩

theorem composes_bind {outcome : Except Error Sql} {next : Sql → Except Error Sql}
    (first : Composes outcome) (second : ∀ sql : Sql, sql.Stands .item → Composes (next sql)) :
    Composes (outcome >>= next) := ⟨ends_bind first.ends fun sql hs => (second sql hs).ends⟩

namespace Sql

variable {args : List Sql}

theorem isWord_of_lookup {arity : Arity}
    (h : sqliteFunctions.lookup name = some arity) : isWord name := by
  have ha : ∀ entry ∈ sqliteFunctions, isWord entry.1 := by decide +kernel
  obtain ⟨before, after, hs, -⟩ := lookup_eq_some_iff.1 h
  exact ha (name, arity) (by rw [hs]; simp)

/-- SQLite has the functions that others are composed of. -/
theorem isSome_lookup : ∀ name ∈ ["SUBSTR", "INSTR", "REPLACE", "HEX", "ZEROBLOB", "CAST", "DATE",
    "DATETIME", "TIME", "TAN", "ABS", "RANDOM", "STRFTIME", "JULIANDAY", "LENGTH", "MAX", "MIN",
    "LAST_INSERT_ROWID", "ATAN2", "LN"],
    (sqliteFunctions.lookup (Text.asciiUpper name)).isSome := by decide +kernel

/-- A call of a function that SQLite has. -/
theorem composes_call (hn : (sqliteFunctions.lookup (Text.asciiUpper name)).isSome)
    (h : ∀ arg ∈ args, arg.Even .compound) : Composes (call name args) := by
  obtain ⟨arity, ha⟩ := Option.isSome_iff_exists.1 hn
  unfold call
  dsimp only
  rw [ha]
  dsimp only
  split
  · have hn : Even .item [.raw (Text.asciiUpper name)] :=
      even_of_isToken (isWord_of_lookup ha)
    exact composes_ok (stands_cons (hn.append (even_commaSeparated rfl h).parens))
  · exact composes_refusal trivial

end Sql

namespace Function

open Sql

variable {text start length x y needle haystack date opd amount : Sql} {args : List Sql}

section

variable (ha : ∀ arg ∈ args, arg.Even .item)
include ha

theorem composes_unary {write : Sql → Except Error Sql}
    (h : ∀ x : Sql, x.Even .item → Composes (write x)) : Composes (unary name args write) := by
  unfold unary
  split
  · exact h _ (ha _ (by simp))
  · exact composes_refusal trivial

theorem composes_binary {write : Sql → Sql → Except Error Sql}
    (h : ∀ x y : Sql, x.Even .item → y.Even .item → Composes (write x y)) :
    Composes (binary name args write) := by
  unfold binary
  split
  · exact h _ _ (ha _ (by simp)) (ha _ (by simp))
  · exact composes_refusal trivial

theorem composes_ternary {write : Sql → Sql → Sql → Except Error Sql}
    (h : ∀ x y z : Sql, x.Even .item → y.Even .item → z.Even .item → Composes (write x y z)) :
    Composes (ternary name args write) := by
  unfold ternary
  split
  · exact h _ _ _ (ha _ (by simp)) (ha _ (by simp)) (ha _ (by simp))
  · exact composes_refusal trivial

end

/-! ### Text -/

theorem even_concatenation {loose : Looseness} {parts : List Sql}
    (h : ∀ part ∈ parts, Even loose part) : Even loose (concatenation parts) :=
  even_separated (even_tokens (by decide)) h

/-- A stretch in parentheses, and what stands after it. -/
theorem even_group_cons (h : Even .item x) (hm : Even .item y) : Even .item (.group x :: y) :=
  Even.append h.inside.group hm

theorem stands_emptyWhen (hc : Even .item x) (ho : Even .item y) :
    Stands .item (emptyWhen x y) := by
  have hca : Even .item (words ["CASE", "WHEN"]) := even_tokens (by decide)
  have ht : Even .item [.raw "THEN", .string "", .raw "ELSE"] := even_tokens (by decide)
  have he : Even .item (word "END") := even_tokens (by decide)
  exact ⟨(((hca.append hc).append ht).append ho).append he,
    by simp [emptyWhen, words]⟩

theorem composes_left (ht : text.Even .item) (hl : length.Even .item) :
    Composes (left text length) := by
  unfold left
  refine composes_call (isSome_lookup _ (by simp)) ?_
  simp only [forall_mem_cons]
  exact ⟨ht.inside, even_tokens (by decide), hl.inside, by simp⟩

theorem composes_right (ht : text.Even .item) (hl : length.Even .item) :
    Composes (right text length) := by
  have hm : Even .compound [.raw "-"] := even_tokens (by decide)
  have hle : Even .item [.raw "<", .integer 1] := even_tokens (by decide)
  unfold right
  refine composes_bind (composes_call (isSome_lookup _ (by simp)) ?_) fun suffix hs => ?_
  · simp only [forall_mem_cons]
    exact ⟨ht.inside, hm.append hl.inside.group, by simp⟩
  · exact composes_ok (stands_emptyWhen (even_group_cons hl hle) hs.even)

theorem composes_substringFrom (ht : text.Even .item) (hs : start.Even .item) :
    Composes (substringFrom text start) := by
  have hz : Even .item [.raw "=", .integer 0] := even_tokens (by decide)
  unfold substringFrom
  refine composes_bind (composes_call (isSome_lookup _ (by simp)) ?_) fun suffix hsu => ?_
  · simp only [forall_mem_cons]
    exact ⟨ht.inside, hs.inside, by simp⟩
  · exact composes_ok (stands_emptyWhen (even_group_cons hs hz) hsu.even)

theorem composes_substring (ht : text.Even .item) (hs : start.Even .item)
    (hl : length.Even .item) : Composes (substring text start length) := by
  have hz : Even .item [.raw "=", .integer 0, .raw "OR"] := even_tokens (by decide)
  have hle : Even .item [.raw "<", .integer 1] := even_tokens (by decide)
  unfold substring
  refine composes_bind (composes_call (isSome_lookup _ (by simp)) ?_) fun window hw => ?_
  · simp only [forall_mem_cons]
    exact ⟨ht.inside, hs.inside, hl.inside, by simp⟩
  · have hc := even_group_cons hs (hz.append (even_group_cons hl hle))
    exact composes_ok (stands_emptyWhen hc hw.even)

theorem composes_locate (hn : needle.Even .item) (hh : haystack.Even .item) :
    Composes (locate needle haystack) := by
  unfold locate
  refine composes_call (isSome_lookup _ (by simp)) ?_
  simp only [forall_mem_cons]
  exact ⟨hh.inside, hn.inside, by simp⟩

theorem composes_locateFrom (hn : needle.Even .item) (hh : haystack.Even .item)
    (hs : start.Even .item) : Composes (locateFrom needle haystack start) := by
  have hc : Even .item (words ["CASE", "WHEN"]) := even_tokens (by decide)
  have ht : Even .item [.raw ">", .integer 0, .raw "THEN"] := even_tokens (by decide)
  have hp : Even .item (word "+") := even_tokens (by decide)
  have he : Even .item [.raw "-", .integer 1, .raw "ELSE", .integer 0, .raw "END"] :=
    even_tokens (by decide)
  unfold locateFrom
  refine composes_bind (composes_call (isSome_lookup _ (by simp)) ?_) fun rest hr => ?_
  · simp only [forall_mem_cons]
    exact ⟨hh.inside, hs.inside, by simp⟩
  refine composes_bind (composes_call (isSome_lookup _ (by simp)) ?_) fun found hf =>
    composes_ok ⟨?_, ?_⟩
  · simp only [forall_mem_cons]
    exact ⟨hr.even.inside, hn.inside, by simp⟩
  · exact (((((hc.append hf.even).append ht).append hf.even).append hp).append
      hs).append he
  · simp [words]

/-- A call with one argument. -/
theorem composes_call_single
    (hn : (sqliteFunctions.lookup (Text.asciiUpper name)).isSome) (h : Even .compound x) :
    Composes (call name [x]) := composes_call hn (by simpa using h)

theorem composes_repeated (ht : text.Even .item) (hc : length.Even .item) :
    Composes (repeated text length) := by
  unfold repeated
  refine composes_bind
    (composes_call_single (isSome_lookup _ (by simp)) hc.inside) fun zeros hz => ?_
  refine composes_bind
    (composes_call_single (isSome_lookup _ (by simp)) hz.even.inside) fun hex hh => ?_
  refine composes_call (isSome_lookup _ (by simp)) ?_
  simp only [forall_mem_cons]
  exact ⟨hh.even.inside, even_string _, ht.inside, by simp⟩

/-! ### Casts and numbers -/

theorem composes_cast (h : opd.Even .item) {type : String} (ht : isWord type) :
    Composes (cast opd type) := by
  have hw : Even .compound (words ["AS", type]) := by
    refine even_tokens ?_
    simp only [words, map_cons, map_nil, all_cons, all_nil, Bool.and_true,
      Bool.and_eq_true]
    exact ⟨by decide, ht⟩
  exact composes_call_single (isSome_lookup _ (by simp)) (h.inside.append hw)

theorem composes_castTo (h : opd.Even .item) (kw : Keyword) :
    Composes (castTo opd kw) := by
  unfold castTo
  split
  case h_13 | h_14 | h_15 => exact composes_call_single (isSome_lookup _ (by simp)) h.inside
  case h_16 => exact composes_refusal trivial
  all_goals exact composes_cast h (by decide)

theorem composes_cotangent (h : Even .item x) : Composes (cotangent x) := by
  have ho : Even .compound [.integer 1, .raw "/"] := even_tokens (by decide)
  unfold cotangent
  refine composes_bind
    (composes_call_single (isSome_lookup _ (by simp)) h.inside) fun tangent ht => ?_
  exact composes_ok (stands_group (ho.append ht.even.inside))

theorem composes_random : Composes random := by
  have hr : Even .compound [.raw "%", .integer 1000000] := even_tokens (by decide)
  have hs : Even .compound [.raw "/", .literal (.number "1000000.0")] := even_tokens (by decide)
  unfold random
  refine composes_bind (composes_call (isSome_lookup _ (by simp)) (by simp)) fun bits hb => ?_
  refine composes_bind
    (composes_call_single (isSome_lookup _ (by simp)) hb.even.inside) fun size hsi => ?_
  exact composes_ok (stands_group ((hsi.even.inside.append hr).group.append hs))

/-! ### Dates -/

theorem composes_formatted (specifier : String) (hd : date.Even .item) :
    Composes (formatted specifier date) := by
  unfold formatted
  refine composes_bind (composes_call (isSome_lookup _ (by simp)) ?_) fun value hv =>
    composes_cast hv.even (by decide)
  simp only [forall_mem_cons]
  exact ⟨even_string _, hd.inside, by simp⟩

/-- A part of a date that is counted otherwise. -/
theorem stands_recounted (hd : Even .item x) {offset factor : Sql} (ho : offset.Even .compound)
    (hf : factor.Even .compound) :
    Stands .item (group (group (x ++ offset) ++ factor)) :=
  stands_group ((hd.inside.append ho).group.append hf)

theorem composes_datePart (name : String) (hd : date.Even .item) :
    Composes (datePart name date) := by
  have hf {specifier : String} : Composes (formatted specifier date) :=
    composes_formatted specifier hd
  unfold datePart
  split
  case h_9 =>
    refine composes_bind hf fun value hv => composes_ok (stands_group ?_)
    exact hv.even.inside.append (even_tokens (by decide))
  case h_10 | h_11 =>
    refine composes_bind hf fun value hv => composes_ok (stands_recounted hv.even ?_ ?_)
    all_goals exact even_tokens (by decide)
  case h_12 => exact composes_refusal trivial
  all_goals exact hf

theorem ends_intervalParts (h : amount.Even .item) (unit : Keyword) :
    Ends Error.IsRefusal (fun parts => parts.1.Even .item) (intervalParts amount unit) := by
  have hs {factor : Sql} (hf : factor.Even .compound) : Even .item (group (amount ++ factor)) :=
    (h.inside.append hf).group
  unfold intervalParts
  split
  case h_7 | h_8 => exact hs (even_tokens (by decide))
  case h_9 => trivial
  all_goals exact h

theorem composes_shifted (hd : date.Even .item) (subtract : Bool) (ha : amount.Even .item)
    (unit : Keyword) : Composes (shifted date subtract amount unit) := by
  refine ⟨ends_bind (ends_intervalParts ha unit) fun parts hc => Composes.ends ?_⟩
  refine composes_call (isSome_lookup _ (by simp)) ?_
  simp only [forall_mem_cons]
  refine ⟨hd.inside, even_concatenation ?_, by simp⟩
  simp only [forall_mem_cons]
  exact ⟨even_string _, hc.inside, even_string _, by simp⟩

theorem composes_daysBetween (hx : Even .item x) (hy : Even .item y) :
    Composes (daysBetween x y) := by
  have hd {date : Sql} (h : date.Even .item) : Composes (call "DATE" [date]) :=
    composes_call_single (isSome_lookup _ (by simp)) h.inside
  have hn {date : Sql} (h : date.Stands .item) : Composes (call "JULIANDAY" [date]) :=
    composes_call_single (isSome_lookup _ (by simp)) h.even.inside
  have hm : Even .item (word "-") := even_tokens (by decide)
  unfold daysBetween
  refine composes_bind (hd hx) fun _ hl => composes_bind (hn hl) fun last hla => ?_
  refine composes_bind (hd hy) fun _ he => composes_bind (hn he) fun first hf => ?_
  exact composes_cast ((hla.even.append hm).append hf.even) (by decide)

theorem ends_datePattern (pattern : List Char) :
    Ends Error.IsRefusal (fun _ => True) (datePattern pattern) := by
  fun_induction datePattern pattern with
  | case1 | case2 => trivial
  | case3 c rest specifier hs ih => exact ends_bind ih fun _ _ => trivial
  | case4 => trivial
  | case5 c rest h₁ h₂ ih => exact ends_bind ih fun _ _ => trivial

/-! ### Calls -/

theorem composes_word {text : String} (h : isWord text) : Composes (.ok (word text)) :=
  composes_ok (stands_cons (even_tokens (by simpa [isToken] using h)))

theorem composes_wrongCount {arity : Arity} :
    Composes (.error (wrongCount name arity args)) := composes_refusal trivial

theorem composes_composed (name : String)
    (h : ∀ arg ∈ args, arg.Even .item) : Composes (composed name args) := by
  have hi : ∀ arg ∈ args, Even .compound arg :=
    fun arg ha => (h arg ha).inside
  have hd (name : String) : Composes (unary name args (datePart name)) :=
    composes_unary h fun _ => composes_datePart name
  have hl (name : String) :
      Composes (unary name args fun text => do call "LENGTH" [← cast text "BLOB"]) :=
    composes_unary h fun text ht => composes_bind (composes_cast ht (by decide)) fun bytes hb =>
      composes_call_single (isSome_lookup _ (by simp)) hb.even.inside
  unfold composed
  split
  case h_1 | h_2 =>
    split
    · exact composes_wrongCount
    · exact composes_call (isSome_lookup _ (by simp)) hi
  case h_3 => exact composes_unary h fun _ => composes_cotangent
  case h_4 => exact composes_binary h fun _ _ => composes_left
  case h_5 => exact composes_binary h fun _ _ => composes_right
  case h_6 | h_7 | h_8 =>
    split
    · exact composes_substringFrom (h _ (by simp)) (h _ (by simp))
    · exact composes_ternary h fun _ _ _ => composes_substring
  case h_9 =>
    split
    · exact composes_locate (h _ (by simp)) (h _ (by simp))
    · exact composes_ternary h fun _ _ _ => composes_locateFrom
  case h_10 =>
    split
    · exact composes_locate (h _ (by simp)) (h _ (by simp))
    · exact composes_refusal trivial
  case h_11 =>
    split
    · exact composes_wrongCount
    · exact composes_ok (stands_group (even_concatenation hi))
  case h_12 =>
    refine composes_binary h fun x y hx hy => composes_ok (stands_group ?_)
    exact (hx.inside.append (even_tokens (by decide))).append hy.inside
  case h_13 | h_14 => exact hl _
  case h_15 => exact composes_binary h fun _ _ => composes_repeated
  case h_16 => exact composes_unary h fun _ => composes_repeated (even_string _)
  case h_17 =>
    refine composes_unary h fun x hx => composes_ok (stands_group ?_)
    exact hx.inside.append (even_tokens (by decide))
  case h_18 =>
    split
    · exact composes_random
    · exact composes_refusal trivial
  case h_19 =>
    split
    · exact composes_call (isSome_lookup _ (by simp)) (by simp)
    · exact composes_refusal trivial
  case h_20 => exact composes_binary h fun _ _ => composes_daysBetween
  case h_44 =>
    split
    · exact composes_call_single (isSome_lookup _ (by simp)) (h _ (by simp)).inside
    · exact composes_refusal trivial
  case h_45 =>
    split
    · exact composes_formatted _ (even_string _)
    · exact composes_unary h fun _ => composes_formatted _
  case h_46 =>
    refine composes_unary h fun seconds hs => composes_call (isSome_lookup _ (by simp)) ?_
    simp only [forall_mem_cons]
    exact ⟨hs.inside, even_string _, by simp⟩
  case h_47 => exact composes_ok (stands_cons (even_string _))
  case h_48 => exact composes_refusal trivial
  all_goals first
    | exact hd _
    | exact composes_word (by decide)

theorem composes_counterpart (name : String)
    (h : ∀ arg ∈ args, arg.Even .item) : Composes (counterpart name args) := by
  have hi : ∀ arg ∈ args, Even .compound arg :=
    fun arg ha => (h arg ha).inside
  have hs : ∀ name ∈ shared,
      (sqliteFunctions.lookup (Text.asciiUpper name)).isSome := by decide +kernel
  have hr : ∀ entry ∈ renamed,
      (sqliteFunctions.lookup (Text.asciiUpper entry.2)).isSome := by decide +kernel
  unfold counterpart
  split
  · exact composes_call (isSome_lookup _ (by simp)) hi
  split
  · exact composes_call (isSome_lookup _ (by simp)) hi
  split
  · rename_i hn
    exact composes_call (hs name (contains_iff_mem.1 hn)) hi
  split
  · rename_i other ho
    obtain ⟨before, after, hsp, -⟩ := lookup_eq_some_iff.1 ho
    exact composes_call (hr (name, other) (by rw [hsp]; simp)) hi
  · exact composes_composed name h

end Function

/-! ### Types of columns -/

theorem isWord_of_storageClass {kw : Keyword}
    (h : storageClass? kw = some name) : Sql.isWord name := by
  cases kw <;> first
    | (injection h with h; subst h; decide)
    | injection h

end SqlBridge
