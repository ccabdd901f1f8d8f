/-
Rows that are numbered from one on.

* `Numbered`: positions that count up, one by one.
* `Series`: rows in groups, each numbered from one on and without a name twice.  A column is a row
  in the group of its table, a part of an index a row in the group of its index.
* The ways a series is changed and stays one: `Series.update`, `filter`, `append`, `rename`,
  `regroup` and, when a name goes and the rows after it move up, `close`.
-/
import Mathlib.Data.List.Nodup
import SqlBridge.Proofs.Catalog.Effect

namespace SqlBridge

open List

/-- Positions that count up, one by one. -/
def Numbered (first : Int) : List Int64 → Prop
  | [] => True
  | pos :: rest => pos.toInt = first ∧ Numbered (first + 1) rest

namespace Numbered

variable {first : Int} {positions more : List Int64}

theorem append_iff : Numbered first (positions ++ more) ↔
    Numbered first positions ∧ Numbered (first + positions.length) more := by
  induction positions generalizing first with
  | nil => simp [Numbered]
  | cons pos rest ih =>
    have hn : first + 1 + rest.length = first + ((pos :: rest).length : Nat) := by
      rw [length_cons]
      omega
    rw [cons_append, Numbered, Numbered, ih, hn, and_assoc]

/-- A position is the first or counts on from it. -/
theorem bounds (h : Numbered first positions) {pos : Int64} (hp : pos ∈ positions) :
    first ≤ pos.toInt ∧ pos.toInt < first + positions.length := by
  induction positions generalizing first with
  | nil => cases hp
  | cons he rest ih =>
    obtain ⟨hh, hr⟩ := h
    rw [length_cons]
    rcases mem_cons.1 hp with rfl | ht
    · omega
    · have := ih hr ht
      omega

theorem mapIdx_add {α : Type} (members : List α) {k : Nat}
    (h : k + members.length ≤ Int64.maxValue.toInt) :
    Numbered (k + 1) (members.mapIdx fun i _ => Int64.ofNat (k + i + 1)) := by
  induction members generalizing k with
  | nil => trivial
  | cons a rest ih =>
    rw [length_cons] at h
    rw [mapIdx_cons]
    refine ⟨?_, ?_⟩
    · rw [Int64.toInt_maxValue] at h
      rw [← Int64.ofInt_eq_ofNat, Int64.toInt_ofInt_of_le (by omega) (by omega)]
      omega
    · have hr := ih (k := k + 1) (by omega)
      have hn : (fun (i : Nat) (_ : α) => Int64.ofNat (k + (i + 1) + 1)) =
          fun (i : Nat) (_ : α) => Int64.ofNat (k + 1 + i + 1) := by
        funext i _
        congr 1
        omega
      rw [hn]
      exact_mod_cast hr

/-- The places of the members of a list, from one on. -/
theorem mapIdx {α : Type} (members : List α) (h : members.length ≤ Int64.maxValue.toInt) :
    Numbered 1 (members.mapIdx fun i _ => Int64.ofNat (i + 1)) := by
  have hn := mapIdx_add members (k := 0) (by simpa using h)
  simpa using hn

/-- The last position is the greatest. -/
theorem greatest? (h : Numbered first positions) (hne : positions ≠ []) :
    ∃ last, Catalog.greatest? positions = some last ∧
      last.toInt = first + positions.length - 1 := by
  induction positions generalizing first with
  | nil => exact absurd rfl hne
  | cons pos rest ih =>
    obtain ⟨hp, hr⟩ := h
    rw [Catalog.greatest?, length_cons]
    by_cases he : rest = []
    · subst he
      exact ⟨pos, rfl, by simpa using hp⟩
    · obtain ⟨last, hl, hc⟩ := ih hr he
      have hpo := length_pos_iff.2 he
      rw [hl]
      refine ⟨last, ?_, by omega⟩
      dsimp only
      rw [if_pos]
      exact Int64.lt_iff_toInt_lt.2 (by omega)

/-- No more positions than there are 64-bit integers from one on. -/
theorem length_le (h : Numbered 1 positions) : positions.length ≤ Int64.maxValue.toInt := by
  by_cases he : positions = []
  · subst he
    decide
  · obtain ⟨last, -, hl⟩ := h.greatest? he
    have hm := Int64.toInt_le last
    omega

end Numbered

/-! ### Rows made of a list -/

theorem map_mapIdx {α β γ : Type} (members : List α) (f : Nat → α → β) (g : β → γ) :
    (members.mapIdx f).map g = members.mapIdx fun i a => g (f i a) := by
  rw [mapIdx_eq_zipIdx_map, mapIdx_eq_zipIdx_map, map_map]
  rfl

theorem mapIdx_const {α β : Type} (members : List α) (f : α → β) :
    members.mapIdx (fun _ a => f a) = members.map f := by
  induction members with
  | nil => rfl
  | cons a rest ih => rw [mapIdx_cons, map_cons, ih]

/-! ### Changed rows -/

section Changed

variable {ρ α : Type} {rows : List ρ} {p q : ρ → Bool} {change : ρ → ρ}

theorem changed_append (rows more : List ρ) :
    changed (rows ++ more) p change = changed rows p change ++ changed more p change :=
  map_append

theorem changed_of_forall_false (h : ∀ row ∈ rows, p row = false) :
    changed rows p change = rows := by
  rw [changed]
  conv => rhs; rw [← map_id rows]
  exact map_congr_left fun row hr => by simp [h row hr]

theorem changed_of_forall_true (h : ∀ row ∈ rows, p row) :
    changed rows p change = rows.map change :=
  map_congr_left fun row hr => by simp [h row hr]

theorem mem_changed {row : ρ} : row ∈ changed rows p change ↔
    ∃ old ∈ rows, p old ∧ row = change old ∨ p old = false ∧ row = old := by
  rw [changed, mem_map]
  refine exists_congr fun old => and_congr_right fun _ => ?_
  cases p old <;> simp [eq_comm]

/-- A row that is there before a change is there after it, maybe changed. -/
theorem exists_mem_changed {old : ρ} (h : old ∈ rows) :
    ∃ row ∈ changed rows p change, p old ∧ row = change old ∨ p old = false ∧ row = old := by
  cases hp : p old with
  | true => exact ⟨change old, mem_changed.2 ⟨old, h, .inl ⟨hp, rfl⟩⟩, .inl ⟨rfl, rfl⟩⟩
  | false => exact ⟨old, mem_changed.2 ⟨old, h, .inr ⟨hp, rfl⟩⟩, .inr ⟨rfl, rfl⟩⟩

/-- What holds of all rows and is kept by a change holds of the changed rows. -/
theorem of_mem_changed {P : ρ → Prop} {row : ρ} (hr : row ∈ changed rows p change)
    (h : ∀ row ∈ rows, P row) (hc : ∀ row, P row → P (change row)) : P row := by
  obtain ⟨old, ho, ⟨-, rfl⟩ | ⟨-, rfl⟩⟩ := mem_changed.1 hr
  · exact hc old (h old ho)
  · exact h row ho

/-- A row that is there before a change is there after it. -/
theorem exists_changed {P : ρ → Prop} (h : ∃ row ∈ rows, P row)
    (hc : ∀ row, P row → P (change row)) : ∃ row ∈ changed rows p change, P row := by
  obtain ⟨old, ho, hk⟩ := h
  have hn : ∃ row ∈ changed rows p change, _ := exists_mem_changed ho
  obtain ⟨row, hr, ⟨-, rfl⟩ | ⟨-, rfl⟩⟩ := hn
  · exact ⟨_, hr, hc old hk⟩
  · exact ⟨_, hr, hk⟩

/-- A change of the rows is a change of what is read off them. -/
theorem changed_map {f : ρ → α} {cond : α → Bool} {change' : α → α}
    (hc : ∀ row ∈ rows, cond (f row) = p row)
    (hch : ∀ row, f (change row) = change' (f row)) :
    changed (rows.map f) cond change' = (changed rows p change).map f := by
  rw [changed, changed, map_map, map_map]
  refine map_congr_left fun row hr => ?_
  simp only [Function.comp_apply, hc row hr]
  cases p row <;> simp [hch]

/-- What a change makes of something that is read off the rows. -/
theorem map_changed_eq_map {g : ρ → α} {f : α → α} (hc : ∀ row, p row → g (change row) = f (g row))
    (hk : ∀ row, p row = false → g row = f (g row)) :
    (changed rows p change).map g = (rows.map g).map f := by
  rw [changed, map_map, map_map]
  refine map_congr_left fun row _ => ?_
  cases hp : p row with
  | true => simp [hp, hc row hp]
  | false => simp [hp, ← hk row hp]

/-- What a change leaves as it is. -/
theorem map_changed {g : ρ → α} (h : ∀ row ∈ rows, p row → g (change row) = g row) :
    (changed rows p change).map g = rows.map g := by
  rw [changed, map_map]
  refine map_congr_left fun row hr => ?_
  by_cases hp : p row
  · simp [hp, h row hr hp]
  · simp [hp]

/-- Rows that a change does not bring in or out. -/
theorem filter_changed (h : ∀ row ∈ rows, p row → q (change row) = q row) :
    (changed rows p change).filter q = changed (rows.filter q) p change := by
  induction rows with
  | nil => rfl
  | cons row rest ih =>
    rw [forall_mem_cons] at h
    rw [changed, map_cons, filter_cons, filter_cons]
    have hro : q (if p row then change row else row) = q row := by
      split
      · rename_i hp
        exact h.1 hp
      · rfl
    have hr := ih h.2
    rw [changed] at hr
    rw [hro, hr]
    split <;> rfl

theorem changed_congr {q : ρ → Bool} (h : ∀ row ∈ rows, p row = q row) :
    changed rows p change = changed rows q change :=
  map_congr_left fun row hr => by simp only [h row hr]

end Changed

/-! ### Closing a gap -/

section Closing

variable {ρ : Type} {rows : List ρ} {pos : ρ → Int64} {name : ρ → String} {up : ρ → ρ}

theorem Numbered.moved {first : Int} (h : Numbered (first + 1) (rows.map pos))
    (hup : ∀ row, pos (up row) = pos row - 1) (hf : 0 ≤ first) :
    Numbered first (rows.map (pos ∘ up)) := by
  induction rows generalizing first with
  | nil => trivial
  | cons row rest ih =>
    obtain ⟨hro, hr⟩ := h
    refine ⟨?_, ih hr (by omega)⟩
    have ho : (1 : Int64).toInt = 1 := rfl
    rw [Function.comp_apply, hup, Int64.toInt_sub_of_le]
    · omega
    · rw [Int64.le_iff_toInt_le]
      decide
    · rw [Int64.le_iff_toInt_le]
      omega

/-- When a row goes and the rows after it move up, the rest is numbered. -/
theorem Numbered.close (hro : Numbered 1 (rows.map pos)) (col : String)
    (hup : ∀ row, pos (up row) = pos row - 1) (hna : ∀ row, name (up row) = name row)
    (hn : (rows.map name).Nodup) :
    Numbered 1 (((changed rows (fun row => (rows.find? (name · = col)).any
      (pos · < pos row)) up).filter (name · ≠ col)).map pos) := by
  cases hfo : rows.find? (name · = col) with
  | none =>
    have ho : ∀ row ∈ rows, name row ≠ col := by
      simpa using find?_eq_none.1 hfo
    rw [changed_of_forall_false (by simp),
      filter_eq_self.2 fun row hr => by simpa using ho row hr]
    exact hro
  | some gone =>
    obtain ⟨hg, before, after, rfl, hb⟩ := find?_eq_some_iff_append.1 hfo
    rw [decide_eq_true_eq] at hg
    subst hg
    rw [map_append, map_cons, Numbered.append_iff, Numbered, length_map] at hro
    obtain ⟨hf, hp, hl⟩ := hro
    -- no other row has the name
    have hfr : ∀ row ∈ before ++ after, name row ≠ name gone := by
      rw [map_append, map_cons, nodup_middle, nodup_cons] at hn
      intro row hr heq
      exact hn.1 (by rw [← heq, ← map_append]; exact mem_map_of_mem hr)
    have hs : ∀ row ∈ before, (some gone).any (pos · < pos row) = false := by
      intro row hr
      have hr' := hf.bounds (mem_map_of_mem hr)
      rw [length_map] at hr'
      rw [Option.any_some, decide_eq_false_iff_not, Int64.lt_iff_toInt_lt]
      omega
    have hm : ∀ row ∈ after, (some gone).any (pos · < pos row) := by
      intro row hr
      have hr' := hl.bounds (mem_map_of_mem hr)
      rw [Option.any_some, decide_eq_true_eq, Int64.lt_iff_toInt_lt]
      omega
    have hk : ∀ row ∈ after.map up, decide (name row ≠ name gone) := by
      intro row hr
      obtain ⟨old, hol, rfl⟩ := mem_map.1 hr
      rw [hna]
      simpa using hfr old (mem_append_right _ hol)
    rw [changed_append, changed_of_forall_false hs, ← singleton_append, changed_append,
      changed_of_forall_true hm, changed_of_forall_false (by simp),
      filter_append, filter_append]
    rw [filter_eq_self.2 fun row hr => by
        simpa using hfr row (mem_append_left _ hr),
      filter_eq_nil_iff.2 (by simp), filter_eq_self.2 hk,
      nil_append, map_append, Numbered.append_iff, length_map, map_map]
    exact ⟨hf, hl.moved hup (by omega)⟩

end Closing

/-! ### Series -/

/-- Rows in groups, each numbered from one on and without a name twice. -/
structure Series {ρ κ : Type} [DecidableEq κ] (group : ρ → κ) (position : ρ → Int64)
    (name : ρ → String) (rows : List ρ) : Prop where
  numbered (k : κ) : Numbered 1 ((rows.filter (group · = k)).map position)
  distinct (k : κ) : ((rows.filter (group · = k)).map name).Nodup

namespace Series

variable {ρ κ : Type} [DecidableEq κ] {group : ρ → κ} {pos : ρ → Int64} {name : ρ → String}
  {rows : List ρ}

theorem nil : Series group pos name [] := ⟨fun _ => trivial, fun _ => nodup_nil⟩

variable (h : Series group pos name rows)

include h

/-- A row is the only one of its name in its group. -/
theorem pairwise :
    rows.Pairwise fun row other => ¬(group row = group other ∧ name row = name other) := by
  rw [pairwise_iff_forall_sublist]
  rintro row other hs ⟨hg, hn⟩
  have hp := (hs.filter (group · = group other)).map name
  rw [filter_eq_self.2 (by simp [hg])] at hp
  have hd := (h.distinct (group other)).sublist hp
  rw [map_cons, map_cons, hn] at hd
  simp at hd

/-- A row is found by its name. -/
theorem filter_eq_singleton {row : ρ} (hro : row ∈ rows) :
    rows.filter (fun other => group other = group row && name other = name row) = [row] := by
  have hm : row ∈ rows.filter fun other => group other = group row && name other = name row :=
    mem_filter.2 ⟨hro, by simp⟩
  have hsa : ∀ other ∈ rows.filter fun other => group other = group row && name other = name row,
      group other = group row ∧ name other = name row := by
    intro other ho
    simpa using (mem_filter.1 ho).2
  have hd := h.pairwise.filter fun other => group other = group row && name other = name row
  match hr : rows.filter fun other => group other = group row && name other = name row with
  | [] =>
    rw [hr] at hm
    cases hm
  | [only] =>
    rw [hr, mem_singleton] at hm
    rw [hm]
  | first :: second :: rest =>
    rw [hr] at hsa hd
    have hf := hsa first (by simp)
    have hs := hsa second (by simp)
    refine absurd ?_ ((pairwise_cons.1 hd).1 second (by simp))
    exact ⟨hf.1.trans hs.1.symm, hf.2.trans hs.2.symm⟩

/-- A change of other values. -/
theorem update {cond : ρ → Bool} {change : ρ → ρ} (hg : ∀ row, group (change row) = group row)
    (hp : ∀ row, pos (change row) = pos row)
    (hn : ∀ row, name (change row) = name row) :
    Series group pos name (changed rows cond change) := by
  have hf (k : κ) : (changed rows cond change).filter (group · = k) =
      changed (rows.filter (group · = k)) cond change :=
    filter_changed fun row _ _ => by rw [hg]
  constructor
  · intro k
    rw [hf, map_changed fun row _ _ => hp row]
    exact h.numbered k
  · intro k
    rw [hf, map_changed fun row _ _ => hn row]
    exact h.distinct k

/-- Some groups go. -/
theorem filter (p : κ → Bool) : Series group pos name (rows.filter fun row => p (group row)) := by
  have hf (k : κ) : (rows.filter fun row => p (group row)).filter (group · = k) =
      if p k then rows.filter (group · = k) else [] := by
    rw [filter_filter]
    split
    · refine filter_congr fun row _ => ?_
      by_cases hk : group row = k <;> simp_all
    · rw [filter_eq_nil_iff]
      intro row _
      by_cases hk : group row = k <;> simp_all
  constructor
  · intro k
    rw [hf]
    split
    · exact h.numbered k
    · trivial
  · intro k
    rw [hf]
    split
    · exact h.distinct k
    · exact nodup_nil

/-- Rows of one group come after the others. -/
theorem append {more : List ρ} {k : κ} (hg : ∀ row ∈ more, group row = k)
    (hn : Numbered (1 + (rows.filter (group · = k)).length) (more.map pos))
    (hd : (more.map name).Nodup)
    (hfr : ∀ row ∈ more, ∀ old ∈ rows, group old = k → name old ≠ name row) :
    Series group pos name (rows ++ more) := by
  have hf (j : κ) : more.filter (group · = j) = if j = k then more else [] := by
    split
    · subst j
      exact filter_eq_self.2 fun row hr => by simpa using hg row hr
    · rename_i hne
      exact filter_eq_nil_iff.2 fun row hr => by simpa [hg row hr] using Ne.symm hne
  constructor
  · intro j
    rw [filter_append, map_append, Numbered.append_iff, hf, length_map]
    refine ⟨h.numbered j, ?_⟩
    split
    · subst j
      exact hn
    · trivial
  · intro j
    rw [filter_append, map_append, hf, nodup_append]
    refine ⟨h.distinct j, ?_, ?_⟩
    · split
      · exact hd
      · exact nodup_nil
    · intro a ha b hb
      obtain ⟨old, ho, rfl⟩ := mem_map.1 ha
      rw [mem_filter, decide_eq_true_eq] at ho
      obtain ⟨row, hr, rfl⟩ := mem_map.1 hb
      split at hr
      · subst j
        exact hfr row hr old ho.1 ho.2
      · cases hr

/-- A name becomes another that is new to the groups. -/
theorem rename {old : String} {change : ρ → ρ}
    (p : κ → Bool) (new : String) (hg : ∀ row, group (change row) = group row)
    (hpo : ∀ row, pos (change row) = pos row)
    (hnam : ∀ row, name (change row) = new)
    (hfr : ∀ row ∈ rows, p (group row) → name row ≠ new) :
    Series group pos name
      (changed rows (fun row => p (group row) && name row = old) change) := by
  have hf (k : κ) :
      (changed rows (fun row => p (group row) && name row = old) change).filter
        (group · = k) = changed (rows.filter (group · = k))
          (fun row => p (group row) && name row = old) change :=
    filter_changed fun row _ _ => by rw [hg]
  constructor
  · intro k
    rw [hf, map_changed fun row _ _ => hpo row]
    exact h.numbered k
  · intro k
    rw [hf]
    by_cases hp : p k
    · have hna : (changed (rows.filter (group · = k))
          (fun row => p (group row) && name row = old) change).map name =
          ((rows.filter (group · = k)).map name).map fun n => if n = old then new else n := by
        rw [changed, map_map, map_map]
        refine map_congr_left fun row hr => ?_
        rw [mem_filter, decide_eq_true_eq] at hr
        by_cases ho : name row = old
        · simp [hr.2, hp, ho, hnam]
        · simp [ho]
      rw [hna]
      -- the new name is none of the others
      have hne : ∀ n ∈ (rows.filter (group · = k)).map name, n ≠ new := by
        intro n hn
        obtain ⟨row, hr, rfl⟩ := mem_map.1 hn
        rw [mem_filter, decide_eq_true_eq] at hr
        exact hfr row hr.1 (by rw [hr.2, hp])
      refine (h.distinct k).map_on fun a ha b hb hab => ?_
      have ha' := hne a ha
      have hb' := hne b hb
      grind
    · rw [changed_of_forall_false]
      · exact h.distinct k
      · intro row hr
        rw [mem_filter, decide_eq_true_eq] at hr
        simp [hr.2, hp]

/-- Groups become others without meeting. -/
theorem regroup {cond : ρ → Bool} {change : ρ → ρ} (f : κ → κ)
    (hch : ∀ row, cond row → group (change row) = f (group row))
    (hke : ∀ row, cond row = false → group row = f (group row))
    (hp : ∀ row, pos (change row) = pos row)
    (hna : ∀ row, name (change row) = name row)
    (hi : ∀ row ∈ rows, ∀ other ∈ rows, f (group row) = f (group other) →
      group row = group other) :
    Series group pos name (changed rows cond change) := by
  have hf (k : κ) : (changed rows cond change).filter (group · = k) =
      changed (rows.filter fun row => f (group row) = k) cond change := by
    rw [changed, changed, filter_map]
    congr 1
    refine filter_congr fun row _ => ?_
    cases hc : cond row with
    | true => simp [hc, hch row hc]
    | false => simp [hc, ← hke row hc]
  -- the rows of a group were those of one group before
  have hb (k : κ) : (rows.filter fun row => f (group row) = k) = [] ∨
      ∃ j, (rows.filter fun row => f (group row) = k) = rows.filter (group · = j) := by
    by_cases hno : ∃ row ∈ rows, f (group row) = k
    · obtain ⟨row, hr, rfl⟩ := hno
      refine .inr ⟨group row, filter_congr fun other ho => ?_⟩
      exact decide_eq_decide.2 ⟨hi other ho row hr, congrArg f⟩
    · refine .inl (filter_eq_nil_iff.2 fun row hr => ?_)
      simpa using fun hk => hno ⟨row, hr, hk⟩
  constructor
  · intro k
    rw [hf, map_changed fun row _ _ => hp row]
    rcases hb k with hn | ⟨j, hj⟩
    · rw [hn]
      trivial
    · rw [hj]
      exact h.numbered j
  · intro k
    rw [hf, map_changed fun row _ _ => hna row]
    rcases hb k with hn | ⟨j, hj⟩
    · rw [hn]
      exact nodup_nil
    · rw [hj]
      exact h.distinct j

/-- A name goes from some groups and the rows after it move up. -/
theorem close {cond : ρ → Bool} {up : ρ → ρ} {col : String} (p : κ → Bool)
    (hc : ∀ row ∈ rows, cond row = (p (group row) &&
      (rows.find? fun other => group other = group row && name other = col).any
        (pos · < pos row)))
    (hg : ∀ row, group (up row) = group row)
    (hpo : ∀ row, pos (up row) = pos row - 1)
    (hn : ∀ row, name (up row) = name row) :
    Series group pos name ((changed rows cond up).filter
      fun row => !(p (group row) && name row = col)) := by
  have hf (k : κ) : ((changed rows cond up).filter
      fun row => !(p (group row) && name row = col)).filter (group · = k) =
      (changed (rows.filter (group · = k)) cond up).filter
        fun row => !(p k && name row = col) := by
    rw [← filter_changed fun row _ _ => by rw [hg], filter_filter, filter_filter]
    refine filter_congr fun row _ => ?_
    by_cases hk : group row = k <;> simp [hk]
  have hcl (k : κ) (hp : p k) : changed (rows.filter (group · = k)) cond up =
      changed (rows.filter (group · = k))
        (fun row => ((rows.filter (group · = k)).find? (name · = col)).any
          (pos · < pos row)) up := by
    refine changed_congr fun row hr => ?_
    rw [mem_filter, decide_eq_true_eq] at hr
    rw [hc row hr.1, hr.2, hp, find?_filter, Bool.true_and]
    simp only [Bool.decide_and, Bool.decide_eq_true]
  have hke (k : κ) (hp : p k = false) : changed (rows.filter (group · = k)) cond up =
      rows.filter (group · = k) := by
    refine changed_of_forall_false fun row hr => ?_
    rw [mem_filter, decide_eq_true_eq] at hr
    rw [hc row hr.1, hr.2, hp, Bool.false_and]
  constructor
  · intro k
    rw [hf]
    cases hp : p k with
    | true =>
      rw [hcl k hp]
      simpa using (h.numbered k).close col hpo hn (h.distinct k)
    | false =>
      rw [hke k hp]
      simpa using h.numbered k
  · intro k
    rw [hf]
    have hna : ((changed (rows.filter (group · = k)) cond up).map name).Nodup := by
      rw [map_changed fun row _ _ => hn row]
      exact h.distinct k
    exact hna.sublist (filter_sublist.map name)

end Series

/-- The position after those of a table's columns, where they are numbered. -/
theorem Catalog.nextOrdinal?_of_numbered {cat : Catalog} {place : Place}
    (h : Numbered 1 ((cat.columns.filter (·.place = place)).map ColumnRow.ordinal)) :
    cat.nextOrdinal? place =
      if (cat.columns.filter (·.place = place)).length < Int64.maxValue.toInt then
        some (Int64.ofNat ((cat.columns.filter (·.place = place)).length + 1))
      else none := by
  have hle := h.length_le
  rw [length_map, Int64.toInt_maxValue] at hle
  rw [nextOrdinal?]
  generalize cat.columns.filter (·.place = place) = rows at h hle ⊢
  by_cases he : rows = []
  · subst he
    rfl
  · obtain ⟨last, hl, hc⟩ := h.greatest? (by simpa using he)
    rw [length_map] at hc
    have hi : last < Int64.maxValue ↔ rows.length < Int64.maxValue.toInt := by
      rw [Int64.lt_iff_toInt_lt]
      omega
    have hs : last = Int64.ofNat rows.length := by
      rw [← Int64.toInt_inj, Int64.toInt_ofNat_of_lt (by omega)]
      omega
    rw [hl, hs, Int64.ofNat_add]
    rw [hs] at hi
    exact ite_congr (propext hi) (fun _ => rfl) fun _ => rfl

end SqlBridge
