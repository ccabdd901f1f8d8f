/-
The nearest match.

`Tree.nearest?` looks at the levels below a tree one after the other.  Two things are said of it,
for every tree and every test.

* `Tree.nearest?_eq_some_iff`: it finds, of what passes the test, what stands at the least depth
  and, of that depth, first in document order (`Tree.IsNearest`).  Depth and order are those of
  `Tree.leveled`, the descendants with their depths.
* `Tree.Search.ends`: a search with a queue, which takes a tree from its front and puts that tree's
  children at its end, ends with the same answer after finitely many rounds.
-/
import Mathlib.Logic.Function.Iterate
import Mathlib.Tactic.Push
import SqlBridge.Tree

namespace SqlBridge.Tree

open List

variable {test : Tree → Bool} {tree found : Tree} {row : List Tree} {depth : Nat}
variable {other : Nat × Tree} {levels : Nat}

/-! ### Depth and document order -/

mutual

/-- Everything below a tree with its depth, in document order.  The children have the given
depth. -/
def leveled (depth : Nat) : Tree → List (Nat × Tree)
  | .leaf _ => []
  | .node _ children => leveledOfAll depth children

def leveledOfAll (depth : Nat) : List Tree → List (Nat × Tree)
  | [] => []
  | tree :: rest => (depth, tree) :: (tree.leveled (depth + 1) ++ leveledOfAll depth rest)

end

/-- Of what stands below a tree and passes a test, it has the least depth and, of that depth, comes
first in document order. -/
def IsNearest (test : Tree → Bool) (tree found : Tree) : Prop :=
  test found ∧ ∃ before depth after, tree.leveled 1 = before ++ (depth, found) :: after ∧
    (∀ other ∈ before, test other.2 → depth < other.1) ∧
    ∀ other ∈ after, test other.2 → depth ≤ other.1

theorem leveled_eq : tree.leveled depth = leveledOfAll depth tree.children := by
  cases tree <;> rfl

mutual

/-- Without the depths, these are the descendants. -/
theorem map_snd_leveled (depth : Nat) (tree : Tree) :
    (tree.leveled depth).map Prod.snd = tree.descendants := by
  match tree with
  | .leaf _ => rfl
  | .node _ children =>
    rw [leveled, descendants, map_snd_leveledOfAll]

theorem map_snd_leveledOfAll (depth : Nat) (row : List Tree) :
    (leveledOfAll depth row).map Prod.snd = descendantsOfAll row := by
  match row with
  | [] => rfl
  | tree :: rest =>
    rw [leveledOfAll, descendantsOfAll, map_cons, map_append, map_snd_leveled,
      map_snd_leveledOfAll]

end

theorem leveledOfAll_append (depth : Nat) (row others : List Tree) :
    leveledOfAll depth (row ++ others) = leveledOfAll depth row ++ leveledOfAll depth others := by
  induction row with
  | nil => rfl
  | cons tree rest ih => simp [leveledOfAll, ih]

mutual

theorem le_of_mem_leveled {depth : Nat} {tree : Tree}
    (h : other ∈ tree.leveled depth) : depth ≤ other.1 := by
  match tree with
  | .leaf _ => cases h
  | .node _ children => exact le_of_mem_leveledOfAll h

theorem le_of_mem_leveledOfAll {depth : Nat} {row : List Tree}
    (h : other ∈ leveledOfAll depth row) : depth ≤ other.1 := by
  match row with
  | [] => cases h
  | tree :: rest =>
    rw [leveledOfAll, mem_cons, mem_append] at h
    rcases h with rfl | h | h
    · exact Nat.le_refl depth
    · exact Nat.le_of_succ_le (le_of_mem_leveled h)
    · exact le_of_mem_leveledOfAll h

end

/-- The first level is the row itself. -/
theorem filter_leveledOfAll_eq (depth : Nat) (row : List Tree) :
    (leveledOfAll depth row).filter (·.1 == depth) = row.map (Prod.mk depth) := by
  induction row with
  | nil => rfl
  | cons tree rest ih =>
    have hb : (tree.leveled (depth + 1)).filter (·.1 == depth) = [] := by
      rw [filter_eq_nil_iff]
      intro other ho
      have := le_of_mem_leveled ho
      rw [beq_iff_eq]
      omega
    simp [leveledOfAll, hb, ih]

/-- What is deeper stands below the children of the row. -/
theorem filter_leveledOfAll_lt (depth : Nat) (row : List Tree) :
    (leveledOfAll depth row).filter (depth < ·.1) =
      leveledOfAll (depth + 1) (row.flatMap children) := by
  induction row with
  | nil => rfl
  | cons tree rest ih =>
    have hb : (tree.leveled (depth + 1)).filter (depth < ·.1) = tree.leveled (depth + 1) := by
      rw [filter_eq_self]
      intro other ho
      exact decide_eq_true (le_of_mem_leveled ho)
    simp [leveledOfAll, leveledOfAll_append, hb, ih, ← leveled_eq]

/-- What stands in a row or below it stands in the row or in the rows below. -/
theorem mem_leveledOfAll_cases (h : other ∈ leveledOfAll depth row) :
    (∃ tree ∈ row, other = (depth, tree)) ∨
      other ∈ leveledOfAll (depth + 1) (row.flatMap children) := by
  rcases Nat.eq_or_lt_of_le (le_of_mem_leveledOfAll h) with hd | hd
  · have hm : other ∈ (leveledOfAll depth row).filter (·.1 == depth) := by simp [h, ← hd]
    rw [filter_leveledOfAll_eq, mem_map] at hm
    obtain ⟨tree, ht, rfl⟩ := hm
    exact .inl ⟨tree, ht, rfl⟩
  · have hm : other ∈ (leveledOfAll depth row).filter (depth < ·.1) := by simp [h, hd]
    exact .inr (filter_leveledOfAll_lt depth row ▸ hm)

/-! ### What the levels give -/

/-- The first of the least depth: what `IsNearest` says as a search through the leveled list. -/
def IsFirst (test : Tree → Bool) (all : List (Nat × Tree)) (depth : Nat) (found : Tree) : Prop :=
  all.find? (fun other => decide (other.1 = depth) && test other.2) = some (depth, found) ∧
    ∀ other ∈ all, test other.2 → depth ≤ other.1

theorem isNearest_iff :
    IsNearest test tree found ↔ ∃ depth, IsFirst test (tree.leveled 1) depth found := by
  constructor
  · rintro ⟨hf, before, depth, after, hall, hb, ha⟩
    refine ⟨depth, ?_, ?_⟩
    · rw [find?_eq_some_iff_append]
      refine ⟨by simpa using hf, before, after, hall, fun other ho => ?_⟩
      have := hb other ho
      simp only [Bool.not_and, Bool.or_eq_true, Bool.not_eq_true', decide_eq_false_iff_not]
      by_cases ht : test other.2
      · exact .inl (Nat.ne_of_gt (this ht))
      · exact .inr (by simpa using ht)
    · rw [hall]
      intro other ho ht
      rcases mem_append.1 ho with ho | ho
      · exact Nat.le_of_lt (hb other ho ht)
      · rcases mem_cons.1 ho with rfl | ho
        · exact Nat.le_refl _
        · exact ha other ho ht
  · rintro ⟨depth, hf, hle⟩
    obtain ⟨ht, before, after, hall, hb⟩ := find?_eq_some_iff_append.1 hf
    rw [hall] at hle
    refine ⟨by simpa using ht, before, depth, after, hall, fun other ho hto =>
      ?_, fun other ho => ?_⟩
    · have hne : other.1 ≠ depth := by simpa [hto] using hb other ho
      exact Nat.lt_of_le_of_ne (hle other (by simp [ho]) hto) hne.symm
    · exact hle other (by simp [ho])

/-- Only one tree is the first of the least depth. -/
theorem IsFirst.unique {all : List (Nat × Tree)} {other : Nat} {tree : Tree}
    (h : IsFirst test all depth found) (h' : IsFirst test all other tree) : found = tree := by
  have hm := mem_of_find?_eq_some h.1
  have hm' := mem_of_find?_eq_some h'.1
  have ht : test found := by simpa using find?_some h.1
  have ht' : test tree := by simpa using find?_some h'.1
  obtain rfl : depth = other := Nat.le_antisymm (h.2 _ hm' ht') (h'.2 _ hm ht)
  have he := h.1.symm.trans h'.1
  exact congrArg Prod.snd (Option.some.inj he)

theorem height_lt_of_mem (h : tree ∈ row) : tree.height < heightOfAll row := by
  induction row with
  | nil => cases h
  | cons other rest ih =>
    rw [heightOfAll]
    rcases mem_cons.1 h with rfl | h
    · omega
    · have := ih h
      omega

theorem height_lt_of_mem_children (h : found ∈ tree.children) : found.height < tree.height := by
  cases tree with
  | leaf _ => cases h
  | node _ children => exact height_lt_of_mem h

theorem heightOfAll_le (h : ∀ tree ∈ row, tree.height < levels) :
    heightOfAll row ≤ levels := by
  induction row with
  | nil => exact Nat.zero_le _
  | cons tree rest ih =>
    rw [forall_mem_cons] at h
    have := ih h.2
    rw [heightOfAll]
    omega

/-- There is one level less below a row. -/
theorem heightOfAll_flatMap_children (h : heightOfAll row ≤ levels + 1) :
    heightOfAll (row.flatMap children) ≤ levels := by
  refine heightOfAll_le fun tree ht => ?_
  obtain ⟨above, ha, hc⟩ := mem_flatMap.1 ht
  have h1 := height_lt_of_mem ha
  have h2 := height_lt_of_mem_children hc
  omega

/-- By induction on the levels: what is found in the rows below is the first of the least depth,
since the deeper rows are the leveled list without its first level. -/
theorem isFirst_of_nearestIn (depth : Nat) (h : nearestIn test levels row = some found) :
    ∃ least, depth ≤ least ∧ IsFirst test (leveledOfAll depth row) least found := by
  induction levels generalizing row depth with
  | zero => cases h
  | succ levels ih =>
    rw [nearestIn] at h
    cases hr : row.find? test with
    | some first =>
      obtain rfl : first = found := by simpa [hr] using h
      refine ⟨depth, Nat.le_refl _, ?_, fun other ho _ => le_of_mem_leveledOfAll ho⟩
      have hf : ((leveledOfAll depth row).filter (·.1 == depth)).find? (test ·.2) =
          some (depth, first) := by
        rw [filter_leveledOfAll_eq, find?_map]
        simp [Function.comp_def, hr]
      simpa [find?_filter] using hf
    | none =>
      rw [hr] at h
      obtain ⟨least, hle, hf, hall⟩ := ih (depth + 1) h
      refine ⟨least, Nat.le_of_succ_le hle, ?_, fun other ho ht => ?_⟩
      · rw [← hf, ← filter_leveledOfAll_lt, find?_filter]
        refine congrArg (fun p => find? p (leveledOfAll depth row)) (funext fun other => ?_)
        by_cases hd : other.1 = least
        · have hlt : depth < least := hle
          simp [hd, hlt]
        · simp [hd]
      · -- a match of the first level would have been found there
        rcases mem_leveledOfAll_cases ho with ⟨tree, htree, rfl⟩ | hd
        · exact absurd ht (find?_eq_none.1 hr tree htree)
        · exact hall other hd ht

/-- If nothing is found in as many levels as there are, nothing passes the test. -/
theorem eq_false_of_nearestIn (hl : heightOfAll row ≤ levels)
    (h : nearestIn test levels row = none) :
      ∀ other ∈ leveledOfAll depth row, test other.2 = false := by
  induction levels generalizing row depth with
  | zero =>
    cases row with
    | nil => intro other ho; cases ho
    | cons tree rest =>
      rw [heightOfAll] at hl
      omega
  | succ levels ih =>
    rw [nearestIn] at h
    cases hr : row.find? test with
    | some first => simp [hr] at h
    | none =>
      rw [hr] at h
      intro other ho
      rcases mem_leveledOfAll_cases ho with ⟨tree, htree, rfl⟩ | hd
      · simpa using find?_eq_none.1 hr tree htree
      · exact ih (heightOfAll_flatMap_children hl) h other hd

theorem heightOfAll_children : heightOfAll tree.children = tree.height := by
  cases tree <;> rfl

theorem nearest?_eq_none_iff :
    tree.nearest? test = none ↔ ∀ below ∈ tree.descendants, test below = false := by
  rw [← map_snd_leveled 1 tree, forall_mem_map, leveled_eq]
  constructor
  · exact eq_false_of_nearestIn (Nat.le_of_eq heightOfAll_children)
  · intro hall
    cases hn : tree.nearest? test with
    | none => rfl
    | some found =>
      obtain ⟨least, -, hf, -⟩ := isFirst_of_nearestIn 1 hn
      have hm := hall _ (mem_of_find?_eq_some hf)
      exact absurd (find?_some hf) (by simp [hm])

theorem isSome_nearest?_iff :
    (tree.nearest? test).isSome ↔ ∃ below ∈ tree.descendants, test below := by
  rw [Option.isSome_iff_ne_none, Ne, nearest?_eq_none_iff]
  simp

theorem nearest?_eq_some_iff : tree.nearest? test = some found ↔ IsNearest test tree found := by
  have hn {found : Tree} (h : tree.nearest? test = some found) :
      ∃ depth, IsFirst test (tree.leveled 1) depth found := by
    obtain ⟨least, -, hf⟩ := isFirst_of_nearestIn 1 h
    exact ⟨least, leveled_eq ▸ hf⟩
  rw [isNearest_iff]
  refine ⟨hn, fun ⟨depth, hf⟩ => ?_⟩
  cases hs : tree.nearest? test with
  | none =>
    have hm : found ∈ tree.descendants := by
      rw [← map_snd_leveled 1 tree]
      exact mem_map_of_mem (mem_of_find?_eq_some hf.1)
    have ht := find?_some hf.1
    rw [nearest?_eq_none_iff.1 hs _ hm, Bool.and_false] at ht
    cases ht
  | some other =>
    obtain ⟨depth', hf'⟩ := hn hs
    rw [hf'.unique hf]

/-! ### The search with a queue -/

/-- A search: it has ended, or goes on with the trees of its queue. -/
inductive Search where
  | ended (found : Option Tree)
  | queue (trees : List Tree)

namespace Search

/-- One round.  The first tree leaves the queue; if none of its children passes the test, those that
are nodes join the queue at its end. -/
def step (test : Tree → Bool) : Search → Search
  | .ended found => .ended found
  | .queue [] => .ended none
  | .queue (tree :: rest) =>
    match tree.children.find? test with
    | some found => .ended (some found)
    | none => .queue (rest ++ tree.childNodes)

/-- What a row of trees at the front of the queue comes to: a match among their children, or their
children at the end of the queue. -/
theorem iterate_row (test : Tree → Bool) (row queue : List Tree) :
    ∃ rounds, (step test)^[rounds] (.queue (row ++ queue)) =
      match (row.flatMap children).find? test with
      | some found => .ended (some found)
      | none => .queue (queue ++ row.flatMap childNodes) := by
  induction row generalizing queue with
  | nil => exact ⟨0, by simp⟩
  | cons tree rest ih =>
    cases hc : tree.children.find? test with
    | some found => exact ⟨1, by simp [step, hc]⟩
    | none =>
      obtain ⟨rounds, hr⟩ := ih (queue ++ tree.childNodes)
      refine ⟨rounds + 1, ?_⟩
      have hs : step test (.queue (tree :: rest ++ queue)) =
          .queue (rest ++ (queue ++ tree.childNodes)) := by simp [step, hc]
      rw [Function.iterate_succ_apply, hs, hr]
      simp [hc]

theorem flatMap_childNodes (row : List Tree) :
    (row.flatMap childNodes).flatMap children = (row.flatMap children).flatMap children := by
  have hf (trees : List Tree) :
      (trees.filter isNode).flatMap children = trees.flatMap children := by
    induction trees with
    | nil => rfl
    | cons tree rest ih =>
      cases tree with
      | leaf _ => exact ih
      | node rule row =>
        rw [filter_cons_of_pos rfl, flatMap_cons, flatMap_cons, ih]
  simp [flatMap_assoc, childNodes, hf]

/-- By induction on the levels below the queue. -/
theorem iterate_levels (test : Tree → Bool) (levels : Nat) (queue : List Tree)
    (h : ∀ tree ∈ queue, tree.height ≤ levels) :
    ∃ rounds, (step test)^[rounds] (.queue queue) =
      .ended (nearestIn test levels (queue.flatMap children)) := by
  induction levels generalizing queue with
  | zero =>
    have hn : queue.flatMap children = [] := by
      rw [flatMap_eq_nil_iff]
      intro tree ht
      refine eq_nil_iff_forall_not_mem.2 fun below hb => ?_
      have := height_lt_of_mem_children hb
      have := h tree ht
      omega
    have hq : queue.flatMap childNodes = [] := by
      rw [flatMap_eq_nil_iff] at hn ⊢
      intro tree ht
      rw [childNodes, hn tree ht, filter_nil]
    obtain ⟨rounds, hr⟩ := iterate_row test queue []
    rw [append_nil, nil_append, hn, hq] at hr
    exact ⟨rounds + 1, by rw [Function.iterate_succ_apply', hr]; rfl⟩
  | succ levels ih =>
    obtain ⟨rounds, hr⟩ := iterate_row test queue []
    rw [append_nil, nil_append] at hr
    rw [nearestIn]
    cases hf : (queue.flatMap children).find? test with
    | some found => exact ⟨rounds, by rw [hr, hf]; rfl⟩
    | none =>
      have hdown : ∀ tree ∈ queue.flatMap childNodes, tree.height ≤ levels := by
        intro tree ht
        obtain ⟨above, ha, hc⟩ := mem_flatMap.1 ht
        have := height_lt_of_mem_children (mem_filter.1 hc).1
        have := h above ha
        omega
      obtain ⟨more, hm⟩ := ih _ hdown
      refine ⟨more + rounds, ?_⟩
      rw [Function.iterate_add_apply, hr, hf]
      rw [flatMap_childNodes] at hm
      exact hm

/-- The search with a queue ends, with what the levels give. -/
theorem ends (test : Tree → Bool) (tree : Tree) :
    ∃ rounds, (step test)^[rounds] (.queue [tree]) = .ended (tree.nearest? test) := by
  have h := iterate_levels test tree.height [tree] (by simp)
  rwa [flatMap_singleton] at h

end Search

/-! ### Nodes and tokens -/

mutual

theorem filterMap_token?_descendants (rule : Rule) (row : List Tree) :
    (node rule row).descendants.filterMap token? = (node rule row).tokens := by
  rw [descendants, tokens]
  exact filterMap_token?_descendantsOfAll row

theorem filterMap_token?_descendantsOfAll (row : List Tree) :
    (descendantsOfAll row).filterMap token? = tokensOfAll row := by
  match row with
  | [] => rfl
  | .leaf token :: rest =>
    have ht : token? (.leaf token) = some token := rfl
    rw [descendantsOfAll, tokensOfAll, descendants, tokens, nil_append, filterMap_cons_some ht,
      filterMap_token?_descendantsOfAll rest, singleton_append]
  | .node rule kids :: rest =>
    rw [descendantsOfAll, tokensOfAll, filterMap_cons_none rfl, filterMap_append,
      filterMap_token?_descendants rule kids, filterMap_token?_descendantsOfAll rest]

end

/-- What passes for a token of a kind is that token. -/
theorem exists_of_hasKind {kind : Token.Kind} (h : tree.hasKind kind) :
    ∃ token, tree = .leaf token ∧ token.kind = kind := by
  cases tree with
  | leaf token => exact ⟨token, rfl, by simpa [hasKind, token?] using h⟩
  | node rule row => cases h

theorem nearestToken?_eq_some_iff {kind : Token.Kind} {token : Token} :
    tree.nearestToken? kind = some token ↔ tree.nearest? (hasKind kind) = some (.leaf token) := by
  rw [nearestToken?]
  cases hn : tree.nearest? (hasKind kind) with
  | none => simp
  | some found =>
    obtain ⟨other, rfl, -⟩ := exists_of_hasKind (nearest?_eq_some_iff.1 hn).1
    simp [token?]

theorem map_leaf_nearestToken? (kind : Token.Kind) :
    (tree.nearestToken? kind).map leaf = tree.nearest? (hasKind kind) := by
  rw [nearestToken?]
  cases hn : tree.nearest? (hasKind kind) with
  | none => rfl
  | some found =>
    obtain ⟨other, rfl, -⟩ := exists_of_hasKind (nearest?_eq_some_iff.1 hn).1
    rfl

/-- The search for the nearest node of a rule, or token of a kind, below a node.  It finds something
exactly when there is a descendant of that rule or kind, and that one is of the least depth and
first among those; and the search with a queue ends with it. -/
theorem nearest_search (top : Rule) (row : List Tree) (rule : Rule) (kind : Token.Kind) :
    let tree := node top row
    ((tree.nearestNode? rule).isSome ↔ tree.descendantsBy rule ≠ []) ∧
      (∀ found, tree.nearestNode? rule = some found ↔ IsNearest (hasRule rule) tree found) ∧
      ((tree.nearestToken? kind).isSome ↔ tree.tokensBy kind ≠ []) ∧
      (∀ token, tree.nearestToken? kind = some token ↔
        IsNearest (hasKind kind) tree (.leaf token)) ∧
      (∃ rounds, (Search.step (hasRule rule))^[rounds] (.queue [tree]) =
        .ended (tree.nearestNode? rule)) ∧
      ∃ rounds, (Search.step (hasKind kind))^[rounds] (.queue [tree]) =
        .ended ((tree.nearestToken? kind).map leaf) := by
  intro tree
  refine ⟨?_, fun found => nearest?_eq_some_iff, ?_, fun token => ?_, Search.ends _ tree, ?_⟩
  · rw [nearestNode?, isSome_nearest?_iff, descendantsBy, Ne, filter_eq_nil_iff]
    simp
  · have hs : (tree.nearestToken? kind).isSome = (tree.nearest? (hasKind kind)).isSome := by
      rw [← map_leaf_nearestToken?, Option.isSome_map]
    rw [hs, isSome_nearest?_iff, tokensBy, Ne, filter_eq_nil_iff, ← filterMap_token?_descendants]
    push Not
    constructor
    · rintro ⟨below, hb, hk⟩
      obtain ⟨token, rfl, rfl⟩ := exists_of_hasKind hk
      exact ⟨token, mem_filterMap.2 ⟨_, hb, rfl⟩, by simp⟩
    · rintro ⟨token, ht, hk⟩
      obtain ⟨below, hb, hbt⟩ := mem_filterMap.1 ht
      exact ⟨below, hb, by simpa [hasKind, hbt] using hk⟩
  · rw [nearestToken?_eq_some_iff, nearest?_eq_some_iff]
  · rw [map_leaf_nearestToken?]
    exact Search.ends _ tree

end SqlBridge.Tree
