/-
When two indexes have one name in SQLite.

`indexName` joins the name of a table and that of an index by two underscores, which names may hold
too.  `indexName_eq_iff_spills` gives all ways to read one name as that of two indexes: the longer
table name takes up a part of the other index's name.
-/
import SqlBridge.Proofs.Session.Data

namespace SqlBridge

open List

theorem toList_indexName (table index : String) :
    (indexName table index).toList = table.toList ++ '_' :: '_' :: index.toList := by
  simp [indexName, toString]

/-- The name of the table `u` takes up the beginning of the name of the index `i` of `t`. -/
def Spills (t i u j : String) : Prop :=
  (u = t ++ "_" ∧ i = "_" ++ j) ∨ ∃ more, u = t ++ "__" ++ more ∧ i = more ++ "__" ++ j

theorem Spills.indexName_eq {t i u j : String} (h : Spills t i u j) :
    indexName t i = indexName u j := by
  apply String.toList_injective
  rcases h with ⟨rfl, rfl⟩ | ⟨more, rfl, rfl⟩ <;> simp [toList_indexName]

/-- Two names of indexes where one name of a table begins the other. -/
theorem spills_of_append {t i u j : String} {more : List Char} (hu : u.toList = t.toList ++ more)
    (hi : '_' :: '_' :: i.toList = more ++ '_' :: '_' :: j.toList) :
    (t = u ∧ i = j) ∨ Spills t i u j := by
  match more with
  | [] =>
    refine .inl ⟨String.toList_injective ?_, String.toList_injective ?_⟩
    · simpa using hu.symm
    · simpa using hi
  | [c] =>
    simp only [cons_append, nil_append, cons.injEq] at hi
    obtain ⟨rfl, -, hi⟩ := hi
    refine .inr (.inl ⟨String.toList_injective ?_, String.toList_injective ?_⟩)
    · simpa using hu
    · simpa using hi
  | c :: d :: rest =>
    simp only [cons_append, cons.injEq] at hi
    obtain ⟨rfl, rfl, hi⟩ := hi
    refine .inr (.inr ⟨String.ofList rest, String.toList_injective ?_, String.toList_injective ?_⟩)
    · simpa using hu
    · simpa using hi

/-- Two indexes have one name in SQLite only if they are one index or the name of one table takes up
a part of the other index's name; taking the beginning of a table's names off a name gives the
index of that table with the name, whosever index it was. -/
theorem indexName_eq_iff_spills (t i u j : String) :
    (indexName t i = indexName u j ↔ (t = u ∧ i = j) ∨ Spills t i u j ∨ Spills u j t i) ∧
      (Text.after? (indexName t "").toList (indexName u j).toList = some i.toList ↔
        indexName u j = indexName t i) := by
  refine ⟨⟨fun h => ?_, ?_⟩, ?_⟩
  · have hl := congrArg String.toList h
    rw [toList_indexName, toList_indexName, append_eq_append_iff] at hl
    rcases hl with ⟨more, hu, hi⟩ | ⟨more, ht, hj⟩
    · exact (spills_of_append hu hi).imp_right .inl
    · rcases spills_of_append ht hj with ⟨hs, hx⟩ | hs
      · exact .inl ⟨hs.symm, hx.symm⟩
      · exact .inr (.inr hs)
  · rintro (⟨rfl, rfl⟩ | h | h)
    · rfl
    · exact h.indexName_eq
    · exact h.indexName_eq.symm
  · rw [Text.after?_eq_some, ← String.toList_inj, toList_indexName t i, toList_indexName t ""]
    simp

/-- The index `b__c` of the table `a` and the index `c` of the table `a__b` have one name. -/
theorem indexName_ambiguous : indexName "a" "b__c" = indexName "a__b" "c" := by
  decide +kernel

end SqlBridge
