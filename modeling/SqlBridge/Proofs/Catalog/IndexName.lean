/-
The indexes of a table have different names.

An index whose name is taken gets the first free suffix.  The suffixed forms of a name differ in
lower case too, so one of the first `used.length + 1` is free.
-/
import Mathlib.Data.List.Nodup
import Mathlib.Data.List.Perm.Subperm
import SqlBridge.Catalog.Index
import SqlBridge.Proofs.Text.Lowercase

namespace SqlBridge.Index

open List

variable {used : List String}

open Text (lowercase)

/-- The ending of the `k`-th suffixed form of a name. -/
def suffix (k : Nat) : String := "_" ++ toString (k + 2)

theorem isLow_of_mem_suffix {k : Nat} {c : Char} (h : c ∈ (suffix k).toList) : Text.IsLow c := by
  have hs : (suffix k).toList = '_' :: Nat.toDigits 10 (k + 2) := by
    simp [suffix]
  rw [hs] at h
  rcases mem_cons.1 h with rfl | hd
  · exact ⟨by decide, by decide, by decide⟩
  · exact Text.isLow_of_isDigit (Nat.isDigit_of_mem_toDigits (by decide) (by decide) hd)

theorem suffix_inj {k m : Nat} (h : suffix k = suffix m) : k = m := by
  have hd : Nat.toDigits 10 (k + 2) = Nat.toDigits 10 (m + 2) := by
    simpa [suffix] using congrArg String.toList h
  have hn := congrArg (Nat.ofDigitChars 10 · 0) hd
  simp only [Nat.ofDigitChars_ten_toDigits] at hn
  omega

theorem suffix_ne_empty (k : Nat) : suffix k ≠ "" := by
  intro h
  simpa [suffix] using congrArg String.toList h

/-- The lower cases of a name and its suffixed forms are different. -/
theorem nodup_candidates (base : String) (n : Nat) :
    ((candidates base n).map lowercase).Nodup := by
  have hf (k : Nat) : s!"{base}_{k + 2}" = base ++ suffix k := by
    show toString base ++ toString "_" ++ toString (k + 2) = _
    rw [String.append_assoc]
    rfl
  have he : ∀ c ∈ "".toList, Text.IsLow c := by simp
  rw [candidates, map_cons, map_map, nodup_cons]
  refine ⟨?_, List.Nodup.map_on ?_ nodup_range⟩
  · rw [mem_map]
    rintro ⟨k, -, hk⟩
    have hp : lowercase (base ++ suffix k) = lowercase (base ++ "") := by
      rw [String.append_empty, ← hf]
      exact hk
    exact suffix_ne_empty k
      (Text.lowercase_append_inj (fun _ => isLow_of_mem_suffix) he hp)
  · intro k _ m _ hkm
    rw [Function.comp_apply, Function.comp_apply, hf, hf] at hkm
    exact suffix_inj (Text.lowercase_append_inj (fun _ => isLow_of_mem_suffix)
      (fun _ => isLow_of_mem_suffix) hkm)

/-- A name that is made for an index is free. -/
theorem freshName_not_mem (used : List String) (base : String) :
    lowercase (freshName used base) ∉ used := by
  unfold freshName
  cases hf : (candidates base (used.length + 1)).find?
      fun name => !used.contains (lowercase name) with
  | some name =>
    have := find?_some hf
    simpa using this
  | none =>
    -- more candidates than used names
    have ha : ∀ name ∈ candidates base (used.length + 1), lowercase name ∈ used := by
      simpa using find?_eq_none.1 hf
    have hs : (candidates base (used.length + 1)).map lowercase ⊆ used := by
      intro name hn
      obtain ⟨candidate, hc, rfl⟩ := mem_map.1 hn
      exact ha candidate hc
    have hl := (subperm_of_subset (nodup_candidates base _) hs).length_le
    simp only [candidates, length_map, length_cons, length_range] at hl
    omega

theorem freshName_of_not_mem {base : String} (h : lowercase base ∉ used) :
    freshName used base = base := by
  rw [freshName, candidates, find?_cons_of_pos (by simpa using h)]
  rfl

/-- An index that is named is one of those there were, but for its name. -/
theorem exists_of_mem_named {indexes : List Index} {index : Index}
    (h : index ∈ named used indexes) : ∃ other ∈ indexes, ∃ name, index = { other with name } := by
  induction indexes generalizing used with
  | nil => cases h
  | cons first rest ih =>
    rcases mem_cons.1 h with rfl | hr
    · exact ⟨first, mem_cons_self, _, rfl⟩
    · obtain ⟨other, ho, hi⟩ := ih hr
      exact ⟨other, mem_cons_of_mem _ ho, hi⟩

theorem lowercase_name_of_mem_named {indexes : List Index} {index : Index}
    (h : index ∈ named used indexes) : lowercase index.name ∉ used := by
  induction indexes generalizing used with
  | nil => cases h
  | cons first rest ih =>
    rw [named, mem_cons] at h
    rcases h with rfl | hr
    · exact freshName_not_mem used first.name
    · exact fun hu => ih hr (mem_cons_of_mem _ hu)

/-- Indexes that are named have different names in lower case. -/
theorem nodup_lowercase_named (used : List String) (indexes : List Index) :
    ((named used indexes).map fun index => lowercase index.name).Nodup := by
  induction indexes generalizing used with
  | nil => exact nodup_nil
  | cons first rest ih =>
    rw [named, map_cons, nodup_cons]
    refine ⟨?_, ih _⟩
    rw [mem_map]
    rintro ⟨index, hi, hn⟩
    exact lowercase_name_of_mem_named hi (hn ▸ mem_cons_self)

/-- Indexes that are named have different names. -/
theorem nodup_named (used : List String) (indexes : List Index) :
    ((named used indexes).map Index.name).Nodup := by
  refine List.Nodup.of_map lowercase ?_
  rw [map_map]
  exact nodup_lowercase_named used indexes

end SqlBridge.Index
