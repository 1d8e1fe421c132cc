import Mathlib.Tactic

/-!
# Maps to sets

A map from keys to sets is a relation between the keys and the elements of their sets.

* `Rel`: the relation;
* `rel_insert_insert`, `rel_insert_erase`, `rel_erase`: an element is added or taken out, or a key;
* `eq_of_isEmpty_erase`: the last element of a set.
-/

namespace Magisk.Lib.SetMap

open Std

variable {κ α : Type} [Ord κ] [TransOrd κ] [Ord α] [TransOrd α]
  {m : ExtTreeMap κ (ExtTreeSet α)} {s : ExtTreeSet α} {k k' : κ} {x y : α}

/-- The key has the element in its set. -/
def Rel (m : ExtTreeMap κ (ExtTreeSet α)) (k : κ) (x : α) : Prop := ∃ s, m[k]? = some s ∧ x ∈ s

lemma Rel.mem (h : Rel m k x) : k ∈ m := by
  obtain ⟨s, hs, -⟩ := h
  exact ExtTreeMap.mem_iff_isSome_getElem?.mpr (by rw [hs]; rfl)

lemma rel_iff (h : m[k]? = some s) : Rel m k x ↔ x ∈ s := by
  simp only [Rel, h, Option.some.injEq, exists_eq_left']

lemma rel_insert_self : Rel (m.insert k s) k y ↔ y ∈ s :=
  rel_iff ExtTreeMap.getElem?_insert_self

variable [LawfulEqOrd κ]

lemma rel_insert_of_ne (h : k' ≠ k) : Rel (m.insert k s) k' y ↔ Rel m k' y := by
  simp [Rel, ExtTreeMap.getElem?_insert, Ne.symm h]

/-- A key goes with its set. -/
lemma rel_erase : Rel (m.erase k) k' y ↔ Rel m k' y ∧ k' ≠ k := by
  simp only [Rel, ExtTreeMap.getElem?_erase]
  by_cases hk : k = k'
  · simp [hk]
  · simp [hk, Ne.symm hk]

variable [LawfulEqOrd α]

/-- An element is added to the set of a key. -/
lemma rel_insert_insert :
    Rel (m.insert k ((m.getD k ∅).insert x)) k' y ↔ Rel m k' y ∨ (k' = k ∧ y = x) := by
  by_cases hk : k' = k
  · subst hk
    rw [rel_insert_self, ExtTreeSet.mem_insert, LawfulEqCmp.compare_eq_iff_eq,
      ExtTreeMap.getD_eq_getD_getElem?]
    cases hs : m[k']? with
    | none => simp [Rel, hs, eq_comm]
    | some s => simp [rel_iff hs, or_comm, eq_comm]
  · simp [rel_insert_of_ne hk, hk]

/-- An element is taken out of it. -/
lemma rel_insert_erase (h : m[k]? = some s) :
    Rel (m.insert k (s.erase x)) k' y ↔ Rel m k' y ∧ ¬(k' = k ∧ y = x) := by
  by_cases hk : k' = k
  · subst hk
    rw [rel_insert_self, rel_iff h, ExtTreeSet.mem_erase, ne_eq, LawfulEqCmp.compare_eq_iff_eq,
      and_comm, eq_comm]
    simp
  · simp [rel_insert_of_ne hk, hk]

lemma eq_of_isEmpty_erase (hs : (s.erase x).isEmpty = true) (hy : y ∈ s) : y = x := by
  by_contra hne
  have hmem : y ∈ s.erase x := ExtTreeSet.mem_erase.mpr
    ⟨fun h => hne (LawfulEqCmp.compare_eq_iff_eq.mp h).symm, hy⟩
  rw [ExtTreeSet.isEmpty_iff.mp hs] at hmem
  exact ExtTreeSet.not_mem_empty hmem

/-- The set of a key without its last element is left out. -/
lemma rel_erase_of_isEmpty (h : m[k]? = some s) (hs : (s.erase x).isEmpty = true) :
    Rel (m.erase k) k' y ↔ Rel m k' y ∧ ¬(k' = k ∧ y = x) := by
  rw [rel_erase]
  refine and_congr_right fun hy => not_congr ⟨fun hk => ⟨hk, ?_⟩, And.left⟩
  subst hk
  exact eq_of_isEmpty_erase hs ((rel_iff h).mp hy)

end Magisk.Lib.SetMap
