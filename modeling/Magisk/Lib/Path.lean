import Mathlib.Tactic

/-!
# Paths

A path is a list that is split at a separator.  A path is normal if it is empty or none of its
pieces is.

* `Full`: a path all of whose pieces have items;
* `full_append_cons`, `Full.append`, `full_of_append`: paths that are put together;
* `normal`: a path without its empty pieces;
* `normal_eq_self_iff`, `normal_normal`: the paths that are normal.
-/

namespace Magisk.Lib

open List

universe u

variable {α : Type u} [DecidableEq α] {x : α} {l l' : List α}

/-- No piece of the path is empty. -/
def Full (x : α) (l : List α) : Prop := ∀ p ∈ l.splitOn x, p ≠ []

/-- The path without its empty pieces. -/
def normal (x : α) (l : List α) : List α := [x].intercalate ((l.splitOn x).filter (· ≠ []))

/-- A piece has no separator. -/
lemma notMem_of_mem_splitOn (hp : p ∈ l.splitOn x) : x ∉ p := by
  induction l generalizing p with
  | nil =>
    rw [splitOn_nil, mem_singleton] at hp
    rw [hp]
    exact not_mem_nil
  | cons a l ih =>
    rw [splitOn_cons_eq_if_modifyHead] at hp
    split at hp
    · rcases mem_cons.mp hp with rfl | hp
      · exact not_mem_nil
      · exact ih hp
    · rename_i hne
      obtain ⟨q, qs, hq⟩ := exists_cons_of_ne_nil (splitOn_ne_nil x l)
      rw [hq] at hp
      rw [hq] at ih
      rcases mem_cons.mp hp with rfl | hp
      · rw [mem_cons, not_or]
        exact ⟨fun heq => hne (beq_iff_eq.mpr heq.symm), ih (.head _)⟩
      · exact ih (mem_cons_of_mem q hp)

/-! ### Full paths -/

lemma not_full_nil : ¬Full x [] := fun h => h [] (by rw [splitOn_nil]; simp) rfl

lemma full_of_notMem (hx : x ∉ l) (hne : l ≠ []) : Full x l := by
  intro p hp
  rw [splitOn_eq_singleton hx, mem_singleton] at hp
  rwa [hp]

lemma full_append_cons : Full x (l ++ x :: l') ↔ Full x l ∧ Full x l' := by
  simp only [Full, splitOn_append_cons_self, mem_append, or_imp, forall_and]

omit [DecidableEq α] in
lemma exists_last_piece (hx : x ∈ l) : ∃ a b, l = a ++ x :: b ∧ x ∉ b := by
  obtain ⟨b, a, hl, hb⟩ := eq_append_cons_of_mem (mem_reverse.mpr hx)
  refine ⟨a.reverse, b.reverse, ?_, mt mem_reverse.mp hb⟩
  rw [← reverse_reverse l, hl]
  simp

lemma Full.append (h : Full x l) (hx : x ∉ l') : Full x (l ++ l') := by
  by_cases hmem : x ∈ l
  · obtain ⟨a, b, rfl, hb⟩ := exists_last_piece hmem
    obtain ⟨ha, hfull⟩ := full_append_cons.mp h
    have hne : b ≠ [] := fun hnil => not_full_nil (hnil ▸ hfull)
    rw [append_assoc, cons_append, full_append_cons]
    exact ⟨ha, full_of_notMem (by simp [hb, hx]) (by simp [hne])⟩
  · have hne : l ≠ [] := fun hnil => not_full_nil (hnil ▸ h)
    exact full_of_notMem (by simp [hmem, hx]) (by simp [hne])

lemma full_of_append (h : Full x (l ++ l')) (hlast : l.getLast? ≠ some x) :
    l = [] ∨ Full x l := by
  by_cases hmem : x ∈ l
  · obtain ⟨a, b, rfl, hb⟩ := exists_last_piece hmem
    rw [append_assoc, cons_append, full_append_cons] at h
    have hne : b ≠ [] := by
      rintro rfl
      exact hlast (getLast?_concat)
    exact .inr (full_append_cons.mpr ⟨h.1, full_of_notMem hb hne⟩)
  · rcases eq_or_ne l [] with hnil | hne
    · exact .inl hnil
    · exact .inr (full_of_notMem hmem hne)

lemma Full.head?_ne (h : Full x l) : l.head? ≠ some x := by
  intro hhead
  obtain ⟨l', rfl⟩ := head?_eq_some_iff.mp hhead
  exact not_full_nil (full_append_cons (l := []) |>.mp h).1

lemma Full.getLast?_ne (h : Full x l) : l.getLast? ≠ some x := by
  intro hlast
  obtain ⟨l', rfl⟩ := getLast?_eq_some_iff.mp hlast
  exact not_full_nil (full_append_cons.mp h).2

/-! ### Normal paths -/

lemma normal_eq_nil_or_full (x : α) (l : List α) : normal x l = [] ∨ Full x (normal x l) := by
  by_cases hnil : (l.splitOn x).filter (· ≠ []) = []
  · left
    rw [normal, hnil]
    rfl
  · right
    have hsplit := splitOn_intercalate x
      (fun p hp => notMem_of_mem_splitOn (mem_of_mem_filter hp)) hnil
    rw [← normal] at hsplit
    intro p hp
    rw [hsplit] at hp
    exact of_decide_eq_true (mem_filter.mp hp).2

/-- **The normal paths** are the empty one and those that are full. -/
theorem normal_eq_self_iff : normal x l = l ↔ l = [] ∨ Full x l := by
  constructor
  · intro h
    have hfull := normal_eq_nil_or_full x l
    rwa [h] at hfull
  · rintro (rfl | h)
    · rw [normal]
      rfl
    · rw [normal, filter_eq_self.mpr fun p hp => decide_eq_true (h p hp),
        intercalate_splitOn]

end Magisk.Lib
