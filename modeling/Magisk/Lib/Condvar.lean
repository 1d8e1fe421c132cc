import Mathlib.Tactic

/-!
Condition variables over a list of threads.

A thread is an element of the list; a predicate says which threads are blocked
on the variable, and `wake` is what being chosen does to one.  `notifyOne` is
the wake-up of a single blocked thread, the choice being made by the
environment: it is undefined on a choice the operating system cannot make, that
is, on a thread that is not blocked, and on nobody while somebody is blocked.

* `notifyOne_cases`: the two things a wake-up can do;
* `exists_wake_of_notifyOne`: somebody is woken whenever somebody is blocked;
* `mem_of_notifyOne`: threads that are not blocked are left alone;
* `countP_notifyOne`: counts that `wake` does not disturb are kept.
-/

namespace Magisk.Lib

open List

universe u

variable {α : Type u}

/-- Wake one of the blocked threads of `l`, the one at position `pick`; waking
nobody is possible only if nobody is blocked. -/
def notifyOne (blocked : α → Bool) (wake : α → α) (l : List α) : Option Nat → Option (List α)
  | some j => (l[j]?).bind fun a => if blocked a then some (l.set j (wake a)) else none
  | none => if l.any blocked then none else some l

variable {blocked : α → Bool} {wake : α → α} {l l' : List α} {pick : Option Nat}

section

variable (h : notifyOne blocked wake l pick = some l')

include h

/-- A wake-up replaces one blocked thread by its woken form, or changes nothing
because no thread is blocked. -/
lemma notifyOne_cases :
    (∃ j a, l[j]? = some a ∧ blocked a ∧ l' = l.set j (wake a)) ∨
      ((∀ a ∈ l, ¬ blocked a) ∧ l' = l) := by
  cases pick with
  | some j =>
    simp only [notifyOne, Option.bind_eq_some_iff] at h
    obtain ⟨a, ha, hif⟩ := h
    split_ifs at hif with hb
    exact Or.inl ⟨j, a, ha, hb, by simpa using hif.symm⟩
  | none =>
    simp only [notifyOne] at h
    split_ifs at h with hb
    refine Or.inr ⟨fun a ha hba => hb (any_eq_true.mpr ⟨a, ha, hba⟩), ?_⟩
    simpa using h.symm

lemma exists_wake_of_notifyOne
    (hb : ∃ a ∈ l, blocked a) : ∃ a, blocked a ∧ wake a ∈ l' := by
  rcases notifyOne_cases h with ⟨j, a, ha, hba, rfl⟩ | ⟨hnone, -⟩
  · have hj : j < l.length := (List.getElem?_eq_some_iff.mp ha).1
    exact ⟨a, hba, mem_set hj _⟩
  · obtain ⟨a, ha, hba⟩ := hb
    exact absurd hba (hnone a ha)

lemma mem_of_notifyOne (ha : a ∈ l) (hna : ¬ blocked a) : a ∈ l' := by
  rcases notifyOne_cases h with ⟨j, b, hb, hbb, rfl⟩ | ⟨-, rfl⟩
  · obtain ⟨i, hi, rfl⟩ := mem_iff_getElem.mp ha
    have hne : j ≠ i := by
      rintro rfl
      rw [getElem?_eq_getElem hi, Option.some.injEq] at hb
      exact hna (hb ▸ hbb)
    exact mem_iff_getElem.mpr ⟨i, by simpa using hi, getElem_set_ne hne _⟩
  · exact ha

end

lemma countP_set_add (b : α) (ha : l[j]? = some a) :
    (l.set j b).countP p + (if p a then 1 else 0) = l.countP p + (if p b then 1 else 0) := by
  obtain ⟨hj, rfl⟩ := List.getElem?_eq_some_iff.mp ha
  rw [countP_set hj]
  by_cases ha' : p l[j] = true
  · have hpos : 0 < l.countP p := countP_pos_iff.mpr ⟨l[j], getElem_mem hj, ha'⟩
    simp only [ha', if_true]
    omega
  · simp only [ha']
    rfl

lemma countP_notifyOne (hp : ∀ a, blocked a → p (wake a) = p a)
    (h : notifyOne blocked wake l pick = some l') : l'.countP p = l.countP p := by
  rcases notifyOne_cases h with ⟨j, a, ha, hba, rfl⟩ | ⟨-, rfl⟩
  · have hc := countP_set_add (p := p) (wake a) ha
    rw [hp a hba] at hc
    omega
  · rfl

lemma getElem?_notifyOne (h : notifyOne blocked wake l pick = some l') (i : Nat) :
    l'[i]? = l[i]? ∨ ∃ a, l[i]? = some a ∧ blocked a ∧ l'[i]? = some (wake a) := by
  rcases notifyOne_cases h with ⟨j, a, ha, hba, rfl⟩ | ⟨-, rfl⟩
  · by_cases hij : j = i
    · subst hij
      have hj : j < l.length := (List.getElem?_eq_some_iff.mp ha).1
      exact Or.inr ⟨a, ha, hba, getElem?_set_self hj⟩
    · exact Or.inl (getElem?_set_ne hij)
  · exact Or.inl rfl

end Magisk.Lib
