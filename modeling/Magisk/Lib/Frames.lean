import Mathlib.Tactic

/-!
# Messages in a stream

Messages are written one after another to a stream, and a reader has taken some of them.  As no
message is empty, the length of what is left says which ones.

* `split_unique`: there is one place in the stream with so many items behind it;
* `not_between`: a place inside a message is none between two messages.
-/

namespace Magisk.Lib

open List

universe u v

variable {α : Type u} {β : Type v} {encode : α → List β} {read left read' left' : List α}

lemma length_flatMap_append (l l' : List α) :
    ((l ++ l').flatMap encode).length = (l.flatMap encode).length + (l'.flatMap encode).length := by
  rw [flatMap_append, length_append]

/-- There is one place with so many items behind it. -/
lemma split_unique (hne : ∀ a, encode a ≠ []) (h : read ++ left = read' ++ left')
    (hlen : (left.flatMap encode).length = (left'.flatMap encode).length) :
    read = read' ∧ left = left' := by
  have hnil : ∀ l : List α, (l.flatMap encode).length = 0 → l = [] := by
    intro l hl
    cases l with
    | nil => rfl
    | cons a l =>
      rw [length_eq_zero_iff, flatMap_cons, append_eq_nil_iff] at hl
      exact absurd hl.1 (hne a)
  rcases append_eq_append_iff.mp h with ⟨l, rfl, rfl⟩ | ⟨l, rfl, rfl⟩
  · rw [length_flatMap_append] at hlen
    rw [hnil l (by omega), append_nil]
    exact ⟨rfl, rfl⟩
  · rw [length_flatMap_append] at hlen
    rw [hnil l (by omega), append_nil]
    exact ⟨rfl, rfl⟩

/-- Inside of a message there is none. -/
lemma not_between (h : read ++ a :: left = read' ++ left')
    (hlow : (left.flatMap encode).length < n) (hhigh : n < ((a :: left).flatMap encode).length) :
    (left'.flatMap encode).length ≠ n := by
  rcases append_eq_append_iff.mp h with ⟨l, rfl, hl⟩ | ⟨l, rfl, rfl⟩
  · cases l with
    | nil =>
      rw [nil_append] at hl
      rw [← hl]
      exact hhigh.ne'
    | cons b l =>
      rw [cons_append, List.cons.injEq] at hl
      rw [hl.2, length_flatMap_append] at hlow
      omega
  · rw [length_flatMap_append]
    omega

end Magisk.Lib
