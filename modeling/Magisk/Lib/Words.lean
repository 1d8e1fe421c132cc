import Mathlib.Tactic

/-!
# Words

A text is cut into words at its separators.

* `words`: the words of a text;
* `words_append_sep`, `words_of_clean`, `words_joined`: the words of texts that are put together;
* `mem_words`, `flatten_words`: a word is not empty and has no separator, and nothing but
  separators is left out.
-/

namespace Magisk.Lib

open List

variable {α : Type*} {p : α → Bool} {c : α} {s word : List α}

/-- The words of a text, the first of which has begun with `word`. -/
def words (p : α → Bool) (word : List α) : List α → List (List α)
  | [] => if word = [] then [] else [word]
  | c :: s =>
    if p c then if word = [] then words p [] s else word :: words p [] s
    else words p (word ++ [c]) s

lemma words_append_sep (hc : p c = true) (s r word : List α) :
    words p word (s ++ c :: r) = words p word s ++ words p [] r := by
  induction s generalizing word with
  | nil => by_cases h : word = [] <;> simp [words, hc, h]
  | cons a s ih =>
    by_cases ha : p a = true
    · by_cases h : word = [] <;> simp [words, ha, h, ih]
    · simp [words, ha, ih]

lemma words_of_clean (hs : ∀ a ∈ s, p a = false) (word : List α) :
    words p word s = if word ++ s = [] then [] else [word ++ s] := by
  induction s generalizing word with
  | nil => simp [words]
  | cons a s ih =>
    have hrest : ∀ b ∈ s, p b = false := fun b hb => hs b (mem_cons_of_mem a hb)
    simp [words, hs a mem_cons_self, ih hrest]

lemma words_joined (hc : p c = true) (hs : s ≠ [] ∧ ∀ a ∈ s, p a = false)
    (hfs : ∀ g ∈ fs, g ≠ [] ∧ ∀ a ∈ g, p a = false) :
    words p [] (s ++ fs.flatMap (c :: ·)) = s :: fs := by
  induction fs generalizing s with
  | nil => simp [words_of_clean hs.2, hs.1]
  | cons g fs ih =>
    rw [flatMap_cons, cons_append, words_append_sep hc, words_of_clean hs.2,
      ih (hfs g (.head _)) fun h hh => hfs h (mem_cons_of_mem g hh)]
    simp [hs.1]

lemma mem_words (ht : t ∈ words p word s) (hword : ∀ a ∈ word, p a = false) :
    t ≠ [] ∧ ∀ a ∈ t, p a = false := by
  induction s generalizing word with
  | nil =>
    by_cases h : word = [] <;> simp only [words, h] at ht
    · simp at ht
    · rw [mem_singleton.mp ht]
      exact ⟨h, hword⟩
  | cons c s ih =>
    by_cases hc : p c = true
    · by_cases h : word = [] <;> simp only [words, hc, h] at ht
      · exact ih ht (by simp)
      · rcases mem_cons.mp ht with rfl | ht
        · exact ⟨h, hword⟩
        · exact ih ht (by simp)
    · rw [words, if_neg hc] at ht
      refine ih ht fun a ha => ?_
      rcases mem_append.mp ha with ha | ha
      · exact hword a ha
      · simpa [mem_singleton.mp ha] using hc

lemma flatten_words (s word : List α) :
    (words p word s).flatten = word ++ s.filter (! p ·) := by
  induction s generalizing word with
  | nil => by_cases h : word = [] <;> simp [words, h]
  | cons c s ih =>
    by_cases hc : p c = true
    · by_cases h : word = [] <;> simp [words, hc, h, ih]
    · simp [words, hc, ih]

end Magisk.Lib
