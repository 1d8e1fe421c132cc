import Mathlib.Tactic

/-!
# Texts with quoted literals

A text is made of code and of literals between quotes.  Inside of a literal two quotes in a row
stand for one.

* `quoted`: a text that is put together from code and literals;
* `unquote`: a text that is read;
* `unquote_quoted`: literals without a quote are read back.
-/

namespace Magisk.Lib

open List

universe u

variable {α : Type u} (q : α) {ps : List (List α)}

/-- A text: code, and literals each with the code behind it. -/
def quoted (head : List α) (parts : List (List α × List α)) : List α :=
  head ++ parts.flatMap fun p => q :: (p.1 ++ q :: p.2)

variable [DecidableEq α]

/-- One more character of the first piece. -/
def push (c : α) : List (List α) → List (List α)
  | [] => [[c]]
  | p :: ps => (c :: p) :: ps

/-- The pieces of a text, code and literals in turn, from inside or outside of a literal.  There are
none if a literal does not end. -/
def unquote : Bool → List α → Option (List (List α))
  | false, [] => some [[]]
  | true, [] => none
  | false, c :: l => if c = q then ([] :: ·) <$> unquote true l else push c <$> unquote false l
  | true, [c] => if c = q then some [[], []] else none
  | true, c :: c' :: l =>
    if c = q then
      if c' = q then push q <$> unquote true l
      else ([] :: ·) <$> unquote false (c' :: l)
    else push c <$> unquote true (c' :: l)

/-- The pieces of a text that is put together. -/
def pieces (head : List α) (parts : List (List α × List α)) : List (List α) :=
  head :: parts.flatMap fun p => [p.1, p.2]

/-- Literals and code have no quotes, and there is code between two literals. -/
def Quotable : List (List α × List α) → Prop
  | [] => True
  | (l, c) :: ps => q ∉ l ∧ q ∉ c ∧ (c = [] → ps = []) ∧ Quotable ps

variable {q}

lemma unquote_code (hs : q ∉ s) (h : unquote q false l = some (p :: ps)) :
    unquote q false (s ++ l) = some ((s ++ p) :: ps) := by
  induction s with
  | nil => exact h
  | cons c s ih =>
    rw [mem_cons, not_or] at hs
    rw [cons_append, unquote, if_neg (Ne.symm hs.1), ih hs.2]
    rfl

lemma unquote_close (hl : ∀ c t, l = c :: t → c ≠ q) (h : unquote q false l = some ps) :
    unquote q true (q :: l) = some ([] :: ps) := by
  cases l with
  | nil =>
    cases h
    rw [unquote, if_pos rfl]
  | cons c t =>
    rw [unquote, if_pos rfl, if_neg (hl c t rfl), h]
    rfl

/-- A literal. -/
lemma unquote_literal (hs : q ∉ s) (hl : ∀ c t, l = c :: t → c ≠ q)
    (h : unquote q false l = some ps) : unquote q true (s ++ q :: l) = some (s :: ps) := by
  induction s with
  | nil => exact unquote_close hl h
  | cons c s ih =>
    rw [mem_cons, not_or] at hs
    have hrest := ih hs.2
    cases s with
    | nil =>
      rw [cons_append, nil_append, unquote, if_neg (Ne.symm hs.1)]
      rw [nil_append] at hrest
      rw [hrest]
      rfl
    | cons c' s =>
      rw [cons_append, cons_append, unquote, if_neg (Ne.symm hs.1)]
      rw [cons_append] at hrest
      rw [hrest]
      rfl

/-- **Literals without a quote are read back.** -/
theorem unquote_quoted {head : List α} {parts : List (List α × List α)} (hhead : q ∉ head)
    (hparts : Quotable q parts) :
    unquote q false (quoted q head parts) = some (pieces head parts) := by
  induction parts generalizing head with
  | nil =>
    have h := unquote_code hhead (show unquote q false [] = some [[]] from rfl)
    rw [append_nil] at h
    rw [quoted, flatMap_nil, append_nil, h]
    rfl
  | cons p ps ih =>
    obtain ⟨l, c⟩ := p
    obtain ⟨hl, hc, hlast, hps⟩ := hparts
    have hrest := ih hc hps
    have hopen : unquote q false (q :: (l ++ q :: quoted q c ps)) =
        some ([] :: l :: pieces c ps) := by
      rw [unquote, if_pos rfl, unquote_literal hl ?_ hrest]
      · rfl
      · intro c' t hct
        rintro rfl
        cases c with
        | nil =>
          rw [hlast rfl] at hct
          cases hct
        | cons d c =>
          obtain ⟨rfl, -⟩ := cons.inj hct
          exact hc (.head _)
    have htext : quoted q head ((l, c) :: ps) = head ++ q :: (l ++ q :: quoted q c ps) := by
      simp [quoted]
    rw [htext, unquote_code hhead hopen, append_nil]
    rfl

end Magisk.Lib
