import Mathlib.Tactic

/-!
# Scans that drop matches

A scan goes over a list from left to right.  Where it finds a match it skips it, and every
other item is kept.

* `Matcher`: finds a match at the front of a list;
* `Matcher.scan`: what the scan keeps;
* `Matcher.scan_induction`: induction along the scan;
* `Matcher.offsets`: the positions of the matches;
* `Matcher.At`: the places where the scan looks for a match;
* `Matcher.Spells`, `infix_scan_iff`: the words that stand in what is kept;
* `Matcher.Broken`, `exists_broken`: a word that is found wherever it stands can only be put
  together by the scan, from parts that had a match between them.
-/

namespace Magisk.Lib

open List

universe u

variable {α : Type u}

/-- Finds a match at the front of a list and returns its length.  A match has at least one item
and does not pass the end of the list. -/
structure Matcher (α : Type u) where
  find : List α → Option Nat
  pos {l : List α} {n : Nat} : find l = some n → 0 < n
  le {l : List α} {n : Nat} : find l = some n → n ≤ l.length

variable {l w : List α} {a : α}

namespace Matcher

variable (m : Matcher α)

/-! ### The scan -/

/-- The scan while it still has to skip some items. -/
def scanFrom : Nat → List α → List α
  | _, [] => []
  | k + 1, _ :: l => scanFrom k l
  | 0, a :: l =>
    match m.find (a :: l) with
    | some n => scanFrom (n - 1) l
    | none => a :: scanFrom 0 l

/-- What is left of a list when each match is dropped. -/
def scan (l : List α) : List α := m.scanFrom 0 l

lemma scanFrom_eq (k : Nat) (l : List α) : m.scanFrom k l = m.scan (l.drop k) := by
  induction l generalizing k with
  | nil => rw [drop_nil, scan, scanFrom, scanFrom]
  | cons a l ih =>
    cases k with
    | zero => rfl
    | succ k => rw [scanFrom, ih, drop_succ_cons]

@[simp] lemma scan_nil : m.scan [] = [] := by rw [scan, scanFrom]

variable {m}

lemma scan_of_some (h : m.find l = some n) : m.scan l = m.scan (l.drop n) := by
  have hpos := m.pos h
  cases l with
  | nil => rw [drop_nil]
  | cons a l =>
    obtain ⟨k, rfl⟩ : ∃ k, n = k + 1 := ⟨n - 1, by omega⟩
    rw [scan, scanFrom, h]
    exact m.scanFrom_eq k l

lemma scan_of_none (h : m.find (a :: l) = none) : m.scan (a :: l) = a :: m.scan l := by
  rw [scan, scanFrom, h]
  rfl

/-- Induction along the scan. -/
lemma scan_induction {P : List α → Prop} (nil : P [])
    (skip : ∀ l n, m.find l = some n → P (l.drop n) → P l)
    (keep : ∀ a l, m.find (a :: l) = none → P l → P (a :: l)) (l : List α) : P l := by
  induction hn : l.length using Nat.strong_induction_on generalizing l with
  | _ n ih =>
    cases hfind : m.find l with
    | some k =>
      have hpos := m.pos hfind
      have hle := m.le hfind
      refine skip l k hfind (ih _ ?_ _ rfl)
      rw [length_drop]
      omega
    | none =>
      cases l with
      | nil => exact nil
      | cons a l =>
        refine keep a l hfind (ih _ ?_ _ rfl)
        rw [← hn, length_cons]
        omega

lemma scan_eq_self (h : ∀ l', l' <:+ l → m.find l' = none) : m.scan l = l := by
  induction l with
  | nil => exact m.scan_nil
  | cons a l ih =>
    rw [scan_of_none (h _ suffix_rfl), ih fun l' hl' => h l' (hl'.trans (l.suffix_cons a))]

/-! ### The positions of the matches -/

variable (m) in
/-- The positions of the matches while some items still have to be skipped. -/
def offsetsFrom (i : Nat) : Nat → List α → List Nat
  | _, [] => []
  | k + 1, _ :: l => offsetsFrom (i + 1) k l
  | 0, a :: l =>
    match m.find (a :: l) with
    | some n => i :: offsetsFrom (i + 1) (n - 1) l
    | none => offsetsFrom (i + 1) 0 l

variable (m) in
/-- The positions at which the scan finds a match, if the list starts at position `i`. -/
def offsets (i : Nat) (l : List α) : List Nat := m.offsetsFrom i 0 l

@[simp] lemma offsets_nil (i : Nat) : m.offsets i [] = [] := by rw [offsets, offsetsFrom]

lemma offsetsFrom_eq (h : k ≤ l.length) (i : Nat) :
    m.offsetsFrom i k l = m.offsets (i + k) (l.drop k) := by
  induction l generalizing i k with
  | nil =>
    rw [Nat.le_zero.mp h]
    rfl
  | cons a l ih =>
    cases k with
    | zero => rfl
    | succ k =>
      rw [offsetsFrom, ih (Nat.le_of_succ_le_succ h), drop_succ_cons, Nat.add_assoc,
        Nat.add_comm 1 k]

/-- A match, and those behind it. -/
lemma offsets_of_some (h : m.find l = some n) (i : Nat) :
    m.offsets i l = i :: m.offsets (i + n) (l.drop n) := by
  have hpos := m.pos h
  have hle := m.le h
  cases l with
  | nil =>
    rw [length_nil] at hle
    omega
  | cons a l =>
    obtain ⟨k, rfl⟩ : ∃ k, n = k + 1 := ⟨n - 1, by omega⟩
    rw [offsets, offsetsFrom, h]
    simp only [Nat.add_sub_cancel]
    rw [offsetsFrom_eq (Nat.le_of_succ_le_succ hle), drop_succ_cons, Nat.add_assoc,
      Nat.add_comm 1 k]

lemma offsets_of_none (h : m.find (a :: l) = none) (i : Nat) :
    m.offsets i (a :: l) = m.offsets (i + 1) l := by
  rw [offsets, offsetsFrom, h]
  rfl

lemma offsets_skip (hk : k ≤ l.length) (h : ∀ j < k, m.find (l.drop j) = none) (i : Nat) :
    m.offsets i l = m.offsets (i + k) (l.drop k) := by
  induction k generalizing i l with
  | zero => rfl
  | succ k ih =>
    obtain ⟨a, l, rfl⟩ := exists_cons_of_length_pos (Nat.lt_of_lt_of_le k.succ_pos hk)
    rw [offsets_of_none (h 0 k.succ_pos),
      ih (Nat.le_of_succ_le_succ hk) fun j hj => h (j + 1) (Nat.succ_lt_succ hj),
      drop_succ_cons, Nat.add_assoc, Nat.add_comm 1 k]

/-! ### Words in what is kept -/

/-- The rest of the list at a place where the scan looks for a match. -/
inductive At (m : Matcher α) : List α → List α → Prop
  | refl (l : List α) : At m l l
  | skip {l l' : List α} {n : Nat} (h : m.find l = some n) (h' : At m (l.drop n) l') : At m l l'
  | keep {a : α} {l l' : List α} (h : m.find (a :: l) = none) (h' : At m l l') :
      At m (a :: l) l'

/-- The scan keeps the word first, whatever it skips between its items. -/
inductive Spells (m : Matcher α) : List α → List α → Prop
  | nil (l : List α) : Spells m [] l
  | skip {w l : List α} {n : Nat} (h : m.find l = some n) (h' : Spells m w (l.drop n)) :
      Spells m w l
  | keep {a : α} {w l : List α} (h : m.find (a :: l) = none) (h' : Spells m w l) :
      Spells m (a :: w) (a :: l)

/-- The word has a part that stands at the front of the list and is kept, then comes a match,
and the other part is kept behind it. -/
def Broken (m : Matcher α) (w l : List α) : Prop :=
  ∃ u v r n, u ≠ [] ∧ v ≠ [] ∧ w = u ++ v ∧ l = u ++ r ∧
    (∀ x y, u = x ++ y → y ≠ [] → m.find (y ++ r) = none) ∧
    m.find r = some n ∧ m.Spells v (r.drop n)

/-- What is kept starts with the word. -/
lemma prefix_scan_iff : w <+: m.scan l ↔ m.Spells w l := by
  constructor
  · intro h
    induction l using m.scan_induction generalizing w with
    | nil =>
      rw [m.scan_nil, prefix_nil] at h
      subst h
      exact .nil _
    | skip l n hfind ih =>
      rw [scan_of_some hfind] at h
      exact .skip hfind (ih h)
    | keep a l hfind ih =>
      rw [scan_of_none hfind] at h
      cases w with
      | nil => exact .nil _
      | cons b w =>
        obtain ⟨rfl, hw⟩ := cons_prefix_cons.mp h
        exact .keep hfind (ih hw)
  · intro h
    induction h with
    | nil l => exact nil_prefix
    | skip h _ ih =>
      rw [scan_of_some h]
      exact ih
    | keep h _ ih =>
      rw [scan_of_none h]
      exact cons_prefix_cons.mpr ⟨rfl, ih⟩

lemma At.suffix (h : m.At l l') : m.scan l' <:+ m.scan l := by
  induction h with
  | refl l => exact suffix_rfl
  | skip h _ ih =>
    rw [scan_of_some h]
    exact ih
  | keep h _ ih =>
    rw [scan_of_none h]
    exact ih.trans (suffix_cons _ _)

/-- **The words in what is kept** are spelled from a place of the scan. -/
theorem infix_scan_iff : w <:+: m.scan l ↔ ∃ l', m.At l l' ∧ m.Spells w l' := by
  constructor
  · intro h
    induction l using m.scan_induction with
    | nil =>
      rw [m.scan_nil, infix_nil] at h
      subst h
      exact ⟨[], .refl _, .nil _⟩
    | skip l n hfind ih =>
      rw [scan_of_some hfind] at h
      obtain ⟨l', hat, hw⟩ := ih h
      exact ⟨l', .skip hfind hat, hw⟩
    | keep a l hfind ih =>
      rw [scan_of_none hfind, infix_cons_iff] at h
      rcases h with h | h
      · rw [← scan_of_none hfind] at h
        exact ⟨a :: l, .refl _, prefix_scan_iff.mp h⟩
      · obtain ⟨l', hat, hw⟩ := ih h
        exact ⟨l', .keep hfind hat, hw⟩
  · rintro ⟨l', hat, hw⟩
    exact (prefix_scan_iff.mpr hw).isInfix.trans hat.suffix.isInfix

lemma At.trans (h : m.At l l') (h' : m.At l' l'') : m.At l l'' := by
  induction h with
  | refl l => exact h'
  | skip h _ ih => exact .skip h (ih h')
  | keep h _ ih => exact .keep h (ih h')

lemma Broken.spells (h : m.Broken w l) : m.Spells w l := by
  obtain ⟨u, v, r, n, -, -, rfl, rfl, hkeep, hfind, hv⟩ := h
  induction u with
  | nil => exact .skip hfind hv
  | cons a u ih =>
    refine .keep (hkeep [] (a :: u) rfl (cons_ne_nil a u)) (ih fun x y hu hy => ?_)
    exact hkeep (a :: x) y (congrArg (a :: ·) hu) hy

/-- A word whose first item is kept stands there, or it is broken up. -/
lemma Spells.prefix_or_broken (hfind : m.find (a :: l) = none) (h : m.Spells w l) :
    w <+: l ∨ m.Broken (a :: w) (a :: l) := by
  induction w generalizing a l with
  | nil => exact .inl nil_prefix
  | cons b w ih =>
    cases h with
    | skip h h' =>
      refine .inr ⟨[a], b :: w, l, _, cons_ne_nil _ _, cons_ne_nil _ _, rfl, rfl,
        fun x y hu hy => ?_, h, h'⟩
      rcases append_eq_cons_iff.mp hu.symm with ⟨rfl, rfl⟩ | ⟨x', rfl, hnil⟩
      · exact hfind
      · exact absurd (append_eq_nil_iff.mp hnil.symm).2 hy
    | keep h h' =>
      rcases ih h h' with hw | ⟨u, v, r, n, hu, hv, hw, hl, hkeep, hr, hspell⟩
      · exact .inl (cons_prefix_cons.mpr ⟨rfl, hw⟩)
      · refine .inr ⟨a :: u, v, r, n, cons_ne_nil _ _, hv, congrArg (a :: ·) hw,
          congrArg (a :: ·) hl, fun x y hxy hy => ?_, hr, hspell⟩
        cases x with
        | nil =>
          rw [nil_append] at hxy
          rw [← hxy, cons_append, ← hl]
          exact hfind
        | cons c x => exact hkeep x y (cons.inj hxy).2 hy

/-- **A word that is found wherever it stands** is in what is kept just if it was broken up at a
place of the scan. -/
theorem exists_broken (hne : w ≠ []) (hfind : ∀ l', w <+: l' → m.find l' ≠ none) :
    w <:+: m.scan l ↔ ∃ l', m.At l l' ∧ m.Broken w l' := by
  rw [infix_scan_iff]
  constructor
  · rintro ⟨l', hat, hw⟩
    induction hw generalizing l with
    | nil l => exact absurd rfl hne
    | skip h h' ih => exact ih hne hfind (hat.trans (.skip h (.refl _)))
    | keep h h' _ =>
      rcases h'.prefix_or_broken h with hw | hbroken
      · exact absurd h (hfind _ (cons_prefix_cons.mpr ⟨rfl, hw⟩))
      · exact ⟨_, hat, hbroken⟩
  · rintro ⟨l', hat, hbroken⟩
    exact ⟨l', hat, hbroken.spells⟩

end Matcher

end Magisk.Lib
