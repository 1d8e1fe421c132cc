import Mathlib.Tactic

/-!
# Trees laid over each other

A tree is seen through its paths: what kind of thing it has at each.  Several trees are
laid over each other so that the first one that has something at a path decides what is
there, and what lies below something that is no directory is hidden.

* `View`: what a tree has at each path;
* `layOver`: one tree laid over another;
* `overlay`: a list of trees, the first on top;
* `layOver_branch`: directories are laid over each other name by name;
* `overlay_concat`, `overlay_append`: an overlay grows by one layer at the bottom.
-/

namespace Magisk.Lib

open List Option

open scoped Classical

variable {α κ : Type*}

/-- What a tree has at each path. -/
abbrev View (α κ : Type*) := List α → Option κ

section Over

variable (isDir : κ → Prop)

/-- Something on the way is no directory. -/
def Blocked (t : View α κ) (p : List α) : Prop := ∃ q, q <+: p ∧ ∃ k, t q = some k ∧ ¬ isDir k

/-- The first tree laid over the second. -/
noncomputable def layOver (t v : View α κ) : View α κ := fun p =>
  match t p with
  | some k => some k
  | none => if Blocked isDir t p then none else v p

/-- The first tree that has something at the path. -/
def first (layers : List (View α κ)) (p : List α) : Option κ := layers.findSome? (· p)

/-- Trees laid over each other: a path leads through directories to what the first tree has
there. -/
noncomputable def overlay (layers : List (View α κ)) : View α κ := fun p =>
  if ∀ q, q <+: p → q ≠ p → ∃ k, first layers q = some k ∧ isDir k then first layers p else none

/-- What leads to something in the tree is a directory. -/
def Closed (v : View α κ) : Prop :=
  ∀ p q, q <+: p → q ≠ p → v p ≠ none → ∃ k, v q = some k ∧ isDir k

end Over

section Branch

variable {isDir : κ → Prop} {dir : κ}

/-- A directory, by the trees under its names. -/
def branch (dir : κ) (f : α → Option (View α κ)) : View α κ
  | [] => some dir
  | n :: p => (f n).bind (· p)

/-- What is on the way into a directory. -/
lemma blocked_branch (hdir : isDir dir) {f : α → Option (View α κ)} :
    Blocked isDir (branch dir f) (n :: p) ↔ ∃ t, f n = some t ∧ Blocked isDir t p := by
  constructor
  · rintro ⟨q, hq, k, hk, hno⟩
    cases q with
    | nil =>
      cases hk
      exact absurd hdir hno
    | cons m q =>
      obtain ⟨rfl, htail⟩ := cons_prefix_cons.mp hq
      obtain ⟨t, ht, hk⟩ := bind_eq_some_iff.mp hk
      exact ⟨t, ht, q, htail, k, hk, hno⟩
  · rintro ⟨t, ht, q, hq, k, hk, hno⟩
    refine ⟨n :: q, cons_prefix_cons.mpr ⟨rfl, hq⟩, k, ?_, hno⟩
    rw [branch, ht]
    exact hk

/-- **Directories are laid over each other name by name.** -/
lemma layOver_branch (hdir : isDir dir) (f g : α → Option (View α κ)) :
    layOver isDir (branch dir f) (branch dir g) =
      branch dir fun n => Option.merge (layOver isDir) (f n) (g n) := by
  funext p
  cases p with
  | nil => rfl
  | cons n p =>
    rw [layOver, branch, branch, branch]
    simp only [blocked_branch hdir]
    cases f n with
    | none => simp
    | some t =>
      cases g n with
      | none => cases htp : t p <;> simp [htp]
      | some v => simp [layOver]

lemma layOver_of_not_dir {t v : View α κ} (hk : t [] = some k) (hno : ¬ isDir k) :
    layOver isDir t v = t := by
  funext p
  rw [layOver]
  cases htp : t p with
  | some k => rfl
  | none => exact if_pos ⟨[], nil_prefix, k, hk, hno⟩

lemma layOver_eq_left {t v : View α κ} (h : ∀ p, t p = none → v p = none) :
    layOver isDir t v = t := by
  funext p
  rw [layOver]
  cases htp : t p with
  | some k => rfl
  | none =>
    rw [h p htp]
    exact ite_self none

lemma layOver_branch_none (hdir : isDir dir) (g : α → Option (View α κ)) :
    layOver isDir (branch dir fun _ => none) (branch dir g) = branch dir g := by
  rw [layOver_branch hdir]
  simp

/-- A directory of closed trees is closed. -/
lemma closed_branch (hdir : isDir dir) {f : α → Option (View α κ)}
    (h : ∀ n t, f n = some t → Closed isDir t) : Closed isDir (branch dir f) := by
  intro p q hq hne hp
  cases q with
  | nil => exact ⟨dir, rfl, hdir⟩
  | cons n q =>
    obtain ⟨r, rfl⟩ := hq
    rw [cons_append, branch] at hp
    rw [branch]
    cases hf : f n with
    | none =>
      rw [hf] at hp
      exact absurd rfl hp
    | some t =>
      rw [hf] at hp
      exact h n t hf _ q (prefix_append q r) (fun heq => hne (congrArg (n :: ·) heq)) hp

lemma closed_leaf {t : View α κ} (h : ∀ n p, t (n :: p) = none) : Closed isDir t := by
  intro p q hq hne hp
  cases p with
  | nil => exact absurd (prefix_nil.mp hq) hne
  | cons n p => exact absurd (h n p) hp

end Branch

section Overlay

variable {isDir : κ → Prop} {layers : List (View α κ)} {v : View α κ} {p q : List α} {k : κ}

lemma first_concat (layers : List (View α κ)) (v : View α κ) (p : List α) :
    first (layers ++ [v]) p = (first layers p).or (v p) := by
  rw [first, findSome?_append, findSome?_singleton, first]

lemma first_ne_none (hc : ∀ v ∈ layers, Closed isDir v) (hq : q <+: p)
    (hp : first layers p ≠ none) : first layers q ≠ none := by
  by_cases hne : q = p
  · rwa [hne]
  · obtain ⟨k, hk⟩ := ne_none_iff_exists'.mp hp
    obtain ⟨v, hv, hvp⟩ := exists_of_findSome?_eq_some hk
    obtain ⟨k', hk', -⟩ := hc v hv p q hq hne (ne_none_iff_exists'.mpr ⟨k, hvp⟩)
    intro hnone
    exact some_ne_none k' (hk'.symm.trans (findSome?_eq_none_iff.mp hnone v hv))

/-- What the first tree has and is no directory stands in the way. -/
lemma blocked_overlay (hc : ∀ v ∈ layers, Closed isDir v) (hk : first layers q = some k)
    (hno : ¬ isDir k) (hq : q <+: p) : Blocked isDir (overlay isDir layers) p := by
  induction hn : q.length using Nat.strong_induction_on generalizing q k with
  | _ n ih =>
    by_cases hall : ∀ r, r <+: q → r ≠ q → ∃ k, first layers r = some k ∧ isDir k
    · refine ⟨q, hq, k, ?_, hno⟩
      rw [overlay, if_pos hall, hk]
    · -- something above it is no directory either
      push Not at hall
      obtain ⟨r, hr, hne, hr'⟩ := hall
      have hsome : first layers r ≠ none := first_ne_none hc hr (by rw [hk]; simp)
      obtain ⟨k', hk'⟩ := ne_none_iff_exists'.mp hsome
      have hlt : r.length < n := by
        rw [← hn]
        exact lt_of_le_of_ne hr.length_le fun heq => hne (hr.eq_of_length heq)
      exact ih r.length hlt hk' (hr' k' hk') (hr.trans hq) rfl

lemma overlay_singleton (hv : Closed isDir v) : overlay isDir [v] = v := by
  funext p
  have hfirst : ∀ q, first [v] q = v q := fun q => findSome?_singleton
  rw [overlay]
  simp only [hfirst]
  cases hvp : v p with
  | none => exact ite_self none
  | some k => exact if_pos fun q hq hne => hv p q hq hne (by rw [hvp]; exact some_ne_none k)

lemma first_of_overlay (h : overlay isDir layers p = some k) : first layers p = some k := by
  rw [overlay] at h
  split_ifs at h
  exact h

lemma overlay_concat_of_some (v : View α κ) (h : overlay isDir layers p = some k) :
    overlay isDir (layers ++ [v]) p = some k := by
  have hconcat : ∀ {q k}, first layers q = some k → first (layers ++ [v]) q = some k := by
    intro q k hk
    rw [first_concat, hk, some_or]
  have hk := first_of_overlay h
  rw [overlay] at h
  split_ifs at h with hall
  rw [overlay, if_pos, hconcat hk]
  intro q hq hne
  obtain ⟨k', hk', hdir⟩ := hall q hq hne
  exact ⟨k', hconcat hk', hdir⟩

lemma overlay_concat_of_blocked (v : View α κ) (h : overlay isDir layers p = none)
    (hblocked : Blocked isDir (overlay isDir layers) p) :
    overlay isDir (layers ++ [v]) p = none := by
  obtain ⟨q, hq, k, hk, hno⟩ := hblocked
  have hne : q ≠ p := by
    rintro rfl
    cases h.symm.trans hk
  refine if_neg fun hall => ?_
  obtain ⟨k', hk', hdir⟩ := hall q hq hne
  rw [first_concat, first_of_overlay hk] at hk'
  exact hno (some.inj hk' ▸ hdir)

variable (hc : ∀ v ∈ layers, Closed isDir v)

include hc

/-- It is seen where nothing stands in the way. -/
lemma overlay_concat_of_not_blocked (hv : Closed isDir v)
    (h : overlay isDir layers p = none) (hfree : ¬ Blocked isDir (overlay isDir layers) p) :
    overlay isDir (layers ++ [v]) p = v p := by
  have hdirs : ∀ q k, q <+: p → first layers q = some k → isDir k := fun q k hq hk =>
    not_not.mp fun hno => hfree (blocked_overlay hc hk hno hq)
  -- the way to anything the trees above have at the path would be there
  have hnone : first layers p = none := by
    by_contra hfirst
    rw [overlay, if_pos] at h
    · exact hfirst h
    · intro q hq _
      obtain ⟨k, hk⟩ := ne_none_iff_exists'.mp (first_ne_none hc hq hfirst)
      exact ⟨k, hk, hdirs q k hq hk⟩
  rw [overlay, first_concat, hnone]
  cases hvp : v p with
  | none => exact ite_self none
  | some k =>
    refine if_pos fun q hq hne => ?_
    rw [first_concat]
    cases hfirst : first layers q with
    | some k => exact ⟨k, rfl, hdirs q k hq hfirst⟩
    | none => exact hv p q hq hne (by rw [hvp]; exact some_ne_none k)

/-- **One layer more at the bottom.** -/
theorem overlay_concat (hv : Closed isDir v) :
    overlay isDir (layers ++ [v]) = layOver isDir (overlay isDir layers) v := by
  funext p
  rw [layOver]
  cases hp : overlay isDir layers p with
  | some k => exact overlay_concat_of_some v hp
  | none =>
    by_cases hblocked : Blocked isDir (overlay isDir layers) p
    · rw [overlay_concat_of_blocked v hp hblocked]
      exact (if_pos hblocked).symm
    · rw [overlay_concat_of_not_blocked hc hv hp hblocked]
      exact (if_neg hblocked).symm

/-- Several layers more. -/
lemma overlay_append {layers' : List (View α κ)}
    (hc' : ∀ v ∈ layers', Closed isDir v) :
    overlay isDir (layers ++ layers') = layers'.foldl (layOver isDir) (overlay isDir layers) := by
  induction layers' generalizing layers with
  | nil => rw [append_nil, foldl_nil]
  | cons v layers' ih =>
    have hv := hc' v (.head _)
    have hboth : ∀ u ∈ layers ++ [v], Closed isDir u := by
      intro u hu
      rcases mem_append.mp hu with hu | hu
      · exact hc u hu
      · exact mem_singleton.mp hu ▸ hv
    rw [append_cons, ih hboth fun u hu => hc' u (.tail _ hu), foldl_cons,
      overlay_concat hc hv]

end Overlay

end Magisk.Lib
