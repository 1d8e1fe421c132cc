import Magisk.Lib.Overlay

/-!
# Trees put into trees

* `leaf`: a tree with nothing below its root;
* `subtree`: the tree at a path;
* `graft`: a tree put at a path of another one, in the place of what was there;
* `makeDirs`: the directories on the way to a path are made;
* `graft_branch`: a tree is put into a directory under one of its names;
* `graft_makeDirs`: a tree is put into a directory that was made before;
* `buildAll`, `buildAll_eq`: a directory is filled entry by entry.
-/

namespace Magisk.Lib

open List Option Function

variable {α κ : Type*}

/-- A tree with nothing below its root. -/
def leaf (k : κ) : View α κ
  | [] => some k
  | _ :: _ => none

/-- The tree at a path. -/
def subtree (v : View α κ) (p : List α) : View α κ := fun q => v (p ++ q)

variable [DecidableEq α]

/-- The tree `t` put at the path `p`. -/
def graft (p : List α) (t v : View α κ) : View α κ :=
  fun q => if p <+: q then t (q.drop p.length) else v q

/-- The directories on the way to a path, and one at its end, if nothing is there. -/
def makeDirs (dir : κ) (p : List α) (v : View α κ) : View α κ :=
  fun q => if q <+: p ∧ (v q).isNone then some dir else v q

variable {dir : κ} {p q : List α} {n : α} {t v : View α κ} {f : α → Option (View α κ)}

lemma graft_append (p : List α) (t v : View α κ) (q : List α) : graft p t v (p ++ q) = t q := by
  rw [graft, if_pos (prefix_append p q), drop_left]

lemma graft_self (p : List α) (t v : View α κ) : graft p t v p = t [] := by
  rw [graft, if_pos prefix_rfl, drop_length]

lemma graft_of_not_below (h : ¬p <+: q) : graft p t v q = v q := if_neg h

lemma ext_at (p : List α) (hsub : ∀ q, v (p ++ q) = w (p ++ q))
    (hother : ∀ q, ¬p <+: q → v q = w q) : v = w := by
  funext q
  by_cases h : p <+: q
  · obtain ⟨r, rfl⟩ := h
    exact hsub r
  · exact hother q h

lemma subtree_graft (p : List α) (t v : View α κ) : subtree (graft p t v) p = t :=
  funext fun q => graft_append p t v q

lemma graft_eq_self (h : ∀ q, v (p ++ q) = t q) : graft p t v = v := by
  refine ext_at p (fun q => ?_) fun q hq => graft_of_not_below hq
  rw [graft_append, h]

omit [DecidableEq α] in
lemma not_concat_above (p : List α) (n : α) : ¬p ++ [n] <+: p := by
  intro h
  have hlen := h.length_le
  rw [length_append, length_singleton] at hlen
  omega

omit [DecidableEq α] in
lemma concat_prefix_append_cons : p ++ [n] <+: p ++ m :: q ↔ n = m := by
  rw [prefix_append_right_inj, cons_prefix_cons, and_iff_left nil_prefix]

/-- **A tree is put into a directory** under the name `n`. -/
lemma graft_branch (t v : View α κ) :
    graft (p ++ [n]) t (graft p (branch dir f) v) =
      graft p (branch dir (update f n (some t))) v := by
  refine ext_at p (fun q => ?_) fun q hq => ?_
  · rw [graft_append]
    cases q with
    | nil =>
      rw [append_nil, graft_of_not_below (not_concat_above p n), graft_self]
      rfl
    | cons m q =>
      by_cases hm : n = m
      · subst hm
        rw [append_cons p n q, graft_append, branch, update_self]
        rfl
      · rw [graft_of_not_below (mt concat_prefix_append_cons.mp hm), graft_append, branch,
          branch, update_of_ne (Ne.symm hm)]
  · rw [graft_of_not_below hq, graft_of_not_below, graft_of_not_below hq]
    exact fun h => hq ((prefix_append p [n]).trans h)

lemma makeDirs_of_ne_none (h : v q ≠ none) : makeDirs dir p v q = v q := by
  rw [makeDirs, if_neg]
  rintro ⟨-, hnone⟩
  exact h (isNone_iff_eq_none.mp hnone)

lemma makeDirs_of_not_above (h : ¬q <+: p) : makeDirs dir p v q = v q := if_neg fun hq => h hq.1

lemma makeDirs_ne_none (h : q <+: p) : makeDirs dir p v q ≠ none := by
  rw [makeDirs]
  split_ifs with hq
  · exact some_ne_none dir
  · intro hnone
    exact hq ⟨h, isNone_iff_eq_none.mpr hnone⟩

/-- Where nothing is, an empty directory is made. -/
lemma makeDirs_eq_graft (h : ∀ q, v (p ++ q) = none) :
    makeDirs dir p v = graft p (branch dir fun _ => none) (makeDirs dir p v) := by
  refine ext_at p (fun q => ?_) fun q hq => (graft_of_not_below hq).symm
  rw [graft_append]
  cases q with
  | nil =>
    have hnone := h []
    rw [append_nil] at hnone ⊢
    rw [makeDirs, hnone, if_pos ⟨prefix_rfl, rfl⟩]
    rfl
  | cons n q =>
    rw [makeDirs_of_not_above, h]
    · rfl
    · intro hq
      have hlen := hq.length_le
      rw [length_append, length_cons] at hlen
      omega

/-- **A tree is put into a place on the way to which everything is there.** -/
lemma graft_makeDirs (h : ∀ q, q <+: p → q ≠ p → v q ≠ none) :
    graft p t (makeDirs dir p v) = graft p t v := by
  refine ext_at p (fun q => ?_) fun q hq => ?_
  · rw [graft_append, graft_append]
  · rw [graft_of_not_below hq, graft_of_not_below hq]
    by_cases hle : q <+: p
    · refine makeDirs_of_ne_none (h q hle ?_)
      rintro rfl
      exact hq prefix_rfl
    · exact makeDirs_of_not_above hle

lemma graft_branch_ne_none (hq : q <+: p ++ [n]) (hne : q ≠ p ++ [n]) :
    graft p (branch dir f) (makeDirs dir p v) q ≠ none := by
  have hle : q <+: p := (prefix_concat_iff.mp hq).resolve_left hne
  by_cases heq : q = p
  · rw [heq, graft_self]
    exact some_ne_none dir
  · rw [graft_of_not_below fun h => heq (hle.eq_of_length_le h.length_le)]
    exact makeDirs_ne_none hle

lemma graft_branch_eq_none (hn : f n = none) (v : View α κ) (q : List α) :
    graft p (branch dir f) v (p ++ [n] ++ q) = none := by
  rw [append_assoc, graft_append, singleton_append, branch, hn]
  rfl

/-! ### Filling a directory -/

section Build

variable [BEq α] [LawfulBEq α] {β : Type*} (skip : α → β → Bool)
  (act : α → β → View α κ → Option (View α κ)) (t : α → β → View α κ)

/-- The entries of a list that are not skipped are put into a directory one after another. -/
def buildAll : List (α × β) → View α κ → Option (View α κ)
  | [], v => some v
  | (n, x) :: l, v => if skip n x then buildAll l v else (act n x v).bind (buildAll l)

/-- What a directory has under its names, after it had `f`. -/
def built (l : List (α × β)) (f : α → Option (View α κ)) (n : α) : Option (View α κ) :=
  match l.lookup n with
  | some x => if skip n x then f n else some (t n x)
  | none => f n

variable {skip act t} {l : List (α × β)}

omit [DecidableEq α] [LawfulBEq α] in
lemma built_of_skip (h : ∀ x, skip n x = true) : built skip t l f n = f n := by
  rw [built]
  cases l.lookup n with
  | none => rfl
  | some x => exact if_pos (h x)

lemma built_cons_skip (hn : l.lookup n = none) (hskip : skip n x = true) :
    built skip t ((n, x) :: l) f = built skip t l f := by
  funext m
  rw [built, built, lookup_cons]
  by_cases hm : m = n
  · subst hm
    simp [hskip, hn]
  · simp only [beq_eq_false_iff_ne.mpr hm]

lemma built_cons (hn : l.lookup n = none) (hskip : skip n x = false) :
    built skip t ((n, x) :: l) f = built skip t l (update f n (some (t n x))) := by
  funext m
  rw [built, built, lookup_cons]
  by_cases hm : m = n
  · subst hm
    simp [hskip, hn]
  · simp only [beq_eq_false_iff_ne.mpr hm, update_of_ne hm]

/-- **A directory is filled** by steps each of which puts a tree under a name that is free. -/
lemma buildAll_eq (hnodup : (l.map Prod.fst).Nodup)
    (hact : ∀ e ∈ l, skip e.1 e.2 = false → ∀ f, f e.1 = none →
      act e.1 e.2 (graft p (branch dir f) (makeDirs dir p v)) =
        some (graft (p ++ [e.1]) (t e.1 e.2) (graft p (branch dir f) (makeDirs dir p v))))
    (hf : ∀ e ∈ l, skip e.1 e.2 = false → f e.1 = none) :
    buildAll skip act l (graft p (branch dir f) (makeDirs dir p v)) =
      some (graft p (branch dir (built skip t l f)) (makeDirs dir p v)) := by
  induction l generalizing f with
  | nil => rfl
  | cons e l ih =>
    obtain ⟨n, x⟩ := e
    obtain ⟨hn, hnodup⟩ := nodup_cons.mp hnodup
    have hne : ∀ e ∈ l, n ≠ e.1 := fun e he heq => hn (mem_map.mpr ⟨e, he, heq.symm⟩)
    have hlookup : l.lookup n = none :=
      lookup_eq_none_iff.mpr fun e he => bne_iff_ne.mpr (hne e he)
    have hact' := fun e he => hact e (.tail _ he)
    rw [buildAll]
    cases hskip : skip n x with
    | true =>
      rw [built_cons_skip hlookup hskip]
      exact ih hnodup hact' fun e he => hf e (.tail _ he)
    | false =>
      have hstep := hact (n, x) mem_cons_self hskip f (hf _ (.head _) hskip)
      rw [if_neg Bool.false_ne_true, hstep, bind_some, graft_branch,
        built_cons hlookup hskip]
      refine ih hnodup hact' fun e he hs => ?_
      rw [update_of_ne (hne e he).symm, hf e (.tail _ he) hs]

end Build

end Magisk.Lib
