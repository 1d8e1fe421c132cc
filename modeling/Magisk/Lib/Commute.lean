import Mathlib.Tactic

/-!
# Actions that commute

Actions that may fail, on states that are compared by an equivalence.  Actions that
are done later than they were meant to be lead to the same state if they are moved
past independent ones only.

* `Actions`, `Actions.actAll`: the actions, and doing several in turn;
* `Actions.Indep`: two actions can be done in either order;
* `Actions.actAll_past`: an action moves past independent ones;
* `Actions.actAll_early`: doing an action early, out of a list of actions;
* `Actions.actAll_pasts`: doing several early.
-/

namespace Magisk.Lib

universe u v

/-- Actions that may fail and respect an equivalence of states. -/
structure Actions (σ : Type u) (α : Type v) where
  act : σ → α → Option σ
  same : σ → σ → Prop
  refl : ∀ s, same s s
  symm : ∀ {s t}, same s t → same t s
  trans : ∀ {s t r}, same s t → same t r → same s r
  respects : ∀ {s t s' : σ} {a : α}, same s t → act s a = some s' →
    ∃ t', act t a = some t' ∧ same s' t'

namespace Actions

variable {σ : Type u} {α : Type v} (A : Actions σ α)

/-- Actions in turn. -/
def actAll : σ → List α → Option σ
  | s, [] => some s
  | s, a :: as => (A.act s a).bind fun s' => actAll s' as

/-- Where both actions can be done, they can be done in either order, with the same
result. -/
def Indep (a b : α) : Prop :=
  ∀ s sa sb, A.act s a = some sa → A.act s b = some sb →
    ∃ x y, A.act sa b = some x ∧ A.act sb a = some y ∧ A.same x y

variable {A} {s s' t : σ} {a b : α} {as bs : List α}

lemma actAll_cons : A.actAll s (a :: as) = some t ↔
    ∃ s', A.act s a = some s' ∧ A.actAll s' as = some t := by
  rw [actAll, Option.bind_eq_some_iff]

lemma actAll_append : A.actAll s (as ++ bs) = some t ↔
    ∃ s', A.actAll s as = some s' ∧ A.actAll s' bs = some t := by
  induction as generalizing s with
  | nil => simp [actAll]
  | cons a as ih =>
    simp only [List.cons_append, actAll_cons, ih]
    constructor
    · rintro ⟨s₁, h₁, s₂, h₂, h₃⟩
      exact ⟨s₂, ⟨s₁, h₁, h₂⟩, h₃⟩
    · rintro ⟨s₂, ⟨s₁, h₁, h₂⟩, h₃⟩
      exact ⟨s₁, h₁, s₂, h₂, h₃⟩

lemma actAll_respects (h : A.same s t) (hs : A.actAll s as = some s') :
    ∃ t', A.actAll t as = some t' ∧ A.same s' t' := by
  induction as generalizing s t with
  | nil =>
    cases hs
    exact ⟨t, rfl, h⟩
  | cons a as ih =>
    obtain ⟨s₁, ha, has⟩ := actAll_cons.mp hs
    obtain ⟨t₁, ha', h₁⟩ := A.respects h ha
    obtain ⟨t', has', h'⟩ := ih h₁ has
    exact ⟨t', actAll_cons.mpr ⟨t₁, ha', has'⟩, h'⟩

/-- An action moves past independent ones. -/
lemma actAll_past (h : ∀ a ∈ as, A.Indep a b) (has : A.actAll s as = some t)
    (hb : A.act s b = some s') :
    ∃ x y, A.act t b = some x ∧ A.actAll s' as = some y ∧ A.same x y := by
  induction as generalizing s s' with
  | nil =>
    cases has
    exact ⟨s', s', hb, rfl, A.refl s'⟩
  | cons a as ih =>
    obtain ⟨s₁, ha, has⟩ := actAll_cons.mp has
    obtain ⟨x₁, y₁, hx₁, hy₁, hsame⟩ := h a (.head _) s s₁ s' ha hb
    obtain ⟨x, y, hx, hy, hxy⟩ := ih (fun c hc => h c (.tail _ hc)) has hx₁
    obtain ⟨y', hy', hyy'⟩ := actAll_respects hsame hy
    exact ⟨x, y', hx, actAll_cons.mpr ⟨y₁, hy₁, hy'⟩, A.trans hxy hyy'⟩

lemma actAll_early (h : ∀ a ∈ as, A.Indep a b) (hall : A.actAll s (as ++ b :: bs) = some t)
    (hb : A.act s b = some s') : ∃ t', A.actAll s' (as ++ bs) = some t' ∧ A.same t t' := by
  obtain ⟨r, has, hrest⟩ := actAll_append.mp hall
  obtain ⟨r', hb', hbs⟩ := actAll_cons.mp hrest
  obtain ⟨x, y, hx, hy, hxy⟩ := actAll_past h has hb
  obtain rfl : x = r' := Option.some.inj (hx.symm.trans hb')
  obtain ⟨t', ht', htt'⟩ := actAll_respects hxy hbs
  exact ⟨t', actAll_append.mpr ⟨y, hy, ht'⟩, htt'⟩

/-- Several actions move past independent ones. -/
lemma actAll_pasts (h : ∀ a ∈ as, ∀ b ∈ bs, A.Indep a b) (has : A.actAll s as = some t)
    (hbs : A.actAll s bs = some s') :
    ∃ x y, A.actAll t bs = some x ∧ A.actAll s' as = some y ∧ A.same x y := by
  induction bs generalizing s t with
  | nil =>
    cases hbs
    exact ⟨t, t, rfl, has, A.refl t⟩
  | cons b bs ih =>
    obtain ⟨s₁, hb, hbs⟩ := actAll_cons.mp hbs
    obtain ⟨x₁, y₁, hx₁, hy₁, hsame⟩ :=
      actAll_past (fun a ha => h a ha b (.head _)) has hb
    obtain ⟨x, y, hx, hy, hxy⟩ :=
      ih (fun a ha c hc => h a ha c (.tail _ hc)) hy₁ hbs
    obtain ⟨x', hx', hxx'⟩ := actAll_respects (A.symm hsame) hx
    exact ⟨x', y, actAll_cons.mpr ⟨x₁, hx₁, hx'⟩, hy, A.trans (A.symm hxx') hxy⟩

end Actions

end Magisk.Lib
