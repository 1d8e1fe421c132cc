import Mathlib.Tactic

/-!
Labelled transition systems with an executable step function, and the one
induction every safety result rests on.

* `System.Reach`: the states reached from an initial state by steps that all
  meet a given condition `ok` on the state before the step and the label; the
  condition `fun _ _ => True` gives every reachable state.
* `System.Reach.invariant`: a property of the initial states which every
  admitted step preserves holds in every state reached.
* `System.forall_reach_iff`: a property that exactly the good steps preserve holds
  in every state reached if and only if all steps taken are good.
* `System.run` and `System.Reach.of_run`: a schedule given as a list of labels
  is executed by evaluation, and the state it ends in is reached.
-/

namespace Magisk.Lib

universe u v

/-- A labelled transition system.  The step function is undefined exactly where
the label is not enabled. -/
structure System (σ : Type u) (α : Type v) where
  init : σ → Prop
  step : σ → α → Option σ

namespace System

variable {σ : Type u} {α : Type v} (S : System σ α) {ok : σ → α → Prop}

/-- The states reached from an initial state by steps that all meet `ok`. -/
inductive Reach (ok : σ → α → Prop) : σ → Prop
  | init {s : σ} : S.init s → Reach ok s
  | step {s s' : σ} {a : α} : Reach ok s → ok s a → S.step s a = some s' → Reach ok s'

/-- The state a schedule ends in, if all its labels are enabled in turn. -/
def run : σ → List α → Option σ
  | s, [] => some s
  | s, a :: as => (S.step s a).bind fun s' => run s' as

variable {S}

/-- **The invariant rule.**  What holds initially and is preserved by every
admitted step holds in every state reached. -/
theorem Reach.invariant {I : σ → Prop} (h0 : ∀ s, S.init s → I s)
    (hstep : ∀ s a s', I s → ok s a → S.step s a = some s' → I s') {s : σ} (hs : S.Reach ok s) :
    I s := by
  induction hs with
  | init hi => exact h0 _ hi
  | step _ hok ht ih => exact hstep _ _ _ ih hok ht

/-- **The exact invariant rule.**  If a step from a state with `I` leads to one with `P` only if it
is good, and then even to one with `I`, all states reached have `P` exactly if all steps taken are
good. -/
theorem forall_reach_iff {good : σ → α → Prop} {I P : σ → Prop} (h0 : ∀ s, S.init s → I s)
    (hI : ∀ s, I s → P s)
    (hstep : ∀ s a s', I s → S.step s a = some s' → (P s' → good s a) ∧ (good s a → I s')) :
    (∀ s, S.Reach ok s → P s) ↔
      ∀ s a s', S.Reach ok s → ok s a → S.step s a = some s' → good s a := by
  constructor
  · intro hP
    have hinv : ∀ s, S.Reach ok s → I s := by
      intro s hs
      induction hs with
      | init hi => exact h0 _ hi
      | step hs hok ht ih =>
        obtain ⟨hgood, hnext⟩ := hstep _ _ _ ih ht
        exact hnext (hgood (hP _ (.step hs hok ht)))
    intro s a s' hs hok ht
    exact (hstep s a s' (hinv s hs) ht).1 (hP s' (.step hs hok ht))
  · intro hgood s hs
    have hinv : I s := by
      induction hs with
      | init hi => exact h0 _ hi
      | step hs hok ht ih => exact (hstep _ _ _ ih ht).2 (hgood _ _ _ hs hok ht)
    exact hI s hinv

lemma Reach.of_run (hok : ∀ s a, ok s a) :
    ∀ {as : List α} {s s' : σ}, S.Reach ok s → S.run s as = some s' → S.Reach ok s'
  | [], s, s', hs, h => by
      simp only [run, Option.some.injEq] at h
      exact h ▸ hs
  | a :: as, s, s', hs, h => by
      simp only [run, Option.bind_eq_some_iff] at h
      obtain ⟨t, ht, hrun⟩ := h
      exact Reach.of_run hok (.step hs (hok s a) ht) hrun

end System

end Magisk.Lib
