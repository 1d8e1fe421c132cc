import Mathlib.Tactic

/-!
# Loops that need not end

A step goes on with another state or returns a result.  A loop runs for as many turns as it is
given, and returns if some number of turns is enough.

* `turns`: a number of turns of a loop;
* `Returns`, `Halts`: the loop returns a value, or some value;
* `Turned`: the states at which a turn starts;
* `exists_returns`: a loop returns if each turn makes the state smaller;
* `not_halts_of_invariant`: it does not if each turn can be followed by another one;
* `turns_card_of_returns`: a loop over finitely many states returns within that many turns.
-/

namespace Magisk.Lib

universe u v

variable {σ : Type u} {ρ : Type v} (step : σ → σ ⊕ ρ)

/-- Some turns of a loop, and the value it returns if they are enough. -/
def turns : Nat → σ → Option ρ
  | 0, _ => none
  | n + 1, s =>
    match step s with
    | .inl t => turns n t
    | .inr r => some r

/-- The loop returns the value. -/
def Returns (s : σ) (r : ρ) : Prop := ∃ n, turns step n s = some r

/-- The loop returns. -/
def Halts (s : σ) : Prop := ∃ r, Returns step s r

/-- The loop comes to a state. -/
inductive Turned : σ → σ → Prop
  | refl (s : σ) : Turned s s
  | next {s t u : σ} (h : step s = .inl t) (h' : Turned t u) : Turned s u

variable {step}

variable {s t : σ} {r : ρ} {n : Nat}

lemma turns_inl (h : step s = .inl t) (n : Nat) : turns step (n + 1) s = turns step n t := by
  rw [turns, h]

lemma turns_inr (h : step s = .inr r) (n : Nat) : turns step (n + 1) s = some r := by
  rw [turns, h]

lemma returns_of_inr (h : step s = .inr r) : Returns step s r :=
  ⟨1, turns_inr h 0⟩

lemma returns_of_inl (h : step s = .inl t) (ht : Returns step t r) : Returns step s r := by
  obtain ⟨n, hn⟩ := ht
  exact ⟨n + 1, (turns_inl h n).trans hn⟩

/-- **A loop returns** if each turn makes the state smaller, and what the turns keep holds in
the end. -/
theorem exists_returns {P : σ → Prop} (size : σ → Nat) (hs : P s)
    (hstep : ∀ s t, P s → step s = .inl t → P t ∧ size t < size s) :
    ∃ t r, P t ∧ step t = .inr r ∧ Returns step s r := by
  induction hn : size s using Nat.strong_induction_on generalizing s with
  | _ n ih =>
    cases h : step s with
    | inr r => exact ⟨s, r, hs, h, returns_of_inr h⟩
    | inl t =>
      obtain ⟨ht, hlt⟩ := hstep s t hs h
      obtain ⟨u, r, hu, hlast, hr⟩ := ih _ (hn ▸ hlt) ht rfl
      exact ⟨u, r, hu, hlast, returns_of_inl h hr⟩

lemma halts_of_measure (size : σ → Nat) (hstep : ∀ s t, step s = .inl t → size t < size s)
    (s : σ) : Halts step s := by
  obtain ⟨-, r, -, -, hr⟩ := exists_returns (P := fun _ => True) size (s := s) trivial
    fun s t _ h => ⟨trivial, hstep s t h⟩
  exact ⟨r, hr⟩

/-- **A loop does not halt** if from each state that it comes to it goes on. -/
theorem not_halts_of_invariant {P : σ → Prop} (hs : P s)
    (hstep : ∀ s, P s → ∃ t, step s = .inl t ∧ P t) : ¬Halts step s := by
  rintro ⟨r, n, hn⟩
  induction n generalizing s with
  | zero => cases hn
  | succ n ih =>
    obtain ⟨t, h, ht⟩ := hstep s hs
    rw [turns_inl h] at hn
    exact ih ht hn

lemma Turned.snoc (h : Turned step s t) (hstep : step t = .inl u) : Turned step s u := by
  induction h with
  | refl s => exact .next hstep (.refl u)
  | next h _ ih => exact .next h (ih hstep)

/-! ### Finitely many states -/

/-- More turns do not change the value. -/
lemma turns_mono (hmn : m ≤ n) (h : turns step m s = some r) : turns step n s = some r := by
  induction m generalizing n s with
  | zero => cases h
  | succ m ih =>
    obtain ⟨n, rfl⟩ : ∃ k, n = k + 1 := ⟨n - 1, by omega⟩
    cases hstep : step s with
    | inr r' =>
      rw [turns_inr hstep] at h ⊢
      exact h
    | inl t =>
      rw [turns_inl hstep] at h ⊢
      exact ih (by omega) h

lemma Turned.exists_turns (h : Turned step s t) (hn : turns step n s = some r) :
    ∃ m ≤ n, turns step m t = some r := by
  induction h generalizing n with
  | refl s => exact ⟨n, le_rfl, hn⟩
  | next hstep _ ih =>
    cases n with
    | zero => cases hn
    | succ n =>
      rw [turns_inl hstep] at hn
      obtain ⟨m, hm, hr⟩ := ih hn
      exact ⟨m, by omega, hr⟩

/-- A loop that returns does not come to a state twice: the least number of turns is at most the
number of states. -/
lemma le_card_of_turns [DecidableEq σ] {T : Finset σ} (hn : turns step n s = some r)
    (hmin : ∀ m < n, turns step m s = none) (hT : ∀ t, Turned step s t → t ∈ T) : n ≤ T.card := by
  induction n generalizing T s with
  | zero => cases hn
  | succ n ih =>
    have hs := hT s (.refl s)
    cases hstep : step s with
    | inr r' =>
      have hcard := Finset.card_pos.mpr ⟨s, hs⟩
      by_contra hlt
      have hone := hmin 1 (by omega)
      rw [turns_inr hstep] at hone
      cases hone
    | inl t =>
      rw [turns_inl hstep] at hn
      have hmin' : ∀ m < n, turns step m t = none := by
        intro m hm
        rw [← turns_inl hstep]
        exact hmin (m + 1) (by omega)
      have hT' : ∀ u, Turned step t u → u ∈ T.erase s := by
        intro u hu
        refine Finset.mem_erase.mpr ⟨?_, hT u (.next hstep hu)⟩
        rintro rfl
        obtain ⟨m, hm, hr⟩ := hu.exists_turns hn
        rw [hmin m (by omega)] at hr
        cases hr
      have hle := ih hn hmin' hT'
      rw [Finset.card_erase_of_mem hs] at hle
      have hcard := Finset.card_pos.mpr ⟨s, hs⟩
      omega

/-- **A loop over finitely many states** that returns needs at most as many turns. -/
theorem turns_card_of_returns [DecidableEq σ] {T : Finset σ} (hT : ∀ t, Turned step s t → t ∈ T)
    (h : Returns step s r) : turns step T.card s = some r := by
  classical
  have hle := le_card_of_turns (Nat.find_spec h) (fun m hm => ?_) hT
  · exact turns_mono hle (Nat.find_spec h)
  · have hne := Nat.find_min h hm
    cases hm' : turns step m s with
    | none => rfl
    | some r' =>
      have hr := Nat.find_spec h
      rw [turns_mono hm.le hm'] at hr
      exact absurd (hm'.trans hr) hne

end Magisk.Lib
