import Mathlib.Tactic

/-!
# Computations that may fail

* `bind_eq_ok`, `bind_eq_error`: what a sequence of steps returns, step by step;
* `Succeeds`: a computation returns something;
* `succeeds_bind_iff`: when a sequence of steps does;
* `loop`: repeats a step until it is done;
* `Visited`, `loop_succeeds_iff`: a loop succeeds if each step that it takes does;
* `loop_eq_error_iff`: a loop fails where one of its steps does.
-/

namespace Magisk.Lib

universe u v

variable {ε : Type u}

lemma bind_eq_ok {x : Except ε α} {f : α → Except ε β} {b : β} :
    (x >>= f) = .ok b ↔ ∃ a, x = .ok a ∧ f a = .ok b := by
  cases x with
  | error e => simp [bind, Except.bind]
  | ok a => simp [bind, Except.bind]

lemma bind_eq_error {x : Except ε α} {f : α → Except ε β} :
    (x >>= f) = .error e ↔ x = .error e ∨ ∃ a, x = .ok a ∧ f a = .error e := by
  cases x with
  | error e => simp [bind, Except.bind]
  | ok a => simp [bind, Except.bind]

lemma ok_bind (a : α) (f : α → Except ε β) : (Except.ok a >>= f) = f a := rfl

lemma error_bind (e : ε) (f : α → Except ε β) : (Except.error e >>= f) = .error e := rfl

/-! ### Success -/

section Succeeds

variable {α β : Type v} {x : Except ε α}

/-- The computation returns something. -/
def Succeeds (x : Except ε α) : Prop := ∃ a, x = .ok a

@[simp] lemma succeeds_ok (a : α) : Succeeds (.ok a : Except ε α) := ⟨a, rfl⟩

@[simp] lemma not_succeeds_error (e : ε) : ¬Succeeds (.error e : Except ε α) := nofun

lemma succeeds_bind_iff {f : α → Except ε β} :
    Succeeds (x >>= f) ↔ Succeeds x ∧ ∀ a, x = .ok a → Succeeds (f a) := by
  cases x with
  | error e => exact ⟨nofun, fun h => absurd h.1 (not_succeeds_error e)⟩
  | ok a =>
    refine ⟨fun h => ⟨succeeds_ok a, ?_⟩, fun h => h.2 a rfl⟩
    rintro _ ⟨⟩
    exact h

lemma succeeds_bind_congr {f : α → Except ε β} {Q : α → Prop}
    (h : ∀ a, x = .ok a → (Succeeds (f a) ↔ Q a)) :
    Succeeds (x >>= f) ↔ Succeeds x ∧ ∀ a, x = .ok a → Q a := by
  rw [succeeds_bind_iff]
  exact and_congr_right fun _ => forall₂_congr h

/-- The second step asks for the same after each result of the first. -/
lemma succeeds_bind_const {f : α → Except ε β}
    (h : ∀ a, x = .ok a → (Succeeds (f a) ↔ Q)) : Succeeds (x >>= f) ↔ Succeeds x ∧ Q := by
  rw [succeeds_bind_congr h]
  exact and_congr_right fun ⟨a, ha⟩ => ⟨fun hQ => hQ a ha, fun hQ _ _ => hQ⟩

lemma succeeds_bind_ok_iff {g : α → β} : Succeeds (x >>= fun a => .ok (g a)) ↔ Succeeds x := by
  rw [succeeds_bind_iff]
  simp

lemma succeeds_bind_ok {f : α → Except ε β} (h : x = .ok a) :
    Succeeds (x >>= f) ↔ Succeeds (f a) := by
  rw [h]
  rfl

lemma succeeds_map {f : α → β} : Succeeds (f <$> x) ↔ Succeeds x := by
  cases x with
  | error e => exact ⟨nofun, nofun⟩
  | ok a => exact ⟨fun _ => succeeds_ok a, fun _ => succeeds_ok (f a)⟩

lemma succeeds_ite {c : Prop} [Decidable c] {y : Except ε α} :
    Succeeds (if c then x else y) ↔ (c → Succeeds x) ∧ (¬c → Succeeds y) := by
  by_cases h : c <;> simp [h]

lemma succeeds_guard {c : Prop} [Decidable c] {a : α} {e : ε} :
    Succeeds (if c then .ok a else .error e) ↔ c := by
  by_cases h : c <;> simp [h]

end Succeeds

/-! ### Loops -/

section Loop

variable {σ ρ : Type v} (step : σ → Except ε (σ ⊕ ρ)) (size : σ → Nat) {s : σ}

/-- Repeats a step that makes the state smaller until it returns a result. -/
def loop (dec : ∀ s t, step s = .ok (.inl t) → size t < size s) (s : σ) : Except ε ρ :=
  match h : step s with
  | .error e => .error e
  | .ok (.inr r) => .ok r
  | .ok (.inl t) =>
    have := dec s t h
    loop dec t
termination_by size s

/-- The states that the loop visits. -/
inductive Visited : σ → σ → Prop
  | refl (s : σ) : Visited s s
  | next {s t u : σ} (h : step s = .ok (.inl t)) (h' : Visited t u) : Visited s u

variable {step size} {dec : ∀ s t, step s = .ok (.inl t) → size t < size s}

lemma loop_eq (s : σ) : loop step size dec s =
    match step s with
    | .error e => .error e
    | .ok (.inr r) => .ok r
    | .ok (.inl t) => loop step size dec t := by
  rw [loop]
  split <;> simp only [*]

/-- **A loop succeeds if each step that it takes does.** -/
theorem loop_succeeds_iff (s : σ) :
    Succeeds (loop step size dec s) ↔ ∀ t, Visited step s t → Succeeds (step t) := by
  induction hn : size s using Nat.strong_induction_on generalizing s with
  | _ n ih =>
    rw [loop_eq]
    cases hstep : step s with
    | error e =>
      refine ⟨nofun, fun h => ?_⟩
      have hs := h s (.refl s)
      rw [hstep] at hs
      exact absurd hs (not_succeeds_error e)
    | ok x =>
      cases x with
      | inr r =>
        refine ⟨fun _ t ht => ?_, fun _ => succeeds_ok r⟩
        cases ht with
        | refl => exact ⟨_, hstep⟩
        | next h _ => cases hstep.symm.trans h
      | inl t =>
        refine (ih (size t) (hn ▸ dec s t hstep) t rfl).trans
          ⟨fun h u hu => ?_, fun h u hu => ?_⟩
        · cases hu with
          | refl => exact ⟨_, hstep⟩
          | next h' hu =>
            cases hstep.symm.trans h'
            exact h u hu
        · exact h u (.next hstep hu)

/-- What a loop returns, its last step returns. -/
lemma exists_of_loop_eq_ok (h : loop step size dec s = .ok r) :
    ∃ t, Visited step s t ∧ step t = .ok (.inr r) := by
  induction hn : size s using Nat.strong_induction_on generalizing s with
  | _ n ih =>
    rw [loop_eq] at h
    cases hstep : step s with
    | error e =>
      rw [hstep] at h
      cases h
    | ok x =>
      rw [hstep] at h
      cases x with
      | inr r' =>
        cases h
        exact ⟨s, .refl s, hstep⟩
      | inl t =>
        obtain ⟨u, hu, hlast⟩ := ih (size t) (hn ▸ dec s t hstep) h rfl
        exact ⟨u, .next hstep hu, hlast⟩

/-- **A loop fails where one of the steps that it takes does.** -/
theorem loop_eq_error_iff {e : ε} :
    loop step size dec s = .error e ↔ ∃ t, Visited step s t ∧ step t = .error e := by
  induction hn : size s using Nat.strong_induction_on generalizing s with
  | _ n ih =>
    rw [loop_eq]
    cases hstep : step s with
    | error e' =>
      refine ⟨fun h => ⟨s, .refl s, hstep.trans (congrArg _ (Except.error.inj h))⟩, ?_⟩
      rintro ⟨t, ht, hfail⟩
      cases ht with
      | refl => exact congrArg _ (Except.error.inj (hstep.symm.trans hfail))
      | next h _ => cases hstep.symm.trans h
    | ok x =>
      cases x with
      | inr r =>
        refine ⟨nofun, ?_⟩
        rintro ⟨t, ht, hfail⟩
        cases ht with
        | refl => cases hstep.symm.trans hfail
        | next h _ => cases hstep.symm.trans h
      | inl t =>
        refine (ih (size t) (hn ▸ dec s t hstep) rfl).trans ⟨?_, ?_⟩
        · rintro ⟨u, hu, hfail⟩
          exact ⟨u, .next hstep hu, hfail⟩
        · rintro ⟨u, hu, hfail⟩
          cases hu with
          | refl => cases hstep.symm.trans hfail
          | next h' hu =>
            cases hstep.symm.trans h'
            exact ⟨u, hu, hfail⟩

lemma Visited.snoc (h : Visited step s t) (hstep : step t = .ok (.inl u)) : Visited step s u := by
  induction h with
  | refl => exact .next hstep (.refl u)
  | next h _ ih => exact .next h (ih hstep)

lemma Visited.of_done (h : Visited step s t) (hu : Visited step s u)
    (hdone : step u = .ok (.inr r)) : Visited step t u := by
  induction h with
  | refl => exact hu
  | next h _ ih =>
    refine ih ?_
    cases hu with
    | refl => cases hdone.symm.trans h
    | next h' hu =>
      cases h.symm.trans h'
      exact hu

lemma loop_of_visited (h : Visited step s t) : loop step size dec s = loop step size dec t := by
  induction h with
  | refl => rfl
  | next h _ ih => rw [loop_eq, h, ← ih]

lemma Visited.invariant {P : σ → Prop} (h : Visited step s t) (hs : P s)
    (hstep : ∀ s t, P s → step s = .ok (.inl t) → P t) : P t := by
  induction h with
  | refl => exact hs
  | next h _ ih => exact ih (hstep _ _ hs h)

lemma loop_eq_ok_of_step {ε' : Type u} {step' : σ → Except ε' (σ ⊕ ρ)}
    {dec' : ∀ s t, step' s = .ok (.inl t) → size' t < size' s} {P : σ → Prop}
    (hstep : ∀ s x, P s → step s = .ok x → step' s = .ok x)
    (hkeep : ∀ s t, P s → step s = .ok (.inl t) → P t) (hs : P s)
    (h : loop step size dec s = .ok r) : loop step' size' dec' s = .ok r := by
  obtain ⟨t, hvisited, hlast⟩ := exists_of_loop_eq_ok h
  clear h
  induction hvisited with
  | refl => rw [loop_eq, hstep _ _ hs hlast]
  | next hnext _ ih =>
    rw [loop_eq, hstep _ _ hs hnext]
    exact ih (hkeep _ _ hs hnext) hlast

end Loop

end Magisk.Lib
