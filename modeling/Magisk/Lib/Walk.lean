import Magisk.Lib.Wire

/-!
# What a decoder asks for while it reads

A decoder may ask for something before it reads on, such as room for what it is to read, and a
request that is refused ends more than the decoder.

* `Walk`: reading a list, with a record of the requests on the way;
* `Follows`: a decoder that goes with a walk as long as no request is refused;
* `Follows.bind`, `follows_decodeN`: how such decoders compose;
* `Follows.fatal_iff`: when a request is refused, in terms of the items alone.
-/

namespace Magisk.Lib

open List

/-! ### Walks -/

/-- Reading a list: the requests on the way, and the value with the rest of the list, unless
reading fails. -/
def Walk (ρ α β : Type) := List α → List ρ × Option (β × List α)

namespace Walk

variable {ρ α β γ : Type}

/-- A value that is there. -/
def pure (b : β) : Walk ρ α β := fun l => ([], some (b, l))

/-- No value. -/
def fail : Walk ρ α β := fun _ => ([], none)

/-- Up to `n` items. -/
def upTo (n : Nat) : Walk ρ α (List α) := fun l => ([], some (l.take n, l.drop n))

/-- A request. -/
def ask (r : ρ) : Walk ρ α Unit := fun l => ([r], some ((), l))

/-- One walk after another. -/
def bind (w : Walk ρ α β) (f : β → Walk ρ α γ) : Walk ρ α γ := fun l =>
  match w l with
  | (rs, none) => (rs, none)
  | (rs, some (b, rest)) => (rs ++ (f b rest).1, (f b rest).2)

/-- Just `n` items. -/
def full (n : Nat) : Walk ρ α (List α) :=
  (upTo n).bind fun l => if l.length < n then fail else pure l

/-- A walk that is repeated. -/
def times (w : Walk ρ α β) : Nat → Walk ρ α (List β)
  | 0 => pure []
  | n + 1 => w.bind fun b => (times w n).bind fun bs => pure (b :: bs)

end Walk

/-! ### Decoders that follow a walk -/

/-- The decoder does what the walk says, unless a request is refused: then it fails fatally. -/
structure Follows {ρ α ε β : Type} (refused : ρ → Prop) (fatal : ε → Prop) (m : Decoder α ε β)
    (w : Walk ρ α β) : Prop where
  refuses : ∀ s : Source α, (∃ r ∈ (w s.content).1, refused r) →
    ∃ e s', m s = (.error e, s') ∧ fatal e
  fails : ∀ s : Source α, (∀ r ∈ (w s.content).1, ¬refused r) → (w s.content).2 = none →
    ∃ e s', m s = (.error e, s') ∧ ¬fatal e
  returns : ∀ (s : Source α) b rest, (∀ r ∈ (w s.content).1, ¬refused r) →
    (w s.content).2 = some (b, rest) → ∃ s' : Source α, m s = (.ok b, s') ∧ s'.content = rest

section Follows

variable {ρ α ε β γ : Type} {refused : ρ → Prop} {fatal : ε → Prop} {m : Decoder α ε β}
  {w : Walk ρ α β}

/-- **When a decoder fails fatally**: just if one of its requests is refused. -/
lemma Follows.fatal_iff (h : Follows refused fatal m w) (s : Source α) :
    (∃ e s', m s = (.error e, s') ∧ fatal e) ↔ ∃ r ∈ (w s.content).1, refused r := by
  refine ⟨?_, h.refuses s⟩
  rintro ⟨e, s', hm, he⟩
  by_contra hno
  simp only [not_exists, not_and] at hno
  rcases hw : (w s.content).2 with _ | ⟨b, rest⟩
  · obtain ⟨e', s₁, hm', he'⟩ := h.fails s hno hw
    obtain rfl := Except.error.inj (Prod.mk.inj (hm.symm.trans hm')).1
    exact he' he
  · obtain ⟨s₁, hm', -⟩ := h.returns s b rest hno hw
    cases (Prod.mk.inj (hm.symm.trans hm')).1

lemma follows_pure (b : β) :
    Follows refused fatal (pure b : Decoder α ε β) (Walk.pure b : Walk ρ α β) where
  refuses _ h := by
    obtain ⟨r, hr, -⟩ := h
    cases hr
  fails _ _ h := by cases h
  returns s b' rest _ h := by
    cases h
    exact ⟨s, rfl, rfl⟩

lemma follows_throw (he : ¬fatal e) :
    Follows refused fatal (throw e : Decoder α ε β) (Walk.fail : Walk ρ α β) where
  refuses _ h := by
    obtain ⟨r, hr, -⟩ := h
    cases hr
  fails s _ _ := ⟨e, s, rfl, he⟩
  returns _ _ _ _ h := by cases h

lemma follows_readUpTo (n : Nat) : Follows refused fatal (readUpTo n : Decoder α ε (List α))
    (Walk.upTo n : Walk ρ α (List α)) where
  refuses _ h := by
    obtain ⟨r, hr, -⟩ := h
    cases hr
  fails _ _ h := by cases h
  returns s b rest _ h := by
    cases h
    exact ⟨_, readUpTo_eq n s, (readFull_spec n s).2⟩

/-- A request that is granted or refused. -/
lemma follows_ask {m : Decoder α ε Unit} (hok : ¬refused r → m = pure ())
    (hno : refused r → ∃ e, fatal e ∧ m = throw e) :
    Follows refused fatal m (Walk.ask r : Walk ρ α Unit) where
  refuses s h := by
    obtain ⟨r', hr', href⟩ := h
    obtain rfl := mem_singleton.mp hr'
    obtain ⟨e, he, rfl⟩ := hno href
    exact ⟨e, s, rfl, he⟩
  fails _ _ h := by cases h
  returns s b rest h hrest := by
    cases hrest
    rw [hok (h r mem_cons_self)]
    exact ⟨s, rfl, rfl⟩

/-- One decoder after another. -/
lemma Follows.bind {f : β → Decoder α ε γ}
    (hm : Follows refused fatal m w) (hf : ∀ b, Follows refused fatal (f b) (g b)) :
    Follows refused fatal (m >>= f) (w.bind g) where
  refuses s h := by
    by_cases hw : ∃ r ∈ (w s.content).1, refused r
    · obtain ⟨e, s', hread, he⟩ := hm.refuses s hw
      exact ⟨e, s', bind_of_error hread, he⟩
    · -- the first decoder returns, and the request is one of the second
      obtain ⟨r, hr, href⟩ := h
      simp only [not_exists, not_and] at hw
      rcases hwalk : w s.content with ⟨rs, _ | ⟨b, rest⟩⟩
      · simp only [Walk.bind, hwalk] at hr
        rw [hwalk] at hw
        exact absurd href (hw r hr)
      · simp only [Walk.bind, hwalk, mem_append] at hr
        obtain ⟨s₁, hread, hs₁⟩ := hm.returns s b rest hw (by rw [hwalk])
        rw [hwalk] at hw
        have hr' := hr.resolve_left fun hmem => hw r hmem href
        obtain ⟨e, s', herror, he⟩ := (hf b).refuses s₁ ⟨r, by rwa [hs₁], href⟩
        exact ⟨e, s', (bind_of_ok hread).trans herror, he⟩
  fails s hok h := by
    rcases hwalk : w s.content with ⟨rs, _ | ⟨b, rest⟩⟩
    · simp only [Walk.bind, hwalk] at hok
      obtain ⟨e, s', hread, he⟩ := hm.fails s (by rwa [hwalk]) (by rw [hwalk])
      exact ⟨e, s', bind_of_error hread, he⟩
    · simp only [Walk.bind, hwalk, mem_append] at hok h
      obtain ⟨s₁, hread, hs₁⟩ := hm.returns s b rest
        (by rw [hwalk]; exact fun r hr => hok r (.inl hr)) (by rw [hwalk])
      obtain ⟨e, s', herror, he⟩ := (hf b).fails s₁
        (by rw [hs₁]; exact fun r hr => hok r (.inr hr)) (by rwa [hs₁])
      exact ⟨e, s', (bind_of_ok hread).trans herror, he⟩
  returns s c rest' hok h := by
    rcases hwalk : w s.content with ⟨rs, _ | ⟨b, rest⟩⟩
    · simp only [Walk.bind, hwalk] at h
      cases h
    · simp only [Walk.bind, hwalk, mem_append] at hok h
      obtain ⟨s₁, hread, hs₁⟩ := hm.returns s b rest
        (by rw [hwalk]; exact fun r hr => hok r (.inl hr)) (by rw [hwalk])
      obtain ⟨s', hok', hs'⟩ := (hf b).returns s₁ c rest'
        (by rw [hs₁]; exact fun r hr => hok r (.inr hr)) (by rwa [hs₁])
      exact ⟨s', (bind_of_ok hread).trans hok', hs'⟩

lemma follows_readExact (he : ¬fatal eof) (n : Nat) :
    Follows refused fatal (readExact eof n) (Walk.full n : Walk ρ α (List α)) := by
  refine (follows_readUpTo n).bind fun l => ?_
  split
  · exact follows_throw he
  · exact follows_pure l

lemma follows_decodeN (h : Follows refused fatal m w) (n : Nat) :
    Follows refused fatal (decodeN m n) (w.times n) := by
  induction n with
  | zero => exact follows_pure []
  | succ n ih => exact h.bind fun b => ih.bind fun bs => follows_pure (b :: bs)

end Follows

end Magisk.Lib
