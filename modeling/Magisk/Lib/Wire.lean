import Mathlib.Tactic

/-!
# Reading what was written

A source hands out its items in pieces that the reader cannot foresee.  What a loop of
reads gets depends on the items alone, so that a decoder can be specified by the
items it reads.

* `Source`: the pieces to come, with interruptions between them;
* `Source.read`, `readFull`: one call, and a loop of calls until a buffer is full;
* `readFull_spec`: the loop gets the next items, however they are split;
* `Consumes`: a decoder reads just these items and returns this value;
* `Consumes.pure`, `Consumes.bind`, `consumes_decodeN`: how decoders compose;
* `Fails`, `Exhausts`, `Drains`: what a decoder does where the source ends;
* `CutAt`, `CutAt.seq`: how far the items of a decoder can be cut off before it fails;
* `leBytes`, `leNat`, `beBytes`, `beNat`: numbers in little-endian and in big-endian order.
-/

namespace Magisk.Lib

open List

universe u

/-! ### Sources -/

/-- What a read can meet: some items, or an interruption. -/
inductive Piece (α : Type u) where
  | items (first : α) (rest : List α)
  | interrupted

/-- The pieces in which items arrive.  After them the source is at its end. -/
abbrev Source (α : Type u) := List (Piece α)

section Source

variable {α : Type u}

/-- The items to come. -/
def Source.content : Source α → List α
  | [] => []
  | .items a as :: s => a :: as ++ content s
  | .interrupted :: s => content s

/-- Items that arrive in one piece. -/
def Source.ofList : List α → Source α
  | [] => []
  | a :: as => [.items a as]

lemma Source.content_ofList (l : List α) : (ofList l).content = l := by
  cases l with
  | nil => rfl
  | cons a as => exact append_nil _

lemma Source.interrupted_notMem_ofList (l : List α) : Piece.interrupted ∉ ofList l := by
  cases l with
  | nil => exact not_mem_nil
  | cons a as => rintro (_ | ⟨_, ⟨⟩⟩)

/-- One read into a buffer for `k` items.  It returns no items at the end of the source, and
nothing if it is interrupted. -/
def Source.read (k : Nat) : Source α → Option (List α) × Source α
  | [] => (some [], [])
  | .items a as :: s =>
    match (a :: as).drop k with
    | [] => (some ((a :: as).take k), s)
    | b :: bs => (some ((a :: as).take k), .items b bs :: s)
  | .interrupted :: s => (none, s)

lemma Source.read_none {s s' : Source α} (h : s.read k = (none, s')) :
    s'.content = s.content ∧ s'.length < s.length := by
  match s with
  | [] => cases h
  | .items a as :: s =>
    rw [read] at h
    split at h <;> cases h
  | .interrupted :: s =>
    obtain rfl := (Prod.mk.inj h).2
    exact ⟨rfl, Nat.lt_succ_self _⟩

/-- A read returns the next items. -/
lemma Source.read_some {s s' : Source α} (h : s.read k = (some l, s')) :
    s.content = l ++ s'.content ∧ l.length ≤ k ∧ s'.length ≤ s.length := by
  match s with
  | [] =>
    obtain ⟨hl, rfl⟩ := Prod.mk.inj h
    cases hl
    exact ⟨rfl, Nat.zero_le _, le_rfl⟩
  | .items a as :: s =>
    have hsplit := (take_append_drop k (a :: as)).symm
    rw [read] at h
    split at h <;> rename_i hdrop <;> rw [hdrop] at hsplit <;>
      obtain ⟨hl, rfl⟩ := Prod.mk.inj h <;> obtain rfl := Option.some.inj hl
    · rw [append_nil] at hsplit
      refine ⟨?_, length_take_le _ _, Nat.le_succ _⟩
      rw [content, ← hsplit]
    · refine ⟨?_, length_take_le _ _, le_rfl⟩
      rw [content, content, ← append_assoc, ← hsplit]
  | .interrupted :: s => cases h

lemma Source.read_nil {s s' : Source α} (hk : k ≠ 0) (h : s.read k = (some [], s')) :
    s.content = [] := by
  match s with
  | [] => rfl
  | .items a as :: s =>
    rw [read] at h
    split at h <;> simp [hk] at h
  | .interrupted :: s => cases h

/-- Without interruptions a read returns, and there are none later. -/
lemma Source.read_uninterrupted {s : Source α} (h : Piece.interrupted ∉ s) (k : Nat) :
    ∃ l s', s.read k = (some l, s') ∧ Piece.interrupted ∉ s' := by
  match s with
  | [] => exact ⟨[], [], rfl, h⟩
  | .items a as :: s =>
    have hs : Piece.interrupted ∉ s := fun hmem => h (.tail _ hmem)
    rw [read]
    split
    · exact ⟨_, s, rfl, hs⟩
    · refine ⟨_, _, rfl, fun hmem => ?_⟩
      rcases mem_cons.mp hmem with heq | hmem
      · cases heq
      · exact hs hmem
  | .interrupted :: s => exact absurd (.head _) h

/-- Reads until there are `n` items or the source is at its end, and goes on when it is
interrupted. -/
def readFull (n : Nat) (s : Source α) : List α × Source α :=
  if n = 0 then ([], s)
  else
    match _h : s.read n with
    | (none, s') => readFull n s'
    | (some [], s') => ([], s')
    | (some (a :: as), s') =>
      let (bs, s'') := readFull (n - (a :: as).length) s'
      (a :: as ++ bs, s'')
termination_by s.content.length + s.length
decreasing_by
  · have hread := Source.read_none _h
    rw [hread.1]
    omega
  · have hread := Source.read_some _h
    have hlen := congrArg List.length hread.1
    rw [length_append, length_cons] at hlen
    omega

/-- **However the items are split**, the loop gets the next ones and leaves the others. -/
theorem readFull_spec (n : Nat) (s : Source α) :
    (readFull n s).1 = s.content.take n ∧ (readFull n s).2.content = s.content.drop n := by
  fun_induction readFull n s with
  | case1 s => exact ⟨rfl, rfl⟩
  | case2 n s hn s' h ih =>
    rw [(Source.read_none h).1] at ih
    exact ih
  | case3 n s hn s' h =>
    have hnil := Source.read_nil hn h
    have hs' := (Source.read_some h).1
    rw [hnil, nil_append] at hs'
    rw [hnil, ← hs', take_nil, drop_nil]
    exact ⟨rfl, rfl⟩
  | case4 n s hn a as s' h bs s'' hrec ih =>
    rw [hrec] at ih
    obtain ⟨hs, hle, -⟩ := Source.read_some h
    rw [hs, take_append, drop_append, take_of_length_le hle,
      drop_of_length_le hle, nil_append]
    exact ⟨congrArg (a :: as ++ ·) ih.1, ih.2⟩

/-- Nor are there interruptions after the loop. -/
lemma readFull_uninterrupted {s : Source α} (h : Piece.interrupted ∉ s) (n : Nat) :
    Piece.interrupted ∉ (readFull n s).2 := by
  fun_induction readFull n s with
  | case1 s => exact h
  | case2 n s hn s' hread =>
    obtain ⟨l, s₁, hread', -⟩ := Source.read_uninterrupted h n
    rw [hread] at hread'
    cases (Prod.mk.inj hread').1
  | case3 n s hn s' hread =>
    obtain ⟨l, s₁, hread', hs₁⟩ := Source.read_uninterrupted h n
    rw [hread] at hread'
    rw [(Prod.mk.inj hread').2]
    exact hs₁
  | case4 n s hn a as s' hread bs s'' hrec ih =>
    obtain ⟨l, s₁, hread', hs₁⟩ := Source.read_uninterrupted h n
    rw [hread] at hread'
    rw [hrec] at ih
    exact ih ((Prod.mk.inj hread').2 ▸ hs₁)

end Source

/-! ### Decoders -/

/-- Code that reads from a source and may fail.  What it has read is gone in either case. -/
abbrev Decoder (α ε : Type) := ExceptT ε (StateM (Source α))

section Decoder

variable {α ε β γ : Type} {m : Decoder α ε β}

/-- Reads `n` items, or less if the source ends before. -/
def readUpTo (n : Nat) : Decoder α ε (List α) := modifyGet (readFull n)

/-- Reads `n` items, or fails if the source ends before. -/
def readExact (eof : ε) (n : Nat) : Decoder α ε (List α) := do
  let l ← readUpTo n
  if l.length < n then throw eof else pure l

/-- Decodes `n` values. -/
def decodeN (m : Decoder α ε β) : Nat → Decoder α ε (List β)
  | 0 => pure []
  | n + 1 => do
      let b ← m
      let bs ← decodeN m n
      pure (b :: bs)

/-- The decoder reads exactly these items and returns this value, however the items are
split and whatever comes after them. -/
def Consumes (m : Decoder α ε β) (l : List α) (b : β) : Prop :=
  ∀ (s : Source α) (rest : List α), s.content = l ++ rest →
    ∃ s' : Source α, m s = (.ok b, s') ∧ s'.content = rest

lemma bind_of_ok {f : β → Decoder α ε γ} (h : m s = (.ok b, s')) : (m >>= f) s = f b s' := by
  change (match m s with | (r, s') => ExceptT.bindCont f r s') = _
  rw [h]
  rfl

lemma Consumes.pure (b : β) : Consumes (pure b : Decoder α ε β) [] b :=
  fun s _ hs => ⟨s, rfl, hs⟩

lemma Consumes.bind {f : β → Decoder α ε γ} (hm : Consumes m l b)
    (hf : Consumes (f b) l' c) : Consumes (m >>= f) (l ++ l') c := by
  intro s rest hs
  obtain ⟨s₁, h₁, hs₁⟩ := hm s (l' ++ rest) (by rw [hs, append_assoc])
  obtain ⟨s₂, h₂, hs₂⟩ := hf s₁ rest hs₁
  exact ⟨s₂, (bind_of_ok h₁).trans h₂, hs₂⟩

lemma Consumes.andThen {f : β → Decoder α ε γ} (hm : Consumes m l b)
    (hf : Consumes (f b) [] c) : Consumes (m >>= f) l c := by
  have h := hm.bind hf
  rwa [append_nil] at h

lemma readUpTo_eq (n : Nat) (s : Source α) :
    (readUpTo n : Decoder α ε (List α)) s = (.ok (s.content.take n), (readFull n s).2) := by
  rw [← (readFull_spec n s).1]
  rfl

lemma consumes_readUpTo (l : List α) : Consumes (readUpTo l.length : Decoder α ε (List α)) l l := by
  intro s rest hs
  have hdrop := (readFull_spec l.length s).2
  rw [hs, drop_left] at hdrop
  exact ⟨_, by rw [readUpTo_eq, hs, take_left], hdrop⟩

lemma consumes_readExact (eof : ε) (l : List α) : Consumes (readExact eof l.length) l l := by
  refine (consumes_readUpTo l).andThen ?_
  rw [if_neg (lt_irrefl _)]
  exact .pure l

lemma consumes_decodeN (h : ∀ b ∈ bs, Consumes m (enc b) b) :
    Consumes (decodeN m bs.length) (bs.flatMap enc) bs := by
  induction bs with
  | nil => exact .pure []
  | cons b bs ih =>
    have hb := h b (.head _)
    have hbs := ih fun c hc => h c (.tail _ hc)
    exact hb.bind (hbs.andThen (.pure (b :: bs)))

end Decoder

/-! ### Sources that end early -/

variable {n : Nat}

section Ends

variable {α ε β γ δ : Type} {m : Decoder α ε β} {f : β → Decoder α ε γ} {l l' : List α} {b : β}
  {c : γ}

/-- The decoder fails on a source with these items. -/
def Fails (m : Decoder α ε β) (l : List α) : Prop :=
  ∀ s : Source α, s.content = l → ∃ e s', m s = (.error e, s')

/-- If the decoder returns on a source with these items, it has read them all. -/
def Exhausts (m : Decoder α ε β) (l : List α) : Prop :=
  ∀ (s s' : Source α) (b : β), s.content = l → m s = (.ok b, s') → s'.content = []

/-- The decoder reads these items to the end and returns this value. -/
def Drains (m : Decoder α ε β) (l : List α) (b : β) : Prop :=
  ∀ s : Source α, s.content = l → ∃ s' : Source α, m s = (.ok b, s') ∧ s'.content = []

lemma bind_of_error (h : m s = (.error e, s')) : (m >>= f) s = (.error e, s') := by
  change (match m s with | (r, s') => ExceptT.bindCont f r s') = _
  rw [h]
  rfl

lemma Fails.not_drains (h : Fails m l) : ¬Drains m l b := by
  intro hdrains
  obtain ⟨e, s₁, herror⟩ := h (.ofList l) (Source.content_ofList l)
  obtain ⟨s₂, hok, -⟩ := hdrains (.ofList l) (Source.content_ofList l)
  cases (Prod.mk.inj (herror.symm.trans hok)).1

lemma Fails.exhausts (h : Fails m l) : Exhausts m l := by
  intro s s' b hs hok
  obtain ⟨e, s₁, herror⟩ := h s hs
  cases (Prod.mk.inj (herror.symm.trans hok)).1

lemma Consumes.exhausts (h : Consumes m l b) : Exhausts m l := by
  intro s s' b' hs hok
  obtain ⟨s₁, hok', hs₁⟩ := h s [] (by rw [hs, append_nil])
  rw [← (Prod.mk.inj (hok'.symm.trans hok)).2, hs₁]

lemma Consumes.drains (h : Consumes m l b) : Drains m l b := by
  intro s hs
  exact h s [] (by rw [hs, append_nil])

lemma Exhausts.pure (b : β) : Exhausts (pure b : Decoder α ε β) [] := (Consumes.pure b).exhausts

lemma Fails.bind (h : Fails m l) (f : β → Decoder α ε γ) : Fails (m >>= f) l := by
  intro s hs
  obtain ⟨e, s', herror⟩ := h s hs
  exact ⟨e, s', bind_of_error herror⟩

lemma Consumes.bind_fails (hm : Consumes m l b) (hf : Fails (f b) l') :
    Fails (m >>= f) (l ++ l') := by
  intro s hs
  obtain ⟨s₁, hok, hs₁⟩ := hm s l' hs
  obtain ⟨e, s', herror⟩ := hf s₁ hs₁
  exact ⟨e, s', (bind_of_ok hok).trans herror⟩

lemma Exhausts.bind_fails (hm : Exhausts m l) (hf : ∀ b, Fails (f b) []) :
    Fails (m >>= f) l := by
  intro s hs
  rcases hread : m s with ⟨e | b, s₁⟩
  · exact ⟨e, s₁, bind_of_error hread⟩
  · obtain ⟨e, s', herror⟩ := hf b s₁ (hm s s₁ b hs hread)
    exact ⟨e, s', (bind_of_ok hread).trans herror⟩

lemma Exhausts.bind (hm : Exhausts m l) (hf : ∀ b, Exhausts (f b) []) :
    Exhausts (m >>= f) l := by
  intro s s' c hs hok
  rcases hread : m s with ⟨e | b, s₁⟩
  · rw [bind_of_error hread] at hok
    cases (Prod.mk.inj hok).1
  · rw [bind_of_ok hread] at hok
    exact hf b s₁ s' c (hm s s₁ b hs hread) hok

lemma Consumes.bind_exhausts (hm : Consumes m l b) (hf : Exhausts (f b) l') :
    Exhausts (m >>= f) (l ++ l') := by
  intro s s' c hs hok
  obtain ⟨s₁, hread, hs₁⟩ := hm s l' hs
  rw [bind_of_ok hread] at hok
  exact hf s₁ s' c hs₁ hok

lemma Drains.bind (hm : Drains m l b) (hf : Drains (f b) [] c) : Drains (m >>= f) l c := by
  intro s hs
  obtain ⟨s₁, hread, hs₁⟩ := hm s hs
  obtain ⟨s₂, hok, hs₂⟩ := hf s₁ hs₁
  exact ⟨s₂, (bind_of_ok hread).trans hok, hs₂⟩

lemma Consumes.bind_drains (hm : Consumes m l b) (hf : Drains (f b) l' c) :
    Drains (m >>= f) (l ++ l') c := by
  intro s hs
  obtain ⟨s₁, hread, hs₁⟩ := hm s l' hs
  obtain ⟨s₂, hok, hs₂⟩ := hf s₁ hs₁
  exact ⟨s₂, (bind_of_ok hread).trans hok, hs₂⟩

lemma fails_readExact (eof : ε) (h : l.length < n) : Fails (readExact eof n) l := by
  intro s hs
  refine ⟨eof, (readFull n s).2, (bind_of_ok (readUpTo_eq n s)).trans ?_⟩
  rw [hs, if_pos ((length_take_le' _ _).trans_lt h)]
  rfl

/-- How the decoder of some items takes it if they are cut off: it fails if more than the last `k`
items are missing, it fails if all are, and where it returns it has read what is left. -/
structure CutAt (m : Decoder α ε β) (l : List α) (k : Nat) : Prop where
  fails : ∀ p q, l = p ++ q → k < q.length → Fails m p
  exhausts : ∀ p q, l = p ++ q → Exhausts m p
  empty : l ≠ [] → Fails m []

section

variable (hm : Consumes m l b) (h : ∀ p q, l = p ++ q → q ≠ [] → Fails m p)

include hm h

lemma CutAt.of_fails :
    CutAt m l 0 where
  fails p q hl hq := h p q hl (ne_nil_of_length_pos hq)
  exhausts p q hl := by
    cases q with
    | nil =>
      rw [append_nil] at hl
      exact hl ▸ hm.exhausts
    | cons a q => exact (h p (a :: q) hl (cons_ne_nil a q)).exhausts
  empty hl := h [] l rfl hl

/-- Items behind others that are all needed. -/
lemma CutAt.head (hl : l ≠ []) (hfails : ∀ p q, l' = p ++ q → k < q.length → Fails (f b) p)
    (hexhausts : ∀ p q, l' = p ++ q → Exhausts (f b) p) : CutAt (m >>= f) (l ++ l') k where
  fails p q heq hq := by
    rcases append_eq_append_iff.mp heq with ⟨r, rfl, hr⟩ | ⟨r, hr, hq'⟩
    · exact hm.bind_fails (hfails r q hr hq)
    · rcases eq_or_ne r [] with rfl | hne
      · rw [append_nil] at hr
        subst hr
        have hnil := hm.bind_fails (hfails [] l' rfl (by rwa [hq'] at hq))
        rwa [append_nil] at hnil
      · exact (h p r hr hne).bind f
  exhausts p q heq := by
    rcases append_eq_append_iff.mp heq with ⟨r, rfl, hr⟩ | ⟨r, hr, -⟩
    · exact hm.bind_exhausts (hexhausts r q hr)
    · rcases eq_or_ne r [] with rfl | hne
      · rw [append_nil] at hr
        subst hr
        have hnil := hm.bind_exhausts (hexhausts [] l' rfl)
        rwa [append_nil] at hnil
      · exact ((h p r hr hne).bind f).exhausts
  empty _ := (h [] l rfl hl).bind f

end

/-- **One decoder after another.**  The first can only be cut where there is nothing for the
second. -/
lemma CutAt.seq [DecidableEq α] {m' : Decoder α ε γ} {g : β → γ → δ} {k k' : Nat}
    (hm : Consumes m l b) (h : CutAt m l k) (h' : CutAt m' l' k') :
    CutAt (do let b ← m; let c ← m'; pure (g b c)) (l ++ l') (if l' = [] then k else k') where
  fails p q heq hq := by
    rcases append_eq_append_iff.mp heq with ⟨r, rfl, hr⟩ | ⟨r, hr, rfl⟩
    · refine hm.bind_fails ((h'.fails r q hr ?_).bind _)
      have hne : l' ≠ [] := by
        rw [hr]
        exact append_ne_nil_of_right_ne_nil r (ne_nil_of_length_pos (by omega))
      rwa [if_neg hne] at hq
    · by_cases hl' : l' = []
      · rw [hl', append_nil] at hq
        exact (h.fails p r hr hq).bind _
      · exact (h.exhausts p r hr).bind_fails fun _ => (h'.empty hl').bind _
  exhausts p q heq := by
    rcases append_eq_append_iff.mp heq with ⟨r, rfl, hr⟩ | ⟨r, hr, -⟩
    · exact hm.bind_exhausts ((h'.exhausts r q hr).bind fun _ => .pure _)
    · exact (h.exhausts p r hr).bind fun _ => (h'.exhausts [] l' rfl).bind fun _ => .pure _
  empty hne := by
    by_cases hl : l = []
    · have hl' : l' ≠ [] := fun hnil => hne (by rw [hl, hnil, append_nil])
      subst hl
      exact (h.exhausts [] [] rfl).bind_fails fun _ => (h'.empty hl').bind _
    · exact (h.empty hl).bind _

end Ends

/-! ### Numbers -/

/-- The `n` low bytes of a number, the lowest first. -/
def leBytes : Nat → Nat → List UInt8
  | 0, _ => []
  | n + 1, v => UInt8.ofNat v :: leBytes n (v / 256)

/-- The number that bytes give, the lowest first. -/
def leNat : List UInt8 → Nat
  | [] => 0
  | b :: bs => b.toNat + 256 * leNat bs

lemma length_leBytes (n v : Nat) : (leBytes n v).length = n := by
  induction n generalizing v with
  | zero => rfl
  | succ n ih => rw [leBytes, length_cons, ih]

lemma leNat_lt (l : List UInt8) : leNat l < 256 ^ l.length := by
  induction l with
  | nil => exact Nat.one_pos
  | cons b l ih =>
    have hb : b.toNat < 256 := b.toNat_lt
    rw [leNat, length_cons]
    omega

lemma leNat_leBytes_mod (n v : Nat) : leNat (leBytes n v) = v % 256 ^ n := by
  induction n generalizing v with
  | zero => exact (Nat.mod_one v).symm
  | succ n ih =>
    have hlow : (UInt8.ofNat v).toNat = v % 256 := UInt8.toNat_ofNat'
    rw [leBytes, leNat, ih, hlow, pow_succ, mul_comm (256 ^ n), Nat.mod_mul]

lemma leNat_leBytes (h : v < 256 ^ n) : leNat (leBytes n v) = v := by
  rw [leNat_leBytes_mod, Nat.mod_eq_of_lt h]

/-- The number that bytes give, the highest first. -/
def beNat (l : List UInt8) : Nat := leNat l.reverse

/-- The `n` low bytes of a number, the highest first. -/
def beBytes (n v : Nat) : List UInt8 := (leBytes n v).reverse

lemma length_beBytes (n v : Nat) : (beBytes n v).length = n := by
  rw [beBytes, length_reverse, length_leBytes]

lemma beNat_beBytes (h : v < 256 ^ n) : beNat (beBytes n v) = v := by
  rw [beNat, beBytes, reverse_reverse, leNat_leBytes h]

end Magisk.Lib
