import Magisk.Boot.ImgBounds

/-!
# The search for a device tree

`find_dtb_offset` goes from one magic number to the next.  Where the header behind a magic number
is not the one of a device tree it goes on 40 bytes later, so that it may jump over a device tree.

* `DtbAt`: the header of a device tree in a buffer;
* `Examined`: the magic numbers that the search looks at;
* `findDtbStep_eq`: one round of the search;
* `findDtbOffset_isFirst_iff`: when it finds the first device tree;
* `findDtbOffset_inside_iff`: when it stays in its buffer.
-/

namespace Magisk.Boot

open Magisk.Base Magisk.Lib

/-! ### Device trees in a buffer -/

section Trees

variable (mem : Str) (buf sz p : Nat)

/-- A header that passes the checks of `find_dtb_offset`, in a buffer that ends at `stop`. -/
def TreeAt (stop : Nat) : Prop :=
  0x48 < beAt mem (p + 4) 4 ∧ beAt mem (p + 4) 4 ≤ stop - p ∧ beAt mem (p + 8) 4 ≤ stop - p ∧
    beAt mem (p + beAt mem (p + 8) 4) 4 = 1

instance (stop : Nat) : Decidable (TreeAt mem p stop) := by
  unfold TreeAt
  infer_instance

/-- A device tree in a buffer: the magic number, and a header that passes the checks. -/
def DtbAt : Prop :=
  buf ≤ p ∧ p + dtbMagic.length ≤ buf + sz ∧ window mem p dtbMagic.length = dtbMagic ∧
    TreeAt mem p (buf + sz)

instance : Decidable (DtbAt mem buf sz p) := by
  unfold DtbAt
  infer_instance

/-- The offset of the first device tree in a buffer, if there is one. -/
def IsFirstDtb : Option Nat → Prop
  | some off => DtbAt mem buf sz (buf + off) ∧ ∀ q < buf + off, ¬DtbAt mem buf sz q
  | none => ∀ q, ¬DtbAt mem buf sz q

/-- The size of a tree, and if it is one that fits also the first tag, are read before `limit`. -/
def ReadBefore (stop limit : Nat) : Prop :=
  p + 8 ≤ limit ∧ (0x48 < beAt mem (p + 4) 4 → beAt mem (p + 4) 4 ≤ stop - p →
    beAt mem (p + 8) 4 ≤ stop - p → p + beAt mem (p + 8) 4 + 4 ≤ limit)

instance (stop limit : Nat) : Decidable (ReadBefore mem p stop limit) := by
  unfold ReadBefore
  infer_instance

end Trees

/-- The magic numbers that the search looks at: the first one, and after one that is not the start
of a device tree the first one that is at least 40 bytes behind it. -/
inductive Examined (mem : Str) (buf sz : Nat) : Nat → Prop
  | first {p : Nat} (h : memmem mem buf (buf + sz) dtbMagic = some p) : Examined mem buf sz p
  | next {p q : Nat} (hp : Examined mem buf sz p) (hne : ¬TreeAt mem p (buf + sz))
      (h : memmem mem (p + 40) (buf + sz) dtbMagic = some q) : Examined mem buf sz q

variable {mem : Str} {buf sz : Nat}

/-! ### One round -/

variable {curr : Nat} {r : Option Nat}

lemma not_window_of_memmem (h : memmem mem curr stop pat = some p)
    (hq : curr ≤ q) (hqp : q < p) : window mem q pat.length ≠ pat := by
  obtain ⟨-, hp, -⟩ := memmem_le h
  rw [memmem, List.find?_range'_eq_some] at h
  have hnot := h.2.2 q hq hqp
  intro heq
  have hle : q + pat.length ≤ stop := by omega
  simp [heq, hle] at hnot

lemma not_window_of_memmem_none (h : memmem mem curr stop pat = none)
    (hq : curr ≤ q) (hlt : q < stop) (hstop : q + pat.length ≤ stop) :
    window mem q pat.length ≠ pat := by
  rw [memmem, List.find?_eq_none] at h
  have hnot := h q (List.mem_range'_1.mpr (by omega))
  intro heq
  simp [heq, hstop] at hnot

lemma loadBE_of_lt (h : mem.length < addr + n) : loadBE mem addr n = .error .outOfBounds := by
  rw [loadBE, load, if_neg (by omega)]
  rfl

section

variable (hmem : buf + sz ≤ mem.length)

include hmem

/-- What is done with a magic number that was found. -/
lemma findDtbStep_of_some (hcurr : curr < buf + sz)
    (hfind : memmem mem curr (buf + sz) dtbMagic = some p) :
    findDtbStep mem buf sz curr =
      if ReadBefore mem p (buf + sz) mem.length then
        if TreeAt mem p (buf + sz) then
          if 2 ^ 31 ≤ p - buf then .error .wrap else .ok (.inr (some (p - buf)))
        else .ok (.inl (p + 40))
      else .error .outOfBounds := by
  simp only [findDtbStep, if_pos hcurr, hfind]
  rcases Nat.lt_or_ge mem.length (p + 4 + 4) with hsize | hsize
  · have hread : ¬ReadBefore mem p (buf + sz) mem.length := fun h => absurd h.1 (by omega)
    rw [loadBE_of_lt hsize, error_bind, if_neg hread]
  rw [loadBE_of_le hsize, ok_bind]
  by_cases hfits : buf + sz - p < beAt mem (p + 4) 4 ∨ beAt mem (p + 4) 4 ≤ 0x48
  · have hread : ReadBefore mem p (buf + sz) mem.length := ⟨by omega, by omega⟩
    have htree : ¬TreeAt mem p (buf + sz) := fun h => by
      have := h.1
      have := h.2.1
      omega
    rw [if_pos hfits, if_pos hread, if_neg htree]
  rw [if_neg hfits, loadBE_of_le (by omega), ok_bind]
  by_cases hoff : buf + sz - p < beAt mem (p + 8) 4
  · have hread : ReadBefore mem p (buf + sz) mem.length := ⟨by omega, by omega⟩
    have htree : ¬TreeAt mem p (buf + sz) := fun h => absurd h.2.2.1 (by omega)
    rw [if_pos hoff, if_pos hread, if_neg htree]
  rw [if_neg hoff]
  rcases Nat.lt_or_ge mem.length (p + beAt mem (p + 8) 4 + 4) with htag | htag
  · have hread : ¬ReadBefore mem p (buf + sz) mem.length := fun h =>
      absurd (h.2 (by omega) (by omega) (by omega)) (by omega)
    rw [loadBE_of_lt htag, error_bind, if_neg hread]
  have hread : ReadBefore mem p (buf + sz) mem.length := ⟨by omega, fun _ _ _ => htag⟩
  rw [loadBE_of_le htag, ok_bind, if_pos hread]
  by_cases hbegin : beAt mem (p + beAt mem (p + 8) 4) 4 = 1
  · have htree : TreeAt mem p (buf + sz) := ⟨by omega, by omega, by omega, hbegin⟩
    rw [if_neg (not_not.mpr hbegin), if_pos htree]
  · have htree : ¬TreeAt mem p (buf + sz) := fun h => hbegin h.2.2.2
    rw [if_pos hbegin, if_neg htree]

/-- **One round of the search.** -/
lemma findDtbStep_eq (curr : Nat) :
    findDtbStep mem buf sz curr =
      match memmem mem curr (buf + sz) dtbMagic with
      | none => .ok (.inr none)
      | some p =>
        if ReadBefore mem p (buf + sz) mem.length then
          if TreeAt mem p (buf + sz) then
            if 2 ^ 31 ≤ p - buf then .error .wrap else .ok (.inr (some (p - buf)))
          else .ok (.inl (p + 40))
        else .error .outOfBounds := by
  by_cases hcurr : curr < buf + sz
  · cases hfind : memmem mem curr (buf + sz) dtbMagic with
    | none => simp [findDtbStep, hfind]
    | some p => exact findDtbStep_of_some hmem hcurr hfind
  · have hnone : memmem mem curr (buf + sz) dtbMagic = none := by
      rw [memmem, show buf + sz - curr = 0 by omega]
      rfl
    rw [hnone, findDtbStep, if_neg hcurr]

lemma findDtbStep_eq_inl (h : findDtbStep mem buf sz curr = .ok (.inl next)) :
    ∃ p, memmem mem curr (buf + sz) dtbMagic = some p ∧ ¬TreeAt mem p (buf + sz) ∧
      next = p + 40 := by
  rw [findDtbStep_eq hmem] at h
  split at h
  · cases h
  · rename_i p hp
    split_ifs at h with _ htree
    · cases h
    · exact ⟨p, hp, htree, (Sum.inl.inj (Except.ok.inj h)).symm⟩

lemma findDtbStep_eq_inr
    (h : findDtbStep mem buf sz curr = .ok (.inr r)) :
    (r = none ∧ memmem mem curr (buf + sz) dtbMagic = none) ∨
      ∃ p, memmem mem curr (buf + sz) dtbMagic = some p ∧ TreeAt mem p (buf + sz) ∧
        r = some (p - buf) := by
  rw [findDtbStep_eq hmem] at h
  split at h
  · exact .inl ⟨(Sum.inr.inj (Except.ok.inj h)).symm, ‹_›⟩
  · rename_i p hp
    split_ifs at h with _ htree
    · exact .inr ⟨p, hp, htree, (Sum.inr.inj (Except.ok.inj h)).symm⟩
    · cases h

/-! ### The magic numbers that are looked at -/

lemma examined_of_visited
    (h : Visited (findDtbStep mem buf sz) buf curr) :
    ∀ p, memmem mem curr (buf + sz) dtbMagic = some p → Examined mem buf sz p := by
  refine h.invariant (P := fun curr => ∀ p, memmem mem curr (buf + sz) dtbMagic = some p →
    Examined mem buf sz p) (fun p hp => .first hp) fun s t hs hstep p hp => ?_
  obtain ⟨q, hq, htree, rfl⟩ := findDtbStep_eq_inl hmem hstep
  exact .next (hs q hq) htree hp

/-- Unless the search leaves the memory, each magic number that is looked at is found from a place
where the search goes on, and what is read there is in the memory. -/
lemma Examined.exists_visited
    (hread : findDtbOffset mem buf sz ≠ .error .outOfBounds) (h : Examined mem buf sz p) :
    ∃ curr, Visited (findDtbStep mem buf sz) buf curr ∧
      memmem mem curr (buf + sz) dtbMagic = some p ∧ ReadBefore mem p (buf + sz) mem.length := by
  have hreads : ∀ curr q, Visited (findDtbStep mem buf sz) buf curr →
      memmem mem curr (buf + sz) dtbMagic = some q →
        ReadBefore mem q (buf + sz) mem.length := by
    intro curr q hcurr hq
    by_contra hnot
    refine hread (loop_eq_error_iff.mpr ⟨curr, hcurr, ?_⟩)
    simp only [findDtbStep_eq hmem, hq, if_neg hnot]
  induction h with
  | first hp => exact ⟨buf, .refl buf, hp, hreads buf _ (.refl buf) hp⟩
  | @next p q _ htree hq ih =>
    obtain ⟨curr, hcurr, hp, hr⟩ := ih
    have hstep : findDtbStep mem buf sz curr = .ok (.inl (p + 40)) := by
      simp only [findDtbStep_eq hmem, hp, if_pos hr, if_neg htree]
    exact ⟨p + 40, hcurr.snoc hstep, hq, hreads _ _ (hcurr.snoc hstep) hq⟩

/-- The search stays in the memory if and only if it does so at each magic number. -/
lemma findDtbOffset_ne_outOfBounds_iff :
    findDtbOffset mem buf sz ≠ .error .outOfBounds ↔
      ∀ p, Examined mem buf sz p → ReadBefore mem p (buf + sz) mem.length := by
  constructor
  · intro hread p hp
    obtain ⟨-, -, -, h⟩ := hp.exists_visited hmem hread
    exact h
  · intro hreads herror
    obtain ⟨curr, hcurr, hstep⟩ := loop_eq_error_iff.mp herror
    rw [findDtbStep_eq hmem] at hstep
    split at hstep
    · cases hstep
    · rename_i p hp
      rw [if_pos (hreads p (examined_of_visited hmem hcurr p hp))] at hstep
      split_ifs at hstep
      cases hstep

end

/-! ### The first device tree -/

/-- No device tree lies less than 40 bytes behind a magic number that is looked at and is not the
start of one. -/
def NoneHidden (mem : Str) (buf sz : Nat) : Prop :=
  ∀ p q, Examined mem buf sz p → ¬TreeAt mem p (buf + sz) → DtbAt mem buf sz q → p < q →
    p + 40 ≤ q

section

variable (hmem : buf + sz ≤ mem.length) (hhidden : NoneHidden mem buf sz)
  (h : Visited (findDtbStep mem buf sz) buf curr)

include hmem hhidden h

/-- Nothing is missed before a place where the search goes on. -/
lemma not_dtbAt_of_visited :
    buf ≤ curr ∧ ∀ q < curr, ¬DtbAt mem buf sz q := by
  -- a step does not know that it is taken, so what it looks at is part of the invariant
  have hall : buf ≤ curr ∧ (∀ q < curr, ¬DtbAt mem buf sz q) ∧
      ∀ p, memmem mem curr (buf + sz) dtbMagic = some p → Examined mem buf sz p := by
    refine h.invariant (P := fun curr => buf ≤ curr ∧ (∀ q < curr, ¬DtbAt mem buf sz q) ∧
      ∀ p, memmem mem curr (buf + sz) dtbMagic = some p → Examined mem buf sz p)
      ⟨le_rfl, fun q hq hdtb => absurd hdtb.1 (by omega), fun p hp => .first hp⟩ ?_
    rintro s t ⟨hle, hbefore, hexamined⟩ hstep
    obtain ⟨p, hp, htree, rfl⟩ := findDtbStep_eq_inl hmem hstep
    have hsp := (memmem_le hp).1
    refine ⟨by omega, fun q hq hdtb => ?_, fun q hq => .next (hexamined p hp) htree hq⟩
    rcases Nat.lt_or_ge q s with hqs | hqs
    · exact hbefore q hqs hdtb
    rcases lt_trichotomy q p with hqp | rfl | hqp
    · exact not_window_of_memmem hp hqs hqp hdtb.2.2.1
    · exact htree hdtb.2.2.2
    · have := hhidden p q (hexamined p hp) htree hdtb hqp
      omega
  exact ⟨hall.1, hall.2.1⟩

/-- The search that ends has found the first device tree if none is hidden. -/
lemma isFirstDtb_of_done
    (hdone : findDtbStep mem buf sz curr = .ok (.inr r)) : IsFirstDtb mem buf sz r := by
  obtain ⟨hle, hbefore⟩ := not_dtbAt_of_visited hmem hhidden h
  rcases findDtbStep_eq_inr hmem hdone with ⟨rfl, hnone⟩ | ⟨p, hp, htree, rfl⟩
  · intro q hdtb
    have hlen : dtbMagic.length = 4 := rfl
    rcases Nat.lt_or_ge q curr with hq | hq
    · exact hbefore q hq hdtb
    · exact not_window_of_memmem_none hnone hq (by have := hdtb.2.1; omega) hdtb.2.1 hdtb.2.2.1
  · obtain ⟨hcp, hend, hmagic⟩ := memmem_le hp
    have hoff : buf + (p - buf) = p := by omega
    refine ⟨?_, fun q hq hdtb => ?_⟩
    · rw [hoff]
      exact ⟨by omega, hend, hmagic, htree⟩
    · rw [hoff] at hq
      rcases Nat.lt_or_ge q curr with hqc | hqc
      · exact hbefore q hqc hdtb
      · exact not_window_of_memmem hp hqc hq hdtb.2.2.1

end

/-- A search that finds the first device tree has not jumped over it. -/
lemma noneHidden_of_isFirstDtb (hmem : buf + sz ≤ mem.length) (h : findDtbOffset mem buf sz = .ok r)
    (hfirst : IsFirstDtb mem buf sz r) : NoneHidden mem buf sz := by
  intro p q hp htree hdtb hpq
  by_contra hlt
  obtain ⟨curr, hcurr, hfound, hreads⟩ := hp.exists_visited hmem (by rw [h]; nofun)
  have hstep : findDtbStep mem buf sz curr = .ok (.inl (p + 40)) := by
    simp only [findDtbStep_eq hmem, hfound, if_pos hreads, if_neg htree]
  obtain ⟨last, hlast, hdone⟩ := exists_of_loop_eq_ok h
  -- the search ends behind the magic number, and so behind the tree
  have hle : p + 40 ≤ last :=
    ((hcurr.snoc hstep).of_done hlast hdone).invariant (P := (p + 40 ≤ ·)) le_rfl
      fun s t hs hst => by
        have := findDtbStep_lt hst
        omega
  rcases findDtbStep_eq_inr hmem hdone with ⟨rfl, -⟩ | ⟨p', hp', -, rfl⟩
  · exact hfirst q hdtb
  · have hlp := (memmem_le hp').1
    exact hfirst.2 q (by omega) hdtb

/-- **When `find_dtb_offset` returns the first device tree.**  It does so if what it reads is in the
memory, and no device tree lies less than 40 bytes behind a magic number that it rejects. -/
theorem findDtbOffset_isFirst_iff (mem : Str) (buf sz : Nat) (hmem : buf + sz ≤ mem.length)
    (hsz : sz < 2 ^ 31) :
    (∃ r, findDtbOffset mem buf sz = .ok r ∧ IsFirstDtb mem buf sz r) ↔
      (∀ p, Examined mem buf sz p → ReadBefore mem p (buf + sz) mem.length) ∧
        NoneHidden mem buf sz := by
  constructor
  · rintro ⟨r, hr, hfirst⟩
    refine ⟨(findDtbOffset_ne_outOfBounds_iff hmem).mp (by rw [hr]; nofun), ?_⟩
    exact noneHidden_of_isFirstDtb hmem hr hfirst
  · rintro ⟨hreads, hhidden⟩
    have hinside := (findDtbOffset_ne_outOfBounds_iff hmem).mpr hreads
    cases hr : findDtbOffset mem buf sz with
    | error e =>
      obtain ⟨curr, hcurr, hstep⟩ := loop_eq_error_iff.mp hr
      rw [findDtbStep_eq hmem] at hstep
      split at hstep
      · cases hstep
      · rename_i p hp
        have hp := (memmem_le hp).2.1
        split_ifs at hstep
        · have hlen : dtbMagic.length = 4 := rfl
          omega
        · cases hstep
          exact absurd hr hinside
    | ok r =>
      obtain ⟨curr, hcurr, hdone⟩ := exists_of_loop_eq_ok hr
      exact ⟨r, rfl, isFirstDtb_of_done hmem hhidden hcurr hdone⟩

/-- The smallest device tree that passes the checks. -/
def smallTree : Str :=
  dtbMagic ++ [0, 0, 0, 0x49] ++ [0, 0, 0, 0x0c] ++ [0, 0, 0, 1] ++ List.replicate 57 0

lemma findDtbOffset_smallTree : findDtbOffset smallTree 0 smallTree.length = .ok (some 0) := by
  have hstep : findDtbStep smallTree 0 smallTree.length 0 = .ok (.inr (some 0)) := by decide
  rw [findDtbOffset, loop_eq, hstep]

theorem noneHidden_smallTree : NoneHidden smallTree 0 smallTree.length := by
  refine ((findDtbOffset_isFirst_iff smallTree 0 smallTree.length (by decide) (by decide)).mp
    ⟨some 0, findDtbOffset_smallTree, ?_⟩).2
  exact ⟨by decide, fun q hq => absurd hq (by omega)⟩

/-- A magic number before a tree hides it: the search jumps over it and finds nothing. -/
theorem findDtbOffset_hidden :
    findDtbOffset (dtbMagic ++ List.replicate 4 0 ++ smallTree) 0 81 = .ok none ∧
      DtbAt (dtbMagic ++ List.replicate 4 0 ++ smallTree) 0 81 8 := by
  refine ⟨?_, by decide⟩
  have hfirst : findDtbStep (dtbMagic ++ List.replicate 4 0 ++ smallTree) 0 81 0 =
      .ok (.inl 40) := by decide
  have hsecond : findDtbStep (dtbMagic ++ List.replicate 4 0 ++ smallTree) 0 81 40 =
      .ok (.inr none) := by decide
  rw [findDtbOffset, loop_eq, hfirst]
  dsimp only
  rw [loop_eq, hsecond]

/-- **When `find_dtb_offset` reads only its buffer.**  The memory ends with the buffer. -/
theorem findDtbOffset_inside_iff (buffer : Str) :
    findDtbOffset buffer 0 buffer.length ≠ .error .outOfBounds ↔
      ∀ p, Examined buffer 0 buffer.length p →
        ReadBefore buffer p buffer.length buffer.length := by
  have hin : 0 + buffer.length ≤ buffer.length := by omega
  have h := findDtbOffset_ne_outOfBounds_iff hin
  rwa [Nat.zero_add] at h

/-- The size behind a magic number at the end of a buffer is read outside of it. -/
theorem findDtbOffset_outside : findDtbOffset dtbMagic 0 4 = .error .outOfBounds := by
  have hstep : findDtbStep dtbMagic 0 4 0 = .error .outOfBounds := by decide
  rw [findDtbOffset, loop_eq, hstep]

end Magisk.Boot
