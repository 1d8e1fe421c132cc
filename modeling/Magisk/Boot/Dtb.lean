import Magisk.Lib.Loop
import Magisk.Boot.ImgReads

/-!
# The device trees of a file

`for_each_fdt` goes from one magic number to the next and calls a function on each device tree.
It goes on behind a tree by the size that the tree itself states.

* `FdtFn`, `fdtStep`: the function that is called, and the loop body;
* `Stuck`: a tree that states no size;
* `forEachFdt_halts_iff`: when each turn goes on with a shorter slice.
-/

namespace Magisk.Boot

open Magisk.Base Magisk.Lib List

/-- What `Fdt::new` returns: a tree, `BufferTooSmall`, or another error. -/
inductive FdtNew where
  | ok
  | bufferTooSmall
  | failed

/-- Why `for_each_fdt` does not return `Ok`. -/
inductive FdtFault where
  | err
  | panic
  deriving DecidableEq, Repr

/-- The function that is called with the number of a tree, the place of its slice in the file and
the file.  It may write to the file, but not make it shorter or longer. -/
structure FdtFn (σ : Type) where
  call : Nat → Nat → Str → σ → Except FdtFault (Str × σ)
  length_eq {n pos : Nat} {file file' : Str} {s s' : σ} :
    call n pos file s = .ok (file', s') → file'.length = file.length

/-- The variables of `for_each_fdt`, and what the function that is called keeps. -/
structure FdtLoop (σ : Type) where
  file : Str
  pos : Nat
  dtbNum : Nat
  state : σ

/-- The slice that is left in `buf`. -/
def FdtLoop.slice {σ : Type} (s : FdtLoop σ) : Str := s.file.drop s.pos

/-- `slice.windows(4).position(..)` for the magic number. -/
def magicPos (slice : Str) : Option Nat :=
  (List.range (slice.length - 3)).find? fun i => window slice i 4 = dtbMagic

/-- `fdt.total_size()`. -/
def totalSize (slice : Str) : Nat := beAt slice 4 4

section Walk

variable {σ : Type} (new : Str → FdtNew) (f : FdtFn σ)

/-- The loop body of `for_each_fdt`. -/
def fdtStep (s : FdtLoop σ) : FdtLoop σ ⊕ Except FdtFault (Str × σ) :=
  match magicPos s.slice with
  | none => .inr (.ok (s.file, s.state))
  | some p =>
    let slice := s.slice.drop p
    if slice.length < 40 then .inr (.ok (s.file, s.state))
    else
      match new slice with
      | .bufferTooSmall => .inr (.ok (s.file, s.state))
      | .failed => .inr (.error .err)
      | .ok =>
        match f.call s.dtbNum (s.pos + p) s.file s.state with
        | .error e => .inr (.error e)
        | .ok (file, state) =>
          if totalSize slice ≤ slice.length then
            .inl ⟨file, s.pos + p + totalSize slice, s.dtbNum + 1, state⟩
          else .inr (.error .panic)

/-- `for_each_fdt` with a bound on its turns. -/
def forEachFdt (n : Nat) (file : Str) (state : σ) : Option (Except FdtFault (Str × σ)) :=
  turns (fdtStep new f) n ⟨file, 0, 0, state⟩

/-- The slice starts with a tree that states no size, and the function returns. -/
def Stuck (s : FdtLoop σ) : Prop :=
  dtbMagic <+: s.slice ∧ 40 ≤ s.slice.length ∧ totalSize s.slice = 0 ∧
    Succeeds (f.call s.dtbNum s.pos s.file s.state)

variable {new f} {s t : FdtLoop σ}

lemma magicPos_of_prefix {slice : Str} (h : dtbMagic <+: slice) : magicPos slice = some 0 := by
  obtain ⟨rest, rfl⟩ := h
  rw [magicPos, find?_range_eq_some]
  exact ⟨decide_eq_true rfl, mem_range.mpr (Nat.succ_pos _), fun j hj => by cases hj⟩

/-- What a turn that goes on has found. -/
lemma fdtStep_eq_inl (h : fdtStep new f s = .inl t) :
    ∃ p, magicPos s.slice = some p ∧ 40 ≤ (s.slice.drop p).length ∧
      totalSize (s.slice.drop p) ≤ (s.slice.drop p).length ∧
      f.call s.dtbNum (s.pos + p) s.file s.state = .ok (t.file, t.state) ∧
      t.pos = s.pos + p + totalSize (s.slice.drop p) := by
  unfold fdtStep at h
  split at h
  · cases h
  · rename_i p hp
    dsimp only at h
    split at h
    · cases h
    · rename_i hlen
      split at h
      · cases h
      · cases h
      · split at h
        · cases h
        · rename_i hcall
          split at h
          · cases h
            exact ⟨p, hp, Nat.le_of_not_lt hlen, ‹_›, hcall, rfl⟩
          · cases h

/-- **A turn goes on with a shorter slice** just if it is not stuck. -/
lemma fdtStep_shorter_iff
    (hnew : ∀ slice, dtbMagic <+: slice → totalSize slice ≤ slice.length → new slice = .ok) :
    (∀ t, fdtStep new f s = .inl t → t.slice.length < s.slice.length) ↔ ¬Stuck f s := by
  constructor
  · rintro h ⟨hmagic, hlen, hsize, ⟨file, state⟩, hcall⟩
    have hstep : fdtStep new f s = .inl ⟨file, s.pos, s.dtbNum + 1, state⟩ := by
      have hok := hnew s.slice hmagic (by omega)
      simp [fdtStep, magicPos_of_prefix hmagic, hok, hcall, hsize, Nat.not_lt.mpr hlen]
    have hlt := h _ hstep
    simp only [FdtLoop.slice, length_drop, f.length_eq hcall] at hlt
    omega
  · intro hstuck t hstep
    obtain ⟨p, hp, hlen, hsize, hcall, hpos⟩ := fdtStep_eq_inl hstep
    have htLen : t.slice.length = s.file.length - t.pos := by
      rw [FdtLoop.slice, length_drop, f.length_eq hcall]
    have hsLen : s.slice.length = s.file.length - s.pos := length_drop
    have hdrop : (s.slice.drop p).length = s.slice.length - p := length_drop
    by_contra hge
    -- the turn has not moved, so the slice starts with the tree
    obtain ⟨rfl, hzero⟩ : p = 0 ∧ totalSize (s.slice.drop p) = 0 := by omega
    refine hstuck ⟨?_, hlen, hzero, _, hcall⟩
    have hmagic := find?_some hp
    rw [← of_decide_eq_true hmagic]
    exact take_prefix 4 s.slice

/-- **When `for_each_fdt` ends**, each turn with a shorter slice: it must not come to a tree of
size zero. -/
theorem forEachFdt_halts_iff
    (hnew : ∀ slice, dtbMagic <+: slice → totalSize slice ≤ slice.length → new slice = .ok)
    (file : Str) (state : σ) :
    ((∃ n, (forEachFdt new f n file state).isSome) ∧
      ∀ s t, Turned (fdtStep new f) ⟨file, 0, 0, state⟩ s → fdtStep new f s = .inl t →
        t.slice.length < s.slice.length) ↔
    ∀ s, Turned (fdtStep new f) ⟨file, 0, 0, state⟩ s → ¬Stuck f s := by
  constructor
  · rintro ⟨-, h⟩ s hs
    exact (fdtStep_shorter_iff hnew).mp fun t => h s t hs
  · intro h
    have hshorter : ∀ s t, Turned (fdtStep new f) ⟨file, 0, 0, state⟩ s →
        fdtStep new f s = .inl t → t.slice.length < s.slice.length := fun s t hs =>
      (fdtStep_shorter_iff hnew).mpr (h s hs) t
    obtain ⟨-, r, -, -, n, hn⟩ := exists_returns (P := Turned (fdtStep new f) ⟨file, 0, 0, state⟩)
      (fun s => s.slice.length) (.refl _) fun s t hs hstep =>
        ⟨hs.snoc hstep, hshorter s t hs hstep⟩
    exact ⟨⟨n, by rw [forEachFdt, hn]; rfl⟩, hshorter⟩

end Walk

/-- `dtb_print` and `dtb_test` do not write to the file. -/
def FdtFn.reader : FdtFn Unit where
  call _ _ file s := .ok (file, s)
  length_eq h := by cases h; rfl

/-- A file without a magic number. -/
theorem forEachFdt_halts_empty : ∃ n, (forEachFdt (fun _ => .ok) FdtFn.reader n [] ()).isSome := by
  refine ((forEachFdt_halts_iff (fun _ _ _ => rfl) [] ()).mpr fun s hs => ?_).1
  cases hs with
  | refl => exact fun h => absurd h.2.1 (by decide)
  | next h _ => cases h

/-- The loop stays at a tree that states the size zero. -/
theorem forEachFdt_zero : ¬∃ n,
    (forEachFdt (fun _ => .ok) FdtFn.reader n (dtbMagic ++ List.replicate 36 0) ()).isSome := by
  have hnot : ¬Halts (fdtStep (fun _ => .ok) FdtFn.reader)
      ⟨dtbMagic ++ List.replicate 36 0, 0, 0, ()⟩ := by
    refine not_halts_of_invariant
      (P := fun s => s.file = dtbMagic ++ List.replicate 36 0 ∧ s.pos = 0) ⟨rfl, rfl⟩ ?_
    rintro ⟨_, _, k, _⟩ ⟨rfl, rfl⟩
    exact ⟨⟨_, 0, k + 1, ()⟩, rfl, rfl, rfl⟩
  rintro ⟨n, hn⟩
  obtain ⟨r, hr⟩ := Option.isSome_iff_exists.mp hn
  exact hnot ⟨r, n, hr⟩

end Magisk.Boot
