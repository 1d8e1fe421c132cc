import Magisk.Lib.Loop
import Magisk.Boot.ImgReads

/-!
# The walk over LZ4 blocks

`check_fmt_lg` goes from one block size to the next with an offset of 32 bits.  The bound of a
block and the next offset are computed modulo `2 ^ 32`.

* `walkStep`, `checkFmtLgIn`: the loop body, and the function with a bound on its turns;
* `exists_checkFmtLgIn`: where no number wraps around, this is the function of the parser;
* `TurnsBack`: a block size that takes the walk back;
* `checkFmtLg_increases_iff`: when the offset increases with each turn.
-/

namespace Magisk.Boot

open Magisk.Base Magisk.Lib

/-- The loop body of `check_fmt_lg`. -/
def walkStep (buf : Str) (off : Nat) : Nat ⊕ FileFormat :=
  if off + 4 ≤ buf.length then
    let start := (off + 4) % 2 ^ 32
    if buf.length < (start + u32At buf off) % 2 ^ 32 then .inr .lz4Lg
    else .inl ((start + u32At buf off) % 2 ^ 32)
  else .inr .lz4Legacy

/-- `check_fmt_lg` with a bound on its turns. -/
def checkFmtLgIn (n : Nat) (buf : Str) : Option FileFormat :=
  if checkFmt buf = .lz4Legacy then turns (walkStep buf) n 4 else some (checkFmt buf)

variable {buf : Str}

lemma u32At_lt (buf : Str) (off : Nat) : u32At buf off < 2 ^ 32 :=
  (leNat_lt _).trans_le (Nat.pow_le_pow_right (by decide) (List.length_take_le _ _))

/-! ### The walk of the parser -/

section Parser

variable {mem : Str} {addr sz : Nat} (hin : addr + sz ≤ mem.length)

include hin

/-- Where no number wraps around, a turn is one of `lgStep`. -/
lemma walkStep_of_lgStep
    (h : lgStep mem addr sz off = .ok x) : walkStep (window mem addr sz) off = x := by
  have hlen : (window mem addr sz).length = sz := length_window hin
  rw [lgStep] at h
  rw [walkStep, hlen]
  split at h
  · rename_i hle
    obtain ⟨b, hb, h⟩ := bind_eq_ok.mp h
    obtain rfl : u32At (window mem addr sz) off = b := by
      rw [loadU32, load_of_le (by omega)] at hb
      rw [u32At, window_window hle]
      exact Except.ok.inj hb
    rw [if_pos hle]
    split at h
    · cases h
    · have hsmall : ((off + 4) % 2 ^ 32 + u32At (window mem addr sz) off) % 2 ^ 32 =
          off + 4 + u32At (window mem addr sz) off := by
        omega
      simp only [hsmall]
      split at h
      · rw [if_pos ‹_›]
        exact Except.ok.inj h
      · rw [if_neg ‹_›]
        exact Except.ok.inj h
  · rw [if_neg ‹_›]
    exact Except.ok.inj h

lemma returns_of_visited (h : Visited (lgStep mem addr sz) off off')
    (hlast : lgStep mem addr sz off' = .ok (.inr fmt)) :
    Returns (walkStep (window mem addr sz)) off fmt := by
  induction h with
  | refl => exact returns_of_inr (walkStep_of_lgStep hin hlast)
  | next hstep _ ih => exact returns_of_inl (walkStep_of_lgStep hin hstep) (ih hlast)

/-- **Where no number wraps around**, the function returns what the parser takes. -/
theorem exists_checkFmtLgIn {fmt : FileFormat} (h : checkFmtLg mem addr sz = .ok fmt) :
    ∃ n, checkFmtLgIn n (window mem addr sz) = some fmt := by
  rw [checkFmtLg, checkFmtAt_eq hin] at h
  obtain ⟨f, hf, h⟩ := bind_eq_ok.mp h
  cases hf
  split at h
  · rename_i hlz4
    obtain ⟨off, hvisited, hlast⟩ := exists_of_loop_eq_ok h
    obtain ⟨n, hn⟩ := returns_of_visited hin hvisited hlast
    exact ⟨n, by rw [checkFmtLgIn, if_pos hlz4, hn]⟩
  · rename_i hlz4
    exact ⟨0, by rw [checkFmtLgIn, if_neg hlz4, Except.ok.inj h]⟩

end Parser

/-! ### Offsets that increase -/

/-- The size of the block at an offset makes the next offset wrap around, to one that is not
behind it. -/
def TurnsBack (buf : Str) (off : Nat) : Prop :=
  off + 4 ≤ buf.length ∧ 2 ^ 32 ≤ off + 4 + u32At buf off ∧ u32At buf off ≤ 2 ^ 32 - 4

/-- A turn moves on just if the block size does not take it back. -/
lemma walkStep_increases_iff (hlen : buf.length < 2 ^ 32) (off : Nat) :
    (∀ off', walkStep buf off = .inl off' → off < off') ↔ ¬TurnsBack buf off := by
  have hlt := u32At_lt buf off
  constructor
  · rintro h ⟨hle, hwrap, hsmall⟩
    have hstep : walkStep buf off = .inl (off + 4 + u32At buf off - 2 ^ 32) := by
      have hmod : ((off + 4) % 2 ^ 32 + u32At buf off) % 2 ^ 32 =
          off + 4 + u32At buf off - 2 ^ 32 := by
        omega
      simp only [walkStep, if_pos hle, hmod]
      rw [if_neg (by omega)]
    have hgt := h _ hstep
    omega
  · intro hnot off' hstep
    rw [walkStep] at hstep
    split at hstep
    · rename_i hle
      simp only at hstep
      split at hstep
      · cases hstep
      · cases hstep
        simp only [TurnsBack] at hnot
        omega
    · cases hstep

lemma walkStep_le (h : walkStep buf off = .inl off') : off < buf.length ∧ off' ≤ buf.length := by
  rw [walkStep] at h
  split at h
  · simp only at h
    split at h
    · cases h
    · cases h
      omega
  · cases h

/-- The walk returns if each turn moves on. -/
lemma exists_checkFmtLgIn_of_increases
    (h : checkFmt buf = .lz4Legacy → ∀ off off', Turned (walkStep buf) 4 off →
      walkStep buf off = .inl off' → off < off') :
    ∃ n, (checkFmtLgIn n buf).isSome := by
  simp only [checkFmtLgIn]
  split
  · rename_i hlz4
    obtain ⟨-, fmt, -, -, n, hn⟩ := exists_returns (P := Turned (walkStep buf) 4)
      (fun off => buf.length - off) (.refl 4) fun off off' hoff hstep => by
        have hlt := h hlz4 off off' hoff hstep
        have hle := walkStep_le hstep
        exact ⟨hoff.snoc hstep, by omega⟩
    exact ⟨n, by rw [hn]; rfl⟩
  · exact ⟨0, rfl⟩

/-- **When the offset increases with each turn**, so that `check_fmt_lg` returns: the walk must not
come to a block size that takes it back. -/
theorem checkFmtLg_increases_iff (hlen : buf.length < 2 ^ 32) :
    ((∃ n, (checkFmtLgIn n buf).isSome) ∧
      (checkFmt buf = .lz4Legacy → ∀ off off', Turned (walkStep buf) 4 off →
        walkStep buf off = .inl off' → off < off')) ↔
    (checkFmt buf = .lz4Legacy → ∀ off, Turned (walkStep buf) 4 off → ¬TurnsBack buf off) := by
  constructor
  · rintro ⟨-, h⟩ hlz4 off hoff
    exact (walkStep_increases_iff hlen off).mp fun off' hstep => h hlz4 off off' hoff hstep
  · intro h
    have hinc : checkFmt buf = .lz4Legacy → ∀ off off', Turned (walkStep buf) 4 off →
        walkStep buf off = .inl off' → off < off' := fun hlz4 off off' hoff hstep =>
      (walkStep_increases_iff hlen off).mpr (h hlz4 off hoff) off' hstep
    exact ⟨exists_checkFmtLgIn_of_increases hinc, hinc⟩

/-- The magic of LZ4 without any blocks. -/
theorem checkFmtLg_increases_magic :
    ∃ n, (checkFmtLgIn n [0x02, 0x21, 0x4c, 0x18]).isSome := by
  refine ((checkFmtLg_increases_iff (by decide)).mpr fun _ off hoff => ?_).1
  have hend : walkStep [0x02, 0x21, 0x4c, 0x18] 4 = .inr .lz4Legacy := by decide
  cases hoff with
  | refl => exact fun h => absurd h.1 (by decide)
  | next h _ => cases hend.symm.trans h

/-- A block of `2 ^ 32 - 4` bytes leads back to its own size. -/
theorem checkFmtLgIn_turnsBack :
    ¬∃ n fmt, checkFmtLgIn n [0x02, 0x21, 0x4c, 0x18, 0xfc, 0xff, 0xff, 0xff] = some fmt := by
  rintro ⟨n, fmt, h⟩
  induction n with
  | zero => cases h
  | succ n ih =>
    exact ih h

end Magisk.Boot
