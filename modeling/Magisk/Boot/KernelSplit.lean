import Magisk.Boot.FindDtb
import Magisk.Boot.FmtWalk
import Magisk.Boot.Tiles

/-!
# How the kernel is taken apart

The parser's model stops where a number wraps around.  Here the kernel is taken apart with the
numbers of the source: the walk over LZ4 blocks goes on modulo `2 ^ 32` and may not end, and the
offset of a device tree that does not fit an `int` is negative, that is none.  What is left as a
fault is a read behind the mapping, or the difference of two sizes that wraps around.

* `splitKernel`: the kernel handling of `parse_image`;
* `splitKernel_of_parseKernel`: it agrees with the parser's model;
* `KernelSplits`: the walks end, the reads are in the mapping and no difference wraps around;
* `splitKernel_tiled_iff`: then and only then the kernel is taken apart into adjacent parts.
-/

namespace Magisk.Boot

open Magisk.Base Magisk.Lib

variable {kernel size curr : Nat}

/-- Why the kernel is not taken apart. -/
inductive Stop where
  /-- A read behind the mapping, or a size below zero. -/
  | fault (f : Fault)
  /-- A walk over LZ4 blocks that comes back to where it was. -/
  | endless
deriving DecidableEq, Repr

/-- A step of the parser. -/
def Stop.lift {α : Type} (x : Except Fault α) : Except Stop α := x.mapError .fault

open Stop (lift)

section Split

variable (mem : Str)

/-- `check_fmt_lg`.  The offset is at most the size, so that a walk with more turns than that comes
back to where it was. -/
def fmtLgAt (addr sz : Nat) : Except Stop FileFormat :=
  match checkFmtLgIn (sz + 2) (window mem addr sz) with
  | some fmt => .ok fmt
  | none => .error .endless

/-- `find_dtb_offset`: an offset that does not fit an `int` is negative. -/
def dtbOffset (buf sz : Nat) : Except Stop (Option Nat) :=
  match findDtbOffset mem buf sz with
  | .ok d => .ok d
  | .error .outOfBounds => .error (.fault .outOfBounds)
  | .error _ => .ok none

/-- The format of the kernel, after the header of a MediaTek kernel. -/
def splitFmt (img : BootImg) : Except Stop (Bool × FileFormat) := do
  let fmt ← fmtLgAt mem (img.ptr .kernel) (img.size .kernel)
  if fmt = .mtk then
    let size ← lift (sub (img.size .kernel) mtkHdrSz)
    let fmt ← fmtLgAt mem (img.ptr .kernel + mtkHdrSz) size
    .ok (true, fmt)
  else .ok (false, fmt)

/-- One step of the search for a compressed kernel. -/
def searchStep (kernel size curr : Nat) : Except Stop (Nat ⊕ Option Nat) :=
  if curr < kernel + size then do
    let fmt ← fmtLgAt mem curr (size - (curr - kernel))
    if fmt ≠ .unknown then .ok (.inr (some curr)) else .ok (.inl (curr + 1))
  else .ok (.inr none)

variable {mem} in
lemma searchStep_lt (h : searchStep mem kernel size curr = .ok (.inl next)) :
    next = curr + 1 ∧ curr < kernel + size := by
  rw [searchStep] at h
  split at h
  · obtain ⟨fmt, -, h⟩ := bind_eq_ok.mp h
    split at h
    · cases h
    · exact ⟨(Sum.inl.inj (Except.ok.inj h)).symm, ‹_›⟩
  · cases h

/-- The search for the compressed kernel. -/
def searchPiggy (kernel size : Nat) : Except Stop (Option Nat) :=
  loop (searchStep mem kernel size) (kernel + size - ·)
    (fun _ _ h => (searchStep_lt h).1 ▸ Nat.sub_lt_sub_left (searchStep_lt h).2 (Nat.lt_succ_self _))
    (kernel + 0x28)

/-- The end of the compressed kernel, from the table of offsets. -/
def piggyBound (kernel : Nat) : Except Fault (Option Nat) := do
  let start ← loadU32 mem (kernel + 0x28)
  let stop ← loadU32 mem (kernel + 0x2c)
  let piggySize ← sub stop start
  let table ← sub (kernel + piggySize) 64
  let offsets ← load mem table 64
  let low ← sub piggySize 0xff
  .ok (piggyEnd offsets low piggySize)

/-- `parse_zimage`. -/
def splitZimage (img : BootImg) : Except Stop BootImg := do
  let kernel := img.ptr .kernel
  let size := img.size .kernel
  let piggy ← searchPiggy mem kernel size
  match piggy with
  | none => .ok { img with zHdr := ⟨kernel, 0⟩ }
  | some curr =>
    let hdrSz := curr - kernel
    let bound ← lift (piggyBound mem kernel)
    match bound with
    | none => .ok { img with zHdr := ⟨kernel, hdrSz⟩ }
    | some stop =>
      let _ ← lift (sub size stop)
      let newSz ← lift (sub stop hdrSz)
      let kFmt ← fmtLgAt mem (kernel + hdrSz) newSz
      .ok (img.cutZimage hdrSz stop kFmt)

/-- The kernel handling of `parse_image`. -/
def splitKernel (img : BootImg) : Except Stop BootImg :=
  if img.size .kernel = 0 then .ok img
  else do
    let dtbOff ← dtbOffset mem (img.ptr .kernel) (img.size .kernel)
    let img := img.cutDtb dtbOff
    let fmt ← splitFmt mem img
    let img := img.withKernelFmt fmt
    if img.kFmt = .zimage then splitZimage mem img else .ok img

end Split

variable {mem : Str}

/-! ### The walk -/

/-- The walk over the blocks of a buffer that starts like a legacy LZ4 file ends. -/
def WalkEnds (mem : Str) (addr sz : Nat) : Prop :=
  checkFmt (window mem addr sz) = .lz4Legacy → Halts (walkStep (window mem addr sz)) 4

variable {buf : Str} {n addr sz p : Nat} {fmt : FileFormat} {α : Type} {img img' : BootImg}

/-- The walk stays in the buffer. -/
lemma turned_walkStep (h : Turned (walkStep buf) 4 off) :
    off ∈ insert 4 (Finset.range (buf.length + 1)) := by
  have hinv : ∀ s t, Turned (walkStep buf) s t →
      s ∈ insert 4 (Finset.range (buf.length + 1)) →
        t ∈ insert 4 (Finset.range (buf.length + 1)) := by
    intro s t hst
    induction hst with
    | refl s => exact id
    | next hstep _ ih =>
      have hle := (walkStep_le hstep).2
      intro _
      exact ih (Finset.mem_insert_of_mem (Finset.mem_range.mpr (by omega)))
  exact hinv 4 off h (Finset.mem_insert_self _ _)

lemma turns_of_returns (hlen : buf.length ≤ n) (h : Returns (walkStep buf) 4 fmt) :
    turns (walkStep buf) (n + 2) 4 = some fmt := by
  have hcard : (insert 4 (Finset.range (buf.length + 1))).card ≤ n + 2 := by
    have hinsert := Finset.card_insert_le 4 (Finset.range (buf.length + 1))
    rw [Finset.card_range] at hinsert
    omega
  exact turns_mono hcard (turns_card_of_returns (fun _ => turned_walkStep) h)

/-- What a walk finds. -/
lemma lz4_of_turns (h : turns (walkStep buf) n off = some fmt) :
    fmt = .lz4Lg ∨ fmt = .lz4Legacy := by
  induction n generalizing off with
  | zero => cases h
  | succ n ih =>
    cases hstep : walkStep buf off with
    | inl next =>
      rw [turns_inl hstep] at h
      exact ih h
    | inr r =>
      rw [turns_inr hstep, Option.some.injEq] at h
      subst h
      rw [walkStep] at hstep
      split at hstep
      · simp only at hstep
        split at hstep
        · exact .inl (Sum.inr.inj hstep).symm
        · cases hstep
      · exact .inr (Sum.inr.inj hstep).symm

lemma fmtLgAt_eq_ok (h : fmtLgAt mem addr sz = .ok fmt) :
    checkFmt (window mem addr sz) = fmt ∨
      checkFmt (window mem addr sz) = .lz4Legacy ∧ (fmt = .lz4Lg ∨ fmt = .lz4Legacy) := by
  rw [fmtLgAt, checkFmtLgIn] at h
  split at h
  · rename_i hsome
    cases h
    split at hsome
    · exact .inr ⟨‹_›, lz4_of_turns hsome⟩
    · exact .inl (Option.some.inj hsome)
  · cases h

/-- Only a walk that does not end is a failure. -/
lemma succeeds_fmtLgAt_iff : Succeeds (fmtLgAt mem addr sz) ↔ WalkEnds mem addr sz := by
  rw [fmtLgAt, checkFmtLgIn]
  constructor
  · rintro ⟨fmt, h⟩ hlz4
    rw [if_pos hlz4] at h
    split at h
    · rename_i r hr
      exact ⟨r, _, hr⟩
    · cases h
  · intro h
    split_ifs with hlz4
    · obtain ⟨fmt, hfmt⟩ := h hlz4
      have hlen : (window mem addr sz).length ≤ sz := List.length_take_le _ _
      rw [turns_of_returns hlen hfmt]
      exact succeeds_ok _
    · exact succeeds_ok _

lemma fmtLgAt_eq_iff (h₁ : fmt ≠ .lz4Lg) (h₂ : fmt ≠ .lz4Legacy) :
    fmtLgAt mem addr sz = .ok fmt ↔ checkFmt (window mem addr sz) = fmt := by
  constructor
  · intro h
    rcases fmtLgAt_eq_ok h with hfmt | ⟨-, hfmt | hfmt⟩
    · exact hfmt
    · exact absurd hfmt h₁
    · exact absurd hfmt h₂
  · intro h
    rw [fmtLgAt, checkFmtLgIn, if_neg (h ▸ h₂), h]

/-! ### Steps of the parser -/

lemma lift_eq_ok {x : Except Fault α} : lift x = .ok a ↔ x = .ok a := by
  cases x with
  | error e => exact ⟨nofun, nofun⟩
  | ok b => exact ⟨fun h => by rw [Except.ok.inj h], fun h => by rw [Except.ok.inj h]; rfl⟩

lemma succeeds_lift_iff {x : Except Fault α} : Succeeds (lift x) ↔ Succeeds x :=
  exists_congr fun _ => lift_eq_ok

lemma succeeds_lift_sub_bind {f : Nat → Except Stop α} :
    Succeeds (lift (sub a b) >>= f) ↔ b ≤ a ∧ Succeeds (f (a - b)) := by
  rw [succeeds_bind_iff, succeeds_lift_iff, sub, succeeds_guard]
  refine and_congr_right fun hle => ?_
  rw [if_pos hle]
  exact ⟨fun h => h _ rfl, fun h c hc => Except.ok.inj hc ▸ h⟩

/-! ### A zImage -/

/-- The compressed kernel of a zImage: the first place behind the header that has the format of
something. -/
def IsPiggy (mem : Str) (kernel size curr : Nat) : Prop :=
  kernel + 0x28 ≤ curr ∧ curr < kernel + size ∧
    checkFmt (window mem curr (size - (curr - kernel))) ≠ .unknown ∧
    ∀ c, kernel + 0x28 ≤ c → c < curr →
      checkFmt (window mem c (size - (c - kernel))) = .unknown

lemma IsPiggy.eq (h : IsPiggy mem kernel size curr)
    (h' : IsPiggy mem kernel size curr') : curr = curr' := by
  rcases lt_trichotomy curr curr' with hlt | heq | hgt
  · exact absurd (h'.2.2.2 curr h.1 hlt) h.2.2.1
  · exact heq
  · exact absurd (h.2.2.2 curr' h'.1 hgt) h'.2.2.1

section Search

/-- Nothing has a format before the place at which the search is. -/
lemma unknown_of_visited (h : Visited (searchStep mem kernel size) (kernel + 0x28) curr) :
    kernel + 0x28 ≤ curr ∧ ∀ c, kernel + 0x28 ≤ c → c < curr →
      checkFmt (window mem c (size - (c - kernel))) = .unknown := by
  refine h.invariant (P := fun curr => kernel + 0x28 ≤ curr ∧ ∀ c, kernel + 0x28 ≤ c → c < curr →
    checkFmt (window mem c (size - (c - kernel))) = .unknown) ⟨le_rfl, by omega⟩ ?_
  rintro curr next ⟨hle, hbefore⟩ hstep
  obtain ⟨rfl, hlt⟩ := searchStep_lt hstep
  refine ⟨by omega, fun c hc hnext => ?_⟩
  rcases Nat.lt_succ_iff_lt_or_eq.mp hnext with hlt' | rfl
  · exact hbefore c hc hlt'
  · rw [searchStep, if_pos hlt] at hstep
    obtain ⟨fmt, hfmt, hstep⟩ := bind_eq_ok.mp hstep
    split at hstep
    · cases hstep
    · rename_i hunknown
      obtain rfl := not_not.mp hunknown
      exact (fmtLgAt_eq_iff (by decide) (by decide)).mp hfmt

/-- What the search finds. -/
lemma searchPiggy_eq_some (h : searchPiggy mem kernel size = .ok (some curr)) :
    IsPiggy mem kernel size curr ∧ WalkEnds mem curr (size - (curr - kernel)) := by
  obtain ⟨c, hvisited, hlast⟩ := exists_of_loop_eq_ok h
  obtain ⟨hle, hbefore⟩ := unknown_of_visited hvisited
  rw [searchStep] at hlast
  split at hlast
  · rename_i hlt
    obtain ⟨fmt, hfmt, hlast⟩ := bind_eq_ok.mp hlast
    split at hlast
    · rename_i hne
      cases hlast
      refine ⟨⟨hle, hlt, fun hunknown => ?_, hbefore⟩, succeeds_fmtLgAt_iff.mp ⟨fmt, hfmt⟩⟩
      have hunknown' := (fmtLgAt_eq_iff (by decide) (by decide)).mpr hunknown
      exact hne (Except.ok.inj (hfmt.symm.trans hunknown'))
    · cases hlast
  · cases hlast

lemma searchPiggy_eq_none (h : searchPiggy mem kernel size = .ok none) :
    ¬IsPiggy mem kernel size curr := by
  obtain ⟨c, hvisited, hlast⟩ := exists_of_loop_eq_ok h
  obtain ⟨-, hbefore⟩ := unknown_of_visited hvisited
  rw [searchStep] at hlast
  split at hlast
  · obtain ⟨fmt, hfmt, hlast⟩ := bind_eq_ok.mp hlast
    split at hlast <;> cases hlast
  · rintro ⟨hle, hlt, hne, -⟩
    exact hne (hbefore curr hle (by omega))

/-- The search ends if the walk at the place that it looks for does. -/
lemma succeeds_searchPiggy
    (h : ∀ curr, IsPiggy mem kernel size curr → WalkEnds mem curr (size - (curr - kernel))) :
    Succeeds (searchPiggy mem kernel size) := by
  rw [searchPiggy, loop_succeeds_iff]
  intro curr hvisited
  obtain ⟨hle, hbefore⟩ := unknown_of_visited hvisited
  rw [searchStep, succeeds_ite]
  refine ⟨fun hlt => succeeds_bind_iff.mpr ⟨succeeds_fmtLgAt_iff.mpr fun hlz4 => ?_, ?_⟩,
    fun _ => succeeds_ok _⟩
  · have hne : checkFmt (window mem curr (size - (curr - kernel))) ≠ .unknown := by
      rw [hlz4]
      decide
    exact h curr ⟨hle, hlt, hne, hbefore⟩ hlz4
  · intro fmt _
    split <;> exact succeeds_ok _

end Search

section Bound

variable (mem) (kernel : Nat)

/-- The size of a zImage, from its header. -/
def zimageSize : Nat := u32At mem (kernel + 0x2c) - u32At mem (kernel + 0x28)

/-- The end of its compressed kernel, from the table at its end. -/
def zimageBound : Option Nat :=
  piggyEnd (window mem (kernel + zimageSize mem kernel - 64) 64) (zimageSize mem kernel - 0xff)
    (zimageSize mem kernel)

/-- The start of a zImage is not behind its end, the size is at least `0xff`, and the table is in
the mapping. -/
structure BoundSafe : Prop where
  header : kernel + 0x30 ≤ mem.length
  order : u32At mem (kernel + 0x28) ≤ u32At mem (kernel + 0x2c)
  size : 0xff ≤ zimageSize mem kernel
  table : kernel + zimageSize mem kernel ≤ mem.length

end Bound

lemma succeeds_piggyBound_iff : Succeeds (piggyBound mem kernel) ↔ BoundSafe mem kernel := by
  simp only [piggyBound, succeeds_loadU32_bind, succeeds_sub_bind, succeeds_load_bind,
    succeeds_ok, and_true, Nat.add_assoc, Nat.reduceAdd]
  constructor
  · rintro ⟨-, h₁, h₂, h₃, h₄, h₅⟩
    exact ⟨h₁, h₂, h₅, by rw [zimageSize]; omega⟩
  · rintro ⟨h₁, h₂, h₃, h₄⟩
    rw [zimageSize] at h₃ h₄
    omega

lemma piggyBound_eq_ok (h : piggyBound mem kernel = .ok bound) :
    bound = zimageBound mem kernel := by
  obtain ⟨hheader, horder, hsize, htable⟩ := succeeds_piggyBound_iff.mp ⟨bound, h⟩
  have hstart : loadU32 mem (kernel + 0x28) = .ok (u32At mem (kernel + 0x28)) :=
    congrArg (leNat <$> ·) (load_of_le (by omega))
  have hstop : loadU32 mem (kernel + 0x2c) = .ok (u32At mem (kernel + 0x2c)) :=
    congrArg (leNat <$> ·) (load_of_le (by omega))
  rw [piggyBound, hstart, ok_bind, hstop, ok_bind, sub, if_pos horder, ok_bind, sub,
    if_pos (by rw [zimageSize] at hsize; omega), ok_bind,
    load_of_le (by rw [zimageSize] at hsize htable; omega), ok_bind, sub,
    if_pos (by rw [zimageSize] at hsize; exact hsize), ok_bind] at h
  exact (Except.ok.inj h).symm

/-- A zImage is taken apart: the walk at its compressed kernel ends, the bound of that one can be
read, and a bound lies in the kernel and behind the header. -/
def ZimageSplits (mem : Str) (kernel size : Nat) : Prop :=
  ∀ curr, IsPiggy mem kernel size curr →
    WalkEnds mem curr (size - (curr - kernel)) ∧ BoundSafe mem kernel ∧
      ∀ e, zimageBound mem kernel = some e →
        e ≤ size ∧ curr - kernel ≤ e ∧ WalkEnds mem curr (e - (curr - kernel))

/-- What is left to do for a bound. -/
lemma succeeds_zimageBound_iff (hle : kernel ≤ curr) : Succeeds (match bound with
      | none => .ok { img with zHdr := ⟨kernel, curr - kernel⟩ }
      | some stop => do
          let _ ← lift (sub size stop)
          let newSz ← lift (sub stop (curr - kernel))
          let kFmt ← fmtLgAt mem (kernel + (curr - kernel)) newSz
          .ok (img.cutZimage (curr - kernel) stop kFmt)) ↔
      ∀ e, bound = some e →
        e ≤ size ∧ curr - kernel ≤ e ∧ WalkEnds mem curr (e - (curr - kernel)) := by
  cases bound with
  | none => simp
  | some e =>
    simp only [succeeds_lift_sub_bind, succeeds_bind_ok_iff, succeeds_fmtLgAt_iff,
      Nat.add_sub_cancel' hle, Option.some.injEq, forall_eq']

/-- **When a zImage is taken apart.** -/
lemma succeeds_splitZimage_iff :
    Succeeds (splitZimage mem img) ↔
      ZimageSplits mem (img.ptr .kernel) (img.size .kernel) := by
  rw [splitZimage]
  rw [succeeds_bind_iff]
  constructor
  · rintro ⟨⟨piggy, hpiggy⟩, hrest⟩ curr hcurr
    cases piggy with
    | none => exact absurd hcurr (searchPiggy_eq_none hpiggy)
    | some c =>
      obtain ⟨hc, hwalk⟩ := searchPiggy_eq_some hpiggy
      obtain rfl := hcurr.eq hc
      obtain ⟨⟨bound, hbound⟩, hlast⟩ := succeeds_bind_iff.mp (hrest _ hpiggy)
      have hok := lift_eq_ok.mp hbound
      refine ⟨hwalk, succeeds_piggyBound_iff.mp ⟨bound, hok⟩, ?_⟩
      rw [← piggyBound_eq_ok hok]
      exact (succeeds_zimageBound_iff (by have := hcurr.1; omega)).mp (hlast bound hbound)
  · intro h
    refine ⟨succeeds_searchPiggy fun curr hcurr => (h curr hcurr).1, fun piggy hpiggy => ?_⟩
    cases piggy with
    | none => exact succeeds_ok _
    | some curr =>
      have hcurr := (searchPiggy_eq_some hpiggy).1
      obtain ⟨-, hsafe, hbound⟩ := h curr hcurr
      refine succeeds_bind_iff.mpr
        ⟨succeeds_lift_iff.mpr (succeeds_piggyBound_iff.mpr hsafe), fun bound hok => ?_⟩
      rw [← piggyBound_eq_ok (lift_eq_ok.mp hok)] at hbound
      exact (succeeds_zimageBound_iff (by have := hcurr.1; omega)).mpr hbound

/-- Its parts follow each other. -/
lemma splitZimage_tiled (h : Plain start stop img)
    (hsplit : splitZimage mem img = .ok img') : Tiled start img'.kernelParts stop := by
  obtain ⟨piggy, -, hsplit⟩ := bind_eq_ok.mp hsplit
  cases piggy with
  | none =>
    cases hsplit
    exact h.zHdr _
  | some curr =>
    obtain ⟨bound, -, hsplit⟩ := bind_eq_ok.mp hsplit
    cases bound with
    | none =>
      cases hsplit
      exact h.zHdr _
    | some e =>
      obtain ⟨rest, hrest, hsplit⟩ := bind_eq_ok.mp hsplit
      obtain ⟨newSz, hnewSz, hsplit⟩ := bind_eq_ok.mp hsplit
      obtain ⟨kFmt, -, hsplit⟩ := bind_eq_ok.mp hsplit
      cases hsplit
      have hle : e ≤ img.size .kernel := succeeds_guard.mp ⟨rest, lift_eq_ok.mp hrest⟩
      have hhdr : curr - img.ptr .kernel ≤ e :=
        succeeds_guard.mp ⟨newSz, lift_eq_ok.mp hnewSz⟩
      exact cutZimage_parts h hhdr hle kFmt

/-! ### The kernel -/

lemma lift_sub_eq_ok : lift (sub a b) = .ok c ↔ b ≤ a ∧ c = a - b :=
  lift_eq_ok.trans sub_eq_ok

/-- What `splitFmt` finds. -/
lemma splitFmt_eq_ok : splitFmt mem img = .ok (mtk, fmt) ↔
      (mtk = false ∧ fmt ≠ .mtk ∧ fmtLgAt mem (img.ptr .kernel) (img.size .kernel) = .ok fmt) ∨
      (mtk = true ∧ fmtLgAt mem (img.ptr .kernel) (img.size .kernel) = .ok .mtk ∧
        mtkHdrSz ≤ img.size .kernel ∧
        fmtLgAt mem (img.ptr .kernel + mtkHdrSz) (img.size .kernel - mtkHdrSz) = .ok fmt) :=
  mtkFmt_eq_ok lift_sub_eq_ok

/-- A kernel without a device tree is taken apart: its walks end, the header of a MediaTek kernel
fits, and so is a zImage. -/
structure PlainSplits (mem : Str) (p n : Nat) : Prop where
  walk : WalkEnds mem p n
  mtk : checkFmt (window mem p n) = .mtk →
    mtkHdrSz ≤ n ∧ WalkEnds mem (p + mtkHdrSz) (n - mtkHdrSz)
  zimage : checkFmt (window mem p n) = .zimage → ZimageSplits mem p n
  mtkZimage : checkFmt (window mem p n) = .mtk →
    checkFmt (window mem (p + mtkHdrSz) (n - mtkHdrSz)) = .zimage →
      ZimageSplits mem (p + mtkHdrSz) (n - mtkHdrSz)

lemma fmtLgAt_mtk : fmtLgAt mem p n = .ok .mtk ↔ checkFmt (window mem p n) = .mtk :=
  fmtLgAt_eq_iff (by decide) (by decide)

lemma fmtLgAt_zimage : fmtLgAt mem p n = .ok .zimage ↔ checkFmt (window mem p n) = .zimage :=
  fmtLgAt_eq_iff (by decide) (by decide)

lemma succeeds_splitPlain_iff :
    Succeeds (do
      let fmt ← splitFmt mem img
      let img := img.withKernelFmt fmt
      if img.kFmt = .zimage then splitZimage mem img else .ok img) ↔
      PlainSplits mem (img.ptr .kernel) (img.size .kernel) := by
  refine
    (succeeds_mtkKernel_iff lift_sub_eq_ok (fun _ => succeeds_splitZimage_iff) rfl rfl).trans ?_
  rw [succeeds_mtkFmt_iff lift_sub_eq_ok]
  simp only [succeeds_fmtLgAt_iff, fmtLgAt_mtk, fmtLgAt_zimage]
  exact ⟨fun h => ⟨h.1.1, h.1.2, h.2.1, fun hmtk => h.2.2 hmtk (h.1.2 hmtk).1⟩,
    fun h => ⟨⟨h.1, h.2⟩, h.3, fun hmtk _ => h.4 hmtk⟩⟩

/-- A kernel is taken apart: the search for a device tree reads the mapping only, and so is what
comes before a device tree that it finds. -/
@[mk_iff]
structure KernelSplits (mem : Str) (p n : Nat) : Prop where
  dtb : ∀ q, Examined mem p n q → ReadBefore mem q (p + n) mem.length
  plain : ∀ d, dtbOffset mem p n = .ok d → PlainSplits mem p (kernelCut n d)

lemma dtbOffset_le (h : dtbOffset mem p n = .ok d) : ∀ off, d = some off → off ≤ n := by
  rintro off rfl
  rw [dtbOffset] at h
  split at h
  · rename_i d hd
    cases h
    have hle := findDtbOffset_le hd
    omega
  · cases h
  · cases h

lemma succeeds_dtbOffset_iff (hin : p + n ≤ mem.length) :
    Succeeds (dtbOffset mem p n) ↔
      ∀ q, Examined mem p n q → ReadBefore mem q (p + n) mem.length := by
  rw [← findDtbOffset_ne_outOfBounds_iff hin, dtbOffset]
  split
  · rename_i hd
    rw [hd]
    exact iff_of_true (succeeds_ok _) nofun
  · rename_i hd
    rw [hd]
    exact iff_of_false (not_succeeds_error _) (not_not.mpr rfl)
  · rename_i hne hd
    rw [hd]
    exact iff_of_true (succeeds_ok _) fun h => hne (Except.error.inj h)

/-- **When the kernel is taken apart.** -/
lemma succeeds_splitKernel_iff (hin : img.ptr .kernel + img.size .kernel ≤ mem.length) :
    Succeeds (splitKernel mem img) ↔
      (img.size .kernel ≠ 0 → KernelSplits mem (img.ptr .kernel) (img.size .kernel)) := by
  rw [splitKernel, succeeds_ite]
  simp only [succeeds_ok, implies_true, true_and]
  refine forall_congr' fun hn => ?_
  rw [kernelSplits_iff, ← succeeds_dtbOffset_iff hin]
  refine succeeds_bind_congr fun d hd => ?_
  obtain ⟨hsize, hptr⟩ := cutDtb_size (dtbOffset_le hd)
  rw [succeeds_splitPlain_iff, hsize, hptr]

/-- If it is, its parts follow each other. -/
lemma splitKernel_tiled (h : Untouched img) (hsplit : splitKernel mem img = .ok img') :
    Tiled (img.ptr .kernel) img'.kernelParts (img.ptr .kernel + img.size .kernel) := by
  rw [splitKernel] at hsplit
  split at hsplit
  · cases hsplit
    exact h.kernelParts
  · obtain ⟨d, hd, hsplit⟩ := bind_eq_ok.mp hsplit
    obtain ⟨fmt, hfmt, hsplit⟩ := bind_eq_ok.mp hsplit
    have hwhole := whole_cutDtb h (dtbOffset_le hd)
    have hmtk : fmt.1 = true → mtkHdrSz ≤ (img.cutDtb d).size .kernel := by
      intro hmtk
      rcases splitFmt_eq_ok.mp hfmt with ⟨hfalse, -, -⟩ | ⟨-, -, hle, -⟩
      · rw [hmtk] at hfalse
        cases hfalse
      · exact hle
    have hplain := plain_withKernelFmt hwhole hmtk
    dsimp only at hsplit
    split at hsplit
    · exact splitZimage_tiled hplain hsplit
    · cases hsplit
      exact hplain.parts

/-! ### The parser's model -/

section Parser

lemma fmtLgAt_of_checkFmtLg (hin : p + n ≤ mem.length) (h : checkFmtLg mem p n = .ok fmt) :
    fmtLgAt mem p n = .ok fmt := by
  obtain ⟨k, hk⟩ := exists_checkFmtLgIn hin h
  rw [checkFmtLgIn] at hk
  rw [fmtLgAt, checkFmtLgIn]
  split at hk
  · rw [if_pos ‹_›, turns_of_returns (length_window hin).le ⟨k, hk⟩]
  · rw [if_neg ‹_›, Option.some.inj hk]

lemma splitFmt_of_blockFmt {fmt : Bool × FileFormat}
    (hin : img.ptr .kernel + img.size .kernel ≤ mem.length)
    (h : blockFmt mem img .kernel = .ok fmt) :
    splitFmt mem img = .ok fmt := by
  refine splitFmt_eq_ok.mpr ((blockFmt_eq_ok.mp h).imp ?_ ?_)
  · exact fun ⟨hmtk, hne, hfmt⟩ => ⟨hmtk, hne, fmtLgAt_of_checkFmtLg hin hfmt⟩
  · exact fun ⟨hmtk, houter, hle, hfmt⟩ => ⟨hmtk, fmtLgAt_of_checkFmtLg hin houter, hle,
      fmtLgAt_of_checkFmtLg (by omega) hfmt⟩

lemma searchPiggy_of_findPiggy (hin : kernel + size ≤ mem.length)
    (h : findPiggy mem kernel size = .ok piggy) : searchPiggy mem kernel size = .ok piggy := by
  refine loop_eq_ok_of_step (P := (kernel ≤ ·)) ?_ ?_ (by omega) h
  · intro curr x hle hstep
    rw [piggyStep] at hstep
    rw [searchStep]
    split at hstep
    · rename_i hlt
      obtain ⟨fmt, hfmt, hstep⟩ := bind_eq_ok.mp hstep
      rw [if_pos hlt, fmtLgAt_of_checkFmtLg (by omega) hfmt, ok_bind]
      split at hstep
      · rw [if_pos ‹_›, Except.ok.inj hstep]
      · rw [if_neg ‹_›, Except.ok.inj hstep]
    · rw [if_neg ‹_›, Except.ok.inj hstep]
  · intro curr next hle hstep
    have hlt := piggyStep_lt hstep
    omega

lemma findPiggyEnd_eq (mem : Str) (kernel size hdrSz : Nat) : findPiggyEnd mem kernel size hdrSz =
    piggyBound mem kernel >>= piggyFmt mem kernel size hdrSz := by
  simp [findPiggyEnd, piggyBound, ok_bind]

lemma splitZimage_of_parseZimage (hin : img.ptr .kernel + img.size .kernel ≤ mem.length)
    (h : parseZimage mem img = .ok img') : splitZimage mem img = .ok img' := by
  obtain ⟨piggy, hpiggy, h⟩ := bind_eq_ok.mp h
  refine bind_eq_ok.mpr ⟨piggy, searchPiggy_of_findPiggy hin hpiggy, ?_⟩
  cases piggy with
  | none =>
    cases h
    rfl
  | some curr =>
    obtain ⟨found, hfound, h⟩ := bind_eq_ok.mp h
    rw [findPiggyEnd_eq] at hfound
    obtain ⟨bound, hbound, hfound⟩ := bind_eq_ok.mp hfound
    refine bind_eq_ok.mpr ⟨bound, lift_eq_ok.mpr hbound, ?_⟩
    cases bound with
    | none =>
      cases hfound
      cases h
      rfl
    | some e =>
      obtain ⟨rest, hrest, hfound⟩ := bind_eq_ok.mp hfound
      obtain ⟨newSz, hnewSz, hfound⟩ := bind_eq_ok.mp hfound
      obtain ⟨kFmt, hkFmt, hfound⟩ := bind_eq_ok.mp hfound
      cases hfound
      have hsize : e ≤ img.size .kernel := succeeds_guard.mp ⟨rest, hrest⟩
      have hhdr : curr - img.ptr .kernel ≤ e := succeeds_guard.mp ⟨newSz, hnewSz⟩
      obtain rfl : e - (curr - img.ptr .kernel) = newSz := by
        rw [sub, if_pos hhdr] at hnewSz
        exact Except.ok.inj hnewSz
      refine bind_eq_ok.mpr ⟨rest, lift_eq_ok.mpr hrest, ?_⟩
      refine bind_eq_ok.mpr ⟨_, lift_eq_ok.mpr hnewSz, ?_⟩
      cases h
      exact bind_eq_ok.mpr ⟨kFmt, fmtLgAt_of_checkFmtLg (by omega) hkFmt, rfl⟩

/-- **Where the parser's model takes the kernel apart**, it does as the source. -/
theorem splitKernel_of_parseKernel (hin : img.ptr .kernel + img.size .kernel ≤ mem.length)
    (h : parseKernel mem img = .ok img') : splitKernel mem img = .ok img' := by
  rw [parseKernel] at h
  rw [splitKernel]
  split at h
  · rw [if_pos ‹_›, Except.ok.inj h]
  · rename_i hn
    rw [if_neg hn]
    obtain ⟨d, hd, h⟩ := bind_eq_ok.mp h
    obtain ⟨fmt, hfmt, h⟩ := bind_eq_ok.mp h
    have hoff : dtbOffset mem (img.ptr .kernel) (img.size .kernel) = .ok d := by
      rw [dtbOffset, hd]
    have hcut := dtbOffset_le hoff
    obtain ⟨hsize, hptr⟩ := cutDtb_size hcut
    have hin' : (img.cutDtb d).ptr .kernel + (img.cutDtb d).size .kernel ≤ mem.length := by
      have hle : kernelCut (img.size .kernel) d ≤ img.size .kernel := by
        rcases d with _ | _ | off
        · exact le_rfl
        · exact le_rfl
        · exact hcut _ rfl
      rw [hptr]
      omega
    refine bind_eq_ok.mpr ⟨d, hoff, bind_eq_ok.mpr ⟨fmt, splitFmt_of_blockFmt hin' hfmt, ?_⟩⟩
    dsimp only at h ⊢
    split at h
    · rename_i hz
      rw [if_pos hz]
      refine splitZimage_of_parseZimage ?_ h
      have hnarrow := withKernelFmt_narrowed hfmt
      have hstop := hnarrow.stop
      omega
    · rw [if_neg ‹_›, Except.ok.inj h]

end Parser

/-! ### The parts of the kernel -/

/-- **When the kernel handling takes the kernel apart** into adjacent parts that are together all of
it, without a size below zero. -/
theorem splitKernel_tiled_iff {img : BootImg} (h : Untouched img)
    (hin : img.ptr .kernel + img.size .kernel ≤ mem.length) :
    (∃ img', splitKernel mem img = .ok img' ∧
      Tiled (img.ptr .kernel) img'.kernelParts (img.ptr .kernel + img.size .kernel) ∧
      img'.kernelParts.flatMap (·.bytes mem) = window mem (img.ptr .kernel) (img.size .kernel)) ↔
      (img.size .kernel ≠ 0 → KernelSplits mem (img.ptr .kernel) (img.size .kernel)) := by
  rw [← succeeds_splitKernel_iff hin]
  refine exists_congr fun img' => and_iff_left_of_imp fun hsplit => ?_
  have htiled := splitKernel_tiled h hsplit
  refine ⟨htiled, ?_⟩
  rw [htiled.bytes, Nat.add_sub_cancel_left]

/-- An image with a kernel at the start of the mapping. -/
def kernelOnly (size : Nat) : BootImg where
  hdr := (⟨.pxa, List.replicate 1640 0, List.length_replicate⟩ : ImgHdr).set .kernelSize size
  flags := {}
  payload := {}
  tail := {}
  ptr _ := 0

lemma size_kernelOnly (h : size < 2 ^ 32) : (kernelOnly size).size .kernel = size :=
  ImgHdr.get_set_self (f := .kernelSize) (h := ⟨.pxa, List.replicate 1640 0, List.length_replicate⟩)
    rfl h

lemma untouched_kernelOnly (size : Nat) : Untouched (kernelOnly size) := ⟨rfl, rfl, rfl, rfl⟩

/-- A kernel of four bytes without a format. -/
theorem splitKernel_tiled_four : ∃ img', splitKernel [1, 2, 3, 4] (kernelOnly 4) = .ok img' ∧
    Tiled 0 img'.kernelParts 4 ∧
    img'.kernelParts.flatMap (·.bytes [1, 2, 3, 4]) = [1, 2, 3, 4] := by
  have hsize : (kernelOnly 4).size .kernel = 4 := size_kernelOnly (by decide)
  have hin : (kernelOnly 4).ptr .kernel + (kernelOnly 4).size .kernel ≤
      ([1, 2, 3, 4] : Str).length := by
    decide
  have hsplit := (splitKernel_tiled_iff (untouched_kernelOnly 4) hin).mpr ?_
  · rw [hsize] at hsplit
    exact hsplit
  · intro _
    rw [hsize]
    have hnone : memmem [1, 2, 3, 4] 0 (0 + 4) dtbMagic = none := by decide
    have hexamined : ∀ q, ¬Examined [1, 2, 3, 4] 0 4 q := by
      intro q hq
      induction hq with
      | first h => cases hnone.symm.trans h
      | next _ _ _ ih => exact ih
    have hfind : findDtbOffset [1, 2, 3, 4] 0 4 = .ok none := by
      have hstep : findDtbStep [1, 2, 3, 4] 0 4 0 = .ok (.inr none) := by decide
      rw [findDtbOffset, loop_eq, hstep]
    have hunknown : checkFmt (window [1, 2, 3, 4] 0 4) = .unknown := by decide
    refine ⟨fun q hq => absurd hq (hexamined q), fun d hd => ?_⟩
    obtain rfl : none = d := by
      rw [show (kernelOnly 4).ptr .kernel = 0 from rfl, dtbOffset, hfind] at hd
      exact Except.ok.inj hd
    refine ⟨fun h => ?_, fun h => ?_, fun h => ?_, fun h => ?_⟩ <;> cases hunknown.symm.trans h

/-- A kernel of eight bytes that starts like one of MediaTek: the size of its header is more. -/
theorem splitKernel_mtk :
    Untouched (kernelOnly 8) ∧ (kernelOnly 8).size .kernel = 8 ∧
      splitKernel (mtkMagic ++ [0, 0, 0, 0]) (kernelOnly 8) = .error (.fault .wrap) := by
  have hsize : (kernelOnly 8).size .kernel = 8 := size_kernelOnly (by decide)
  refine ⟨untouched_kernelOnly 8, hsize, ?_⟩
  have hptr : (kernelOnly 8).ptr .kernel = 0 := rfl
  have hdtb : dtbOffset (mtkMagic ++ [0, 0, 0, 0]) 0 8 = .ok none := by
    have hfind : findDtbOffset (mtkMagic ++ [0, 0, 0, 0]) 0 8 = .ok none := by
      have hstep : findDtbStep (mtkMagic ++ [0, 0, 0, 0]) 0 8 0 = .ok (.inr none) := by decide
      rw [findDtbOffset, loop_eq, hstep]
    rw [dtbOffset, hfind]
  rw [splitKernel, hsize, hptr, hdtb]
  rfl

end Magisk.Boot
