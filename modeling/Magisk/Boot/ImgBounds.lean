import Magisk.Boot.ImgReads

/-!
# When an image is parsed without a fault

What each part of the parser asks of the file, and where the blocks of an accepted image are.

* `KernelSafe`, `RamdiskSafe`, `FooterSafe`: looking at the blocks;
* `Narrowed`: what is left of a block lies in it;
* `ImageSafe`, `succeeds_parseImage_iff`: an image at an address;
* `InPlace`, `inPlace_of_accepted`: the blocks of an accepted image lie in the mapping, in order;
* `sound_iff`: the constructor accepts or rejects a file, and does so without a fault, if and only
  if the addresses that it visits are safe.
-/

namespace Magisk.Boot

open Magisk.Base Magisk.Lib List Function

variable {mem : Str} {img img' : BootImg} {verify : Str → Str → Bool} {type : FileFormat}
  {b : Block}

/-! ### What the kernel is searched for -/

/-- What is read of a device tree at a position lies in the mapping, and its offset is an
`int`. -/
def DtbSafeAt (mem : Str) (buf sz p : Nat) : Prop :=
  let totalsize := beAt mem (p + 4) 4
  let offDtStruct := beAt mem (p + 8) 4
  p + 8 ≤ mem.length ∧ (totalsize ≤ buf + sz - p → 0x48 < totalsize →
    p + 12 ≤ mem.length ∧ (offDtStruct ≤ buf + sz - p →
      p + offDtStruct + 4 ≤ mem.length ∧ (beAt mem (p + offDtStruct) 4 = 1 → p - buf < 2 ^ 31)))

/-- `find_dtb_offset` is safe: so is each magic number that it finds. -/
def DtbSafe (mem : Str) (buf sz : Nat) : Prop :=
  ∀ curr, Visited (findDtbStep mem buf sz) buf curr → curr < buf + sz →
    ∀ p, memmem mem curr (buf + sz) dtbMagic = some p → DtbSafeAt mem buf sz p

variable {buf sz kernel addr : Nat} {hdr : ImgHdr} {flags : Flags}

lemma succeeds_findDtbStep_iff : Succeeds (findDtbStep mem buf sz curr) ↔
      (curr < buf + sz → ∀ p, memmem mem curr (buf + sz) dtbMagic = some p →
        DtbSafeAt mem buf sz p) := by
  rw [findDtbStep]
  cases hfind : memmem mem curr (buf + sz) dtbMagic with
  | none => simp
  | some p =>
    simp [DtbSafeAt, succeeds_loadBE_bind, succeeds_ite]

lemma succeeds_findDtbOffset_iff : Succeeds (findDtbOffset mem buf sz) ↔ DtbSafe mem buf sz := by
  rw [findDtbOffset, loop_succeeds_iff]
  exact forall_congr' fun curr => forall_congr' fun _ => succeeds_findDtbStep_iff

/-- What is read for the end of a compressed kernel lies in the mapping, the differences do not
wrap around, and an end that is found lies in the kernel and after the header. -/
def PiggyEndSafe (mem : Str) (kernel size hdrSz : Nat) : Prop :=
  let start := u32At mem (kernel + 0x28)
  let stop := u32At mem (kernel + 0x2c)
  let piggySize := stop - start
  kernel + 0x30 ≤ mem.length ∧ start ≤ stop ∧ 64 ≤ kernel + piggySize ∧
    kernel + piggySize ≤ mem.length ∧ 0xff ≤ piggySize ∧
    ∀ e, piggyEnd (window mem (kernel + piggySize - 64) 64) (piggySize - 0xff) piggySize = some e →
      e ≤ size ∧ hdrSz ≤ e ∧ FmtLgSafe mem (kernel + hdrSz) (e - hdrSz)

lemma succeeds_findPiggyEnd_iff {hdrSz} :
    Succeeds (findPiggyEnd mem kernel size hdrSz) ↔ PiggyEndSafe mem kernel size hdrSz := by
  have hfmt : ∀ o : Option Nat, Succeeds (piggyFmt mem kernel size hdrSz o) ↔
      ∀ e, o = some e → e ≤ size ∧ hdrSz ≤ e ∧ FmtLgSafe mem (kernel + hdrSz) (e - hdrSz) := by
    intro o
    cases o with
    | none => simp [piggyFmt]
    | some e =>
      simp [piggyFmt, succeeds_sub_bind, succeeds_bind_ok_iff, succeeds_checkFmtLg_iff]
  simp only [findPiggyEnd, PiggyEndSafe, succeeds_loadU32_bind, succeeds_sub_bind,
    succeeds_load_bind, hfmt, Nat.add_assoc, Nat.reduceAdd]
  constructor
  · rintro ⟨-, h₁, h₂, h₃, h₄, h₅, h₆⟩
    exact ⟨h₁, h₂, h₃, by omega, h₅, h₆⟩
  · rintro ⟨h₁, h₂, h₃, h₄, h₅, h₆⟩
    exact ⟨by omega, h₁, h₂, h₃, by omega, h₅, h₆⟩

/-- `parse_zimage` is safe: so is each place at which it looks for the compressed kernel, and the
search for its end. -/
structure ZimageSafe (mem : Str) (kernel size : Nat) : Prop where
  search : ∀ curr, Visited (piggyStep mem kernel size) (kernel + 0x28) curr →
    curr < kernel + size → FmtLgSafe mem curr (size - (curr - kernel))
  found : ∀ curr, findPiggy mem kernel size = .ok (some curr) →
    PiggyEndSafe mem kernel size (curr - kernel)

lemma succeeds_piggyStep_iff : Succeeds (piggyStep mem kernel size curr) ↔
      (curr < kernel + size → FmtLgSafe mem curr (size - (curr - kernel))) := by
  rw [piggyStep, succeeds_ite]
  simp only [succeeds_ok, implies_true, and_true]
  refine forall_congr' fun _ => ?_
  rw [succeeds_bind_iff, succeeds_checkFmtLg_iff]
  refine and_iff_left fun fmt _ => ?_
  split <;> exact succeeds_ok _

lemma succeeds_parseZimage_iff :
    Succeeds (parseZimage mem img) ↔ ZimageSafe mem (img.ptr .kernel) (img.size .kernel) := by
  have hsearch : Succeeds (findPiggy mem (img.ptr .kernel) (img.size .kernel)) ↔
      ∀ curr, Visited (piggyStep mem (img.ptr .kernel) (img.size .kernel))
        (img.ptr .kernel + 0x28) curr → curr < img.ptr .kernel + img.size .kernel →
          FmtLgSafe mem curr (img.size .kernel - (curr - img.ptr .kernel)) := by
    rw [findPiggy, loop_succeeds_iff]
    exact forall_congr' fun curr => forall_congr' fun _ => succeeds_piggyStep_iff
  rw [parseZimage, succeeds_bind_iff, hsearch]
  constructor
  · rintro ⟨hsearch, hrest⟩
    refine ⟨hsearch, fun curr hcurr => ?_⟩
    have hend := hrest (some curr) hcurr
    simp only [succeeds_bind_iff] at hend
    exact succeeds_findPiggyEnd_iff.mp hend.1
  · rintro ⟨hsearch, hfound⟩
    refine ⟨hsearch, fun piggy hpiggy => ?_⟩
    cases piggy with
    | none => exact succeeds_ok _
    | some curr =>
      refine succeeds_bind_iff.mpr ⟨succeeds_findPiggyEnd_iff.mpr (hfound curr hpiggy), ?_⟩
      intro stop _
      cases stop <;> exact succeeds_ok _

/-! ### Sizes of blocks -/

section Sizes

variable {c : Block} {v : Nat}

lemma sizeField_injective : Function.Injective Block.sizeField := by
  intro b c h
  cases b <;> cases c <;> first | rfl | cases h

lemma BootImg.size_lt (img : BootImg) (b : Block) : img.size b < 2 ^ 32 := img.hdr.get_lt _

lemma exists_offset_of_size (h : img.size b ≠ 0) :
    ∃ o, img.hdr.cls.offset b.sizeField = some o := by
  cases ho : img.hdr.cls.offset b.sizeField with
  | some o => exact ⟨o, rfl⟩
  | none =>
    refine absurd ?_ h
    rw [BootImg.size, ImgHdr.get_of_none ho]
    cases b <;> cases img.hdr.cls <;> rfl

lemma size_setSize_self (h : img.size b ≠ 0) (hv : v < 2 ^ 32) : (img.setSize b v).size b = v := by
  obtain ⟨o, ho⟩ := exists_offset_of_size h
  exact ImgHdr.get_set_self ho hv

lemma size_setSize_le (hv : v < 2 ^ 32) :
    (img.setSize b v).size b ≤ v := by
  cases ho : img.hdr.cls.offset b.sizeField with
  | some o => exact (ImgHdr.get_set_self ho hv).le
  | none =>
    have hzero : img.size b = 0 := by
      by_contra hne
      obtain ⟨o, ho'⟩ := exists_offset_of_size hne
      cases ho.symm.trans ho'
    rw [BootImg.setSize, ImgHdr.set_of_none ho]
    exact hzero.trans_le (Nat.zero_le v)

lemma size_setSize_of_le (hv : v ≤ img.size b) : (img.setSize b v).size b = v := by
  have hlt := img.size_lt b
  by_cases hzero : img.size b = 0
  · have hle : (img.setSize b v).size b ≤ v := size_setSize_le (by omega)
    omega
  · exact size_setSize_self hzero (by omega)

end Sizes

/-! ### The kernel -/

/-- The size of a kernel without the device tree that was found in it. -/
def kernelCut (n : Nat) : Option Nat → Nat
  | some (off + 1) => off + 1
  | _ => n

/-- A device tree that is found lies in the kernel. -/
lemma findDtbOffset_le (h : findDtbOffset mem buf sz = .ok (some off)) : off + 4 ≤ sz := by
  obtain ⟨curr, hvisited, hstep⟩ := exists_of_loop_eq_ok h
  have hcurr : buf ≤ curr :=
    hvisited.invariant (P := (buf ≤ ·)) le_rfl fun s t hs hst => by
      have := findDtbStep_lt hst
      omega
  rw [findDtbStep] at hstep
  split at hstep
  · split at hstep
    · cases hstep
    · rename_i p hp
      obtain ⟨hle, hend, -⟩ := memmem_le hp
      have hlen : dtbMagic.length = 4 := rfl
      have hoff : off = p - buf := by
        obtain ⟨totalsize, -, hstep⟩ := bind_eq_ok.mp hstep
        split at hstep
        · cases hstep
        · obtain ⟨offDtStruct, -, hstep⟩ := bind_eq_ok.mp hstep
          split at hstep
          · cases hstep
          · obtain ⟨tag, -, hstep⟩ := bind_eq_ok.mp hstep
            split at hstep
            · cases hstep
            · split at hstep
              · cases hstep
              · exact (Option.some.inj (Sum.inr.inj (Except.ok.inj hstep))).symm
      omega
  · cases hstep

lemma cutDtb_size (hd : ∀ off, d = some off → off ≤ img.size .kernel) :
    (img.cutDtb d).size .kernel = kernelCut (img.size .kernel) d ∧
      (img.cutDtb d).ptr = img.ptr := by
  match d with
  | none => exact ⟨rfl, rfl⟩
  | some 0 => exact ⟨rfl, rfl⟩
  | some (off + 1) => exact ⟨size_setSize_of_le (hd _ rfl), rfl⟩

lemma cutMtk_self (h : mtkHdrSz ≤ img.size b) :
    (img.cutMtk b).size b = img.size b - mtkHdrSz ∧
      (img.cutMtk b).ptr b = img.ptr b + mtkHdrSz := by
  have hlt := img.size_lt b
  have hpos : img.size b ≠ 0 := by
    rw [mtkHdrSz] at h
    omega
  refine ⟨size_setSize_self hpos (by omega), ?_⟩
  exact update_self b _ _

section Mtk

variable {ε : Type} {check : Nat → Nat → Except ε FileFormat} {cut : Nat → Nat → Except ε Nat}
  {p n : Nat}

/-- The format of a block, after the header of a MediaTek block, for any way to find formats and
differences. -/
def mtkFmt (check : Nat → Nat → Except ε FileFormat) (cut : Nat → Nat → Except ε Nat) (p n : Nat) :
    Except ε (Bool × FileFormat) := do
  let fmt ← check p n
  if fmt = .mtk then
    let size ← cut n mtkHdrSz
    let fmt ← check (p + mtkHdrSz) size
    .ok (true, fmt)
  else .ok (false, fmt)

variable (hcut : ∀ {a b c : Nat}, cut a b = .ok c ↔ b ≤ a ∧ c = a - b)

include hcut

lemma mtkFmt_eq_ok : mtkFmt check cut p n = .ok (mtk, fmt) ↔
      (mtk = false ∧ fmt ≠ .mtk ∧ check p n = .ok fmt) ∨
      (mtk = true ∧ check p n = .ok .mtk ∧ mtkHdrSz ≤ n ∧
        check (p + mtkHdrSz) (n - mtkHdrSz) = .ok fmt) := by
  constructor
  · intro h
    obtain ⟨outer, houter, h⟩ := bind_eq_ok.mp h
    split at h
    · rename_i hmtk
      obtain ⟨size, hsize, h⟩ := bind_eq_ok.mp h
      obtain ⟨inner, hinner, h⟩ := bind_eq_ok.mp h
      obtain ⟨hle, heq⟩ := hcut.mp hsize
      cases h
      exact .inr ⟨rfl, hmtk ▸ houter, hle, heq ▸ hinner⟩
    · cases h
      exact .inl ⟨rfl, ‹_›, houter⟩
  · rintro (⟨rfl, hne, hfmt⟩ | ⟨rfl, hmtk, hle, hfmt⟩)
    · exact bind_eq_ok.mpr ⟨fmt, hfmt, if_neg hne⟩
    · refine bind_eq_ok.mpr ⟨.mtk, hmtk, (if_pos rfl).trans ?_⟩
      exact bind_eq_ok.mpr ⟨_, hcut.mpr ⟨hle, rfl⟩, bind_eq_ok.mpr ⟨fmt, hfmt, rfl⟩⟩

lemma succeeds_mtkFmt_iff : Succeeds (mtkFmt check cut p n) ↔ Succeeds (check p n) ∧
    (check p n = .ok .mtk → mtkHdrSz ≤ n ∧ Succeeds (check (p + mtkHdrSz) (n - mtkHdrSz))) := by
  constructor
  · rintro ⟨⟨mtk, fmt⟩, h⟩
    rcases (mtkFmt_eq_ok hcut).mp h with ⟨-, hne, hfmt⟩ | ⟨-, hmtk, hle, hfmt⟩
    · exact ⟨⟨fmt, hfmt⟩, fun hmtk => absurd (Except.ok.inj (hfmt.symm.trans hmtk)) hne⟩
    · exact ⟨⟨.mtk, hmtk⟩, fun _ => ⟨hle, fmt, hfmt⟩⟩
  · rintro ⟨⟨fmt, hfmt⟩, hrest⟩
    by_cases hmtk : fmt = .mtk
    · subst hmtk
      obtain ⟨hle, inner, hinner⟩ := hrest hfmt
      exact ⟨_, (mtkFmt_eq_ok hcut).mpr (.inr ⟨rfl, hfmt, hle, hinner⟩)⟩
    · exact ⟨_, (mtkFmt_eq_ok hcut).mpr (.inl ⟨rfl, hmtk, hfmt⟩)⟩

/-- What comes after the format of a kernel: a zImage is looked at. -/
lemma succeeds_mtkKernel_iff {zimage : BootImg → Except ε BootImg} {Safe : Nat → Nat → Prop}
    (hzimage : ∀ img, Succeeds (zimage img) ↔ Safe (img.ptr .kernel) (img.size .kernel))
    (hp : img.ptr .kernel = p) (hn : img.size .kernel = n) :
    Succeeds (do
      let fmt ← mtkFmt check cut p n
      let img := img.withKernelFmt fmt
      if img.kFmt = .zimage then zimage img else .ok img) ↔
      Succeeds (mtkFmt check cut p n) ∧ (check p n = .ok .zimage → Safe p n) ∧
        (check p n = .ok .mtk → mtkHdrSz ≤ n →
          check (p + mtkHdrSz) (n - mtkHdrSz) = .ok .zimage →
            Safe (p + mtkHdrSz) (n - mtkHdrSz)) := by
  subst hp hn
  have hite : ∀ img : BootImg, Succeeds (if img.kFmt = .zimage then zimage img else .ok img) ↔
      (img.kFmt = .zimage → Safe (img.ptr .kernel) (img.size .kernel)) := by
    intro img
    rw [succeeds_ite, hzimage]
    exact and_iff_left fun _ => succeeds_ok img
  rw [succeeds_bind_iff]
  refine and_congr_right fun _ => ⟨fun hrest => ⟨fun hz => ?_, fun hmtk hle hz => ?_⟩, ?_⟩
  · have hparse := hrest (false, .zimage) ((mtkFmt_eq_ok hcut).mpr (.inl ⟨rfl, by decide, hz⟩))
    exact (hite (img.withKernelFmt (false, .zimage))).mp hparse rfl
  · have hparse := hrest (true, .zimage) ((mtkFmt_eq_ok hcut).mpr (.inr ⟨rfl, hmtk, hle, hz⟩))
    obtain ⟨hsize, hptr⟩ := cutMtk_self hle
    rw [← hsize]
    exact (hite (img.withKernelFmt (true, .zimage))).mp hparse rfl
  · rintro ⟨hsafe, hmtkSafe⟩ ⟨mtk, fmt⟩ hb
    refine (hite _).mpr ?_
    rcases (mtkFmt_eq_ok hcut).mp hb with ⟨rfl, -, hf⟩ | ⟨rfl, hmtk, hle, hf⟩
    · rintro (rfl : fmt = .zimage)
      exact hsafe hf
    · rintro (rfl : fmt = .zimage)
      obtain ⟨hsize, hptr⟩ := cutMtk_self hle
      have hz := hmtkSafe hmtk hle hf
      rw [← hsize] at hz
      exact hz

end Mtk

/-- The format of a block is safe: so is the one after the header of a MediaTek block, which the
block is large enough for. -/
structure BlockFmtSafe (mem : Str) (p n : Nat) : Prop where
  fmt : FmtLgSafe mem p n
  mtk : checkFmtLg mem p n = .ok .mtk → mtkHdrSz ≤ n ∧ FmtLgSafe mem (p + mtkHdrSz) (n - mtkHdrSz)

lemma succeeds_blockFmt_iff :
    Succeeds (blockFmt mem img b) ↔ BlockFmtSafe mem (img.ptr b) (img.size b) := by
  refine (succeeds_mtkFmt_iff sub_eq_ok).trans ?_
  simp only [succeeds_checkFmtLg_iff]
  exact ⟨fun h => ⟨h.1, h.2⟩, fun h => ⟨h.1, h.2⟩⟩

/-- What `blockFmt` finds. -/
lemma blockFmt_eq_ok : blockFmt mem img b = .ok (mtk, fmt) ↔
      (mtk = false ∧ fmt ≠ .mtk ∧ checkFmtLg mem (img.ptr b) (img.size b) = .ok fmt) ∨
      (mtk = true ∧ checkFmtLg mem (img.ptr b) (img.size b) = .ok .mtk ∧ mtkHdrSz ≤ img.size b ∧
        checkFmtLg mem (img.ptr b + mtkHdrSz) (img.size b - mtkHdrSz) = .ok fmt) :=
  mtkFmt_eq_ok sub_eq_ok

/-- A kernel without a device tree is safe: its format, and what is inside of a zImage. -/
structure PlainKernelSafe (mem : Str) (p n : Nat) : Prop where
  fmt : BlockFmtSafe mem p n
  zimage : checkFmtLg mem p n = .ok .zimage → ZimageSafe mem p n
  mtkZimage : checkFmtLg mem p n = .ok .mtk →
    checkFmtLg mem (p + mtkHdrSz) (n - mtkHdrSz) = .ok .zimage →
      ZimageSafe mem (p + mtkHdrSz) (n - mtkHdrSz)

/-- A kernel is safe: the search for a device tree, and what comes before it. -/
@[mk_iff]
structure KernelSafe (mem : Str) (p n : Nat) : Prop where
  dtb : DtbSafe mem p n
  plain : ∀ d, findDtbOffset mem p n = .ok d → PlainKernelSafe mem p (kernelCut n d)

lemma succeeds_parseKernel_iff :
    Succeeds (parseKernel mem img) ↔
      (img.size .kernel ≠ 0 → KernelSafe mem (img.ptr .kernel) (img.size .kernel)) := by
  rw [parseKernel, succeeds_ite]
  simp only [succeeds_ok, implies_true, true_and]
  refine forall_congr' fun hn => ?_
  rw [kernelSafe_iff, ← succeeds_findDtbOffset_iff]
  refine succeeds_bind_congr fun d hd => ?_
  have hcut : ∀ off, d = some off → off ≤ img.size .kernel := by
    rintro off rfl
    have := findDtbOffset_le hd
    omega
  obtain ⟨hsize, hptr⟩ := cutDtb_size hcut
  refine (succeeds_mtkKernel_iff sub_eq_ok (fun _ => succeeds_parseZimage_iff) rfl rfl).trans ?_
  change Succeeds (blockFmt mem (img.cutDtb d) .kernel) ∧ _ ↔ _
  rw [succeeds_blockFmt_iff, hsize, hptr]
  exact ⟨fun h => ⟨h.1, h.2.1, fun hmtk => h.2.2 hmtk (h.1.mtk hmtk).1⟩,
    fun h => ⟨h.1, h.2, fun hmtk _ => h.3 hmtk⟩⟩

/-! ### What is left of a block -/

/-- Only one block of the image changed, and what is left of it lies in it. -/
structure Narrowed (b : Block) (img img' : BootImg) : Prop where
  hdr : img.hdr.SetsOnly b.sizeField img'.hdr
  ptr : ∀ c ≠ b, img'.ptr c = img.ptr c
  payload : img'.payload = img.payload
  tail : img'.tail = img.tail
  start : img.ptr b ≤ img'.ptr b
  stop : img'.ptr b + img'.size b ≤ img.ptr b + img.size b

namespace Narrowed

variable {c : Block} {img'' : BootImg}

lemma refl (b : Block) (img : BootImg) : Narrowed b img img :=
  ⟨.refl, fun _ _ => rfl, rfl, rfl, le_rfl, le_rfl⟩

lemma trans (h : Narrowed b img img') (h' : Narrowed b img' img'') : Narrowed b img img'' where
  hdr := h.hdr.trans h'.hdr
  ptr c hc := (h'.ptr c hc).trans (h.ptr c hc)
  payload := h'.payload.trans h.payload
  tail := h'.tail.trans h.tail
  start := h.start.trans h'.start
  stop := h'.stop.trans h.stop

lemma get (h : Narrowed b img img') (f : ImgField) (hf : f ≠ b.sizeField) :
    img'.hdr.get f = img.hdr.get f := h.hdr.get hf

lemma size (h : Narrowed b img img') (hc : c ≠ b) : img'.size c = img.size c :=
  h.get c.sizeField fun heq => hc (sizeField_injective heq)

lemma resize (h : v ≤ img.size b) : Narrowed b img (img.setSize b v) where
  hdr := .set v .refl
  ptr _ _ := rfl
  payload := rfl
  tail := rfl
  start := le_rfl
  stop := by
    have hlt := img.size_lt b
    have hsize : (img.setSize b v).size b ≤ v := size_setSize_le (by omega)
    exact Nat.add_le_add_left (hsize.trans h) _

/-- The end of the block. -/
lemma advance (h : k + v ≤ img.size b) :
    Narrowed b img ((img.setPtr b (img.ptr b + k)).setSize b v) := by
  have hptr : ((img.setPtr b (img.ptr b + k)).setSize b v).ptr b = img.ptr b + k := by
    exact update_self b _ _
  have hlt := img.size_lt b
  have hsize : ((img.setPtr b (img.ptr b + k)).setSize b v).size b ≤ v :=
    size_setSize_le (by omega)
  exact
    { hdr := .set v .refl
      ptr := fun c hc => update_of_ne hc _ _
      payload := rfl
      tail := rfl
      start := by omega
      stop := by omega }

end Narrowed

lemma cutDtb_narrowed (hd : findDtbOffset mem (img.ptr .kernel) (img.size .kernel) = .ok d) :
    Narrowed .kernel img (img.cutDtb d) := by
  match d with
  | none => exact .refl _ _
  | some 0 => exact .refl _ _
  | some (off + 1) =>
    have hle := findDtbOffset_le hd
    have hcut : Narrowed .kernel img (img.setSize .kernel (off + 1)) := .resize (by omega)
    exact ⟨hcut.hdr, hcut.ptr, rfl, rfl, hcut.start, hcut.stop⟩

lemma cutMtk_narrowed (h : mtkHdrSz ≤ img.size b) :
    Narrowed b img (img.cutMtk b) := .advance (by omega)

lemma cutMtk_fmt_narrowed (h : blockFmt mem img b = .ok (mtk, fmt)) :
    Narrowed b img (if mtk then img.cutMtk b else img) := by
  rcases blockFmt_eq_ok.mp h with ⟨rfl, -, -⟩ | ⟨rfl, -, hle, -⟩
  · exact .refl _ _
  · exact .advance (by omega)

lemma withKernelFmt_narrowed (h : blockFmt mem img .kernel = .ok fmt) :
    Narrowed .kernel img (img.withKernelFmt fmt) := by
  obtain ⟨mtk, fmt⟩ := fmt
  have hcut := cutMtk_fmt_narrowed h
  cases mtk <;> exact ⟨hcut.hdr, hcut.ptr, hcut.payload, hcut.tail, hcut.start, hcut.stop⟩

lemma withRamdiskFmt_narrowed (h : blockFmt mem img .ramdisk = .ok fmt) :
    Narrowed .ramdisk img (img.withRamdiskFmt fmt) := by
  obtain ⟨mtk, fmt⟩ := fmt
  have hcut := cutMtk_fmt_narrowed h
  cases mtk <;> exact ⟨hcut.hdr, hcut.ptr, hcut.payload, hcut.tail, hcut.start, hcut.stop⟩

/-! ### What each part of the parser does -/

/-- An end that is found lies in the kernel and after the header. -/
lemma findPiggyEnd_eq_ok {hdrSz}
    (h : findPiggyEnd mem kernel size hdrSz = .ok (some (stop, kFmt))) :
    hdrSz ≤ stop ∧ stop ≤ size ∧ checkFmtLg mem (kernel + hdrSz) (stop - hdrSz) = .ok kFmt := by
  obtain ⟨start, -, h⟩ := bind_eq_ok.mp h
  obtain ⟨last, -, h⟩ := bind_eq_ok.mp h
  obtain ⟨piggySize, -, h⟩ := bind_eq_ok.mp h
  obtain ⟨table, -, h⟩ := bind_eq_ok.mp h
  obtain ⟨offsets, -, h⟩ := bind_eq_ok.mp h
  obtain ⟨low, -, h⟩ := bind_eq_ok.mp h
  generalize piggyEnd offsets low piggySize = e at h
  cases e with
  | none => cases h
  | some e =>
    obtain ⟨rest, hrest, h⟩ := bind_eq_ok.mp h
    obtain ⟨newSz, hnewSz, h⟩ := bind_eq_ok.mp h
    obtain ⟨fmt, hfmt, h⟩ := bind_eq_ok.mp h
    cases h
    obtain ⟨hle, rfl⟩ := sub_eq_ok.mp hnewSz
    exact ⟨hle, (sub_eq_ok.mp hrest).1, hfmt⟩

/-- A table of ramdisks is safe: its entries lie in the mapping, and the formats of the ramdisks
are safe. -/
def TableSafe (mem : Str) (ramdisk table : Nat) (is : List Nat) : Prop :=
  ∀ i ∈ is, table + tableEntrySz * i + 8 ≤ mem.length ∧
    FmtLgSafe mem (ramdisk + u32At mem (table + tableEntrySz * i + 4))
      (u32At mem (table + tableEntrySz * i))

lemma succeeds_checkTable_iff :
    Succeeds (checkTable mem ramdisk table is) ↔ TableSafe mem ramdisk table is := by
  induction is with
  | nil => simp [checkTable, TableSafe]
  | cons i is ih =>
    rw [checkTable, succeeds_loadU32_bind, succeeds_loadU32_bind, TableSafe,
      forall_mem_cons, succeeds_bind_iff, succeeds_checkFmtLg_iff]
    constructor
    · rintro ⟨-, hle, hfmt, his⟩
      obtain ⟨fmt, heq⟩ := succeeds_checkFmtLg_iff.mpr hfmt
      exact ⟨⟨by omega, hfmt⟩, ih.mp (his fmt heq)⟩
    · rintro ⟨⟨hle, hfmt⟩, his⟩
      exact ⟨by omega, by omega, hfmt, fun _ _ => ih.mpr his⟩

section Cases

/-- A zImage is taken apart, or a header is noted. -/
lemma parseZimage_cases (h : parseZimage mem img = .ok img') :
    (∃ zHdr, img' = { img with zHdr }) ∨
      ∃ hdrSz stop kFmt, hdrSz ≤ stop ∧ stop ≤ img.size .kernel ∧
        checkFmtLg mem (img.ptr .kernel + hdrSz) (stop - hdrSz) = .ok kFmt ∧
        img' = img.cutZimage hdrSz stop kFmt := by
  obtain ⟨piggy, -, h⟩ := bind_eq_ok.mp h
  cases piggy with
  | none =>
    cases h
    exact .inl ⟨_, rfl⟩
  | some curr =>
    obtain ⟨found, hfound, h⟩ := bind_eq_ok.mp h
    match found with
    | none =>
      cases h
      exact .inl ⟨_, rfl⟩
    | some (stop, kFmt) =>
      cases h
      obtain ⟨hle, hsize, hfmt⟩ := findPiggyEnd_eq_ok hfound
      exact .inr ⟨_, stop, kFmt, hle, hsize, hfmt, rfl⟩

lemma parseKernel_cases (h : parseKernel mem img = .ok img') :
    img.size .kernel = 0 ∧ img' = img ∨
      ∃ d fmt, findDtbOffset mem (img.ptr .kernel) (img.size .kernel) = .ok d ∧
        blockFmt mem (img.cutDtb d) .kernel = .ok fmt ∧
        (img' = (img.cutDtb d).withKernelFmt fmt ∨
          parseZimage mem ((img.cutDtb d).withKernelFmt fmt) = .ok img') := by
  rw [parseKernel] at h
  split at h
  · cases h
    exact .inl ⟨‹_›, rfl⟩
  · obtain ⟨d, hd, h⟩ := bind_eq_ok.mp h
    obtain ⟨fmt, hfmt, h⟩ := bind_eq_ok.mp h
    refine .inr ⟨d, fmt, hd, hfmt, ?_⟩
    dsimp only at h
    split at h
    · exact .inr h
    · exact .inl (Except.ok.inj h).symm

/-- A ramdisk stays as it is if it has a table, which is looked at. -/
lemma parseRamdisk_cases (h : parseRamdisk mem img = .ok (some img')) :
    (img' = img ∧ (img.size .ramdisk = 0 ∨ img.size .vendorRamdiskTable ≠ 0 ∧
      img.hdr.get .vendorRamdiskTableEntrySize = tableEntrySz ∧
        TableSafe mem (img.ptr .ramdisk) (img.ptr .vendorRamdiskTable)
          (List.range (img.hdr.get .vendorRamdiskTableEntryNum)))) ∨
      img.size .vendorRamdiskTable = 0 ∧ ∃ fmt, blockFmt mem img .ramdisk = .ok fmt ∧
        img' = img.withRamdiskFmt fmt := by
  rw [parseRamdisk] at h
  split at h
  · cases h
    exact .inl ⟨rfl, .inl ‹_›⟩
  · split at h
    · split at h
      · cases h
      · obtain ⟨u, hcheck, h⟩ := bind_eq_ok.mp h
        cases h
        exact .inl ⟨rfl, .inr ⟨‹_›, not_not.mp ‹_›, succeeds_checkTable_iff.mp ⟨u, hcheck⟩⟩⟩
    · obtain ⟨fmt, hfmt, h⟩ := bind_eq_ok.mp h
      cases h
      exact .inr ⟨not_not.mp ‹_›, fmt, hfmt, rfl⟩

/-- Where the footer of an image is. -/
def ByteView.footer (tail : ByteView) : Nat := tail.data + tail.size - avbFooterSz

/-- What is noted of a tail that is not empty: its flags, a footer, and the header it points to. -/
lemma parseTail_cases (h : parseTail mem verify img = .ok img') :
    img.tail.size = 0 ∧ img' = img ∨
      avbFooterSz ≤ img.tail.data + img.tail.size ∧
      let flags := tailFlags mem verify img
      let vbmeta := img.payload.data + beAt mem (img.tail.footer + 20) 8
      (img' = { img with flags } ∧ window mem img.tail.footer 4 ≠ str "AVBf") ∨
        window mem img.tail.footer 4 = str "AVBf" ∧
          ((img' = { img with flags, avbFooter := some img.tail.footer } ∧
              window mem vbmeta 4 ≠ str "AVB0") ∨
            window mem vbmeta 4 = str "AVB0" ∧ img' =
              { img with
                flags := { flags with avb := true }
                avbFooter := some img.tail.footer
                vbmeta := some vbmeta }) := by
  rw [parseTail] at h
  split at h
  · cases h
    exact .inl ⟨‹_›, rfl⟩
  · obtain ⟨footer, hsub, h⟩ := bind_eq_ok.mp h
    obtain ⟨magic, hmagic, h⟩ := bind_eq_ok.mp h
    obtain ⟨hle, rfl⟩ := sub_eq_ok.mp hsub
    obtain ⟨-, rfl⟩ := load_eq_ok hmagic
    refine .inr ⟨hle, ?_⟩
    split at h
    · cases h
      exact .inl ⟨rfl, ‹_›⟩
    · refine .inr ⟨not_not.mp ‹_›, ?_⟩
      obtain ⟨offset, hoffset, h⟩ := bind_eq_ok.mp h
      obtain ⟨magic, hmagic, h⟩ := bind_eq_ok.mp h
      obtain rfl := loadBE_eq_ok hoffset
      obtain ⟨-, rfl⟩ := load_eq_ok hmagic
      split at h
      · cases h
        exact .inl ⟨rfl, ‹_›⟩
      · cases h
        exact .inr ⟨not_not.mp ‹_›, rfl⟩

lemma parseZimage_narrowed (h : parseZimage mem img = .ok img') : Narrowed .kernel img img' := by
  rcases parseZimage_cases h with ⟨_, rfl⟩ | ⟨hdrSz, stop, kFmt, hle, hsize, -, rfl⟩
  · exact ⟨.refl, fun _ _ => rfl, rfl, rfl, le_rfl, le_rfl⟩
  · have hcut : Narrowed .kernel img _ := .advance (k := hdrSz) (v := stop - hdrSz) (by omega)
    exact ⟨hcut.hdr, hcut.ptr, rfl, rfl, hcut.start, hcut.stop⟩

/-- What is left of the kernel lies in it. -/
lemma parseKernel_narrowed (h : parseKernel mem img = .ok img') : Narrowed .kernel img img' := by
  rcases parseKernel_cases h with ⟨-, rfl⟩ | ⟨d, fmt, hd, hfmt, hplain⟩
  · exact .refl _ _
  · have hcut := (cutDtb_narrowed hd).trans (withKernelFmt_narrowed hfmt)
    rcases hplain with rfl | hzimage
    · exact hcut
    · exact hcut.trans (parseZimage_narrowed hzimage)

/-- What is left of the ramdisk lies in it. -/
lemma parseRamdisk_narrowed (h : parseRamdisk mem img = .ok (some img')) :
    Narrowed .ramdisk img img' := by
  rcases parseRamdisk_cases h with ⟨rfl, -⟩ | ⟨-, fmt, hfmt, rfl⟩
  · exact .refl _ _
  · exact withRamdiskFmt_narrowed hfmt

end Cases

/-! ### The ramdisk, the extra block and the footer -/

/-- A ramdisk is safe: so is its table, or its format if there is no table. -/
@[mk_iff]
structure RamdiskSafe (mem : Str) (img : BootImg) : Prop where
  table : img.size .vendorRamdiskTable ≠ 0 →
    img.hdr.get .vendorRamdiskTableEntrySize = tableEntrySz →
      TableSafe mem (img.ptr .ramdisk) (img.ptr .vendorRamdiskTable)
        (List.range (img.hdr.get .vendorRamdiskTableEntryNum))
  fmt : img.size .vendorRamdiskTable = 0 →
    BlockFmtSafe mem (img.ptr .ramdisk) (img.size .ramdisk)

lemma succeeds_parseRamdisk_iff :
    Succeeds (parseRamdisk mem img) ↔ (img.size .ramdisk ≠ 0 → RamdiskSafe mem img) := by
  rw [parseRamdisk, succeeds_ite]
  simp only [succeeds_ok, implies_true, true_and]
  refine forall_congr' fun _ => ?_
  rw [ramdiskSafe_iff, succeeds_ite, not_not, succeeds_bind_ok_iff, succeeds_blockFmt_iff]
  refine and_congr_left' (forall_congr' fun _ => ?_)
  rw [succeeds_ite, not_not, succeeds_bind_ok_iff, succeeds_checkTable_iff]
  exact and_iff_right fun _ => succeeds_ok _

/-- The table has entries of another size, which ends the program. -/
def BadTable (img : BootImg) : Prop :=
  img.size .ramdisk ≠ 0 ∧ img.size .vendorRamdiskTable ≠ 0 ∧
    img.hdr.get .vendorRamdiskTableEntrySize ≠ tableEntrySz

lemma parseRamdisk_eq_none : parseRamdisk mem img = .ok none ↔ BadTable img := by
  constructor
  · intro h
    rw [parseRamdisk] at h
    split at h
    · cases h
    · split at h
      · split at h
        · exact ⟨‹_›, ‹_›, ‹_›⟩
        · obtain ⟨-, -, h⟩ := bind_eq_ok.mp h
          cases h
      · obtain ⟨fmt, -, h⟩ := bind_eq_ok.mp h
        cases h
  · rintro ⟨hramdisk, htable, hsize⟩
    rw [parseRamdisk, if_neg hramdisk, if_pos htable, if_pos hsize]

lemma succeeds_parseExtra_iff :
    Succeeds (parseExtra mem img) ↔
      (img.size .extra ≠ 0 → FmtLgSafe mem (img.ptr .extra) (img.size .extra)) := by
  rw [parseExtra, succeeds_ite, succeeds_bind_ok_iff, succeeds_checkFmtLg_iff]
  exact and_iff_right fun _ => succeeds_ok _

/-- The footer of an image lies in the mapping, and so does the magic number that it points to. -/
def FooterSafe (mem : Str) (payload tail : ByteView) : Prop :=
  let footer := tail.data + tail.size - avbFooterSz
  avbFooterSz ≤ tail.data + tail.size ∧ footer + 4 ≤ mem.length ∧
    (window mem footer 4 = str "AVBf" → footer + 28 ≤ mem.length ∧
      payload.data + beAt mem (footer + 20) 8 + 4 ≤ mem.length)

lemma succeeds_parseFooter_iff :
    Succeeds (parseFooter mem img) ↔ FooterSafe mem img.payload img.tail := by
  simp only [parseFooter, FooterSafe, succeeds_sub_bind, succeeds_load_bind, succeeds_loadBE_bind,
    succeeds_ite, succeeds_ok, implies_true, true_and, and_true, ne_eq, not_not, Nat.add_assoc,
    Nat.reduceAdd]

lemma succeeds_parseTail_iff :
    Succeeds (parseTail mem verify img) ↔
      (img.tail.size ≠ 0 → FooterSafe mem img.payload img.tail) := by
  rw [parseTail, succeeds_ite, succeeds_parseFooter_iff]
  exact and_iff_right fun _ => succeeds_ok _

/-! ### The image -/

/-- The blocks of an image are safe, one after the other until the program ends. -/
@[mk_iff]
structure BlocksSafe (mem : Str) (img : BootImg) : Prop where
  kernel : img.size .kernel ≠ 0 → KernelSafe mem (img.ptr .kernel) (img.size .kernel)
  ramdisk : img.size .ramdisk ≠ 0 → RamdiskSafe mem img
  extra : ¬BadTable img → img.size .extra ≠ 0 → FmtLgSafe mem (img.ptr .extra) (img.size .extra)
  footer : ¬BadTable img → img.tail.size ≠ 0 → FooterSafe mem img.payload img.tail

/-- The kernel has no part in what the ramdisk asks for. -/
lemma Narrowed.ramdiskSafe_iff (h : Narrowed .kernel img img') :
    RamdiskSafe mem img' ↔ RamdiskSafe mem img := by
  have hsize : ∀ b ≠ Block.kernel, img'.size b = img.size b := fun b => h.size
  rw [Boot.ramdiskSafe_iff, Boot.ramdiskSafe_iff, hsize _ (by decide), h.get _ (by decide),
    h.get _ (by decide), h.ptr _ (by decide), h.ptr _ (by decide), hsize _ (by decide)]

lemma Narrowed.badTable_iff (h : Narrowed .kernel img img') : BadTable img' ↔ BadTable img := by
  rw [BadTable, BadTable, h.size (by decide), h.size (by decide), h.get _ (by decide)]

lemma parseExtra_eq_ok (h : parseExtra mem img = .ok img') : ∃ eFmt, img' = { img with eFmt } := by
  rw [parseExtra] at h
  split at h
  · exact ⟨img.eFmt, (Except.ok.inj h).symm⟩
  · obtain ⟨eFmt, -, h⟩ := bind_eq_ok.mp h
    exact ⟨eFmt, (Except.ok.inj h).symm⟩

section Verify

lemma succeeds_extra_tail_iff :
    Succeeds (parseExtra mem img >>= fun img => Parsed.accepted <$> parseTail mem verify img) ↔
      (img.size .extra ≠ 0 → FmtLgSafe mem (img.ptr .extra) (img.size .extra)) ∧
        (img.tail.size ≠ 0 → FooterSafe mem img.payload img.tail) := by
  rw [← succeeds_parseExtra_iff]
  refine succeeds_bind_const fun img' himg' => ?_
  obtain ⟨eFmt, rfl⟩ := parseExtra_eq_ok himg'
  rw [succeeds_map, succeeds_parseTail_iff]

lemma succeeds_parseAfterKernel_iff :
    Succeeds (parseAfterKernel verify mem img) ↔
      (img.size .ramdisk ≠ 0 → RamdiskSafe mem img) ∧ (¬BadTable img →
        (img.size .extra ≠ 0 → FmtLgSafe mem (img.ptr .extra) (img.size .extra)) ∧
          (img.tail.size ≠ 0 → FooterSafe mem img.payload img.tail)) := by
  rw [← succeeds_parseRamdisk_iff]
  refine succeeds_bind_const fun r hr => ?_
  cases r with
  | none => exact iff_of_true (succeeds_ok _) fun h => absurd (parseRamdisk_eq_none.mp hr) h
  | some img' =>
    have hnarrow := parseRamdisk_narrowed hr
    have htable : ¬BadTable img := fun h => by cases hr.symm.trans (parseRamdisk_eq_none.mpr h)
    rw [imp_iff_right htable, ← hnarrow.size (by decide), ← hnarrow.ptr _ (by decide),
      ← hnarrow.tail, ← hnarrow.payload]
    exact succeeds_extra_tail_iff

lemma succeeds_parseBlocks_iff : Succeeds (parseBlocks verify mem img) ↔ BlocksSafe mem img := by
  rw [blocksSafe_iff, ← succeeds_parseKernel_iff, ← forall_and]
  refine succeeds_bind_const fun img' himg' => ?_
  have hnarrow := parseKernel_narrowed himg'
  rw [succeeds_parseAfterKernel_iff, hnarrow.size (by decide), hnarrow.ramdiskSafe_iff,
    hnarrow.badTable_iff, hnarrow.size (by decide), hnarrow.ptr _ (by decide), hnarrow.tail,
    hnarrow.payload]

/-- Where the first block starts. -/
def spaceOf (hdr : ImgHdr) : Nat :=
  if hdr.cls.isVendor then alignTo hdr.cls.hdrSize (hdr.get .pageSize) else hdr.get .pageSize

/-- The sizes of the blocks in a header. -/
def blockSizes (hdr : ImgHdr) : List Nat := Block.all.map fun b => hdr.get b.sizeField

/-- The image with the blocks where the sizes in its header say. -/
def BootImg.ofHdr (mem : Str) (addr : Nat) (hdr : ImgHdr) (flags : Flags) : BootImg :=
  let page := hdr.get .pageSize
  .ofBlocks mem hdr (if hasSha256 hdr then { flags with sha256 := true } else flags) addr
    (offsets page (spaceOf hdr) (blockSizes hdr)) (endOffset page (spaceOf hdr) (blockSizes hdr))

/-- The blocks fit the mapping. -/
def Fits (mem : Str) (addr : Nat) (hdr : ImgHdr) : Prop :=
  addr + endOffset (hdr.get .pageSize) (spaceOf hdr) (blockSizes hdr) ≤ mem.length

instance (mem : Str) (addr : Nat) (hdr : ImgHdr) : Decidable (Fits mem addr hdr) :=
  inferInstanceAs (Decidable (_ ≤ _))

lemma hdrSpace_eq (hpage : PageSafe (hdr.get .pageSize)) : hdrSpace hdr = .ok (spaceOf hdr) := by
  rw [hdrSpace, spaceOf]
  split
  · exact alignUp_of hpage
  · rfl

/-- With a page size that is safe, what comes after the header. -/
lemma parseSizes_eq (hpage : PageSafe (hdr.get .pageSize)) :
    parseSizes verify mem addr hdr flags =
      if Fits mem addr hdr then parseBlocks verify mem (.ofHdr mem addr hdr flags)
      else .ok (.rejected (if hasSha256 hdr then { flags with sha256 := true } else flags)) := by
  have hne : blockSizes hdr ≠ [] := cons_ne_nil _ _
  rw [parseSizes, hdrSpace_eq hpage]
  change (getBlocks mem.length addr _ (spaceOf hdr) (blockSizes hdr) >>= _) = _
  rw [getBlocks_eq hpage]
  by_cases hfit : Fits mem addr hdr
  · rw [if_pos (.inr hfit), if_pos hfit]
    rfl
  · have hneg : ¬(blockSizes hdr = [] ∨
        addr + endOffset (hdr.get .pageSize) (spaceOf hdr) (blockSizes hdr) ≤ mem.length) :=
      not_or.mpr ⟨hne, hfit⟩
    rw [if_neg hneg, if_neg hfit]
    rfl

lemma succeeds_parseSizes_iff :
    Succeeds (parseSizes verify mem addr hdr flags) ↔
      PageSafe (hdr.get .pageSize) ∧
        (Fits mem addr hdr → BlocksSafe mem (.ofHdr mem addr hdr flags)) := by
  have hpage : Succeeds (parseSizes verify mem addr hdr flags) → PageSafe (hdr.get .pageSize) := by
    rintro ⟨parsed, h⟩
    obtain ⟨space, -, h⟩ := bind_eq_ok.mp h
    obtain ⟨blocks, hblocks, -⟩ := bind_eq_ok.mp h
    exact succeeds_getBlocks_iff.mp ⟨blocks, hblocks⟩
  constructor
  · intro h
    refine ⟨hpage h, fun hfit => ?_⟩
    rw [parseSizes_eq (hpage h), if_pos hfit] at h
    exact succeeds_parseBlocks_iff.mp h
  · rintro ⟨hsafe, hblocks⟩
    rw [parseSizes_eq hsafe, succeeds_ite, succeeds_parseBlocks_iff]
    exact ⟨hblocks, fun _ => succeeds_ok _⟩

/-- An image at an address is safe: the header, its page size, and if they fit the mapping the
blocks. -/
structure ImageSafe (mem : Str) (addr : Nat) (type : FileFormat) (flags : Flags) : Prop where
  hdr : HdrSafe mem addr type
  page : ∀ addr' hdr flags', parseHdr mem addr type flags = .ok (addr', some hdr, flags') →
    PageSafe (hdr.get .pageSize)
  blocks : ∀ addr' hdr flags', parseHdr mem addr type flags = .ok (addr', some hdr, flags') →
    Fits mem addr' hdr → BlocksSafe mem (.ofHdr mem addr' hdr flags')

lemma succeeds_parseImage_iff :
    Succeeds (parseImage verify mem addr type flags) ↔ ImageSafe mem addr type flags := by
  rw [parseImage, succeeds_bind_iff, succeeds_parseHdr_iff]
  constructor
  · rintro ⟨hhdr, hrest⟩
    have hsizes : ∀ addr' hdr flags', parseHdr mem addr type flags = .ok (addr', some hdr, flags') →
        PageSafe (hdr.get .pageSize) ∧
          (Fits mem addr' hdr → BlocksSafe mem (.ofHdr mem addr' hdr flags')) :=
      fun addr' hdr flags' h => succeeds_parseSizes_iff.mp (hrest (addr', some hdr, flags') h)
    exact ⟨hhdr, fun _ _ _ h => (hsizes _ _ _ h).1, fun _ _ _ h => (hsizes _ _ _ h).2⟩
  · rintro ⟨hhdr, hpage, hblocks⟩
    refine ⟨hhdr, ?_⟩
    rintro ⟨addr', _ | hdr, flags'⟩ h
    · exact succeeds_ok _
    · exact succeeds_parseSizes_iff.mpr ⟨hpage _ _ _ h, hblocks _ _ _ h⟩

/-- What the constructor does at an address is safe: the format, and an image of that format. -/
structure AddressSafe (mem : Str) (size addr : Nat) (flags : Flags) : Prop where
  fmt : FmtSafe mem addr size
  aosp : checkFmtAt mem addr size = .ok .aosp → ImageSafe mem addr .aosp flags
  vendor : checkFmtAt mem addr size = .ok .aospVendor → ImageSafe mem addr .aospVendor flags

lemma succeeds_tryImage_iff :
    Succeeds (tryImage verify mem addr type flags) ↔ ImageSafe mem addr type flags := by
  rw [tryImage, succeeds_bind_iff, succeeds_parseImage_iff]
  refine and_iff_left fun parsed _ => ?_
  cases parsed <;> exact succeeds_ok _

lemma succeeds_scanStep_iff : Succeeds (scanStep verify mem size (addr, flags)) ↔
      (addr < size → AddressSafe mem size addr flags) := by
  rw [scanStep, succeeds_ite]
  simp only [succeeds_ok, implies_true, and_true]
  refine forall_congr' fun _ => ?_
  rw [succeeds_bind_iff, succeeds_checkFmtAt_iff]
  constructor
  · rintro ⟨hfmt, hrest⟩
    exact ⟨hfmt, fun h => succeeds_tryImage_iff.mp (hrest .aosp h),
      fun h => succeeds_tryImage_iff.mp (hrest .aospVendor h)⟩
  · rintro ⟨hfmt, haosp, hvendor⟩
    refine ⟨hfmt, fun fmt h => ?_⟩
    cases fmt
    case aosp => exact succeeds_tryImage_iff.mpr (haosp h)
    case aospVendor => exact succeeds_tryImage_iff.mpr (hvendor h)
    all_goals exact succeeds_ok _

end Verify

/-! ### Where the blocks are -/

/-- The blocks of an image lie in its payload, in order, and the tail comes after it, up to the
end of the mapping. -/
structure InPlace (mapEnd : Nat) (img : BootImg) : Prop where
  start : ∀ b, img.payload.data ≤ img.ptr b
  stop : ∀ b, img.ptr b + img.size b ≤ img.payload.data + img.payload.size
  ordered : Block.all.Pairwise fun b c => img.ptr b + img.size b ≤ img.ptr c
  payload : img.payload.data + img.payload.size = img.tail.data
  tail : img.tail.data + img.tail.size = mapEnd

lemma Block.mem_all (b : Block) : b ∈ Block.all := by cases b <;> decide

/-- Where a block of some sizes starts, after the space for the header. -/
def blockOffset (page space : Nat) (len : Block → Nat) (b : Block) : Nat :=
  (offsets page space (Block.all.map len)).getD (Block.all.idxOf b) 0

lemma zip_blockOffset (page space : Nat) (len : Block → Nat) :
    (offsets page space (Block.all.map len)).zip (Block.all.map len) =
      Block.all.map fun b => (blockOffset page space len b, len b) := rfl

section Offsets

variable {page : Nat} (hpage : 0 < page) (space : Nat) (len : Block → Nat)

include hpage

lemma blockOffset_le (b : Block) : space ≤ blockOffset page space len b ∧
    blockOffset page space len b + len b ≤ endOffset page space (Block.all.map len) := by
  refine mem_zip_offsets hpage (x := (_, _)) ?_
  exact zip_blockOffset page space len ▸ mem_map_of_mem (Block.mem_all b)

lemma pairwise_blockOffset : Block.all.Pairwise fun b c =>
    blockOffset page space len b + len b ≤ blockOffset page space len c := by
  have hsorted := pairwise_offsets hpage space (Block.all.map len)
  exact pairwise_map.mp (zip_blockOffset page space len ▸ hsorted)

end Offsets

variable {addr : Nat} {flags : Flags}

/-- The blocks of a header that fit the mapping are in place. -/
lemma inPlace_ofHdr (hpage : PageSafe (hdr.get .pageSize)) (hfit : Fits mem addr hdr) :
    InPlace mem.length (.ofHdr mem addr hdr flags) := by
  have hle := blockOffset_le hpage.1 (spaceOf hdr) fun b => hdr.get b.sizeField
  have hpairwise := pairwise_blockOffset hpage.1 (spaceOf hdr) fun b => hdr.get b.sizeField
  refine
    { start := fun b => Nat.le_add_right _ _
      stop := fun b => ?_
      ordered := hpairwise.imp fun {b c} h => ?_
      payload := rfl
      tail := Nat.add_sub_of_le hfit }
  · exact (Nat.add_assoc _ _ _).trans_le (Nat.add_le_add_left (hle b).2 addr)
  · exact (Nat.add_assoc _ _ _).trans_le (Nat.add_le_add_left h addr)

/-- What is left of a block still lies where the block was. -/
lemma InPlace.narrowed (h : InPlace mapEnd img) (hn : Narrowed b img img') :
    InPlace mapEnd img' := by
  have hstart : ∀ c, img.ptr c ≤ img'.ptr c := by
    intro c
    by_cases hc : c = b
    · exact hc ▸ hn.start
    · exact (hn.ptr c hc).ge
  have hstop : ∀ c, img'.ptr c + img'.size c ≤ img.ptr c + img.size c := by
    intro c
    by_cases hc : c = b
    · exact hc ▸ hn.stop
    · rw [hn.ptr c hc, hn.size hc]
  refine
    { start := fun c => ?_
      stop := fun c => ?_
      ordered := h.ordered.imp fun {c d} hcd => (hstop c).trans (hcd.trans (hstart d))
      payload := ?_
      tail := ?_ }
  · rw [hn.payload]
    exact (h.start c).trans (hstart c)
  · rw [hn.payload]
    exact (hstop c).trans (h.stop c)
  · rw [hn.payload, hn.tail]
    exact h.payload
  · rw [hn.tail]
    exact h.tail

lemma parseExtra_narrowed (h : parseExtra mem img = .ok img') : Narrowed .extra img img' := by
  obtain ⟨eFmt, rfl⟩ := parseExtra_eq_ok h
  exact ⟨.refl, fun _ _ => rfl, rfl, rfl, le_rfl, le_rfl⟩

lemma parseTail_narrowed (h : parseTail mem verify img = .ok img') : Narrowed .extra img img' := by
  rcases parseTail_cases h with ⟨-, rfl⟩ | ⟨-, ⟨rfl, -⟩ | ⟨-, ⟨rfl, -⟩ | ⟨-, rfl⟩⟩⟩ <;>
    exact ⟨.refl, fun _ _ => rfl, rfl, rfl, le_rfl, le_rfl⟩

section Accepted

variable {boot : BootImg}

/-- The stages of an image that is accepted. -/
lemma parseBlocks_eq_ok (h : parseBlocks verify mem img = .ok (.accepted boot)) :
    ∃ img₁ img₂ eFmt, parseKernel mem img = .ok img₁ ∧ parseRamdisk mem img₁ = .ok (some img₂) ∧
      parseExtra mem img₂ = .ok { img₂ with eFmt } ∧
      parseTail mem verify { img₂ with eFmt } = .ok boot := by
  obtain ⟨img₁, h₁, h⟩ := bind_eq_ok.mp h
  obtain ⟨r, h₂, h⟩ := bind_eq_ok.mp h
  cases r with
  | none => cases h
  | some img₂ =>
    obtain ⟨img₃, h₃, h⟩ := bind_eq_ok.mp h
    cases h₄ : parseTail mem verify img₃ with
    | error e =>
      rw [h₄] at h
      cases h
    | ok img₄ =>
      rw [h₄] at h
      cases Parsed.accepted.inj (Except.ok.inj h)
      obtain ⟨eFmt, rfl⟩ := parseExtra_eq_ok h₃
      exact ⟨img₁, img₂, eFmt, h₁, h₂, h₃, h₄⟩

lemma inPlace_of_parseBlocks (himg : InPlace mapEnd img)
    (h : parseBlocks verify mem img = .ok (.accepted boot)) : InPlace mapEnd boot := by
  obtain ⟨img₁, img₂, eFmt, h₁, h₂, h₃, h₄⟩ := parseBlocks_eq_ok h
  exact (((himg.narrowed (parseKernel_narrowed h₁)).narrowed
    (parseRamdisk_narrowed h₂)).narrowed (parseExtra_narrowed h₃)).narrowed (parseTail_narrowed h₄)

/-- An image that is accepted has a header with blocks that fit the mapping. -/
lemma exists_of_parseImage (h : parseImage verify mem addr type flags = .ok (.accepted boot)) :
    ∃ addr' hdr flags', parseHdr mem addr type flags = .ok (addr', some hdr, flags') ∧
      PageSafe (hdr.get .pageSize) ∧ Fits mem addr' hdr ∧
      parseBlocks verify mem (.ofHdr mem addr' hdr flags') = .ok (.accepted boot) := by
  obtain ⟨-, hpage, -⟩ := succeeds_parseImage_iff.mp ⟨_, h⟩
  obtain ⟨⟨addr', hdr, flags'⟩, hhdr, h⟩ := bind_eq_ok.mp h
  cases hdr with
  | none => cases h
  | some hdr =>
    have hsafe := hpage _ _ _ hhdr
    change parseSizes verify mem addr' hdr flags' = _ at h
    rw [parseSizes_eq hsafe] at h
    split at h
    · exact ⟨addr', hdr, flags', hhdr, hsafe, ‹_›, h⟩
    · cases h

/-- The blocks of an accepted image are in place. -/
lemma inPlace_of_accepted (h : parseImage verify mem addr type flags = .ok (.accepted boot)) :
    InPlace mem.length boot := by
  obtain ⟨addr', hdr, flags', -, hsafe, hfit, hblocks⟩ := exists_of_parseImage h
  exact inPlace_of_parseBlocks (inPlace_ofHdr hsafe hfit) hblocks

/-- The image of the constructor was accepted at some address, with its format. -/
lemma exists_visited_of_bootImg (h : bootImg verify file = .ok (some boot)) :
    ∃ s fmt, Visited (scanStep verify (mapped file) file.length) (0, {}) s ∧
      checkFmtAt (mapped file) s.1 file.length = .ok fmt ∧ (fmt = .aosp ∨ fmt = .aospVendor) ∧
      parseImage verify (mapped file) s.1 fmt s.2 = .ok (.accepted boot) := by
  obtain ⟨s, hvisited, hstep⟩ := exists_of_loop_eq_ok h
  have htry : ∀ {fmt}, tryImage verify (mapped file) s.1 fmt s.2 = .ok (.inr (some boot)) →
      parseImage verify (mapped file) s.1 fmt s.2 = .ok (.accepted boot) := by
    intro fmt h
    obtain ⟨parsed, hparsed, h⟩ := bind_eq_ok.mp h
    cases parsed with
    | accepted img =>
      cases h
      exact hparsed
    | rejected flags => cases h
    | exited => cases h
  rw [scanStep] at hstep
  split at hstep
  · obtain ⟨fmt, hfmt, hstep⟩ := bind_eq_ok.mp hstep
    cases fmt
    case aosp => exact ⟨s, _, hvisited, hfmt, .inl rfl, htry hstep⟩
    case aospVendor => exact ⟨s, _, hvisited, hfmt, .inr rfl, htry hstep⟩
    all_goals cases hstep
  · cases hstep

end Accepted

/-! ### The constructor -/

/-- The constructor accepts an image with its blocks in place, or it rejects the file, and nothing
goes wrong on the way. -/
def Sound (verify : Str → Str → Bool) (file : Str) : Prop :=
  ∃ r, bootImg verify file = .ok r ∧ ∀ img, r = some img → InPlace (mapped file).length img

lemma parseImage_of_hdr (h : parseHdr mem addr type flags = .ok (addr', some hdr, flags')) :
    parseImage verify mem addr type flags = parseSizes verify mem addr' hdr flags' := by
  rw [parseImage, h]
  rfl

lemma scanStep_of_vendor (hlt : addr < size) (h : checkFmtAt mem addr size = .ok .aospVendor) :
    scanStep verify mem size (addr, flags) = tryImage verify mem addr .aospVendor flags := by
  rw [scanStep, if_pos hlt, h]
  rfl

/-- A header that is not there reads as zeros, and so does its page size. -/
lemma bootImg_vendorBootMagic (verify : Str → Str → Bool) :
    bootImg verify vendorBootMagic = .error .divideByZero := by
  have hlen : (mapped vendorBootMagic).length = 4096 := by
    rw [length_mapped]
    decide
  have hfmt : checkFmtAt (mapped vendorBootMagic) 0 vendorBootMagic.length = .ok .aospVendor := by
    rw [checkFmtAt_eq (by rw [hlen]; decide), mapped, window_append_left (by omega), window_length]
    decide
  have hversion : loadU32 (mapped vendorBootMagic) 8 = .ok 0 := by
    rw [loadU32, load_of_le (by omega)]
    rfl
  obtain ⟨hdr, hhdr⟩ : Succeeds (loadHdr (mapped vendorBootMagic) .vndV3 0 2112) :=
    succeeds_loadHdr_iff.mpr ⟨le_rfl, by omega⟩
  obtain ⟨hcls, hget⟩ := get_loadHdr hhdr
  have hpage : hdr.get .pageSize = 0 := by
    rw [hget .pageSize 12 rfl (by omega), u32At,
      window_mapped_zeros (by decide) (by omega)]
    rfl
  have hparse : parseHdr (mapped vendorBootMagic) 0 .aospVendor {} = .ok (0, some hdr, {}) := by
    refine (if_pos rfl).trans (bind_eq_ok.mpr ⟨0, hversion, ?_⟩)
    exact bind_eq_ok.mpr ⟨hdr, hhdr, rfl⟩
  have hspace : hdrSpace hdr = .error .divideByZero := by
    rw [hdrSpace, hcls, hpage]
    rfl
  have hsizes : parseSizes verify (mapped vendorBootMagic) 0 hdr {} = .error .divideByZero := by
    rw [parseSizes, hspace]
    rfl
  rw [bootImg, loop_eq, scanStep_of_vendor (by decide) hfmt, tryImage, parseImage_of_hdr hparse,
    hsizes]
  rfl

end Magisk.Boot
