import Magisk.Boot.Accepted

/-!
# Images with only a kernel

An image whose header has the layout of PXA, with pages that the header just fills and a kernel of
one byte.  Something may come before and behind it.

* `smallImage`, `smallHdr`: the image and its header;
* `parseImage_small`: it is accepted wherever it stands, with the tail that is behind it;
* `repackable_small`, `reparsable_small`: it can be packed again, and is then found.
-/

namespace Magisk.Boot

open Magisk.Base Magisk.Lib List

/-! ### The image -/

/-- The first bytes of the header: a kernel of one byte, and pages of 1640 bytes. -/
def smallStart : Str :=
  bootMagic ++ [1, 0, 0, 0] ++ List.replicate 24 0 ++ [0, 0, 0, 2, 0, 0, 0, 0, 0x68, 6, 0, 0]

/-- The image: one page for the header, and one for the kernel. -/
def smallImage : Str := smallStart ++ List.replicate 3232 0

/-- Its header. -/
def smallHdr : ImgHdr where
  cls := .pxa
  raw := smallStart ++ List.replicate 1592 0
  length_raw := by
    rw [length_append, length_replicate]
    rfl

lemma length_smallImage : smallImage.length = 3280 := by
  rw [smallImage, length_append, length_replicate]
  rfl

lemma window_smallImage (h : o + n ≤ 48) :
    window smallImage o n = window smallStart o n := window_append_left h

lemma window_smallImage_zeros (h : 48 ≤ o) (h' : o + n ≤ 3280) :
    window smallImage o n = List.replicate n 0 := by
  have hlen : smallStart.length = 48 := rfl
  rw [smallImage, window_append_right (by omega), window, drop_replicate, take_replicate]
  congr 1
  omega

lemma raw_smallHdr : smallHdr.raw = window smallImage 0 1640 := by
  have hlen : smallStart.length = 48 := rfl
  rw [smallImage, window, drop_zero, take_append, hlen, take_replicate,
    take_of_length_le (by omega)]
  rfl

lemma oneKernel_smallHdr : OneKernel 1640 smallHdr :=
  oneKernel_of_start smallStart rfl (by decide) (fun _ ho => window_append_left ho) (by decide)
    (by decide) (by decide)

lemma hasSha256_smallHdr : hasSha256 smallHdr = false := by
  change (window smallHdr.raw (584 + 24) 8).any (· != 0) = false
  rw [raw_smallHdr, window_window (by decide), window_smallImage_zeros (by decide) (by decide)]
  rfl

/-! ### Parsing it -/

section Parse

variable {mem : Str} {addr : Nat}

/-- A kernel of one byte can be taken apart. -/
lemma kernelSafe_zero (h : Occupies mem addr [0]) : KernelSafe mem addr 1 := by
  obtain ⟨hle, hzero⟩ := h
  have hdtb := findDtbOffset_one mem addr
  have hfmt := checkFmtLg_zero (by omega) hzero
  refine ⟨succeeds_findDtbOffset_iff.mp ⟨none, hdtb⟩, fun d hd => ?_⟩
  cases hdtb.symm.trans hd
  exact
    { fmt :=
        { fmt := succeeds_checkFmtLg_iff.mp ⟨_, hfmt⟩
          mtk := fun h => by cases hfmt.symm.trans h }
      zimage := fun h => by cases hfmt.symm.trans h
      mtkZimage := fun h => by cases hfmt.symm.trans h }

lemma payload_small (flags : Flags) :
    (BootImg.ofHdr mem addr smallHdr flags).payload = ⟨addr, 3280⟩ ∧
      (BootImg.ofHdr mem addr smallHdr flags).tail =
        ⟨addr + 3280, mem.length - (addr + 3280)⟩ ∧
      (BootImg.ofHdr mem addr smallHdr flags).ptr .kernel = addr + 1640 :=
  oneKernel_smallHdr.payload_eq mem addr flags

variable (hmem : window mem addr 3280 = smallImage)

include hmem

lemma le_of_window : addr + 3280 ≤ mem.length := by
  have hlen := congrArg List.length hmem
  rw [length_smallImage, window, length_take, length_drop] at hlen
  omega

lemma window_small (h : o + n ≤ 3280) : window mem (addr + o) n = window smallImage o n := by
  rw [← hmem, window_window h]

lemma checkFmtAt_small (hlen : 8 ≤ len) : checkFmtAt mem addr len = .ok .aosp := by
  have hle := le_of_window hmem
  have hmagic : window mem (addr + 0) 8 = bootMagic :=
    (window_small hmem (by decide)).trans (window_smallImage (by decide))
  exact checkFmtAt_bootMagic hlen (by omega) hmagic

/-- **The image is accepted**, with what is found in its tail. -/
lemma parseImage_small (htail : parseTail mem verify (.ofHdr mem addr smallHdr flags) = .ok img) :
    parseImage verify mem addr .aosp flags = .ok (.accepted img) := by
  have hle := le_of_window hmem
  have hraw : window mem (addr + 0) 1640 = smallHdr.raw :=
    (window_small hmem (by decide)).trans raw_smallHdr.symm
  have hhdr : parseHdr mem addr .aosp flags = .ok (addr, some smallHdr, flags) :=
    oneKernel_smallHdr.parseHdr_eq (by omega) hraw (by
      decide)
  exact oneKernel_smallHdr.parseImage_eq ⟨by decide, by decide⟩ hle hhdr
    ((window_small hmem (by decide)).trans (window_smallImage_zeros (by decide) (by decide))) htail

end Parse

section Found

variable {verify : Str → Str → Bool} {file : Str} {img : BootImg}

/-- It is found at the start of a file. -/
lemma bootImg_small (hlen : 3280 ≤ file.length) (hmem : window (mapped file) 0 3280 = smallImage)
    (htail : parseTail (mapped file) verify (.ofHdr (mapped file) 0 smallHdr {}) = .ok img) :
    bootImg verify file = .ok (some img) := by
  rw [bootImg, loop_eq, scanStep_of_aosp (by omega) (checkFmtAt_small hmem (by omega)), tryImage,
    parseImage_small hmem htail]
  rfl

/-- It is found behind a DHTB header. -/
lemma bootImg_small_dhtb (hlen : dhtbHdrSz + 3280 ≤ file.length)
    (hmagic : window file 0 8 = dhtbMagic)
    (hmem : window (mapped file) dhtbHdrSz 3280 = smallImage)
    (htail : parseTail (mapped file) verify
      (.ofHdr (mapped file) dhtbHdrSz smallHdr { dhtb := true, seandroid := true }) = .ok img) :
    bootImg verify file = .ok (some img) := by
  have hmap := le_length_mapped file
  have hfmt : checkFmtAt (mapped file) 0 file.length = .ok .dhtb := by
    rw [checkFmtAt_eq (by omega), ← take_append_drop 8 file]
    refine congrArg Except.ok ?_
    rw [show file.take 8 = dhtbMagic from hmagic]
    exact checkFmt_append (fmtChecks.take 14) (fmtChecks.drop 15) rfl (by decide) _
  have hfirst : scanStep verify (mapped file) file.length (0, {}) =
      .ok (.inl (dhtbHdrSz, { dhtb := true, seandroid := true })) := by
    rw [scanStep, if_pos (by omega), hfmt]
    rfl
  rw [bootImg, loop_eq, hfirst]
  dsimp only
  rw [loop_eq, scanStep_of_aosp (by omega) (checkFmtAt_small hmem (by omega)), tryImage,
    parseImage_small hmem htail]
  rfl

end Found

/-! ### Packing it -/

lemma repackable_small
    (hskip : t.skipComp = true) (hr : Ready mem boot) (hhdr : boot.hdr = smallHdr)
    (hmtk : boot.flags.mtkKernel = false ∧ boot.flags.mtkRamdisk = false)
    (hzimage : boot.flags.zimageKernel = false) (hamonet : boot.flags.amonet = false)
    (havb : boot.flags.avb = true → 256 ≤ vbmetaSize mem boot ∧
      boot.vbmeta.getD 0 + vbmetaSize mem boot ≤ mem.length)
    (hsmall : mapSize < 2 ^ 30 ∧ (boot.flags.avb = true → vbmetaSize mem boot < 2 ^ 30)) :
    Repackable t mem mapSize boot {} :=
  oneKernel_smallHdr.repackable hskip hr hhdr le_rfl hmtk hzimage hamonet havb nofun
    ⟨by decide, hsmall⟩

section Again

variable {t : Tools} {mem : Str} {mapSize : Nat} {boot : BootImg} (hr : Ready mem boot)
  (hhdr : boot.hdr = smallHdr)
  (hmtk : boot.flags.mtkKernel = false ∧ boot.flags.mtkRamdisk = false)
  (hzimage : boot.flags.zimageKernel = false)

include hr hhdr hmtk hzimage

/-- What is written for its blocks. -/
lemma newBlocks_small (b : Block) :
    newBlocks t mem boot {} [0] none [] b = if b = .kernel then [0] else [] := by
  rw [newBlocks]
  cases b with
  | kernel =>
    rw [sections, kernelData, hmtk.1, zimagePart, zimagePart, hzimage]
    rfl
  | ramdisk =>
    rw [sections, hmtk.2]
    rfl
  | signature =>
    have hsize : boot.size .signature = 0 := by
      rw [BootImg.size, hhdr]
      rfl
    exact eq_nil_of_length_eq_zero ((hr.bytes .signature).trans hsize)
  | second | extra | recoveryDtbo | dtb | vendorRamdiskTable | bootconfig => rfl

lemma blocksEnd_small : blocksEnd mem boot (newBlocks t mem boot {} [0] none []) =
    (preHeader mem boot).length + 3280 := by
  have hlens : (Block.all.map fun b => (newBlocks t mem boot {} [0] none [] b).length) =
      blockSizes smallHdr := by
    refine map_congr_left fun b _ => ?_
    rw [newBlocks_small hr hhdr hmtk hzimage, oneKernel_smallHdr.size]
    split <;> rfl
  rw [blocksEnd_eq hr, hlens, hhdr, oneKernel_smallHdr.endOffset_hdr]

/-- **The packed image is found again.** -/
lemma reparsable_small (hskip : t.skipComp = true)
    (hamonet : boot.flags.amonet = false) (hmem : window mem addr 3280 = smallImage)
    (hptr : boot.ptr .kernel = addr + 1640)
    (havb : boot.flags.avb = true → 256 ≤ vbmetaSize mem boot ∧
      boot.vbmeta.getD 0 + vbmetaSize mem boot ≤ mem.length)
    (hsmall : mapSize < 2 ^ 30 ∧ (boot.flags.avb = true → vbmetaSize mem boot < 2 ^ 30))
    (hloader : boot.behindLoader = false) (hpre : PreHeaderFirst mem boot) :
    Reparsable t mem mapSize boot {} [0] none [] := by
  have hp := repackable_small hskip hr hhdr hmtk hzimage hamonet havb hsmall
  have hblocks : ∀ b, packedBlocks boot (newBlocks t mem boot {} [0] none []) b =
      if b = .kernel then [0] else [] := by
    intro b
    have hflag : boot.mtkFlag b = false := by cases b <;> first | exact hmtk.1 | exact hmtk.2 | rfl
    rw [packedBlocks, hflag]
    exact newBlocks_small hr hhdr hmtk hzimage b
  have hsize : ∀ b : Block, boot.size b = if b = .kernel then 1 else 0 := fun b => by
    rw [BootImg.size, hhdr, oneKernel_smallHdr.size]
  have hcontent : kernelContent t.compress t.skipComp mem boot {} = .ok ([0], 1) := by
    change Except.ok (boot.bytes mem .kernel, boot.size .kernel) = _
    rw [BootImg.bytes, hptr, hsize, if_pos rfl, window_small hmem (by decide),
      window_smallImage_zeros (by decide) (by decide)]
    rfl
  have hramdisk : ramdiskBlock t.compress t.skipComp mem boot {} (startHdr boot {}) =
      .ok (none, []) := by
    have hzero : boot.size .vendorRamdiskTable = 0 := hsize .vendorRamdiskTable
    rw [ramdiskBlock, if_neg (not_not.mpr hzero)]
    rfl
  exact
    { packable := { hp with placed := hp.usable.placed, content := hcontent, ramdisk := hramdisk }
      findable :=
        { preHeader := hpre
          version := fun h => by rw [hhdr] at h; cases h
          loader := fun h => by rw [hloader] at h; cases h
          microloader := fun h => by rw [hamonet] at h; cases h
          plain := fun _ _ h => by rw [hhdr] at h; cases h }
      legible :=
        { kernel := fun _ mem p h => by
            rw [hblocks] at h ⊢
            exact kernelSafe_zero h
          ramdisk := fun h => absurd (hblocks .ramdisk) h
          table := fun h => absurd (hblocks .ramdisk) h
          extra := fun h => absurd (hblocks .extra) h } }

end Again

end Magisk.Boot
