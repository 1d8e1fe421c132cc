import Magisk.Boot.Patched
import Magisk.Boot.Recognised

/-!
# Packed images that are parsed again

The scan of a packed image comes to the address that its header was written to.  There the header
is read as it was stored, and the blocks are where it says.

* `Packable`, `Packable.exists_packed`: files that can be packed, whether they are compressed or
  not;
* `Findable`: what leads the scan and `parse_hdr` to the new header;
* `Found`, `found_of_packed`: they are led there;
* `Found.bootImg_eq_ok`: an image is accepted just if its blocks are.
-/

namespace Magisk.Boot

open Magisk.Base Magisk.Lib List

variable {mem : Str} {boot : BootImg} {files : Files} {hdr : ImgHdr} {flags : Flags}

/-! ### Packing -/

/-- What is written for each block, with a content for the kernel and with the ramdisk and the table
as they are packed. -/
def newBlocks (t : Tools) (mem : Str) (boot : BootImg) (files : Files) (content : Str)
    (ramdisk : Option Str) (table : Str) : Block → Str :=
  sections mem boot files content ramdisk
    (files.extra.map (recompress t.compress t.skipComp boot.eFmt boot.eFmt)) table

/-- The files can be packed.

Besides what is asked of the files, the size that is noted for the kernel is that of its content,
the space for the header is large enough for its sizes to be stored, what a footer points to is a
header of at least 256 bytes in the file, and the output has less than 4 GiB. -/
structure Packable (t : Tools) (mem : Str) (mapSize : Nat) (boot : BootImg) (files : Files)
    (content : Str) (ramdisk : Option Str) (table : Str) : Prop where
  placed : Placed mem boot files
  content : kernelContent t.compress t.skipComp mem boot files = .ok (content, content.length)
  ramdisk : ramdiskBlock t.compress t.skipComp mem boot files (startHdr boot files) =
    .ok (ramdisk, table)
  roomy : Roomy boot
  stored : ∀ f o, boot.hdr.cls.offset f = some o → (f = .pageSize ∨ ∃ b : Block, f = b.sizeField) →
    o + 4 ≤ storedSize boot
  dhtb : boot.flags.dhtb = true → 40 ≤ boot.hdr.get .pageSize
  avb : boot.flags.avb = true → 256 ≤ vbmetaSize mem boot ∧
    boot.vbmeta.getD 0 + vbmetaSize mem boot ≤ mem.length
  small : ∀ w off, writeBlocks t.compress t.skipComp mem boot files = .ok (w, off) →
    (writeTail mem boot mapSize w off).1.out.length < 2 ^ 32

/-- An image that was packed, with the blocks as they were written before. -/
structure PackedBy (t : Tools) (mem : Str) (mapSize : Nat) (boot : BootImg) (files : Files)
    (d : Block → Str) (w₀ : ImgWriter) (off₀ : Offsets) (w : ImgWriter) (off : Offsets) :
    Prop where
  write : writeBlocks t.compress t.skipComp mem boot files = .ok (w₀, off₀)
  written : Written mem boot files d w₀ off₀
  counted : ∀ b, uncounted mem boot b ≤ (d b).length
  offsets : off = (writeTail mem boot mapSize w₀ off₀).2
  tailed : Tailed mem boot w₀ off₀ (writeTail mem boot mapSize w₀ off₀).1 off
  repack : repack t mem mapSize boot files = .ok (some (w, off))
  patch : patchImage t.sha t.sign t.patchVbmeta mem boot (writeTail mem boot mapSize w₀ off₀).1
    off = .ok w
  packed : Packed t.sign mem boot files d w off
  located : Located boot mem (writeTail mem boot mapSize w₀ off₀).1.out off

section Packing

variable {t : Tools} {mapSize : Nat} {content table : Str} {ramdisk : Option Str}

variable (hp : Packable t mem mapSize boot files content ramdisk table) (hr : Ready mem boot)

include hp hr

lemma Packable.length_table : table.length = boot.size .vendorRamdiskTable ∧
      (ramdisk = none → files.ramdisk = none ∨ boot.size .vendorRamdiskTable ≠ 0) := by
  obtain ⟨ramdisk', table', hramdisk', htable, hnone⟩ :=
    ramdiskBlock_eq t.compress t.skipComp hr hp.placed (startHdr boot files)
  cases hp.ramdisk.symm.trans hramdisk'
  exact ⟨htable, hnone⟩

/-- **Files that can be packed are packed.** -/
lemma Packable.exists_packed :
    ∃ w₀ off₀ w off, PackedBy t mem mapSize boot files
      (newBlocks t mem boot files content ramdisk table) w₀ off₀ w off := by
  obtain ⟨htable, hnone⟩ := hp.length_table hr
  obtain ⟨w₀, off₀, hwrite, hw⟩ :=
    writeBlocks_sections hr hp.placed hp.content hp.ramdisk htable hnone
  have hsmall := hp.small w₀ off₀ hwrite
  have ht := tailed_writeTail mem mapSize w₀ hr.page.1 (hw.length_out hr).1
    fun hflag => (hp.avb hflag).2
  have hlocated := (located_of_tailed hr hw ht hsmall hp.dhtb fun hflag => (hp.avb hflag).1).1
  obtain ⟨w, hrepack, hpatch, hpacked⟩ := repack_of_written mapSize hr
    (fun hne => (hp.placed.tableSafe hr hne).1) hwrite hw (uncounted_le _ _ _ _) hp.roomy hp.dhtb
    hp.avb hsmall
  exact ⟨w₀, off₀, w, _, hwrite, hw, uncounted_le _ _ _ _, rfl, ht, hrepack, hpatch, hpacked,
    hlocated⟩

end Packing

/-! ### What is before the image -/

/-- What is before the image is copied from the start of the file. -/
lemma window_preHeader (h : o + n ≤ (preHeader mem boot).length) :
    window (preHeader mem boot) o n = window mem o n := by
  have hcopy : ∃ k, preHeader mem boot = window mem 0 k := by
    rw [preHeader]
    split_ifs
    · exact ⟨_, rfl⟩
    · exact ⟨_, rfl⟩
    · exact ⟨_, rfl⟩
    · exact ⟨_, rfl⟩
    · exact ⟨0, rfl⟩
  obtain ⟨k, hk⟩ := hcopy
  rw [hk] at h ⊢
  have hlen : (window mem 0 k).length ≤ k := length_take_le _ _
  rw [window_window (by omega), Nat.zero_add]

namespace PackedBy

variable {t : Tools} {mapSize : Nat} {d : Block → Str} {w₀ w : ImgWriter} {off₀ off : Offsets}
  (h : PackedBy t mem mapSize boot files d w₀ off₀ w off)

include h

lemma prefix_tail : startBytes mem boot ++ pack 0 (boot.hdr.get .pageSize) (Block.all.map d) ++
    vendorTrailer boot <+: (writeTail mem boot mapSize w₀ off₀).1.out := by
  rw [← h.written.laid.out]
  exact grows_writeTail mem boot mapSize w₀ off₀

variable (hr : Ready mem boot)

include hr

lemma hdrRoom_packed (hroom : Roomy boot) :
    hdrRoom boot w.hdr = .ok (storedSize boot) := by
  refine hdrRoom_eq hr.page h.packed.numbers.cls ?_ hroom
  rw [h.packed.numbers.other _ (by decide) fun b => (sizeField_ne_pageSize b).symm,
    (get_startHdr boot files).2.1 _ fun b => (sizeField_ne_pageSize b).symm]

lemma place_eq :
    off.kernel = place mem boot d .kernel ∧ off.ramdisk = place mem boot d .ramdisk := by
  have ha := apart_place hr d
  have hkernel := ha.stop .kernel
  have hramdisk := ha.stop .ramdisk
  have htail := h.packed.tail
  have hlt := h.located.lt
  have hoff : off.kernel = u32 (place mem boot d .kernel) ∧
      off.ramdisk = u32 (place mem boot d .ramdisk) := by
    rw [h.offsets]
    exact ⟨h.written.kernel, h.written.ramdisk⟩
  rwa [u32, Nat.mod_eq_of_lt (by omega), u32, Nat.mod_eq_of_lt (by omega)] at hoff

/-- No block and no header is patched behind the image. -/
lemma blocksSpared (hroom : Roomy boot) (hle : off.tail ≤ o)
    (n : Nat) : BlocksSpared boot off o n := by
  have ha := apart_place hr d
  have htail := h.packed.tail
  obtain ⟨hkernel, hramdisk⟩ := h.place_eq hr
  have hmtk : ∀ b, boot.mtkFlag b = true → place mem boot d b + 8 ≤ o := by
    intro b hb
    have hstop := ha.stop b
    have hcount := h.counted b
    rw [uncounted_eq hr, hb, mtkPart, if_pos rfl, mtkHdrSz] at hcount
    omega
  refine ⟨fun hflag => .inr ?_, fun hflag => .inr ?_, .inr ?_⟩
  · rw [hkernel]
    exact hmtk .kernel hflag
  · rw [hramdisk]
    exact hmtk .ramdisk hflag
  · have hstart := (hdrStart_le off hroom).2
    have hheader := h.packed.header
    have hkernel := ha.start .kernel
    have hstop := ha.stop .kernel
    omega

/-- **What is before the header is as it was in the file**, but for the numbers in a DHTB or a blob
header. -/
lemma window_front (hroom : Roomy boot)
    (hle : o + n ≤ hdrStart boot off) (hdhtb : boot.flags.dhtb = true → o + n ≤ 8 ∨ 52 ≤ o)
    (hblob : boot.flags.blob = true → o + n ≤ 96 ∨ 100 ≤ o) :
    window (mapped w.out) o n = window (startBytes mem boot) o n := by
  have hlocated := h.located
  have hpacked := h.packed
  have ha := apart_place hr d
  have hstart := (hdrStart_le off hroom)
  have hheader := hpacked.header
  have htail := hpacked.tail
  have hkernel := ha.start .kernel
  have hramdisk := ha.start .ramdisk
  have hstop := ha.stop .kernel
  have hoff := h.place_eq hr
  have hspared : Spared t.sign t.patchVbmeta boot off
      (writeTail mem boot mapSize w₀ off₀).1.out.length o n :=
    { blocks := ⟨fun _ => .inl (by omega), fun _ => .inl (by omega), .inl hle⟩
      footer := fun havb => by
        have hvb := hlocated.vbmeta havb
        rw [avbFooterSz]
        omega
      vbmeta := fun havb _ => .inl (by have hvb := hlocated.vbmeta havb; omega)
      dhtb := hdhtb
      blob := hblob
      signature := fun _ => ⟨hlocated.tail, .inl (by omega)⟩ }
  have hin : o + n ≤ (startBytes mem boot).length := by
    rw [length_startBytes hr]
    omega
  have hout := h.packed.holds.stop
  obtain ⟨rest, hrest⟩ := h.prefix_tail
  rw [window_mapped (by omega), window_patchImage h.patch (h.hdrRoom_packed hr hroom) hspared,
    ← hrest, append_assoc, append_assoc, window_append_left hin]

/-- The numbers in a DHTB or a blob header are before the image. -/
lemma le_header : (boot.flags.dhtb = true → 52 ≤ off.header) ∧
    (boot.flags.blob = true → 100 ≤ off.header) := by
  obtain ⟨hdhtb, hblob⟩ := length_preHeader hr
  rw [dhtbHdrSz] at hdhtb
  rw [blobHdrSz] at hblob
  rw [h.packed.header]
  refine ⟨fun hflag => by have := hdhtb hflag; omega, fun hflag => ?_⟩
  cases hd : boot.flags.dhtb with
  | true =>
    have := hdhtb hd
    omega
  | false =>
    have := hblob hd hflag
    omega

lemma window_microloader (hroom : Roomy boot)
    (hamonet : boot.flags.amonet = true) (hle : o + n ≤ amonetMicroloaderSz) :
    window (mapped w.out) (off.header + o) n = window mem (boot.payload.data + o) n := by
  obtain ⟨hdhtb, hblob⟩ := h.le_header hr
  have hheader := h.packed.header
  have hstart : hdrStart boot off = off.header + amonetMicroloaderSz := if_pos hamonet
  have hspace : amonetMicroloaderSz ≤ spaceOf boot.hdr := by
    rw [Roomy, if_pos hamonet] at hroom
    exact hroom
  rw [h.window_front hr hroom (by omega) (fun hd => .inr (by have := hdhtb hd; omega))
    (fun hb => .inr (by have := hblob hb; omega)), startBytes, window_append_right (by omega),
    hheader, Nat.add_sub_cancel_left, window_window (by omega)]

end PackedBy

/-! ### What leads to the header -/

/-- A loader at the start of the file, which looks like an image itself. -/
structure LoaderFirst (mem : Str) : Prop where
  magic : window mem 0 8 = bootMagic
  page : u32At mem 36 < 0x02000000
  amonet : ¬HasAmonet mem 0

/-- What comes before the image is at the start of the file, and the image is behind a loader. -/
def PreHeaderFirst (mem : Str) (boot : BootImg) : Prop :=
  if boot.flags.dhtb then window mem 0 8 = dhtbMagic
  else if boot.flags.blob then window mem 0 20 = tegrablobMagic
  else if boot.flags.nookhd then
    LoaderFirst mem ∧ HasNookhd mem 0 ∧ boot.payload.data = nookhdPreHeaderSz
  else if boot.flags.acclaim then
    LoaderFirst mem ∧ ¬HasNookhd mem 0 ∧ window mem 48 10 = str "BauwksBoot" ∧
      boot.payload.data = acclaimPreHeaderSz
  else True

/-- The header is looked for behind a loader. -/
def BootImg.behindLoader (boot : BootImg) : Bool :=
  !boot.flags.dhtb && !boot.flags.blob && (boot.flags.nookhd || boot.flags.acclaim)

/-- The image starts with a microloader, and the header behind that one has its marks. -/
structure MicroloaderFirst (mem : Str) (boot : BootImg) : Prop where
  magic : window mem boot.payload.data 8 = bootMagic
  page : u32At mem (boot.payload.data + 36) < 0x02000000
  text : bufferContain (window mem boot.payload.data amonetMicroloaderSz) (str "microloader") = true
  cls : boot.hdr.cls.isAosp = true ∧ boot.hdr.cls.offset .pageSize = some 36
  marked : boot.hdr.cls.Marked boot.hdr.raw 0
  size : boot.hdr.get .pageSize ≤ amonetMicroloaderSz + boot.hdr.cls.hdrSize

/-- The header of the new image will be found.

What comes before the image is at the start of the file; an extra block, of which there are `extra`
bytes, does not look like a version; and there is no mark of a loader in the header if no loader is
there, nor is one missing. -/
structure Findable (mem : Str) (boot : BootImg) (files : Files) (extra : Nat) : Prop where
  preHeader : PreHeaderFirst mem boot
  version : boot.hdr.cls = .v0 → aospClass extra = .v0
  loader : boot.behindLoader = true → boot.hdr.cls.isAosp = true ∧ boot.flags.amonet = false
  microloader : boot.flags.amonet = true → MicroloaderFirst mem boot
  plain : boot.behindLoader = false → boot.flags.amonet = false → boot.hdr.cls.isAosp = true →
    NoLoader (startHdr boot files).raw 0

/-- The scan of a file comes to a header, with blocks that fit the file. -/
structure Found (verify : Str → Str → Bool) (file : Str) (header : Nat) (hdr : ImgHdr)
    (flags : Flags) : Prop where
  scan : ∃ addr type flags₀,
    Visited (scanStep verify (mapped file) file.length) (0, {}) (addr, flags₀) ∧
    scanStep verify (mapped file) file.length (addr, flags₀) =
      tryImage verify (mapped file) addr type flags₀ ∧
    parseHdr (mapped file) addr type flags₀ = .ok (header, some hdr, flags)
  page : PageSafe (hdr.get .pageSize)
  fits : Fits (mapped file) header hdr

/-- The blocks of an image are accepted, or the program ends. -/
lemma parseBlocks_ne_rejected : parseBlocks verify mem img ≠ .ok (.rejected flags) := by
  intro h
  obtain ⟨img₁, -, h⟩ := bind_eq_ok.mp h
  obtain ⟨img₂, -, h⟩ := bind_eq_ok.mp h
  cases img₂ with
  | none => cases h
  | some img₂ =>
    obtain ⟨img₃, -, h⟩ := bind_eq_ok.mp h
    cases htail : parseTail mem verify img₃ with
    | error e =>
      rw [htail] at h
      cases h
    | ok img₄ =>
      rw [htail] at h
      cases h

/-- **An image that is found is accepted if its blocks are.** -/
lemma Found.bootImg_eq_ok {header} (h : Found verify file header hdr flags) :
    bootImg verify file = .ok (some img) ↔
      parseBlocks verify (mapped file) (.ofHdr (mapped file) header hdr flags) =
        .ok (.accepted img) := by
  obtain ⟨addr, type, flags₀, hvisited, hstep, hhdr⟩ := h.scan
  have himage : parseImage verify (mapped file) addr type flags₀ =
      parseBlocks verify (mapped file) (.ofHdr (mapped file) header hdr flags) := by
    rw [parseImage_of_hdr hhdr, parseSizes_eq h.page, if_pos h.fits]
  rw [bootImg, loop_of_visited hvisited, loop_eq, hstep, tryImage, himage]
  cases hblocks : parseBlocks verify (mapped file) (.ofHdr (mapped file) header hdr flags) with
  | error e => exact ⟨by rintro ⟨⟩, by rintro ⟨⟩⟩
  | ok parsed =>
    cases parsed with
    | accepted img' =>
      constructor
      · intro heq
        exact congrArg (Except.ok ∘ Parsed.accepted) (Option.some.inj (Except.ok.inj heq))
      · intro heq
        exact congrArg (Except.ok ∘ some) (Parsed.accepted.inj (Except.ok.inj heq))
    | rejected flags => exact absurd hblocks parseBlocks_ne_rejected
    | exited => exact ⟨by rintro ⟨⟩, by rintro ⟨⟩⟩

/-- The part of the header that is stored has its marks. -/
lemma le_storedSize (hstored : ∀ f o, boot.hdr.cls.offset f = some o →
      (f = .pageSize ∨ ∃ b : Block, f = b.sizeField) → o + 4 ≤ storedSize boot)
    (hmicro : boot.flags.amonet = true → boot.hdr.cls.offset .pageSize = some 36) :
    44 ≤ storedSize boot := by
  cases hamonet : boot.flags.amonet with
  | false =>
    rw [storedSize, hamonet]
    change 44 ≤ boot.hdr.cls.hdrSize
    cases boot.hdr.cls <;> decide
  | true =>
    have hpage := hmicro hamonet
    have hlast : ∃ b : Block, ∃ o, boot.hdr.cls.offset b.sizeField = some o ∧ 40 ≤ o := by
      generalize boot.hdr.cls = c at hpage
      cases c with
      | v0 => exact ⟨.extra, 40, rfl, le_rfl⟩
      | v1 | v2 => exact ⟨.recoveryDtbo, 1632, rfl, by decide⟩
      | v3 | v4 | pxa | vndV3 | vndV4 => cases hpage
    obtain ⟨b, o, ho, hle⟩ := hlast
    have hin := hstored _ o ho (.inr ⟨b, rfl⟩)
    omega

lemma parseHdr_microloader (hpage : u32At mem (addr + 36) < 0x02000000)
    (hmicro : HasAmonet mem addr) (hm : c.Marked mem (addr + amonetMicroloaderSz))
    (hc : c.isAosp = true) (hle : addr + amonetMicroloaderSz + 44 ≤ mem.length)
    (hsize : amonetMicroloaderSz ≤ u32At mem (addr + amonetMicroloaderSz + 36))
    (hload : loadHdr mem c (addr + amonetMicroloaderSz)
      (u32At mem (addr + amonetMicroloaderSz + 36) - amonetMicroloaderSz) = .ok hdr) :
    parseHdr mem addr .aosp flags = .ok (addr, some hdr, { flags with amonet := true }) := by
  rw [parseHdr_of_small hpage (by omega), if_pos hmicro]
  refine bind_eq_ok.mpr ⟨_, loadU32_eq (by omega), bind_eq_ok.mpr ⟨_, if_pos hsize, ?_⟩⟩
  exact bind_eq_ok.mpr ⟨some hdr, makeAospHdr_eq hm hc hle hload, rfl⟩

section Loader

variable {c : HdrClass} (hloader : LoaderFirst mem) (hc : c.isAosp = true)

include hloader hc

lemma parseHdr_nookhd (hnookhd : HasNookhd mem 0) (hm : c.Marked mem nookhdPreHeaderSz)
    (hload : loadHdr mem c nookhdPreHeaderSz c.hdrSize = .ok hdr) :
    parseHdr mem 0 .aosp flags =
      .ok (nookhdPreHeaderSz, some hdr, { flags with nookhd := true }) := by
  have hle := (succeeds_loadHdr_iff.mp ⟨hdr, hload⟩).2
  have hsize : 44 ≤ c.hdrSize := by cases c <;> decide
  have hpre : amonetMicroloaderSz + 8 ≤ nookhdPreHeaderSz := by decide
  rw [parseHdr_of_small (by rw [Nat.zero_add]; exact hloader.page) (by omega),
    if_neg hloader.amonet, if_pos hnookhd, Nat.zero_add]
  exact bind_eq_ok.mpr ⟨some hdr, makeAospHdr_eq hm hc (by omega) hload, rfl⟩

lemma parseHdr_acclaim (hnookhd : ¬HasNookhd mem 0) (hname : window mem 48 10 = str "BauwksBoot")
    (hm : c.Marked mem acclaimPreHeaderSz)
    (hload : loadHdr mem c acclaimPreHeaderSz c.hdrSize = .ok hdr) :
    parseHdr mem 0 .aosp flags =
      .ok (acclaimPreHeaderSz, some hdr, { flags with acclaim := true }) := by
  have hle := (succeeds_loadHdr_iff.mp ⟨hdr, hload⟩).2
  have hsize : 44 ≤ c.hdrSize := by cases c <;> decide
  have hpre : amonetMicroloaderSz + 8 ≤ acclaimPreHeaderSz := by decide
  rw [parseHdr_of_small (by rw [Nat.zero_add]; exact hloader.page) (by omega),
    if_neg hloader.amonet, if_neg hnookhd, Nat.zero_add, if_pos hname, Nat.zero_add]
  exact bind_eq_ok.mpr ⟨some hdr, makeAospHdr_eq hm hc (by omega) hload, rfl⟩

end Loader

lemma LoaderFirst.congr {mem' : Str}
    (hsame : ∀ o n, o + n ≤ amonetMicroloaderSz + 8 → window mem' o n = window mem o n) :
    (LoaderFirst mem → LoaderFirst mem') ∧ (HasNookhd mem' 0 ↔ HasNookhd mem 0) := by
  have hamonet : HasAmonet mem' 0 ↔ HasAmonet mem 0 := by
    rw [HasAmonet, HasAmonet, hsame 0 amonetMicroloaderSz (by decide),
      hsame (0 + amonetMicroloaderSz) 8 (by decide)]
  refine ⟨fun hl => ⟨(hsame 0 8 (by decide)).trans hl.magic, ?_, hamonet.not.mpr hl.amonet⟩, ?_⟩
  · rw [u32At, hsame 36 4 (by decide)]
    exact hl.page
  · refine exists_congr fun text => and_congr_right fun htext => ?_
    have hlen := length_nookhdMagics text htext
    rw [hsame (0 + 64) text.length (by rw [amonetMicroloaderSz]; omega)]

/-! ### The scan of a packed image -/

namespace PackedBy

variable {t : Tools} {mapSize : Nat} {d : Block → Str} {w₀ w : ImgWriter} {off₀ off : Offsets}
  (h : PackedBy t mem mapSize boot files d w₀ off₀ w off)

include h

lemma hdr_le (hr : Ready mem boot) (hroom : Roomy boot) :
    hdrStart boot off + storedSize boot ≤ w.out.length := by
  have ha := apart_place hr d
  have h₁ := (hdrStart_le off hroom).2
  have h₂ := ha.start .kernel
  have h₃ := ha.stop .kernel
  have h₄ := h.packed.header
  have h₅ := h.packed.holds.stop
  omega

lemma window_hdr (hr : Ready mem boot) (hroom : Roomy boot) (hle : o + n ≤ storedSize boot) :
    window (mapped w.out) (hdrStart boot off + o) n = window w.hdr.raw o n := by
  have hin := h.hdr_le hr hroom
  have hraw : window w.hdr.raw 0 (storedSize boot) = w.hdr.raw.take (storedSize boot) := rfl
  rw [window_mapped (by omega), ← window_window hle, h.packed.stored, ← hraw, window_window hle,
    Nat.zero_add]

/-- The scan comes to the image, if there is no loader. -/
lemma visited_header (verify : Str → Str → Bool) (hr : Ready mem boot) (hroom : Roomy boot)
    (hpre : PreHeaderFirst mem boot) (hloader : boot.behindLoader = false) :
    ∃ flags, Visited (scanStep verify (mapped w.out) w.out.length) (0, {}) (off.header, flags) := by
  obtain ⟨hdhtb, hblob⟩ := length_preHeader hr
  have hheader := h.packed.header
  have hin := h.hdr_le hr hroom
  have hstart := (hdrStart_le off hroom).1
  -- what is found at the start of the file is found again
  have hcheck : ∀ (magic : Str) {fmt : FileFormat}, (∀ rest, checkFmt (magic ++ rest) = fmt) →
      window mem 0 magic.length = magic → magic.length ≤ off.header →
      (boot.flags.dhtb = true → magic.length ≤ 8) → (boot.flags.blob = true → magic.length ≤ 96) →
      checkFmtAt (mapped w.out) 0 w.out.length = .ok fmt := by
    intro magic fmt hfmt hmagic hn hd hb
    have hmap := le_length_mapped w.out
    have hfirst : window w.out 0 magic.length = magic := by
      rw [← window_mapped (by omega), h.window_front hr hroom (by omega)
        (fun hflag => .inl (by have := hd hflag; omega))
        (fun hflag => .inl (by have := hb hflag; omega)), startBytes, window_append_left (by omega),
        window_preHeader (by omega)]
      exact hmagic
    have hout : w.out = magic ++ w.out.drop magic.length := by
      conv_lhs => rw [← take_append_drop magic.length w.out]
      exact congrArg (· ++ _) hfirst
    rw [checkFmtAt_eq (by omega), window_mapped (by omega), window_length, hout, hfmt]
  rw [PreHeaderFirst] at hpre
  cases hd : boot.flags.dhtb with
  | true =>
    rw [hd] at hpre
    rw [hdhtb hd, dhtbHdrSz] at hheader
    have hfmt := hcheck dhtbMagic
      (checkFmt_append (fmtChecks.take 14) (fmtChecks.drop 15) rfl (by decide)) hpre
      (by change 8 ≤ _; omega) (fun _ => le_rfl) fun _ => by decide
    rw [hheader]
    refine ⟨{ dhtb := true, seandroid := true }, .next ?_ (.refl _)⟩
    rw [scanStep, if_pos (by omega), hfmt]
    rfl
  | false =>
    cases hb : boot.flags.blob with
    | true =>
      rw [hd, hb] at hpre
      rw [hblob hd hb, blobHdrSz] at hheader
      have hfmt := hcheck tegrablobMagic
        (checkFmt_append (fmtChecks.take 15) (fmtChecks.drop 16) rfl (by decide)) hpre
        (by change 20 ≤ _; omega) (by rw [hd]; rintro ⟨⟩) fun _ => by decide
      rw [hheader]
      refine ⟨{ blob := true }, .next ?_ (.refl _)⟩
      rw [scanStep, if_pos (by omega), hfmt]
      rfl
    | false =>
      have hnil : (preHeader mem boot).length = 0 := by
        rw [BootImg.behindLoader, hd, hb] at hloader
        obtain ⟨hn, ha⟩ := Bool.or_eq_false_iff.mp hloader
        rw [preHeader, hd, hb, hn, ha]
        rfl
      rw [hheader, hnil]
      exact ⟨{}, .refl _⟩

lemma marked_header (hr : Ready mem boot) (hroom : Roomy boot) (hsize : 44 ≤ storedSize boot)
    (hm : boot.hdr.cls.Marked boot.hdr.raw 0)
    (hversion : boot.hdr.cls = .v0 → aospClass (d .extra).length = .v0) :
    boot.hdr.cls.Marked (mapped w.out) (hdrStart boot off) := by
  have hcls := h.packed.numbers.cls
  have hchoice := boot.hdr.cls.choiceOffset_le
  have hm' := h.packed.numbers.marked hm hversion
  rw [hcls] at hm'
  refine hm'.congr ?_ ?_
  · exact h.window_hdr hr hroom (o := 0) (by omega)
  · rw [Nat.zero_add]
    exact h.window_hdr hr hroom (by omega)

/-- There is no mark of a loader where the header is stored, if there is none before. -/
lemma noLoader_header (hr : Ready mem boot) (hroom : Roomy boot)
    (hamonet : boot.flags.amonet = false) (hc : boot.hdr.cls.isAosp = true)
    (hn : NoLoader (startHdr boot files).raw 0) : NoLoader (mapped w.out) off.header := by
  have hstart : hdrStart boot off = off.header := by rw [hdrStart, hamonet]; rfl
  have hsize : 1032 ≤ storedSize boot := by
    rw [storedSize, hamonet]
    change 1032 ≤ boot.hdr.cls.hdrSize
    cases boot.hdr.cls <;> decide
  have hwindow : ∀ o n, o + n ≤ 1032 →
      window (mapped w.out) (off.header + o) n = window w.hdr.raw (0 + o) n := by
    intro o n hle
    rw [Nat.zero_add, ← hstart]
    exact h.window_hdr hr hroom (by omega)
  refine (h.packed.numbers.noLoader hc hn).congr ?_ (hwindow 48 46 (by decide))
    (hwindow amonetMicroloaderSz 8 (by decide))
  rw [u32At, u32At, hwindow 36 4 (by decide)]

section

variable (verify : Str → Str → Bool) (hr : Ready mem boot) (hroom : Roomy boot)
  (hsize : 44 ≤ storedSize boot) (hm : boot.hdr.cls.Marked boot.hdr.raw 0)
  (hf : Findable mem boot files (d .extra).length)

include verify hr hroom hsize hm hf

/-- `parse_hdr` finds the header of a packed image that is not behind a loader. -/
lemma parseHdr_header (hloader : boot.behindLoader = false)
    (hload : loadHdr (mapped w.out) boot.hdr.cls (hdrStart boot off) (storedSize boot) = .ok hdr)
    (hpage : hdr.get .pageSize = boot.hdr.get .pageSize) (flags : Flags) :
    ∃ type flags', scanStep verify (mapped w.out) w.out.length (off.header, flags) =
        tryImage verify (mapped w.out) off.header type flags ∧
      parseHdr (mapped w.out) off.header type flags = .ok (off.header, some hdr, flags') := by
  have hmarked := h.marked_header hr hroom hsize hm hf.version
  have hin := h.hdr_le hr hroom
  have hmap := le_length_mapped w.out
  cases hamonet : boot.flags.amonet with
  | false =>
    have hstart' : hdrStart boot off = off.header := by rw [hdrStart, hamonet]; rfl
    have hstored : storedSize boot = boot.hdr.cls.hdrSize := by rw [storedSize, hamonet]; rfl
    rw [hstart', hstored] at hload
    rw [hstart'] at hmarked
    cases hvendor : boot.hdr.cls.isVendor with
    | true =>
      have hmagic : window (mapped w.out) off.header 8 = vendorBootMagic := by
        rw [hmarked.magic, HdrClass.magic, if_pos hvendor]
      exact ⟨.aospVendor, flags, scanStep_of_vendor (by omega)
        (checkFmtAt_vendorBootMagic (by omega) (by omega) hmagic),
        parseHdr_vendor hmarked hvendor hload⟩
    | false =>
      have hmagic : window (mapped w.out) off.header 8 = bootMagic := by
        rw [hmarked.magic, HdrClass.magic, hvendor]
        rfl
      refine ⟨.aosp, flags, scanStep_of_aosp (by omega)
        (checkFmtAt_bootMagic (by omega) (by omega) hmagic), ?_⟩
      cases haosp : boot.hdr.cls.isAosp with
      | true =>
        exact parseHdr_plain hmarked haosp
          (h.noLoader_header hr hroom hamonet haosp (hf.plain hloader hamonet haosp)) hload
      | false =>
        have hpxa : boot.hdr.cls = .pxa := by
          revert hvendor haosp
          cases boot.hdr.cls <;> decide
        rw [hpxa] at hmarked hload
        exact parseHdr_pxa hmarked hload
  | true =>
    obtain ⟨hmagic, hpage', htext, ⟨haosp, hoffset⟩, -, hle⟩ := hf.microloader hamonet
    have hstart' : hdrStart boot off = off.header + amonetMicroloaderSz := if_pos hamonet
    have hspace : spaceOf boot.hdr = boot.hdr.get .pageSize := by
      have hvendor : boot.hdr.cls.isVendor = false := by
        revert haosp
        cases boot.hdr.cls <;> decide
      rw [spaceOf, hvendor]
      rfl
    have hstored : storedSize boot = boot.hdr.get .pageSize - amonetMicroloaderSz := by
      rw [storedSize, if_pos hamonet]
      omega
    -- the size that is read again is the one of which the space was taken
    have hreal : u32At (mapped w.out) (off.header + amonetMicroloaderSz + 36) =
        boot.hdr.get .pageSize := by
      have hcls : hdr.cls = boot.hdr.cls := (get_loadHdr hload).1
      rw [← hpage, ImgHdr.get_of_some (hcls.symm ▸ hoffset), u32At,
        window_loadHdr hload (by omega), hstart']
    have hwindow : ∀ o n, o + n ≤ amonetMicroloaderSz →
        window (mapped w.out) (off.header + o) n = window mem (boot.payload.data + o) n :=
      fun o n hon => h.window_microloader hr hroom hamonet hon
    have hmagic' : window (mapped w.out) off.header 8 = bootMagic :=
      (hwindow 0 8 (by decide)).trans hmagic
    rw [hstart', hstored, ← hreal] at hload
    rw [hstart'] at hmarked hin
    refine ⟨.aosp, { flags with amonet := true }, scanStep_of_aosp (by omega)
      (checkFmtAt_bootMagic (by omega) (by omega) hmagic'),
      parseHdr_microloader ?_ ⟨?_, ?_⟩ hmarked haosp (by omega) (by omega) hload⟩
    · rw [u32At, hwindow 36 4 (by decide)]
      exact hpage'
    · exact (congrArg (bufferContain · _) (hwindow 0 amonetMicroloaderSz le_rfl)).trans htext
    · exact hmarked.magic.trans (HdrClass.magic_of_isAosp haosp)

/-- So it does behind a loader. -/
lemma parseHdr_loader (hloader : boot.behindLoader = true)
    (hload : loadHdr (mapped w.out) boot.hdr.cls (hdrStart boot off) (storedSize boot) = .ok hdr)
    (flags : Flags) :
    ∃ flags', scanStep verify (mapped w.out) w.out.length (0, flags) =
        tryImage verify (mapped w.out) 0 .aosp flags ∧
      parseHdr (mapped w.out) 0 .aosp flags = .ok (off.header, some hdr, flags') := by
  obtain ⟨haosp, hamonet⟩ := hf.loader hloader
  have hmarked := h.marked_header hr hroom hsize hm hf.version
  have hstart : hdrStart boot off = off.header := by rw [hdrStart, hamonet]; rfl
  have hstored : storedSize boot = boot.hdr.cls.hdrSize := by rw [storedSize, hamonet]; rfl
  rw [hstart, hstored] at hload
  rw [hstart] at hmarked
  rw [BootImg.behindLoader, Bool.and_eq_true, Bool.and_eq_true, Bool.not_eq_true',
    Bool.not_eq_true', Bool.or_eq_true] at hloader
  obtain ⟨⟨hdhtb, hblob⟩, hflag⟩ := hloader
  have hpre := hf.preHeader
  rw [PreHeaderFirst, hdhtb, hblob] at hpre
  have hheader := h.packed.header
  have hspace := hr.space
  have hin := h.hdr_le hr hroom
  have hmap := le_length_mapped w.out
  have hsame : amonetMicroloaderSz + 8 ≤ off.header → ∀ o n, o + n ≤ amonetMicroloaderSz + 8 →
      window (mapped w.out) o n = window mem o n := by
    intro hle o n hon
    rw [h.window_front hr hroom (by omega) (by rw [hdhtb]; rintro ⟨⟩) (by rw [hblob]; rintro ⟨⟩),
      startBytes, window_append_left (by omega), window_preHeader (by omega)]
  have hstep : LoaderFirst (mapped w.out) →
      scanStep verify (mapped w.out) w.out.length (0, flags) =
        tryImage verify (mapped w.out) 0 .aosp flags := fun hfirst =>
    scanStep_of_aosp (by omega) (checkFmtAt_bootMagic (by omega) (by omega) hfirst.magic)
  cases hn : boot.flags.nookhd with
  | true =>
    rw [hn] at hpre
    obtain ⟨hfirst, hnookhd, hdata⟩ := hpre
    have hoff : off.header = nookhdPreHeaderSz := by
      rw [hheader, preHeader, hdhtb, hblob, hn]
      exact length_window (by omega)
    have hpre := hsame (by rw [hoff]; decide)
    have hfirst' := (LoaderFirst.congr hpre).1 hfirst
    refine ⟨{ flags with nookhd := true }, hstep hfirst', ?_⟩
    rw [hoff] at hmarked hload ⊢
    exact parseHdr_nookhd hfirst' haosp ((LoaderFirst.congr hpre).2.mpr hnookhd) hmarked hload
  | false =>
    have ha : boot.flags.acclaim = true := hflag.resolve_left (by rw [hn]; decide)
    rw [hn, ha] at hpre
    obtain ⟨hfirst, hnookhd, hname, hdata⟩ := hpre
    have hoff : off.header = acclaimPreHeaderSz := by
      rw [hheader, preHeader, hdhtb, hblob, hn, ha]
      exact length_window (by omega)
    have hpre := hsame (by rw [hoff]; decide)
    have hfirst' := (LoaderFirst.congr hpre).1 hfirst
    refine ⟨{ flags with acclaim := true }, hstep hfirst', ?_⟩
    rw [hoff] at hmarked hload ⊢
    exact parseHdr_acclaim hfirst' haosp ((LoaderFirst.congr hpre).2.not.mpr hnookhd)
      ((hpre 48 10 (by decide)).trans hname) hmarked hload

end

/-- **A packed image is found again**, with its blocks where they were written. -/
theorem found (verify : Str → Str → Bool) (hr : Ready mem boot) (hroom : Roomy boot)
    (hstored : ∀ f o, boot.hdr.cls.offset f = some o →
      (f = .pageSize ∨ ∃ b : Block, f = b.sizeField) → o + 4 ≤ storedSize boot)
    (hm : boot.hdr.cls.Marked boot.hdr.raw 0) (hf : Findable mem boot files (d .extra).length) :
    ∃ hdr flags, Found verify w.out off.header hdr flags ∧
      loadHdr (mapped w.out) boot.hdr.cls (hdrStart boot off) (storedSize boot) = .ok hdr ∧
      hdr.cls = boot.hdr.cls ∧ hdr.get .pageSize = boot.hdr.get .pageSize ∧
      ∀ b : Block, hdr.get b.sizeField = (d b).length ∧
        (BootImg.ofHdr (mapped w.out) off.header hdr flags).bytes (mapped w.out) b = w.log b := by
  obtain ⟨hdr, hload, hcls, hpage, hfits, hblocks⟩ := h.packed.walk hr hroom hstored
  have hsize := le_storedSize hstored fun hamonet => (hf.microloader hamonet).cls.2
  have hsafe : PageSafe (hdr.get .pageSize) := hpage.symm ▸ hr.page
  cases hloader : boot.behindLoader with
  | false =>
    obtain ⟨flags₀, hvisited⟩ := h.visited_header verify hr hroom hf.preHeader hloader
    obtain ⟨type, flags, hstep, hparse⟩ :=
      h.parseHdr_header verify hr hroom hsize hm hf hloader hload hpage flags₀
    exact ⟨hdr, flags, ⟨⟨_, type, flags₀, hvisited, hstep, hparse⟩, hsafe, hfits⟩, hload, hcls,
      hpage, hblocks⟩
  | true =>
    obtain ⟨flags, hstep, hparse⟩ :=
      h.parseHdr_loader verify hr hroom hsize hm hf hloader hload {}
    exact ⟨hdr, flags, ⟨⟨0, .aosp, {}, .refl _, hstep, hparse⟩, hsafe, hfits⟩, hload, hcls, hpage,
      hblocks⟩

end PackedBy

end Magisk.Boot
