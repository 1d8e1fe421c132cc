import Magisk.Boot.PackedImage

/-!
# A packed image says where its blocks are

The header that is stored at the end of packing has the sizes of what was written, so that the
blocks are found again from it.

* `ready_of_bootImg`: an image that was parsed can be packed;
* `Repackable`: what the files have to be like for it;
* `repack_eq`: what packing returns;
* `repack_walk`: the blocks are where the sizes in the new header say.
-/

namespace Magisk.Boot

open Magisk.Base Magisk.Lib List

variable {mem : Str} {boot : BootImg} {files : Files} {d : Block → Str} {hdr : ImgHdr}

/-! ### Parsed images -/

variable {h : ImgHdr} {verify : Str → Str → Bool} {t : Tools} {addr : Nat} {img : BootImg}

lemma spaceOf_eq (hcls : h'.cls = h.cls) (hpage : h'.get .pageSize = h.get .pageSize) :
    spaceOf h' = spaceOf h := by
  rw [spaceOf, spaceOf, hcls, hpage]

lemma spaceOf_pos (hpage : 0 < hdr.get .pageSize) : 0 < spaceOf hdr := by
  have hle := le_alignTo hpage hdr.cls.hdrSize
  have hpos : 0 < hdr.cls.hdrSize := by cases hdr.cls <;> decide
  rw [spaceOf]
  split
  · omega
  · exact hpage

/-- **An image that was parsed can be packed.** -/
lemma ready_of_bootImg (h : bootImg verify file = .ok (some boot)) : Ready (mapped file) boot := by
  obtain ⟨addr, type, flags, hfresh, himage⟩ := exists_of_bootImg h
  have hplace := inPlace_of_accepted himage
  obtain ⟨addr', hdr, flags', hhdr, hpage, hfit, hblocks⟩ := exists_of_parseImage himage
  obtain ⟨huntouched, hfresh'⟩ :=
    untouched_ofHdr (mapped file) addr' hdr (hfresh.parseHdr hhdr)
  have htaken := taken_of_parseBlocks huntouched hfresh' hblocks
  have hin : InPlace _ (.ofHdr (mapped file) addr' hdr flags') := inPlace_ofHdr hpage hfit
  have hpage' : boot.hdr.get .pageSize = hdr.get .pageSize := htaken.get _ (by decide) (by decide)
  have hspace : spaceOf boot.hdr = spaceOf hdr := spaceOf_eq htaken.cls hpage'
  have hend : ∀ b, boot.ptr b + boot.size b ≤ (mapped file).length := fun b => by
    have h₁ := hplace.stop b
    have h₂ := hplace.payload
    have h₃ := hplace.tail
    omega
  have hend' : ∀ b, (BootImg.ofHdr (mapped file) addr' hdr flags').ptr b +
      (BootImg.ofHdr (mapped file) addr' hdr flags').size b ≤ (mapped file).length := fun b => by
    have h₁ := hin.stop b
    have h₂ := hin.payload
    have h₃ := hin.tail
    omega
  have hparts : ∀ {start stop vs}, Tiled start vs stop → stop ≤ (mapped file).length →
      ∀ v ∈ vs, (v.bytes (mapped file)).length = v.size := by
    intro start stop vs ht hstop v hv
    rcases ht.mem_le hv with hzero | hle
    · rw [ByteView.bytes, hzero, window_zero, length_nil]
    · exact length_window (hle.trans hstop)
  have hroom : addr' + spaceOf hdr ≤ (mapped file).length := by
    have hle := le_endOffset hpage.1 (spaceOf hdr) (blockSizes hdr)
    have hfit' : addr' + endOffset _ _ _ ≤ (mapped file).length := hfit
    omega
  refine
    { page := hpage'.symm ▸ hpage
      space := by rw [hspace, htaken.payload]; exact hroom
      bytes := fun b => length_window (hend b)
      kernelParts := hparts htaken.kernel (hend' .kernel)
      ramdiskParts := hparts htaken.ramdisk (hend' .ramdisk)
      noKernel := fun hnone v hv => ?_
      table := htaken.table
      tableSafe := htaken.tableSafe
      inTable := hend .vendorRamdiskTable
      footer := fun havb => ?_
      dhtb := htaken.dhtb
      pages := ?_ }
  · have hzero : (BootImg.ofHdr (mapped file) addr' hdr flags').size .kernel = 0 := by
      have hnone' : hdr.cls.offset .kernelSize = none := htaken.cls ▸ hnone
      exact (ImgHdr.get_of_none hnone').trans (ImgHdr.fixed_eq_zero _ (by decide))
    have hkernel := htaken.kernel
    rw [hzero] at hkernel
    exact hkernel.size_eq_zero hv
  · obtain ⟨p, hp, hle⟩ := htaken.footer havb
    rw [hp]
    exact hle.trans hin.tail.le
  · have hpos := spaceOf_pos hpage.1
    refine Nat.le_of_dvd (by omega) ?_
    rw [length_mapped]
    exact dvd_alignTo _

/-! ### Packing -/

/-- The files can be packed.

Besides what is asked of the files, the space for the header is large enough for its sizes to be
stored, what a footer points to is a header of at least 256 bytes in the file, and the output has
less than 4 GiB. -/
structure Repackable (t : Tools) (mem : Str) (mapSize : Nat) (boot : BootImg) (files : Files) :
    Prop where
  usable : Usable mem boot files
  roomy : Roomy boot
  stored : ∀ f o, boot.hdr.cls.offset f = some o → (f = .pageSize ∨ ∃ b : Block, f = b.sizeField) →
    o + 4 ≤ storedSize boot
  dhtb : boot.flags.dhtb = true → 40 ≤ boot.hdr.get .pageSize
  avb : boot.flags.avb = true → 256 ≤ vbmetaSize mem boot ∧
    boot.vbmeta.getD 0 + vbmetaSize mem boot ≤ mem.length
  small : ∀ w off, writeBlocks t.compress t.skipComp mem boot files = .ok (w, off) →
    (writeTail mem boot mapSize w off).1.out.length < 2 ^ 32

/-- **What packing returns**, once the blocks are written. -/
lemma repack_of_written (mapSize : Nat) (hr : Ready mem boot)
    (hguard : boot.size .vendorRamdiskTable ≠ 0 →
      boot.hdr.get .vendorRamdiskTableEntrySize = tableEntrySz)
    (hwrite : writeBlocks t.compress t.skipComp mem boot files = .ok (w₀, off₀))
    (hw : Written mem boot files d w₀ off₀) (hx : ∀ b, uncounted mem boot b ≤ (d b).length)
    (hroom : Roomy boot) (hdhtb : boot.flags.dhtb = true → 40 ≤ boot.hdr.get .pageSize)
    (havb : boot.flags.avb = true → 256 ≤ vbmetaSize mem boot ∧
      boot.vbmeta.getD 0 + vbmetaSize mem boot ≤ mem.length)
    (hsmall : (writeTail mem boot mapSize w₀ off₀).1.out.length < 2 ^ 32) :
    ∃ w, repack t mem mapSize boot files = .ok (some (w, (writeTail mem boot mapSize w₀ off₀).2)) ∧
      patchImage t.sha t.sign t.patchVbmeta mem boot (writeTail mem boot mapSize w₀ off₀).1
        (writeTail mem boot mapSize w₀ off₀).2 = .ok w ∧
      Packed t.sign mem boot files d w (writeTail mem boot mapSize w₀ off₀).2 := by
  have ht := tailed_writeTail mem mapSize w₀ hr.page.1 (hw.length_out hr).1
    fun hflag => (havb hflag).2
  obtain ⟨w, hpatch, hpacked⟩ := patchImage_eq t.sha t.sign t.patchVbmeta hr hw ht hx hsmall hroom
    hdhtb fun hflag => (havb hflag).1
  have hguard' : ¬(boot.size .vendorRamdiskTable ≠ 0 ∧
      boot.hdr.get .vendorRamdiskTableEntrySize ≠ tableEntrySz) := fun hbad =>
    hbad.2 (hguard hbad.1)
  refine ⟨w, ?_, hpatch, hpacked⟩
  rw [repack, if_neg hguard', hwrite]
  exact bind_eq_ok.mpr ⟨_, rfl, bind_eq_ok.mpr ⟨w, hpatch, rfl⟩⟩

/-- What it returns if nothing is compressed. -/
lemma repack_eq (hskip : t.skipComp = true) (hr : Ready mem boot)
    (hp : Repackable t mem mapSize boot files) :
    ∃ ramdisk table w off, repack t mem mapSize boot files = .ok (some (w, off)) ∧
      Packed t.sign mem boot files (blockData mem boot files ramdisk table) w off ∧
      (boot.size .vendorRamdiskTable = 0 → ramdisk = files.ramdisk) := by
  obtain ⟨ramdisk, table, w₀, off₀, hwrite, hw, -, hfile⟩ :=
    writeBlocks_eq t.compress hr hp.usable
  rw [← hskip] at hwrite
  have hx : ∀ b, uncounted mem boot b ≤ (blockData mem boot files ramdisk table b).length := by
    rw [← sections_eq_blockData t.compress]
    exact uncounted_le _ ramdisk _ table
  obtain ⟨w, hrepack, -, hpacked⟩ := repack_of_written mapSize hr
    (fun hne => (hp.usable.placed.tableSafe hr hne).1) hwrite hw hx hp.roomy hp.dhtb hp.avb
    (hp.small w₀ off₀ hwrite)
  exact ⟨ramdisk, table, w, _, hrepack, hpacked, hfile⟩

/-! ### Reading the header again -/

lemma ImgHdr.get_eq_of_window {h' : ImgHdr} (hcls : h'.cls = h.cls)
    (hs : ∀ o, h.cls.offset f = some o → window h'.raw o 4 = window h.raw o 4) :
    h'.get f = h.get f := by
  cases ho : h.cls.offset f with
  | none => rw [get_of_none ho, get_of_none (hcls.symm ▸ ho), hcls]
  | some o => rw [get_of_some ho, get_of_some (hcls.symm ▸ ho), hs o ho]

/-- A header that was stored in part has the numbers that were stored. -/
lemma get_loadHdr_of_stored {out : Str} (hsize : size ≤ h.cls.hdrSize)
    (hle : addr + size ≤ out.length) (hstored : window out addr size = h.raw.take size) :
    ∃ hdr, loadHdr (mapped out) h.cls addr size = .ok hdr ∧ hdr.cls = h.cls ∧
      ∀ f, (∀ o, h.cls.offset f = some o → o + 4 ≤ size) → hdr.get f = h.get f := by
  have hmap := le_length_mapped out
  have hslice : window (mapped out) addr size = h.raw.take size := (window_mapped hle).trans hstored
  have hlen : (h.raw.take size).length = size := by
    rw [length_take, h.length_raw]
    omega
  refine ⟨_, dif_pos ⟨hsize, by omega⟩, rfl, fun f hf => ?_⟩
  refine ImgHdr.get_eq_of_window (h := h) (by rfl) fun o ho => ?_
  have hin := hf o ho
  have hraw : window h.raw 0 size = h.raw.take size := rfl
  have htake : window (window h.raw 0 size) o 4 = window h.raw (0 + o) 4 := window_window hin
  rw [hraw, Nat.zero_add] at htake
  dsimp only
  rw [hslice, window_append_left (by omega), htake]

lemma storedSize_le (boot : BootImg) : storedSize boot ≤ boot.hdr.cls.hdrSize := by
  rw [storedSize]
  split
  · exact min_le_right _ _
  · exact le_rfl

/-- **The blocks of a packed image are found from its header.** -/
lemma Packed.walk
    (h : Packed sign mem boot files d w off) (hr : Ready mem boot) (hroom : Roomy boot)
    (hstored : ∀ f o, boot.hdr.cls.offset f = some o →
      (f = .pageSize ∨ ∃ b : Block, f = b.sizeField) → o + 4 ≤ storedSize boot) :
    ∃ hdr, loadHdr (mapped w.out) boot.hdr.cls (hdrStart boot off) (storedSize boot) = .ok hdr ∧
      hdr.cls = boot.hdr.cls ∧ hdr.get .pageSize = boot.hdr.get .pageSize ∧
      Fits (mapped w.out) off.header hdr ∧
      ∀ b : Block, hdr.get b.sizeField = (d b).length ∧
        (BootImg.ofHdr (mapped w.out) off.header hdr {}).bytes (mapped w.out) b = w.log b := by
  obtain ⟨hcls, hother, -⟩ := get_startHdr boot files
  have hne : ∀ b : Block, .pageSize ≠ b.sizeField := fun b => (sizeField_ne_pageSize b).symm
  have hcls' : w.hdr.cls = boot.hdr.cls := h.numbers.text.cls.trans hcls
  have hpage : w.hdr.get .pageSize = boot.hdr.get .pageSize :=
    (h.numbers.other _ (by decide) hne).trans (hother _ hne)
  have ha := apart_place hr d
  have hstop := h.holds.stop
  have hle : hdrStart boot off + storedSize boot ≤ w.out.length := by
    have hin := (hdrStart_le off hroom).2
    have h₁ := ha.start .kernel
    have h₂ := ha.stop .kernel
    have h₃ := h.header
    omega
  obtain ⟨hdr, hload, hhdr, hget⟩ :=
    get_loadHdr_of_stored (hcls'.symm ▸ storedSize_le boot) hle h.stored
  rw [hcls'] at hload hhdr hget
  have hpage' : hdr.get .pageSize = boot.hdr.get .pageSize :=
    (hget _ fun o ho => hstored _ o ho (.inl rfl)).trans hpage
  have hsize : ∀ b : Block, hdr.get b.sizeField = (d b).length := fun b =>
    (hget _ fun o ho => hstored _ o ho (.inr ⟨b, rfl⟩)).trans (h.numbers.size b)
  have hspace : spaceOf hdr = spaceOf boot.hdr := spaceOf_eq hhdr hpage'
  have hsizes : (fun b : Block => hdr.get b.sizeField) = fun b => (d b).length := funext hsize
  have hmap := le_length_mapped w.out
  refine ⟨hdr, hload, hhdr, hpage', ?_, fun b => ⟨hsize b, ?_⟩⟩
  · change off.header + endOffset _ _ (Block.all.map fun b => hdr.get b.sizeField) ≤ _
    rw [hsizes, hpage', hspace, h.header, ← blocksEnd_eq hr]
    omega
  · change window _ (off.header + blockOffset _ _ (fun b => hdr.get b.sizeField) b)
      (hdr.get b.sizeField) = _
    have hb := ha.stop b
    rw [hsizes, hsize, hpage', hspace, h.header, ← place_eq hr, window_mapped (by omega)]
    exact h.holds.found b

/-- The components that an image need not have. -/
def BootImg.mayLack (boot : BootImg) : Block → Bool
  | .second | .extra | .recoveryDtbo | .dtb | .bootconfig => true
  | .ramdisk => boot.size .vendorRamdiskTable == 0
  | .kernel | .signature | .vendorRamdiskTable => false

lemma blockData_eq_nil (hu : Usable mem boot files)
    (hramdisk : boot.size .vendorRamdiskTable = 0 → ramdisk = files.ramdisk)
    (hfile : files.ofBlock b = none) (hb : boot.mayLack b = true) :
    blockData mem boot files ramdisk table b = [] := by
  cases b with
  | kernel | signature | vendorRamdiskTable => cases hb
  | ramdisk =>
    have hnone : ramdisk = none := (hramdisk (beq_iff_eq.mp hb)).trans hfile
    have hmtk := hu.mtkRamdisk hfile
    rw [blockData, hmtk, hnone]
    rfl
  | second | extra | recoveryDtbo | dtb | bootconfig => exact congrArg (Option.getD · []) hfile

/-- What was written for a block, with the new size in the header of a MediaTek block. -/
def writtenFor (mem : Str) (boot : BootImg) (files : Files) (ramdisk : Option Str) (table : Str)
    (b : Block) : Str :=
  let data := blockData mem boot files ramdisk table b
  mtkPatched (boot.mtkFlag b) (data.length - mtkHdrSz) data

lemma loadHdr_eq (h : addr + cls.hdrSize ≤ mem.length) : loadHdr mem cls addr cls.hdrSize =
      .ok ⟨cls, window mem addr cls.hdrSize, length_window h⟩ := by
  refine (dif_pos ⟨le_rfl, h⟩).trans ?_
  simp

/-- A kernel that has no format is left as it is. -/
lemma parseKernel_of_unknown (hsize : img.size .kernel ≠ 0) (hkFmt : img.kFmt = .unknown)
    (hdtb : findDtbOffset mem (img.ptr .kernel) (img.size .kernel) = .ok none)
    (hfmt : checkFmtLg mem (img.ptr .kernel) (img.size .kernel) = .ok .unknown) :
    parseKernel mem img = .ok img := by
  have hblock : blockFmt mem img .kernel = .ok (false, .unknown) :=
    bind_eq_ok.mpr ⟨.unknown, hfmt, rfl⟩
  have himg : img.withKernelFmt (false, .unknown) = img := by
    rw [BootImg.withKernelFmt, ← hkFmt]
  rw [parseKernel, if_neg hsize]
  refine bind_eq_ok.mpr ⟨none, hdtb, bind_eq_ok.mpr ⟨(false, .unknown), hblock, ?_⟩⟩
  change (if (img.withKernelFmt (false, .unknown)).kFmt = .zimage then _ else
    Except.ok (img.withKernelFmt (false, .unknown))) = _
  rw [himg, hkFmt]
  rfl

lemma flags_ofHdr (h : hasSha256 hdr = false) :
    (BootImg.ofHdr mem addr hdr flags).flags = flags := by
  change (if hasSha256 hdr then _ else flags) = flags
  rw [h]
  rfl

lemma kFmt_ofHdr (addr : Nat) (hdr : ImgHdr) (flags : Flags) :
    (BootImg.ofHdr mem addr hdr flags).kFmt = .unknown := rfl

lemma scanStep_of_aosp (hlt : addr < size) (h : checkFmtAt mem addr size = .ok .aosp) :
    scanStep verify mem size (addr, flags) = tryImage verify mem addr .aosp flags := by
  rw [scanStep, if_pos hlt, h]
  rfl

lemma parseTail_of_plain (hsize : img.tail.size ≠ 0)
    (hle : avbFooterSz ≤ img.tail.data + img.tail.size)
    (hend : img.tail.data + img.tail.size - avbFooterSz + 4 ≤ mem.length)
    (hmagic : window mem (img.tail.data + img.tail.size - avbFooterSz) 4 ≠ str "AVBf") :
    parseTail mem verify img = .ok { img with flags := tailFlags mem verify img } := by
  rw [parseTail, if_neg hsize]
  refine bind_eq_ok.mpr ⟨_, if_pos hle, bind_eq_ok.mpr ⟨_, load_of_le hend, ?_⟩⟩
  rw [if_pos hmagic]

/-- Nothing is found in a tail of zeros. -/
lemma parseTail_zeros (signed : Bool) (htail : img.tail = ⟨p, n + 64⟩)
    (hle : file.length ≤ p) (hend : p + (n + 64) = (mapped file).length) :
    parseTail (mapped file) (fun _ _ => signed) img = .ok { img with
      flags := if signed then { img.flags with avb1Signed := true } else img.flags } := by
  have hbytes : img.tail.bytes (mapped file) = List.replicate (n + 64) 0 := by
    rw [htail]
    exact window_mapped_zeros hle hend.le
  have hmagic : ∀ magic : Str, magic.head? ≠ some 0 →
      (List.replicate (n + 64) (0 : UInt8)).take 16 ≠ magic := by
    rintro magic hne rfl
    exact hne rfl
  rw [parseTail_of_plain, tailFlags, hbytes, if_neg fun h => hmagic _ (by decide) h.2,
    if_neg fun h => hmagic _ (by decide) h.2]
  · rw [htail]
    exact Nat.succ_ne_zero _
  · rw [htail]
    exact Nat.le_add_left_of_le (Nat.le_add_left _ _)
  · rw [htail, hend, avbFooterSz]
    omega
  · rw [htail, hend, avbFooterSz, window_mapped_zeros (by omega) (by omega)]
    decide

lemma parseBlocks_of_kernel (hkernel : parseKernel mem img = .ok img)
    (hramdisk : img.size .ramdisk = 0) (hextra : img.size .extra = 0)
    (htail : parseTail mem verify img = .ok img') :
    parseBlocks verify mem img = .ok (.accepted img') := by
  refine bind_eq_ok.mpr ⟨img, hkernel, bind_eq_ok.mpr ⟨some img, if_pos hramdisk, ?_⟩⟩
  refine bind_eq_ok.mpr ⟨img, if_pos hextra, ?_⟩
  rw [htail]
  rfl

/-! ### Images with only a kernel -/

/-- A header in the layout of PXA, for a kernel of one byte and nothing else. -/
structure OneKernel (page : Nat) (hdr : ImgHdr) : Prop where
  cls : hdr.cls = .pxa
  pos : 0 < page
  get : ∀ f, hdr.get f = match f with
    | .kernelSize => 1
    | .pageSize => page
    | _ => 0

/-- The first bytes of the header tell. -/
lemma oneKernel_of_start (start : Str) (hcls : hdr.cls = .pxa) (hpos : 0 < page)
    (hraw : ∀ o, o + 4 ≤ 48 → window hdr.raw o 4 = window start o 4)
    (hkernel : leNat (window start 8 4) = 1)
    (hzero : ∀ o ∈ [16, 24, 32], leNat (window start o 4) = 0)
    (hpage : leNat (window start 44 4) = page) : OneKernel page hdr := by
  have hget : ∀ {f : ImgField} (o : Nat), HdrClass.pxa.offset f = some o → o + 4 ≤ 48 →
      hdr.get f = leNat (window start o 4) := by
    intro f o ho hle
    rw [← hcls] at ho
    rw [ImgHdr.get_of_some ho, hraw o hle]
  have hnone : ∀ {f : ImgField}, HdrClass.pxa.offset f = none → HdrClass.pxa.fixed f = 0 →
      hdr.get f = 0 := by
    intro f hf hfixed
    rw [← hcls] at hf hfixed
    exact (ImgHdr.get_of_none hf).trans hfixed
  refine ⟨hcls, hpos, fun f => ?_⟩
  cases f with
  | kernelSize => exact (hget 8 rfl (by decide)).trans hkernel
  | ramdiskSize => exact (hget 16 rfl (by decide)).trans (hzero 16 (by decide))
  | secondSize => exact (hget 24 rfl (by decide)).trans (hzero 24 (by decide))
  | extraSize => exact (hget 32 rfl (by decide)).trans (hzero 32 (by decide))
  | pageSize => exact (hget 44 rfl (by decide)).trans hpage
  | headerVersion | recoveryDtboSize | headerSize | dtbSize | signatureSize
  | vendorRamdiskTableSize | vendorRamdiskTableEntryNum | vendorRamdiskTableEntrySize
  | bootconfigSize => exact hnone rfl rfl

lemma findDtbOffset_one (mem : Str) (p : Nat) : findDtbOffset mem p 1 = .ok none := by
  have hnone : memmem mem p (p + 1) dtbMagic = none := by
    rw [memmem, find?_eq_none]
    intro q hq
    rw [mem_range'_1] at hq
    have hlen : dtbMagic.length = 4 := rfl
    simp only [Bool.and_eq_true, decide_eq_true_eq]
    omega
  rw [findDtbOffset, loop_eq]
  simp [findDtbStep, hnone]

lemma checkFmtLg_zero (hle : addr + 1 ≤ mem.length) (hzero : window mem addr 1 = [0]) :
    checkFmtLg mem addr 1 = .ok .unknown := by
  rfl

/-- A bound on what comes after the blocks. -/
lemma length_writeTail_lt (mem : Str) (mapSize : Nat) (w : ImgWriter)
    (off : Offsets) (hpage : 0 < boot.hdr.get .pageSize) :
    (writeTail mem boot mapSize w off).1.out.length ≤
      w.out.length + 20 + boot.hdr.get .pageSize + mapSize +
        if boot.flags.avb then 4096 + vbmetaSize mem boot else 0 := by
  have hpad : ∀ (v : ImgWriter) (header page : Nat), 0 < page →
      (v.align header page).out.length ≤ v.out.length + page := by
    intro v header page hpos
    have hle : alignTo (v.out.length - header) page ≤ v.out.length - header + page := by
      have := Nat.div_mul_le_self (v.out.length - header + page - 1) page
      rw [alignTo]
      omega
    change (v.out ++ List.replicate _ 0).length ≤ _
    rw [length_append, length_replicate]
    omega
  have hvbmeta : ∀ v : ImgWriter, (writeVbmeta mem boot off.header v).1.out.length ≤
      v.out.length + if boot.flags.avb then 4096 + vbmetaSize mem boot else 0 := by
    intro v
    have hle := hpad v off.header 4096 (by decide)
    rw [writeVbmeta]
    split
    · change ((v.align off.header 4096).out ++ window mem _ _).length ≤ _
      rw [length_append, window]
      have := length_take_le (vbmetaSize mem boot) (mem.drop (boot.vbmeta.getD 0))
      omega
    · exact Nat.le_add_right _ _
  have hzero : ∀ v : ImgWriter, (writeZero boot mapSize v).out.length ≤ v.out.length + mapSize := by
    intro v
    rw [writeZero]
    split
    · omega
    · change (v.out ++ List.replicate _ 0).length ≤ _
      rw [length_append, length_replicate]
      omega
  have htrailer : (w.append (vendorTrailer boot)).out.length ≤ w.out.length + 20 := by
    have hle : (vendorTrailer boot).length ≤ 20 := by
      rw [vendorTrailer]
      cases boot.flags.seandroid <;> cases boot.flags.dhtb <;> cases boot.flags.lgBump <;> decide
    change (w.out ++ _).length ≤ _
    rw [length_append]
    omega
  have hpadded := hpad (w.append (vendorTrailer boot)) off.header _ hpage
  have hlast := hvbmeta ((w.append (vendorTrailer boot)).align off.header (boot.hdr.get .pageSize))
  have htotal := hzero (writeVbmeta mem boot off.header
    ((w.append (vendorTrailer boot)).align off.header (boot.hdr.get .pageSize))).1
  refine htotal.trans ?_
  omega

namespace OneKernel

variable {page : Nat} {flags : Flags} (hone : OneKernel page hdr)

include hone

lemma size (b : Block) : hdr.get b.sizeField = if b = .kernel then 1 else 0 := by
  rw [hone.get]
  cases b <;> rfl

lemma blockSizes_eq : blockSizes hdr = [1, 0, 0, 0, 0, 0, 0, 0, 0] := by
  simp [blockSizes, Block.all, hone.size]

lemma spaceOf_eq : spaceOf hdr = page := by
  rw [spaceOf, hone.cls]
  exact hone.get .pageSize

lemma endOffset_eq (n : Nat) :
    endOffset page page [n, 0, 0, 0, 0, 0, 0, 0, 0] = page + alignTo n page := by
  simp [endOffset, alignTo_of_dvd hone.pos (dvd_alignTo _), alignTo_add hone.pos (dvd_refl page)]

/-- The image has two pages. -/
lemma endOffset_hdr : endOffset (hdr.get .pageSize) (spaceOf hdr) (blockSizes hdr) = 2 * page := by
  have hpage : alignTo 1 page = page :=
    le_antisymm (alignTo_le hone.pos hone.pos (dvd_refl page))
      (Nat.le_of_dvd (le_alignTo hone.pos 1) (dvd_alignTo 1))
  rw [hone.blockSizes_eq, hone.spaceOf_eq, hone.get]
  exact (hone.endOffset_eq 1).trans (by omega)

lemma payload_eq (mem : Str) (addr : Nat) (flags : Flags) :
    (BootImg.ofHdr mem addr hdr flags).payload = ⟨addr, 2 * page⟩ ∧
      (BootImg.ofHdr mem addr hdr flags).tail =
        ⟨addr + 2 * page, mem.length - (addr + 2 * page)⟩ ∧
      (BootImg.ofHdr mem addr hdr flags).ptr .kernel = addr + page := by
  refine ⟨?_, ?_, ?_⟩
  · rw [BootImg.ofHdr, BootImg.ofBlocks, hone.endOffset_hdr]
  · rw [BootImg.ofHdr, BootImg.ofBlocks, hone.endOffset_hdr]
  · change addr + (offsets _ (spaceOf hdr) (blockSizes hdr)).getD 0 0 = _
    rw [hone.spaceOf_eq]
    rfl

lemma parseHdr_eq (hle : addr + 1640 ≤ mem.length) (hraw : window mem addr 1640 = hdr.raw)
    (hword : leNat (window hdr.raw 36 4) = 0x02000000) :
    parseHdr mem addr .aosp flags = .ok (addr, some hdr, flags) := by
  obtain ⟨cls, raw, hlen⟩ := hdr
  obtain rfl : cls = .pxa := hone.cls
  have hpage : loadU32 mem (addr + 36) = .ok 0x02000000 := by
    rw [loadU32, load_of_le (by omega), ← hword, ← hraw, window_window (by decide)]
    rfl
  have hload : loadHdr mem .pxa addr HdrClass.pxa.hdrSize = .ok ⟨.pxa, raw, hlen⟩ := by
    rw [loadHdr_eq hle]
    simp [show window mem addr HdrClass.pxa.hdrSize = raw from hraw]
  refine (if_neg (by decide)).trans (bind_eq_ok.mpr ⟨_, hpage, (if_pos (by decide)).trans ?_⟩)
  exact bind_eq_ok.mpr ⟨_, hload, rfl⟩

/-- **The image is accepted**, with what is found in its tail. -/
lemma parseImage_eq (hsafe : PageSafe page) (hle : addr + 2 * page ≤ mem.length)
    (hhdr : parseHdr mem addr .aosp flags = .ok (addr, some hdr, flags))
    (hzero : window mem (addr + page) 1 = [0])
    (htail : parseTail mem verify (.ofHdr mem addr hdr flags) = .ok img) :
    parseImage verify mem addr .aosp flags = .ok (.accepted img) := by
  have hpos := hone.pos
  have hpage : hdr.get .pageSize = page := hone.get .pageSize
  have hfits : Fits mem addr hdr := by
    rw [Fits, hone.endOffset_hdr]
    exact hle
  have hsize : (BootImg.ofHdr mem addr hdr flags).size .kernel = 1 := hone.size .kernel
  have hptr := (hone.payload_eq mem addr flags).2.2
  have hdtb := findDtbOffset_one mem (addr + page)
  have hfmt := checkFmtLg_zero (by omega) hzero
  rw [← hsize, ← hptr] at hdtb hfmt
  have hkernel := parseKernel_of_unknown (hsize.trans_ne one_ne_zero) (kFmt_ofHdr _ _ _) hdtb hfmt
  rw [parseImage_of_hdr hhdr, parseSizes_eq (hpage ▸ hsafe), if_pos hfits]
  exact parseBlocks_of_kernel hkernel (hone.size .ramdisk) (hone.size .extra) htail

/-- **The image can be packed again**, with another kernel or with the one that it has. -/
lemma repackable (hskip : t.skipComp = true)
    (hr : Ready mem boot) (hhdr : boot.hdr = hdr) (hroom : 1640 ≤ page)
    (hmtk : boot.flags.mtkKernel = false ∧ boot.flags.mtkRamdisk = false)
    (hzimage : boot.flags.zimageKernel = false) (hamonet : boot.flags.amonet = false)
    (havb : boot.flags.avb = true → 256 ≤ vbmetaSize mem boot ∧
      boot.vbmeta.getD 0 + vbmetaSize mem boot ≤ mem.length)
    (hkernel : ∀ m, kernel = some m → m.length ≤ page)
    (hsmall : page < 2 ^ 29 ∧ mapSize < 2 ^ 30 ∧
      (boot.flags.avb = true → vbmetaSize mem boot < 2 ^ 30)) :
    Repackable t mem mapSize boot { kernel } := by
  have hsize : ∀ b : Block, boot.size b = if b = .kernel then 1 else 0 := fun b => by
    rw [BootImg.size, hhdr, hone.size]
  have hpage : boot.hdr.get .pageSize = page := by rw [hhdr, hone.get]
  have hspace : spaceOf boot.hdr = page := by rw [hhdr, hone.spaceOf_eq]
  have hcls : boot.hdr.cls = .pxa := by rw [hhdr, hone.cls]
  have hstored : storedSize boot = 1640 := by
    rw [storedSize, hamonet, hcls]
    rfl
  have husable : Usable mem boot { kernel } :=
    { place := fun b hb => by
        rw [hcls] at hb
        cases b with
        | kernel => cases hb
        | ramdisk | second | extra | recoveryDtbo | dtb | signature | vendorRamdiskTable
        | bootconfig => rfl
      kernelDtb := fun _ => rfl
      extra := fun _ => hsize .extra
      recoveryDtbo := fun _ => hsize .recoveryDtbo
      mtkRamdisk := fun _ => hmtk.2
      zimage := fun hz => absurd (hz.symm.trans hzimage) (by decide)
      table := fun hne => absurd (hsize .vendorRamdiskTable) hne
      entries := fun hne => absurd (hsize .vendorRamdiskTable) hne }
  refine
    { usable := husable
      roomy := ?_
      stored := fun f o ho _ => ?_
      dhtb := fun _ => by omega
      avb := havb
      small := fun w off hwrite => ?_ }
  · rw [Roomy, hamonet, hspace, hcls]
    exact hroom
  · rw [hstored]
    rw [hcls] at ho
    exact HdrClass.offset_le ho
  · rw [hskip] at hwrite
    obtain ⟨ramdisk, table, w', off', hwrite', hw, htable, hfile⟩ :=
      writeBlocks_eq t.compress hr husable
    cases hwrite.symm.trans hwrite'
    have hout : w.out.length = blocksEnd mem boot (blockData mem boot { kernel } ramdisk table) :=
      congrArg List.length hw.laid.out
    have hramdisk : ramdisk = none := hfile (hsize .vendorRamdiskTable)
    have htable' : table = [] := eq_nil_of_length_eq_zero (htable.trans (hsize _))
    have hsig : boot.bytes mem .signature = [] :=
      eq_nil_of_length_eq_zero ((hr.bytes .signature).trans (hsize .signature))
    have hdata : (kernelData mem boot { kernel } (kernelSource mem boot { kernel })).length ≤
        page := by
      rw [kernelData, mtkHdr, hmtk.1, zimagePart, zimagePart, hzimage]
      simp only [Bool.false_eq_true, if_false, append_nil, Option.getD_none]
      cases kernel with
      | none => exact ((hr.bytes .kernel).trans (hsize .kernel)).trans_le hone.pos
      | some m => simpa [kernelSource, hzimage] using hkernel m rfl
    have hlens : (Block.all.map fun b => (blockData mem boot { kernel } ramdisk table b).length) =
        [(kernelData mem boot { kernel } (kernelSource mem boot { kernel })).length,
          0, 0, 0, 0, 0, 0, 0, 0] := by
      rw [hramdisk, htable']
      change [_, (mtkHdr mem boot.flags.mtkRamdisk boot.rHdr ++ []).length, _, _, _, _,
        (boot.bytes mem .signature).length, _, _] = _
      rw [hsig, hmtk.2]
      rfl
    have hpre := length_preHeader_le mem boot
    have hpos : 0 < boot.hdr.get .pageSize := by omega
    have hlen := length_writeTail_lt mem mapSize w off hpos
    have hend := alignTo_le hone.pos hdata (dvd_refl page)
    rw [blocksEnd_eq hr, hpage, hspace, hlens, hone.endOffset_eq] at hout
    rw [nookhdPreHeaderSz] at hpre
    obtain ⟨hshort, hmap, hvbmeta⟩ := hsmall
    cases hflag : boot.flags.avb with
    | false =>
      rw [hflag, if_neg (by decide)] at hlen
      omega
    | true =>
      have := hvbmeta hflag
      rw [hflag, if_pos rfl] at hlen
      omega

end OneKernel

/-! ### An image -/

/-- An image with a kernel of one byte. -/
def sampleImage : Str :=
  bootMagic ++ [1, 0, 0, 0] ++ List.replicate 24 0 ++ [0, 0, 0, 2, 0, 0, 0, 0, 0xd0, 7, 0, 0]

/-- Its header. -/
def sampleHdr : ImgHdr where
  cls := .pxa
  raw := window (mapped sampleImage) 0 HdrClass.pxa.hdrSize
  length_raw := by
    refine length_window ?_
    rw [length_mapped]
    decide

lemma length_mapped_sampleImage : (mapped sampleImage).length = 4096 := by
  rw [length_mapped]
  decide

lemma oneKernel_sampleHdr : OneKernel 2000 sampleHdr := by
  refine oneKernel_of_start sampleImage rfl (by decide) (fun o ho => ?_) (by decide) (by decide)
    (by decide)
  change window (window (mapped sampleImage) 0 1640) o 4 = _
  rw [window_window (by omega), Nat.zero_add, window_mapped ho]

/-- The image, which has a signature or not. -/
def sampleBoot (signed : Bool) : BootImg :=
  { BootImg.ofHdr (mapped sampleImage) 0 sampleHdr {} with flags := { avb1Signed := signed } }

lemma hasSha256_sampleHdr : hasSha256 sampleHdr = false := by
  have hlen := length_mapped_sampleImage
  change (window (window (mapped sampleImage) 0 1640) (584 + 24) 8).any (· != 0) = false
  rw [window_window (by decide), window_mapped_zeros (by decide) (by omega)]
  rfl

lemma parseTail_sampleImage (signed : Bool) :
    parseTail (mapped sampleImage) (fun _ _ => signed)
        (.ofHdr (mapped sampleImage) 0 sampleHdr {}) =
      .ok (sampleBoot signed) := by
  have hlen := length_mapped_sampleImage
  have htail : (BootImg.ofHdr (mapped sampleImage) 0 sampleHdr {}).tail = ⟨4000, 96⟩ := by
    rw [(oneKernel_sampleHdr.payload_eq _ 0 {}).2.1, hlen]
  rw [parseTail_zeros signed htail (by decide) hlen.symm, flags_ofHdr hasSha256_sampleHdr,
    sampleBoot]
  cases signed <;> rfl

/-- **The image is accepted.** -/
lemma bootImg_sampleImage (signed : Bool) :
    bootImg (fun _ _ => signed) sampleImage = .ok (some (sampleBoot signed)) := by
  have hlen := length_mapped_sampleImage
  have hfmt : checkFmtAt (mapped sampleImage) 0 sampleImage.length = .ok .aosp := by
    rw [checkFmtAt_eq (by rw [hlen]; decide), window_mapped (by omega), window_length]
    decide
  have hhdr : parseHdr (mapped sampleImage) 0 .aosp {} = .ok (0, some sampleHdr, {}) :=
    oneKernel_sampleHdr.parseHdr_eq (by omega) rfl (by
      decide)
  have himage := oneKernel_sampleHdr.parseImage_eq ⟨by decide, by decide⟩ (by omega) hhdr
    (window_mapped_zeros (by decide) (by omega)) (parseTail_sampleImage signed)
  rw [bootImg, loop_eq, scanStep_of_aosp (by decide) hfmt, tryImage, himage]
  rfl

lemma kernelData_sampleImage (signed : Bool) (kernel : Option Str) :
    kernelData (mapped sampleImage) (sampleBoot signed) { kernel }
        (kernelSource (mapped sampleImage) (sampleBoot signed) { kernel }) =
      kernelSource (mapped sampleImage) (sampleBoot signed) { kernel } := by
  exact (append_nil _).trans (append_nil _)

/-- The image can be packed with another kernel, or with the one that it has. -/
lemma repackable_sampleImage (hskip : t.skipComp = true) (signed : Bool)
    (hkernel : ∀ m, kernel = some m → m.length ≤ 2000) :
    Repackable t (mapped sampleImage) sampleImage.length (sampleBoot signed) { kernel } :=
  oneKernel_sampleHdr.repackable hskip (ready_of_bootImg (bootImg_sampleImage signed)) rfl
    (by decide) ⟨rfl, rfl⟩ rfl rfl nofun hkernel ⟨by decide, by decide, nofun⟩

/-- Tools that do not compress. -/
def sampleTools : Tools where
  compress _ data := data
  sha _ _ := []
  sign _ := []
  skipComp := true
  patchVbmeta := false

end Magisk.Boot
