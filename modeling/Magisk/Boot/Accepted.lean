import Magisk.Boot.Reparse

/-!
# Packed images that are accepted again

An image that is found again is accepted if its new blocks can be taken apart.  The parser may read
a few bytes behind a block, so that this is asked of the blocks wherever they are mapped.

* `Occupies`, `Legible`: blocks that the parser takes apart without a fault;
* `PackedBy.blocksSafe`: then the blocks of the packed image are safe;
* `PackedBy.exists_bootImg`: and it is accepted, if its footer is safe;
* `PackedBy.exists_parseTail`: what is known of the tail of an image that was accepted;
* `Reparsable`: all that is asked of the files together.
-/

namespace Magisk.Boot

open Magisk.Base Magisk.Lib

variable {mem : Str} {boot : BootImg} {files : Files}

/-- Some data is mapped at a position, with at least eight bytes behind it. -/
def Occupies (mem : Str) (p : Nat) (data : Str) : Prop :=
  p + data.length + 8 ≤ mem.length ∧ window mem p data.length = data

/-- Blocks can be taken apart, wherever they are mapped.  There are `entries` vendor ramdisks if
there is a table of them. -/
structure Legible (entries : Nat) (data : Block → Str) : Prop where
  kernel : data .kernel ≠ [] → ∀ mem p, Occupies mem p (data .kernel) →
    KernelSafe mem p (data .kernel).length
  ramdisk : data .ramdisk ≠ [] → data .vendorRamdiskTable = [] → ∀ mem p,
    Occupies mem p (data .ramdisk) → BlockFmtSafe mem p (data .ramdisk).length
  table : data .ramdisk ≠ [] → data .vendorRamdiskTable ≠ [] → ∀ mem p q,
    Occupies mem p (data .ramdisk) → Occupies mem q (data .vendorRamdiskTable) →
      TableSafe mem p q (List.range entries)
  extra : data .extra ≠ [] → ∀ mem p, Occupies mem p (data .extra) →
    FmtLgSafe mem p (data .extra).length

/-- The blocks of a packed image, with the new sizes in the headers of MediaTek blocks. -/
def packedBlocks (boot : BootImg) (d : Block → Str) (b : Block) : Str :=
  mtkPatched (boot.mtkFlag b) ((d b).length - mtkHdrSz) (d b)

/-- The image ends the program only for its table of ramdisks. -/
lemma exists_accepted (verify : Str → Str → Bool) (hsafe : BlocksSafe mem img)
    (htable : ¬BadTable img) : ∃ img', parseBlocks verify mem img = .ok (.accepted img') := by
  obtain ⟨parsed, hparsed⟩ := succeeds_parseBlocks_iff.mpr hsafe
  cases parsed with
  | accepted img' => exact ⟨img', hparsed⟩
  | rejected flags => exact absurd hparsed parseBlocks_ne_rejected
  | exited =>
    obtain ⟨img₁, h₁, hrest⟩ := bind_eq_ok.mp hparsed
    obtain ⟨r, h₂, hrest⟩ := bind_eq_ok.mp hrest
    cases r with
    | none =>
      have hbad := parseRamdisk_eq_none.mp h₂
      exact absurd ((parseKernel_narrowed h₁).badTable_iff.mp hbad) htable
    | some img₂ =>
      obtain ⟨img₃, -, hrest⟩ := bind_eq_ok.mp hrest
      cases htail : parseTail mem verify img₃ with
      | error e =>
        rw [htail] at hrest
        cases hrest
      | ok img₄ =>
        rw [htail] at hrest
        cases hrest

variable {verify : Str → Str → Bool} {hdr : ImgHdr}

lemma Found.fresh {header} (h : Found verify file header hdr flags) : FreshFlags flags := by
  obtain ⟨addr, type, flags₀, hvisited, -, hhdr⟩ := h.scan
  have hfresh : FreshFlags flags₀ :=
    hvisited.invariant (P := fun s => FreshFlags s.2) ⟨rfl, rfl, rfl, rfl, nofun⟩
      fun _ _ hs hst => hs.scanStep hst
  exact hfresh.parseHdr hhdr

namespace PackedBy

variable {t : Tools} {mapSize : Nat} {d : Block → Str} {w₀ w : ImgWriter} {off₀ off : Offsets}
  (h : PackedBy t mem mapSize boot files d w₀ off₀ w off)

include h

section

variable (hr : Ready mem boot) (hroom : Roomy boot)
  (hload : loadHdr (mapped w.out) boot.hdr.cls (hdrStart boot off) (storedSize boot) = .ok hdr)

include hr hroom hload

lemma get_hdr (hne : f ≠ .headerSize) (hf : ∀ b : Block, f ≠ b.sizeField)
    (hstored : ∀ o, boot.hdr.cls.offset f = some o → o + 4 ≤ storedSize boot) :
    hdr.get f = boot.hdr.get f := by
  have hcls := h.packed.numbers.cls
  obtain ⟨hdr', hload', -, hget⟩ := get_loadHdr_of_stored (h := w.hdr)
    (hcls.symm ▸ storedSize_le boot) (h.hdr_le hr hroom) h.packed.stored
  rw [hcls] at hload' hget
  cases hload.symm.trans hload'
  rw [hget f hstored, h.packed.numbers.other f hne hf, (get_startHdr boot files).2.1 f hf]

/-- The fields for the table of vendor ramdisks are in the part that is stored. -/
lemma get_table
    (hmicro : boot.flags.amonet = true → MicroloaderFirst mem boot) :
    hdr.get .vendorRamdiskTableEntrySize = boot.hdr.get .vendorRamdiskTableEntrySize ∧
      hdr.get .vendorRamdiskTableEntryNum = boot.hdr.get .vendorRamdiskTableEntryNum := by
  have hstored : ∀ f o, f = .vendorRamdiskTableEntrySize ∨ f = .vendorRamdiskTableEntryNum →
      boot.hdr.cls.offset f = some o → o + 4 ≤ storedSize boot := by
    intro f o hf ho
    cases hamonet : boot.flags.amonet with
    | false =>
      rw [storedSize, hamonet]
      exact HdrClass.offset_le ho
    | true =>
      have hpage := (hmicro hamonet).cls.2
      generalize boot.hdr.cls = c at hpage ho
      rcases hf with rfl | rfl <;> cases c <;>
        first | exact absurd hpage (by decide) | cases ho
  have hne : ∀ (f : ImgField) (b : Block),
      f = .vendorRamdiskTableEntrySize ∨ f = .vendorRamdiskTableEntryNum → f ≠ b.sizeField := by
    rintro f b (rfl | rfl) <;> cases b <;> decide
  exact ⟨h.get_hdr hr hroom hload (by decide) (fun b => hne _ b (.inl rfl))
    (fun o => hstored _ o (.inl rfl)), h.get_hdr hr hroom hload (by decide)
    (fun b => hne _ b (.inr rfl)) (fun o => hstored _ o (.inr rfl))⟩

end

/-- **The new blocks are safe** if they are legible. -/
lemma blocksSafe (hr : Ready mem boot) (hroom : Roomy boot)
    (hmicro : boot.flags.amonet = true → MicroloaderFirst mem boot)
    (hload : loadHdr (mapped w.out) boot.hdr.cls (hdrStart boot off) (storedSize boot) = .ok hdr)
    (hpage : PageSafe (hdr.get .pageSize)) (hfits : Fits (mapped w.out) off.header hdr)
    (hblocks : ∀ b : Block, hdr.get b.sizeField = (d b).length ∧
      (BootImg.ofHdr (mapped w.out) off.header hdr flags).bytes (mapped w.out) b = w.log b)
    (hlegible : Legible (boot.hdr.get .vendorRamdiskTableEntryNum) w.log)
    (hbehind : (BootImg.ofHdr (mapped w.out) off.header hdr flags).tail.data + 8 ≤
      (mapped w.out).length)
    (hfooter : FooterSafe (mapped w.out) (BootImg.ofHdr (mapped w.out) off.header hdr flags).payload
      (BootImg.ofHdr (mapped w.out) off.header hdr flags).tail) :
    BlocksSafe (mapped w.out) (.ofHdr (mapped w.out) off.header hdr flags) := by
  have hplace : InPlace _ (BootImg.ofHdr (mapped w.out) off.header hdr flags) :=
    inPlace_ofHdr hpage hfits
  obtain ⟨-, hnum⟩ := h.get_table hr hroom hload hmicro
  generalize hm : mapped w.out = m at hload hfits hblocks hbehind hfooter hplace ⊢
  generalize himg : BootImg.ofHdr m off.header hdr flags = img at hblocks hbehind hfooter hplace ⊢
  have hhdr : img.hdr = hdr := by rw [← himg]; rfl
  have hlen : ∀ b, img.size b = (w.log b).length := by
    intro b
    rw [h.packed.holds.length, BootImg.size, hhdr]
    exact (hblocks b).1
  have hocc : ∀ b, Occupies m (img.ptr b) (w.log b) := by
    intro b
    have hstop := hplace.stop b
    have hpayload := hplace.payload
    refine ⟨?_, ?_⟩
    · rw [← hlen]
      omega
    · rw [← hlen]
      exact (hblocks b).2
  have hne : ∀ b, img.size b ≠ 0 → w.log b ≠ [] := by
    intro b hb hnil
    rw [hlen, hnil] at hb
    exact hb rfl
  refine
    { kernel := fun hk => hlen .kernel ▸ hlegible.kernel (hne _ hk) m _ (hocc _)
      ramdisk := fun hrd => ⟨fun ht _ => ?_, fun ht => ?_⟩
      extra := fun _ he => hlen .extra ▸ hlegible.extra (hne _ he) m _ (hocc _)
      footer := fun _ _ => hfooter }
  · have hentries : img.hdr.get .vendorRamdiskTableEntryNum =
        boot.hdr.get .vendorRamdiskTableEntryNum := by rw [hhdr, hnum]
    rw [hentries]
    exact hlegible.table (hne _ hrd) (hne _ ht) m _ _ (hocc _) (hocc _)
  · have hnil : w.log .vendorRamdiskTable = [] :=
      List.eq_nil_of_length_eq_zero ((hlen _).symm.trans ht)
    exact hlen .ramdisk ▸ hlegible.ramdisk (hne _ hrd) hnil m _ (hocc _)

/-- The payload and the tail of the packed image are where its sizes say. -/
lemma payload_ofHdr (flags : Flags) (hr : Ready mem boot) (hcls : hdr.cls = boot.hdr.cls)
    (hpage : hdr.get .pageSize = boot.hdr.get .pageSize)
    (hsizes : ∀ b : Block, hdr.get b.sizeField = (d b).length) :
    (BootImg.ofHdr (mapped w.out) off.header hdr flags).payload =
        ⟨off.header, blocksEnd mem boot d - off.header⟩ ∧
      (BootImg.ofHdr (mapped w.out) off.header hdr flags).tail =
        ⟨blocksEnd mem boot d, (mapped w.out).length - blocksEnd mem boot d⟩ := by
  have hend : off.header + endOffset (hdr.get .pageSize) (spaceOf hdr) (blockSizes hdr) =
      blocksEnd mem boot d := by
    rw [blocksEnd_eq hr, h.packed.header, spaceOf_eq hcls hpage, hpage, blockSizes, funext hsizes]
  constructor
  · change (⟨off.header, endOffset _ _ _⟩ : ByteView) = _
    rw [← hend, Nat.add_sub_cancel_left]
  · change (⟨off.header + endOffset _ _ _, _ - (off.header + endOffset _ _ _)⟩ : ByteView) = _
    rw [hend]

end PackedBy

section Again

variable {t : Tools} {mapSize : Nat} {content table : Str} {ramdisk : Option Str}
  {w₀ w : ImgWriter} {off₀ off : Offsets} (hr : Ready mem boot)
  (hp : Packable t mem mapSize boot files content ramdisk table)
  (hm : boot.hdr.cls.Marked boot.hdr.raw 0)
  (hf : Findable mem boot files (newBlocks t mem boot files content ramdisk table .extra).length)
  (h : PackedBy t mem mapSize boot files (newBlocks t mem boot files content ramdisk table) w₀ off₀
    w off)

include hr hp hm hf h

/-- **A packed image is accepted again** if its new blocks are legible and its footer is safe. -/
lemma PackedBy.exists_bootImg (verify : Str → Str → Bool)
    (hlegible : Legible (boot.hdr.get .vendorRamdiskTableEntryNum)
      (packedBlocks boot (newBlocks t mem boot files content ramdisk table)))
    (hbehind : blocksEnd mem boot (newBlocks t mem boot files content ramdisk table) + 8 ≤
      (mapped w.out).length)
    (hfooter : ∀ size, FooterSafe (mapped w.out) ⟨off.header, size⟩
      ⟨blocksEnd mem boot (newBlocks t mem boot files content ramdisk table),
        (mapped w.out).length -
          blocksEnd mem boot (newBlocks t mem boot files content ramdisk table)⟩) :
    ∃ boot', bootImg verify w.out = .ok (some boot') := by
  obtain ⟨hdr, flags, hfound, hload, hcls, hpage, hblocks⟩ :=
    h.found verify hr hp.roomy hp.stored hm hf
  obtain ⟨hpayload, htail⟩ := h.payload_ofHdr flags hr hcls hpage fun b => (hblocks b).1
  obtain ⟨hentry, -⟩ := h.get_table hr hp.roomy hload hf.microloader
  rw [← show w.log = packedBlocks boot (newBlocks t mem boot files content ramdisk table) from
    funext h.packed.log] at hlegible
  have hsafe := h.blocksSafe hr hp.roomy hf.microloader hload hfound.page hfound.fits hblocks
    hlegible (by rw [htail]; exact hbehind) (by rw [hpayload, htail]; exact hfooter _)
  have hbad : ¬BadTable (BootImg.ofHdr (mapped w.out) off.header hdr flags) := by
    rintro ⟨-, hne, hsize⟩
    have hne' : boot.size .vendorRamdiskTable ≠ 0 := by
      rw [← (hp.length_table hr).1]
      exact (hblocks .vendorRamdiskTable).1 ▸ hne
    exact hsize (hentry.trans (hp.placed.tableSafe hr hne').1)
  obtain ⟨boot', hboot'⟩ := exists_accepted verify hsafe hbad
  exact ⟨boot', hfound.bootImg_eq_ok.mpr hboot'⟩

/-- What is known of its tail. -/
lemma PackedBy.exists_parseTail (hboot : bootImg verify w.out = .ok (some boot')) :
    ∃ img, parseTail (mapped w.out) verify img = .ok boot' ∧ img.flags.avb = false ∧
      img.payload = ⟨off.header,
        blocksEnd mem boot (newBlocks t mem boot files content ramdisk table) - off.header⟩ ∧
      img.tail = ⟨blocksEnd mem boot (newBlocks t mem boot files content ramdisk table),
        (mapped w.out).length -
          blocksEnd mem boot (newBlocks t mem boot files content ramdisk table)⟩ := by
  obtain ⟨hdr, flags, hfound, hload, hcls, hpage, hblocks⟩ :=
    h.found verify hr hp.roomy hp.stored hm hf
  obtain ⟨hpayload, htail⟩ := h.payload_ofHdr flags hr hcls hpage fun b => (hblocks b).1
  obtain ⟨img, hparse, himg, himg', mtkKernel, zimageKernel, mtkRamdisk, hflags⟩ :=
    Boot.exists_parseTail (hfound.bootImg_eq_ok.mp hboot)
  refine ⟨img, hparse, ?_, himg.trans hpayload, himg'.trans htail⟩
  rw [hflags]
  exact ((untouched_ofHdr _ _ hdr hfound.fresh).2).avb

end Again

/-- The files can be packed to an image that is found again and taken apart. -/
structure Reparsable (t : Tools) (mem : Str) (mapSize : Nat) (boot : BootImg) (files : Files)
    (content : Str) (ramdisk : Option Str) (table : Str) : Prop where
  packable : Packable t mem mapSize boot files content ramdisk table
  findable : Findable mem boot files
    (newBlocks t mem boot files content ramdisk table .extra).length
  legible : Legible (boot.hdr.get .vendorRamdiskTableEntryNum)
    (packedBlocks boot (newBlocks t mem boot files content ramdisk table))

lemma Findable.marked (hf : Findable (mapped file) boot files extra)
    (h : bootImg verify file = .ok (some boot)) : boot.hdr.cls.Marked boot.hdr.raw 0 := by
  cases hamonet : boot.flags.amonet with
  | false => exact (marked_of_bootImg h).1 hamonet
  | true => exact (hf.microloader hamonet).marked

end Magisk.Boot
