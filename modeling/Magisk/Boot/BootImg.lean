import Magisk.Boot.ImgHdr
import Magisk.Lib.Result

/-!
# Boot images

A boot image is mapped into memory and searched for a header.  The sizes in the header say where
the components of the image are, and some of them are wrapped again.

* `Fault`: what goes wrong when the code leaves the mapping or its arithmetic;
* `checkFmtAt`, `checkFmtLg`: the format of a buffer in the mapping;
* `parseHdr`, `getBlocks`, `parseKernel`, `parseRamdisk`, `parseTail`: the parts of `parse_image`;
* `bootImg`: the constructor, which tries one address after the other.
-/

namespace Magisk.Boot

open Magisk.Base Magisk.Lib List

/-! ### Memory -/

/-- What goes wrong: an access outside of the mapping or of a buffer, a division by zero, or a
number that wraps around. -/
inductive Fault where
  | outOfBounds
  | divideByZero
  | wrap
  deriving DecidableEq, Repr

/-- `getpagesize()`. -/
def getpagesize : Nat := 4096

/-- The mapping of a file, filled with zeros up to the end of a page. -/
def mapped (file : Str) : Str :=
  file ++ List.replicate (alignTo file.length getpagesize - file.length) 0

/-- Reads from the mapping. -/
def load (mem : Str) (addr n : Nat) : Except Fault Str :=
  if addr + n ≤ mem.length then .ok (window mem addr n) else .error .outOfBounds

/-- Reads a little-endian number. -/
def loadU32 (mem : Str) (addr : Nat) : Except Fault Nat := leNat <$> load mem addr 4

/-- Reads a big-endian number. -/
def loadBE (mem : Str) (addr n : Nat) : Except Fault Nat :=
  beNat <$> load mem addr n

/-- A difference of unsigned numbers. -/
def sub (a b : Nat) : Except Fault Nat := if b ≤ a then .ok (a - b) else .error .wrap

/-- `align_to`.  The alignment is an `int`, so that a large one is negative. -/
def alignUp (v a : Nat) : Except Fault Nat :=
  if a = 0 then .error .divideByZero
  else if 2 ^ 31 ≤ a then .error .wrap
  else .ok (alignTo v a)

/-! ### Formats in memory -/

section Formats

variable (mem : Str)

/-- `guess_lzma`. -/
def guessLzmaAt (addr len : Nat) : Except Fault Bool :=
  if len ≤ 13 then .ok false
  else do
    let props ← load mem addr 1
    if props ≠ [0x5d] then .ok false
    else
      let dictSz ← loadU32 mem (addr + 1)
      if badDict (.ofNat dictSz) then .ok false
      else (· == List.replicate 8 0xff) <$> load mem (addr + 5) 8

/-- One check of a buffer, if the buffer is said to be long enough. -/
def FmtCheck.run (addr len : Nat) : FmtCheck → Except Fault Bool
  | .magic off bytes =>
    if off + bytes.length ≤ len then (· == bytes) <$> load mem (addr + off) bytes.length
    else .ok false
  | .lzma => guessLzmaAt mem addr len

/-- The first check that holds. -/
def firstFmt (addr len : Nat) : List (FmtCheck × FileFormat) → Except Fault FileFormat
  | [] => .ok .unknown
  | (c, fmt) :: cs => do
      let holds ← c.run mem addr len
      if holds then .ok fmt else firstFmt addr len cs

/-- `check_fmt`, of a buffer that is said to have `len` bytes. -/
def checkFmtAt (addr len : Nat) : Except Fault FileFormat := firstFmt mem addr len fmtChecks

/-- The loop body of `check_fmt_lg`, which goes from one block size to the next. -/
def lgStep (buf sz off : Nat) : Except Fault (Nat ⊕ FileFormat) :=
  if off + 4 ≤ sz then do
    let blockSz ← loadU32 mem (buf + off)
    if 2 ^ 32 ≤ off + 4 + blockSz then .error .wrap
    else if sz < off + 4 + blockSz then .ok (.inr .lz4Lg)
    else .ok (.inl (off + 4 + blockSz))
  else .ok (.inr .lz4Legacy)

variable {mem} in
lemma lgStep_lt (h : lgStep mem buf sz off = .ok (.inl off')) : off + 4 ≤ off' ∧ off' ≤ sz := by
  rw [lgStep] at h
  split at h
  · obtain ⟨blockSz, -, h⟩ := bind_eq_ok.mp h
    split at h
    · cases h
    · split at h
      · cases h
      · cases h
        omega
  · cases h

/-- `check_fmt_lg`. -/
def checkFmtLg (buf sz : Nat) : Except Fault FileFormat := do
  let fmt ← checkFmtAt mem buf sz
  if fmt = .lz4Legacy then
    loop (lgStep mem buf sz) (sz - ·) (fun _ _ h => by have := lgStep_lt h; omega) 4
  else .ok fmt

end Formats

/-! ### The image -/

/-- The flags of an image. -/
structure Flags where
  mtkKernel : Bool := false
  mtkRamdisk : Bool := false
  chromeos : Bool := false
  dhtb : Bool := false
  seandroid : Bool := false
  lgBump : Bool := false
  sha256 : Bool := false
  blob : Bool := false
  nookhd : Bool := false
  acclaim : Bool := false
  amonet : Bool := false
  avb1Signed : Bool := false
  avb : Bool := false
  zimageKernel : Bool := false
  deriving DecidableEq

/-- The blocks of an image, in their order. -/
inductive Block where
  | kernel
  | ramdisk
  | second
  | extra
  | recoveryDtbo
  | dtb
  | signature
  | vendorRamdiskTable
  | bootconfig
  deriving DecidableEq, Repr

namespace Block

/-- All blocks, in the order of `get_block`. -/
def all : List Block :=
  [kernel, ramdisk, second, extra, recoveryDtbo, dtb, signature, vendorRamdiskTable, bootconfig]

/-- The field with the size of the block. -/
def sizeField : Block → ImgField
  | kernel => .kernelSize
  | ramdisk => .ramdiskSize
  | second => .secondSize
  | extra => .extraSize
  | recoveryDtbo => .recoveryDtboSize
  | dtb => .dtbSize
  | signature => .signatureSize
  | vendorRamdiskTable => .vendorRamdiskTableSize
  | bootconfig => .bootconfigSize

end Block

/-- `byte_view`: a part of the mapping. -/
structure ByteView where
  data : Nat := 0
  size : Nat := 0
  deriving DecidableEq, Repr

/-- `boot_img`.  Pointers are positions in the mapping. -/
structure BootImg where
  hdr : ImgHdr
  flags : Flags
  kFmt : FileFormat := .unknown
  rFmt : FileFormat := .unknown
  eFmt : FileFormat := .unknown
  payload : ByteView
  tail : ByteView
  /-- The pointers to the blocks. -/
  ptr : Block → Nat
  kernelDtb : ByteView := {}
  kHdr : Option Nat := none
  rHdr : Option Nat := none
  zHdr : ByteView := {}
  zTail : ByteView := {}
  avbFooter : Option Nat := none
  vbmeta : Option Nat := none

namespace BootImg

/-- The size of a block, from the header. -/
def size (img : BootImg) (b : Block) : Nat := img.hdr.get b.sizeField

/-- `hdr->name_size() = v`. -/
def setSize (img : BootImg) (b : Block) (v : Nat) : BootImg :=
  { img with hdr := img.hdr.set b.sizeField v }

/-- A new pointer to a block. -/
def setPtr (img : BootImg) (b : Block) (p : Nat) : BootImg :=
  { img with ptr := Function.update img.ptr b p }

end BootImg

/-! ### The header -/

section Header

variable (mem : Str)

/-- The constructor of a header class: copies `sz` bytes into a buffer for the header. -/
def loadHdr (cls : HdrClass) (addr sz : Nat) : Except Fault ImgHdr :=
  if h : sz ≤ cls.hdrSize ∧ addr + sz ≤ mem.length then
    .ok
      { cls
        raw := window mem addr sz ++ List.replicate (cls.hdrSize - sz) 0
        length_raw := by
          rw [length_append, length_window h.2, length_replicate]
          omega }
  else .error .outOfBounds

/-- The class for a header version. -/
def aospClass : Nat → HdrClass
  | 1 => .v1
  | 2 => .v2
  | 3 => .v3
  | 4 => .v4
  | _ => .v0

/-- `make_aosp_hdr`, with the number of bytes to copy if it is not the size of the class. -/
def makeAospHdr (addr : Nat) (size : Option Nat) : Except Fault (Option ImgHdr) := do
  let magic ← load mem addr 8
  if magic ≠ bootMagic then .ok none
  else
    let version ← loadU32 mem (addr + 40)
    let cls := aospClass version
    some <$> loadHdr mem cls addr (size.getD cls.hdrSize)

/-- `BUFFER_CONTAIN`. -/
def bufferContain (buf pat : Str) : Bool :=
  (List.range buf.length).any fun i => window buf i pat.length == pat

/-- `CMD_MATCH`, of one text after the other. -/
def cmdMatch (addr : Nat) : List Str → Except Fault Bool
  | [] => .ok false
  | text :: texts => do
      let cmd ← load mem (addr + 64) text.length
      if cmd = text then .ok true else cmdMatch addr texts

/-- The texts in the command line of a Nook HD loader. -/
def nookhdMagics : List Str :=
  [str "Red Loader", str "Green Loader", str "Green Recovery", str "eMMC boot.img+secondloader",
    str "eMMC recovery.img+secondloader"]

/-- `AMONET_MICROLOADER_SZ`. -/
def amonetMicroloaderSz : Nat := 1024

/-- `NOOKHD_PRE_HEADER_SZ`. -/
def nookhdPreHeaderSz : Nat := 1048576

/-- `ACCLAIM_PRE_HEADER_SZ`. -/
def acclaimPreHeaderSz : Nat := 262144

/-- The check for an Amonet microloader with a header after it. -/
def isAmonet (addr : Nat) : Except Fault Bool := do
  let buf ← load mem addr amonetMicroloaderSz
  if bufferContain buf (str "microloader") then
    (· == bootMagic) <$> load mem (addr + amonetMicroloaderSz) 8
  else .ok false

/-- `parse_hdr`: the address of the image, its header, and the flags. -/
def parseHdr (addr : Nat) (type : FileFormat) (flags : Flags) :
    Except Fault (Nat × Option ImgHdr × Flags) :=
  if type = .aospVendor then do
    let version ← loadU32 mem (addr + 8)
    let cls := if version = 4 then HdrClass.vndV4 else .vndV3
    let hdr ← loadHdr mem cls addr cls.hdrSize
    .ok (addr, some hdr, flags)
  else do
    let pageSize ← loadU32 mem (addr + 36)
    if 0x02000000 ≤ pageSize then
      let hdr ← loadHdr mem .pxa addr HdrClass.pxa.hdrSize
      .ok (addr, some hdr, flags)
    else
      let amonet ← isAmonet mem addr
      if amonet then
        -- the real header comes after the loader, in the same page
        let pageSize ← loadU32 mem (addr + amonetMicroloaderSz + 36)
        let realHdrSz ← sub pageSize amonetMicroloaderSz
        let hdr ← makeAospHdr mem (addr + amonetMicroloaderSz) (some realHdrSz)
        .ok (addr, hdr, { flags with amonet := true })
      else
        let nookhd ← cmdMatch mem addr nookhdMagics
        if nookhd then
          let hdr ← makeAospHdr mem (addr + nookhdPreHeaderSz) none
          .ok (addr + nookhdPreHeaderSz, hdr, { flags with nookhd := true })
        else
          let name ← load mem (addr + 48) 10
          if name = str "BauwksBoot" then
            let hdr ← makeAospHdr mem (addr + acclaimPreHeaderSz) none
            .ok (addr + acclaimPreHeaderSz, hdr, { flags with acclaim := true })
          else
            let hdr ← makeAospHdr mem addr none
            .ok (addr, hdr, flags)

end Header

/-- `hdr_space`. -/
def hdrSpace (hdr : ImgHdr) : Except Fault Nat :=
  if hdr.cls.isVendor then alignUp hdr.cls.hdrSize (hdr.get .pageSize) else .ok (hdr.get .pageSize)

/-- A checksum with more bytes than SHA-1 has. -/
def hasSha256 (hdr : ImgHdr) : Bool :=
  match hdr.cls.idOffset with
  | some o => (window hdr.raw (o + 24) 8).any (· != 0)
  | none => false

/-! ### Blocks -/

/-- `get_block` for each block: where they start, and where the last one ends.  An image that
does not fit the mapping is corrupted. -/
def getBlocks (mapEnd addr page : Nat) : Nat → List Nat → Except Fault (Option (List Nat × Nat))
  | off, [] => .ok (some ([], off))
  | off, size :: sizes => do
      let next ← alignUp (off + size) page
      if mapEnd < addr + next then .ok none
      else
        let rest ← getBlocks mapEnd addr page next sizes
        .ok (rest.map fun r => (off :: r.1, r.2))

section Components

variable (mem : Str)

/-- `memmem`, between two positions. -/
def memmem (curr stop : Nat) (pat : Str) : Option Nat :=
  (List.range' curr (stop - curr)).find? fun p =>
    p + pat.length ≤ stop && window mem p pat.length == pat

/-- The loop body of `find_dtb_offset`. -/
def findDtbStep (buf sz curr : Nat) : Except Fault (Nat ⊕ Option Nat) :=
  let stop := buf + sz
  if curr < stop then
    match memmem mem curr stop dtbMagic with
    | none => .ok (.inr none)
    | some curr => do
        let totalsize ← loadBE mem (curr + 4) 4
        if stop - curr < totalsize ∨ totalsize ≤ 0x48 then .ok (.inl (curr + 40))
        else
          let offDtStruct ← loadBE mem (curr + 8) 4
          if stop - curr < offDtStruct then .ok (.inl (curr + 40))
          else
            let tag ← loadBE mem (curr + offDtStruct) 4
            if tag ≠ 1 then .ok (.inl (curr + 40))
            -- the result is an `int`
            else if 2 ^ 31 ≤ curr - buf then .error .wrap
            else .ok (.inr (some (curr - buf)))
  else .ok (.inr none)

variable {mem} in
lemma memmem_le (h : memmem mem curr stop pat = some p) :
    curr ≤ p ∧ p + pat.length ≤ stop ∧ window mem p pat.length = pat := by
  have hmem := mem_of_find?_eq_some h
  have hp := find?_some h
  rw [mem_range'_1] at hmem
  simp only [Bool.and_eq_true, decide_eq_true_eq, beq_iff_eq] at hp
  exact ⟨hmem.1, hp⟩

variable {mem} in
lemma findDtbStep_lt {buf sz curr next : Nat} (h : findDtbStep mem buf sz curr = .ok (.inl next)) :
    curr < next ∧ curr < buf + sz := by
  rw [findDtbStep] at h
  split at h
  · split at h
    · cases h
    · rename_i p hp
      have hle := (memmem_le hp).1
      have hnext : next = p + 40 := by
        obtain ⟨totalsize, -, h⟩ := bind_eq_ok.mp h
        split at h
        · exact (Sum.inl.inj (Except.ok.inj h)).symm
        · obtain ⟨offDtStruct, -, h⟩ := bind_eq_ok.mp h
          split at h
          · exact (Sum.inl.inj (Except.ok.inj h)).symm
          · obtain ⟨tag, -, h⟩ := bind_eq_ok.mp h
            split at h
            · exact (Sum.inl.inj (Except.ok.inj h)).symm
            · split at h <;> cases h
      omega
  · cases h

/-- `find_dtb_offset`. -/
def findDtbOffset (buf sz : Nat) : Except Fault (Option Nat) :=
  loop (findDtbStep mem buf sz) (buf + sz - ·)
    (fun _ _ h => by have := findDtbStep_lt h; omega) buf

/-- A device tree at a positive offset of the kernel is cut off. -/
def BootImg.cutDtb (img : BootImg) : Option Nat → BootImg
  | some (off + 1) =>
    setSize { img with kernelDtb := ⟨img.ptr .kernel + (off + 1), img.size .kernel - (off + 1)⟩ }
      .kernel (off + 1)
  | _ => img

/-- The size of `mtk_hdr`. -/
def mtkHdrSz : Nat := 512

/-- The header of a MediaTek block is cut off. -/
def BootImg.cutMtk (img : BootImg) (b : Block) : BootImg :=
  (img.setPtr b (img.ptr b + mtkHdrSz)).setSize b (img.size b - mtkHdrSz)

/-- The format of a block, and after the header of a MediaTek block the one of its content. -/
def blockFmt (img : BootImg) (b : Block) : Except Fault (Bool × FileFormat) := do
  let fmt ← checkFmtLg mem (img.ptr b) (img.size b)
  if fmt = .mtk then
    let size ← sub (img.size b) mtkHdrSz
    let fmt ← checkFmtLg mem (img.ptr b + mtkHdrSz) size
    .ok (true, fmt)
  else .ok (false, fmt)

/-- The loop body of the search for the compressed kernel in a zImage. -/
def piggyStep (kernel size curr : Nat) : Except Fault (Nat ⊕ Option Nat) :=
  if curr < kernel + size then do
    let fmt ← checkFmtLg mem curr (size - (curr - kernel))
    if fmt ≠ .unknown then .ok (.inr (some curr)) else .ok (.inl (curr + 1))
  else .ok (.inr none)

variable {mem} in
lemma piggyStep_lt {kernel size curr next : Nat}
    (h : piggyStep mem kernel size curr = .ok (.inl next)) :
    next = curr + 1 ∧ curr < kernel + size := by
  rw [piggyStep] at h
  split at h
  · obtain ⟨fmt, -, h⟩ := bind_eq_ok.mp h
    split at h
    · cases h
    · exact ⟨(Sum.inl.inj (Except.ok.inj h)).symm, ‹_›⟩
  · cases h

/-- The search for the compressed kernel, after the header of the zImage. -/
def findPiggy (kernel size : Nat) : Except Fault (Option Nat) :=
  loop (piggyStep mem kernel size) (kernel + size - ·)
    (fun _ _ h => by have := piggyStep_lt h; omega) (kernel + 0x28)

/-- The last offset of the table that is close to the end. -/
def piggyEnd (offsets : Str) (low high : Nat) : Option Nat :=
  (((List.range 16).map fun i => leNat (window offsets (4 * i) 4)).reverse).find? fun o =>
    low < o && o < high

/-- The format of a compressed kernel whose end is known, in a zImage of `size` bytes with a
header of `hdrSz` bytes. -/
def piggyFmt (kernel size hdrSz : Nat) : Option Nat → Except Fault (Option (Nat × FileFormat))
  | none => .ok none
  | some stop => do
      let _ ← sub size stop
      let newSz ← sub stop hdrSz
      let kFmt ← checkFmtLg mem (kernel + hdrSz) newSz
      .ok (some (stop, kFmt))

/-- The end of the compressed kernel, if it can be found, and its format. -/
def findPiggyEnd (kernel size hdrSz : Nat) : Except Fault (Option (Nat × FileFormat)) := do
  let start ← loadU32 mem (kernel + 0x28)
  let stop ← loadU32 mem (kernel + 0x2c)
  let piggySize ← sub stop start
  let table ← sub (kernel + piggySize) 64
  let offsets ← load mem table 64
  let low ← sub piggySize 0xff
  piggyFmt mem kernel size hdrSz (piggyEnd offsets low piggySize)

/-- The kernel of a zImage: its header and its tail are cut off. -/
def BootImg.cutZimage (img : BootImg) (hdrSz stop : Nat) (kFmt : FileFormat) : BootImg :=
  let kernel := img.ptr .kernel
  let img :=
    { img with
      flags := { img.flags with zimageKernel := true }
      zHdr := ⟨kernel, hdrSz⟩
      zTail := ⟨kernel + stop, img.size .kernel - stop⟩
      kFmt }
  (img.setPtr .kernel (kernel + hdrSz)).setSize .kernel (stop - hdrSz)

/-- `parse_zimage`. -/
def parseZimage (img : BootImg) : Except Fault BootImg := do
  let kernel := img.ptr .kernel
  let piggy ← findPiggy mem kernel (img.size .kernel)
  match piggy with
  | none => .ok { img with zHdr := ⟨kernel, 0⟩ }
  | some curr =>
    let stop ← findPiggyEnd mem kernel (img.size .kernel) (curr - kernel)
    match stop with
    | none => .ok { img with zHdr := ⟨kernel, curr - kernel⟩ }
    | some (stop, kFmt) => .ok (img.cutZimage (curr - kernel) stop kFmt)

/-- The kernel with its format, without the header of a MediaTek kernel. -/
def BootImg.withKernelFmt (img : BootImg) : Bool × FileFormat → BootImg
  | (true, kFmt) =>
    { img.cutMtk .kernel with
      kFmt, kHdr := some (img.ptr .kernel), flags := { img.flags with mtkKernel := true } }
  | (false, kFmt) => { img with kFmt }

/-- The part of `parse_image` for the kernel. -/
def parseKernel (img : BootImg) : Except Fault BootImg :=
  if img.size .kernel = 0 then .ok img
  else do
    let dtbOff ← findDtbOffset mem (img.ptr .kernel) (img.size .kernel)
    let img := img.cutDtb dtbOff
    let fmt ← blockFmt mem img .kernel
    let img := img.withKernelFmt fmt
    if img.kFmt = .zimage then parseZimage mem img else .ok img

/-- The size of `vendor_ramdisk_table_entry_v4`. -/
def tableEntrySz : Nat := 108

/-- The formats of the ramdisks of a table are found. -/
def checkTable (ramdisk table : Nat) : List Nat → Except Fault Unit
  | [] => .ok ()
  | i :: is => do
      let size ← loadU32 mem (table + tableEntrySz * i)
      let offset ← loadU32 mem (table + tableEntrySz * i + 4)
      let _ ← checkFmtLg mem (ramdisk + offset) size
      checkTable ramdisk table is

/-- The ramdisk with its format, without the header of a MediaTek ramdisk. -/
def BootImg.withRamdiskFmt (img : BootImg) : Bool × FileFormat → BootImg
  | (true, rFmt) =>
    { img.cutMtk .ramdisk with
      rFmt, rHdr := some (img.ptr .ramdisk), flags := { img.flags with mtkRamdisk := true } }
  | (false, rFmt) => { img with rFmt }

/-- The part of `parse_image` for the ramdisk.  A table with entries of another size ends the
program. -/
def parseRamdisk (img : BootImg) : Except Fault (Option BootImg) :=
  if img.size .ramdisk = 0 then .ok (some img)
  else if img.size .vendorRamdiskTable ≠ 0 then
    if img.hdr.get .vendorRamdiskTableEntrySize ≠ tableEntrySz then .ok none
    else do
      checkTable mem (img.ptr .ramdisk) (img.ptr .vendorRamdiskTable)
        (List.range (img.hdr.get .vendorRamdiskTableEntryNum))
      .ok (some img)
  else do
    let fmt ← blockFmt mem img .ramdisk
    .ok (some (img.withRamdiskFmt fmt))

/-- The part of `parse_image` for the extra block. -/
def parseExtra (img : BootImg) : Except Fault BootImg :=
  if img.size .extra = 0 then .ok img
  else do
    let eFmt ← checkFmtLg mem (img.ptr .extra) (img.size .extra)
    .ok { img with eFmt }

/-- `SEANDROID_MAGIC`. -/
def seandroidMagic : Str := str "SEANDROIDENFORCE"

/-- `LG_BUMP_MAGIC`. -/
def lgBumpMagic : Str :=
  [0x41, 0xa9, 0xe4, 0x67, 0x74, 0x4d, 0x1d, 0x1b, 0xa4, 0x29, 0xf2, 0xec, 0xea, 0x65, 0x52, 0x79]

/-- The size of `AvbFooter`. -/
def avbFooterSz : Nat := 64

/-- The footer at the end of the tail, and the header it points to. -/
def parseFooter (img : BootImg) : Except Fault BootImg := do
  let footer ← sub (img.tail.data + img.tail.size) avbFooterSz
  let magic ← load mem footer 4
  if magic ≠ str "AVBf" then .ok img
  else
    let img := { img with avbFooter := some footer }
    let vbmetaOffset ← loadBE mem (footer + 20) 8
    let magic ← load mem (img.payload.data + vbmetaOffset) 4
    if magic ≠ str "AVB0" then .ok img
    else
      .ok { img with
        flags := { img.flags with avb := true }, vbmeta := some (img.payload.data + vbmetaOffset) }

/-- The bytes of a part of the mapping. -/
def ByteView.bytes (v : ByteView) : Str := window mem v.data v.size

/-- The flags of a trailer.  `verify` checks a signature in the tail against the payload. -/
def tailFlags (verify : Str → Str → Bool) (img : BootImg) : Flags :=
  let tail := img.tail.bytes mem
  if 16 ≤ img.tail.size ∧ tail.take 16 = seandroidMagic then { img.flags with seandroid := true }
  else if 16 ≤ img.tail.size ∧ tail.take 16 = lgBumpMagic then { img.flags with lgBump := true }
  else if verify (img.payload.bytes mem) tail then { img.flags with avb1Signed := true }
  else img.flags

/-- The part of `parse_image` for the tail. -/
def parseTail (verify : Str → Str → Bool) (img : BootImg) : Except Fault BootImg :=
  if img.tail.size = 0 then .ok img
  else parseFooter mem { img with flags := tailFlags mem verify img }

end Components

/-! ### The constructor -/

/-- What `parse_image` ends with. -/
inductive Parsed where
  | accepted (img : BootImg)
  | rejected (flags : Flags)
  | exited

section Constructor

variable (verify : Str → Str → Bool) (mem : Str)

/-- The image with its blocks, before they are looked at. -/
def BootImg.ofBlocks (hdr : ImgHdr) (flags : Flags) (addr : Nat) (offs : List Nat) (off : Nat) :
    BootImg where
  hdr
  flags
  payload := ⟨addr, off⟩
  tail := ⟨addr + off, mem.length - (addr + off)⟩
  ptr b := addr + offs.getD (Block.all.idxOf b) 0

/-- The part of `parse_image` after the kernel. -/
def parseAfterKernel (img : BootImg) : Except Fault Parsed := do
  let img ← parseRamdisk mem img
  match img with
  | none => .ok .exited
  | some img =>
    let img ← parseExtra mem img
    .accepted <$> parseTail mem verify img

/-- The part of `parse_image` that looks at the blocks. -/
def parseBlocks (img : BootImg) : Except Fault Parsed := do
  let img ← parseKernel mem img
  parseAfterKernel verify mem img

/-- The part of `parse_image` after the header, which is at `addr`. -/
def parseSizes (addr : Nat) (hdr : ImgHdr) (flags : Flags) : Except Fault Parsed := do
  let flags := if hasSha256 hdr then { flags with sha256 := true } else flags
  let space ← hdrSpace hdr
  let blocks ← getBlocks mem.length addr (hdr.get .pageSize) space
    (Block.all.map fun b => hdr.get b.sizeField)
  match blocks with
  | none => .ok (.rejected flags)
  | some (offs, off) => parseBlocks verify mem (.ofBlocks mem hdr flags addr offs off)

/-- `parse_image`. -/
def parseImage (addr : Nat) (type : FileFormat) (flags : Flags) : Except Fault Parsed := do
  let (addr, hdr, flags) ← parseHdr mem addr type flags
  match hdr with
  | none => .ok (.rejected flags)
  | some hdr => parseSizes verify mem addr hdr flags

/-- The size of `blob_hdr`. -/
def blobHdrSz : Nat := 104

/-- The size of `dhtb_hdr`. -/
def dhtbHdrSz : Nat := 512

/-- The image at an address is parsed, and if it is rejected the search goes on. -/
def tryImage (addr : Nat) (type : FileFormat) (flags : Flags) :
    Except Fault ((Nat × Flags) ⊕ Option BootImg) := do
  let parsed ← parseImage verify mem addr type flags
  match parsed with
  | .accepted img => .ok (.inr (some img))
  | .rejected flags => .ok (.inl (addr + 1, flags))
  | .exited => .ok (.inr none)

/-- The loop body of the constructor, at an address. -/
def scanStep (size : Nat) (s : Nat × Flags) : Except Fault ((Nat × Flags) ⊕ Option BootImg) :=
  let (addr, flags) := s
  if addr < size then do
    let fmt ← checkFmtAt mem addr size
    match fmt with
    | .chromeos => .ok (.inl (addr + 65536, { flags with chromeos := true }))
    | .dhtb => .ok (.inl (addr + dhtbHdrSz, { flags with dhtb := true, seandroid := true }))
    | .blob => .ok (.inl (addr + blobHdrSz, { flags with blob := true }))
    | .aosp | .aospVendor => tryImage verify mem addr fmt flags
    | _ => .ok (.inl (addr + 1, flags))
  else .ok (.inr none)

variable {verify mem} in
lemma tryImage_eq (h : tryImage verify mem addr type flags = .ok (.inl t)) : t.1 = addr + 1 := by
  obtain ⟨parsed, -, h⟩ := bind_eq_ok.mp h
  split at h
  · cases h
  · exact congrArg Prod.fst (Sum.inl.inj (Except.ok.inj h)).symm
  · cases h

variable {verify mem} in
lemma scanStep_lt (h : scanStep verify mem size s = .ok (.inl t)) : s.1 < t.1 ∧ s.1 < size := by
  rw [scanStep] at h
  split at h
  · refine ⟨?_, ‹_›⟩
    obtain ⟨fmt, -, h⟩ := bind_eq_ok.mp h
    split at h
    case h_4 | h_5 =>
      rw [tryImage_eq h]
      exact Nat.lt_succ_self _
    all_goals
      cases h
      exact Nat.lt_add_of_pos_right (by decide)
  · cases h

/-- The constructor: `none` if it exits with an error. -/
def bootImg (file : Str) : Except Fault (Option BootImg) :=
  loop (scanStep verify (mapped file) file.length) (file.length - ·.1)
    (fun _ _ h => by have := scanStep_lt h; omega) (0, {})

end Constructor

end Magisk.Boot
