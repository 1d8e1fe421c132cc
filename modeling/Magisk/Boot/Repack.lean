import Magisk.Boot.BootImg

/-!
# Packing boot images

An image that was parsed is written again, with the files of the working directory for its
components.  Sizes are filled in while the components are written, and the image is patched at the
end.

* `Files`, `HdrProp`: what is in the working directory;
* `ImgWriter`: the image so far, with what was written for each block;
* `writeBlocks`, `writeTail`: the components, and what comes after them;
* `patchImage`: sizes, checksum, headers and the signature;
* `repack`: all of it;
* `unpack`: the files for the components of an image.
-/

namespace Magisk.Boot

open Magisk.Base Magisk.Lib Function

/-! ### The header file -/

/-- A property of the file `header`, as the callback of `load_hdr_file` reads it. -/
inductive HdrProp where
  | name (value : Str)
  | cmdline (value : Str)
  | osVersion (a b c : BitVec 32)
  | osPatchLevel (y m : BitVec 32)

namespace HdrClass

/-- Where `name` is, of which the code uses 16 bytes. -/
def nameOffset : HdrClass → Option Nat
  | v0 | v1 | v2 | pxa => some 48
  | v3 | v4 => none
  | vndV3 | vndV4 => some 2080

/-- Where `cmdline` is, of which the code uses `BOOT_ARGS_SIZE` bytes. -/
def cmdlineOffset : HdrClass → Nat
  | v0 | v1 | v2 => 64
  | pxa => 72
  | v3 | v4 => 44
  | vndV3 | vndV4 => 28

/-- Where `extra_cmdline` is, of which the code uses `BOOT_EXTRA_ARGS_SIZE` bytes. -/
def extraCmdlineOffset : HdrClass → Nat
  | v0 | v1 | v2 => 608
  | pxa => 616
  | v3 | v4 => 556
  | vndV3 | vndV4 => 540

/-- Where `os_version` is. -/
def osVersionOffset : HdrClass → Option Nat
  | v0 | v1 | v2 => some 44
  | v3 | v4 => some 16
  | pxa | vndV3 | vndV4 => none

end HdrClass

/-- `BOOT_ARGS_SIZE`. -/
def bootArgsSize : Nat := 512

/-- `BOOT_EXTRA_ARGS_SIZE`. -/
def bootExtraArgsSize : Nat := 1024

/-- A text in a field of `n` bytes, the rest of it zero. -/
def fitText (n : Nat) (value : Str) : Str := (value ++ List.replicate n 0).take n

namespace ImgHdr

/-- Overwrites some bytes of the header, which has them. -/
def put (h : ImgHdr) (off : Nat) (data : Str) : ImgHdr :=
  if hle : off + data.length ≤ h.cls.hdrSize then h.store off data hle else h

/-- `os_version`, which is zero if the layout does not have it. -/
def osVersion (h : ImgHdr) : BitVec 32 :=
  match h.cls.osVersionOffset with
  | some o => .ofNat 32 (leNat (window h.raw o 4))
  | none => 0

/-- Stores `os_version`. -/
def setOsVersion (h : ImgHdr) (v : BitVec 32) : ImgHdr :=
  match h.cls.osVersionOffset with
  | some o => h.put o (leBytes 4 v.toNat)
  | none => h

/-- The callback of `load_hdr_file`. -/
def loadProp (h : ImgHdr) : HdrProp → ImgHdr
  | .name value =>
    match h.cls.nameOffset with
    | some o => h.put o (fitText 16 (value.take 15))
    | none => h
  | .cmdline value =>
    (h.put h.cls.cmdlineOffset (fitText bootArgsSize value)).put h.cls.extraCmdlineOffset
      (fitText bootExtraArgsSize (value.drop bootArgsSize))
  | .osVersion a b c =>
    let patchLevel := h.osVersion &&& 0x7ff
    h.setOsVersion ((a <<< 14 ||| b <<< 7 ||| c) <<< 11 ||| patchLevel)
  | .osPatchLevel y m =>
    let osVer := h.osVersion >>> 11
    h.setOsVersion (osVer <<< 11 ||| (y - 2000) <<< 4 ||| m)

/-- `recovery_dtbo_offset`. -/
def dtboOffset (h : ImgHdr) : Nat :=
  match h.cls.dtboOffset with
  | some o => leNat (window h.raw o 8)
  | none => 0

/-- Stores `recovery_dtbo_offset`. -/
def setDtboOffset (h : ImgHdr) (v : Nat) : ImgHdr :=
  match h.cls.dtboOffset with
  | some o => h.put o (leBytes 8 v)
  | none => h

end ImgHdr

/-! ### The working directory -/

/-- The files in the working directory.  `vendorRamdisk` is what opening a name in
`VND_RAMDISK_DIR` finds. -/
structure Files where
  header : Option (List HdrProp) := none
  kernel : Option Str := none
  kernelDtb : Option Str := none
  ramdisk : Option Str := none
  second : Option Str := none
  extra : Option Str := none
  recoveryDtbo : Option Str := none
  dtb : Option Str := none
  bootconfig : Option Str := none
  vendorRamdisk : Str → Option Str := fun _ => none

namespace Files

variable (files : Files)

/-- The file for a block.  The signature and the table have none. -/
def ofBlock : Block → Option Str
  | .kernel => files.kernel
  | .ramdisk => files.ramdisk
  | .second => files.second
  | .extra => files.extra
  | .recoveryDtbo => files.recoveryDtbo
  | .dtb => files.dtb
  | .bootconfig => files.bootconfig
  | .signature | .vendorRamdiskTable => none

/-- `load_hdr_file`, if there is a file. -/
def loadHdrFile (h : ImgHdr) : ImgHdr := (files.header.getD []).foldl ImgHdr.loadProp h

end Files

/-! ### Writing -/

/-- The output, with the header to be stored in it.  `log` has what was written for each block. -/
structure ImgWriter where
  hdr : ImgHdr
  out : Str
  log : Block → Str

namespace ImgWriter

variable (w : ImgWriter)

/-- Writes bytes that are not part of a block. -/
def append (data : Str) : ImgWriter := { w with out := w.out ++ data }

/-- `xwrite`, for a block. -/
def write (b : Block) (data : Str) : ImgWriter :=
  { w with out := w.out ++ data, log := update w.log b (w.log b ++ data) }

/-- `hdr->name_size() = n`. -/
def setSize (b : Block) (n : Nat) : ImgWriter := { w with hdr := w.hdr.set b.sizeField n }

/-- `file_align_with`, for a header at `header`. -/
def align (header page : Nat) : ImgWriter :=
  w.append (List.replicate (alignTo (w.out.length - header) page - (w.out.length - header)) 0)

/-- A block is written and padded, if there is one. -/
def block (header page : Nat) (b : Block) : Option Str → ImgWriter
  | none => w
  | some data => (w.write b data).align header page

/-- A component is written and padded and its size noted, if there is a file for it. -/
def component (header page : Nat) (b : Block) : Option Str → ImgWriter
  | none => w
  | some data => ((w.write b data).setSize b data.length).align header page

end ImgWriter

/-- `fmt_compressed_any`. -/
def FileFormat.isCompressedAny (fmt : FileFormat) : Bool := fmt.isCompressed || fmt == .lzop

/-- A position of the output, in a field of 32 bits. -/
def u32 (n : Nat) : Nat := n % 2 ^ 32

/-- The file names of a table entry are made in a buffer of `cap` bytes. -/
def entryFile (cap : Nat) (name : Str) : Str :=
  if name = [] then str "ramdisk.cpio" else (name ++ str ".cpio").take (cap - 1)

section Repack

variable (compress : FileFormat → Str → Str) (skipComp : Bool)
variable (mem : Str) (boot : BootImg) (files : Files)

/-- The bytes of a block of the image. -/
def BootImg.bytes (b : Block) : Str := window mem (boot.ptr b) (boot.size b)

/-- The data is compressed if it is not and the component was. -/
def recompress (was fmt : FileFormat) (data : Str) : Str :=
  if !skipComp && !(checkFmt data).isCompressedAny && was.isCompressed then compress fmt data
  else data

/-- The content of the kernel, and the size that is noted for it. -/
def kernelContent : Except Fault (Str × Nat) :=
  match files.kernel with
  | none => .ok (boot.bytes mem .kernel, boot.size .kernel)
  | some m =>
    let fmt := if boot.flags.zimageKernel && boot.kFmt == .gzip then .zopfli else boot.kFmt
    let data := recompress compress skipComp boot.kFmt fmt m
    if boot.flags.zimageKernel then
      let size := u32 data.length
      if boot.size .kernel < size then
        -- what was written is taken back
        .ok (data.take (data.length - size) ++ boot.bytes mem .kernel, boot.size .kernel)
      else if !skipComp then do
        let gap ← sub (boot.size .kernel - size) 4
        .ok (data ++ List.replicate gap 0 ++ leBytes 4 m.length, boot.size .kernel)
      else .ok (data, boot.size .kernel)
    else .ok (data, data.length)

/-- The header of a MediaTek block. -/
def mtkHdr (flag : Bool) (hdr : Option Nat) : Str :=
  if flag then window mem (hdr.getD 0) mtkHdrSz else []

/-- A part of a zImage. -/
def zimagePart (part : ByteView) : Str :=
  if boot.flags.zimageKernel then part.bytes mem else []

/-- The kernel with its headers, tail and device tree, and the size that is noted for it. -/
def kernelBlock : Except Fault (Str × Nat) := do
  let (data, size) ← kernelContent compress skipComp mem boot files
  let dtb := files.kernelDtb.getD []
  let zTail := zimagePart mem boot boot.zTail
  .ok (mtkHdr mem boot.flags.mtkKernel boot.kHdr ++ zimagePart mem boot boot.zHdr ++ data ++
      zTail ++ dtb,
    size + (if boot.flags.zimageKernel then boot.zHdr.size else 0) + zTail.length + dtb.length)

/-- The bytes of an entry of the vendor ramdisk table. -/
def tableEntry (i : Nat) : Str :=
  window mem (boot.ptr .vendorRamdiskTable + tableEntrySz * i) tableEntrySz

/-- The name of an entry, which ends with a zero. -/
def entryName (i : Nat) : Str :=
  (mem.drop (boot.ptr .vendorRamdiskTable + tableEntrySz * i + 12)).takeWhile (· != 0)

/-- The ramdisks of the table are written one after the other, from `offset` on, with new
entries. -/
def vendorRamdisks : Nat → List Nat → Except Fault (Str × Str)
  | _, [] => .ok ([], [])
  | offset, i :: is => do
      let entry := tableEntry mem boot i
      let m := (files.vendorRamdisk (entryFile 64 (entryName mem boot i))).getD []
      let start := boot.ptr .ramdisk + leNat (window entry 4 4)
      let fmt ← checkFmtLg mem start (leNat (window entry 0 4))
      let data := recompress compress skipComp fmt fmt m
      let (ramdisks, table) ← vendorRamdisks (offset + data.length) is
      .ok (data ++ ramdisks, leBytes 4 data.length ++ leBytes 4 offset ++ entry.drop 8 ++ table)

/-- The ramdisk, if there is one, and the new table. -/
def ramdiskBlock (hdr : ImgHdr) : Except Fault (Option Str × Str) :=
  if boot.size .vendorRamdiskTable ≠ 0 then do
    let (ramdisks, table) ← vendorRamdisks compress skipComp mem boot files 0
      (List.range (boot.hdr.get .vendorRamdiskTableEntryNum))
    .ok (some ramdisks, table)
  else
    let rFmt :=
      if !skipComp && !hdr.cls.isVendor && hdr.get .headerVersion == 4 &&
          boot.rFmt != .lz4Legacy then
        .lz4Legacy
      else boot.rFmt
    .ok (files.ramdisk.map fun m => recompress compress skipComp rFmt rFmt m, [])

/-- The header with the sizes of the components to be filled in. -/
def startHdr : ImgHdr :=
  let hdr := boot.hdr
  let hdr := hdr.set .kernelSize 0
  let hdr := hdr.set .ramdiskSize 0
  let hdr := hdr.set .secondSize 0
  let hdr := hdr.set .dtbSize 0
  let hdr := hdr.set .bootconfigSize 0
  files.loadHdrFile hdr

/-- What comes before the header. -/
def preHeader : Str :=
  if boot.flags.dhtb then window mem 0 dhtbHdrSz
  else if boot.flags.blob then window mem 0 blobHdrSz
  else if boot.flags.nookhd then window mem 0 nookhdPreHeaderSz
  else if boot.flags.acclaim then window mem 0 acclaimPreHeaderSz
  else []

/-- The section of the kernel. -/
def writeKernel (header page : Nat) (kernel : Str × Nat) (w : ImgWriter) : ImgWriter :=
  ((w.write .kernel kernel.1).setSize .kernel kernel.2).align header page

/-- The section of the ramdisk. -/
def writeRamdisk (header page : Nat) (ramdisk : Option Str) (w : ImgWriter) : ImgWriter :=
  (w.write .ramdisk (mtkHdr mem boot.flags.mtkRamdisk boot.rHdr)).component header page .ramdisk
    ramdisk

/-- The section of the recovery device tree, whose position is noted. -/
def writeDtbo (header page : Nat) (w : ImgWriter) : ImgWriter :=
  match files.recoveryDtbo with
  | none => w
  | some data =>
    { w with hdr := w.hdr.setDtboOffset w.out.length }.component header page .recoveryDtbo data

/-- The offsets of the output that are kept for the patches. -/
structure Offsets where
  header : Nat
  kernel : Nat
  ramdisk : Nat
  second : Nat
  extra : Nat
  dtb : Nat
  tail : Nat := 0
  vbmeta : Nat := 0

/-- The part of `repack` that writes the blocks. -/
def writeBlocks : Except Fault (ImgWriter × Offsets) := do
  let hdr := startHdr boot files
  let space ← hdrSpace hdr
  let kernel ← kernelBlock compress skipComp mem boot files
  let (ramdisk, table) ← ramdiskBlock compress skipComp mem boot files hdr
  let page := boot.hdr.get .pageSize
  let header := u32 (preHeader mem boot).length
  let start : ImgWriter :=
    ⟨hdr, preHeader mem boot ++ window mem boot.payload.data space, fun _ => []⟩
  let kernel := writeKernel header page kernel start
  let ramdisk := writeRamdisk mem boot header page ramdisk kernel
  let second := ramdisk.component header page .second files.second
  let extra := second.component header page .extra
    (files.extra.map (recompress compress skipComp boot.eFmt boot.eFmt))
  let dtbo := writeDtbo files header page extra
  let dtb := dtbo.component header page .dtb files.dtb
  let signature := dtb.block header page .signature
    (if boot.size .signature = 0 then none else some (boot.bytes mem .signature))
  let vendorTable := signature.block header page .vendorRamdiskTable
    (if table = [] then none else some table)
  .ok (vendorTable.component header page .bootconfig files.bootconfig,
    { header
      kernel := u32 start.out.length
      ramdisk := u32 kernel.out.length
      second := u32 ramdisk.out.length
      extra := u32 second.out.length
      dtb := u32 dtbo.out.length })

/-- The trailers of some vendors. -/
def vendorTrailer : Str :=
  if boot.flags.seandroid then
    seandroidMagic ++ (if boot.flags.dhtb then List.replicate 4 0xff else [])
  else if boot.flags.lgBump then lgBumpMagic
  else []

/-- `vbmeta_size` of the footer. -/
def vbmetaSize : Nat := beNat (window mem (boot.avbFooter.getD 0 + 28) 8)

/-- The header that the footer points to is written again, at the next 4096 bytes. -/
def writeVbmeta (header : Nat) (w : ImgWriter) : ImgWriter × Nat :=
  if boot.flags.avb then
    let w := w.align header 4096
    (w.append (window mem (boot.vbmeta.getD 0) (vbmetaSize mem boot)), u32 w.out.length)
  else (w, 0)

/-- The output gets at least the size of the original, which was `mapSize`. -/
def writeZero (mapSize : Nat) (w : ImgWriter) : ImgWriter :=
  if boot.flags.chromeos then w else w.append (List.replicate (mapSize - w.out.length) 0)

/-- The part of `repack` that writes what comes after the blocks. -/
def writeTail (mapSize : Nat) (w : ImgWriter) (off : Offsets) : ImgWriter × Offsets :=
  let tail := w.append (vendorTrailer boot)
  let (w, vbmeta) := writeVbmeta mem boot off.header
    (tail.align off.header (boot.hdr.get .pageSize))
  (writeZero boot mapSize w, { off with tail := u32 tail.out.length, vbmeta })

end Repack

/-! ### Patches -/

/-- Stores to the mapping of the output.  What comes after its end is lost. -/
def poke (out : Str) (off : Nat) (data : Str) : Except Fault Str :=
  if off + data.length ≤ alignTo out.length getpagesize then
    .ok (patch out off (data.take (out.length - off)))
  else .error .outOfBounds

/-- `byte_view` of the output. -/
def view (out : Str) (off n : Nat) : Except Fault Str :=
  if n = 0 then .ok [] else load (mapped out) off n

section Patch

variable (sha : Bool → Str → Str) (sign : Str → Str) (patchVbmeta : Bool)
variable (mem : Str) (boot : BootImg)

/-- The size of the content is stored to the header of a MediaTek block, and the size of the
header is added to the size of the block. -/
def patchMtk (flag : Bool) (b : Block) (off : Nat) (w : ImgWriter) : Except Fault ImgWriter :=
  if flag then do
    let size := w.hdr.get b.sizeField
    let out ← poke w.out (off + 4) (leBytes 4 size)
    .ok ⟨w.hdr.set b.sizeField (size + mtkHdrSz), out,
      update w.log b (patch (w.log b) 4 (leBytes 4 size))⟩
  else .ok w

/-- A component and its size, as they are fed to the checksum. -/
def chunk (out : Str) (off size : Nat) : Except Fault Str :=
  (· ++ leBytes 4 size) <$> view out off size

/-- A component that is fed to the checksum only under some condition. -/
def chunkIf (c : Bool) (out : Str) (off size : Nat) : Except Fault Str :=
  if c then chunk out off size else .ok []

/-- What the checksum is of. -/
def hashed (hdr : ImgHdr) (out : Str) (off : Offsets) : Except Fault Str := do
  let version := hdr.get .headerVersion
  let kernel ← chunk out off.kernel (hdr.get .kernelSize)
  let ramdisk ← chunk out off.ramdisk (hdr.get .ramdiskSize)
  let second ← chunk out off.second (hdr.get .secondSize)
  let extra ← chunkIf (hdr.get .extraSize != 0) out off.extra (hdr.get .extraSize)
  let dtbo ← chunkIf (version == 1 || version == 2) out hdr.dtboOffset (hdr.get .recoveryDtboSize)
  let dtb ← chunkIf (version == 2) out off.dtb (hdr.get .dtbSize)
  .ok (kernel ++ ramdisk ++ second ++ extra ++ dtbo ++ dtb)

/-- The checksum is stored to the header. -/
def patchId (off : Offsets) (w : ImgWriter) : Except Fault ImgWriter :=
  match w.hdr.cls.idOffset with
  | none => .ok w
  | some o => do
      let data ← hashed w.hdr w.out off
      .ok { w with hdr := w.hdr.put o (fitText 32 (sha (!boot.flags.sha256) data)) }

/-- Where the header is stored. -/
def hdrStart (off : Offsets) : Nat :=
  if boot.flags.amonet then off.header + amonetMicroloaderSz else off.header

/-- How much of the header is stored: of one that comes after a microloader as much as fits. -/
def hdrRoom (hdr : ImgHdr) : Except Fault Nat :=
  if boot.flags.amonet then do
    let space ← hdrSpace hdr
    let room ← sub space amonetMicroloaderSz
    .ok (min room hdr.cls.hdrSize)
  else .ok hdr.cls.hdrSize

/-- The header is stored. -/
def patchHdr (off : Offsets) (w : ImgWriter) : Except Fault ImgWriter := do
  let size ← hdrRoom boot w.hdr
  let out ← poke w.out (hdrStart boot off) (w.hdr.raw.take size)
  .ok { w with out }

/-- The size of the image without what comes after it. -/
def aospImgSize (off : Offsets) : Nat := u32 (off.tail + 2 ^ 32 - off.header)

/-- The footer, with the new size of the image and the new position of the header it points to. -/
def newFooter (off : Offsets) : Str :=
  let footer := window mem (boot.avbFooter.getD 0) avbFooterSz
  patch (patch footer 12 (beBytes 8 (aospImgSize off))) 20 (beBytes 8 off.vbmeta)

/-- The footer is stored at the end. -/
def patchFooter (off : Offsets) (out : Str) : Except Fault Str :=
  if boot.flags.avb then do
    let place ← sub out.length avbFooterSz
    let out ← poke out place (newFooter mem boot off)
    if patchVbmeta then poke out (off.vbmeta + 120) (beBytes 4 3) else .ok out
  else .ok out

/-- The size of the image is stored to what comes before it. -/
def patchPreHeader (off : Offsets) (out : Str) : Except Fault Str :=
  if boot.flags.dhtb then do
    let size := u32 (aospImgSize off + 16 + 4)
    let out ← poke out 48 (leBytes 4 size)
    let data ← view out dhtbHdrSz size
    poke out 8 (fitText 32 (sha false data))
  else if boot.flags.blob then poke out 96 (leBytes 4 (aospImgSize off))
  else .ok out

/-- The payload is signed. -/
def signPayload (off : Offsets) (out : Str) : Except Fault Str :=
  if boot.flags.avb1Signed then do
    let payload ← view out off.header (aospImgSize off)
    .ok (patch out off.tail (sign payload))
  else .ok out

/-- The part of `repack` that patches the image. -/
def patchImage (w : ImgWriter) (off : Offsets) : Except Fault ImgWriter := do
  let w ← patchMtk boot.flags.mtkKernel .kernel off.kernel w
  let w ← patchMtk boot.flags.mtkRamdisk .ramdisk off.ramdisk w
  let w : ImgWriter := { w with hdr := w.hdr.set .headerSize w.hdr.cls.hdrSize }
  let w ← patchId sha boot off w
  let w ← patchHdr boot off w
  let out ← patchFooter patchVbmeta mem boot off w.out
  let out ← patchPreHeader sha boot off out
  let out ← signPayload sign boot off out
  .ok { w with out }

end Patch

/-! ### Packing and unpacking -/

/-- What packing is done with: the compressors, the checksums (SHA-1 or not), the signature, and
two switches. -/
structure Tools where
  compress : FileFormat → Str → Str
  sha : Bool → Str → Str
  sign : Str → Str
  skipComp : Bool
  patchVbmeta : Bool

/-- `repack`, of an image that was parsed from a file with `mapSize` bytes.  A table with entries of
another size ends the program. -/
def repack (t : Tools) (mem : Str) (mapSize : Nat) (boot : BootImg) (files : Files) :
    Except Fault (Option (ImgWriter × Offsets)) :=
  if boot.size .vendorRamdiskTable ≠ 0 ∧
      boot.hdr.get .vendorRamdiskTableEntrySize ≠ tableEntrySz then .ok none
  else do
    let (w, off) ← writeBlocks t.compress t.skipComp mem boot files
    let (w, off) := writeTail mem boot mapSize w off
    let w ← patchImage t.sha t.sign t.patchVbmeta mem boot w off
    .ok (some (w, off))

section Unpack

variable {P : Type} [DecidableEq P] (resolve : Str → Option P)
variable (decompress : FileFormat → Str → Str) (skipDecomp : Bool)
variable (mem : Str) (boot : BootImg)

/-- `dump`, or the decompressed data. -/
def dump (fmt : FileFormat) (data : Str) : Option Str :=
  if data = [] then none
  else some (if !skipDecomp && fmt.isCompressed then decompress fmt data else data)

/-- A file is created, where its name leads to. -/
def create (dir : P → Option Str) (name data : Str) : P → Option Str :=
  match resolve name with
  | some p => update dir p (some data)
  | none => dir

/-- The ramdisks of the table are written to the files with their names. -/
def unpackRamdisks (dir : P → Option Str) : List Nat → Except Fault (P → Option Str)
  | [] => .ok dir
  | i :: is => do
      let entry := tableEntry mem boot i
      let start := boot.ptr .ramdisk + leNat (window entry 4 4)
      let size := leNat (window entry 0 4)
      let fmt ← checkFmtLg mem start size
      let data := window mem start size
      let data := if !skipDecomp && fmt.isCompressed then decompress fmt data else data
      unpackRamdisks (create resolve dir (entryFile 40 (entryName mem boot i)) data) is

/-- `unpack`, to a working directory without such files.  A table with entries of another size ends
the program. -/
def unpack : Except Fault (Option Files) :=
  let files : Files :=
    { kernel := dump decompress skipDecomp boot.kFmt (boot.bytes mem .kernel)
      kernelDtb := dump decompress true .unknown (boot.kernelDtb.bytes mem)
      second := dump decompress true .unknown (boot.bytes mem .second)
      extra := dump decompress skipDecomp boot.eFmt (boot.bytes mem .extra)
      recoveryDtbo := dump decompress true .unknown (boot.bytes mem .recoveryDtbo)
      dtb := dump decompress true .unknown (boot.bytes mem .dtb)
      bootconfig := dump decompress true .unknown (boot.bytes mem .bootconfig) }
  if boot.size .vendorRamdiskTable = 0 then
    .ok (some { files with
      ramdisk := dump decompress skipDecomp boot.rFmt (boot.bytes mem .ramdisk) })
  else if boot.hdr.get .vendorRamdiskTableEntrySize ≠ tableEntrySz then .ok none
  else do
    let dir ← unpackRamdisks resolve decompress skipDecomp mem boot (fun _ => none)
      (List.range (boot.hdr.get .vendorRamdiskTableEntryNum))
    .ok (some { files with vendorRamdisk := fun name => (resolve name).bind dir })

end Unpack

end Magisk.Boot
