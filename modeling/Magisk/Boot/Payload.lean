import Magisk.Boot.Format
import Magisk.Lib.OrderedMap
import Magisk.Lib.WriteAt

/-!
# Update payloads

A partition is extracted from an update payload: a header, a manifest of operations that each
fill some extents of the partition, and the data of the operations.

* `Payload`: what the file holds;
* `extractBootFromPayload`: the extraction, with the input read forward or by seeking;
* `image`: what the manifest describes;
* `extractOperation_ok`, `foldlM_extractOperation`: one operation, and all of them;
* `extract_iff`: when the file that is written is the image;
* `leaves_image`: operations whose extents follow each other are written as described.
-/

namespace Magisk.Boot

open Magisk.Base Magisk.Lib List Option

variable {blobs : Str}

/-! ### The manifest -/

/-- `Extent`: some blocks of the partition. -/
structure Extent where
  startBlock : Option UInt64
  numBlocks : Option UInt64
  deriving DecidableEq

/-- `InstallOperation::Type`. -/
inductive OperationType where
  | replace
  | replaceBz
  | move
  | bsdiff
  | sourceCopy
  | sourceBsdiff
  | zero
  | discard
  | replaceXz
  | puffdiff
  | brotliBsdiff
  | zucchini
  | lz4diffBsdiff
  | lz4diffPuffdiff
  deriving DecidableEq

/-- `InstallOperation`. -/
structure InstallOperation where
  typePb : OperationType
  dataOffset : Option UInt64
  dataLength : Option UInt64
  dstExtents : List Extent
  deriving DecidableEq

/-- `PartitionUpdate`. -/
structure PartitionUpdate where
  partitionName : String
  operations : List InstallOperation

/-- `DeltaArchiveManifest`. -/
structure DeltaArchiveManifest where
  blockSize : Option UInt32
  minorVersion : Option UInt32
  partitions : List PartitionUpdate

/-- `get_block_size`. -/
def DeltaArchiveManifest.getBlockSize (m : DeltaArchiveManifest) : UInt32 := m.blockSize.getD 4096

/-- `get_minor_version`. -/
def DeltaArchiveManifest.getMinorVersion (m : DeltaArchiveManifest) : UInt32 :=
  m.minorVersion.getD 0

/-- How the extraction fails: a bad payload, a manifest that cannot be read, a failed read or
seek, or data of a format that has no decoder. -/
inductive PayloadError where
  | badPayload (msg : String)
  | badManifest
  | io
  | unreachable
  deriving DecidableEq

/-- `bad_payload!` unless the condition holds. -/
def ensure (c : Prop) [Decidable c] (msg : String) : Except PayloadError Unit :=
  if c then .ok () else .error (.badPayload msg)

/-- `ok_or_else(|| bad_payload!(..))`. -/
def orBad {α : Type} (o : Option α) (msg : String) : Except PayloadError α :=
  o.elim (.error (.badPayload msg)) .ok

/-- The partition that is extracted: the one that is named, or else `init_boot` or `boot`. -/
def DeltaArchiveManifest.choose (m : DeltaArchiveManifest) :
    Option String → Except PayloadError PartitionUpdate
  | none =>
    let boot :=
      match m.partitions.find? fun p => p.partitionName = "init_boot" with
      | some boot => some boot
      | none => m.partitions.find? fun p => p.partitionName = "boot"
    orBad boot "boot partition not found"
  | some name =>
    orBad (m.partitions.find? fun p => p.partitionName = name)
      ("partition '" ++ name ++ "' not found")

/-! ### Reading -/

/-- The input file and the position in it.  A pipe cannot seek. -/
structure Reader where
  file : Str
  pos : Nat
  seekable : Bool

namespace Reader

/-- `read_exact`. -/
def readExact (r : Reader) (n : Nat) : Except PayloadError (Str × Reader) :=
  let data := (r.file.drop r.pos).take n
  if data.length = n then .ok (data, { r with pos := r.pos + n }) else .error .io

/-- `seek(SeekFrom::Current(k))`.  A position is a number of 63 bits. -/
def seekCurrent (r : Reader) (k : Int) : Option Reader :=
  if r.seekable = true ∧ 0 ≤ r.pos + k ∧ r.pos + k < 2 ^ 63 then
    some { r with pos := (r.pos + k).toNat }
  else none

/-- `ReadExt::skip`: reads what is skipped. -/
def skipRead (r : Reader) (len : Nat) : Except PayloadError Reader :=
  if len = 0 then .ok r
  else
    match r.readExact (min 4096 len) with
    | .error e => .error e
    | .ok (_, r) => skipRead r (len - min 4096 len)
termination_by len

/-- `len as i64`. -/
def asI64 (len : UInt64) : Int := len.toBitVec.toInt

/-- `ReadSeekExt::skip`. -/
def skip (r : Reader) (len : UInt64) : Except PayloadError Reader :=
  match r.seekCurrent (asI64 len) with
  | some r => .ok r
  | none => r.skipRead len.toNat

end Reader

/-! ### The extraction -/

/-- The decoders.  What the two of them accept that payloads use starts with a magic number. -/
structure Decoders where
  bzip2 : Str → Option Str
  xz : Str → Option Str
  other : FileFormat → Str → Option Str
  bzip2_magic : ∀ data x, bzip2 data = some x → bzipMagic <+: data
  xz_magic : ∀ data x, xz data = some x → xzMagic <+: data

/-- `get_decoder`. -/
def Decoders.getDecoder (D : Decoders) : FileFormat → Option (Str → Option Str)
  | .xz => some D.xz
  | .bzip2 => some D.bzip2
  | .lzma => some (D.other .lzma)
  | .lz4 => some (D.other .lz4)
  | .lz4Lg => some (D.other .lz4Lg)
  | .lz4Legacy => some (D.other .lz4Legacy)
  | .zopfli => some (D.other .zopfli)
  | .gzip => some (D.other .gzip)
  | _ => none

/-- Where the extraction is: the input, the offset in the data that it has reached, and the
output. -/
structure Extraction where
  reader : Reader
  currDataOffset : UInt64
  outFile : Str

/-- `seek(SeekFrom::Start(offset))` and a write. -/
def seekWrite (file : Str) (offset : UInt64) (data : Str) : Except PayloadError Str :=
  if offset.toNat < 2 ^ 63 then .ok (writeAt file offset.toNat data) else .error .io

section Extract

variable (D : Decoders) (blockSize : UInt64)

/-- The zeros for an extent, as many as it has blocks. -/
def writeZeros (file : Str) (ext : Extent) : Except PayloadError Str := do
  let startBlock ← orBad ext.startBlock "start block not found"
  let numBlocks ← orBad ext.numBlocks "num blocks not found"
  seekWrite file (startBlock * blockSize) (List.replicate numBlocks.toNat 0)

/-- Data is decompressed by the format that it looks like. -/
def decompressTo (file : Str) (offset : UInt64) (data : Str) : Except PayloadError Str := do
  let _ ← seekWrite file offset []
  let decoder ← (D.getDecoder (checkFmt data)).elim (.error .unreachable) .ok
  let out ← orBad (decoder data) "decompression failed"
  seekWrite file offset out

/-- `match data_type`: an operation is applied to the output. -/
def applyOperation (file : Str) (operation : InstallOperation) (outOffset : UInt64) (data : Str) :
    Except PayloadError Str :=
  match operation.typePb with
  | .replace => seekWrite file outOffset data
  | .zero => operation.dstExtents.foldlM (writeZeros blockSize) file
  | .replaceBz | .replaceXz => decompressTo D file outOffset data
  | _ => .error (.badPayload "unsupported operation type")

/-- The loop body of `extract_boot_from_payload`. -/
def extractOperation (s : Extraction) (operation : InstallOperation) :
    Except PayloadError Extraction := do
  let dataLen ← orBad operation.dataLength "data length not found"
  let dataOffset ← orBad operation.dataOffset "data offset not found"
  let reader ← s.reader.skip (dataOffset - s.currDataOffset)
  let (data, reader) ← reader.readExact dataLen.toNat
  let first ← orBad operation.dstExtents.head? "dst extents not found"
  let startBlock ← orBad first.startBlock "start block not found"
  let outFile ← applyOperation D blockSize s.outFile operation (startBlock * blockSize) data
  pure ⟨reader, dataOffset + dataLen, outFile⟩

/-- `operations.sort_by_key(|e| e.data_offset.unwrap_or(0))`. -/
def sortByDataOffset (operations : List InstallOperation) : List InstallOperation :=
  operations.mergeSort fun a b => a.dataOffset.getD 0 ≤ b.dataOffset.getD 0

/-- `extract_boot_from_payload`: the output path and what is written there. -/
def extractBootFromPayload (fromReader : Str → Option DeltaArchiveManifest) (reader : Reader)
    (partitionName outPath : Option String) : Except PayloadError (String × Str) := do
  let (magic, reader) ← reader.readExact 4
  ensure (magic = str "CrAU") "invalid magic"
  let (version, reader) ← reader.readExact 8
  ensure (beNat version = 2) ("unsupported version: " ++ toString (beNat version))
  let (manifestLen, reader) ← reader.readExact 8
  ensure (beNat manifestLen ≠ 0) "manifest length is zero"
  let (manifestSigLen, reader) ← reader.readExact 4
  ensure (beNat manifestSigLen ≠ 0) "manifest signature length is zero"
  let (buf, reader) ← reader.readExact (beNat manifestLen)
  let manifest ← (fromReader buf).elim (.error .badManifest) .ok
  ensure (manifest.getMinorVersion = 0)
    "delta payloads are not supported, please use a full payload file"
  let blockSize := manifest.getBlockSize.toUInt64
  let partition ← manifest.choose partitionName
  let reader ← reader.skip (.ofNat (beNat manifestSigLen))
  let s ← (sortByDataOffset partition.operations).foldlM (extractOperation D blockSize)
    ⟨reader, 0, []⟩
  pure (outPath.getD (partition.partitionName ++ ".img"), s.outFile)

end Extract

/-! ### What the manifest describes -/

/-- The data of an operation. -/
def InstallOperation.blob (op : InstallOperation) (blobs : Str) : Option Str :=
  match op.dataOffset, op.dataLength with
  | some offset, some len =>
    if offset.toNat + len.toNat ≤ blobs.length then
      some ((blobs.drop offset.toNat).take len.toNat)
    else none
  | _, _ => none

/-- What an operation puts on its extents.  An operation for zeros has no data. -/
def InstallOperation.content (D : Decoders) (blobs : Str) (op : InstallOperation) : Option Str :=
  match op.typePb with
  | .replace => op.blob blobs
  | .replaceBz => (op.blob blobs).bind D.bzip2
  | .replaceXz => (op.blob blobs).bind D.xz
  | .zero => if op.dataOffset = none ∧ op.dataLength = none then some [] else none
  | _ => none

/-- The blocks of an extent. -/
def Extent.blocks (e : Extent) : List Nat :=
  List.range' (e.startBlock.getD 0).toNat (e.numBlocks.getD 0).toNat

/-- The blocks of an operation, in the order of its extents. -/
def InstallOperation.blocks (op : InstallOperation) : List Nat :=
  op.dstExtents.flatMap Extent.blocks

/-- The places of an operation in the image. -/
def InstallOperation.places (bs : Nat) (op : InstallOperation) : List Nat :=
  op.blocks.flatMap fun b => List.range' (b * bs) bs

/-- The image ends with the last block of an operation. -/
def imageSize (bs : Nat) (ops : List InstallOperation) : Nat :=
  (ops.flatMap (·.blocks)).foldr (fun b n => max ((b + 1) * bs) n) 0

/-- The image: the data of the operations is laid out over their extents, and the rest is zero. -/
def image (D : Decoders) (bs : Nat) (blobs : Str) (ops : List InstallOperation) : Str :=
  (List.range (imageSize bs ops)).map fun p =>
    ((ops.flatMap fun op => (op.places bs).zip ((op.content D blobs).getD [])).lookup p).getD 0

/-- The operations of a full payload: their data is there and fits the extents, the image fits a
file, and no two extents share a block. -/
structure FullOperations (D : Decoders) (bs : Nat) (blobs : Str) (ops : List InstallOperation) :
    Prop where
  content : ∀ op ∈ ops, ∃ data, op.content D blobs = some data ∧ data.length ≤ (op.places bs).length
  extents : ∀ op ∈ ops, ∀ e ∈ op.dstExtents, ∃ b n, e.startBlock = some b ∧ e.numBlocks = some n ∧
    (b.toNat + n.toNat) * bs < 2 ^ 63
  disjoint : (ops.flatMap (·.blocks)).Nodup

/-- A payload file.  A file without a manifest or without a signature is refused. -/
structure Payload where
  manifest : Str
  signature : Str
  blobs : Str
  manifest_ne_nil : manifest ≠ []
  signature_ne_nil : signature ≠ []
  signature_lt : signature.length < 2 ^ 32
  length_lt : 24 + manifest.length + signature.length + blobs.length < 2 ^ 63

namespace Payload

variable (P : Payload)

/-- What stands before the data. -/
def head : Str :=
  str "CrAU" ++ (beBytes 8 2 ++ (beBytes 8 P.manifest.length ++ (beBytes 4 P.signature.length ++
    (P.manifest ++ P.signature))))

/-- The bytes of the file. -/
def bytes : Str := P.head ++ P.blobs

end Payload

/-! ### Reading the header -/

namespace Reader

lemma readExact_eq {file l rest : Str} {pos n : Nat} (seekable : Bool)
    (h : file.drop pos = l ++ rest) (hn : l.length = n) :
    (⟨file, pos, seekable⟩ : Reader).readExact n = .ok (l, ⟨file, pos + n, seekable⟩) ∧
      file.drop (pos + n) = rest := by
  constructor
  · simp only [readExact, h, take_left' hn, if_pos hn]
  · rw [← drop_drop, h, drop_left' hn]

/-- Skipping by reading moves on, if there is enough to read. -/
lemma skipRead_eq {r : Reader} (hpos : r.pos ≤ r.file.length) : r.skipRead len =
      if r.pos + len ≤ r.file.length then .ok { r with pos := r.pos + len } else .error .io := by
  fun_induction skipRead r len with
  | case1 r => rw [Nat.add_zero, if_pos hpos]
  | case2 r len hlen e hread =>
    rw [readExact] at hread
    split at hread
    · cases hread
    · rename_i hshort
      rw [length_take, length_drop] at hshort
      rw [if_neg (by omega), ← Except.error.inj hread]
  | case3 r len hlen data r' hread ih =>
    rw [readExact] at hread
    split at hread
    · rename_i hfull
      rw [length_take, length_drop] at hfull
      obtain ⟨-, rfl⟩ := Prod.mk.inj (Except.ok.inj hread)
      have hpos' : r.pos + min 4096 len ≤ r.file.length := by omega
      rw [ih hpos']
      simp
    · cases hread

lemma skip_forward {r : Reader} (hlen : len.toNat < 2 ^ 63)
    (hpos : r.pos + len.toNat ≤ r.file.length) :
    r.skip len = .ok { r with pos := r.pos + len.toNat } := by
  have hint : asI64 len = len.toNat := by
    rw [asI64, BitVec.toInt_eq_toNat_cond, UInt64.toNat_toBitVec, if_pos (by omega)]
  rw [skip, seekCurrent, hint]
  split_ifs
  · congr 2
  · rw [skipRead_eq (by omega), if_pos hpos]

end Reader

lemma ensure_of {c : Prop} [Decidable c] (h : c) (msg : String) : ensure c msg = .ok () := if_pos h

section Header

variable {D : Decoders} {P : Payload} {fromReader : Str → Option DeltaArchiveManifest}
  {seekable : Bool} {M : DeltaArchiveManifest} {partitionName outPath : Option String}
  {part : PartitionUpdate}

lemma Payload.length_head (P : Payload) :
    P.head.length = 24 + P.manifest.length + P.signature.length := by
  have hmagic : (str "CrAU").length = 4 := rfl
  simp only [Payload.head, length_append, length_beBytes]
  omega

/-- The header is read, and then the operations. -/
lemma extract_eq (hparse : fromReader P.manifest = some M) (hminor : M.getMinorVersion = 0)
    (hpart : M.choose partitionName = .ok part) :
    extractBootFromPayload D fromReader ⟨P.bytes, 0, seekable⟩ partitionName outPath =
      ((sortByDataOffset part.operations).foldlM (extractOperation D M.getBlockSize.toUInt64)
        ⟨⟨P.bytes, P.head.length, seekable⟩, 0, []⟩).map
        fun s => (outPath.getD (part.partitionName ++ ".img"), s.outFile) := by
  have hlt := P.length_lt
  have hman := length_pos_of_ne_nil P.manifest_ne_nil
  have hsig := length_pos_of_ne_nil P.signature_ne_nil
  have hversion : beNat (beBytes 8 2) = 2 := beNat_beBytes (by decide)
  have hmanifestLen : beNat (beBytes 8 P.manifest.length) = P.manifest.length :=
    beNat_beBytes (by omega)
  have hsigLen : beNat (beBytes 4 P.signature.length) = P.signature.length :=
    beNat_beBytes P.signature_lt
  have hbytes : P.bytes.drop 0 = str "CrAU" ++ (beBytes 8 2 ++ (beBytes 8 P.manifest.length ++
      (beBytes 4 P.signature.length ++ (P.manifest ++ (P.signature ++ P.blobs))))) := by
    simp [Payload.bytes, Payload.head]
  -- each part is read from where the one before ends
  obtain ⟨hread₀, h₁⟩ := Reader.readExact_eq seekable hbytes (n := 4) rfl
  obtain ⟨hread₁, h₂⟩ := Reader.readExact_eq seekable h₁ (length_beBytes 8 _)
  obtain ⟨hread₂, h₃⟩ := Reader.readExact_eq seekable h₂ (length_beBytes 8 _)
  obtain ⟨hread₃, h₄⟩ := Reader.readExact_eq seekable h₃ (length_beBytes 4 _)
  obtain ⟨hread₄, -⟩ := Reader.readExact_eq seekable h₄ rfl
  have hskip : (⟨P.bytes, 0 + 4 + 8 + 8 + 4 + P.manifest.length, seekable⟩ : Reader).skip
      (.ofNat P.signature.length) = .ok ⟨P.bytes, P.head.length, seekable⟩ := by
    have hval : (UInt64.ofNat P.signature.length).toNat = P.signature.length :=
      UInt64.toNat_ofNat_of_lt' (show _ < 2 ^ 64 by omega)
    have hlen : P.bytes.length = P.head.length + P.blobs.length := length_append
    have hhead := P.length_head
    rw [Reader.skip_forward (by omega) (by simp only [hval]; omega), hval, hhead]
  rw [extractBootFromPayload, hread₀]
  simp only [bind, Except.bind, ensure_of trivial, hread₁, hversion, hread₂, hmanifestLen,
    ensure_of hman.ne', hread₃, hsigLen, ensure_of hsig.ne', hread₄, hparse, elim_some,
    ensure_of hminor, hpart, hskip]
  generalize List.foldlM (extractOperation D _) _ _ = r
  cases r <;> rfl

end Header

/-! ### The operations -/

section Operations

variable {D : Decoders} {P : Payload} {seekable : Bool} {bs offset : UInt64} {s : Extraction}
  {op : InstallOperation} {ops : List InstallOperation}

/-- The input is at the offset in the data that the extraction has reached. -/
structure AtOffset (P : Payload) (seekable : Bool) (s : Extraction) : Prop where
  reader : s.reader = ⟨P.bytes, P.head.length + s.currDataOffset.toNat, seekable⟩
  le : s.currDataOffset.toNat ≤ P.blobs.length

lemma asI64_sub (ha : a.toNat < 2 ^ 63) (hb : b.toNat < 2 ^ 63) :
    Reader.asI64 (a - b) = a.toNat - b.toNat := by
  rw [Reader.asI64, BitVec.toInt_eq_toNat_cond, UInt64.toNat_toBitVec, UInt64.toNat_sub]
  split <;> omega

/-- The input is moved to the data of an operation, back only if it can seek. -/
lemma skip_eq (hs : AtOffset P seekable s) (hoffset : offset.toNat ≤ P.blobs.length) :
    s.reader.skip (offset - s.currDataOffset) =
      if seekable = true ∨ s.currDataOffset ≤ offset then
        .ok ⟨P.bytes, P.head.length + offset.toNat, seekable⟩
      else .error .io := by
  have hlt := P.length_lt
  have hhead := P.length_head
  have hlen : P.bytes.length = P.head.length + P.blobs.length := length_append
  have hle := hs.le
  have hint := asI64_sub (a := offset) (b := s.currDataOffset) (by omega) (by omega)
  have hnat := UInt64.toNat_sub offset s.currDataOffset
  rw [hs.reader, Reader.skip, Reader.seekCurrent]
  cases seekable with
  | true =>
    rw [if_pos (by simp only [true_and]; omega)]
    simp only
    congr 2
    omega
  | false =>
    rw [if_neg (by simp), Reader.skipRead_eq (by simp only; omega)]
    simp only [Bool.false_eq_true, false_or, UInt64.le_iff_toNat_le]
    by_cases horder : s.currDataOffset.toNat ≤ offset.toNat
    · rw [if_pos (by omega), if_pos horder]
      congr 2
      omega
    · rw [if_neg (by omega), if_neg horder]

lemma decompressTo_eq
    (hfmt : D.getDecoder (checkFmt blob) = some decoder) (hdata : decoder blob = some data)
    (hlt : offset.toNat < 2 ^ 63) (file : Str) :
    decompressTo D file offset blob = .ok (writeAt file offset.toNat data) := by
  simp only [decompressTo, seekWrite, if_pos hlt, hfmt, elim_some, orBad, hdata, bind,
    Except.bind]

/-- An operation with data writes it in one piece. -/
lemma applyOperation_eq (hblob : op.blob blobs = some blob)
    (hdata : op.content D blobs = some data) (hzero : op.typePb ≠ .zero)
    (hlt : offset.toNat < 2 ^ 63) (file : Str) :
    applyOperation D bs file op offset blob = .ok (writeAt file offset.toNat data) := by
  rw [InstallOperation.content] at hdata
  rw [applyOperation]
  split at hdata
  · rename_i htype
    cases hblob.symm.trans hdata
    simp only [htype, seekWrite, if_pos hlt]
  · rename_i htype
    rw [hblob] at hdata
    have hfmt := checkFmt_bzipMagic (D.bzip2_magic blob data hdata)
    simp only [htype]
    exact decompressTo_eq (congrArg D.getDecoder hfmt) hdata hlt file
  · rename_i htype
    rw [hblob] at hdata
    have hfmt := checkFmt_xzMagic (D.xz_magic blob data hdata)
    simp only [htype]
    exact decompressTo_eq (congrArg D.getDecoder hfmt) hdata hlt file
  · exact absurd ‹_› hzero
  · cases hdata

/-- An operation that is not for zeros has data. -/
lemma exists_blob (hdata : op.content D blobs = some data) (hzero : op.typePb ≠ .zero) :
    ∃ offset len, op.dataOffset = some offset ∧ op.dataLength = some len ∧
      offset.toNat + len.toNat ≤ blobs.length ∧
      op.blob blobs = some ((blobs.drop offset.toNat).take len.toNat) := by
  have hblob : op.blob blobs ≠ none := by
    intro hnone
    simp only [InstallOperation.content, hnone] at hdata
    split at hdata
    · cases hdata
    · cases hdata
    · cases hdata
    · exact hzero ‹_›
    · cases hdata
  rw [InstallOperation.blob] at hblob ⊢
  split at hblob
  · rename_i offset len hoffset hlen
    split at hblob
    · exact ⟨offset, len, hoffset, hlen, ‹_›, if_pos ‹_›⟩
    · exact absurd rfl hblob
  · exact absurd rfl hblob

/-- Where the first extent of an operation starts. -/
def InstallOperation.start (bs : Nat) (op : InstallOperation) : Nat :=
  ((op.dstExtents.head?.bind (·.startBlock)).getD 0).toNat * bs

/-- The data of an operation, in one piece from its first extent. -/
def InstallOperation.onePiece (D : Decoders) (bs : Nat) (blobs : Str) (op : InstallOperation) :
    Nat × Str :=
  (op.start bs, (op.content D blobs).getD [])

/-- Operations that can be applied: they have data and an extent. -/
structure Applicable (D : Decoders) (bs : Nat) (blobs : Str) (op : InstallOperation) : Prop where
  content : ∃ data, op.content D blobs = some data
  not_zero : op.typePb ≠ .zero
  start : ∃ e b, op.dstExtents.head? = some e ∧ e.startBlock = some b ∧ b.toNat * bs < 2 ^ 63

/-- Where the data of an operation ends. -/
def InstallOperation.dataEnd (op : InstallOperation) : UInt64 :=
  op.dataOffset.getD 0 + op.dataLength.getD 0

/-- One operation. -/
lemma extractOperation_eq (hs : AtOffset P seekable s)
    (hop : Applicable D bs.toNat P.blobs op) :
    extractOperation D bs s op =
      if seekable = true ∨ s.currDataOffset ≤ op.dataOffset.getD 0 then
        .ok ⟨⟨P.bytes, P.head.length + op.dataEnd.toNat, seekable⟩, op.dataEnd,
          writeAt s.outFile (op.start bs.toNat) ((op.content D P.blobs).getD [])⟩
      else .error .io := by
  obtain ⟨⟨data, hdata⟩, hzero, e, b, hhead, hstart, hlt⟩ := hop
  obtain ⟨offset, len, hoffset, hlen, hle, hblob⟩ := exists_blob hdata hzero
  have hbound := P.length_lt
  have hend : (offset + len).toNat = offset.toNat + len.toNat := by
    rw [UInt64.toNat_add]
    omega
  have hmul : (b * bs).toNat = b.toNat * bs.toNat := by
    rw [UInt64.toNat_mul]
    exact Nat.mod_eq_of_lt (by omega)
  have hop : applyOperation D bs s.outFile op (b * bs) _ = _ :=
    applyOperation_eq hblob hdata hzero (hmul ▸ hlt) s.outFile
  have hbytes : P.bytes.drop (P.head.length + offset.toNat) =
      (P.blobs.drop offset.toNat).take len.toNat ++
        (P.blobs.drop offset.toNat).drop len.toNat := by
    rw [Payload.bytes]
    simp
  have hread := (Reader.readExact_eq seekable hbytes (n := len.toNat)
    (by rw [length_take, length_drop]; omega)).1
  simp only [extractOperation, hlen, hoffset, orBad, elim_some, bind, Except.bind,
    skip_eq hs (show offset.toNat ≤ P.blobs.length by omega), InstallOperation.dataEnd,
    getD_some, InstallOperation.start, hhead, bind_some, hstart, hdata]
  by_cases horder : seekable = true ∨ s.currDataOffset ≤ offset
  · simp only [if_pos horder, hread, hop, hmul, hend, Nat.add_assoc]
    rfl
  · simp only [if_neg horder]

lemma Applicable.dataEnd_le (hop : Applicable D bs.toNat P.blobs op) :
    op.dataEnd.toNat ≤ P.blobs.length := by
  obtain ⟨⟨data, hdata⟩, hzero, -⟩ := hop
  obtain ⟨offset, len, hoffset, hlen, hle, -⟩ := exists_blob hdata hzero
  rw [InstallOperation.dataEnd, hoffset, hlen, getD_some, getD_some,
    UInt64.toNat_add]
  omega

/-- The data of each operation starts after that of the one before. -/
def InOrder : UInt64 → List InstallOperation → Prop
  | _, [] => True
  | curr, op :: ops => curr ≤ op.dataOffset.getD 0 ∧ InOrder op.dataEnd ops

instance InOrder.decidable : (curr : UInt64) → (ops : List InstallOperation) →
    Decidable (InOrder curr ops)
  | _, [] => isTrue trivial
  | curr, op :: ops =>
    have := InOrder.decidable op.dataEnd ops
    inferInstanceAs (Decidable (curr ≤ op.dataOffset.getD 0 ∧ InOrder op.dataEnd ops))

/-- All operations.  An input that cannot seek has to have the data in order. -/
lemma foldlM_extractOperation (hs : AtOffset P seekable s)
    (hops : ∀ op ∈ ops, Applicable D bs.toNat P.blobs op) :
    (ops.foldlM (extractOperation D bs) s).map Extraction.outFile =
      if seekable = true ∨ InOrder s.currDataOffset ops then
        .ok ((ops.map (·.onePiece D bs.toNat P.blobs)).foldl (fun f w => writeAt f w.1 w.2)
          s.outFile)
      else .error .io := by
  induction ops generalizing s with
  | nil =>
    rw [if_pos (.inr trivial)]
    rfl
  | cons op ops ih =>
    obtain ⟨hop, hops⟩ := forall_mem_cons.mp hops
    rw [foldlM_cons, extractOperation_eq hs hop]
    by_cases horder : seekable = true ∨ s.currDataOffset ≤ op.dataOffset.getD 0
    · have hiff : (seekable = true ∨ InOrder s.currDataOffset (op :: ops)) ↔
          (seekable = true ∨ InOrder op.dataEnd ops) := by
        refine or_congr_right' fun hseek => ?_
        exact and_iff_right (horder.resolve_left hseek)
      rw [if_pos horder]
      refine (ih ⟨rfl, hop.dataEnd_le⟩ hops).trans ?_
      simp only [hiff]
      rfl
    · rw [if_neg horder, if_neg fun h => horder (h.imp_right And.left)]
      rfl

/-- An operation that fails in any state lets the extraction fail. -/
lemma foldlM_error (hmem : op ∈ ops) (h : ∀ s, ∃ e, extractOperation D bs s op = .error e)
    (s : Extraction) : ∃ e, ops.foldlM (extractOperation D bs) s = .error e := by
  induction ops generalizing s with
  | nil => cases hmem
  | cons op' ops ih =>
    rw [foldlM_cons]
    cases hfirst : extractOperation D bs s op' with
    | error e => exact ⟨e, rfl⟩
    | ok s' =>
      rcases mem_cons.mp hmem with rfl | hmem
      · obtain ⟨e, he⟩ := h s
        cases hfirst.symm.trans he
      · exact ih hmem s'

lemma extractOperation_no_data (h : op.dataLength = none) (s : Extraction) :
    ∃ e, extractOperation D bs s op = .error e := by
  rw [extractOperation, h]
  exact ⟨_, rfl⟩

lemma extractOperation_no_extent (h : op.dstExtents = []) (s : Extraction) :
    ∃ e, extractOperation D bs s op = .error e := by
  simp only [extractOperation, h, head?_nil, orBad, elim_none, bind, Except.bind]
  repeat' split
  all_goals exact ⟨_, rfl⟩

end Operations

/-! ### When the image is extracted -/

/-- What the operations have to be for the image to be extracted: none is for zeros, each has an
extent, the data is in order if the input cannot seek, and writing the data of each operation in
one piece leaves the image. -/
structure Extractable (D : Decoders) (bs : Nat) (blobs : Str) (seekable : Bool)
    (ops : List InstallOperation) : Prop where
  not_zero : ∀ op ∈ ops, op.typePb ≠ .zero
  extent : ∀ op ∈ ops, op.dstExtents ≠ []
  order : seekable = true ∨ InOrder 0 (sortByDataOffset ops)
  leaves : Leaves ((sortByDataOffset ops).map (·.onePiece D bs blobs)) (image D bs blobs ops)

section Main

variable {D : Decoders} {P : Payload} {fromReader : Str → Option DeltaArchiveManifest}
  {seekable : Bool} {M : DeltaArchiveManifest} {partitionName outPath : Option String}
  {part : PartitionUpdate} {bs : Nat} {ops : List InstallOperation} {op : InstallOperation}

lemma mem_sortByDataOffset : op ∈ sortByDataOffset ops ↔ op ∈ ops := mem_mergeSort

lemma FullOperations.dataLength_eq_none (h : FullOperations D bs blobs ops) (hmem : op ∈ ops)
    (hzero : op.typePb = .zero) : op.dataLength = none := by
  obtain ⟨data, hdata, -⟩ := h.content op hmem
  simp only [InstallOperation.content, hzero] at hdata
  split at hdata
  · exact (‹_ ∧ _› : _).2
  · cases hdata

lemma FullOperations.applicable (h : FullOperations D bs blobs ops) (hmem : op ∈ ops)
    (hzero : op.typePb ≠ .zero) (hext : op.dstExtents ≠ []) : Applicable D bs blobs op := by
  obtain ⟨data, hdata, -⟩ := h.content op hmem
  obtain ⟨e, es, hes⟩ := exists_cons_of_ne_nil hext
  obtain ⟨b, n, hb, -, hlt⟩ := h.extents op hmem e (hes ▸ mem_cons_self)
  refine ⟨⟨data, hdata⟩, hzero, e, b, by rw [hes, head?_cons], hb, lt_of_le_of_lt ?_ hlt⟩
  exact Nat.mul_le_mul_right bs (Nat.le_add_right _ _)

/-- **When the file that is written is the image of the manifest.** -/
theorem extract_iff (hparse : fromReader P.manifest = some M) (hminor : M.getMinorVersion = 0)
    (hpart : M.choose partitionName = .ok part)
    (hfull : FullOperations D M.getBlockSize.toNat P.blobs part.operations) :
    (extractBootFromPayload D fromReader ⟨P.bytes, 0, seekable⟩ partitionName outPath).map
        Prod.snd = .ok (image D M.getBlockSize.toNat P.blobs part.operations) ↔
      Extractable D M.getBlockSize.toNat P.blobs seekable part.operations := by
  have hstart : AtOffset P seekable ⟨⟨P.bytes, P.head.length, seekable⟩, 0, []⟩ :=
    ⟨rfl, Nat.zero_le _⟩
  have hmap : (extractBootFromPayload D fromReader ⟨P.bytes, 0, seekable⟩ partitionName
      outPath).map Prod.snd = ((sortByDataOffset part.operations).foldlM
        (extractOperation D M.getBlockSize.toUInt64)
        ⟨⟨P.bytes, P.head.length, seekable⟩, 0, []⟩).map Extraction.outFile := by
    rw [extract_eq hparse hminor hpart]
    generalize List.foldlM (extractOperation D _) _ _ = r
    cases r <;> rfl
  rw [hmap]
  by_cases hall : ∀ op ∈ part.operations, op.typePb ≠ .zero ∧ op.dstExtents ≠ []
  · have happ : ∀ op ∈ sortByDataOffset part.operations,
        Applicable D M.getBlockSize.toUInt64.toNat P.blobs op := by
      intro op hmem
      rw [mem_sortByDataOffset] at hmem
      exact hfull.applicable hmem (hall op hmem).1 (hall op hmem).2
    rw [foldlM_extractOperation hstart happ]
    by_cases horder : seekable = true ∨ InOrder 0 (sortByDataOffset part.operations)
    · rw [if_pos horder, Except.ok.injEq]
      refine written_eq_iff.trans ?_
      exact ⟨fun h => ⟨fun op hmem => (hall op hmem).1, fun op hmem => (hall op hmem).2, horder, h⟩,
        Extractable.leaves⟩
    · rw [if_neg horder]
      exact ⟨nofun, fun h => absurd h.order horder⟩
  · -- one of the operations fails
    have herr : ∃ op ∈ part.operations,
        ∀ s, ∃ e, extractOperation D M.getBlockSize.toUInt64 s op = .error e := by
      push Not at hall
      obtain ⟨op, hmem, hop⟩ := hall
      by_cases hzero : op.typePb = .zero
      · exact ⟨op, hmem, extractOperation_no_data (hfull.dataLength_eq_none hmem hzero)⟩
      · exact ⟨op, hmem, extractOperation_no_extent (hop hzero)⟩
    obtain ⟨op, hmem, hop⟩ := herr
    obtain ⟨e, he⟩ := foldlM_error (mem_sortByDataOffset.mpr hmem) hop
      ⟨⟨P.bytes, P.head.length, seekable⟩, 0, []⟩
    rw [he]
    exact ⟨nofun, fun h => absurd (fun op hmem => ⟨h.not_zero op hmem, h.extent op hmem⟩) hall⟩

lemma le_imageSize (h : b ∈ ops.flatMap (·.blocks)) : (b + 1) * bs ≤ imageSize bs ops := by
  rw [imageSize]
  generalize ops.flatMap (·.blocks) = l at h ⊢
  induction l with
  | nil => cases h
  | cons c l ih =>
    rcases mem_cons.mp h with rfl | h
    · exact le_max_left _ _
    · exact (ih h).trans (le_max_right _ _)

/-- The image ends with a block that an operation fills. -/
lemma exists_imageSize_eq (h : 0 < imageSize bs ops) :
    ∃ b ∈ ops.flatMap (·.blocks), imageSize bs ops = (b + 1) * bs := by
  rw [imageSize] at h ⊢
  generalize ops.flatMap (·.blocks) = l at h ⊢
  induction l with
  | nil => cases h
  | cons c l ih =>
    rw [foldr_cons] at h ⊢
    rcases le_total (l.foldr (fun b n => max ((b + 1) * bs) n) 0) ((c + 1) * bs) with hle | hle
    · exact ⟨c, .head _, max_eq_left hle⟩
    · rw [max_eq_right hle] at h ⊢
      obtain ⟨b, hb, heq⟩ := ih h
      exact ⟨b, .tail _ hb, heq⟩

lemma mem_places : p ∈ op.places bs ↔ ∃ b ∈ op.blocks, b * bs ≤ p ∧ p < (b + 1) * bs := by
  simp only [InstallOperation.places, mem_flatMap, mem_range'_1, add_mul, one_mul]

/-- No place belongs to two operations, or twice to one. -/
lemma FullOperations.nodup_places (h : FullOperations D bs blobs ops) :
    (ops.flatMap (·.places bs)).Nodup := by
  have hflat : ops.flatMap (·.places bs) =
      (ops.flatMap (·.blocks)).flatMap fun b => List.range' (b * bs) bs := by
    rw [flatMap_assoc]
    rfl
  rw [hflat, nodup_flatMap]
  refine ⟨fun b _ => nodup_range', h.disjoint.imp fun {a b} hne p ha hb => hne ?_⟩
  rw [mem_range'_1] at ha hb
  -- a place tells its block
  exact (Nat.div_eq_of_lt_le ha.1 (by rw [add_mul, one_mul]; exact ha.2)).symm.trans
    (Nat.div_eq_of_lt_le hb.1 (by rw [add_mul, one_mul]; exact hb.2))

/-- The extents of the operation follow each other, and its data fills them. -/
def InstallOperation.Contiguous (D : Decoders) (bs : Nat) (blobs : Str) (op : InstallOperation) :
    Prop :=
  op.places bs = List.range' (op.start bs) ((op.content D blobs).getD []).length

variable (hfull : FullOperations D bs blobs ops) (hone : ∀ op ∈ ops, op.Contiguous D bs blobs)

include hfull hone

/-- The image has the data of an operation at its places. -/
lemma image_getElem? (hmem : op ∈ ops) (hp : Reaches (op.onePiece D bs blobs) p) :
    (image D bs blobs ops)[p]? =
      some (((op.content D blobs).getD []).getD (p - op.start bs) 0) := by
  obtain ⟨hle, hlt⟩ : op.start bs ≤ p ∧
    p < op.start bs + ((op.content D blobs).getD []).length := hp
  have hkeys : (ops.flatMap fun o => (o.places bs).zip ((o.content D blobs).getD [])).map Prod.fst =
      ops.flatMap (·.places bs) := by
    rw [map_flatMap]
    refine flatMap_congr fun o ho => map_fst_zip ?_
    rw [hone o ho, length_range']
  have hindex : p - op.start bs < ((op.content D blobs).getD []).length := by omega
  have hpair : (p, ((op.content D blobs).getD []).getD (p - op.start bs) 0) ∈
      ops.flatMap fun o => (o.places bs).zip ((o.content D blobs).getD []) := by
    refine mem_flatMap.mpr ⟨op, hmem, List.mem_of_getElem? (i := p - op.start bs) ?_⟩
    rw [getElem?_zip_eq_some, hone op hmem, getElem?_range' hindex,
      getElem?_of_lt hindex]
    refine ⟨congrArg some ?_, rfl⟩
    omega
  have hsize : p < imageSize bs ops := by
    have hplace : p ∈ op.places bs := by
      rw [hone op hmem, mem_range'_1]
      exact ⟨hle, hlt⟩
    obtain ⟨b, hb, -, hpb⟩ := mem_places.mp hplace
    exact hpb.trans_le (le_imageSize (mem_flatMap.mpr ⟨op, hmem, hb⟩))
  rw [image, getElem?_map, getElem?_range hsize, map_some,
    lookup_of_mem (hkeys ▸ hfull.nodup_places) hpair, getD_some]

/-- **Operations whose extents follow each other and are filled leave the image**, in whatever
order they are applied. -/
theorem leaves_image {ops' : List InstallOperation}
    (hmem : ∀ op, op ∈ ops' ↔ op ∈ ops) :
    Leaves (ops'.map (·.onePiece D bs blobs)) (image D bs blobs ops) := by
  have hsize : (image D bs blobs ops).length = imageSize bs ops := by
    rw [image, length_map, length_range]
  refine ⟨?_, ?_, ?_⟩
  · intro l₁ w l₂ hsplit p hp _
    have hw := hsplit ▸ mem_append_right _ (.head _)
    obtain ⟨op, hop, rfl⟩ := mem_map.mp hw
    exact image_getElem? hfull hone ((hmem op).mp hop) hp
  · intro p hp hnot
    rw [hsize] at hp
    rw [image, getElem?_map, getElem?_range hp, map_some]
    cases hlookup : List.lookup p _ with
    | none => rfl
    | some v =>
      obtain ⟨l₁, l₂, hsplit, -⟩ := lookup_eq_some_iff.mp hlookup
      have hpair := hsplit ▸ mem_append_right _ (.head _)
      obtain ⟨op, hop, hzip⟩ := mem_flatMap.mp hpair
      have hplace := (of_mem_zip hzip).1
      rw [hone op hop, mem_range'_1] at hplace
      exact absurd hplace (hnot _ (mem_map_of_mem ((hmem op).mpr hop)))
  · intro hne
    have hpos := length_pos_of_ne_nil hne
    rw [hsize] at hpos ⊢
    obtain ⟨b, hb, heq⟩ := exists_imageSize_eq hpos
    obtain ⟨op, hop, hblock⟩ := mem_flatMap.mp hb
    have hplace : imageSize bs ops - 1 ∈ op.places bs := by
      refine mem_places.mpr ⟨b, hblock, ?_, by omega⟩
      rw [heq, add_mul]
      have hbs : 0 < bs := Nat.pos_of_ne_zero fun h => by rw [heq, h] at hpos; omega
      omega
    rw [hone op hop, mem_range'_1] at hplace
    exact ⟨_, mem_map_of_mem ((hmem op).mpr hop), hplace⟩

end Main

/-! ### Small payloads -/

/-- Decoders that accept nothing. -/
def noDecoders : Decoders where
  bzip2 _ := none
  xz _ := none
  other _ _ := none
  bzip2_magic := nofun
  xz_magic := nofun

/-- A payload with two bytes of data. -/
def twoBytes : Payload where
  manifest := [0]
  signature := [0]
  blobs := [7, 8]
  manifest_ne_nil := by decide
  signature_ne_nil := by decide
  signature_lt := by decide
  length_lt := by decide

/-- A manifest with one operation, for blocks of one byte. -/
def oneOperation (op : InstallOperation) : DeltaArchiveManifest :=
  ⟨some 1, none, [⟨"boot", [op]⟩]⟩

/-- Two blocks, the one after the other. -/
def replaceTwo : InstallOperation := ⟨.replace, some 0, some 2, [⟨some 0, some 2⟩]⟩

/-- Two blocks with one between them. -/
def replaceApart : InstallOperation :=
  ⟨.replace, some 0, some 2, [⟨some 0, some 1⟩, ⟨some 2, some 1⟩]⟩

/-- A block of zeros. -/
def zeroOne : InstallOperation := ⟨.zero, none, none, [⟨some 0, some 1⟩]⟩

lemma fullOperations_singleton (data : Str)
    (hdata : op.content D blobs = some data) (hlen : data.length ≤ (op.places bs).length)
    (hext : ∀ e ∈ op.dstExtents, ∃ b n, e.startBlock = some b ∧ e.numBlocks = some n ∧
      (b.toNat + n.toNat) * bs < 2 ^ 63)
    (hnodup : op.blocks.Nodup) : FullOperations D bs blobs [op] where
  content o ho := mem_singleton.mp ho ▸ ⟨data, hdata, hlen⟩
  extents o ho := mem_singleton.mp ho ▸ hext
  disjoint := by
    rw [flatMap_singleton]
    exact hnodup

lemma sortByDataOffset_singleton (op : InstallOperation) : sortByDataOffset [op] = [op] :=
  mergeSort_singleton op

/-- Data for one extent is extracted. -/
theorem two_bytes_extracted :
    (extractBootFromPayload noDecoders (fun _ => some (oneOperation replaceTwo))
      ⟨twoBytes.bytes, 0, false⟩ none none).map Prod.snd = .ok [7, 8] := by
  have hfull : FullOperations noDecoders 1 twoBytes.blobs [replaceTwo] :=
    fullOperations_singleton [7, 8] rfl (by decide)
      (forall_mem_singleton.mpr ⟨0, 2, rfl, rfl, by decide⟩) (by decide)
  have hpart : (oneOperation replaceTwo).choose none = .ok ⟨"boot", [replaceTwo]⟩ := rfl
  refine (extract_iff rfl rfl hpart hfull).mpr ⟨?_, ?_, .inr ?_, ?_⟩
  · exact forall_mem_singleton.mpr (by decide)
  · exact forall_mem_singleton.mpr (by decide)
  · rw [sortByDataOffset_singleton]
    decide
  · exact leaves_image hfull (forall_mem_singleton.mpr rfl) fun _ => mem_sortByDataOffset

/-- Data for two extents is written in one piece, and a block of zeros is refused. -/
theorem extents_mixed_up :
    (FullOperations noDecoders 1 twoBytes.blobs [replaceApart] ∧
      image noDecoders 1 twoBytes.blobs [replaceApart] = [7, 0, 8] ∧
      extractBootFromPayload noDecoders (fun _ => some (oneOperation replaceApart))
        ⟨twoBytes.bytes, 0, true⟩ none none = .ok ("boot.img", [7, 8])) ∧
    FullOperations noDecoders 1 twoBytes.blobs [zeroOne] ∧
      image noDecoders 1 twoBytes.blobs [zeroOne] = [0] ∧
      extractBootFromPayload noDecoders (fun _ => some (oneOperation zeroOne))
        ⟨twoBytes.bytes, 0, true⟩ none none = .error (.badPayload "data length not found") := by
  refine ⟨⟨?_, by decide, ?_⟩, ?_, by decide, ?_⟩
  · exact fullOperations_singleton [7, 8] rfl (by decide)
      (forall_mem_cons.mpr ⟨⟨0, 1, rfl, rfl, by decide⟩,
        forall_mem_singleton.mpr ⟨2, 1, rfl, rfl, by decide⟩⟩) (by decide)
  · rw [extract_eq rfl rfl rfl,
      sortByDataOffset_singleton]
    rfl
  · exact fullOperations_singleton [] rfl (by decide)
      (forall_mem_singleton.mpr ⟨0, 1, rfl, rfl, by decide⟩) (by decide)
  · rw [extract_eq rfl rfl rfl,
      sortByDataOffset_singleton]
    rfl

end Magisk.Boot
