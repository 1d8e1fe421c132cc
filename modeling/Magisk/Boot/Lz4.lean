import Magisk.Base.Str
import Magisk.Lib.Wire

/-!
# LZ4 block archives

The legacy LZ4 format: a magic number, blocks with their compressed sizes and, in the variant of
one vendor, the total size at the end.  Nothing in it tells a size of a block from the magic
number or the total size but the value.

* `Chunker`: splits what is written into chunks of one size;
* `LZ4BlockEncoder`, `LZ4BlockDecoder`: the writer and the reader;
* `encode_spec`: what is written for the data, however it is split;
* `readToEnd_frames`: what is read from blocks;
* `lz4_round_trip_iff`: when everything is read back.
-/

namespace Magisk.Boot

open Magisk.Base Magisk.Lib List Option

/-! ### Chunks -/

/-- `Chunker`, by the part of its buffer that is filled, which is never the whole of it. -/
structure Chunker (size : Nat) where
  chunk : Str
  short : chunk.length < size

namespace Chunker

variable {size : Nat}

/-- `Chunker::add_data`: the rest of the data and a chunk that is filled. -/
def addData (c : Chunker size) (buf : Str) : Str × Option Str × Chunker size :=
  if c.chunk ≠ [] then
    let len := min (size - c.chunk.length) buf.length
    if h : (c.chunk ++ buf.take len).length = size then
      (buf.drop len, some (c.chunk ++ buf.take len), ⟨[], Nat.zero_lt_of_lt c.short⟩)
    else
      (buf.drop len, none, ⟨c.chunk ++ buf.take len, by
        have hshort := c.short
        rw [length_append, length_take] at h ⊢
        omega⟩)
  else if h : size ≤ buf.length then (buf.drop size, some (buf.take size), c)
  else ([], none, ⟨buf, not_le.mp h⟩)

/-- Nothing is lost, a chunk is full, and some of the data is taken. -/
lemma addData_spec (c : Chunker size) (buf : Str) :
    c.chunk ++ buf =
        (c.addData buf).2.1.getD [] ++ (c.addData buf).2.2.chunk ++ (c.addData buf).1 ∧
      (∀ f, (c.addData buf).2.1 = some f → f.length = size) ∧
      (buf ≠ [] → (c.addData buf).1.length < buf.length) := by
  have hshort := c.short
  rw [addData]
  dsimp only
  split_ifs with hpos hfull hbuf
  · refine ⟨?_, fun f hf => some.inj hf ▸ hfull, fun hne => ?_⟩
    · rw [getD_some, append_nil, append_assoc, take_append_drop]
    · have hlen := length_pos_of_ne_nil hne
      rw [length_drop]
      omega
  · refine ⟨?_, nofun, fun hne => ?_⟩
    · rw [getD_none, nil_append, append_assoc, take_append_drop]
    · have hlen := length_pos_of_ne_nil hne
      rw [length_drop]
      omega
  · rw [not_not] at hpos
    refine ⟨?_, fun f hf => ?_, fun hne => ?_⟩
    · rw [getD_some, hpos, append_nil, nil_append, take_append_drop]
    · rw [← some.inj hf, length_take, Nat.min_eq_left hbuf]
    · have hlen := length_pos_of_ne_nil hne
      rw [length_drop]
      omega
  · rw [not_not] at hpos
    refine ⟨?_, nofun, fun hne => length_pos_of_ne_nil hne⟩
    rw [getD_none, hpos, append_nil]

end Chunker

/-! ### The writer -/

/-- `LZ4_BLOCK_SIZE`. -/
def lz4BlockSize : Nat := 0x800000

/-- `LZ4_MAGIC`. -/
def lz4Magic : UInt32 := 0x184c2102

/-- `compress_bound(LZ4_BLOCK_SIZE)`. -/
def lz4Bound : Nat := lz4BlockSize + lz4BlockSize / 255 + 16

/-- The LZ4 block coders, which undo each other on a block.  A compressed block is not empty and
fits the buffer. -/
structure Lz4 where
  compress : Str → Str
  decompress : Str → Option Str
  decompress_compress : ∀ x, x ≠ [] → x.length ≤ lz4BlockSize → decompress (compress x) = some x
  compress_ne_nil : ∀ x, x ≠ [] → x.length ≤ lz4BlockSize → compress x ≠ []
  length_compress : ∀ x, x ≠ [] → x.length ≤ lz4BlockSize → (compress x).length ≤ lz4Bound

/-- `write_pod` of a `u32`. -/
def podU32 (v : UInt32) : Str := leBytes 4 v.toNat

/-- `LZ4BlockEncoder`, by what it has written to its writer. -/
structure LZ4BlockEncoder where
  write : Str
  chunker : Chunker lz4BlockSize
  total : UInt32
  isLg : Bool

section Encoder

variable (L : Lz4)

/-- `encode_block`: what is written for a chunk. -/
def encodeBlock (chunk : Str) : Str :=
  podU32 (.ofNat (L.compress chunk).length) ++ L.compress chunk

namespace LZ4BlockEncoder

/-- `LZ4BlockEncoder::new`. -/
def new (isLg : Bool) : LZ4BlockEncoder := ⟨[], ⟨[], by decide⟩, 0, isLg⟩

/-- The loop of `write_all`. -/
def writeChunks (write : Str) (c : Chunker lz4BlockSize) (buf : Str) :
    Str × Chunker lz4BlockSize :=
  if h : buf = [] then (write, c)
  else
    have := (c.addData_spec buf).2.2 h
    writeChunks (write ++ ((c.addData buf).2.1.map (encodeBlock L)).getD []) (c.addData buf).2.2
      (c.addData buf).1
termination_by buf.length

/-- `write_all`. -/
def writeAll (e : LZ4BlockEncoder) (buf : Str) : LZ4BlockEncoder :=
  let write := if e.total = 0 then e.write ++ podU32 lz4Magic else e.write
  let (write, chunker) := writeChunks L write e.chunker buf
  { e with write, chunker, total := e.total + .ofNat buf.length }

/-- `finish`: all that was written. -/
def finish (e : LZ4BlockEncoder) : Str :=
  let write := if e.chunker.chunk ≠ [] then e.write ++ encodeBlock L e.chunker.chunk else e.write
  if e.isLg then write ++ podU32 e.total else write

end LZ4BlockEncoder

/-- The writes one after the other, and `finish`. -/
def lz4Encode (isLg : Bool) (writes : List Str) : Str :=
  (writes.foldl (LZ4BlockEncoder.writeAll L) (.new isLg)).finish L

end Encoder

/-! ### The reader -/

/-- The errors of a read that matter here. -/
inductive IoError where
  | unexpectedEof
  | invalidData
  deriving DecidableEq

/-- `LZ4BlockDecoder`: `out` is what is left of the block that was decompressed last. -/
structure LZ4BlockDecoder where
  read : Source UInt8
  inBuf : Str
  out : Str

namespace LZ4BlockDecoder

variable (L : Lz4) (len : Nat)

/-- The end of `read`: hands out some of the block. -/
def copyOut (d : LZ4BlockDecoder) : Except IoError Str × LZ4BlockDecoder :=
  (.ok (d.out.take len), { d with out := d.out.drop len })

/-- A block is decompressed. -/
def decompress (d : LZ4BlockDecoder) (block : Str) : Except IoError Str × LZ4BlockDecoder :=
  match L.decompress block with
  | none => (.error .invalidData, d)
  | some out => copyOut len { d with out := out }

/-- The rest of `read` after the size of a block.  An error of the inner `read` is passed over,
and what was in the buffer is decompressed. -/
def readBlock (d : LZ4BlockDecoder) (size : Nat) : Except IoError Str × LZ4BlockDecoder :=
  if size > lz4Bound then (.ok [], d)
  else
    match d.read.read size with
    | (none, s) => decompress L len { d with read := s } (d.inBuf.take size)
    | (some l, s) =>
      if l = [] then (.ok [], { d with read := s })
      else
        let (rest, s) := readFull (size - l.length) s
        let d := { d with read := s, inBuf := l ++ rest ++ d.inBuf.drop (l ++ rest).length }
        if rest.length < size - l.length then (.error .unexpectedEof, d)
        else decompress L len d (l ++ rest)

/-- `read` into a buffer of `len` bytes. -/
def readInto (d : LZ4BlockDecoder) : Except IoError Str × LZ4BlockDecoder :=
  if d.out = [] then
    let (pod, s) := readFull 4 d.read
    let d := { d with read := s }
    if pod.length < 4 then (.ok [], d)
    else if leNat pod = lz4Magic.toNat then
      let (pod, s) := readFull 4 d.read
      let d := { d with read := s }
      if pod.length < 4 then (.error .unexpectedEof, d) else readBlock L len d (leNat pod)
    else readBlock L len d (leNat pod)
  else copyOut len d

/-- Reads into buffers of these sizes until nothing more is read. -/
def readToEnd (L : Lz4) : List Nat → LZ4BlockDecoder → Option (Except IoError Str)
  | [], _ => none
  | len :: lens, d =>
    match readInto L len d with
    | (.error e, _) => some (.error e)
    | (.ok l, d) =>
      if l = [] then some (.ok [])
      else (readToEnd L lens d).map fun r => r.map (l ++ ·)

end LZ4BlockDecoder

/-! ### What is written -/

variable {x : Str} {writes : List Str} {lens : List Nat}

section Written

variable {L : Lz4}

/-- The loop writes full chunks and keeps the rest. -/
lemma writeChunks_spec (write : Str) (c : Chunker lz4BlockSize) (buf : Str) :
    ∃ fulls : List Str,
      (LZ4BlockEncoder.writeChunks L write c buf).1 = write ++ fulls.flatMap (encodeBlock L) ∧
      fulls.flatten ++ (LZ4BlockEncoder.writeChunks L write c buf).2.chunk = c.chunk ++ buf ∧
      ∀ f ∈ fulls, f.length = lz4BlockSize := by
  fun_induction LZ4BlockEncoder.writeChunks L write c buf with
  | case1 write c => exact ⟨[], (append_nil _).symm, by simp, nofun⟩
  | case2 write c buf hne _ ih =>
    obtain ⟨hsplit, hfull, -⟩ := c.addData_spec buf
    obtain ⟨fulls, hwrite, hrest, hall⟩ := ih
    generalize LZ4BlockEncoder.writeChunks L _ (c.addData buf).2.2 _ = r at hwrite hrest ⊢
    cases hchunk : (c.addData buf).2.1 with
    | none =>
      rw [hchunk, map_none, getD_none, append_nil] at hwrite
      rw [hchunk] at hsplit
      exact ⟨fulls, hwrite, hrest.trans hsplit.symm, hall⟩
    | some f =>
      rw [hchunk, append_assoc] at hwrite
      rw [hchunk, getD_some, append_assoc] at hsplit
      refine ⟨f :: fulls, hwrite, ?_, forall_mem_cons.mpr ⟨hfull f hchunk, hall⟩⟩
      rw [flatten_cons, append_assoc, hrest, hsplit]

/-- The encoder after some data: full blocks are written, and the rest is in its buffer. -/
structure Encoded (L : Lz4) (e : LZ4BlockEncoder) (x : Str) : Prop where
  blocks : ∃ fulls : List Str,
    e.write = (if x = [] then [] else podU32 lz4Magic) ++ fulls.flatMap (encodeBlock L) ∧
    fulls.flatten ++ e.chunker.chunk = x ∧ ∀ f ∈ fulls, f.length = lz4BlockSize
  total : e.total = .ofNat x.length

/-- More data. -/
lemma Encoded.writeAll {buf : Str} (h : Encoded L e x) (hbuf : buf ≠ [])
    (hlen : x.length < 2 ^ 32) : Encoded L (e.writeAll L buf) (x ++ buf) := by
  obtain ⟨⟨fulls, hwrite, hx, hall⟩, htotal⟩ := h
  have hzero : e.total = 0 ↔ x = [] := by
    rw [htotal, ← UInt32.toNat_inj, UInt32.toNat_ofNat_of_lt' hlen, ← length_eq_zero_iff]
    rfl
  have hheader : (if e.total = 0 then e.write ++ podU32 lz4Magic else e.write) =
      podU32 lz4Magic ++ fulls.flatMap (encodeBlock L) := by
    by_cases hnil : x = []
    · -- no block was written before the header
      have hfulls : fulls.flatMap (encodeBlock L) = [] := by
        rw [flatMap_eq_nil_iff]
        intro f hf
        have hlen := hall f hf
        rw [← hx, append_eq_nil_iff, flatten_eq_nil_iff] at hnil
        rw [hnil.1 f hf] at hlen
        cases hlen
      rw [if_pos (hzero.mpr hnil), hwrite, if_pos hnil, hfulls]
      rfl
    · rw [if_neg (mt hzero.mp hnil), hwrite, if_neg hnil]
  obtain ⟨fulls', hwrite', hrest, hall'⟩ := writeChunks_spec (L := L)
    (if e.total = 0 then e.write ++ podU32 lz4Magic else e.write) e.chunker buf
  refine ⟨⟨fulls ++ fulls', ?_, ?_, ?_⟩, ?_⟩
  · rw [if_neg fun hnil => hbuf (append_eq_nil_iff.mp hnil).2, flatMap_append,
      ← append_assoc, ← hheader]
    exact hwrite'
  · rw [flatten_append, append_assoc, ← hx, append_assoc]
    exact congrArg _ hrest
  · intro f hf
    exact (mem_append.mp hf).elim (hall f) (hall' f)
  · have hsum : (e.writeAll L buf).total = e.total + .ofNat buf.length := rfl
    rw [hsum, htotal, length_append, UInt32.ofNat_add]

/-- All the data, write by write. -/
lemma Encoded.foldl (h : Encoded L e x) (hne : ∀ w ∈ writes, w ≠ [])
    (hlen : (x ++ writes.flatten).length < 2 ^ 32) :
    Encoded L (writes.foldl (LZ4BlockEncoder.writeAll L) e) (x ++ writes.flatten) ∧
      (writes.foldl (LZ4BlockEncoder.writeAll L) e).isLg = e.isLg := by
  induction writes generalizing e x with
  | nil =>
    rw [flatten_nil, append_nil]
    exact ⟨h, rfl⟩
  | cons w writes ih =>
    rw [flatten_cons, ← append_assoc] at hlen ⊢
    have hx : x.length < 2 ^ 32 := by
      rw [length_append, length_append] at hlen
      omega
    exact ih (h.writeAll (hne w (.head _)) hx)
      (fun v hv => hne v (.tail _ hv)) hlen

lemma encoded_new (L : Lz4) (isLg : Bool) : Encoded L (.new isLg) [] :=
  ⟨⟨[], rfl, rfl, nofun⟩, rfl⟩

/-- What is written, however the data is split: the magic number if there is any data, its
blocks, and the trailer of the variant. -/
lemma encode_spec (L : Lz4) (isLg : Bool) (h : ∀ w ∈ writes, w ≠ [])
    (hlen : writes.flatten.length < 2 ^ 32) :
    ∃ blocks : List Str, blocks.flatten = writes.flatten ∧
      (∀ b ∈ blocks, b ≠ [] ∧ b.length ≤ lz4BlockSize) ∧
      lz4Encode L isLg writes =
        (if blocks = [] then [] else podU32 lz4Magic) ++ blocks.flatMap (encodeBlock L) ++
          if isLg then podU32 (.ofNat writes.flatten.length) else [] := by
  obtain ⟨henc, hlg⟩ := (encoded_new L isLg).foldl h (by rwa [nil_append])
  rw [nil_append] at henc
  rw [lz4Encode]
  generalize writes.foldl (LZ4BlockEncoder.writeAll L) (.new isLg) = e at henc hlg ⊢
  generalize writes.flatten = x at henc ⊢
  obtain ⟨⟨fulls, hwrite, hx, hall⟩, htotal⟩ := henc
  have hlg' : e.isLg = isLg := hlg
  have hfull : ∀ f ∈ fulls, f ≠ [] ∧ f.length ≤ lz4BlockSize := fun f hf =>
    ⟨fun hnil => absurd (hall f hf) (by rw [hnil]; decide), (hall f hf).le⟩
  by_cases hchunk : e.chunker.chunk = []
  · rw [hchunk, append_nil] at hx
    refine ⟨fulls, hx, hfull, ?_⟩
    have hempty : x = [] ↔ fulls = [] := by
      rw [← hx, flatten_eq_nil_iff]
      refine ⟨fun hnil => ?_, fun hnil f hf => absurd hf (hnil ▸ not_mem_nil)⟩
      exact eq_nil_iff_forall_not_mem.mpr fun f hf => (hfull f hf).1 (hnil f hf)
    simp only [LZ4BlockEncoder.finish, hchunk, hlg', htotal, hwrite, hempty, ne_eq, not_true,
      if_false]
    cases isLg <;> simp
  · refine ⟨fulls ++ [e.chunker.chunk], ?_, ?_, ?_⟩
    · rw [flatten_concat, hx]
    · intro b hb
      rcases mem_append.mp hb with hb | hb
      · exact hfull b hb
      · rw [mem_singleton.mp hb]
        exact ⟨hchunk, e.chunker.short.le⟩
    · have hnil : x ≠ [] := fun hnil => hchunk (append_eq_nil_iff.mp (hx.trans hnil)).2
      simp only [LZ4BlockEncoder.finish, ne_eq, hchunk, not_false_iff, if_true, hlg', htotal,
        hwrite, hnil, if_false, append_ne_nil_of_right_ne_nil _ (cons_ne_nil _ _),
        flatMap_append, flatMap_singleton]
      cases isLg <;> simp

end Written

/-! ### What is read -/

section Read

variable {L : Lz4} {len : Nat} {d : LZ4BlockDecoder} {rest : Str}

lemma readFull_podU32 {s : Source UInt8} (hs : s.content = podU32 v ++ rest) :
    (readFull 4 s).1.length = 4 ∧ leNat (readFull 4 s).1 = v.toNat ∧
      (readFull 4 s).2.content = rest := by
  obtain ⟨htake, hdrop⟩ := readFull_spec 4 s
  have hlen : (podU32 v).length = 4 := length_leBytes 4 _
  rw [hs, take_left' hlen] at htake
  rw [hs] at hdrop
  rw [htake]
  exact ⟨hlen, leNat_leBytes v.toNat_lt, hdrop⟩

/-- A compressed block is read and decompressed. -/
lemma readBlock_spec {b : Str} (hne : b ≠ []) (hle : b.length ≤ lz4BlockSize)
    (hint : Piece.interrupted ∉ d.read) (hs : d.read.content = L.compress b ++ rest) :
    ∃ d', d.readBlock L len (L.compress b).length = (.ok (b.take len), d') ∧
      d'.out = b.drop len ∧ Piece.interrupted ∉ d'.read ∧ d'.read.content = rest := by
  have hbound := L.length_compress b hne hle
  have hnil := L.compress_ne_nil b hne hle
  obtain ⟨l, s, hread, hint'⟩ := Source.read_uninterrupted hint (L.compress b).length
  obtain ⟨hcontent, hlen, -⟩ := Source.read_some hread
  have hl : l ≠ [] := by
    rintro rfl
    have hempty := Source.read_nil (mt length_eq_zero_iff.mp hnil) hread
    rw [hs] at hempty
    exact hnil (append_eq_nil_iff.mp hempty).1
  -- the first read returns a part of the block, the loop the rest of it
  obtain ⟨c, hc⟩ : l <+: L.compress b :=
    prefix_of_prefix_length_le ⟨s.content, hcontent.symm.trans hs⟩
      (prefix_append _ rest) hlen
  have hclen : (L.compress b).length - l.length = c.length := by
    rw [← hc, length_append, Nat.add_sub_cancel_left]
  have hsc : s.content = c ++ rest := by
    rw [hs, ← hc, append_assoc] at hcontent
    exact (append_cancel_left hcontent).symm
  obtain ⟨htake, hdrop⟩ := readFull_spec c.length s
  rw [hsc, take_left] at htake
  rw [hsc, drop_left] at hdrop
  rw [LZ4BlockDecoder.readBlock, if_neg (not_lt.mpr hbound), hread]
  simp only [if_neg hl, hclen, htake, lt_irrefl, if_false, hc, LZ4BlockDecoder.decompress,
    L.decompress_compress b hne hle, LZ4BlockDecoder.copyOut]
  exact ⟨_, rfl, rfl, readFull_uninterrupted hint' _, hdrop⟩

/-- A block is read, with the magic number in front of it or not. -/
lemma readInto_block (len : Nat) {head b : Str} (hhead : head = [] ∨ head = podU32 lz4Magic)
    (hne : b ≠ []) (hle : b.length ≤ lz4BlockSize) (hout : d.out = [])
    (hint : Piece.interrupted ∉ d.read)
    (hs : d.read.content = head ++ (encodeBlock L b ++ rest)) :
    ∃ d', d.readInto L len = (.ok (b.take len), d') ∧
      d'.out = b.drop len ∧ Piece.interrupted ∉ d'.read ∧ d'.read.content = rest := by
  have hbound := L.length_compress b hne hle
  have hsize : (UInt32.ofNat (L.compress b).length).toNat = (L.compress b).length :=
    UInt32.toNat_ofNat_of_lt' (hbound.trans_lt (by decide))
  have hmagic : (L.compress b).length ≠ lz4Magic.toNat :=
    (hbound.trans_lt (by decide)).ne
  rcases hhead with rfl | rfl
  · obtain ⟨hlen, hval, hcontent⟩ := readFull_podU32 hs
    rw [hsize] at hval
    simp only [LZ4BlockDecoder.readInto, if_pos hout, hlen, lt_irrefl, if_false, hval,
      if_neg hmagic]
    exact readBlock_spec hne hle (readFull_uninterrupted hint 4) hcontent
  · obtain ⟨hlen, hval, hcontent⟩ := readFull_podU32 hs
    have hint' := readFull_uninterrupted hint 4
    obtain ⟨hlen', hval', hcontent'⟩ := readFull_podU32 hcontent
    rw [hsize] at hval'
    simp only [LZ4BlockDecoder.readInto, if_pos hout, hlen, lt_irrefl, if_false, hval, if_true,
      hlen', hval']
    exact readBlock_spec hne hle (readFull_uninterrupted hint' 4) hcontent'

/-- How a read ends after all blocks, when this is left of the file. -/
def EndsWith (L : Lz4) (tail : Str) (ends : Except IoError Unit) : Prop :=
  ∀ (d : LZ4BlockDecoder) (len : Nat), d.out = [] → Piece.interrupted ∉ d.read →
    d.read.content = tail → (d.readInto L len).1 = ends.map fun _ => []

lemma endsWith_nil (L : Lz4) : EndsWith L [] (.ok ()) := by
  intro d len hout _ hs
  obtain ⟨htake, -⟩ := readFull_spec 4 d.read
  rw [hs] at htake
  simp only [LZ4BlockDecoder.readInto, if_pos hout, htake, length_nil, Nat.zero_lt_succ,
    if_true]
  rfl

/-- After a trailer nothing more is read, but one that looks like the magic number is an error. -/
lemma endsWith_trailer (L : Lz4) (v : UInt32) :
    EndsWith L (podU32 v) (if v = lz4Magic then .error .unexpectedEof else .ok ()) := by
  intro d len hout hint hs
  obtain ⟨hlen, hval, hcontent⟩ := readFull_podU32 hs
  simp only [LZ4BlockDecoder.readInto, if_pos hout, hlen, lt_irrefl, if_false, hval]
  by_cases hv : v = lz4Magic
  · obtain ⟨htake, -⟩ := readFull_spec 4 (readFull 4 d.read).2
    rw [hcontent] at htake
    simp only [if_pos (congrArg UInt32.toNat hv), if_pos hv, htake, length_nil,
      Nat.zero_lt_succ, if_true]
    rfl
  · simp only [if_neg (mt UInt32.toNat_inj.mp hv), LZ4BlockDecoder.readBlock]
    split
    · rfl
    · -- a small trailer is taken for the size of a block that is not there
      obtain ⟨l, s, hread, -⟩ :=
        Source.read_uninterrupted (readFull_uninterrupted hint 4) v.toNat
      obtain ⟨hl, -, -⟩ := Source.read_some hread
      rw [hcontent] at hl
      rw [hread]
      simp only [if_pos (append_eq_nil_iff.mp hl.symm).1]
      rfl

lemma readToEnd_cons {ends : Except IoError Unit} (hlen : 0 < len)
    (hx : x ≠ []) (hread : d.readInto L len = (.ok (x.take len), d'))
    (h : d'.readToEnd L lens = some (ends.map fun _ => x.drop len ++ rest)) :
    d.readToEnd L (len :: lens) = some (ends.map fun _ => x ++ rest) := by
  have htake : x.take len ≠ [] := fun hnil =>
    (take_eq_nil_iff.mp hnil).elim hlen.ne' hx
  rw [LZ4BlockDecoder.readToEnd, hread]
  simp only [if_neg htake, h, map_some]
  cases ends with
  | error e => rfl
  | ok u => simp only [Except.map, ← append_assoc, take_append_drop]

/-- All blocks are read, whatever the sizes of the buffers are. -/
lemma readToEnd_frames {tail head : Str} (hends : EndsWith L tail ends)
    (hpos : ∀ len ∈ lens, 0 < len) {blocks : List Str}
    (hblocks : ∀ b ∈ blocks, b ≠ [] ∧ b.length ≤ lz4BlockSize)
    (hhead : head = [] ∨ head = podU32 lz4Magic ∧ blocks ≠ []) (hint : Piece.interrupted ∉ d.read)
    (hs : d.read.content = head ++ (blocks.flatMap (encodeBlock L) ++ tail))
    (hlen : (d.out ++ blocks.flatten).length < lens.length) :
    d.readToEnd L lens = some (ends.map fun _ => d.out ++ blocks.flatten) := by
  -- each buffer takes something of what is left
  induction lens generalizing d blocks head with
  | nil => cases hlen
  | cons len lens ih =>
    have hlen₀ := hpos len (.head _)
    have hpos' : ∀ k ∈ lens, 0 < k := fun k hk => hpos k (.tail _ hk)
    rw [length_append, length_cons] at hlen
    by_cases hout : d.out = []
    · cases blocks with
      | nil =>
        obtain rfl : head = [] := hhead.resolve_right fun h => h.2 rfl
        have hread := hends d len hout hint hs
        rw [LZ4BlockDecoder.readToEnd, hout]
        generalize d.readInto L len = r at hread
        obtain ⟨r, d'⟩ := r
        obtain rfl : r = _ := hread
        cases ends <;> rfl
      | cons b blocks =>
        obtain ⟨⟨hne, hle⟩, hblocks⟩ := forall_mem_cons.mp hblocks
        rw [flatMap_cons, append_assoc] at hs
        obtain ⟨d', hread, hout', hint', hs'⟩ :=
          readInto_block len (hhead.imp_right And.left) hne hle hout hint hs
        rw [hout, nil_append]
        have hb := length_pos_of_ne_nil hne
        have hdrop : (d'.out ++ blocks.flatten).length < lens.length := by
          rw [flatten_cons, length_append] at hlen
          rw [hout', length_append, length_drop]
          omega
        exact readToEnd_cons hlen₀ hne hread
          (hout' ▸ ih hpos' hblocks (.inl rfl) hint' hs' hdrop)
    · have hread : d.readInto L len =
          (.ok (d.out.take len), { d with out := d.out.drop len }) := by
        rw [LZ4BlockDecoder.readInto, if_neg hout]
        rfl
      have hd := length_pos_of_ne_nil hout
      have hdrop : (d.out.drop len ++ blocks.flatten).length < lens.length := by
        rw [length_append, length_drop]
        omega
      exact readToEnd_cons hlen₀ hout hread (ih hpos' hblocks hhead hint hs hdrop)

end Read

/-! ### The round trip -/

/-- The data comes back, however it is written and however it is read. -/
def RoundTrips (L : Lz4) (isLg : Bool) (x : Str) : Prop :=
  ∀ writes : List Str, (∀ w ∈ writes, w ≠ []) → writes.flatten = x →
    ∀ (s : Source UInt8) (inBuf : Str), Piece.interrupted ∉ s →
      s.content = lz4Encode L isLg writes →
      ∀ lens : List Nat, (∀ len ∈ lens, 0 < len) → x.length < lens.length →
        LZ4BlockDecoder.readToEnd L lens ⟨s, inBuf, []⟩ = some (.ok x)

/-- What reading to the end gives. -/
lemma readToEnd_encode (L : Lz4) (isLg : Bool) (h : ∀ w ∈ writes, w ≠ [])
    (hlen : writes.flatten.length < 2 ^ 32) {s : Source UInt8} (inBuf : Str)
    (hint : Piece.interrupted ∉ s) (hs : s.content = lz4Encode L isLg writes)
    (hpos : ∀ len ∈ lens, 0 < len) (hlens : writes.flatten.length < lens.length) :
    LZ4BlockDecoder.readToEnd L lens ⟨s, inBuf, []⟩ =
      some (if isLg = true ∧ writes.flatten.length = lz4Magic.toNat then .error .unexpectedEof
        else .ok writes.flatten) := by
  obtain ⟨blocks, hflat, hblocks, henc⟩ := encode_spec L isLg h hlen
  rw [henc, append_assoc] at hs
  rw [← hflat] at hlen hlens hs ⊢
  have hhead : (if blocks = [] then [] else podU32 lz4Magic) = [] ∨
      (if blocks = [] then [] else podU32 lz4Magic) = podU32 lz4Magic ∧ blocks ≠ [] := by
    by_cases hnil : blocks = []
    · exact .inl (if_pos hnil)
    · exact .inr ⟨if_neg hnil, hnil⟩
  cases isLg with
  | false =>
    refine (readToEnd_frames (d := ⟨s, inBuf, []⟩) (endsWith_nil L) hpos hblocks hhead hint hs
      hlens).trans ?_
    rfl
  | true =>
    refine (readToEnd_frames (d := ⟨s, inBuf, []⟩) (endsWith_trailer L _) hpos hblocks hhead hint
      hs hlens).trans ?_
    have hiff : UInt32.ofNat blocks.flatten.length = lz4Magic ↔
        blocks.flatten.length = lz4Magic.toNat := by
      rw [← UInt32.toNat_inj, UInt32.toNat_ofNat_of_lt' hlen]
    by_cases hmagic : blocks.flatten.length = lz4Magic.toNat
    · rw [if_pos (hiff.mpr hmagic), if_pos ⟨rfl, hmagic⟩]
      rfl
    · rw [if_neg (mt hiff.mp hmagic), if_neg fun h => hmagic h.2]
      rfl

/-- Data whose length is the magic number does not come back from the variant with a trailer. -/
lemma not_roundTrips_magic (L : Lz4) (h : x.length = lz4Magic.toNat) : ¬RoundTrips L true x := by
  intro hround
  have hflat : [x].flatten = x := by rw [flatten_singleton]
  have hwrites : ∀ w ∈ [x], w ≠ [] := by
    rintro w hw rfl
    rw [mem_singleton] at hw
    rw [← hw] at h
    cases h
  have hpos : ∀ len ∈ List.replicate (x.length + 1) 1, 0 < len := fun len hmem =>
    (eq_of_mem_replicate hmem).symm ▸ Nat.one_pos
  have hlens : x.length < (List.replicate (x.length + 1) 1).length := by
    rw [length_replicate]
    exact Nat.lt_succ_self _
  have hint := Source.interrupted_notMem_ofList (lz4Encode L true [x])
  have hs := Source.content_ofList (lz4Encode L true [x])
  have hok := hround [x] hwrites hflat _ [] hint hs _ hpos hlens
  rw [readToEnd_encode L true hwrites (by rw [hflat, h]; decide) [] hint hs hpos
    (by rwa [hflat]), hflat, if_pos ⟨rfl, h⟩] at hok
  cases hok

/-- **Reading what was written gives the data back, unless the trailer is the magic number.** -/
theorem lz4_round_trip_iff (L : Lz4) (isLg : Bool) (x : Str) (hlen : x.length < 2 ^ 32) :
    RoundTrips L isLg x ↔ ¬(isLg = true ∧ x.length = lz4Magic.toNat) := by
  constructor
  · rintro hround ⟨rfl, hmagic⟩
    exact not_roundTrips_magic L hmagic hround
  · rintro hmagic writes hwrites rfl s inBuf hint hs lens hpos hlens
    rw [readToEnd_encode L isLg hwrites hlen inBuf hint hs hpos hlens, if_neg hmagic]

/-- A coder that stores the data. -/
def storing : Lz4 where
  compress := id
  decompress := some
  decompress_compress _ _ _ := rfl
  compress_ne_nil _ hne _ := hne
  length_compress x _ hle := by
    have hbound : lz4BlockSize ≤ lz4Bound := by decide
    exact hle.trans hbound

/-- A short text comes back from both variants. -/
theorem short_round_trips :
    RoundTrips storing true [108, 122, 52] ∧ RoundTrips storing false [] :=
  ⟨(lz4_round_trip_iff storing true _ (by decide)).mpr (by decide),
    (lz4_round_trip_iff storing false _ (by decide)).mpr (by decide)⟩

/-- So many zeros do not. -/
theorem zeros_lost : ¬RoundTrips storing true (List.replicate 407642370 0) :=
  not_roundTrips_magic storing length_replicate

end Magisk.Boot
