import Magisk.Boot.Lz4
import Magisk.Lib.Reader

/-!
# Failures below the LZ4 reader

`LZ4BlockDecoder::read` over a reader that may fail at any call.

* `BlockDecoder`, `BlockDecoder.readInto`: the decoder and its `read`;
* `readInto_ofSource`: over a reader that is only interrupted this is `LZ4BlockDecoder`;
* `BlockDecoder.Sound`: what is handed out was decompressed from what was read, and not after a
  failure;
* `BlockDecoder.Stale`: the first call for a block fails while another block is in the buffer;
* `readInto_sound_iff`: `read` is sound unless this happens.
-/

namespace Magisk.Boot

open Magisk.Base Magisk.Lib List

/-! ### The decoder -/

/-- The errors of the decoder: those of the reader, and a block that is not valid. -/
inductive DecodeError where
  | io (e : ReadError)
  | invalidData
  deriving DecidableEq

/-- `LZ4BlockDecoder`: `out` is what is left of the block that was decompressed last. -/
structure BlockDecoder where
  read : Reader UInt8
  inBuf : Str
  out : Str

/-- The size of the next block.  There is none if the reader is at its end. -/
def readBlockSize (s : Reader UInt8) : Except DecodeError (Option Nat) × Reader UInt8 :=
  match fill 4 s with
  | (_, some .unexpectedEof, s) => (.ok none, s)
  | (_, some e, s) => (.error (.io e), s)
  | (pod, none, s) =>
    if leNat pod = lz4Magic.toNat then
      match fill 4 s with
      | (_, some e, s) => (.error (.io e), s)
      | (pod, none, s) => (.ok (some (leNat pod)), s)
    else (.ok (some (leNat pod)), s)

variable {d : BlockDecoder} {size : Nat}

namespace BlockDecoder

variable (L : Lz4) (len : Nat)

/-- The end of `read`: hands out some of the block. -/
def copyOut (d : BlockDecoder) : Except DecodeError Str × BlockDecoder :=
  (.ok (d.out.take len), { d with out := d.out.drop len })

/-- A block is decompressed. -/
def decompress (d : BlockDecoder) (block : Str) : Except DecodeError Str × BlockDecoder :=
  match L.decompress block with
  | none => (.error .invalidData, d)
  | some out => copyOut len { d with out := out }

/-- The rest of `read` after the size of a block.  An error of the first call is passed over, and
what was in the buffer is decompressed. -/
def readBlock (d : BlockDecoder) (size : Nat) : Except DecodeError Str × BlockDecoder :=
  if size > lz4Bound then (.ok [], d)
  else
    match d.read.read size with
    | (.error _, s) => decompress L len { d with read := s } (d.inBuf.take size)
    | (.ok l, s) =>
      if l = [] then (.ok [], { d with read := s })
      else
        -- a block that is complete leaves nothing to fill
        let (rest, err, s) := fill (size - l.length) s
        let d := { d with read := s, inBuf := l ++ rest ++ d.inBuf.drop (l ++ rest).length }
        match err with
        | some e => (.error (.io e), d)
        | none => decompress L len d (l ++ rest)

/-- `read` into a buffer of `len` bytes. -/
def readInto (d : BlockDecoder) : Except DecodeError Str × BlockDecoder :=
  if d.out = [] then
    match readBlockSize d.read with
    | (.error e, s) => (.error e, { d with read := s })
    | (.ok none, s) => (.ok [], { d with read := s })
    | (.ok (some size), s) => readBlock L len { d with read := s } size
  else copyOut len d

/-! ### Readers that are only interrupted -/

/-- A decoder over a source. -/
def ofSource (d : LZ4BlockDecoder) : BlockDecoder := ⟨.ofSource d.read, d.inBuf, d.out⟩

/-- The errors over a source. -/
def ofIoError : IoError → DecodeError
  | .unexpectedEof => .io .unexpectedEof
  | .invalidData => .invalidData

/-- What `read` returns over a source. -/
def ofResult (r : Except IoError Str × LZ4BlockDecoder) : Except DecodeError Str × BlockDecoder :=
  (r.1.mapError ofIoError, ofSource r.2)

variable {L len}

lemma decompress_ofSource (d : LZ4BlockDecoder) (block : Str) :
    decompress L len (ofSource d) block = ofResult (LZ4BlockDecoder.decompress L len d block) := by
  rw [decompress, LZ4BlockDecoder.decompress]
  cases L.decompress block <;> rfl

lemma readBlock_ofSource (d : LZ4BlockDecoder) (size : Nat) :
    readBlock L len (ofSource d) size = ofResult (LZ4BlockDecoder.readBlock L len d size) := by
  have hread : (ofSource d).read.read size = _ := Reader.read_ofSource size d.read
  rw [readBlock, LZ4BlockDecoder.readBlock]
  split
  · rfl
  · rw [hread]
    rcases Source.read size d.read with ⟨_ | l, s⟩
    · exact decompress_ofSource { d with read := s } _
    · by_cases hl : l = []
      · simp only [if_pos hl]
        rfl
      · simp only [if_neg hl, fill_ofSource]
        by_cases hlt : (readFull (size - l.length) s).1.length < size - l.length
        · simp only [if_pos hlt]
          rfl
        · simp only [if_neg hlt]
          exact decompress_ofSource { d with read := _, inBuf := _ } _

/-- **Over a reader that is only interrupted** this is the decoder over its source. -/
theorem readInto_ofSource (d : LZ4BlockDecoder) :
    readInto L len (ofSource d) = ofResult (LZ4BlockDecoder.readInto L len d) := by
  rw [readInto, LZ4BlockDecoder.readInto]
  by_cases hout : d.out = []
  · have hout' : (ofSource d).out = [] := hout
    have hread : (ofSource d).read = .ofSource d.read := rfl
    simp only [if_pos hout, if_pos hout', hread, readBlockSize, fill_ofSource]
    rcases readFull 4 d.read with ⟨pod, s⟩
    by_cases hpod : pod.length < 4
    · simp only [if_pos hpod]
      rfl
    · by_cases hmagic : leNat pod = lz4Magic.toNat
      · simp only [if_neg hpod, if_pos hmagic, fill_ofSource]
        rcases readFull 4 s with ⟨pod', s'⟩
        by_cases hpod' : pod'.length < 4
        · simp only [if_pos hpod']
          rfl
        · simp only [if_neg hpod']
          exact readBlock_ofSource { d with read := s' } _
      · simp only [if_neg hpod, if_neg hmagic]
        exact readBlock_ofSource { d with read := s } _
  · have hout' : (ofSource d).out ≠ [] := hout
    rw [if_neg hout, if_neg hout']
    rfl

/-! ### What is handed out -/

/-- What `read` hands out or keeps was there before, or it was decompressed from a block that it
has read; and no call for the block has failed, apart from interruptions. -/
structure Sound (L : Lz4) (len : Nat) (d : BlockDecoder) : Prop where
  decoded : ∀ out d', readInto L len d = (.ok out, d') → out ++ d'.out = d.out ∨
    ∃ size s block, readBlockSize d.read = (.ok (some size), s) ∧ block.length = size ∧
      s.content = block ++ d'.read.content ∧ L.decompress block = some (out ++ d'.out)
  failed : ∀ size s out d', d.out = [] → readBlockSize d.read = (.ok (some size), s) →
    readInto L len d = (.ok out, d') →
    ∀ fs, s.failures = fs ++ d'.read.failures → ∀ e ∈ fs, e = .interrupted

/-- The first call for a block fails, and what is in the buffer can be decompressed.  An
interruption does no harm if that gives nothing. -/
def Stale (L : Lz4) (d : BlockDecoder) : Prop :=
  d.out = [] ∧ ∃ size s e s' x, readBlockSize d.read = (.ok (some size), s) ∧ size ≤ lz4Bound ∧
    s.read size = (.error e, s') ∧ L.decompress (d.inBuf.take size) = some x ∧
    (e = .interrupted → size ≠ 0 ∧ x ≠ [])

lemma decompress_ok {block out : Str} (h : decompress L len d block = (.ok out, d')) :
    L.decompress block = some (out ++ d'.out) ∧ d'.read = d.read := by
  rw [decompress] at h
  split at h
  · cases h
  · rename_i x hx
    obtain ⟨hout, rfl⟩ := Prod.mk.inj h
    cases hout
    exact ⟨by rw [hx, take_append_drop], rfl⟩

/-- How `read` succeeds: there is no block, the error of the first call is passed over, or the
block was read. -/
lemma readBlock_ok {out : Str} (h : readBlock L len d size = (.ok out, d')) :
    (out = [] ∧ d'.out = d.out ∧ d'.read.failures = d.read.failures) ∨
    (size ≤ lz4Bound ∧ ∃ e, d.read.read size = (.error e, d'.read) ∧
      L.decompress (d.inBuf.take size) = some (out ++ d'.out)) ∨
    ∃ block fs, block.length = size ∧ d.read.content = block ++ d'.read.content ∧
      d.read.failures = fs ++ d'.read.failures ∧ (∀ f ∈ fs, f = .interrupted) ∧
      L.decompress block = some (out ++ d'.out) := by
  rw [readBlock] at h
  split at h
  · obtain ⟨hout, rfl⟩ := Prod.mk.inj h
    exact .inl ⟨(Except.ok.inj hout).symm, rfl, rfl⟩
  · rename_i hsize
    rcases hread : d.read.read size with ⟨e | l, s⟩
    · rw [hread] at h
      obtain ⟨hx, hs⟩ := decompress_ok h
      exact .inr (.inl ⟨by omega, e, by rw [hs], hx⟩)
    · obtain ⟨hcontent, hle, hfail, -⟩ := Reader.read_ok hread
      simp only [hread] at h
      split at h
      · obtain ⟨hout, rfl⟩ := Prod.mk.inj h
        exact .inl ⟨(Except.ok.inj hout).symm, rfl, hfail.symm⟩
      · obtain ⟨hfill, hfull⟩ := fill_spec (size - l.length) s
        split at h
        · cases h
        · rename_i hnone
          obtain ⟨hlen, fs, hfs, hall⟩ := hfull hnone
          obtain ⟨hx, hs⟩ := decompress_ok h
          rw [hs]
          refine .inr (.inr ⟨_, fs, ?_, ?_, hfail.trans hfs, hall, hx⟩)
          · rw [length_append]
            omega
          · rw [hcontent, hfill, append_assoc]

lemma readInto_eq (hout : d.out = []) (hsize : readBlockSize d.read = (.ok (some size), s)) :
    readInto L len d = readBlock L len { d with read := s } size := by
  rw [readInto, if_pos hout, hsize]

/-- A failure that is passed over. -/
lemma Stale.not_sound (h : Stale L d) : ¬Sound L len d := by
  obtain ⟨hout, size, s, e, s', x, hsize, hbound, hread, hx, hint⟩ := h
  obtain rfl := Reader.read_error hread
  have hok : readInto L len d = (.ok (x.take len), ⟨s', d.inBuf, x.drop len⟩) := by
    rw [readInto_eq hout hsize, readBlock, if_neg (by omega)]
    simp only [decompress, hx]
    rfl
  intro hsound
  have hfailed := hsound.failed _ _ _ _ hout hsize hok [e] rfl e (.head _)
  obtain ⟨hsize0, hx0⟩ := hint hfailed
  rcases hsound.decoded _ _ hok with hkept | ⟨size', s₁, block, hsize', hlen, hcontent, -⟩
  · rw [take_append_drop, hout] at hkept
    exact hx0 hkept
  · -- nothing was read, so that the block would be empty
    obtain ⟨hsz, rfl⟩ := Prod.mk.inj (hsize.symm.trans hsize')
    cases hsz
    have hnil : block = [] := self_eq_append_left.mp hcontent
    rw [hnil] at hlen
    exact hsize0 hlen.symm

lemma harmless_of_not_stale (h : ¬Stale L d)
    (hout : d.out = []) (hsize : readBlockSize d.read = (.ok (some size), s))
    (hbound : size ≤ lz4Bound) (hread : s.read size = (.error e, s'))
    (hx : L.decompress (d.inBuf.take size) = some x) : e = .interrupted ∧ (size = 0 ∨ x = []) := by
  by_contra hharm
  refine h ⟨hout, size, s, e, s', x, hsize, hbound, hread, hx, fun he => ?_⟩
  rw [and_iff_right he, not_or] at hharm
  exact hharm

/-- **`read` is sound just if it does not pass over a failure** with another block in its
buffer. -/
theorem readInto_sound_iff (L : Lz4) (len : Nat) (d : BlockDecoder) :
    Sound L len d ↔ ¬Stale L d := by
  refine ⟨fun hsound hstale => hstale.not_sound hsound, fun hstale => ⟨?_, ?_⟩⟩
  · intro out d' h
    by_cases hout : d.out = []
    · rcases hsize : readBlockSize d.read with ⟨e | _ | size, s⟩
      · rw [readInto, if_pos hout, hsize] at h
        cases h
      · rw [readInto, if_pos hout, hsize] at h
        obtain ⟨hnil, rfl⟩ := Prod.mk.inj h
        rw [← Except.ok.inj hnil]
        exact .inl rfl
      · rw [readInto_eq hout hsize] at h
        rcases readBlock_ok h with ⟨rfl, hkept, -⟩ | ⟨hbound, e, hread, hx⟩ | hblock
        · exact .inl hkept
        · obtain ⟨-, rfl | hnil⟩ := harmless_of_not_stale hstale hout hsize hbound hread hx
          · have hcontent := congrArg Reader.content (Reader.read_error hread)
            exact .inr ⟨0, s, [], rfl, rfl, hcontent, hx⟩
          · exact .inl (hnil.trans hout.symm)
        · obtain ⟨block, fs, hlen, hcontent, -, -, hx⟩ := hblock
          exact .inr ⟨size, s, block, rfl, hlen, hcontent, hx⟩
    · rw [readInto, if_neg hout] at h
      obtain ⟨hok, rfl⟩ := Prod.mk.inj h
      cases hok
      exact .inl (take_append_drop len d.out)
  · intro size s out d' hout hsize h fs hfs
    rw [readInto_eq hout hsize] at h
    rcases readBlock_ok h with ⟨-, -, hfail⟩ | ⟨hbound, e, hread, hx⟩ | hblock
    · rw [hfail, self_eq_append_left] at hfs
      rw [hfs]
      exact fun e he => absurd he not_mem_nil
    · obtain ⟨rfl, -⟩ := harmless_of_not_stale hstale hout hsize hbound hread hx
      have hcons : s.failures = [.interrupted] ++ d'.read.failures :=
        congrArg Reader.failures (Reader.read_error hread)
      rw [← append_cancel_right (hcons.symm.trans hfs)]
      exact fun e he => mem_singleton.mp he
    · obtain ⟨block, fs', -, -, hfs', hall, -⟩ := hblock
      rw [← append_cancel_right (hfs'.symm.trans hfs)]
      exact hall

/-- Coders that leave a block as it is. -/
def plainLz4 : Lz4 where
  compress x := x
  decompress x := some x
  decompress_compress _ _ _ := rfl
  compress_ne_nil _ h _ := h
  length_compress x _ h := by
    rw [lz4Bound]
    omega

/-- A block is read; the size of the next one is read, and the call for it fails. -/
def failingReader : Reader UInt8 :=
  [.items 2 [0, 0, 0], .items 7 [9], .items 2 [0, 0, 0], .failed .other]

lemma fill_four (a b c d : UInt8) (s : Reader UInt8) :
    fill 4 (.items a [b, c, d] :: s) = ([a, b, c, d], none, s) := by
  rw [fill_eq (by decide)]
  simp only [Reader.read, drop_succ_cons, drop_zero, take_succ_cons, take_zero,
    length_cons, length_nil]
  rw [fill_zero]
  rfl

lemma readBlockSize_two (s : Reader UInt8) :
    readBlockSize (.items 2 [0, 0, 0] :: s) = (.ok (some 2), s) := by
  have hsize : leNat [2, 0, 0, 0] = 2 := by decide
  have hmagic : 2 ≠ lz4Magic.toNat := by decide
  simp only [readBlockSize, fill_four, hsize, if_neg hmagic]

/-- The first `read` hands out its block, and the second one hands it out once more. -/
theorem readInto_failingReader :
    ∃ d, readInto plainLz4 8 ⟨failingReader, [], []⟩ = (.ok [7, 9], d) ∧
      d.read = [.items 2 [0, 0, 0], .failed .other] ∧
      (readInto plainLz4 8 d).1 = .ok [7, 9] := by
  refine ⟨⟨[.items 2 [0, 0, 0], .failed .other], [7, 9], []⟩, ?_, rfl, ?_⟩
  · rw [readInto_eq rfl (readBlockSize_two _), readBlock]
    simp only [Reader.read, drop_succ_cons, drop_zero, take_succ_cons,
      take_zero, length_cons, length_nil, Nat.zero_add, Nat.reduceAdd, Nat.sub_self,
      fill_zero]
    rfl
  · rw [readInto_eq rfl (readBlockSize_two _)]
    rfl

end BlockDecoder

end Magisk.Boot
