import Magisk.Boot.Lz4
import Magisk.Lib.Window

/-!
# Chunks in a buffer

`Chunker` with its buffer, of which only some bytes are initialized.

* `ChunkBuf.filled_addData`: what is filled of the buffer is the `Chunker` of the encoders;
* `ChunkBuf.feed`: the loop of the encoders;
* `chunks_spec`: all data comes out, in full chunks and a remainder.
-/

namespace Magisk.Boot

open Magisk.Base Magisk.Lib List

/-- `Chunker`.  The bytes of the buffer from `pos` on can be anything. -/
structure ChunkBuf (size : Nat) where
  chunk : Str
  pos : Nat
  pos_lt : pos < size
  size_le : size ≤ chunk.length

namespace ChunkBuf

variable {size : Nat} (c : ChunkBuf size) (buf : Str)

/-- The buffer after data is copied to it, with another position. -/
def copy (data : Str) (pos : Nat) (hpos : pos < size) (h : c.pos + data.length ≤ size) :
    ChunkBuf size :=
  ⟨patch c.chunk c.pos data, pos, hpos,
    (length_patch (h.trans c.size_le)).symm ▸ c.size_le⟩

/-- `Chunker::add_data`: the rest of the data and a chunk that is filled. -/
def addData : Str × Option Str × ChunkBuf size :=
  if hpos : 0 < c.pos then
    let len := min (size - c.pos) buf.length
    have hle : c.pos + (buf.take len).length ≤ size := by
      have := c.pos_lt
      rw [length_take]
      omega
    if h : c.pos + len = size then
      let c := c.copy (buf.take len) 0 (hpos.trans c.pos_lt) hle
      (buf.drop len, some (c.chunk.take size), c)
    else (buf.drop len, none, c.copy (buf.take len) (c.pos + len) (by omega) hle)
  else if h : size ≤ buf.length then (buf.drop size, some (buf.take size), c)
  else ([], none, c.copy buf (c.pos + buf.length) (by omega) (by omega))

/-- `Chunker::get_available`. -/
def getAvailable : Str := c.chunk.take c.pos

/-- The part of the buffer that is filled. -/
def filled : Chunker size where
  chunk := c.getAvailable
  short := (length_take_le _ _).trans_lt c.pos_lt

lemma take_patch (data : Str) :
    (patch c.chunk c.pos data).take (c.pos + data.length) = c.getAvailable ++ data := by
  have hlt := c.pos_lt
  have hle := c.size_le
  refine take_left' ?_
  rw [length_append, length_take]
  omega

/-- What is filled does not depend on the other bytes of the buffer. -/
lemma filled_addData : c.filled.addData buf =
    ((c.addData buf).1, (c.addData buf).2.1, (c.addData buf).2.2.filled) := by
  have hlt := c.pos_lt
  have hlen : c.getAvailable.length = c.pos := by
    have := c.size_le
    rw [getAvailable, length_take]
    omega
  have hnil : c.getAvailable ≠ [] ↔ 0 < c.pos := by rw [← length_pos_iff, hlen]
  rw [Chunker.addData, addData]
  simp only [filled, hnil]
  by_cases hpos : 0 < c.pos
  · set len := min (size - c.pos) buf.length with hmin
    have htake : (buf.take len).length = len := by
      rw [length_take]
      omega
    have hcopy := c.take_patch (buf.take len)
    rw [htake] at hcopy
    simp only [if_pos hpos, dif_pos hpos, length_append, hlen, htake, ← hmin]
    by_cases h : c.pos + len = size
    · simp only [dif_pos h, copy, ← hcopy, h]
      rfl
    · simp only [dif_neg h, copy, getAvailable, hcopy]
  · have hzero : c.pos = 0 := by omega
    have hcopy := c.take_patch buf
    have havail : c.getAvailable = [] := by rw [getAvailable, hzero, take_zero]
    rw [havail, nil_append] at hcopy
    simp only [if_neg hpos, dif_neg hpos]
    by_cases h : size ≤ buf.length
    · simp only [dif_pos h]
    · simp only [dif_neg h, copy, getAvailable, hcopy]

/-- Each turn of the loop takes some of the data. -/
lemma length_addData_lt (h : buf ≠ []) : (c.addData buf).1.length < buf.length := by
  have hlt := (c.filled.addData_spec buf).2.2 h
  rwa [filled_addData] at hlt

/-- The loop of the encoders: the chunks that are returned. -/
def feed (c : ChunkBuf size) (buf : Str) : List Str × ChunkBuf size :=
  if h : buf = [] then ([], c)
  else
    have := c.length_addData_lt buf h
    let r := feed (c.addData buf).2.2 (c.addData buf).1
    ((c.addData buf).2.1.toList ++ r.1, r.2)
termination_by buf.length

/-- One buffer after the other. -/
def feedAll (c : ChunkBuf size) : List Str → List Str × ChunkBuf size
  | [] => ([], c)
  | buf :: bufs =>
    let r := feedAll (c.feed buf).2 bufs
    ((c.feed buf).1 ++ r.1, r.2)

/-- `Chunker::new`, with whatever is in the memory. -/
def new (uninit : Str) (h : 0 < uninit.length) : ChunkBuf uninit.length := ⟨uninit, 0, h, le_rfl⟩

lemma feed_spec (c : ChunkBuf size) (buf : Str) : (∀ f ∈ (c.feed buf).1, f.length = size) ∧
    (c.feed buf).1.flatten ++ (c.feed buf).2.getAvailable = c.getAvailable ++ buf := by
  fun_induction feed c buf with
  | case1 c => exact ⟨nofun, (append_nil _).symm⟩
  | case2 c buf hne _ r ih =>
    obtain ⟨hsplit, hfull, -⟩ := c.filled.addData_spec buf
    rw [filled_addData] at hsplit hfull
    have hout : (c.addData buf).2.1.toList.flatten = (c.addData buf).2.1.getD [] := by
      cases (c.addData buf).2.1 <;> simp
    refine ⟨fun f hf => (mem_append.mp hf).elim (fun hf => hfull f (by simpa using hf)) (ih.1 f), ?_⟩
    rw [flatten_append, append_assoc, ih.2, hout, ← append_assoc]
    exact hsplit.symm

lemma feedAll_spec (c : ChunkBuf size) (bufs : List Str) :
    (∀ f ∈ (c.feedAll bufs).1, f.length = size) ∧
      (c.feedAll bufs).1.flatten ++ (c.feedAll bufs).2.getAvailable =
        c.getAvailable ++ bufs.flatten := by
  induction bufs generalizing c with
  | nil => exact ⟨nofun, (append_nil _).symm⟩
  | cons buf bufs ih =>
    obtain ⟨hfull, hsplit⟩ := c.feed_spec buf
    obtain ⟨hfull', hsplit'⟩ := ih (c.feed buf).2
    refine ⟨fun f hf => (mem_append.mp hf).elim (hfull f) (hfull' f), ?_⟩
    rw [feedAll, flatten_append, append_assoc, hsplit', ← append_assoc, hsplit, append_assoc,
      flatten_cons]

end ChunkBuf

/-- **The chunks are full, nothing is lost**, what is left is shorter than a chunk, and each turn of
the loop takes some of the data. -/
theorem chunks_spec (uninit : Str) (h : 0 < uninit.length) (bufs : List Str) :
    let r := (ChunkBuf.new uninit h).feedAll bufs
    (∀ f ∈ r.1, f.length = uninit.length) ∧
      r.1.flatten ++ r.2.getAvailable = bufs.flatten ∧
      r.2.getAvailable.length < uninit.length ∧
      ∀ (c : ChunkBuf uninit.length) buf, buf ≠ [] → (c.addData buf).1.length < buf.length := by
  obtain ⟨hfull, hsplit⟩ := (ChunkBuf.new uninit h).feedAll_spec bufs
  exact ⟨hfull, hsplit, ChunkBuf.filled _ |>.short, ChunkBuf.length_addData_lt⟩

theorem chunks_of_two : 0 < [7, 7].length ∧
    (((ChunkBuf.new [7, 7] (by decide)).feedAll [[1], [2, 3]]).1.flatten ++
      ((ChunkBuf.new [7, 7] (by decide)).feedAll [[1], [2, 3]]).2.getAvailable = [1, 2, 3]) :=
  ⟨by decide, (chunks_spec [7, 7] (by decide) [[1], [2, 3]]).2.1⟩

end Magisk.Boot
