import Magisk.Base.Str
import Mathlib.Tactic

/-!
# Persistent properties

The persistent properties are kept in one protobuf file.  `proto_write_props` writes a new file
through a buffer, and then it takes the place of the old one.

* `BufWriter`, `protoWriteProps`: the writer with its buffer, and the file taking its place;
* `protoWriteProps_iff`: when a write that fails does not leave a truncated file.
-/

namespace Magisk.Core.Resetprop

open Magisk.Base List

/-! ### The writer -/

/-- A `BufWriter`: what it has written to the file, and what it still keeps. -/
structure BufWriter where
  file : Str
  buf : Str

/-- The capacity of the buffer. -/
def bufCapacity : Nat := 8192

/-- How the new file can fail: no temporary file, a write of more than `limit` bytes, or one of the
calls that follow. -/
structure Disk where
  mkstemp : Bool
  limit : Nat
  cloneAttr : Bool
  rename : Bool

namespace BufWriter

/-- A write to the file. -/
def write (limit : Nat) (w : BufWriter) (data : Str) : Option BufWriter :=
  if (w.file ++ data).length ≤ limit then some { w with file := w.file ++ data } else none

/-- `flush_buf`. -/
def flushBuf (limit : Nat) (w : BufWriter) : Option BufWriter :=
  (w.write limit w.buf).map ({ · with buf := [] })

/-- `write_all`: data that does not fit empties the buffer, and data that would fill it is not
buffered at all. -/
def writeAll (limit : Nat) (w : BufWriter) (data : Str) : Option BufWriter := do
  let w ← if bufCapacity - w.buf.length < data.length then w.flushBuf limit else some w
  if bufCapacity ≤ data.length then w.write limit data
  else some { w with buf := w.buf ++ data }

/-- The writer after some data, if no write fails. -/
def push (w : BufWriter) (data : Str) : BufWriter :=
  let w := if bufCapacity - w.buf.length < data.length then ⟨w.file ++ w.buf, []⟩ else w
  if bufCapacity ≤ data.length then { w with file := w.file ++ data }
  else { w with buf := w.buf ++ data }

end BufWriter

/-- `proto_write_props`, for the pieces in which the properties are written: whether it succeeds,
and the property file.  The buffer is written when it is dropped, whether that fails or not. -/
def protoWriteProps (d : Disk) (pieces : List Str) (old : Str) : Bool × Str :=
  if d.mkstemp then
    match pieces.foldlM (BufWriter.writeAll d.limit) ⟨[], []⟩ with
    | none => (false, old)
    | some w =>
      if d.cloneAttr && d.rename then (true, (w.file ++ w.buf).take d.limit) else (false, old)
  else (false, old)

namespace BufWriter

variable {limit : Nat} {w : BufWriter} {data : Str}

lemma prefix_foldl_push (w : BufWriter) (pieces : List Str) :
    w.file <+: (pieces.foldl push w).file := by
  induction pieces generalizing w with
  | nil => exact prefix_rfl
  | cons data pieces ih =>
    refine IsPrefix.trans ?_ (ih _)
    unfold push
    split_ifs <;> simp

/-- Nothing is lost as long as no write fails. -/
lemma foldl_push_eq (w : BufWriter) (pieces : List Str) :
    (pieces.foldl push w).file ++ (pieces.foldl push w).buf =
      w.file ++ w.buf ++ pieces.flatten := by
  induction pieces generalizing w with
  | nil => simp
  | cons data pieces ih =>
    have hpush : (w.push data).file ++ (w.push data).buf = w.file ++ w.buf ++ data := by
      unfold push
      split_ifs
      · simp
      · simp
      · -- the buffer is empty, since the data fills it
        have hnil : w.buf = [] := length_eq_zero_iff.mp (by unfold bufCapacity at *; omega)
        simp [hnil]
      · simp
    rw [foldl_cons, ih, hpush, flatten_cons, append_assoc]

/-- The data is accepted just if what is written of it before the end fits. -/
lemma foldlM_writeAll (h : w.file.length ≤ limit) (pieces : List Str) :
    pieces.foldlM (writeAll limit) w =
      if (pieces.foldl push w).file.length ≤ limit then some (pieces.foldl push w) else none := by
  induction pieces generalizing w with
  | nil => rw [foldl_nil, if_pos h]; rfl
  | cons data pieces ih =>
    have hstep : w.writeAll limit data =
        if (w.push data).file.length ≤ limit then some (w.push data) else none := by
      unfold writeAll push flushBuf write
      split_ifs <;> simp_all <;> omega
    have hle := (prefix_foldl_push (w.push data) pieces).length_le
    rw [foldlM_cons, foldl_cons, hstep]
    split_ifs with hfits hlast
    · exact (ih hfits).trans (if_pos hlast)
    · exact (ih hfits).trans (if_neg hlast)
    · omega
    · rfl

end BufWriter

/-- **When the property file is not replaced by a truncated one**: no write fails, or one fails
before the buffer is dropped, or one of the other calls fails. -/
theorem protoWriteProps_iff (d : Disk) (pieces : List Str) (old : Str) :
    (protoWriteProps d pieces old = (false, old) ∨
      protoWriteProps d pieces old = (true, pieces.flatten)) ↔
    pieces.flatten.length ≤ d.limit ∨ d.limit < (pieces.foldl BufWriter.push ⟨[], []⟩).file.length ∨
      d.mkstemp = false ∨ d.cloneAttr = false ∨ d.rename = false := by
  rw [protoWriteProps, BufWriter.foldlM_writeAll (Nat.zero_le _)]
  have hall := BufWriter.foldl_push_eq ⟨[], []⟩ pieces
  generalize pieces.foldl BufWriter.push ⟨[], []⟩ = w at hall ⊢
  by_cases hw : w.file.length ≤ d.limit
  · rw [if_pos hw]
    simp only [hall]
    split_ifs with hfile hcalls
    · obtain ⟨hattr, hrename⟩ := Bool.and_eq_true_iff.mp hcalls
      simp [hfile, hattr, hrename, Nat.not_lt.mpr hw]
    · cases hattr : d.cloneAttr <;> simp_all
    · simp [hfile]
  · rw [if_neg hw]
    simp [Nat.lt_of_not_le hw]

/-- The only byte of the new file is lost. -/
theorem protoWriteProps_truncated :
    protoWriteProps ⟨true, 0, true, true⟩ [[1]] [2] = (true, []) := by decide

end Magisk.Core.Resetprop
