import Magisk.Boot.Format

/-!
# Boot image headers

The header of a boot image has one of several layouts, and the code looks at all of them through
one interface: a field that a layout does not have reads as zero, and what is stored to it is
lost.

* `HdrClass`, `ImgField`, `HdrClass.offset`: the layouts, and where their fields are;
* `ImgHdr`: a header as bytes;
* `ImgHdr.get`, `ImgHdr.set`: its fields;
* `get_set_self`, `get_set_of_ne`: what a store does to the fields;
* `SetsOnly`: only one field was stored to.
-/

namespace Magisk.Boot

open Magisk.Base Magisk.Lib

/-! ### Layouts -/

/-- The classes derived from `dyn_img_hdr`. -/
inductive HdrClass where
  | v0
  | v1
  | v2
  | pxa
  | v3
  | v4
  | vndV3
  | vndV4
  deriving DecidableEq, Repr

/-- The 32-bit fields of `dyn_img_hdr` that the code reads or stores. -/
inductive ImgField where
  | kernelSize
  | ramdiskSize
  | secondSize
  | pageSize
  | headerVersion
  | extraSize
  | recoveryDtboSize
  | headerSize
  | dtbSize
  | signatureSize
  | vendorRamdiskTableSize
  | vendorRamdiskTableEntryNum
  | vendorRamdiskTableEntrySize
  | bootconfigSize
  deriving DecidableEq, Repr

variable {c : HdrClass} {o off : Nat} {g f : ImgField}

namespace HdrClass

/-- `hdr_size`. -/
def hdrSize : HdrClass → Nat
  | v0 => 1632
  | v1 => 1648
  | v2 => 1660
  | pxa => 1640
  | v3 => 1580
  | v4 => 1584
  | vndV3 => 2112
  | vndV4 => 2128

/-- `is_vendor`. -/
def isVendor : HdrClass → Bool
  | vndV3 | vndV4 => true
  | _ => false

/-- The fields of a layout and where they are, from the start to the end. -/
def fields : HdrClass → List (ImgField × Nat)
  | v0 => [(.kernelSize, 8), (.ramdiskSize, 16), (.secondSize, 24), (.pageSize, 36),
      (.extraSize, 40)]
  | v1 => [(.kernelSize, 8), (.ramdiskSize, 16), (.secondSize, 24), (.pageSize, 36),
      (.headerVersion, 40), (.recoveryDtboSize, 1632), (.headerSize, 1644)]
  | v2 => [(.kernelSize, 8), (.ramdiskSize, 16), (.secondSize, 24), (.pageSize, 36),
      (.headerVersion, 40), (.recoveryDtboSize, 1632), (.headerSize, 1644), (.dtbSize, 1648)]
  | pxa => [(.kernelSize, 8), (.ramdiskSize, 16), (.secondSize, 24), (.extraSize, 32),
      (.pageSize, 44)]
  | v3 => [(.kernelSize, 8), (.ramdiskSize, 12), (.headerSize, 20), (.headerVersion, 40)]
  | v4 => [(.kernelSize, 8), (.ramdiskSize, 12), (.headerSize, 20), (.headerVersion, 40),
      (.signatureSize, 1580)]
  | vndV3 => [(.headerVersion, 8), (.pageSize, 12), (.ramdiskSize, 24), (.headerSize, 2096),
      (.dtbSize, 2100)]
  | vndV4 => [(.headerVersion, 8), (.pageSize, 12), (.ramdiskSize, 24), (.headerSize, 2096),
      (.dtbSize, 2100), (.vendorRamdiskTableSize, 2112), (.vendorRamdiskTableEntryNum, 2116),
      (.vendorRamdiskTableEntrySize, 2120), (.bootconfigSize, 2124)]

/-- Where a field is, if the layout has it. -/
def offset (c : HdrClass) (f : ImgField) : Option Nat := c.fields.lookup f

/-- Where `recovery_dtbo_offset` is, the one field of 64 bits. -/
def dtboOffset : HdrClass → Option Nat
  | v1 | v2 => some 1636
  | _ => none

/-- Where `id` is, which has 32 bytes. -/
def idOffset : HdrClass → Option Nat
  | v0 | v1 | v2 => some 576
  | pxa => some 584
  | _ => none

/-- What a field reads as if the layout does not have it. -/
def fixed : HdrClass → ImgField → Nat
  | v3, .pageSize | v4, .pageSize => 4096
  | _, _ => 0

lemma fixed_lt (c : HdrClass) (f : ImgField) : c.fixed f < 2 ^ 32 := by
  cases c <;> cases f <;> decide

lemma mem_fields (h : c.offset f = some o) : (f, o) ∈ c.fields := by
  obtain ⟨l₁, l₂, hsplit, -⟩ := List.lookup_eq_some_iff.mp h
  rw [hsplit]
  exact List.mem_append_right _ (.head _)

lemma offset_le (h : c.offset f = some o) : o + 4 ≤ c.hdrSize := by
  have hall : ∀ x ∈ c.fields, x.2 + 4 ≤ c.hdrSize := by cases c <;> decide
  exact hall (f, o) (mem_fields h)

lemma offset_disjoint (hf : c.offset f = some o) (hg : c.offset g = some p) (hne : f ≠ g) :
    o + 4 ≤ p ∨ p + 4 ≤ o := by
  have hsorted : c.fields.Pairwise fun x y => x.2 + 4 ≤ y.2 := by cases c <;> decide
  have : Std.Symm fun x y : ImgField × Nat => x.2 + 4 ≤ y.2 ∨ y.2 + 4 ≤ x.2 :=
    ⟨fun _ _ => Or.symm⟩
  have hpair : c.fields.Pairwise fun x y => x.2 + 4 ≤ y.2 ∨ y.2 + 4 ≤ x.2 := hsorted.imp Or.inl
  exact hpair.forall (mem_fields hf) (mem_fields hg) fun heq => hne (Prod.mk.inj heq).1

end HdrClass

/-! ### Headers -/

/-- A header of some layout: `raw` has its bytes. -/
structure ImgHdr where
  cls : HdrClass
  raw : Str
  length_raw : raw.length = cls.hdrSize

namespace ImgHdr

variable (h : ImgHdr)

/-- The value of a field. -/
def get (f : ImgField) : Nat :=
  match h.cls.offset f with
  | some o => leNat (window h.raw o 4)
  | none => h.cls.fixed f

/-- Overwrites some bytes. -/
def store (off : Nat) (data : Str) (hle : off + data.length ≤ h.cls.hdrSize) : ImgHdr where
  cls := h.cls
  raw := patch h.raw off data
  length_raw := by
    rw [length_patch (h.length_raw.symm ▸ hle), h.length_raw]

/-- Stores a value to a field, the low 32 bits of it. -/
def set (f : ImgField) (v : Nat) : ImgHdr :=
  match ho : h.cls.offset f with
  | some o => h.store o (leBytes 4 v) (by rw [length_leBytes]; exact HdrClass.offset_le ho)
  | none => h

variable {h}

lemma get_of_some (hf : h.cls.offset f = some o) :
    h.get f = leNat (window h.raw o 4) := by rw [get, hf]

lemma get_of_none (hf : h.cls.offset f = none) : h.get f = h.cls.fixed f := by
  rw [get, hf]

lemma set_of_some (hf : h.cls.offset f = some o) (v : Nat) :
    h.set f v =
      h.store o (leBytes 4 v) (by rw [length_leBytes]; exact HdrClass.offset_le hf) := by
  rw [set]
  split
  · rename_i o' ho
    cases hf.symm.trans ho
    rfl
  · rename_i ho
    cases hf.symm.trans ho

lemma set_of_none (hf : h.cls.offset f = none) (v : Nat) : h.set f v = h := by
  rw [set]
  split
  · rename_i ho
    cases hf.symm.trans ho
  · rfl

@[simp] lemma cls_set (f : ImgField) (v : Nat) : (h.set f v).cls = h.cls := by
  rw [set]
  split <;> rfl

lemma get_lt (h : ImgHdr) (f : ImgField) : h.get f < 2 ^ 32 := by
  cases hf : h.cls.offset f with
  | none =>
    rw [get_of_none hf]
    exact h.cls.fixed_lt f
  | some o =>
    rw [get_of_some hf]
    refine (leNat_lt _).trans_le ?_
    have hlen : (window h.raw o 4).length ≤ 4 := List.length_take_le _ _
    exact (Nat.pow_le_pow_right (by decide) hlen).trans (by decide)

lemma get_store (hle : off + data.length ≤ h.cls.hdrSize)
    (hd : ∀ o, h.cls.offset f = some o → o + 4 ≤ off ∨ off + data.length ≤ o) :
    (h.store off data hle).get f = h.get f := by
  cases ho : h.cls.offset f with
  | none => rw [get_of_none ho, get_of_none (h := h.store off data hle) ho, store]
  | some o =>
    rw [get_of_some ho, get_of_some (h := h.store off data hle) ho, store,
      window_patch_of_disjoint (h.length_raw.symm ▸ hle) (hd o ho)]

lemma get_set_self_mod (hf : h.cls.offset f = some o) (v : Nat) :
    (h.set f v).get f = v % 2 ^ 32 := by
  have hle := HdrClass.offset_le hf
  have hslice := window_patch_self h.raw o (leBytes 4 v)
    (by rw [h.length_raw]; exact hle)
  rw [length_leBytes] at hslice
  rw [get_of_some (h := h.set f v) (by rw [cls_set, hf]), set_of_some hf, store, hslice,
    leNat_leBytes_mod, show (256 : Nat) ^ 4 = 2 ^ 32 by decide]

lemma get_set_self (hf : h.cls.offset f = some o) (hv : v < 2 ^ 32) : (h.set f v).get f = v := by
  rw [get_set_self_mod hf, Nat.mod_eq_of_lt hv]

lemma get_set_of_ne (hne : g ≠ f) (v : Nat) : (h.set f v).get g = h.get g := by
  cases ho : h.cls.offset f with
  | none => rw [set_of_none ho]
  | some o =>
    rw [set_of_some ho]
    refine get_store _ fun p hp => ?_
    exact HdrClass.offset_disjoint hp ho hne

/-- Bytes outside of the field stay. -/
lemma window_raw_set (hd : ∀ o, h.cls.offset f = some o → off + n ≤ o ∨ o + 4 ≤ off) :
    window (h.set f v).raw off n = window h.raw off n := by
  cases ho : h.cls.offset f with
  | none => rw [set_of_none ho]
  | some o =>
    have hle := HdrClass.offset_le ho
    rw [set_of_some ho]
    refine window_patch_of_disjoint ?_ ?_
    · rw [h.length_raw]
      exact hle
    · rw [length_leBytes]
      exact hd o ho

/-- The other header was made of this one by stores to one field. -/
inductive SetsOnly (f : ImgField) (h : ImgHdr) : ImgHdr → Prop
  | refl : SetsOnly f h h
  | set {h' : ImgHdr} (v : Nat) : SetsOnly f h h' → SetsOnly f h (h'.set f v)

namespace SetsOnly

variable {h' h'' : ImgHdr}

variable (hh : SetsOnly f h h')

include hh

lemma trans (hh' : SetsOnly f h' h'') : SetsOnly f h h'' := by
  induction hh' with
  | refl => exact hh
  | set v _ ih => exact .set v ih

lemma cls : h'.cls = h.cls := by
  induction hh with
  | refl => rfl
  | set v _ ih => rw [cls_set, ih]

lemma get (hg : g ≠ f) : h'.get g = h.get g := by
  induction hh with
  | refl => rfl
  | set v _ ih => rw [get_set_of_ne hg, ih]

lemma window_raw (hd : ∀ o, h.cls.offset f = some o → off + n ≤ o ∨ o + 4 ≤ off) :
    window h'.raw off n = window h.raw off n := by
  induction hh with
  | refl => rfl
  | set v hprev ih => rw [window_raw_set (hprev.cls ▸ hd), ih]

end SetsOnly

end ImgHdr

end Magisk.Boot
