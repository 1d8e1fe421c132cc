import Magisk.Boot.RepackWalk

/-!
# The kernel of a zImage

A new kernel for a zImage goes to the place of the old one, between the header and the tail of the
zImage, and the place must not change its size.

* `newKernel`: the data that is written for a file;
* `kernelContent_some`: what becomes of it in a zImage;
* `InPiggy`: the section has its old size, with the old kernel or with the new one, zeros and the
  size of the file;
* `kernelBlock_inPiggy_iff`: when it does.
-/

namespace Magisk.Boot

open Magisk.Base Magisk.Lib List

section NewKernel

variable (compress : FileFormat → Str → Str) (skipComp : Bool)
variable (mem : Str) (boot : BootImg) (files : Files)

/-- What is written for a file: the file, or its compressed data. -/
def newKernel (m : Str) : Str :=
  recompress compress skipComp boot.kFmt
    (if boot.flags.zimageKernel && boot.kFmt == .gzip then .zopfli else boot.kFmt) m

/-- What stands between the header and the tail has the size of the old kernel.  It is the old
kernel, or the new one with zeros and the size of the file after it. -/
structure InPiggy (piggy : Str) : Prop where
  length : piggy.length = boot.size .kernel
  content : piggy = boot.bytes mem .kernel ∨
    ∃ m gap, files.kernel = some m ∧
      piggy = newKernel compress skipComp boot m ++ List.replicate gap 0 ++ leBytes 4 m.length

/-- A file whose data leaves room for the size word, is larger than the place for it, or is the old
kernel and not to be compressed. -/
def FitsPiggy (m : Str) : Prop :=
  (boot.size .kernel < (newKernel compress skipComp boot m).length ∧
      (newKernel compress skipComp boot m).length < 2 ^ 32) ∨
    (skipComp = false ∧
      (newKernel compress skipComp boot m).length + 4 ≤ boot.size .kernel) ∨
    (skipComp = true ∧ newKernel compress skipComp boot m = boot.bytes mem .kernel)

end NewKernel

variable {compress : FileFormat → Str → Str} {skipComp : Bool}
variable {mem : Str} {boot : BootImg} {files : Files}

lemma kernelContent_some (hz : boot.flags.zimageKernel = true) (hm : files.kernel = some m) :
    kernelContent compress skipComp mem boot files =
      let data := newKernel compress skipComp boot m
      if boot.size .kernel < u32 data.length then
        .ok (data.take (data.length - u32 data.length) ++ boot.bytes mem .kernel,
          boot.size .kernel)
      else if !skipComp then do
        let gap ← sub (boot.size .kernel - u32 data.length) 4
        .ok (data ++ List.replicate gap 0 ++ leBytes 4 m.length, boot.size .kernel)
      else .ok (data, boot.size .kernel) := by
  simp [kernelContent, hm, newKernel, hz]

lemma exists_kernelContent_of_kernelBlock (h : kernelBlock compress skipComp mem boot files =
      .ok (kernelData mem boot files piggy, size)) :
    ∃ n, kernelContent compress skipComp mem boot files = .ok (piggy, n) := by
  obtain ⟨⟨data, n⟩, hcontent, h⟩ := bind_eq_ok.mp h
  have hdata := (Prod.mk.inj (Except.ok.inj h)).1
  rw [kernelData, append_cancel_right_eq, append_cancel_right_eq,
    append_cancel_left_eq] at hdata
  exact ⟨n, hdata ▸ hcontent⟩

section

variable (hz : boot.flags.zimageKernel = true)
  (hold : (boot.bytes mem .kernel).length = boot.size .kernel)

include hz hold

/-- A file that fits leads to a section of the old size. -/
lemma exists_inPiggy_of_fits
    (hm : files.kernel = some m) (hfits : FitsPiggy compress skipComp mem boot m) :
    ∃ piggy n, kernelContent compress skipComp mem boot files = .ok (piggy, n) ∧
      InPiggy compress skipComp mem boot files piggy := by
  have hlt := boot.size_lt .kernel
  rw [kernelContent_some hz hm]
  dsimp only
  generalize hdata : newKernel compress skipComp boot m = data
  rw [FitsPiggy, hdata] at hfits
  rcases hfits with ⟨hlarge, hsmall⟩ | ⟨hskip, hroom⟩ | ⟨hskip, heq⟩
  · have hu32 : u32 data.length = data.length := Nat.mod_eq_of_lt hsmall
    rw [hu32, if_pos hlarge, Nat.sub_self]
    exact ⟨_, _, rfl, hold, .inl rfl⟩
  · have hu32 : u32 data.length = data.length := Nat.mod_eq_of_lt (by omega)
    have hgap : sub (boot.size .kernel - data.length) 4 =
        .ok (boot.size .kernel - data.length - 4) := if_pos (by omega)
    rw [hu32, if_neg (by omega), hskip, hgap]
    refine ⟨_, _, rfl, ?_, .inr ⟨m, _, hm, by rw [← hdata, hskip]⟩⟩
    rw [length_append, length_append, length_replicate, length_leBytes]
    omega
  · have hlen : data.length = boot.size .kernel := by rw [heq, hold]
    have hu32 : u32 data.length = data.length := Nat.mod_eq_of_lt (by omega)
    rw [if_neg (by omega), hskip]
    exact ⟨_, _, rfl, hlen, .inl heq⟩

/-- A section of the old size comes from a file that fits. -/
lemma fits_of_inPiggy (hm : files.kernel = some m)
    (hcontent : kernelContent compress skipComp mem boot files = .ok (piggy, n))
    (h : InPiggy compress skipComp mem boot files piggy) :
    FitsPiggy compress skipComp mem boot m := by
  have hlength := h.length
  have hcases := h.content
  rw [kernelContent_some hz hm] at hcontent
  dsimp only at hcontent
  rw [FitsPiggy]
  generalize hdata : newKernel compress skipComp boot m = data at hcontent ⊢
  have hmod : u32 data.length ≤ data.length := Nat.mod_le _ _
  split at hcontent
  · -- what is left of the new kernel is in front of the old one
    obtain ⟨rfl, -⟩ := Prod.mk.inj (Except.ok.inj hcontent)
    rw [length_append, length_take] at hlength
    have hu32 : u32 data.length = data.length := by omega
    have hsmall : data.length < 2 ^ 32 := hu32 ▸ Nat.mod_lt _ (by decide)
    exact .inl ⟨by omega, hsmall⟩
  · split at hcontent
    · rename_i hskip
      obtain ⟨gap, hgap, hcontent⟩ := bind_eq_ok.mp hcontent
      obtain ⟨rfl, -⟩ := Prod.mk.inj (Except.ok.inj hcontent)
      rw [length_append, length_append, length_leBytes] at hlength
      exact .inr (.inl ⟨by simpa using hskip, by omega⟩)
    · rename_i hskip
      obtain ⟨rfl, -⟩ := Prod.mk.inj (Except.ok.inj hcontent)
      refine .inr (.inr ⟨by simpa using hskip, ?_⟩)
      rcases hcases with heq | ⟨m', gap, hm', heq⟩
      · exact heq
      · -- with the size word it would be longer than itself
        cases hm.symm.trans hm'
        have hlen := congrArg List.length heq
        rw [hdata, length_append, length_append, length_leBytes] at hlen
        omega

end

/-- **When the section of the kernel keeps its size.**  It does if there is no file for the kernel.
A file must leave room for the size word, or be too large altogether; with `skip_comp` a file that
is not larger must be the old kernel. -/
theorem kernelBlock_inPiggy_iff (hz : boot.flags.zimageKernel = true)
    (hold : boot.ptr .kernel + boot.size .kernel ≤ mem.length) :
    (∃ piggy size, kernelBlock compress skipComp mem boot files =
        .ok (kernelData mem boot files piggy, size) ∧
      InPiggy compress skipComp mem boot files piggy) ↔
    ∀ m, files.kernel = some m → FitsPiggy compress skipComp mem boot m := by
  have hbytes : (boot.bytes mem .kernel).length = boot.size .kernel := length_window hold
  constructor
  · rintro ⟨piggy, size, hblock, hpiggy⟩ m hm
    obtain ⟨n, hcontent⟩ := exists_kernelContent_of_kernelBlock hblock
    exact fits_of_inPiggy hz hbytes hm hcontent hpiggy
  · intro hfits
    have hcontent : ∃ piggy n, kernelContent compress skipComp mem boot files = .ok (piggy, n) ∧
        InPiggy compress skipComp mem boot files piggy := by
      cases hfile : files.kernel with
      | none => exact ⟨_, _, by rw [kernelContent, hfile], hbytes, .inl rfl⟩
      | some m => exact exists_inPiggy_of_fits hz hbytes hfile (hfits m hfile)
    obtain ⟨piggy, n, hcontent, hpiggy⟩ := hcontent
    exact ⟨piggy, _, bind_eq_ok.mpr ⟨_, hcontent, rfl⟩, hpiggy⟩

lemma length_sampleZimage : (List.replicate 1640 (0 : UInt8)).length = HdrClass.pxa.hdrSize :=
  length_replicate

/-- A zImage with a kernel of eight bytes, at the start of the mapping. -/
def sampleZimage : BootImg where
  hdr := (⟨.pxa, List.replicate 1640 0, length_sampleZimage⟩ : ImgHdr).set .kernelSize 8
  flags := { zimageKernel := true }
  payload := {}
  tail := {}
  ptr _ := 0

lemma size_sampleZimage : sampleZimage.size .kernel = 8 := by
  have hget := ImgHdr.get_set_self (f := .kernelSize) (v := 8)
    (h := ⟨.pxa, List.replicate 1640 0, length_replicate⟩) rfl (by decide)
  exact hget

/-- A new kernel of four bytes. -/
theorem inPiggy_four : ∃ piggy size,
    kernelBlock (fun _ data => data) false (List.replicate 8 7) sampleZimage
      { kernel := some [1, 2, 3, 4] } =
        .ok (kernelData (List.replicate 8 7) sampleZimage { kernel := some [1, 2, 3, 4] } piggy,
          size) ∧
      InPiggy (fun _ data => data) false (List.replicate 8 7) sampleZimage
        { kernel := some [1, 2, 3, 4] } piggy := by
  refine (kernelBlock_inPiggy_iff rfl (by rw [size_sampleZimage]; decide)).mpr fun m hm => ?_
  cases hm
  refine .inr (.inl ⟨rfl, ?_⟩)
  decide

/-- A new kernel of six bytes leaves no room for the size word: the length of the padding wraps
around. -/
theorem kernelBlock_six :
    kernelBlock (fun _ data => data) false (List.replicate 8 7) sampleZimage
      { kernel := some [1, 2, 3, 4, 5, 6] } = .error .wrap := by
  rfl

end Magisk.Boot
