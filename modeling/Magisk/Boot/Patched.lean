import Magisk.Boot.PackedImage

/-!
# What the patches leave alone

The last part of `repack` patches the image that was written.  Each store changes the bytes at its
place and nothing else, and no store changes the length of the output but for the signature.

* `length_poke`, `window_poke`: one store;
* `ImgWriter.Grows`, `grows_writeBlocks`: what is written stays;
* `exists_of_repack`, `exists_of_patchImage`: the steps of packing that returned;
* `Spared`, `window_patchImage`: the bytes that no patch is made to.
-/

namespace Magisk.Boot

open Magisk.Base Magisk.Lib List

variable {mem out' out : Str} {boot : BootImg} {files : Files} {w w' : ImgWriter} {off : Offsets}

/-! ### Stores -/

section Poke

variable {data : Str} {off : Nat}

variable (h : poke out off data = .ok out')

include h

lemma poke_eq_ok :
    out' = patch out off (data.take (out.length - off)) := by
  rw [poke] at h
  split at h
  · exact (Except.ok.inj h).symm
  · cases h

lemma length_poke : out'.length = out.length := by
  rw [poke_eq_ok h, patch, length_append, length_append, length_take,
    length_drop, length_take]
  omega

lemma window_poke
    (hd : o + n ≤ off ∨ off + data.length ≤ o) : window out' o n = window out o n := by
  rw [poke_eq_ok h]
  rcases Nat.lt_or_ge out.length off with hlt | hle
  · have hnil : data.take (out.length - off) = [] := by
      rw [show out.length - off = 0 by omega, take_zero]
    rw [hnil, patch, append_nil, length_nil, Nat.add_zero, take_append_drop]
  · have hlen : (data.take (out.length - off)).length ≤ data.length := length_take_le' _ _
    refine window_patch_of_disjoint ?_ (by omega)
    rw [length_take]
    omega

lemma window_poke_self (hle : off + data.length ≤ out.length) :
    window out' off data.length = data := by
  rw [poke_eq_ok h, take_of_length_le (by omega)]
  exact window_patch_self _ _ _ hle

end Poke

/-! ### Writing -/

/-- What was written is kept when more is written. -/
def ImgWriter.Grows (w w' : ImgWriter) : Prop := w.out <+: w'.out

namespace ImgWriter.Grows

variable {w'' : ImgWriter}

variable (h : w.Grows w')

include h

lemma trans (h' : w'.Grows w'') : w.Grows w'' := List.IsPrefix.trans h h'

lemma le : w.out.length ≤ w'.out.length := IsPrefix.length_le h

lemma align (header page : Nat) : w.Grows (w'.align header page) :=
  h.trans (prefix_append _ _)

lemma write (b : Block) (data : Str) : w.Grows (w'.write b data) :=
  h.trans (prefix_append _ _)

lemma block (header page : Nat) (b : Block) (data : Option Str) :
    w.Grows (w'.block header page b data) := by
  cases data with
  | none => exact h
  | some data => exact (h.write b data).align header page

lemma component (header page : Nat) (b : Block) (data : Option Str) :
    w.Grows (w'.component header page b data) := by
  cases data with
  | none => exact h
  | some data =>
    have hsize : w.Grows ((w'.write b data).setSize b data.length) := h.write b data
    exact hsize.align header page

lemma writeDtbo (files : Files) (header page : Nat) :
    w.Grows (writeDtbo files header page w') := by
  rw [Boot.writeDtbo]
  split
  · exact h
  · have hoffset : w.Grows { w' with hdr := w'.hdr.setDtboOffset w'.out.length } := h
    exact hoffset.component header page .recoveryDtbo (some _)

end ImgWriter.Grows

/-- The blocks are written behind what comes before the header. -/
lemma grows_writeBlocks (h : writeBlocks compress skipComp mem boot files = .ok (w, off)) :
    off.header = u32 (preHeader mem boot).length ∧ preHeader mem boot <+: w.out := by
  obtain ⟨space, -, h⟩ := bind_eq_ok.mp h
  obtain ⟨kernel, -, h⟩ := bind_eq_ok.mp h
  obtain ⟨⟨ramdisk, table⟩, -, h⟩ := bind_eq_ok.mp h
  cases h
  let start : ImgWriter := ⟨startHdr boot files,
    preHeader mem boot ++ window mem boot.payload.data space, fun _ => []⟩
  have hstart : start.Grows (start.write .kernel kernel.1) := prefix_append _ _
  have hkernel : start.Grows ((start.write .kernel kernel.1).setSize .kernel kernel.2) := hstart
  refine ⟨rfl, (prefix_append _ (window mem boot.payload.data space)).trans ?_⟩
  exact ((((((((hkernel.align _ _).write _ _).component _ _ _ _).component _ _ _ _).component _ _ _
    _).writeDtbo _ _ _).component _ _ _ _).block _ _ _ _).block _ _ _ _ |>.component _ _ _ _

lemma grows_writeTail (mem : Str) (boot : BootImg) (mapSize : Nat) (w : ImgWriter)
    (off : Offsets) :
    w.out ++ vendorTrailer boot <+: (writeTail mem boot mapSize w off).1.out := by
  have hpadded : (w.append (vendorTrailer boot)).Grows
      ((w.append (vendorTrailer boot)).align off.header (boot.hdr.get .pageSize)) :=
    prefix_append _ _
  obtain ⟨rest, hrest⟩ := ((extends_writeVbmeta mem boot off.header _).1.trans
    (.writeZero boot mapSize _)).out
  exact hpadded.trans ⟨rest, hrest.symm⟩

/-! ### The steps of packing -/

/-- Packing that returned has written the blocks and what comes after them, and patched it. -/
lemma exists_of_repack (h : repack t mem mapSize boot files = .ok (some (w, off))) :
    ∃ w₀ off₀, writeBlocks t.compress t.skipComp mem boot files = .ok (w₀, off₀) ∧
      off = (writeTail mem boot mapSize w₀ off₀).2 ∧
      patchImage t.sha t.sign t.patchVbmeta mem boot (writeTail mem boot mapSize w₀ off₀).1 off =
        .ok w := by
  rw [repack] at h
  split at h
  · cases h
  · obtain ⟨⟨w₀, off₀⟩, hwrite, h⟩ := bind_eq_ok.mp h
    obtain ⟨w', hpatch, h⟩ := bind_eq_ok.mp h
    cases h
    exact ⟨w₀, off₀, hwrite, rfl, hpatch⟩

lemma patchMtk_frame {off : Nat} (h : patchMtk flag b off w = .ok w') :
    w'.out.length = w.out.length ∧ ∀ {o n}, (flag = true → o + n ≤ off + 4 ∨ off + 8 ≤ o) →
      window w'.out o n = window w.out o n := by
  rw [patchMtk] at h
  split at h
  · obtain ⟨out, hpoke, h⟩ := bind_eq_ok.mp h
    cases h
    refine ⟨length_poke hpoke, fun hd => window_poke hpoke ?_⟩
    exact hd ‹_›
  · cases h
    exact ⟨rfl, fun _ => rfl⟩

variable {sha : Bool → Str → Str} {patchVbmeta : Bool} {sign : Str → Str}

lemma out_patchId (h : patchId sha boot off w = .ok w') : w'.out = w.out := by
  rw [patchId] at h
  split at h
  · rw [Except.ok.inj h]
  · obtain ⟨data, -, h⟩ := bind_eq_ok.mp h
    rw [← Except.ok.inj h]

/-! ### The bytes that are left alone -/

section Frames

variable {o n : Nat}

lemma patchHdr_frame (h : patchHdr boot off w = .ok w') : w'.out.length = w.out.length ∧
    ∀ {size o n}, hdrRoom boot w'.hdr = .ok size →
      o + n ≤ hdrStart boot off ∨ hdrStart boot off + size ≤ o →
        window w'.out o n = window w.out o n := by
  obtain ⟨size', hroom', h⟩ := bind_eq_ok.mp h
  obtain ⟨out, hpoke, h⟩ := bind_eq_ok.mp h
  cases h
  refine ⟨length_poke hpoke, fun hroom hd => ?_⟩
  cases hroom.symm.trans hroom'
  have hlen := length_take_le size' w.hdr.raw
  exact window_poke hpoke (by omega)

/-- No patch of the blocks or of the header is made to a range. -/
structure BlocksSpared (boot : BootImg) (off : Offsets) (o n : Nat) : Prop where
  kernel : boot.flags.mtkKernel = true → o + n ≤ off.kernel + 4 ∨ off.kernel + 8 ≤ o
  ramdisk : boot.flags.mtkRamdisk = true → o + n ≤ off.ramdisk + 4 ∨ off.ramdisk + 8 ≤ o
  header : o + n ≤ hdrStart boot off ∨ hdrStart boot off + storedSize boot ≤ o

/-- The patches around an image that was packed, of an output that is as it was written but for the
blocks and the header. -/
lemma exists_of_patchImage (h : patchImage sha sign patchVbmeta mem boot w off = .ok w') :
    ∃ out₁ out₂ out₃, out₁.length = w.out.length ∧
      (hdrRoom boot w'.hdr = .ok (storedSize boot) → ∀ o n, BlocksSpared boot off o n →
        window out₁ o n = window w.out o n) ∧
      patchFooter patchVbmeta mem boot off out₁ = .ok out₂ ∧
      patchPreHeader sha boot off out₂ = .ok out₃ ∧
      signPayload sign boot off out₃ = .ok w'.out := by
  obtain ⟨w₁, h₁, h⟩ := bind_eq_ok.mp h
  obtain ⟨w₂, h₂, h⟩ := bind_eq_ok.mp h
  obtain ⟨w₃, h₃, h⟩ := bind_eq_ok.mp h
  obtain ⟨w₄, h₄, h⟩ := bind_eq_ok.mp h
  obtain ⟨out₂, h₅, h⟩ := bind_eq_ok.mp h
  obtain ⟨out₃, h₆, h⟩ := bind_eq_ok.mp h
  obtain ⟨out₄, h₇, h⟩ := bind_eq_ok.mp h
  cases h
  have hw₃ := out_patchId h₃
  refine ⟨w₄.out, out₂, out₃, ?_, fun hroom o n hs => ?_, h₅, h₆, h₇⟩
  · rw [(patchHdr_frame h₄).1, hw₃]
    exact (patchMtk_frame h₂).1.trans (patchMtk_frame h₁).1
  · rw [(patchHdr_frame h₄).2 hroom hs.header, hw₃]
    exact ((patchMtk_frame h₂).2 hs.ramdisk).trans ((patchMtk_frame h₁).2 hs.kernel)

/-- The footer is stored, and then the flags of the header that it points to. -/
lemma patchFooter_frame (h : patchFooter patchVbmeta mem boot off out = .ok out') :
    out'.length = out.length ∧ ∀ {o n},
      (boot.flags.avb = true → o + n ≤ out.length - avbFooterSz) →
      (boot.flags.avb = true → patchVbmeta = true → o + n ≤ off.vbmeta + 120 ∨
        off.vbmeta + 124 ≤ o) → window out' o n = window out o n := by
  rw [patchFooter] at h
  split at h
  · rename_i havb
    obtain ⟨place, hplace, h⟩ := bind_eq_ok.mp h
    obtain ⟨out₁, hpoke, h⟩ := bind_eq_ok.mp h
    obtain ⟨-, hplace⟩ := sub_eq_ok.mp hplace
    rw [hplace] at hpoke
    have hlen := length_poke hpoke
    have hout₁ := fun {o n} hle => window_poke hpoke (o := o) (n := n) (.inl hle)
    split at h
    · refine ⟨(length_poke h).trans hlen, fun hfooter hvbmeta => ?_⟩
      rw [window_poke h (by rw [length_beBytes]; exact hvbmeta havb ‹_›), hout₁ (hfooter havb)]
    · cases h
      exact ⟨hlen, fun hfooter _ => hout₁ (hfooter havb)⟩
  · cases h
    exact ⟨rfl, fun _ _ => rfl⟩

/-- Size and checksum are stored to a DHTB header, or the size to a blob header. -/
lemma patchPreHeader_frame (h : patchPreHeader sha boot off out = .ok out') :
    out'.length = out.length ∧ ∀ {o n}, (boot.flags.dhtb = true → o + n ≤ 8 ∨ 52 ≤ o) →
      (boot.flags.blob = true → o + n ≤ 96 ∨ 100 ≤ o) → window out' o n = window out o n := by
  rw [patchPreHeader] at h
  split at h
  · rename_i hflag
    obtain ⟨out₁, hsize, h⟩ := bind_eq_ok.mp h
    obtain ⟨data, -, h⟩ := bind_eq_ok.mp h
    refine ⟨(length_poke h).trans (length_poke hsize), fun hdhtb _ => ?_⟩
    have hd := hdhtb hflag
    rw [window_poke h (by rw [length_fitText]; omega),
      window_poke hsize (by rw [length_leBytes]; omega)]
  · split at h
    · refine ⟨length_poke h, fun _ hblob => ?_⟩
      have hd := hblob ‹_›
      exact window_poke h (by rw [length_leBytes]; omega)
    · cases h
      exact ⟨rfl, fun _ _ => rfl⟩

/-- A signature does not change what is before it, nor what is behind its end. -/
lemma window_signPayload (h : signPayload sign boot off out = .ok out')
    (hd : boot.flags.avb1Signed = true → off.tail ≤ out.length ∧
      (o + n ≤ off.tail ∨ ∀ data, off.tail + (sign data).length ≤ o)) :
    window out' o n = window out o n := by
  rw [signPayload] at h
  split at h
  · obtain ⟨payload, -, h⟩ := bind_eq_ok.mp h
    obtain ⟨htail, hbefore | hafter⟩ := hd ‹_›
    · rw [← Except.ok.inj h]
      exact window_patch_of_before _ htail hbefore
    · have hle := hafter payload
      rw [← Except.ok.inj h]
      rcases Nat.le_total (off.tail + (sign payload).length) out.length with hin | hout
      · exact window_patch_of_disjoint hin (.inr hle)
      · have hpatch : (patch out off.tail (sign payload)).length =
            off.tail + (sign payload).length := by
          rw [patch, length_append, length_append, length_take, length_drop]
          omega
        rw [window, window, drop_of_length_le (hpatch.trans_le hle),
          drop_of_length_le (hout.trans hle)]
  · rw [Except.ok.inj h]

/-- No patch of an output with `len` bytes is made to a range. -/
structure Spared (sign : Str → Str) (patchVbmeta : Bool) (boot : BootImg) (off : Offsets)
    (len o n : Nat) : Prop where
  blocks : BlocksSpared boot off o n
  footer : boot.flags.avb = true → o + n ≤ len - avbFooterSz
  vbmeta : boot.flags.avb = true → patchVbmeta = true →
    o + n ≤ off.vbmeta + 120 ∨ off.vbmeta + 124 ≤ o
  dhtb : boot.flags.dhtb = true → o + n ≤ 8 ∨ 52 ≤ o
  blob : boot.flags.blob = true → o + n ≤ 96 ∨ 100 ≤ o
  signature : boot.flags.avb1Signed = true → off.tail ≤ len ∧
    (o + n ≤ off.tail ∨ ∀ data, off.tail + (sign data).length ≤ o)

/-- **What is spared is as it was written.** -/
lemma window_patchImage (h : patchImage sha sign patchVbmeta mem boot w off = .ok w')
    (hroom : hdrRoom boot w'.hdr = .ok (storedSize boot))
    (hs : Spared sign patchVbmeta boot off w.out.length o n) :
    window w'.out o n = window w.out o n := by
  obtain ⟨out₁, out₂, out₃, hlen₁, hframe, hfooter, hpre, hsign⟩ := exists_of_patchImage h
  obtain ⟨hlen₂, hframe₂⟩ := patchFooter_frame hfooter
  obtain ⟨hlen₃, hframe₃⟩ := patchPreHeader_frame hpre
  rw [← hlen₁] at hs
  have hsigned := hs.signature
  rw [← hlen₂, ← hlen₃] at hsigned
  rw [window_signPayload hsign hsigned, hframe₃ hs.dhtb hs.blob, hframe₂ hs.footer hs.vbmeta,
    hframe hroom _ _ hs.blocks]

end Frames

end Magisk.Boot
