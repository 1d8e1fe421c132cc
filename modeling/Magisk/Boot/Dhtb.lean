import Magisk.Boot.SmallImage

/-!
# The header of a DHTB image

`repack` stores the size of the image and its checksum to a DHTB header.  The size is taken at a
position behind the trailers, and the trailers are added to it once more.

* `DhtbConsistent`: size and checksum are those of what is between the header and a position;
* `u32At_dhtb`: the size that is stored;
* `not_dhtbConsistent`: it is never that of the image with its trailers.
-/

namespace Magisk.Boot

open Magisk.Base Magisk.Lib List

/-- The size and the checksum in a DHTB header are those of the bytes behind it up to `stop`, which
are in the file. -/
structure DhtbConsistent (sha : Bool → Str → Str) (out : Str) (stop : Nat) : Prop where
  size : u32At out 48 = stop - dhtbHdrSz
  checksum : window out 8 32 = fitText 32 (sha false (window out dhtbHdrSz (stop - dhtbHdrSz)))
  inside : stop ≤ out.length

variable {mem : Str} {boot : BootImg} {files : Files}

lemma u32At_patchPreHeader (hdhtb : boot.flags.dhtb = true) (hlen : dhtbHdrSz ≤ out.length)
    (h : patchPreHeader sha boot off out = .ok out') :
    out'.length = out.length ∧ window out' 48 4 = leBytes 4 (u32 (aospImgSize off + 16 + 4)) := by
  rw [dhtbHdrSz] at hlen
  rw [patchPreHeader, if_pos hdhtb] at h
  obtain ⟨out₁, hsize, h⟩ := bind_eq_ok.mp h
  obtain ⟨data, -, hsum⟩ := bind_eq_ok.mp h
  have hself := window_poke_self hsize (by rw [length_leBytes]; omega)
  rw [length_leBytes] at hself
  refine ⟨(length_poke hsum).trans (length_poke hsize), ?_⟩
  rw [window_poke hsum (.inr (by rw [length_fitText]; decide)), hself]

/-- **The size that is stored** counts the trailers twice. -/
lemma u32At_dhtb (hdhtb : boot.flags.dhtb = true) (hmem : dhtbHdrSz ≤ mem.length)
    (hwrite : writeBlocks t.compress t.skipComp mem boot files = .ok (w₀, off₀))
    (hrepack : repack t mem mapSize boot files = .ok (some (w, off)))
    (hsigned : boot.flags.avb1Signed = true → (w₀.out ++ vendorTrailer boot).length < 2 ^ 32) :
    dhtbHdrSz ≤ (w₀.out ++ vendorTrailer boot).length ∧
      u32At w.out 48 = ((w₀.out ++ vendorTrailer boot).length - dhtbHdrSz + 20) % 2 ^ 32 := by
  obtain ⟨w₀', off₀', hwrite', rfl, hpatch⟩ := exists_of_repack hrepack
  cases hwrite.symm.trans hwrite'
  obtain ⟨out₁, out₂, out₃, hlen₁, -, hfooter, hpre, hsign⟩ := exists_of_patchImage hpatch
  obtain ⟨hheader, hstart⟩ := grows_writeBlocks hwrite
  have hpreHeader : (preHeader mem boot).length = dhtbHdrSz := by
    rw [preHeader, hdhtb]
    exact length_window (by omega)
  have hstop : dhtbHdrSz ≤ (w₀.out ++ vendorTrailer boot).length := by
    have hle := hstart.length_le
    rw [length_append]
    omega
  have hle := (grows_writeTail mem boot mapSize w₀ off₀).length_le
  have hlen₂ : out₂.length = (writeTail mem boot mapSize w₀ off₀).1.out.length :=
    (patchFooter_frame hfooter).1.trans hlen₁
  obtain ⟨hlen₃, hsize⟩ := u32At_patchPreHeader hdhtb (by omega) hpre
  generalize hs : (w₀.out ++ vendorTrailer boot).length = stop at hsigned hstop hle ⊢
  have htail : (writeTail mem boot mapSize w₀ off₀).2.tail = u32 stop := by
    rw [← hs]
    rfl
  have hoff : (writeTail mem boot mapSize w₀ off₀).2.header = dhtbHdrSz := by
    change off₀.header = _
    rw [hheader, hpreHeader]
    rfl
  have hwindow : window w.out 48 4 = window out₃ 48 4 := by
    refine window_signPayload hsign fun hflag => ?_
    have hlt := hsigned hflag
    rw [dhtbHdrSz] at hstop
    rw [htail, u32]
    omega
  rw [u32At, hwindow, hsize, leNat_leBytes_mod, aospImgSize, htail, hoff]
  rw [dhtbHdrSz] at hstop ⊢
  simp only [u32]
  omega

/-- **The DHTB header of a packed image is wrong.**  Its size is never that of the image with its
trailers, in whatever way the image is packed. -/
theorem not_dhtbConsistent (t : Tools) (mem : Str) (mapSize : Nat) (boot : BootImg) (files : Files)
    (hdhtb : boot.flags.dhtb = true) (hmem : dhtbHdrSz ≤ mem.length) :
    ¬∃ w₀ off₀ w off, writeBlocks t.compress t.skipComp mem boot files = .ok (w₀, off₀) ∧
      repack t mem mapSize boot files = .ok (some (w, off)) ∧
      (boot.flags.avb1Signed = true → (w₀.out ++ vendorTrailer boot).length < 2 ^ 32) ∧
      DhtbConsistent t.sha w.out (w₀.out ++ vendorTrailer boot).length := by
  rintro ⟨w₀, off₀, w, off, hwrite, hrepack, hsigned, hconsistent⟩
  obtain ⟨hstop, hsize⟩ := u32At_dhtb hdhtb hmem hwrite hrepack hsigned
  have heq := hconsistent.size
  omega

/-! ### An image -/

/-- A small image behind a DHTB header. -/
def dhtbImage : Str := dhtbMagic ++ List.replicate 504 0 ++ smallImage

/-- What it is parsed as. -/
def dhtbBoot : BootImg :=
  .ofHdr (mapped dhtbImage) dhtbHdrSz smallHdr { dhtb := true, seandroid := true }

lemma flags_dhtbBoot : dhtbBoot.flags = { dhtb := true, seandroid := true } :=
  flags_ofHdr hasSha256_smallHdr

lemma length_dhtbImage : dhtbImage.length = 3792 := by
  rw [dhtbImage, length_append, length_smallImage, length_append, length_replicate]
  rfl

lemma length_mapped_dhtbImage : (mapped dhtbImage).length = 4096 := by
  rw [length_mapped, length_dhtbImage]
  decide

lemma window_dhtbImage : window (mapped dhtbImage) dhtbHdrSz 3280 = smallImage := by
  have hpre : (dhtbMagic ++ List.replicate 504 0).length = dhtbHdrSz := by
    rw [length_append, length_replicate]
    rfl
  rw [window_mapped (by rw [length_dhtbImage]; decide), dhtbImage,
    window_append_right (by omega), hpre, Nat.sub_self, ← length_smallImage, window_length]

lemma bootImg_dhtbImage : bootImg (fun _ _ => false) dhtbImage = .ok (some dhtbBoot) := by
  have hlen := length_mapped_dhtbImage
  have htail : dhtbBoot.tail = ⟨3792, 240 + 64⟩ := by
    rw [dhtbBoot, (payload_small _).2.1, hlen]
    rfl
  have hparse : ∀ img : BootImg, img.tail = ⟨3792, 240 + 64⟩ →
      parseTail (mapped dhtbImage) (fun _ _ => false) img = .ok img := fun img htail =>
    parseTail_zeros false htail length_dhtbImage.le hlen.symm
  exact bootImg_small_dhtb (by rw [length_dhtbImage]; decide) rfl window_dhtbImage (hparse _ htail)

/-- What is packed of the image. -/
lemma repack_dhtbImage : ∃ w₀ off₀ w off,
    writeBlocks sampleTools.compress sampleTools.skipComp (mapped dhtbImage) dhtbBoot {} =
      .ok (w₀, off₀) ∧
    repack sampleTools (mapped dhtbImage) dhtbImage.length dhtbBoot {} = .ok (some (w, off)) := by
  have hr := ready_of_bootImg bootImg_dhtbImage
  have hflags := flags_dhtbBoot
  have hp : Repackable sampleTools (mapped dhtbImage) dhtbImage.length dhtbBoot {} := by
    refine repackable_small rfl hr rfl (by rw [hflags]; exact ⟨rfl, rfl⟩) (by rw [hflags])
      (by rw [hflags]) (by rw [hflags]; nofun) ⟨?_, by rw [hflags]; nofun⟩
    rw [length_dhtbImage]
    decide
  obtain ⟨ramdisk, table, w, off, hrepack, -⟩ := repack_eq rfl hr hp
  obtain ⟨w₀, off₀, hwrite, -⟩ := exists_of_repack hrepack
  exact ⟨w₀, off₀, w, off, hwrite, hrepack⟩

/-- The image is accepted and packed, and the size in its DHTB header is too large by 20. -/
theorem dhtb_size_dhtbImage :
    bootImg (fun _ _ => false) dhtbImage = .ok (some dhtbBoot) ∧ dhtbBoot.flags.dhtb = true ∧
    ∃ w₀ off₀ w off,
      writeBlocks sampleTools.compress sampleTools.skipComp (mapped dhtbImage) dhtbBoot {} =
        .ok (w₀, off₀) ∧
      repack sampleTools (mapped dhtbImage) dhtbImage.length dhtbBoot {} = .ok (some (w, off)) ∧
      u32At w.out 48 =
        ((w₀.out ++ vendorTrailer dhtbBoot).length - dhtbHdrSz + 20) % 2 ^ 32 := by
  have hdhtb : dhtbBoot.flags.dhtb = true := by rw [flags_dhtbBoot]
  obtain ⟨w₀, off₀, w, off, hwrite, hrepack⟩ := repack_dhtbImage
  have hmem : dhtbHdrSz ≤ (mapped dhtbImage).length := by
    rw [length_mapped_dhtbImage]
    decide
  refine ⟨bootImg_dhtbImage, hdhtb, w₀, off₀, w, off, hwrite, hrepack, ?_⟩
  exact (u32At_dhtb hdhtb hmem hwrite hrepack (by rw [flags_dhtbBoot]; nofun)).2

/-- Packing the image leaves it with a wrong header. -/
theorem not_dhtbConsistent_dhtbImage :
    ¬∃ w₀ off₀ w off,
      writeBlocks sampleTools.compress sampleTools.skipComp (mapped dhtbImage) dhtbBoot {} =
        .ok (w₀, off₀) ∧
      repack sampleTools (mapped dhtbImage) dhtbImage.length dhtbBoot {} = .ok (some (w, off)) ∧
      (dhtbBoot.flags.avb1Signed = true →
        (w₀.out ++ vendorTrailer dhtbBoot).length < 2 ^ 32) ∧
      DhtbConsistent sampleTools.sha w.out (w₀.out ++ vendorTrailer dhtbBoot).length := by
  refine not_dhtbConsistent sampleTools _ _ _ _ (by rw [flags_dhtbBoot]) ?_
  rw [length_mapped_dhtbImage]
  decide

end Magisk.Boot
