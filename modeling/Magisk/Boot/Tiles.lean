import Magisk.Boot.ImgBounds
import Magisk.Boot.Repack

/-!
# What parsing takes a block apart into

The kernel of an image is taken apart into the header of a MediaTek block, the header of a zImage,
the compressed kernel, the tail of the zImage and a device tree.  The parts follow each other from
the start of the block to its end, and so do those of the ramdisk.

* `Tiled`: parts that follow each other;
* `kernelParts`, `ramdiskParts`: the parts of the two blocks;
* `Taken`: what holds of an image that was accepted;
* `taken_of_parseBlocks`: it does.
-/

namespace Magisk.Boot

open Magisk.Base Magisk.Lib

variable {mem : Str} {img : BootImg}

/-! ### Parts that follow each other -/

/-- The parts follow each other from one position to another.  It does not matter where an empty
part is. -/
def Tiled : Nat → List ByteView → Nat → Prop
  | start, [], stop => start = stop
  | start, v :: vs, stop => (v.size = 0 ∨ v.data = start) ∧ Tiled (start + v.size) vs stop

variable {start stop addr : Nat} {vs : List ByteView} {img' boot : BootImg} {type : FileFormat}
  {flags flags' : Flags}

lemma Tiled.le (h : Tiled start vs stop) : start ≤ stop := by
  induction vs generalizing start with
  | nil => exact Nat.le_of_eq h
  | cons v vs ih =>
    have := ih h.2
    omega

/-- Together they have all the bytes in between. -/
lemma Tiled.bytes (h : Tiled start vs stop) :
    vs.flatMap (·.bytes mem) = window mem start (stop - start) := by
  induction vs generalizing start with
  | nil =>
    obtain rfl : start = stop := h
    rw [Nat.sub_self]
    rfl
  | cons v vs ih =>
    obtain ⟨hv, hvs⟩ := h
    have hle := hvs.le
    have hbytes : v.bytes mem = window mem start v.size := by
      rcases hv with hzero | hdata
      · rw [ByteView.bytes, hzero, window_zero, window_zero]
      · rw [ByteView.bytes, hdata]
    rw [List.flatMap_cons, ih hvs, hbytes, window_append_window]
    congr 1
    omega

lemma Tiled.mem_le (h : Tiled start vs stop) (hv : v ∈ vs) :
    v.size = 0 ∨ v.data + v.size ≤ stop := by
  induction vs generalizing start with
  | nil => cases hv
  | cons u us ih =>
    rcases List.mem_cons.mp hv with rfl | hv
    · have hle := h.2.le
      exact h.1.imp_right fun hdata => by omega
    · exact ih h.2 hv

lemma Tiled.size_eq_zero (h : Tiled start vs start) (hv : v ∈ vs) : v.size = 0 := by
  induction vs with
  | nil => cases hv
  | cons u us ih =>
    have hle := h.2.le
    have hzero : u.size = 0 := by omega
    rcases List.mem_cons.mp hv with rfl | hv
    · exact hzero
    · have htail := h.2
      rw [hzero] at htail
      exact ih htail hv

/-! ### The parts of the kernel and of the ramdisk -/

namespace BootImg

variable (img : BootImg)

/-- A part that is there only with a flag. -/
def partIf (flag : Bool) (v : ByteView) : ByteView := if flag then v else {}

/-- The parts of the kernel, in their order. -/
def kernelParts : List ByteView :=
  [partIf img.flags.mtkKernel ⟨img.kHdr.getD 0, mtkHdrSz⟩, partIf img.flags.zimageKernel img.zHdr,
    ⟨img.ptr .kernel, img.size .kernel⟩, partIf img.flags.zimageKernel img.zTail, img.kernelDtb]

/-- The parts of the ramdisk, in their order. -/
def ramdiskParts : List ByteView :=
  [partIf img.flags.mtkRamdisk ⟨img.rHdr.getD 0, mtkHdrSz⟩,
    ⟨img.ptr .ramdisk, img.size .ramdisk⟩]

end BootImg

/-- Nothing was taken from the blocks yet. -/
structure Untouched (img : BootImg) : Prop where
  mtkKernel : img.flags.mtkKernel = false
  mtkRamdisk : img.flags.mtkRamdisk = false
  zimageKernel : img.flags.zimageKernel = false
  kernelDtb : img.kernelDtb.size = 0

lemma Untouched.kernelParts (h : Untouched img) :
    Tiled (img.ptr .kernel) img.kernelParts (img.ptr .kernel + img.size .kernel) := by
  simp [BootImg.kernelParts, BootImg.partIf, h.mtkKernel, h.zimageKernel, h.kernelDtb, Tiled]

lemma cutDtb_parts (h : Untouched img) (hd : ∀ off, d = some off → off ≤ img.size .kernel) :
    Tiled (img.ptr .kernel) (img.cutDtb d).kernelParts (img.ptr .kernel + img.size .kernel) := by
  match d with
  | none => exact h.kernelParts
  | some 0 => exact h.kernelParts
  | some (off + 1) =>
    have hle := hd (off + 1) rfl
    have hptr : (img.cutDtb (some (off + 1))).ptr = img.ptr := rfl
    have hsize : (img.cutDtb (some (off + 1))).size .kernel = off + 1 := size_setSize_of_le hle
    have hflags : (img.cutDtb (some (off + 1))).flags = img.flags := rfl
    have hdtb : (img.cutDtb (some (off + 1))).kernelDtb =
      ⟨img.ptr .kernel + (off + 1), img.size .kernel - (off + 1)⟩ := rfl
    simp only [BootImg.kernelParts, BootImg.partIf, hflags, h.mtkKernel, h.zimageKernel, hsize,
      hptr, hdtb, Tiled, Bool.false_eq_true, if_false, true_or, or_true, true_and, Nat.add_zero]
    omega

lemma flags_cutDtb (img : BootImg) (d : Option Nat) : (img.cutDtb d).flags = img.flags := by
  match d with
  | none => rfl
  | some 0 => rfl
  | some (off + 1) => rfl

/-- The kernel without a device tree: nothing else was taken from it. -/
structure Whole (start stop : Nat) (img : BootImg) : Prop where
  parts : Tiled start img.kernelParts stop
  mtkKernel : img.flags.mtkKernel = false
  mtkRamdisk : img.flags.mtkRamdisk = false
  zimageKernel : img.flags.zimageKernel = false

lemma whole_cutDtb (h : Untouched img) (hd : ∀ off, d = some off → off ≤ img.size .kernel) :
    Whole (img.ptr .kernel) (img.ptr .kernel + img.size .kernel) (img.cutDtb d) := by
  have hflags := flags_cutDtb img d
  exact ⟨cutDtb_parts h hd, hflags ▸ h.mtkKernel, hflags ▸ h.mtkRamdisk,
    hflags ▸ h.zimageKernel⟩

/-- The kernel without the header of a MediaTek kernel: the zImage was not looked at. -/
structure Plain (start stop : Nat) (img : BootImg) : Prop where
  parts : Tiled start img.kernelParts stop
  mtkRamdisk : img.flags.mtkRamdisk = false
  zimageKernel : img.flags.zimageKernel = false

lemma plain_withKernelFmt (h : Whole start stop img)
    (hfmt : fmt.1 = true → mtkHdrSz ≤ img.size .kernel) :
    Plain start stop (img.withKernelFmt fmt) := by
  obtain ⟨mtk, fmt⟩ := fmt
  cases mtk
  · exact ⟨h.parts, h.mtkRamdisk, h.zimageKernel⟩
  · have hle := hfmt rfl
    obtain ⟨hsize, hptr⟩ := cutMtk_self hle
    refine ⟨?_, h.mtkRamdisk, h.zimageKernel⟩
    have hparts := h.parts
    have hsize' : (img.withKernelFmt (true, fmt)).size .kernel = img.size .kernel - mtkHdrSz :=
      hsize
    have hptr' : (img.withKernelFmt (true, fmt)).ptr .kernel = img.ptr .kernel + mtkHdrSz := hptr
    have hflags : (img.withKernelFmt (true, fmt)).flags = { img.flags with mtkKernel := true } :=
      rfl
    have hkHdr : (img.withKernelFmt (true, fmt)).kHdr = some (img.ptr .kernel) := rfl
    have hdtb : (img.withKernelFmt (true, fmt)).kernelDtb = img.kernelDtb := rfl
    simp only [BootImg.kernelParts, BootImg.partIf, h.mtkKernel, h.zimageKernel, Tiled,
      Bool.false_eq_true, if_false, true_or, true_and, Nat.add_zero] at hparts
    simp only [BootImg.kernelParts, BootImg.partIf, hflags, hkHdr, hsize', hptr', hdtb,
      h.zimageKernel, Tiled, Bool.false_eq_true, if_false, if_true, true_or, true_and, Nat.add_zero,
      Option.getD_some]
    omega

lemma cutZimage_self (h : last ≤ img.size .kernel) (hdrSz : Nat) (kFmt : FileFormat) :
    (img.cutZimage hdrSz last kFmt).size .kernel = last - hdrSz ∧
      (img.cutZimage hdrSz last kFmt).ptr .kernel = img.ptr .kernel + hdrSz := by
  refine ⟨size_setSize_of_le ((Nat.sub_le last hdrSz).trans h), ?_⟩
  change Function.update img.ptr Block.kernel (img.ptr .kernel + hdrSz) Block.kernel = _
  rw [Function.update_self]

/-- The header and the tail of a zImage are next to its kernel. -/
lemma cutZimage_parts (h : Plain start stop img) {hdrSz} (hle : hdrSz ≤ last)
    (hsize : last ≤ img.size .kernel) (kFmt : FileFormat) :
    Tiled start (img.cutZimage hdrSz last kFmt).kernelParts stop := by
  obtain ⟨hsize', hptr'⟩ := cutZimage_self hsize hdrSz kFmt
  have hflags : (img.cutZimage hdrSz last kFmt).flags =
    { img.flags with zimageKernel := true } := rfl
  have hkHdr : (img.cutZimage hdrSz last kFmt).kHdr = img.kHdr := rfl
  have hzHdr : (img.cutZimage hdrSz last kFmt).zHdr = ⟨img.ptr .kernel, hdrSz⟩ := rfl
  have hzTail : (img.cutZimage hdrSz last kFmt).zTail =
    ⟨img.ptr .kernel + last, img.size .kernel - last⟩ := rfl
  have hdtb : (img.cutZimage hdrSz last kFmt).kernelDtb = img.kernelDtb := rfl
  have hparts := h.parts
  simp only [BootImg.kernelParts, h.zimageKernel, BootImg.partIf, Tiled, Bool.false_eq_true,
    if_false, true_or, true_and, Nat.add_zero] at hparts
  simp only [BootImg.kernelParts, hflags, hkHdr, hzHdr, hzTail, hdtb, hsize', hptr',
    BootImg.partIf, Tiled, if_true]
  omega

lemma Plain.zHdr (h : Plain start stop img) (zHdr : ByteView) :
    Tiled start ({ img with zHdr } : BootImg).kernelParts stop := by
  have hparts := h.parts
  simp only [BootImg.kernelParts, h.zimageKernel] at hparts ⊢
  exact hparts

lemma parseZimage_parts (h : Plain start stop img) (hparse : parseZimage mem img = .ok img') :
    Tiled start img'.kernelParts stop ∧ img'.flags.mtkRamdisk = false := by
  rcases parseZimage_cases hparse with ⟨zHdr, rfl⟩ | ⟨hdrSz, last, kFmt, hle, hsize, -, rfl⟩
  · exact ⟨h.zHdr zHdr, h.mtkRamdisk⟩
  · exact ⟨cutZimage_parts h hle hsize kFmt, h.mtkRamdisk⟩

/-- **The parts of the kernel follow each other.** -/
lemma parseKernel_parts (h : Untouched img) (hparse : parseKernel mem img = .ok img') :
    Tiled (img.ptr .kernel) img'.kernelParts (img.ptr .kernel + img.size .kernel) ∧
      img'.flags.mtkRamdisk = false := by
  rcases parseKernel_cases hparse with ⟨-, rfl⟩ | ⟨d, ⟨mtk, fmt⟩, hd, hfmt, hzimage⟩
  · exact ⟨h.kernelParts, h.mtkRamdisk⟩
  · have hcut : ∀ off, d = some off → off ≤ img.size .kernel := by
      intro off hoff
      have hle := findDtbOffset_le (hoff ▸ hd)
      omega
    have hmtk : mtk = true → mtkHdrSz ≤ (img.cutDtb d).size .kernel := by
      rintro rfl
      rcases blockFmt_eq_ok.mp hfmt with ⟨hfalse, -, -⟩ | ⟨-, -, hle, -⟩
      · cases hfalse
      · exact hle
    have hplain : Plain _ _ ((img.cutDtb d).withKernelFmt (mtk, fmt)) :=
      plain_withKernelFmt (whole_cutDtb h hcut) hmtk
    rcases hzimage with rfl | hzimage
    · exact ⟨hplain.parts, hplain.mtkRamdisk⟩
    · exact parseZimage_parts hplain hzimage

/-- **So do those of the ramdisk**, and the parts of the kernel stay. -/
lemma parseRamdisk_parts (h : img.flags.mtkRamdisk = false)
    (hparse : parseRamdisk mem img = .ok (some img')) :
    Tiled (img.ptr .ramdisk) img'.ramdiskParts (img.ptr .ramdisk + img.size .ramdisk) ∧
      (img'.flags.mtkRamdisk = true → img.size .vendorRamdiskTable = 0) ∧
      img'.kernelParts = img.kernelParts := by
  have huntouched : Tiled (img.ptr .ramdisk) img.ramdiskParts
      (img.ptr .ramdisk + img.size .ramdisk) := by
    simp [BootImg.ramdiskParts, BootImg.partIf, h, Tiled]
  rcases parseRamdisk_cases hparse with ⟨rfl, -⟩ | ⟨htable, ⟨mtk, fmt⟩, hfmt, rfl⟩
  · exact ⟨huntouched, fun htrue => absurd htrue (ne_true_of_eq_false h), rfl⟩
  · rcases blockFmt_eq_ok.mp hfmt with ⟨rfl, -, -⟩ | ⟨rfl, -, hle, -⟩
    · exact ⟨huntouched, fun _ => htable, rfl⟩
    · obtain ⟨hsize, hptr⟩ := cutMtk_self hle
      have hsize' : (img.withRamdiskFmt (true, fmt)).size .ramdisk =
        img.size .ramdisk - mtkHdrSz := hsize
      have hptr' : (img.withRamdiskFmt (true, fmt)).ptr .ramdisk =
        img.ptr .ramdisk + mtkHdrSz := hptr
      have hkernel := cutMtk_narrowed hle
      refine ⟨?_, fun _ => htable, ?_⟩
      · have hflags : (img.withRamdiskFmt (true, fmt)).flags =
          { img.flags with mtkRamdisk := true } := rfl
        have hrHdr : (img.withRamdiskFmt (true, fmt)).rHdr = some (img.ptr .ramdisk) := rfl
        simp only [BootImg.ramdiskParts, BootImg.partIf, hflags, hrHdr, hsize', hptr', Tiled,
          if_true, Option.getD_some, or_true, true_and]
        omega
      · have hksize : (img.withRamdiskFmt (true, fmt)).size .kernel = img.size .kernel :=
          hkernel.size (by decide)
        rw [BootImg.kernelParts, hksize]
        rfl

/-- The table of a ramdisk was looked at. -/
lemma parseRamdisk_table (h : parseRamdisk mem img = .ok (some img'))
    (hsize : img'.size .ramdisk ≠ 0) (htable : img'.size .vendorRamdiskTable ≠ 0) :
    img'.hdr.get .vendorRamdiskTableEntrySize = tableEntrySz ∧
      TableSafe mem (img'.ptr .ramdisk) (img'.ptr .vendorRamdiskTable)
        (List.range (img'.hdr.get .vendorRamdiskTableEntryNum)) := by
  rcases parseRamdisk_cases h with ⟨rfl, hzero | ⟨-, hsafe⟩⟩ | ⟨hzero, fmt, hfmt, rfl⟩
  · exact absurd hzero hsize
  · exact hsafe
  · exact absurd (((withRamdiskFmt_narrowed hfmt).size (by decide)).trans hzero) htable

/-! ### Accepted images -/

/-- Flags of an image whose blocks were not looked at. -/
structure FreshFlags (flags : Flags) : Prop where
  mtkKernel : flags.mtkKernel = false
  mtkRamdisk : flags.mtkRamdisk = false
  zimageKernel : flags.zimageKernel = false
  avb : flags.avb = false
  dhtb : flags.dhtb = true → flags.seandroid = true

/-- `parse_hdr` notes the loader that it finds. -/
lemma parseHdr_flags (h : parseHdr mem addr type flags = .ok (addr', hdr, flags')) :
    flags' = flags ∨ flags' = { flags with amonet := true } ∨
      flags' = { flags with nookhd := true } ∨ flags' = { flags with acclaim := true } := by
  have heq : ∀ {x : Except Fault (Option ImgHdr)} {a : Nat} {f : Flags},
      (x >>= fun hdr => .ok (a, hdr, f)) = .ok (addr', hdr, flags') → flags' = f := by
    intro x a f hx
    obtain ⟨hdr, -, hx⟩ := bind_eq_ok.mp hx
    exact (Prod.mk.inj (Prod.mk.inj (Except.ok.inj hx)).2).2.symm
  have heq' : ∀ {x : Except Fault ImgHdr} {a : Nat} {f : Flags},
      (x >>= fun hdr => .ok (a, some hdr, f)) = .ok (addr', hdr, flags') → flags' = f := by
    intro x a f hx
    obtain ⟨hdr, -, hx⟩ := bind_eq_ok.mp hx
    exact (Prod.mk.inj (Prod.mk.inj (Except.ok.inj hx)).2).2.symm
  rw [parseHdr] at h
  split at h
  · obtain ⟨version, -, h⟩ := bind_eq_ok.mp h
    exact .inl (heq' h)
  · obtain ⟨pageSize, -, h⟩ := bind_eq_ok.mp h
    split at h
    · exact .inl (heq' h)
    · obtain ⟨amonet, -, h⟩ := bind_eq_ok.mp h
      split at h
      · obtain ⟨pageSize, -, h⟩ := bind_eq_ok.mp h
        obtain ⟨realHdrSz, -, h⟩ := bind_eq_ok.mp h
        exact .inr (.inl (heq h))
      · obtain ⟨nookhd, -, h⟩ := bind_eq_ok.mp h
        split at h
        · exact .inr (.inr (.inl (heq h)))
        · obtain ⟨name, -, h⟩ := bind_eq_ok.mp h
          split at h
          · exact .inr (.inr (.inr (heq h)))
          · exact .inl (heq h)

lemma FreshFlags.parseHdr (hf : FreshFlags flags)
    (h : parseHdr mem addr type flags = .ok (addr', hdr, flags')) : FreshFlags flags' := by
  rcases parseHdr_flags h with rfl | rfl | rfl | rfl <;>
    exact ⟨hf.mtkKernel, hf.mtkRamdisk, hf.zimageKernel, hf.avb, hf.dhtb⟩

lemma FreshFlags.sha256 (hf : FreshFlags flags) (hdr : ImgHdr) :
    FreshFlags (if hasSha256 hdr then { flags with sha256 := true } else flags) := by
  split
  · exact ⟨hf.mtkKernel, hf.mtkRamdisk, hf.zimageKernel, hf.avb, hf.dhtb⟩
  · exact hf

section Verify

variable {verify : Str → Str → Bool}

/-- What a rejected image leaves in the flags. -/
lemma rejected_flags (h : parseImage verify mem addr type flags = .ok (.rejected flags')) :
    ∃ amonet nookhd acclaim sha256, flags' = { flags with amonet, nookhd, acclaim, sha256 } := by
  obtain ⟨-, hpage, -⟩ := succeeds_parseImage_iff.mp ⟨_, h⟩
  obtain ⟨⟨addr', hdr, flags''⟩, hhdr, h⟩ := bind_eq_ok.mp h
  have hloader : ∃ amonet nookhd acclaim, flags'' = { flags with amonet, nookhd, acclaim } := by
    rcases parseHdr_flags hhdr with rfl | rfl | rfl | rfl <;> exact ⟨_, _, _, rfl⟩
  obtain ⟨amonet, nookhd, acclaim, rfl⟩ := hloader
  cases hdr with
  | none =>
    cases Parsed.rejected.inj (Except.ok.inj h)
    exact ⟨_, _, _, _, rfl⟩
  | some hdr =>
    change parseSizes verify mem addr' hdr _ = _ at h
    rw [parseSizes_eq (hpage _ _ _ hhdr)] at h
    split at h
    · obtain ⟨img, -, h⟩ := bind_eq_ok.mp h
      obtain ⟨r, -, h⟩ := bind_eq_ok.mp h
      cases r with
      | none => cases h
      | some img =>
        obtain ⟨img', -, h⟩ := bind_eq_ok.mp h
        cases htail : parseTail mem verify img' with
        | error e =>
          rw [htail] at h
          cases h
        | ok img'' =>
          rw [htail] at h
          cases h
    · cases Parsed.rejected.inj (Except.ok.inj h)
      split <;> exact ⟨_, _, _, _, rfl⟩

/-- What the constructor notes at an address that it leaves. -/
lemma scanStep_flags (h : scanStep verify mem size s = .ok (.inl t)) :
    t.2 = { s.2 with dhtb := true, seandroid := true } ∨
      ∃ amonet nookhd acclaim sha256 chromeos blob,
        t.2 = { s.2 with amonet, nookhd, acclaim, sha256, chromeos, blob } := by
  have htry : ∀ {fmt}, tryImage verify mem s.1 fmt s.2 = .ok (.inl t) →
      ∃ amonet nookhd acclaim sha256 chromeos blob,
        t.2 = { s.2 with amonet, nookhd, acclaim, sha256, chromeos, blob } := by
    intro fmt h
    obtain ⟨parsed, hparsed, h⟩ := bind_eq_ok.mp h
    cases parsed with
    | accepted img => cases h
    | rejected flags =>
      cases h
      obtain ⟨amonet, nookhd, acclaim, sha256, rfl⟩ := rejected_flags hparsed
      exact ⟨_, _, _, _, _, _, rfl⟩
    | exited => cases h
  rw [scanStep] at h
  split at h
  · obtain ⟨fmt, -, h⟩ := bind_eq_ok.mp h
    cases fmt
    case aosp | aospVendor => exact .inr (htry h)
    case dhtb =>
      cases h
      exact .inl rfl
    all_goals
      cases h
      exact .inr ⟨_, _, _, _, _, _, rfl⟩
  · cases h

lemma FreshFlags.scanStep (hf : FreshFlags s.2)
    (h : scanStep verify mem size s = .ok (.inl t)) : FreshFlags t.2 := by
  rcases scanStep_flags h with ht | ⟨_, _, _, _, _, _, ht⟩
  · rw [ht]
    exact ⟨hf.mtkKernel, hf.mtkRamdisk, hf.zimageKernel, hf.avb, fun _ => rfl⟩
  · rw [ht]
    exact ⟨hf.mtkKernel, hf.mtkRamdisk, hf.zimageKernel, hf.avb, hf.dhtb⟩

lemma exists_of_bootImg (h : bootImg verify file = .ok (some boot)) :
    ∃ addr type flags, FreshFlags flags ∧
      parseImage verify (mapped file) addr type flags = .ok (.accepted boot) := by
  obtain ⟨s, fmt, hvisited, -, -, himage⟩ := exists_visited_of_bootImg h
  have hfresh : FreshFlags s.2 :=
    hvisited.invariant (P := fun s => FreshFlags s.2) ⟨rfl, rfl, rfl, rfl, nofun⟩
      fun _ _ hs hst => hs.scanStep hst
  exact ⟨s.1, fmt, s.2, hfresh, himage⟩

end Verify

/-! ### What parsing changes -/

lemma parseKernel_flags (h : parseKernel mem img = .ok img') :
    ∃ mtkKernel zimageKernel, img'.flags = { img.flags with mtkKernel, zimageKernel } := by
  rcases parseKernel_cases h with ⟨-, rfl⟩ | ⟨d, fmt, -, -, hzimage⟩
  · exact ⟨_, _, rfl⟩
  · have hfmt : ∃ mtkKernel, ((img.cutDtb d).withKernelFmt fmt).flags =
        { img.flags with mtkKernel } := by
      rw [← flags_cutDtb img d]
      match fmt with
      | (true, kFmt) => exact ⟨_, rfl⟩
      | (false, kFmt) => exact ⟨_, rfl⟩
    obtain ⟨mtkKernel, hflags⟩ := hfmt
    rcases hzimage with rfl | hzimage
    · exact ⟨mtkKernel, _, hflags⟩
    · rcases parseZimage_cases hzimage with ⟨_, rfl⟩ | ⟨hdrSz, stop, kFmt, -, -, -, rfl⟩
      · exact ⟨mtkKernel, _, hflags⟩
      · refine ⟨mtkKernel, true, ?_⟩
        change { ((img.cutDtb d).withKernelFmt fmt).flags with zimageKernel := true } = _
        rw [hflags]

lemma parseRamdisk_flags (h : parseRamdisk mem img = .ok (some img')) :
    ∃ mtkRamdisk, img'.flags = { img.flags with mtkRamdisk } := by
  rcases parseRamdisk_cases h with ⟨rfl, -⟩ | ⟨-, ⟨mtk, fmt⟩, -, rfl⟩
  · exact ⟨_, rfl⟩
  · cases mtk <;> exact ⟨_, rfl⟩

/-- The flags of the tail.  A footer that is found lies in the mapping. -/
lemma parseTail_eq_ok (h : parseTail mem verify img = .ok img') :
    ∃ flags avbFooter vbmeta, img' = { img with flags, avbFooter, vbmeta } ∧
      ∃ seandroid lgBump avb1Signed avb,
        flags = { img.flags with seandroid, lgBump, avb1Signed, avb } ∧
        (img.flags.seandroid = true → seandroid = true) ∧
        (avb = true → img.flags.avb = true ∨
          ∃ p, avbFooter = some p ∧ p + avbFooterSz ≤ img.tail.data + img.tail.size) := by
  have htail : ∃ seandroid lgBump avb1Signed,
      tailFlags mem verify img = { img.flags with seandroid, lgBump, avb1Signed } ∧
        (img.flags.seandroid = true → seandroid = true) := by
    rw [tailFlags]
    split
    · exact ⟨_, _, _, rfl, fun _ => rfl⟩
    · split_ifs <;> exact ⟨_, _, _, rfl, id⟩
  obtain ⟨seandroid, lgBump, avb1Signed, htail, hsea⟩ := htail
  rcases parseTail_cases h with ⟨-, rfl⟩ | ⟨hle, hcases⟩
  · exact ⟨_, _, _, rfl, _, _, _, _, rfl, id, .inl⟩
  · rw [htail] at hcases
    rcases hcases with ⟨rfl, -⟩ | ⟨-, ⟨rfl, -⟩ | ⟨-, rfl⟩⟩
    · exact ⟨_, _, _, rfl, _, _, _, _, rfl, hsea, .inl⟩
    · exact ⟨_, _, _, rfl, _, _, _, _, rfl, hsea, .inl⟩
    · refine ⟨_, _, _, rfl, _, _, _, _, rfl, hsea, fun _ => .inr ⟨_, rfl, ?_⟩⟩
      exact (Nat.sub_add_cancel hle).le

/-- What holds of an accepted image, compared to the one before its blocks were looked at. -/
structure Taken (mem : Str) (img boot : BootImg) : Prop where
  kernel : Tiled (img.ptr .kernel) boot.kernelParts (img.ptr .kernel + img.size .kernel)
  ramdisk : Tiled (img.ptr .ramdisk) boot.ramdiskParts (img.ptr .ramdisk + img.size .ramdisk)
  table : boot.flags.mtkRamdisk = true → boot.size .vendorRamdiskTable = 0
  tableSafe : boot.size .ramdisk ≠ 0 → boot.size .vendorRamdiskTable ≠ 0 →
    boot.hdr.get .vendorRamdiskTableEntrySize = tableEntrySz ∧
      TableSafe mem (boot.ptr .ramdisk) (boot.ptr .vendorRamdiskTable)
        (List.range (boot.hdr.get .vendorRamdiskTableEntryNum))
  cls : boot.hdr.cls = img.hdr.cls
  get : ∀ f, f ≠ .kernelSize → f ≠ .ramdiskSize → boot.hdr.get f = img.hdr.get f
  ptr : ∀ b, b ≠ .kernel → b ≠ .ramdisk → boot.ptr b = img.ptr b
  payload : boot.payload = img.payload
  tail : boot.tail = img.tail
  flags : ∃ mtkKernel zimageKernel mtkRamdisk seandroid lgBump avb1Signed avb,
    boot.flags = { img.flags with
      mtkKernel, zimageKernel, mtkRamdisk, seandroid, lgBump, avb1Signed, avb }
  footer : boot.flags.avb = true →
    ∃ p, boot.avbFooter = some p ∧ p + avbFooterSz ≤ img.tail.data + img.tail.size
  dhtb : boot.flags.dhtb = true → boot.flags.seandroid = true

/-- **What is taken from the blocks.** -/
lemma taken_of_parseBlocks (hu : Untouched img)
    (hf : FreshFlags img.flags) (h : parseBlocks verify mem img = .ok (.accepted boot)) :
    Taken mem img boot := by
  obtain ⟨img₁, img₂, eFmt, h₁, h₂, -, h₄⟩ := parseBlocks_eq_ok h
  obtain ⟨flags, avbFooter, vbmeta, rfl, seandroid, lgBump, avb1Signed, avb, rfl, hsea,
    havb⟩ := parseTail_eq_ok h₄
  obtain ⟨hkernel, hmtk⟩ := parseKernel_parts hu h₁
  obtain ⟨hramdisk, htable, hsame⟩ := parseRamdisk_parts hmtk h₂
  have hn₁ := parseKernel_narrowed h₁
  have hn₂ := parseRamdisk_narrowed h₂
  obtain ⟨mtkKernel, zimageKernel, hflags₁⟩ := parseKernel_flags h₁
  obtain ⟨mtkRamdisk, hflags₂⟩ := parseRamdisk_flags h₂
  have hflags : img₂.flags =
      { img.flags with mtkKernel, zimageKernel, mtkRamdisk } := by
    rw [hflags₂, hflags₁]
  exact
    { kernel := by
        change Tiled _ img₂.kernelParts _
        rw [hsame]
        exact hkernel
      ramdisk := by
        rw [← hn₁.ptr .ramdisk (by decide), ← hn₁.size (c := .ramdisk) (by decide)]
        exact hramdisk
      table := fun hmtk => (hn₂.size (by decide)).trans (htable hmtk)
      tableSafe := fun hsize htable =>
        (parseRamdisk_table h₂ : img₂.size .ramdisk ≠ 0 → _) hsize htable
      cls := hn₂.hdr.cls.trans hn₁.hdr.cls
      get := fun f hk hr => (hn₂.get f hr).trans (hn₁.get f hk)
      ptr := fun b hk hr => (hn₂.ptr b hr).trans (hn₁.ptr b hk)
      payload := hn₂.payload.trans hn₁.payload
      tail := hn₂.tail.trans hn₁.tail
      flags := by
        refine ⟨mtkKernel, zimageKernel, mtkRamdisk, seandroid, lgBump, avb1Signed, avb, ?_⟩
        rw [hflags]
      footer := fun hflag => by
        rcases havb hflag with hold | hp
        · change img₂.flags.avb = true at hold
          rw [hflags] at hold
          exact absurd hold (by simp [hf.avb])
        · change ∃ p, avbFooter = some p ∧ p + avbFooterSz ≤ img₂.tail.data + img₂.tail.size
            at hp
          rw [hn₂.tail, hn₁.tail] at hp
          exact hp
      dhtb := fun hflag => hsea (by
        rw [hflags] at hflag ⊢
        exact hf.dhtb hflag) }

lemma untouched_ofHdr (mem : Str) (addr : Nat) (hdr : ImgHdr) (hf : FreshFlags flags) :
    Untouched (.ofHdr mem addr hdr flags) ∧ FreshFlags (BootImg.ofHdr mem addr hdr flags).flags :=
  have hf' := hf.sha256 hdr
  ⟨⟨hf'.mtkKernel, hf'.mtkRamdisk, hf'.zimageKernel, rfl⟩, hf'⟩

end Magisk.Boot
