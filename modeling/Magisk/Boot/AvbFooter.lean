import Magisk.Boot.SmallImage

/-!
# The footer of an image

An image for verified boot ends with a footer, which says where the header of the verification data
is.  `repack` copies that header behind the new image and stores the footer over the last bytes of
the output.  The position that it stores is one of the output, and the parser counts from the image.

* `parseTail_footer`, `avb_of_parseTail`: a footer that is found;
* `vbmetaPlace`, `writeTail_vbmeta`: where the header is copied to;
* `FooterKept`: image, header and footer are apart, and the footer leads to the header again;
* `footerKept_iff`: so it is if nothing comes before the image and there is room for the footer.
-/

namespace Magisk.Boot

open Magisk.Base Magisk.Lib List Option

variable {mem file : Str} {boot : BootImg} {files : Files}

/-! ### Footers that are found -/

section Tail

variable {verify : Str → Str → Bool} {img img' : BootImg}

lemma ByteView.footer_of_le (hle : stop ≤ len) :
    (⟨stop, len - stop⟩ : ByteView).footer = len - avbFooterSz := by
  change stop + (len - stop) - avbFooterSz = _
  rw [Nat.add_sub_cancel' hle]

/-- A footer that points to a header is noted. -/
lemma parseTail_footer (h : parseTail mem verify img = .ok img') (hsize : img.tail.size ≠ 0)
    (hfooter : window mem img.tail.footer 4 = str "AVBf")
    (hvbmeta : window mem (img.payload.data + beAt mem (img.tail.footer + 20) 8) 4 = str "AVB0") :
    img'.flags.avb = true ∧ img'.avbFooter = some img.tail.footer ∧
      img'.vbmeta = some (img.payload.data + beAt mem (img.tail.footer + 20) 8) := by
  rcases parseTail_cases h with ⟨hzero, -⟩ | ⟨-, ⟨-, hne⟩ | ⟨-, ⟨-, hne⟩ | ⟨-, rfl⟩⟩⟩
  · exact absurd hzero hsize
  · exact absurd hfooter hne
  · exact absurd hvbmeta hne
  · exact ⟨rfl, rfl, rfl⟩

/-- What is noted of a footer was found. -/
lemma avb_of_parseTail (h : parseTail mem verify img = .ok img') (hfresh : img.flags.avb = false)
    (havb : img'.flags.avb = true) :
    window mem img.tail.footer 4 = str "AVBf" ∧
      window mem (img.payload.data + beAt mem (img.tail.footer + 20) 8) 4 = str "AVB0" ∧
      img'.avbFooter = some img.tail.footer ∧
      img'.vbmeta = some (img.payload.data + beAt mem (img.tail.footer + 20) 8) := by
  have hflags : (tailFlags mem verify img).avb = false := by
    rw [tailFlags]
    split_ifs <;> exact hfresh
  rcases parseTail_cases h with ⟨-, rfl⟩ | ⟨-, ⟨rfl, -⟩ | ⟨hfooter, ⟨rfl, -⟩ | ⟨hvbmeta, rfl⟩⟩⟩
  · exact absurd havb (ne_true_of_eq_false hfresh)
  · exact absurd havb (ne_true_of_eq_false hflags)
  · exact absurd havb (ne_true_of_eq_false hflags)
  · exact ⟨hfooter, hvbmeta, rfl, rfl⟩

end Tail

/-- The footer of an image that was accepted, and the header it points to. -/
lemma footer_of_bootImg (h : bootImg verify file = .ok (some boot)) (havb : boot.flags.avb = true) :
    window (mapped file) (boot.avbFooter.getD 0) 4 = str "AVBf" ∧
      window (mapped file) (boot.vbmeta.getD 0) 4 = str "AVB0" := by
  obtain ⟨addr, type, flags, hfresh, himage⟩ := exists_of_bootImg h
  obtain ⟨addr', hdr, flags', hhdr, -, -, hblocks⟩ := exists_of_parseImage himage
  obtain ⟨img, htail, -, -, mtkKernel, zimageKernel, mtkRamdisk, hflags⟩ := exists_parseTail hblocks
  have hfresh' : img.flags.avb = false := by
    rw [hflags]
    exact ((untouched_ofHdr _ addr' hdr (hfresh.parseHdr hhdr)).2).avb
  obtain ⟨hfooter, hvbmeta, hnote, hnote'⟩ := avb_of_parseTail htail hfresh' havb
  rw [hnote, hnote']
  exact ⟨hfooter, hvbmeta⟩

/-! ### Where the header is copied to -/

/-- The position that the header is copied to, behind blocks that end at `stop`. -/
def vbmetaPlace (boot : BootImg) (header stop : Nat) : Nat :=
  header + alignTo (alignTo (stop + (vendorTrailer boot).length - header)
    (boot.hdr.get .pageSize)) 4096

lemma le_vbmetaPlace {header} (hpage : 0 < boot.hdr.get .pageSize) (hlt : header < stop) :
    stop + (vendorTrailer boot).length ≤ vbmetaPlace boot header stop ∧
      header + 4096 ≤ vbmetaPlace boot header stop := by
  have h₁ := le_alignTo hpage (stop + (vendorTrailer boot).length - header)
  have h₂ := le_alignTo (a := 4096) (by decide)
    (alignTo (stop + (vendorTrailer boot).length - header) (boot.hdr.get .pageSize))
  have h₃ := Nat.le_of_dvd (by omega) (dvd_alignTo (a := 4096)
    (alignTo (stop + (vendorTrailer boot).length - header) (boot.hdr.get .pageSize)))
  rw [vbmetaPlace]
  omega

lemma length_align {w : ImgWriter} {header} (hpage : 0 < page) (hle : header ≤ w.out.length) :
    (w.align header page).out.length = header + alignTo (w.out.length - header) page := by
  have hpad := le_alignTo hpage (w.out.length - header)
  change (w.out ++ List.replicate _ 0).length = _
  rw [length_append, length_replicate]
  omega

/-- **The header is copied**, and the output gets the size of the original if it is shorter. -/
lemma writeTail_vbmeta (mapSize : Nat) (w : ImgWriter) (off : Offsets)
    (havb : boot.flags.avb = true) (hpage : 0 < boot.hdr.get .pageSize)
    (hheader : off.header ≤ w.out.length)
    (hin : boot.vbmeta.getD 0 + vbmetaSize mem boot ≤ mem.length) :
    (writeTail mem boot mapSize w off).2.vbmeta =
        u32 (vbmetaPlace boot off.header w.out.length) ∧
      (writeTail mem boot mapSize w off).1.out.length =
        (if boot.flags.chromeos then
          vbmetaPlace boot off.header w.out.length + vbmetaSize mem boot
        else max (vbmetaPlace boot off.header w.out.length + vbmetaSize mem boot) mapSize) ∧
      window (writeTail mem boot mapSize w off).1.out
          (vbmetaPlace boot off.header w.out.length) (vbmetaSize mem boot) =
        window mem (boot.vbmeta.getD 0) (vbmetaSize mem boot) := by
  let tail := w.append (vendorTrailer boot)
  let padded := tail.align off.header (boot.hdr.get .pageSize)
  let placed := padded.align off.header 4096
  let blob := window mem (boot.vbmeta.getD 0) (vbmetaSize mem boot)
  have htail : tail.out.length = w.out.length + (vendorTrailer boot).length := length_append
  have hpadded : padded.out.length = off.header +
      alignTo (w.out.length + (vendorTrailer boot).length - off.header)
        (boot.hdr.get .pageSize) := by
    rw [← htail]
    exact length_align hpage (by omega)
  have hplaced : placed.out.length = vbmetaPlace boot off.header w.out.length := by
    rw [vbmetaPlace, length_align (by decide) (by omega), hpadded, Nat.add_sub_cancel_left]
  have hvbmeta : writeVbmeta mem boot off.header padded =
      (placed.append blob, u32 placed.out.length) := by
    rw [writeVbmeta, if_pos havb]
  have hblob : blob.length = vbmetaSize mem boot := length_window hin
  have htotal : (placed.append blob).out.length =
      vbmetaPlace boot off.header w.out.length + vbmetaSize mem boot := by
    rw [← hplaced, ← hblob]
    exact length_append
  have hout : writeTail mem boot mapSize w off = (writeZero boot mapSize (placed.append blob),
      { off with tail := u32 tail.out.length, vbmeta := u32 placed.out.length }) := by
    rw [writeTail, hvbmeta]
  rw [hout]
  refine ⟨congrArg u32 hplaced, ?_, ?_⟩
  · rw [writeZero]
    split
    · exact htotal
    · change ((placed.append blob).out ++ List.replicate _ 0).length = _
      rw [length_append, length_replicate]
      omega
  · have hcopy : window (placed.append blob).out placed.out.length blob.length = blob := by
      change window (placed.out ++ blob) _ _ = _
      rw [window_append_right le_rfl, Nat.sub_self, window_length]
    rw [hplaced, hblob] at hcopy
    rw [writeZero]
    split
    · exact hcopy
    · change window ((placed.append blob).out ++ List.replicate _ 0) _ _ = _
      rw [window_append_left htotal.ge]
      exact hcopy

/-! ### What is stored to the output -/

lemma patchFooter_eq_ok
    (havb : boot.flags.avb = true) (h : patchFooter patchVbmeta mem boot off out = .ok out') :
    ∃ out₁, poke out (out.length - avbFooterSz) (newFooter mem boot off) = .ok out₁ ∧
      (if patchVbmeta then poke out₁ (off.vbmeta + 120) (beBytes 4 3) else .ok out₁) =
        .ok out' := by
  rw [patchFooter, if_pos havb] at h
  obtain ⟨place, hplace, h⟩ := bind_eq_ok.mp h
  obtain ⟨-, rfl⟩ := sub_eq_ok.mp hplace
  obtain ⟨out₁, hpoke, h⟩ := bind_eq_ok.mp h
  exact ⟨out₁, hpoke, h⟩

/-- The header that is copied, with new flags if they are asked for. -/
def newVbmeta (patchVbmeta : Bool) (mem : Str) (boot : BootImg) : Str :=
  let blob := window mem (boot.vbmeta.getD 0) (vbmetaSize mem boot)
  if patchVbmeta then patch blob 120 (beBytes 4 3) else blob

namespace PackedBy

variable {t : Tools} {mapSize : Nat} {d : Block → Str} {w₀ w : ImgWriter} {off₀ off : Offsets}
  (h : PackedBy t mem mapSize boot files d w₀ off₀ w off) (hr : Ready mem boot)
  (havb : boot.flags.avb = true)

include h hr havb

/-- The positions behind the image, in an output that is small enough. -/
lemma vbmeta_eq (hin : boot.vbmeta.getD 0 + vbmetaSize mem boot ≤ mem.length)
    (hsmall : (writeTail mem boot mapSize w₀ off₀).1.out.length < 2 ^ 32) :
    off.vbmeta = vbmetaPlace boot off.header (blocksEnd mem boot d) ∧
      off.tail ≤ off.vbmeta ∧ off.header + 4096 ≤ off.vbmeta ∧
      (writeTail mem boot mapSize w₀ off₀).1.out.length =
        (if boot.flags.chromeos then off.vbmeta + vbmetaSize mem boot
        else max (off.vbmeta + vbmetaSize mem boot) mapSize) ∧
      window (writeTail mem boot mapSize w₀ off₀).1.out off.vbmeta (vbmetaSize mem boot) =
        window mem (boot.vbmeta.getD 0) (vbmetaSize mem boot) := by
  have hstop : w₀.out.length = blocksEnd mem boot d := congrArg List.length h.written.laid.out
  have hheader : off.header = off₀.header := by
    rw [h.offsets]
    rfl
  have hlt : off.header < blocksEnd mem boot d := by
    have ha := apart_place hr d
    have hstart := ha.start .kernel
    have hend := ha.stop .kernel
    have hpos := spaceOf_pos hr.page.1
    have heq := h.packed.header
    omega
  obtain ⟨hvbmeta, hlen, hcopy⟩ := writeTail_vbmeta mapSize w₀ off₀ havb hr.page.1
    (by omega) hin
  rw [← hheader, hstop] at hvbmeta hlen hcopy
  obtain ⟨htail, hpage⟩ := le_vbmetaPlace hr.page.1 hlt
  have hsize : vbmetaPlace boot off.header (blocksEnd mem boot d) < 2 ^ 32 := by
    rw [hlen] at hsmall
    split at hsmall <;> omega
  have hplace : off.vbmeta = vbmetaPlace boot off.header (blocksEnd mem boot d) :=
    (congrArg Offsets.vbmeta h.offsets).trans (hvbmeta.trans (Nat.mod_eq_of_lt hsize))
  have heq := h.packed.tail
  rw [hplace]
  exact ⟨rfl, by omega, hpage, hlen, hcopy⟩

variable
  (hsign : boot.flags.avb1Signed = true → ∀ data, off.tail + (t.sign data).length ≤ off.vbmeta)

include hsign

omit hr in
/-- A signature before the header does not make the output longer. -/
lemma length_out : w.out.length = (writeTail mem boot mapSize w₀ off₀).1.out.length := by
  have hle := (h.located.vbmeta havb).2
  obtain ⟨out₁, out₂, out₃, hlen₁, -, hfooter, hpre, hsigned⟩ := exists_of_patchImage h.patch
  have hlen : out₃.length = (writeTail mem boot mapSize w₀ off₀).1.out.length := by
    rw [(patchPreHeader_frame hpre).1, (patchFooter_frame hfooter).1, hlen₁]
  rw [← hlen]
  rw [signPayload] at hsigned
  split at hsigned
  · obtain ⟨payload, -, hsigned⟩ := bind_eq_ok.mp hsigned
    have hfits := hsign ‹_› payload
    rw [← Except.ok.inj hsigned]
    exact length_patch (by omega)
  · rw [Except.ok.inj hsigned]

/-- **Footer and header are stored**, if there is room for the footer behind the header. -/
lemma window_avb (hroomy : Roomy boot)
    (hplaced : off.tail ≤ off.vbmeta ∧ off.header + 4096 ≤ off.vbmeta)
    (hsize : 256 ≤ vbmetaSize mem boot)
    (hcopy : window (writeTail mem boot mapSize w₀ off₀).1.out off.vbmeta (vbmetaSize mem boot) =
      window mem (boot.vbmeta.getD 0) (vbmetaSize mem boot))
    (hroom : off.vbmeta + vbmetaSize mem boot + avbFooterSz ≤ w.out.length) :
    window w.out (w.out.length - avbFooterSz) avbFooterSz = newFooter mem boot off ∧
      window w.out off.vbmeta (vbmetaSize mem boot) = newVbmeta t.patchVbmeta mem boot := by
  have hlen := h.length_out havb hsign
  obtain ⟨out₁, out₂, out₃, hlen₁, hframe, hfooter, hpre, hsigned⟩ := exists_of_patchImage h.patch
  rw [← hlen] at hlen₁
  have hlen₂ := (patchFooter_frame hfooter).1
  have hlen₃ := (patchPreHeader_frame hpre).1
  obtain ⟨out', hpoke, hflags⟩ := patchFooter_eq_ok havb hfooter
  have hlen' := length_poke hpoke
  have hnew := length_newFooter hr havb off
  have hwritten := hframe (h.hdrRoom_packed hr hroomy) _ _
    (h.blocksSpared hr hroomy hplaced.1 (vbmetaSize mem boot))
  rw [hlen₁] at hpoke
  -- behind the image only the footer and the flags are patched
  have hbehind : ∀ o n, off.vbmeta ≤ o → window w.out o n = window out₂ o n := by
    intro o n hle
    rw [window_signPayload hsigned fun hflag => ⟨by omega, .inr fun data => ?_⟩,
      (patchPreHeader_frame hpre).2 (fun _ => .inr (by omega)) fun _ => .inr (by omega)]
    have hfits := hsign hflag data
    omega
  have hflagsLen : (beBytes 4 3).length = 4 := length_beBytes 4 3
  constructor
  · have hself := window_poke_self hpoke (by omega)
    rw [hnew] at hself
    rw [hbehind _ _ (by omega)]
    split at hflags
    · rw [window_poke hflags (.inr (by omega)), hself]
    · rw [← Except.ok.inj hflags, hself]
  · have hsame : window out' off.vbmeta (vbmetaSize mem boot) =
        window mem (boot.vbmeta.getD 0) (vbmetaSize mem boot) := by
      rw [window_poke hpoke (.inl (by omega)), hwritten, hcopy]
    rw [hbehind _ _ le_rfl, newVbmeta]
    split at hflags
    · rw [if_pos ‹_›, poke_eq_ok hflags, take_of_length_le (by omega),
        window_patch_of_inside (by omega) (by omega), hsame]
    · rw [if_neg ‹_›, ← Except.ok.inj hflags, hsame]

end PackedBy

/-! ### Footers that are kept -/

/-- The parts of an output with `len` bytes: the image, the header and the footer. -/
def avbParts (mem : Str) (boot : BootImg) (off : Offsets) (len : Nat) : List ByteView :=
  [⟨off.header, aospImgSize off⟩, ⟨off.vbmeta, vbmetaSize mem boot⟩,
    ⟨len - avbFooterSz, avbFooterSz⟩]

/-- Image, header and footer are apart and in the output, and parsing the output leads to the
header again. -/
structure FooterKept (verify : Str → Str → Bool) (patchVbmeta : Bool) (mem : Str) (boot : BootImg)
    (out : Str) (off : Offsets) : Prop where
  apart : (avbParts mem boot off out.length).Pairwise fun v v' =>
    v.data + v.size ≤ v'.data ∨ v'.data + v'.size ≤ v.data
  inside : ∀ v ∈ avbParts mem boot off out.length, v.data + v.size ≤ out.length
  vbmeta : window out off.vbmeta (vbmetaSize mem boot) = newVbmeta patchVbmeta mem boot
  footer : window out (out.length - avbFooterSz) avbFooterSz = newFooter mem boot off
  found : ∃ boot', bootImg verify out = .ok (some boot') ∧ boot'.flags.avb = true ∧
    boot'.avbFooter = some (out.length - avbFooterSz) ∧ boot'.vbmeta = some off.vbmeta

/-- The new footer has the old magic number and the new position. -/
lemma window_newFooter (hr : Ready mem boot) (havb : boot.flags.avb = true) (off : Offsets) :
    window (newFooter mem boot off) 0 4 = window mem (boot.avbFooter.getD 0) 4 ∧
      window (newFooter mem boot off) 20 8 = beBytes 8 off.vbmeta := by
  have hlen : (window mem (boot.avbFooter.getD 0) avbFooterSz).length = 64 :=
    length_window (hr.footer havb)
  have hsize : (beBytes 8 (aospImgSize off)).length = 8 := length_beBytes _ _
  have hpos : (beBytes 8 off.vbmeta).length = 8 := length_beBytes _ _
  have hlen' : (patch (window mem (boot.avbFooter.getD 0) avbFooterSz) 12
      (beBytes 8 (aospImgSize off))).length = 64 := by
    rw [length_patch (by omega), hlen]
  rw [newFooter]
  constructor
  · rw [window_patch_of_disjoint (by omega) (.inl (by decide)),
      window_patch_of_disjoint (by omega) (.inl (by decide)), window_window (by decide),
      Nat.add_zero]
  · have hself := window_patch_self (patch (window mem (boot.avbFooter.getD 0) avbFooterSz) 12
      (beBytes 8 (aospImgSize off))) 20 (beBytes 8 off.vbmeta) (by omega)
    rwa [hpos] at hself

lemma window_newVbmeta (patchVbmeta : Bool) (hsize : 256 ≤ vbmetaSize mem boot)
    (hin : boot.vbmeta.getD 0 + vbmetaSize mem boot ≤ mem.length) :
    window (newVbmeta patchVbmeta mem boot) 0 4 = window mem (boot.vbmeta.getD 0) 4 := by
  have hlen : (window mem (boot.vbmeta.getD 0) (vbmetaSize mem boot)).length =
      vbmetaSize mem boot := length_window hin
  have hflags : (beBytes 4 3).length = 4 := length_beBytes 4 3
  rw [newVbmeta]
  split
  · rw [window_patch_of_disjoint (by omega) (.inl (by decide)), window_window (by omega),
      Nat.add_zero]
  · rw [window_window (by omega), Nat.add_zero]

lemma mapped_of_dvd (h : getpagesize ∣ file.length) : mapped file = file := by
  rw [mapped, alignTo_of_dvd (by decide) h, Nat.sub_self, replicate_zero, append_nil]

lemma footerSafe_of_le (hstop : stop ≤ mem.length) (hlen : avbFooterSz ≤ mem.length)
    (hin : start + beAt mem (mem.length - avbFooterSz + 20) 8 + 4 ≤ mem.length) :
    FooterSafe mem ⟨start, size⟩ ⟨stop, mem.length - stop⟩ := by
  have hend : stop + (mem.length - stop) = mem.length := Nat.add_sub_cancel' hstop
  rw [FooterSafe]
  simp only [hend]
  rw [avbFooterSz] at hlen ⊢
  exact ⟨hlen, by omega, fun _ => ⟨by omega, hin⟩⟩

lemma length_mapped_eq_iff : (mapped file).length = file.length ↔ getpagesize ∣ file.length := by
  constructor
  · intro heq
    rw [← heq, length_mapped]
    exact dvd_alignTo _
  · intro hdvd
    rw [length_mapped, alignTo_of_dvd (by decide) hdvd]

section Kept

variable {t : Tools} {mapSize : Nat} {content table : Str} {ramdisk : Option Str}
  {w₀ w : ImgWriter} {off₀ off : Offsets} (hr : Ready mem boot)
  (hp : Packable t mem mapSize boot files content ramdisk table)
  (h : PackedBy t mem mapSize boot files (newBlocks t mem boot files content ramdisk table) w₀ off₀
    w off) (havb : boot.flags.avb = true)
  (hsign : boot.flags.avb1Signed = true → ∀ data, off.tail + (t.sign data).length ≤ off.vbmeta)

include hr hp h havb hsign

/-- There is room for the footer just if the original is long enough for it.  Then the output is as
long as the original. -/
lemma PackedBy.room_iff :
    (off.vbmeta + vbmetaSize mem boot + avbFooterSz ≤ w.out.length ↔
      boot.flags.chromeos = false ∧ off.vbmeta + vbmetaSize mem boot + avbFooterSz ≤ mapSize) ∧
    (off.vbmeta + vbmetaSize mem boot + avbFooterSz ≤ w.out.length → w.out.length = mapSize) := by
  obtain ⟨-, -, -, hlen, -⟩ := h.vbmeta_eq hr havb (hp.avb havb).2 (hp.small _ _ h.write)
  rw [h.length_out havb hsign, hlen, avbFooterSz]
  cases boot.flags.chromeos with
  | true =>
    simp only [if_true, reduceCtorEq, false_and, iff_false]
    omega
  | false =>
    simp only [Bool.false_eq_true, if_false, true_and]
    omega

/-- **What is at the end of the output**, if there is room for it. -/
lemma PackedBy.avb_eq (hroom : off.vbmeta + vbmetaSize mem boot + avbFooterSz ≤ w.out.length) :
    window w.out (w.out.length - avbFooterSz) avbFooterSz = newFooter mem boot off ∧
      window w.out off.vbmeta (vbmetaSize mem boot) = newVbmeta t.patchVbmeta mem boot ∧
      window w.out (w.out.length - avbFooterSz) 4 = window mem (boot.avbFooter.getD 0) 4 ∧
      window w.out off.vbmeta 4 = window mem (boot.vbmeta.getD 0) 4 ∧
      beAt w.out (w.out.length - avbFooterSz + 20) 8 = off.vbmeta := by
  obtain ⟨hsize, hin⟩ := hp.avb havb
  have hsmall := hp.small _ _ h.write
  obtain ⟨-, htail, hpage, -, hcopy⟩ := h.vbmeta_eq hr havb hin hsmall
  obtain ⟨hfooter, hvbmeta⟩ := h.window_avb hr havb hsign hp.roomy ⟨htail, hpage⟩ hsize hcopy hroom
  obtain ⟨hmagic, hpos⟩ := window_newFooter hr havb off
  have hmagic' := window_newVbmeta t.patchVbmeta hsize hin
  rw [← hfooter, window_window (by decide)] at hmagic
  rw [← hfooter, window_window (by decide)] at hpos
  rw [← hvbmeta, window_window (by omega)] at hmagic'
  refine ⟨hfooter, hvbmeta, hmagic, hmagic', ?_⟩
  rw [← h.length_out havb hsign] at hsmall
  rw [beAt, hpos, beNat_beBytes]
  exact (by omega : off.vbmeta < 2 ^ 32).trans (by decide)

omit hsign in
/-- The parts are apart and inside just if there is room. -/
lemma PackedBy.avbParts_iff :
    ((avbParts mem boot off w.out.length).Pairwise (fun v v' =>
        v.data + v.size ≤ v'.data ∨ v'.data + v'.size ≤ v.data) ∧
      ∀ v ∈ avbParts mem boot off w.out.length, v.data + v.size ≤ w.out.length) ↔
    off.vbmeta + vbmetaSize mem boot + avbFooterSz ≤ w.out.length := by
  obtain ⟨hsize, hin⟩ := hp.avb havb
  have hsmall := hp.small _ _ h.write
  obtain ⟨-, htail, hpage, -, -⟩ := h.vbmeta_eq hr havb hin hsmall
  have himage := h.located.aospImgSize
  simp only [avbParts, pairwise_cons, mem_cons, not_mem_nil, or_false,
    forall_eq_or_imp, forall_eq, himage, avbFooterSz, List.Pairwise.nil, and_true,
    IsEmpty.forall_iff, implies_true]
  omega

end Kept

/-- A footer that points to a header of 256 bytes at `place`. -/
def avbFooter (place : Nat) : Str :=
  str "AVBf" ++ List.replicate 8 0 ++ beBytes 8 3280 ++ beBytes 8 place ++ beBytes 8 256 ++
    List.replicate 28 0

/-- A small image with the header behind `gap` zeros, and the footer behind `gap'` more. -/
def avbImage (gap gap' : Nat) : Str :=
  smallImage ++ (List.replicate gap 0 ++ (str "AVB0" ++ (List.replicate (252 + gap') 0 ++
    avbFooter (3280 + gap))))

/-- What such an image is parsed as, with the header at `place`. -/
def avbBoot (file : Str) (place : Nat) : BootImg :=
  { BootImg.ofHdr file 0 smallHdr {} with
    flags := { avb := true }
    avbFooter := some (file.length - avbFooterSz)
    vbmeta := some place }

/-- A file with a small image, and a footer that points to a header of 256 bytes at `place`. -/
structure AvbFile (file : Str) (place : Nat) : Prop where
  dvd : getpagesize ∣ file.length
  short : file.length < 2 ^ 30
  small : window file 0 3280 = smallImage
  tail : window file 3280 16 ≠ seandroidMagic ∧ window file 3280 16 ≠ lgBumpMagic
  footer : window file (file.length - avbFooterSz) 4 = str "AVBf"
  position : beAt file (file.length - avbFooterSz + 20) 8 = place
  size : beAt file (file.length - avbFooterSz + 28) 8 = 256
  vbmeta : window file place 4 = str "AVB0"
  inside : place + 256 ≤ file.length

namespace AvbFile

variable {place : Nat} (h : AvbFile file place)

include h

lemma bootImg_eq : bootImg (fun _ _ => false) file = .ok (some (avbBoot file place)) := by
  have hmap := mapped_of_dvd h.dvd
  have hin := h.inside
  obtain ⟨hpay, hview, -⟩ := @payload_small file 0 {}
  have hlong : 4096 ≤ file.length := Nat.le_of_dvd (by omega) h.dvd
  have hend : 0 + 3280 + (file.length - (0 + 3280)) - avbFooterSz = file.length - avbFooterSz :=
    ByteView.footer_of_le (by omega)
  have hflags : tailFlags file (fun _ _ => false) (.ofHdr file 0 smallHdr {}) = {} := by
    have hbytes : ((BootImg.ofHdr file 0 smallHdr {}).tail.bytes file).take 16 =
        window file 3280 16 := by
      have hmin : min 16 (file.length - (0 + 3280)) = 16 := by omega
      rw [hview, ByteView.bytes, window, take_take, hmin]
      rfl
    rw [tailFlags, hbytes, if_neg fun hif => h.tail.1 hif.2, if_neg fun hif => h.tail.2 hif.2,
      flags_ofHdr hasSha256_smallHdr]
    rfl
  have hparse : parseTail file (fun _ _ => false) (.ofHdr file 0 smallHdr {}) =
      .ok (avbBoot file place) := by
    have hsize : file.length - (0 + 3280) ≠ 0 := by omega
    rw [parseTail, hflags, if_neg (by rwa [hview]), parseFooter]
    simp only [hview, hpay]
    refine bind_eq_ok.mpr ⟨_, if_pos (by rw [avbFooterSz]; omega), ?_⟩
    refine bind_eq_ok.mpr ⟨_, load_of_le (by rw [avbFooterSz]; omega), ?_⟩
    rw [hend, h.footer]
    refine bind_eq_ok.mpr ⟨_, loadBE_of_le (by rw [avbFooterSz]; omega), ?_⟩
    rw [h.position, Nat.zero_add]
    refine bind_eq_ok.mpr ⟨_, load_of_le (by omega), ?_⟩
    rw [h.vbmeta]
    rfl
  exact bootImg_small (by omega) (by rw [hmap, h.small]) (by rw [hmap, hparse])

lemma vbmetaSize_eq : vbmetaSize (mapped file) (avbBoot file place) = 256 := by
  rw [mapped_of_dvd h.dvd]
  exact h.size

/-- It can be packed again, and is then found. -/
lemma reparsable :
    Reparsable sampleTools (mapped file) file.length (avbBoot file place) {} [0] none [] := by
  have hmap := mapped_of_dvd h.dvd
  refine reparsable_small (ready_of_bootImg h.bootImg_eq) rfl ⟨rfl, rfl⟩ rfl rfl rfl
    (by rw [hmap, h.small]) (@payload_small file 0 {}).2.2 (fun _ => ?_) ⟨h.short, fun _ => ?_⟩
    (by simp [BootImg.behindLoader, avbBoot]) (by simp [PreHeaderFirst, avbBoot])
  · rw [h.vbmetaSize_eq, hmap]
    exact ⟨le_rfl, h.inside⟩
  · rw [h.vbmetaSize_eq]
    decide

lemma vbmetaPlace_eq : blocksEnd (mapped file) (avbBoot file place)
    (newBlocks sampleTools (mapped file) (avbBoot file place) {} [0] none []) = 3280 ∧
      preHeader (mapped file) (avbBoot file place) = [] ∧
      vbmetaPlace (avbBoot file place) 0 3280 = 4096 := by
  have hpre : preHeader (mapped file) (avbBoot file place) = [] := by simp [preHeader, avbBoot]
  have hpage : (avbBoot file place).hdr.get .pageSize = 1640 := oneKernel_smallHdr.get .pageSize
  have htrailer : vendorTrailer (avbBoot file place) = [] := by simp [vendorTrailer, avbBoot]
  refine ⟨?_, hpre, ?_⟩
  · rw [blocksEnd_small (ready_of_bootImg h.bootImg_eq) rfl ⟨rfl, rfl⟩ rfl]
    rfl
  · rw [vbmetaPlace, htrailer, hpage]
    decide

end AvbFile

lemma length_avbImage (gap gap' : Nat) : (avbImage gap gap').length = 3600 + gap + gap' := by
  have hfooter : (avbFooter (3280 + gap)).length = 64 := rfl
  have hmagic : (str "AVB0").length = 4 := rfl
  simp only [avbImage, length_append, length_smallImage, length_replicate]
  omega

lemma window_avbImage (hle : 3280 ≤ o) :
    window (avbImage gap gap') o n = window (List.replicate gap 0 ++ (str "AVB0" ++
      (List.replicate (252 + gap') 0 ++ avbFooter (3280 + gap)))) (o - 3280) n := by
  have hlen := length_smallImage
  rw [avbImage, window_append_right (by omega), hlen]

lemma window_avbImage_footer (gap gap' o n : Nat) :
    window (avbImage gap gap') ((avbImage gap gap').length - avbFooterSz + o) n =
      window (avbFooter (3280 + gap)) o n := by
  have hmagic : (str "AVB0").length = 4 := rfl
  have hzeros : ∀ k, (List.replicate k (0 : UInt8)).length = k := fun _ => length_replicate
  rw [length_avbImage, avbFooterSz, window_avbImage (by omega),
    window_append_right (by rw [hzeros]; omega),
    window_append_right (by rw [hzeros]; omega),
    window_append_right (by rw [hzeros, hzeros]; omega), hmagic, hzeros, hzeros]
  congr 1
  omega

/-- Such files, if they end with a page. -/
lemma avbFile_avbImage (hdvd : getpagesize ∣ 3600 + gap + gap')
    (hshort : 3600 + gap + gap' < 2 ^ 30)
    (htail : window (avbImage gap gap') 3280 16 ≠ seandroidMagic ∧
      window (avbImage gap gap') 3280 16 ≠ lgBumpMagic) :
    AvbFile (avbImage gap gap') (3280 + gap) where
  dvd := by rwa [length_avbImage]
  short := by rwa [length_avbImage]
  small := by
    rw [avbImage, window_append_left length_smallImage.ge, ← length_smallImage, window_length]
  tail := htail
  footer := (window_avbImage_footer gap gap' 0 4).trans rfl
  position := by
    rw [beAt, window_avbImage_footer]
    have hwindow : window (avbFooter (3280 + gap)) 20 8 = beBytes 8 (3280 + gap) := rfl
    rw [hwindow, beNat_beBytes]
    omega
  size := by
    rw [beAt, window_avbImage_footer]
    have hwindow : window (avbFooter (3280 + gap)) 28 8 = beBytes 8 256 := rfl
    rw [hwindow]
    decide
  vbmeta := by
    have hzeros : (List.replicate gap (0 : UInt8)).length = gap := length_replicate
    rw [window_avbImage (by omega), window_append_right (by rw [hzeros]; omega), hzeros,
      Nat.add_sub_cancel_left, Nat.sub_self]
    rfl
  inside := by
    rw [length_avbImage]
    omega

lemma avbFile_long : AvbFile (avbImage 816 3776) 4096 :=
  avbFile_avbImage (by decide) (by decide) (by rw [window_avbImage le_rfl]; decide)

lemma avbFile_short : AvbFile (avbImage 0 496) 3280 :=
  avbFile_avbImage (by decide) (by decide) (by rw [window_avbImage le_rfl]; decide)

end Magisk.Boot
