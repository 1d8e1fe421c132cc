import Magisk.Boot.AvbFooter

/-!
# Parts of a boot image that lie outside of it

The parser of boot images goes by numbers of the file.  What it takes for a part of the file, of
the table of ramdisks, of the ramdisk and of the tail is one under conditions on these numbers.

* `scanInside_iff`: the lengths that `check_fmt` is given while a header is searched for;
* `tableInside_iff`: the table of ramdisks, and the ramdisks in it;
* `avbInside_iff`: the footer, and the header that it points to.
-/

namespace Magisk.Boot

open Magisk.Base Magisk.Lib List

variable {verify : Str → Str → Bool} {mem : Str} {boot : BootImg}

/-! ### The search for a header -/

section Scan

variable {file : Str}

/-- Each `check_fmt` of the search is given no more than what is left of the file. -/
def ScanInside (verify : Str → Str → Bool) (file : Str) : Prop :=
  ∀ s, Visited (scanStep verify (mapped file) file.length) (0, {}) s → s.1 < file.length →
    file.length ≤ file.length - s.1

/-- The search does not come to a second address in the file. -/
def OneAddress (verify : Str → Str → Bool) (file : Str) : Prop :=
  match checkFmt file with
  | .chromeos => file.length ≤ 65536
  | .dhtb => file.length ≤ dhtbHdrSz
  | .blob => file.length ≤ blobHdrSz
  | .aosp | .aospVendor => file.length ≤ 1 ∨
      ∀ flags, parseImage verify (mapped file) 0 (checkFmt file) {} ≠ .ok (.rejected flags)
  | _ => file.length ≤ 1

lemma checkFmtAt_mapped (file : Str) :
    checkFmtAt (mapped file) 0 file.length = .ok (checkFmt file) := by
  rw [checkFmtAt_eq (by rw [Nat.zero_add]; exact le_length_mapped file),
    window_mapped (Nat.zero_add _).le, window_length]

/-- All that counts is where the first address leads to. -/
lemma scanInside_iff_next : ScanInside verify file ↔
    ∀ t, scanStep verify (mapped file) file.length (0, {}) = .ok (.inl t) → file.length ≤ t.1 := by
  constructor
  · intro h t ht
    have hpos : 0 < t.1 ∧ 0 < file.length := scanStep_lt ht
    have hlen := h t (.next ht (.refl t))
    omega
  · intro h s hs hlt
    cases hs with
    | refl => exact le_rfl
    | @next _ t _ ht hs =>
      have hle : t.1 ≤ s.1 := hs.invariant (P := fun s => t.1 ≤ s.1) le_rfl fun _ _ hle hst =>
        hle.trans (scanStep_lt hst).1.le
      exact absurd hlt (not_lt.mpr ((h t ht).trans hle))

lemma tryImage_next {type : FileFormat} : (∀ t, tryImage verify mem 0 type {} = .ok (.inl t) →
    file.length ≤ t.1) ↔ file.length ≤ 1 ∨
      ∀ flags, parseImage verify mem 0 type {} ≠ .ok (.rejected flags) := by
  rw [tryImage]
  constructor
  · refine fun h => or_iff_not_imp_right.mpr fun hrej => ?_
    obtain ⟨flags, hrej⟩ := not_forall_not.mp hrej
    exact h (1, flags) (bind_eq_ok.mpr ⟨_, hrej, rfl⟩)
  · rintro h t ht
    obtain ⟨parsed, hparsed, ht⟩ := bind_eq_ok.mp ht
    cases parsed with
    | accepted img => cases ht
    | exited => cases ht
    | rejected flags =>
      cases ht
      exact h.resolve_right fun hne => hne flags hparsed

/-- **The lengths are inside the file if and only if the search has a single address.** -/
theorem scanInside_iff (verify : Str → Str → Bool) (file : Str) :
    ScanInside verify file ↔ OneAddress verify file := by
  rw [scanInside_iff_next, OneAddress]
  by_cases hpos : 0 < file.length
  · rw [scanStep, if_pos hpos, checkFmtAt_mapped]
    have hok : ∀ s : Nat × Flags, (∀ t, Except.ok (ε := Fault) (Sum.inl (β := Option BootImg) s) =
        .ok (.inl t) → file.length ≤ t.1) ↔ file.length ≤ s.1 := fun s =>
      ⟨fun h => h s rfl, fun h t ht => by cases ht; exact h⟩
    cases hfmt : checkFmt file
    case aosp | aospVendor => exact tryImage_next
    all_goals exact (hok _).trans (by rw [Nat.zero_add])
  · obtain rfl := length_eq_zero_iff.mp (Nat.eq_zero_of_not_pos hpos)
    exact iff_of_true (fun t ht => Nat.zero_le _) (Nat.zero_le 1)

/-- The second of two zeros is looked at with the length of both. -/
theorem not_scanInside_zeros : ¬ScanInside (fun _ _ => false) [0, 0] := by
  have hstep : scanStep (fun _ _ => false) (mapped [0, 0]) 2 (0, {}) = .ok (.inl (1, {})) := by
    rw [scanStep, if_pos (by decide)]
    exact bind_eq_ok.mpr ⟨_, checkFmtAt_mapped [0, 0], rfl⟩
  intro h
  exact absurd (h (1, {}) (.next hstep (.refl _)) (by decide)) (by decide)

end Scan

/-! ### The table of ramdisks -/

/-- All bytes of a part lie in another one. -/
def ByteView.Within (v : ByteView) (start size : Nat) : Prop :=
  v.size ≠ 0 → start ≤ v.data ∧ v.data + v.size ≤ start + size

instance (v : ByteView) (start size : Nat) : Decidable (v.Within start size) :=
  inferInstanceAs (Decidable (_ → _))

/-- `vendor_ramdisk_tbl`: the bytes of its entries, and `none` if it ends the program. -/
def BootImg.vendorRamdiskTbl (img : BootImg) : Option ByteView :=
  if img.size .vendorRamdiskTable = 0 then some ⟨0, 0⟩
  else if img.hdr.get .vendorRamdiskTableEntrySize ≠ tableEntrySz then none
  else some ⟨img.ptr .vendorRamdiskTable, tableEntrySz * img.hdr.get .vendorRamdiskTableEntryNum⟩

/-- The bytes that `unpack` writes for an entry. -/
def entryBytes (mem : Str) (ramdisk entry : Nat) : ByteView :=
  ⟨ramdisk + u32At mem (entry + 4), u32At mem entry⟩

/-- The entries are bytes of the table, and what they stand for are bytes of the ramdisk. -/
def TableInside (mem : Str) (boot : BootImg) : Prop :=
  match boot.vendorRamdiskTbl with
  | none => True
  | some tbl =>
    tbl.Within (boot.ptr .vendorRamdiskTable) (boot.size .vendorRamdiskTable) ∧
      ∀ i < tbl.size / tableEntrySz,
        (entryBytes mem (boot.ptr .ramdisk) (tbl.data + tableEntrySz * i)).Within
          (boot.ptr .ramdisk) (boot.size .ramdisk)

instance (mem : Str) (boot : BootImg) : Decidable (TableInside mem boot) := by
  unfold TableInside
  split <;> infer_instance

/-- The entries fit the size of the table in the header, and what they stand for the size of the
ramdisk. -/
def TableFits (mem : Str) (addr : Nat) (hdr : ImgHdr) : Prop :=
  let table := blockOffset (hdr.get .pageSize) (spaceOf hdr) (hdr.get ·.sizeField)
    .vendorRamdiskTable
  hdr.get .vendorRamdiskTableSize ≠ 0 → hdr.get .vendorRamdiskTableEntrySize = tableEntrySz →
    tableEntrySz * hdr.get .vendorRamdiskTableEntryNum ≤ hdr.get .vendorRamdiskTableSize ∧
      ∀ i < hdr.get .vendorRamdiskTableEntryNum,
        let entry := addr + table + tableEntrySz * i
        u32At mem entry ≠ 0 → u32At mem (entry + 4) + u32At mem entry ≤ hdr.get .ramdiskSize

/-- The blocks that the table is about stay as they are. -/
lemma parseBlocks_table {img : BootImg} (h : parseBlocks verify mem img = .ok (.accepted boot)) :
    (∀ f, f ≠ .kernelSize → f ≠ .ramdiskSize → f ≠ .extraSize → boot.hdr.get f = img.hdr.get f) ∧
      boot.ptr .vendorRamdiskTable = img.ptr .vendorRamdiskTable ∧
      (img.size .vendorRamdiskTable ≠ 0 → boot.size .ramdisk = img.size .ramdisk) := by
  obtain ⟨img1, img2, eFmt, h1, h2, h3, h4⟩ := parseBlocks_eq_ok h
  have hn1 := parseKernel_narrowed h1
  have hn2 := parseRamdisk_narrowed h2
  have hn3 := (parseExtra_narrowed h3).trans (parseTail_narrowed h4)
  refine ⟨fun f hkernel hramdisk hextra => ?_, ?_, fun htable => ?_⟩
  · rw [hn3.get f hextra, hn2.get f hramdisk, hn1.get f hkernel]
  · rw [hn3.ptr _ (by decide), hn2.ptr _ (by decide), hn1.ptr _ (by decide)]
  · rcases parseRamdisk_cases h2 with ⟨rfl, -⟩ | ⟨hzero, -⟩
    · rw [hn3.size (by decide), hn1.size (by decide)]
    · rw [hn1.size (by decide)] at hzero
      exact absurd hzero htable

/-- **The table and its ramdisks are inside if and only if the numbers of the file fit.** -/
theorem tableInside_iff {addr addr' : Nat} {type : FileFormat} {flags flags' : Flags}
    {hdr : ImgHdr} (hhdr : parseHdr mem addr type flags = .ok (addr', some hdr, flags'))
    (h : parseImage verify mem addr type flags = .ok (.accepted boot)) :
    TableInside mem boot ↔ TableFits mem addr' hdr := by
  obtain ⟨_, _, _, hhdr', -, -, hblocks⟩ := exists_of_parseImage h
  cases hhdr.symm.trans hhdr'
  obtain ⟨(hget : ∀ f, _ → _ → _ → boot.hdr.get f = hdr.get f),
    (hptr : _ = addr' + blockOffset _ _ (hdr.get ·.sizeField) _), hramdisk⟩ :=
    parseBlocks_table hblocks
  have hsize : boot.size .vendorRamdiskTable = hdr.get .vendorRamdiskTableSize :=
    hget _ (by decide) (by decide) (by decide)
  rw [TableInside, TableFits, BootImg.vendorRamdiskTbl, hptr, hsize,
    hget _ (by decide) (by decide) (by decide), hget _ (by decide) (by decide) (by decide)]
  by_cases hzero : hdr.get .vendorRamdiskTableSize = 0
  · simp [hzero, ByteView.Within]
  · have hsize' : _ = hdr.get .ramdiskSize := hramdisk hzero
    by_cases hentry : hdr.get .vendorRamdiskTableEntrySize = tableEntrySz
    · rw [if_neg hzero, if_neg (not_not.mpr hentry), imp_iff_right hzero, imp_iff_right hentry,
        hsize']
      dsimp only [ByteView.Within, entryBytes]
      rw [Nat.mul_div_cancel_left _ (by decide)]
      exact and_congr (by omega) (forall₂_congr fun i _ => forall_congr' fun _ => by omega)
    · simp [hzero, hentry]

/-- An image with one ramdisk of one byte, which its entry says to be at `offset`. -/
def tableImage (offset : Nat) : Str :=
  vendorBootMagic ++ leBytes 4 4 ++ leBytes 4 1 ++ List.replicate 8 0 ++ leBytes 4 1 ++
    List.replicate 2084 0 ++ leBytes 4 108 ++ leBytes 4 1 ++ leBytes 4 108 ++ leBytes 4 0 ++
    [0] ++ leBytes 4 1 ++ leBytes 4 offset ++ List.replicate 1959 0

/-- An image is accepted, with a property that is decided. -/
def acceptedWith (p : BootImg → Prop) [DecidablePred p] : Except Fault Parsed → Bool
  | .ok (.accepted boot) => p boot
  | _ => false

lemma exists_of_acceptedWith {p : BootImg → Prop} [DecidablePred p] {r : Except Fault Parsed}
    (h : acceptedWith p r = true) : ∃ boot, r = .ok (.accepted boot) ∧ p boot := by
  unfold acceptedWith at h
  split at h
  · exact ⟨_, rfl, of_decide_eq_true h⟩
  · cases h

/-- The ramdisk of the image lies inside. -/
theorem tableInside_tableImage :
    ∃ boot addr hdr flags, parseHdr (tableImage 0) 0 .aospVendor {} = .ok (addr, some hdr, flags) ∧
      parseImage (fun _ _ => false) (tableImage 0) 0 .aospVendor {} = .ok (.accepted boot) ∧
      TableInside (tableImage 0) boot ∧ TableFits (tableImage 0) addr hdr := by
  obtain ⟨boot, h, hin⟩ : ∃ boot, parseImage (fun _ _ => false) (tableImage 0) 0 .aospVendor {} =
      .ok (.accepted boot) ∧ TableInside (tableImage 0) boot :=
    exists_of_acceptedWith (by decide +kernel)
  obtain ⟨addr, hdr, flags, hhdr, -⟩ := exists_of_parseImage h
  exact ⟨boot, addr, hdr, flags, hhdr, h, hin, (tableInside_iff hhdr h).mp hin⟩

/-- An entry of the image stands for a byte of the table. -/
theorem not_tableInside_tableImage :
    ∃ boot, parseImage (fun _ _ => false) (tableImage 1) 0 .aospVendor {} = .ok (.accepted boot) ∧
      ¬TableInside (tableImage 1) boot :=
  exists_of_acceptedWith (by decide +kernel)

/-! ### The footer -/

/-- The footer that is looked at is in the tail, and with a flag for it the header that it points
to and all that is copied from there are in the mapping. -/
def AvbInside (mem : Str) (boot : BootImg) : Prop :=
  (boot.tail.size ≠ 0 → avbFooterSz ≤ boot.tail.size) ∧
    (boot.flags.avb = true → boot.vbmeta.getD 0 + 256 ≤ mem.length ∧
      boot.vbmeta.getD 0 + vbmetaSize mem boot ≤ mem.length)

instance (mem : Str) (boot : BootImg) : Decidable (AvbInside mem boot) :=
  inferInstanceAs (Decidable (_ ∧ _))

/-- What comes after the blocks is empty or has room for a footer, and the header that the footer
points to has room for its size. -/
def FooterFits (mem : Str) (addr : Nat) (hdr : ImgHdr) : Prop :=
  let stop := addr + endOffset (hdr.get .pageSize) (spaceOf hdr) (blockSizes hdr)
  let footer := mem.length - avbFooterSz
  let vbmeta := addr + beAt mem (footer + 20) 8
  stop = mem.length ∨ stop + avbFooterSz ≤ mem.length ∧
    (window mem footer 4 = str "AVBf" → window mem vbmeta 4 = str "AVB0" →
      vbmeta + 256 ≤ mem.length ∧ vbmeta + beAt mem (footer + 28) 8 ≤ mem.length)

/-- **The footer and the header are inside if and only if the numbers of the file fit.**  The
flags are as they are before an image was accepted. -/
theorem avbInside_iff {addr addr' : Nat} {type : FileFormat} {flags flags' : Flags} {hdr : ImgHdr}
    (hfresh : FreshFlags flags)
    (hhdr : parseHdr mem addr type flags = .ok (addr', some hdr, flags'))
    (h : parseImage verify mem addr type flags = .ok (.accepted boot)) :
    AvbInside mem boot ↔ FooterFits mem addr' hdr := by
  obtain ⟨_, _, _, hhdr', -, hfit, hblocks⟩ := exists_of_parseImage h
  cases hhdr.symm.trans hhdr'
  obtain ⟨img, htail, hpayload, htail', _, _, _, hflags⟩ := exists_parseTail hblocks
  have hfresh' : img.flags.avb = false := by
    rw [hflags]
    exact ((untouched_ofHdr _ addr' hdr (hfresh.parseHdr hhdr)).2).avb
  have hsame : boot.tail = img.tail := (parseTail_narrowed htail).tail
  have hstart : img.payload.data = addr' := by rw [hpayload]; rfl
  have hfooter : img.tail.footer = mem.length - avbFooterSz := by
    rw [htail']
    exact ByteView.footer_of_le hfit
  have hsize : img.tail.size = mem.length -
      (addr' + endOffset (hdr.get .pageSize) (spaceOf hdr) (blockSizes hdr)) := by rw [htail']; rfl
  rw [Fits] at hfit
  rw [AvbInside, FooterFits, hsame]
  constructor
  · rintro ⟨hin, hvbmeta⟩
    by_cases hzero : img.tail.size = 0
    · exact .inl (by omega)
    · have hroom := hin hzero
      refine .inr ⟨by rw [avbFooterSz] at hroom ⊢; omega, fun hmagic hmagic' => ?_⟩
      rw [← hfooter, ← hstart] at hmagic'
      obtain ⟨havb, hnote, hnote'⟩ := parseTail_footer htail hzero (hfooter ▸ hmagic) hmagic'
      have hboth := hvbmeta havb
      rwa [vbmetaSize, hnote, hnote', hfooter, hstart] at hboth
  · rintro (hstop | ⟨hroom, hvbmeta⟩)
    · have hzero : img.tail.size = 0 := by omega
      rw [parseTail, if_pos hzero] at htail
      cases htail
      exact ⟨fun hne => absurd hzero hne, fun havb => absurd havb (ne_true_of_eq_false hfresh')⟩
    · refine ⟨fun _ => by omega, fun havb => ?_⟩
      obtain ⟨hmagic, hmagic', hnote, hnote'⟩ := avb_of_parseTail htail hfresh' havb
      rw [hfooter, hstart] at hmagic' hnote'
      rw [hfooter] at hmagic hnote
      rw [vbmetaSize, hnote, hnote']
      exact hvbmeta hmagic hmagic'

/-- An image without blocks, with a footer that points to a header of `size` bytes. -/
def footerImage (size : Nat) : Str :=
  vendorBootMagic ++ leBytes 4 3 ++ leBytes 4 1 ++ List.replicate 2096 0 ++ str "AVB0" ++
    List.replicate 1916 0 ++ str "AVBf" ++ List.replicate 16 0 ++ beBytes 8 2112 ++
    beBytes 8 size ++ List.replicate 28 0

/-- A header of 256 bytes lies inside. -/
theorem avbInside_footerImage :
    ∃ boot addr hdr flags,
      parseHdr (footerImage 256) 0 .aospVendor {} = .ok (addr, some hdr, flags) ∧
      parseImage (fun _ _ => false) (footerImage 256) 0 .aospVendor {} = .ok (.accepted boot) ∧
      boot.flags.avb = true ∧ AvbInside (footerImage 256) boot ∧
      FooterFits (footerImage 256) addr hdr := by
  obtain ⟨boot, h, havb, hin⟩ :
      ∃ boot, parseImage (fun _ _ => false) (footerImage 256) 0 .aospVendor {} =
        .ok (.accepted boot) ∧ boot.flags.avb = true ∧ AvbInside (footerImage 256) boot :=
    exists_of_acceptedWith (by decide +kernel)
  have hfresh : FreshFlags {} := ⟨rfl, rfl, rfl, rfl, fun h => h⟩
  obtain ⟨addr, hdr, flags, hhdr, -⟩ := exists_of_parseImage h
  exact ⟨boot, addr, hdr, flags, hhdr, h, havb, hin, (avbInside_iff hfresh hhdr h).mp hin⟩

/-- All bytes from the header on would be copied, up to the last address. -/
theorem not_avbInside_footerImage :
    ∃ boot, parseImage (fun _ _ => false) (footerImage (2 ^ 64 - 1)) 0 .aospVendor {} =
      .ok (.accepted boot) ∧ boot.flags.avb = true ∧
        ¬AvbInside (footerImage (2 ^ 64 - 1)) boot :=
  exists_of_acceptedWith (by decide +kernel)

end Magisk.Boot
