import Magisk.Boot.FmtWalk
import Magisk.Boot.Lz4
import Magisk.Boot.SelfConsistent
import Magisk.Boot.Zimage

/-!
# The two variants of LZ4 archives

The format of an archive does not say whether it ends with the total size.  `check_fmt_lg` finds it
out by walking over the blocks: a total size is taken for the size of one more block, which is not
there.

* `lz4Variant`: the format that an encoder writes;
* `checkFmtLg_lz4Encode`: the format that is found for what it has written;
* `checkFmtLg_of_bootImg`: the formats of an image that was parsed;
* `lz4_variant_kept`: a kernel or a ramdisk is compressed again in the variant that it had.
-/

namespace Magisk.Boot

open Magisk.Base Magisk.Lib List Option

/-- The format that `LZ4BlockEncoder` writes. -/
def lz4Variant (isLg : Bool) : FileFormat := if isLg then .lz4Lg else .lz4Legacy

/-! ### The walk over what was written -/

variable {buf m : Str} {isLg : Bool} {img : BootImg}

lemma not_holds_of_head {bytes : Str} (hne : bytes ≠ []) (h : bytes.head? ≠ buf.head?) :
    (FmtCheck.magic 0 bytes).holds buf = false := by
  cases bytes with
  | nil => exact absurd rfl hne
  | cons c bytes =>
    cases buf with
    | nil => rfl
    | cons d buf =>
      have hcd : d ≠ c := fun heq => h (by rw [heq]; rfl)
      simp [FmtCheck.holds, window, hcd]

/-- An archive starts with the magic number of LZ4. -/
lemma checkFmt_lz4 (rest : Str) : checkFmt (podU32 lz4Magic ++ rest) = .lz4Legacy := by
  have hmagic : podU32 lz4Magic = lz4LegMagic := by decide
  have hnot : (fmtChecks.take 11).find? (fun c => c.1.holds (lz4LegMagic ++ rest)) = none := by
    rw [find?_eq_none]
    intro c hc
    rw [Bool.not_eq_true]
    fin_cases hc
    -- all but the check for LZMA look for a magic number
    all_goals first
      | exact not_holds_of_head (by decide) (by simp [lz4LegMagic]; decide)
      | simp [FmtCheck.holds, guessLzma, window, lz4LegMagic]
  rw [hmagic, checkFmt, ← take_append_drop 11 fmtChecks, find?_append, hnot,
    none_or, show fmtChecks.drop 11 = (.magic 0 lz4LegMagic, .lz4Legacy) ::
      fmtChecks.drop 12 from rfl]
  rfl

section Walk

variable {mem : Str} {p : Nat} {L : Lz4}

lemma loadU32_of_window (hmem : window mem p buf.length = buf)
    (hle : p + buf.length ≤ mem.length) (rest : Str) (hbuf : buf = pre ++ leBytes 4 v ++ rest)
    (hv : v < 2 ^ 32) : loadU32 mem (p + pre.length) = .ok v := by
  have hlen := congrArg List.length hbuf
  rw [length_append, length_append, length_leBytes] at hlen
  have hpart : window mem (p + pre.length) 4 = leBytes 4 v := by
    rw [← window_window (l := mem) (n := buf.length) (by omega), hmem, hbuf, append_assoc,
      window_append_right le_rfl, Nat.sub_self, window_append_left (by rw [length_leBytes])]
    have hself := window_length (leBytes 4 v)
    rwa [length_leBytes] at hself
  rw [loadU32, load_of_le (by omega), hpart]
  exact congrArg _ (leNat_leBytes hv)

/-- **The walk over the blocks** ends at the trailer, or at the end if there is none. -/
lemma loop_lgStep_blocks {total : Nat} (htotal : 0 < total) {blocks : List Str}
    (hmem : window mem p buf.length = buf) (hle : p + buf.length ≤ mem.length)
    (hbuf : buf = pre ++ blocks.flatMap (encodeBlock L) ++
      if isLg then podU32 (.ofNat total) else [])
    (hsize : total + buf.length < 2 ^ 32)
    {dec : ∀ s t, lgStep mem p buf.length s = .ok (.inl t) → size t < size s} :
    loop (lgStep mem p buf.length) size dec pre.length = .ok (lz4Variant isLg) := by
  induction blocks generalizing pre with
  | nil =>
    rw [flatMap_nil, append_nil] at hbuf
    have hlen := congrArg List.length hbuf
    rw [loop_eq]
    cases isLg with
    | false =>
      simp only [Bool.false_eq_true, if_false, append_nil] at hlen
      have hstep : lgStep mem p buf.length pre.length = .ok (.inr .lz4Legacy) :=
        if_neg (by omega)
      rw [hstep]
      rfl
    | true =>
      simp only [if_true, length_append, podU32, length_leBytes] at hlen
      have hofNat : (UInt32.ofNat total).toNat = total :=
        UInt32.toNat_ofNat_of_lt' (by rw [UInt32.size]; omega)
      have hload : loadU32 mem (p + pre.length) = .ok total := by
        refine loadU32_of_window hmem hle [] ?_ (by omega)
        rw [append_nil, hbuf, if_pos rfl, podU32, hofNat]
      have hstep : lgStep mem p buf.length pre.length = .ok (.inr .lz4Lg) := by
        rw [lgStep, if_pos (by omega), hload, ok_bind, if_neg (by omega), if_pos (by omega)]
      rw [hstep]
      rfl
  | cons b blocks ih =>
    rw [flatMap_cons] at hbuf
    have hlen := congrArg List.length hbuf
    simp only [length_append, encodeBlock, podU32, length_leBytes] at hlen
    have hofNat : (UInt32.ofNat (L.compress b).length).toNat = (L.compress b).length :=
      UInt32.toNat_ofNat_of_lt' (by rw [UInt32.size]; omega)
    have hload : loadU32 mem (p + pre.length) = .ok (L.compress b).length := by
      refine loadU32_of_window hmem hle (L.compress b ++
        (blocks.flatMap (encodeBlock L) ++ if isLg then podU32 (.ofNat total) else [])) ?_
        (by omega)
      rw [hbuf, encodeBlock, podU32, hofNat]
      simp
    have hstep : lgStep mem p buf.length pre.length =
        .ok (.inl (pre ++ encodeBlock L b).length) := by
      rw [lgStep, if_pos (by omega), hload, ok_bind, if_neg (by omega), if_neg (by omega)]
      simp only [encodeBlock, podU32, length_append, length_leBytes, Nat.add_assoc]
    rw [loop_eq, hstep]
    refine ih ?_
    rw [hbuf]
    simp

/-- **The variant that was written is found.** -/
lemma checkFmtLg_lz4Encode (isLg : Bool) {writes : List Str} (hwrites : ∀ w ∈ writes, w ≠ [])
    (hne : writes.flatten ≠ [])
    (hsize : writes.flatten.length + (lz4Encode L isLg writes).length < 2 ^ 32)
    (hmem : window mem p (lz4Encode L isLg writes).length = lz4Encode L isLg writes)
    (hle : p + (lz4Encode L isLg writes).length ≤ mem.length) :
    checkFmtLg mem p (lz4Encode L isLg writes).length = .ok (lz4Variant isLg) := by
  obtain ⟨blocks, hflat, -, henc⟩ := encode_spec L isLg hwrites (by omega)
  have hblocks : blocks ≠ [] := fun hnil => hne (by rw [← hflat, hnil, flatten_nil])
  rw [if_neg hblocks] at henc
  have hfmt : checkFmt (lz4Encode L isLg writes) = .lz4Legacy := by
    rw [henc]
    exact checkFmt_lz4 _
  rw [checkFmtLg, checkFmtAt_eq hle, hmem, hfmt]
  have hpos : 0 < writes.flatten.length := length_pos_of_ne_nil hne
  exact loop_lgStep_blocks hpos hmem hle henc hsize

end Walk

/-! ### The formats of an image -/

section Image

variable {mem : Str}

lemma checkFmtLg_withKernelFmt (h : blockFmt mem img .kernel = .ok fmt) :
    checkFmtLg mem ((img.withKernelFmt fmt).ptr .kernel) ((img.withKernelFmt fmt).size .kernel) =
      .ok (img.withKernelFmt fmt).kFmt := by
  obtain ⟨mtk, kFmt⟩ := fmt
  rcases blockFmt_eq_ok.mp h with ⟨rfl, -, hfmt⟩ | ⟨rfl, -, hle, hfmt⟩
  · exact hfmt
  · obtain ⟨hsize, hptr⟩ := cutMtk_self hle
    rw [← hsize] at hfmt
    exact hfmt

/-- **The format of a kernel** that was parsed is that of its content. -/
lemma checkFmtLg_parseKernel (h : parseKernel mem img = .ok img') (hne : img'.size .kernel ≠ 0) :
    checkFmtLg mem (img'.ptr .kernel) (img'.size .kernel) = .ok img'.kFmt := by
  rcases parseKernel_cases h with ⟨hzero, rfl⟩ | ⟨d, fmt, -, hfmt, hzimage⟩
  · exact absurd hzero hne
  · have hplain := checkFmtLg_withKernelFmt hfmt
    rcases hzimage with rfl | hzimage
    · exact hplain
    · rcases parseZimage_cases hzimage with ⟨_, rfl⟩ | ⟨hdrSz, stop, kFmt, -, hsize, hkFmt, rfl⟩
      · exact hplain
      · obtain ⟨hsize', hptr⟩ := cutZimage_self hsize hdrSz kFmt
        rw [hsize']
        exact hkFmt

/-- A ramdisk without a table has the format that is noted, and the kernel stays. -/
lemma checkFmtLg_parseRamdisk (h : parseRamdisk mem img = .ok (some img')) :
    img'.kFmt = img.kFmt ∧ (img'.size .ramdisk ≠ 0 → img'.size .vendorRamdiskTable = 0 →
      checkFmtLg mem (img'.ptr .ramdisk) (img'.size .ramdisk) = .ok img'.rFmt) := by
  rcases parseRamdisk_cases h with ⟨rfl, hzero | ⟨htable, -⟩⟩ | ⟨-, ⟨mtk, rFmt⟩, hfmt, rfl⟩
  · exact ⟨rfl, fun hne => absurd hzero hne⟩
  · exact ⟨rfl, fun _ hzero => absurd hzero htable⟩
  · rcases blockFmt_eq_ok.mp hfmt with ⟨rfl, -, hfmt⟩ | ⟨rfl, -, hle, hfmt⟩
    · exact ⟨rfl, fun _ _ => hfmt⟩
    · obtain ⟨hsize, hptr⟩ := cutMtk_self hle
      rw [← hsize] at hfmt
      exact ⟨rfl, fun _ _ => hfmt⟩

/-- **The formats of an image that was accepted** are those of its kernel and of its ramdisk. -/
lemma checkFmtLg_of_bootImg (h : bootImg verify file = .ok (some boot)) : (boot.size .kernel ≠ 0 →
      checkFmtLg (mapped file) (boot.ptr .kernel) (boot.size .kernel) = .ok boot.kFmt) ∧
    (boot.size .ramdisk ≠ 0 → boot.size .vendorRamdiskTable = 0 →
      checkFmtLg (mapped file) (boot.ptr .ramdisk) (boot.size .ramdisk) = .ok boot.rFmt) := by
  obtain ⟨addr, type, flags, -, himage⟩ := exists_of_bootImg h
  obtain ⟨addr', hdr, flags', -, -, -, hblocks⟩ := exists_of_parseImage himage
  obtain ⟨img₁, img₂, eFmt, h₁, h₂, -, h₄⟩ := parseBlocks_eq_ok hblocks
  obtain ⟨flags₄, avbFooter, vbmeta, rfl, -⟩ := parseTail_eq_ok h₄
  have hn := parseRamdisk_narrowed h₂
  obtain ⟨hkFmt, hramdisk⟩ := checkFmtLg_parseRamdisk h₂
  refine ⟨fun hne => ?_, hramdisk⟩
  change img₂.size .kernel ≠ 0 at hne
  change checkFmtLg _ (img₂.ptr .kernel) (img₂.size .kernel) = .ok img₂.kFmt
  rw [hn.size (by decide)] at hne
  rw [hn.ptr .kernel (by decide), hn.size (by decide), hkFmt]
  exact checkFmtLg_parseKernel h₁ hne

end Image

/-! ### Packing in the same variant -/

section Pack

variable {compress : FileFormat → Str → Str} {mem : Str} {boot : BootImg} {files : Files}

lemma recompress_of_plain (hm : (checkFmt m).isCompressedAny = false)
    (hwas : was.isCompressed = true) : recompress compress false was fmt m = compress fmt m := by
  rw [recompress, hm, hwas]
  rfl

lemma isCompressed_lz4Variant (isLg : Bool) : (lz4Variant isLg).isCompressed = true := by
  cases isLg <;> rfl

lemma newKernel_lz4 (hfmt : boot.kFmt = lz4Variant isLg)
    (hm : (checkFmt m).isCompressedAny = false) :
    newKernel compress false boot m = compress (lz4Variant isLg) m := by
  have hgzip : (boot.flags.zimageKernel && boot.kFmt == .gzip) = false := by
    rw [hfmt]
    cases isLg <;> exact Bool.and_false _
  rw [newKernel, hgzip, recompress_of_plain hm (hfmt ▸ isCompressed_lz4Variant isLg)]
  exact congrArg (compress · m) hfmt

/-- So is a ramdisk, but for a header of version 4 that is not one of a vendor. -/
lemma ramdiskBlock_lz4 (hfmt : boot.rFmt = lz4Variant isLg)
    (hm : (checkFmt m).isCompressedAny = false) (hfile : files.ramdisk = some m)
    (htable : boot.size .vendorRamdiskTable = 0)
    (hgki : boot.hdr.cls.isVendor = true ∨ boot.hdr.get .headerVersion ≠ 4 ∨ isLg = false) :
    ramdiskBlock compress false mem boot files (startHdr boot files) =
      .ok (some (compress (lz4Variant isLg) m), []) := by
  obtain ⟨hcls, hother, -⟩ := get_startHdr boot files
  have hversion : (startHdr boot files).get .headerVersion = boot.hdr.get .headerVersion :=
    hother _ fun b => by cases b <;> decide
  have hkeep : (!false && !(startHdr boot files).cls.isVendor &&
      (startHdr boot files).get .headerVersion == 4 && boot.rFmt != .lz4Legacy) = false := by
    rw [hcls, hversion, hfmt]
    rcases hgki with hvendor | hfour | rfl
    · rw [hvendor]
      rfl
    · rw [beq_eq_false_iff_ne.mpr hfour]
      simp
    · simp [lz4Variant]
  rw [ramdiskBlock, if_neg (not_not.mpr htable), hkeep, hfile]
  simp only [Bool.false_eq_true, if_false, map_some]
  rw [recompress_of_plain hm (hfmt ▸ isCompressed_lz4Variant isLg), hfmt]

lemma vendorRamdisks_lz4
    (hfmt : checkFmtLg mem (boot.ptr .ramdisk + leNat (window (tableEntry mem boot i) 4 4))
      (leNat (window (tableEntry mem boot i) 0 4)) = .ok (lz4Variant isLg))
    (hm : (checkFmt m).isCompressedAny = false)
    (hfile : files.vendorRamdisk (entryFile 64 (entryName mem boot i)) = some m) (offset : Nat) :
    ∃ table, vendorRamdisks compress false mem boot files offset [i] =
      .ok (compress (lz4Variant isLg) m, table) := by
  simp only [vendorRamdisks, hfmt, ok_bind, hfile, getD_some, append_nil,
    recompress_of_plain hm (isCompressed_lz4Variant isLg)]
  exact ⟨_, rfl⟩

end Pack

/-- What is written for a short text. -/
lemma lz4Encode_short (isLg : Bool) : lz4Encode storing isLg [[1, 2, 3]] =
    podU32 lz4Magic ++ [3, 0, 0, 0, 1, 2, 3] ++ if isLg then [3, 0, 0, 0] else [] := by
  have hwrite : LZ4BlockEncoder.writeChunks storing (podU32 lz4Magic) ⟨[], by decide⟩ [1, 2, 3] =
      (podU32 lz4Magic, ⟨[1, 2, 3], by decide⟩) := by
    rw [LZ4BlockEncoder.writeChunks]
    rw [LZ4BlockEncoder.writeChunks]
    rfl
  simp only [lz4Encode, foldl_cons, foldl_nil, LZ4BlockEncoder.writeAll,
    LZ4BlockEncoder.new, if_true, nil_append, hwrite]
  cases isLg <;> rfl

/-- A boot image of version 4 whose ramdisk ends with a total size. -/
def gkiBoot : BootImg where
  hdr := (⟨.v4, List.replicate 1584 0, length_replicate⟩ : ImgHdr).set .headerVersion 4
  flags := {}
  rFmt := .lz4Lg
  payload := {}
  tail := {}
  ptr _ := 0

end Magisk.Boot
