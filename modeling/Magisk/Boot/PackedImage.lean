import Magisk.Boot.RepackWalk

/-!
# The patches to a packed image

After the blocks there is a tail, and then numbers are filled in all over the output.  None of this
moves the blocks.

* `place`, `Apart`, `Holds`: where the blocks are, and that they are there;
* `Tailed`: what is written after them;
* `Numbered`, `Finished`: the numbers in the header;
* `patchMtk_eq`, `patchHdr_eq`, `patchAround_eq`: the patches;
* `Packed`, `patchImage_eq`: what all of them end with.
-/

namespace Magisk.Boot

open Magisk.Base Magisk.Lib List Function

variable {mem out : Str} {boot : BootImg} {files : Files} {d : Block → Str} {w : ImgWriter}
  {off : Offsets}

/-! ### Where the blocks are -/

/-- The end of the blocks. -/
def blocksEnd (mem : Str) (boot : BootImg) (d : Block → Str) : Nat :=
  (startBytes mem boot ++ pack 0 (boot.hdr.get .pageSize) (Block.all.map d)).length

section Place

variable (h : Ready mem boot)

include h

lemma length_startBytes :
    (startBytes mem boot).length = (preHeader mem boot).length + spaceOf boot.hdr := by
  rw [startBytes, length_append, length_window h.space]

lemma place_eq (d : Block → Str) (b : Block) :
    place mem boot d b = (preHeader mem boot).length +
      blockOffset (boot.hdr.get .pageSize) (spaceOf boot.hdr) (fun b => (d b).length) b := by
  have hlt : Block.all.idxOf b < (Block.all.map d).length := by
    rw [length_map]
    exact idxOf_lt_length_of_mem (Block.mem_all b)
  have hoff := getD_offsets (z := (0 : UInt8)) h.page.1 (dvd_spaceOf boot.hdr) (Block.all.map d) hlt
  rw [map_map] at hoff
  rw [place, length_append, length_startBytes h, map_take, blockOffset]
  change _ = _ + (offsets _ _ (Block.all.map (List.length ∘ d))).getD _ 0
  rw [hoff, Nat.add_assoc]

lemma blocksEnd_eq (d : Block → Str) :
    blocksEnd mem boot d = (preHeader mem boot).length +
      endOffset (boot.hdr.get .pageSize) (spaceOf boot.hdr)
        (Block.all.map fun b => (d b).length) := by
  have hend := endOffset_eq (z := (0 : UInt8)) h.page.1 (dvd_spaceOf boot.hdr) (Block.all.map d)
  rw [map_map] at hend
  rw [blocksEnd, length_append, length_startBytes h]
  change _ = _ + endOffset _ _ (Block.all.map (List.length ∘ d))
  rw [hend, Nat.add_assoc]

lemma window_place (d : Block → Str) (rest : Str) (b : Block) :
    window (startBytes mem boot ++ pack 0 (boot.hdr.get .pageSize) (Block.all.map d) ++ rest)
      (place mem boot d b) (d b).length = d b := by
  rw [place_eq h]
  refine window_pack h.page.1 (dvd_spaceOf boot.hdr) (length_startBytes h) (Block.all.map d) rest
    (x := (_, d b)) ?_
  have hzip : (offsets (boot.hdr.get .pageSize) (spaceOf boot.hdr)
      ((Block.all.map d).map List.length)).zip (Block.all.map d) =
        Block.all.map fun b => (blockOffset (boot.hdr.get .pageSize) (spaceOf boot.hdr)
          (fun b => (d b).length) b, d b) := rfl
  exact hzip ▸ mem_map_of_mem (Block.mem_all b)

end Place

/-- Ranges that do not overlap, between a start and an end. -/
structure Apart (start stop : Nat) (pos len : Block → Nat) : Prop where
  start : ∀ b, start ≤ pos b
  stop : ∀ b, pos b + len b ≤ stop
  disjoint : ∀ b c, b ≠ c → pos b + len b ≤ pos c ∨ pos c + len c ≤ pos b

lemma apart_place (h : Ready mem boot) (d : Block → Str) :
    Apart ((preHeader mem boot).length + spaceOf boot.hdr) (blocksEnd mem boot d)
      (place mem boot d) fun b => (d b).length := by
  have hle := blockOffset_le h.page.1 (spaceOf boot.hdr) fun b => (d b).length
  have hpair := pairwise_blockOffset h.page.1 (spaceOf boot.hdr) fun b => (d b).length
  refine ⟨fun b => ?_, fun b => ?_, ?_⟩
  · have := (hle b).1
    rw [place_eq h]
    omega
  · have := (hle b).2
    rw [place_eq h, blocksEnd_eq h]
    omega
  · have : Std.Symm fun b c : Block => place mem boot d b + (d b).length ≤ place mem boot d c ∨
        place mem boot d c + (d c).length ≤ place mem boot d b := ⟨fun _ _ => Or.symm⟩
    have hor : Block.all.Pairwise fun b c =>
        place mem boot d b + (d b).length ≤ place mem boot d c ∨
          place mem boot d c + (d c).length ≤ place mem boot d b :=
      hpair.imp fun {b c} hbc => .inl (by rw [place_eq h, place_eq h]; omega)
    exact fun b c hne => hor.forall (Block.mem_all b) (Block.mem_all c) hne

/-- The output has at each place what was written for the block. -/
structure Holds (stop : Nat) (pos len : Block → Nat) (out : Str) (log : Block → Str) : Prop where
  length : ∀ b, (log b).length = len b
  found : ∀ b, window out (pos b) (len b) = log b
  stop : stop ≤ out.length

variable {data : Str} {b : Block} {n : Nat} {hdr₀ hdr : ImgHdr} {w₀ : ImgWriter} {off₀ : Offsets}

namespace Holds

variable {start stop : Nat} {pos len : Block → Nat} {log : Block → Str}

variable (ha : Apart start stop pos len) (h : Holds stop pos len out log)

include ha h

lemma outside {off : Nat}
    (hin : off + data.length ≤ out.length) (hout : off + data.length ≤ start ∨ stop ≤ off) :
    Holds stop pos len (patch out off data) log := by
  refine ⟨h.length, fun b => ?_, (length_patch hin).symm ▸ h.stop⟩
  have hstart := ha.start b
  have hstop := ha.stop b
  rw [window_patch_of_disjoint hin (by omega), h.found]

/-- A patch of a block. -/
lemma inside {off : Nat}
    (hin : off + data.length ≤ len b) :
    Holds stop pos len (patch out (pos b + off) data)
      (update log b (patch (log b) off data)) := by
  have hstop := ha.stop b
  have hle := h.stop
  have hout : pos b + off + data.length ≤ out.length := by omega
  refine ⟨fun c => ?_, fun c => ?_, (length_patch hout).symm ▸ h.stop⟩
  · by_cases hcb : c = b
    · rw [hcb, update_self, length_patch (h.length b ▸ hin), h.length]
    · rw [update_of_ne hcb, h.length]
  · by_cases hcb : c = b
    · rw [hcb, update_self, window_patch_of_inside (by omega) hin, h.found]
    · have hdisjoint := ha.disjoint c b hcb
      rw [update_of_ne hcb, window_patch_of_disjoint hout (by omega), h.found]

end Holds

/-! ### Patches -/

lemma poke_of_le {off : Nat} (h : off + data.length ≤ out.length) :
    poke out off data = .ok (patch out off data) := by
  have hle := le_alignTo (a := getpagesize) (by decide) out.length
  rw [poke, if_pos (h.trans hle), take_of_length_le (by omega)]

lemma succeeds_view {off : Nat} (h : off + n ≤ out.length) : Succeeds (view out off n) := by
  have hle := le_alignTo (a := getpagesize) (by decide) out.length
  rw [view, succeeds_ite]
  refine ⟨fun _ => succeeds_ok _, fun _ => succeeds_load_iff.mpr ?_⟩
  rw [length_mapped]
  exact h.trans hle

/-- The numbers of a header: the sizes, and others that are those of another header. -/
structure Numbered (hdr₀ : ImgHdr) (n : Block → Nat) (hdr : ImgHdr) : Prop where
  text : hdr₀.SameText hdr
  other : ∀ f, (∀ b : Block, f ≠ b.sizeField) → hdr.get f = hdr₀.get f
  size : ∀ b : Block, hdr.get b.sizeField = n b
  dtboOffset : hdr.dtboOffset = hdr₀.dtboOffset

lemma Numbered.add {n : Block → Nat} (h : Numbered hdr₀ n hdr)
    (hfield : hdr₀.cls.offset b.sizeField ≠ none) (hlt : n b + k < 2 ^ 32) :
    Numbered hdr₀ (update n b (n b + k))
      (hdr.set b.sizeField (hdr.get b.sizeField + k)) := by
  refine ⟨h.text.trans (ImgHdr.sameText_set _ _), fun f hf => ?_, fun c => ?_,
    (ImgHdr.dtboOffset_set _ _).trans h.dtboOffset⟩
  · rw [ImgHdr.get_set_of_ne (hf b), h.other f hf]
  · by_cases hcb : c = b
    · rw [hcb, update_self, ImgHdr.get_set hdr (sizeField_ne_pageSize b), h.text.cls,
        if_neg hfield, h.size, u32, Nat.mod_eq_of_lt hlt]
    · rw [update_of_ne hcb, ImgHdr.get_set_of_ne fun heq => hcb (sizeField_injective heq),
        h.size]

/-- What is added to the size of a block. -/
def mtkPart (flag : Bool) : Nat := if flag then mtkHdrSz else 0

/-- What was written for a block, with the size of its content in the MediaTek header. -/
def mtkPatched (flag : Bool) (size : Nat) (data : Str) : Str :=
  if flag then patch data 4 (leBytes 4 size) else data

/-- The patch of a MediaTek block. -/
lemma patchMtk_eq (ha : Apart start stop pos len)
    (hw : Holds stop pos len w.out w.log) {n : Block → Nat} (hn : Numbered hdr₀ n w.hdr) (hsize : n b + mtkPart flag = len b) (hlt : len b < 2 ^ 32)
    (hfield : flag = true → hdr₀.cls.offset b.sizeField ≠ none) :
    ∃ w', patchMtk flag b (pos b) w = .ok w' ∧ Holds stop pos len w'.out w'.log ∧
      Numbered hdr₀ (update n b (len b)) w'.hdr ∧ w'.out.length = w.out.length ∧
      w'.log = update w.log b (mtkPatched flag (n b) (w.log b)) := by
  cases flag with
  | false =>
    have hn' : update n b (len b) = n := by
      rw [← hsize]
      exact update_eq_self b n
    refine ⟨w, rfl, hw, hn'.symm ▸ hn, rfl, ?_⟩
    exact (update_eq_self b w.log).symm
  | true =>
    have hsum : n b + mtkHdrSz = len b := hsize
    have hin : 4 + (leBytes 4 (w.hdr.get b.sizeField)).length ≤ len b := by
      rw [length_leBytes, ← hsum, mtkHdrSz]
      omega
    have hle := ha.stop b
    have hstop := hw.stop
    have hout : pos b + 4 + (leBytes 4 (w.hdr.get b.sizeField)).length ≤ w.out.length := by omega
    have hadd := hn.add (hfield rfl) (hsum ▸ hlt)
    rw [hsum] at hadd
    refine ⟨_, bind_eq_ok.mpr ⟨_, poke_of_le hout, rfl⟩, hw.inside ha hin, hadd,
      length_patch hout, ?_⟩
    rw [← hn.size b]
    rfl

/-! ### The tail -/

/-- More was written after what there was, and nothing else. -/
structure ImgWriter.Extends (w w' : ImgWriter) : Prop where
  hdr : w'.hdr = w.hdr
  log : w'.log = w.log
  out : ∃ rest, w'.out = w.out ++ rest

namespace ImgWriter.Extends

variable {w' w'' : ImgWriter}

lemma refl (w : ImgWriter) : w.Extends w := ⟨rfl, rfl, [], (append_nil _).symm⟩

lemma append (w : ImgWriter) (data : Str) : w.Extends (w.append data) := ⟨rfl, rfl, data, rfl⟩

lemma trans (h : w.Extends w') (h' : w'.Extends w'') : w.Extends w'' := by
  obtain ⟨rest, hout⟩ := h.out
  obtain ⟨rest', hout'⟩ := h'.out
  exact ⟨h'.hdr.trans h.hdr, h'.log.trans h.log, rest ++ rest', by
    rw [hout', hout, append_assoc]⟩

lemma le (h : w.Extends w') : w.out.length ≤ w'.out.length := by
  obtain ⟨rest, hout⟩ := h.out
  rw [hout, length_append]
  omega

lemma writeZero (boot : BootImg) (mapSize : Nat) (w : ImgWriter) :
    w.Extends (writeZero boot mapSize w) := by
  rw [Boot.writeZero]
  split
  · exact .refl w
  · exact .append w _

end ImgWriter.Extends

variable (mem boot) in
/-- With a footer, what is written for it comes after what there was. -/
lemma extends_writeVbmeta (header : Nat) (w : ImgWriter) :
    w.Extends (writeVbmeta mem boot header w).1 ∧
      (boot.flags.avb = true → boot.vbmeta.getD 0 + vbmetaSize mem boot ≤ mem.length →
        ∃ p, (writeVbmeta mem boot header w).2 = u32 p ∧ w.out.length ≤ p ∧
          p + vbmetaSize mem boot ≤ (writeVbmeta mem boot header w).1.out.length) := by
  rw [writeVbmeta]
  cases boot.flags.avb with
  | false => exact ⟨.refl w, nofun⟩
  | true =>
    have halign : w.Extends (w.align header 4096) := .append w _
    refine ⟨halign.trans (.append _ _), fun _ hle => ⟨_, rfl, halign.le, ?_⟩⟩
    change _ ≤ ((w.align header 4096).out ++ _).length
    rw [length_append, length_window hle]

/-- What comes after the blocks: a trailer, padding, and with a footer the header it points to. -/
structure Tailed (mem : Str) (boot : BootImg) (w : ImgWriter) (off : Offsets) (w' : ImgWriter)
    (off' : Offsets) : Prop where
  trailer : (w.append (vendorTrailer boot)).Extends w'
  padded : off.header +
    alignTo ((w.out ++ Boot.vendorTrailer boot).length - off.header) (boot.hdr.get .pageSize) ≤
      w'.out.length
  off : ∃ vbmeta, off' = { off with tail := u32 (w.out ++ Boot.vendorTrailer boot).length, vbmeta }
  vbmeta : boot.flags.avb = true → ∃ p, off'.vbmeta = u32 p ∧
    (w.out ++ Boot.vendorTrailer boot).length ≤ p ∧ p + vbmetaSize mem boot ≤ w'.out.length

variable (mem) in
lemma tailed_writeTail (mapSize : Nat) (w : ImgWriter) (hpage : 0 < boot.hdr.get .pageSize)
    (hheader : off.header ≤ w.out.length)
    (hvbmeta : boot.flags.avb = true → boot.vbmeta.getD 0 + vbmetaSize mem boot ≤ mem.length) :
    Tailed mem boot w off (writeTail mem boot mapSize w off).1
      (writeTail mem boot mapSize w off).2 := by
  let tail := w.append (vendorTrailer boot)
  let padded := tail.align off.header (boot.hdr.get .pageSize)
  have hpadded : tail.Extends padded := .append tail _
  obtain ⟨hext, hfooter⟩ := extends_writeVbmeta mem boot off.header padded
  have hzero := ImgWriter.Extends.writeZero boot mapSize (writeVbmeta mem boot off.header padded).1
  refine ⟨hpadded.trans (hext.trans hzero), ?_, ⟨_, rfl⟩, fun havb => ?_⟩
  · refine le_trans (le_of_eq ?_) (hext.trans hzero).le
    have hle := le_alignTo hpage (tail.out.length - off.header)
    have hlen : off.header ≤ tail.out.length :=
      hheader.trans (ImgWriter.Extends.append w (vendorTrailer boot)).le
    have hout : padded.out.length = tail.out.length +
        (alignTo (tail.out.length - off.header) (boot.hdr.get .pageSize) -
          (tail.out.length - off.header)) := by
      rw [← length_replicate (a := (0 : UInt8)) (n := alignTo _ _ - _)]
      exact length_append
    change off.header + alignTo (tail.out.length - off.header) _ = padded.out.length
    omega
  · obtain ⟨p, hp, hle, hle'⟩ := hfooter havb (hvbmeta havb)
    exact ⟨p, hp, hpadded.le.trans hle, hle'.trans hzero.le⟩

/-! ### The header -/

/-- How much of the header is stored. -/
def storedSize (boot : BootImg) : Nat :=
  if boot.flags.amonet then min (spaceOf boot.hdr - amonetMicroloaderSz) boot.hdr.cls.hdrSize
  else boot.hdr.cls.hdrSize

/-- What is said about the space for the header: it is large enough for the header, or for the
microloader before it. -/
def Roomy (boot : BootImg) : Prop :=
  if boot.flags.amonet then amonetMicroloaderSz ≤ spaceOf boot.hdr
  else boot.hdr.cls.hdrSize ≤ spaceOf boot.hdr

lemma hdrStart_le (off : Offsets) (h : Roomy boot) :
    off.header ≤ hdrStart boot off ∧
      hdrStart boot off + storedSize boot ≤ off.header + spaceOf boot.hdr := by
  rw [Roomy] at h
  rw [hdrStart, storedSize]
  split
  · rw [if_pos ‹_›] at h
    omega
  · rw [if_neg ‹_›] at h
    omega

lemma succeeds_chunk {off : Nat} (h : n = 0 ∨ off + n ≤ out.length) :
    Succeeds (chunk out off n) := by
  rw [chunk, succeeds_map]
  rcases h with rfl | h
  · exact succeeds_ok _
  · exact succeeds_view h

lemma succeeds_chunkIf {off : Nat} (h : n = 0 ∨ off + n ≤ out.length) :
    Succeeds (chunkIf c out off n) := by
  rw [chunkIf, succeeds_ite]
  exact ⟨fun _ => succeeds_chunk h, fun _ => succeeds_ok _⟩

/-- The checksum is of data that is there. -/
lemma succeeds_hashed (hkernel : off.kernel + hdr.get .kernelSize ≤ out.length)
    (hramdisk : off.ramdisk + hdr.get .ramdiskSize ≤ out.length)
    (hsecond : off.second + hdr.get .secondSize ≤ out.length)
    (hextra : off.extra + hdr.get .extraSize ≤ out.length)
    (hdtbo : hdr.get .recoveryDtboSize = 0 ∨
      hdr.dtboOffset + hdr.get .recoveryDtboSize ≤ out.length)
    (hdtb : off.dtb + hdr.get .dtbSize ≤ out.length) : Succeeds (hashed hdr out off) := by
  refine succeeds_bind_iff.mpr ⟨succeeds_chunk (.inr hkernel), fun kernel _ => ?_⟩
  refine succeeds_bind_iff.mpr ⟨succeeds_chunk (.inr hramdisk), fun ramdisk _ => ?_⟩
  refine succeeds_bind_iff.mpr ⟨succeeds_chunk (.inr hsecond), fun second _ => ?_⟩
  refine succeeds_bind_iff.mpr ⟨succeeds_chunkIf (.inr hextra), fun extra _ => ?_⟩
  refine succeeds_bind_iff.mpr ⟨succeeds_chunkIf hdtbo, fun dtbo _ => ?_⟩
  refine succeeds_bind_iff.mpr ⟨succeeds_chunkIf (.inr hdtb), fun dtb _ => succeeds_ok _⟩

/-- The numbers of a header at the end, of which the size of the header was stored. -/
structure Finished (hdr₀ : ImgHdr) (n : Block → Nat) (hdr : ImgHdr) : Prop where
  text : hdr₀.SameText hdr
  other : ∀ f, f ≠ .headerSize → (∀ b : Block, f ≠ b.sizeField) → hdr.get f = hdr₀.get f
  size : ∀ b : Block, hdr.get b.sizeField = n b

lemma sizeField_ne_headerSize (b : Block) : b.sizeField ≠ .headerSize := by cases b <;> decide

lemma Numbered.finished {n : Block → Nat} (h : Numbered hdr₀ n hdr) (v : Nat) :
    Finished hdr₀ n (hdr.set .headerSize v) where
  text := h.text.trans (ImgHdr.sameText_set _ _)
  other f hne hf := (ImgHdr.get_set_of_ne hne v).trans (h.other f hf)
  size b := (ImgHdr.get_set_of_ne (sizeField_ne_headerSize b) v).trans (h.size b)

lemma Finished.putId {n : Block → Nat} (h : Finished hdr₀ n hdr)
    (ho : hdr.cls.idOffset = some o) (data : Str) :
    Finished hdr₀ n (hdr.put o (fitText 32 data)) := by
  have hlen := length_fitText 32 data
  have hsame : hdr.SameNumbers (hdr.put o (fitText 32 data)) := by
    refine ImgHdr.sameNumbers_put hlen ?_
    generalize hdr.cls = c at ho
    cases c <;> cases ho <;> decide
  refine ⟨h.text.trans ⟨hsame.cls, fun off n hr => ImgHdr.window_raw_put ?_⟩,
    fun f hne hf => (hsame.get f).trans (h.other f hne hf), fun b => (hsame.get _).trans (h.size b)⟩
  rw [hlen]
  exact hr.id o ho

variable (boot) in
lemma patchId_eq (sha : Bool → Str → Str) {n : Block → Nat} (hfin : Finished hdr₀ n w.hdr)
    (hhashed : Succeeds (hashed w.hdr w.out off)) :
    ∃ hdr, patchId sha boot off w = .ok { w with hdr } ∧ Finished hdr₀ n hdr := by
  rw [patchId]
  cases ho : w.hdr.cls.idOffset with
  | none => exact ⟨w.hdr, rfl, hfin⟩
  | some o =>
    obtain ⟨data, hdata⟩ := hhashed
    exact ⟨_, bind_eq_ok.mpr ⟨data, hdata, rfl⟩, hfin.putId ho _⟩

lemma hdrRoom_eq (hpage : PageSafe (boot.hdr.get .pageSize)) (hcls : hdr.cls = boot.hdr.cls)
    (hget : hdr.get .pageSize = boot.hdr.get .pageSize) (hroom : Roomy boot) :
    hdrRoom boot hdr = .ok (storedSize boot) := by
  have hspace : spaceOf hdr = spaceOf boot.hdr := by rw [spaceOf, spaceOf, hcls, hget]
  rw [Roomy] at hroom
  rw [storedSize, hdrRoom]
  split
  · rw [if_pos ‹_›] at hroom
    rw [hdrSpace_eq (hget ▸ hpage), hspace]
    refine bind_eq_ok.mpr ⟨_, rfl, bind_eq_ok.mpr ⟨_, if_pos hroom, ?_⟩⟩
    rw [hcls]
  · rw [hcls]

lemma patchHdr_eq (hpage : PageSafe (boot.hdr.get .pageSize)) (hcls : w.hdr.cls = boot.hdr.cls)
    (hget : w.hdr.get .pageSize = boot.hdr.get .pageSize) (hroom : Roomy boot)
    (hle : off.header + spaceOf boot.hdr ≤ w.out.length) :
    patchHdr boot off w = .ok { w with
      out := patch w.out (hdrStart boot off) (w.hdr.raw.take (storedSize boot)) } := by
  have hlen : (w.hdr.raw.take (storedSize boot)).length ≤ storedSize boot :=
    length_take_le _ _
  have hin : hdrStart boot off + (w.hdr.raw.take (storedSize boot)).length ≤ w.out.length := by
    have hstart := (hdrStart_le off hroom).2
    omega
  exact bind_eq_ok.mpr ⟨storedSize boot, hdrRoom_eq hpage hcls hget hroom,
    bind_eq_ok.mpr ⟨_, poke_of_le hin, rfl⟩⟩

/-! ### What is around the image -/

/-- The output is the same from the header to the tail, and not shorter. -/
structure SamePayload (start stop : Nat) (out out' : Str) : Prop where
  window : window out' start (stop - start) = window out start (stop - start)
  le : out.length ≤ out'.length

namespace SamePayload

variable {start stop : Nat} {out' out'' : Str}

lemma refl : SamePayload start stop out out := ⟨rfl, le_rfl⟩

lemma trans (h : SamePayload start stop out out') (h' : SamePayload start stop out' out'') :
    SamePayload start stop out out'' := ⟨h'.window.trans h.window, h.le.trans h'.le⟩

lemma part (h : SamePayload start stop out out') {off : Nat} (hstart : start ≤ off)
    (hstop : off + n ≤ stop) : Lib.window out' off n = Lib.window out off n := by
  have hslice := congrArg (Lib.window · (off - start) n) h.window
  simp only [window_window (show off - start + n ≤ stop - start by omega)] at hslice
  rwa [Nat.add_sub_cancel' hstart] at hslice

lemma patch_outside {off : Nat} (hle : start ≤ stop) (hin : off + data.length ≤ out.length)
    (hd : off + data.length ≤ start ∨ stop ≤ off) :
    SamePayload start stop out (patch out off data) :=
  ⟨window_patch_of_disjoint hin (by omega), (length_patch hin).ge⟩

lemma patch_after (data : Str) (hle : stop ≤ out.length) (hstart : start ≤ stop) :
    SamePayload start stop out (patch out stop data) := by
  refine ⟨window_patch_of_before data hle (by omega), ?_⟩
  rw [patch, length_append, length_append, length_take, length_drop]
  omega

end SamePayload

/-- The positions that the last patches are made at, without their wrapping around. -/
structure Located (boot : BootImg) (mem out : Str) (off : Offsets) : Prop where
  header : off.header = (preHeader mem boot).length
  le : off.header ≤ off.tail
  lt : off.tail < 2 ^ 32
  tail : off.tail ≤ out.length
  dhtb : boot.flags.dhtb = true → off.tail + 20 ≤ out.length
  vbmeta : boot.flags.avb = true → off.tail ≤ off.vbmeta ∧ off.vbmeta + 256 ≤ out.length

section Around

lemma Located.mono (h : Located boot mem out off) (hle : out.length ≤ out'.length) :
    Located boot mem out' off :=
  ⟨h.header, h.le, h.lt, h.tail.trans hle, fun hf => (h.dhtb hf).trans hle, fun hf =>
    ⟨(h.vbmeta hf).1, (h.vbmeta hf).2.trans hle⟩⟩

lemma Located.aospImgSize (h : Located boot mem out off) :
    aospImgSize off = off.tail - off.header := by
  have hle := h.le
  have hlt := h.lt
  rw [Boot.aospImgSize, u32]
  omega

lemma length_newFooter (hr : Ready mem boot) (havb : boot.flags.avb = true) (off : Offsets) :
    (newFooter mem boot off).length = avbFooterSz := by
  have hfooter := length_window (hr.footer havb)
  have hsize : (patch (window mem (boot.avbFooter.getD 0) avbFooterSz) 12
      (beBytes 8 (aospImgSize off))).length = avbFooterSz := by
    rw [length_patch (by rw [length_beBytes, hfooter]; decide), hfooter]
  rw [newFooter, length_patch (by rw [length_beBytes, hsize]; decide), hsize]

/-- The footer comes after the image. -/
lemma patchFooter_eq (patchVbmeta : Bool) (hr : Ready mem boot) (h : Located boot mem out off) :
    ∃ out', patchFooter patchVbmeta mem boot off out = .ok out' ∧
      SamePayload off.header off.tail out out' := by
  rw [patchFooter]
  cases havb : boot.flags.avb with
  | false => exact ⟨out, rfl, .refl⟩
  | true =>
    obtain ⟨hvb, hle⟩ := h.vbmeta havb
    have htail := h.le
    have hfooter := length_newFooter hr havb off
    generalize newFooter mem boot off = footer at hfooter
    have hsub : avbFooterSz ≤ out.length := by
      rw [avbFooterSz]
      omega
    have hplace : out.length - avbFooterSz + footer.length ≤ out.length := by omega
    have hafter : off.tail ≤ out.length - avbFooterSz := by
      rw [avbFooterSz]
      omega
    have hsame := SamePayload.patch_outside htail hplace (.inr hafter)
    have hflag : off.vbmeta + 120 + (beBytes 4 3).length ≤
        (patch out (out.length - avbFooterSz) footer).length := by
      rw [length_patch hplace, length_beBytes]
      omega
    cases patchVbmeta with
    | false =>
      exact ⟨_, bind_eq_ok.mpr ⟨_, if_pos hsub, bind_eq_ok.mpr ⟨_, poke_of_le hplace, rfl⟩⟩,
        hsame⟩
    | true =>
      exact ⟨_, bind_eq_ok.mpr ⟨_, if_pos hsub, bind_eq_ok.mpr ⟨_, poke_of_le hplace,
        poke_of_le hflag⟩⟩, hsame.trans (.patch_outside htail hflag (.inr (by omega)))⟩

lemma length_preHeader (hr : Ready mem boot) :
    (boot.flags.dhtb = true → (preHeader mem boot).length = dhtbHdrSz) ∧
      (boot.flags.dhtb = false → boot.flags.blob = true →
        (preHeader mem boot).length = blobHdrSz) := by
  have hpages := hr.pages
  rw [getpagesize] at hpages
  refine ⟨fun hd => ?_, fun hd hb => ?_⟩
  · rw [preHeader, hd]
    exact length_window (by rw [dhtbHdrSz]; omega)
  · rw [preHeader, hd, hb]
    exact length_window (by rw [blobHdrSz]; omega)

/-- The size of the image is stored before it. -/
lemma patchPreHeader_eq (sha : Bool → Str → Str) (hr : Ready mem boot)
    (h : Located boot mem out off) :
    ∃ out', patchPreHeader sha boot off out = .ok out' ∧
      SamePayload off.header off.tail out out' := by
  obtain ⟨hdhtb, hblob⟩ := length_preHeader hr
  have hle := h.le
  have htail := h.tail
  have hheader := h.header
  rw [patchPreHeader, h.aospImgSize]
  cases hd : boot.flags.dhtb with
  | true =>
    rw [hdhtb hd, dhtbHdrSz] at hheader
    have hend := h.dhtb hd
    have hsize : 48 + (leBytes 4 (u32 (off.tail - off.header + 16 + 4))).length ≤ out.length := by
      rw [length_leBytes]
      omega
    have hlen := length_patch hsize
    have hview : Succeeds (view (patch out 48 (leBytes 4 (u32 (off.tail - off.header + 16 + 4))))
        dhtbHdrSz (u32 (off.tail - off.header + 16 + 4))) := by
      refine succeeds_view ?_
      have hmod := Nat.mod_le (off.tail - off.header + 16 + 4) (2 ^ 32)
      rw [hlen, dhtbHdrSz, u32]
      omega
    obtain ⟨data, hdata⟩ := hview
    have hsum : 8 + (fitText 32 (sha false data)).length ≤
        (patch out 48 (leBytes 4 (u32 (off.tail - off.header + 16 + 4)))).length := by
      rw [length_fitText, hlen]
      omega
    refine ⟨_, bind_eq_ok.mpr ⟨_, poke_of_le hsize, bind_eq_ok.mpr ⟨data, hdata,
      poke_of_le hsum⟩⟩, .trans (.patch_outside hle hsize (.inl ?_))
      (.patch_outside hle hsum (.inl ?_))⟩
    · rw [length_leBytes]
      omega
    · rw [length_fitText]
      omega
  | false =>
    cases hb : boot.flags.blob with
    | true =>
      rw [hblob hd hb, blobHdrSz] at hheader
      have hsize : 96 + (leBytes 4 (off.tail - off.header)).length ≤ out.length := by
        rw [length_leBytes]
        omega
      refine ⟨_, poke_of_le hsize, .patch_outside hle hsize (.inl ?_)⟩
      rw [length_leBytes]
      omega
    | false => exact ⟨out, rfl, .refl⟩

lemma view_of_le (hle : off.header + n ≤ out.length) :
    view out off.header n = .ok (window out off.header n) := by
  have hmap := le_alignTo (a := getpagesize) (by decide) out.length
  rw [view]
  split
  · rename_i hn
    rw [hn, window_zero]
  · rw [load_of_le (by rw [length_mapped]; omega), mapped, window_append_left hle]

lemma signPayload_eq (sign : Str → Str) (h : Located boot mem out off) :
    signPayload sign boot off out = .ok (if boot.flags.avb1Signed then
      patch out off.tail (sign (window out off.header (off.tail - off.header))) else out) := by
  have hle := h.le
  have htail := h.tail
  rw [signPayload, h.aospImgSize]
  split
  · exact bind_eq_ok.mpr ⟨_, view_of_le (by omega), rfl⟩
  · rfl

/-- The patches around the image. -/
lemma patchAround_eq (sha : Bool → Str → Str) (sign : Str → Str) (patchVbmeta : Bool)
    (hr : Ready mem boot) (h : Located boot mem out off) :
    ∃ out₁ out₂ out₃, patchFooter patchVbmeta mem boot off out = .ok out₁ ∧
      patchPreHeader sha boot off out₁ = .ok out₂ ∧ signPayload sign boot off out₂ = .ok out₃ ∧
      SamePayload off.header off.tail out out₃ ∧
      (boot.flags.avb1Signed = true →
        let payload := window out₃ off.header (off.tail - off.header)
        window out₃ off.tail (sign payload).length = sign payload) := by
  obtain ⟨out₁, h₁, hsame₁⟩ := patchFooter_eq patchVbmeta hr h
  obtain ⟨out₂, h₂, hsame₂⟩ := patchPreHeader_eq sha hr (h.mono hsame₁.le)
  have hsame := hsame₁.trans hsame₂
  have hlocated := h.mono hsame.le
  refine ⟨out₁, out₂, _, h₁, h₂, signPayload_eq sign hlocated, ?_, fun hsigned => ?_⟩
  · split
    · exact hsame.trans (.patch_after _ hlocated.tail hlocated.le)
    · exact hsame
  · have hpayload : SamePayload off.header off.tail out₂ (patch out₂ off.tail
        (sign (window out₂ off.header (off.tail - off.header)))) :=
      .patch_after _ hlocated.tail hlocated.le
    dsimp only
    rw [if_pos hsigned, hpayload.window]
    exact window_patch_self_of_le _ hlocated.tail

end Around

/-! ### The image -/

/-- The flag of a block that has the header of a MediaTek block. -/
def BootImg.mtkFlag (boot : BootImg) : Block → Bool
  | .kernel => boot.flags.mtkKernel
  | .ramdisk => boot.flags.mtkRamdisk
  | _ => false

lemma uncounted_eq (h : Ready mem boot) (b : Block) :
    uncounted mem boot b = mtkPart (boot.mtkFlag b) := by
  cases b with
  | kernel => exact length_mtkHdr (h.kernelParts _ (.head _))
  | ramdisk => exact length_mtkHdr (h.ramdiskParts _ (.head _))
  | second | extra | recoveryDtbo | dtb | signature | vendorRamdiskTable | bootconfig => rfl

/-- A block with the header of a MediaTek block has a size. -/
lemma offset_ne_none_of_mtkFlag (h : Ready mem boot) (hb : boot.mtkFlag b = true) :
    boot.hdr.cls.offset b.sizeField ≠ none := by
  cases b with
  | kernel =>
    intro hnone
    have hsize := h.noKernel hnone _ (.head _)
    have hflag : boot.flags.mtkKernel = true := hb
    rw [BootImg.partIf, hflag] at hsize
    cases hsize
  | ramdisk =>
    generalize boot.hdr.cls = c
    cases c <;> decide
  | second | extra | recoveryDtbo | dtb | signature | vendorRamdiskTable | bootconfig => cases hb

/-- What holds of an image that was packed. -/
structure Packed (sign : Str → Str) (mem : Str) (boot : BootImg) (files : Files) (d : Block → Str)
    (w : ImgWriter) (off : Offsets) : Prop where
  header : off.header = (preHeader mem boot).length
  holds : Holds (blocksEnd mem boot d) (place mem boot d) (fun b => (d b).length) w.out w.log
  stored : window w.out (hdrStart boot off) (storedSize boot) = w.hdr.raw.take (storedSize boot)
  numbers : Finished (startHdr boot files) (fun b => (d b).length) w.hdr
  log : ∀ b, w.log b = mtkPatched (boot.mtkFlag b) ((d b).length - mtkHdrSz) (d b)
  tail : off.tail = blocksEnd mem boot d + (vendorTrailer boot).length
  signature : boot.flags.avb1Signed = true →
    let payload := window w.out off.header (off.tail - off.header)
    window w.out off.tail (sign payload).length = sign payload

/-- The sizes of the MediaTek blocks are counted in. -/
lemma patchMtk_both (hr : Ready mem boot) (ha : Apart start stop pos fun b => (d b).length)
    (hw : Holds stop pos (fun b => (d b).length) w.out w.log) (hlog : ∀ b, w.log b = d b)
    (hcls : w.hdr.cls = boot.hdr.cls) (hlt : stop < 2 ^ 32)
    (hx : ∀ b, uncounted mem boot b ≤ (d b).length)
    (hsize : ∀ b : Block, w.hdr.get b.sizeField = (d b).length - uncounted mem boot b) :
    ∃ w₁ w₂, patchMtk boot.flags.mtkKernel .kernel (pos .kernel) w = .ok w₁ ∧
      patchMtk boot.flags.mtkRamdisk .ramdisk (pos .ramdisk) w₁ = .ok w₂ ∧
      Holds stop pos (fun b => (d b).length) w₂.out w₂.log ∧
      Numbered w.hdr (fun b => (d b).length) w₂.hdr ∧ w₂.out.length = w.out.length ∧
      ∀ b, w₂.log b = mtkPatched (boot.mtkFlag b) ((d b).length - mtkHdrSz) (d b) := by
  have hlen : ∀ b, (d b).length < 2 ^ 32 := fun b => by
    have := ha.stop b
    omega
  have hfield : ∀ b, boot.mtkFlag b = true → w.hdr.cls.offset b.sizeField ≠ none := fun b hb =>
    hcls.symm ▸ offset_ne_none_of_mtkFlag hr hb
  have hsum : ∀ b, (d b).length - uncounted mem boot b + mtkPart (boot.mtkFlag b) =
      (d b).length := fun b => by
    rw [← uncounted_eq hr]
    exact Nat.sub_add_cancel (hx b)
  have hn : Numbered w.hdr (fun b => (d b).length - uncounted mem boot b) w.hdr :=
    ⟨.refl _, fun _ _ => rfl, hsize, rfl⟩
  have hpatched : ∀ b, mtkPatched (boot.mtkFlag b) ((d b).length - uncounted mem boot b) (d b) =
      mtkPatched (boot.mtkFlag b) ((d b).length - mtkHdrSz) (d b) := by
    intro b
    rw [uncounted_eq hr]
    cases boot.mtkFlag b with
    | false => simp [mtkPatched]
    | true => rw [mtkPart, if_pos rfl]
  obtain ⟨w₁, h₁, hw₁, hn₁, hlen₁, hlog₁⟩ :=
    patchMtk_eq ha hw hn (hsum .kernel) (hlen .kernel) (hfield .kernel)
  have hne : Block.ramdisk ≠ .kernel := by decide
  obtain ⟨w₂, h₂, hw₂, hn₂, hlen₂, hlog₂⟩ := patchMtk_eq ha hw₁ hn₁
    ((congrArg (· + _) (update_of_ne hne _ _)).trans (hsum .ramdisk)) (hlen .ramdisk)
    (hfield .ramdisk)
  rw [hlog₁, update_of_ne hne, update_of_ne hne, hlog, hlog] at hlog₂
  refine ⟨w₁, w₂, h₁, h₂, hw₂, ?_, hlen₂.trans hlen₁, fun b => ?_⟩
  · convert hn₂ using 1
    funext b
    cases b with
    | kernel => rw [update_of_ne hne.symm, update_self]
    | ramdisk => rw [update_self]
    | second | extra | recoveryDtbo | dtb | signature | vendorRamdiskTable | bootconfig => rfl
  · rw [hlog₂, ← hpatched]
    cases b with
    | kernel => rw [update_of_ne hne.symm, update_self, BootImg.mtkFlag]
    | ramdisk => rw [update_self, BootImg.mtkFlag]
    | second | extra | recoveryDtbo | dtb | signature | vendorRamdiskTable | bootconfig =>
      exact hlog _

lemma Written.length_out (h : Written mem boot files d w off) (hr : Ready mem boot) :
    off.header ≤ w.out.length ∧ boot.hdr.get .pageSize ∣ w.out.length - off.header := by
  have hhead := length_startBytes hr
  rw [← h.header] at hhead
  exact h.laid.aligned hr.page.1 hhead (dvd_spaceOf boot.hdr)

section

variable (hr : Ready mem boot) (hw : Written mem boot files d w₀ off₀)
  (ht : Tailed mem boot w₀ off₀ w off)

include hr hw ht

/-- The positions of what comes after the blocks. -/
lemma located_of_tailed (hsmall : w.out.length < 2 ^ 32)
    (hdhtb : boot.flags.dhtb = true → 40 ≤ boot.hdr.get .pageSize)
    (havb : boot.flags.avb = true → 256 ≤ vbmetaSize mem boot) :
    Located boot mem w.out off ∧ off.tail = blocksEnd mem boot d + (vendorTrailer boot).length := by
  have hend : w₀.out.length = blocksEnd mem boot d := congrArg List.length hw.laid.out
  have hle : (w₀.out ++ vendorTrailer boot).length ≤ w.out.length := ht.trailer.le
  have hlen : (w₀.out ++ vendorTrailer boot).length = w₀.out.length + (vendorTrailer boot).length :=
    length_append
  obtain ⟨hheader, hdvd⟩ := hw.length_out hr
  obtain ⟨vbmeta, hoff⟩ := ht.off
  have htail : off.tail = (w₀.out ++ vendorTrailer boot).length := by
    rw [hoff]
    exact Nat.mod_eq_of_lt (by omega)
  have hheader' : off.header = off₀.header := by rw [hoff]
  refine ⟨⟨hheader'.trans hw.header, by omega, by omega, by omega, fun hd => ?_, fun hv => ?_⟩,
    by omega⟩
  · have hpage := hdhtb hd
    have htrailer : (vendorTrailer boot).length = 20 := by
      rw [vendorTrailer, hr.dhtb hd, hd]
      rfl
    have hsum : (w₀.out ++ vendorTrailer boot).length - off₀.header =
        w₀.out.length - off₀.header + 20 := by omega
    have hpad := ht.padded
    rw [hsum, alignTo_add hr.page.1 hdvd] at hpad
    have hpos := le_alignTo hr.page.1 20
    have hge := Nat.le_of_dvd (by omega) (dvd_alignTo (a := boot.hdr.get .pageSize) 20)
    omega
  · obtain ⟨p, hp, hle₁, hle₂⟩ := ht.vbmeta hv
    have hsize := havb hv
    rw [htail, hp, u32, Nat.mod_eq_of_lt (by omega)]
    omega

/-- What comes after the blocks does not change them. -/
lemma holds_of_tailed :
    Holds (blocksEnd mem boot d) (place mem boot d) (fun b => (d b).length) w.out w.log ∧
      ∀ b, w.log b = d b := by
  obtain ⟨rest, hrest⟩ := ht.trailer.out
  have hout : w.out = startBytes mem boot ++ pack 0 (boot.hdr.get .pageSize) (Block.all.map d) ++
      (vendorTrailer boot ++ rest) := by
    rw [hrest, ← hw.laid.out, ← append_assoc]
    rfl
  have hlog : ∀ b, w.log b = d b := fun b => by
    rw [ht.trailer.log]
    exact hw.laid.log b (Block.mem_all b)
  refine ⟨⟨fun b => by rw [hlog], fun b => ?_, ?_⟩, hlog⟩
  · rw [hlog, hout]
    exact window_place hr d _ b
  · rw [hout]
    exact (Nat.le_add_right _ _).trans_eq length_append.symm

end

/-- The data for the checksum is in its place. -/
lemma Written.succeeds_hashed (h : Written mem boot files d w off)
    (hoff : ∃ tail vbmeta, off' = { off with tail, vbmeta }) (hr : Ready mem boot)
    (hsize : ∀ b : Block, hdr.get b.sizeField = (d b).length)
    (hdtbo : hdr.dtboOffset = w.hdr.dtboOffset) (hstop : blocksEnd mem boot d ≤ out.length) :
    Succeeds (hashed hdr out off') := by
  have hle : ∀ b, u32 (place mem boot d b) + hdr.get b.sizeField ≤ out.length := fun b => by
    have hstop' := (apart_place hr d).stop b
    have hmod := Nat.mod_le (place mem boot d b) (2 ^ 32)
    rw [hsize, u32]
    omega
  have hend : w.out.length = blocksEnd mem boot d := congrArg List.length h.laid.out
  obtain ⟨tail, vbmeta, rfl⟩ := hoff
  refine Boot.succeeds_hashed ?_ ?_ ?_ ?_ ?_ ?_
  · exact h.kernel ▸ hle .kernel
  · exact h.ramdisk ▸ hle .ramdisk
  · exact h.second ▸ hle .second
  · exact h.extra ▸ hle .extra
  · have hsize' : hdr.get .recoveryDtboSize = (d .recoveryDtbo).length := hsize .recoveryDtbo
    rw [hsize', hdtbo]
    refine (h.laid.dtbo (Block.mem_all _)).imp (fun hnil => ?_) fun hle' => ?_
    · rw [hnil, length_nil]
    · omega
  · exact h.dtb ▸ hle .dtb

/-- **The patches keep the blocks in their places.** -/
lemma patchImage_eq (sha : Bool → Str → Str) (sign : Str → Str) (patchVbmeta : Bool)
    (hr : Ready mem boot) (hw : Written mem boot files d w₀ off₀)
    (ht : Tailed mem boot w₀ off₀ w off) (hx : ∀ b, uncounted mem boot b ≤ (d b).length)
    (hsmall : w.out.length < 2 ^ 32) (hroom : Roomy boot)
    (hdhtb : boot.flags.dhtb = true → 40 ≤ boot.hdr.get .pageSize)
    (havb : boot.flags.avb = true → 256 ≤ vbmetaSize mem boot) :
    ∃ w', patchImage sha sign patchVbmeta mem boot w off = .ok w' ∧
      Packed sign mem boot files d w' off := by
  obtain ⟨hlocated, htail⟩ := located_of_tailed hr hw ht hsmall hdhtb havb
  obtain ⟨hholds, hlog⟩ := holds_of_tailed hr hw ht
  have ha := apart_place hr d
  have hlt : ∀ b, (d b).length < 2 ^ 32 ∧ place mem boot d b < 2 ^ 32 := fun b => by
    have hstop := ha.stop b
    have hle := hholds.stop
    omega
  obtain ⟨hcls, hother, -⟩ := get_startHdr boot files
  have hhdr : w.hdr = w₀.hdr := ht.trailer.hdr
  have hcls' : w.hdr.cls = boot.hdr.cls := by rw [hhdr, hw.laid.text.cls, hcls]
  obtain ⟨w₁, w₂, h₁, h₂, hholds₂, hnum, hlen₂, hlog₂⟩ := patchMtk_both hr ha hholds hlog hcls'
    (hholds.stop.trans_lt hsmall) hx fun b => by
      have hlen := (hlt b).1
      rw [hhdr, hw.laid.noted b (Block.mem_all b), u32, Nat.mod_eq_of_lt]
      omega
  obtain ⟨vbmeta, hoff⟩ := ht.off
  have hkernel : off.kernel = place mem boot d .kernel := by
    rw [hoff]
    exact hw.kernel.trans (Nat.mod_eq_of_lt (hlt .kernel).2)
  have hramdisk : off.ramdisk = place mem boot d .ramdisk := by
    rw [hoff]
    exact hw.ramdisk.trans (Nat.mod_eq_of_lt (hlt .ramdisk).2)
  rw [← hkernel] at h₁
  rw [← hramdisk] at h₂
  have hfin := hnum.finished w₂.hdr.cls.hdrSize
  have hhashed : Succeeds (hashed (w₂.hdr.set .headerSize w₂.hdr.cls.hdrSize) w₂.out off) := by
    refine hw.succeeds_hashed ⟨_, _, hoff⟩ hr hfin.size ?_ hholds₂.stop
    rw [ImgHdr.dtboOffset_set, hnum.dtboOffset, hhdr]
  obtain ⟨hdr, h₃, hfin₃⟩ := patchId_eq boot sha
    (w := { w₂ with hdr := w₂.hdr.set .headerSize w₂.hdr.cls.hdrSize }) hfin hhashed
  have hnumbers : Finished (startHdr boot files) (fun b => (d b).length) hdr := by
    rw [hhdr] at hfin₃
    exact ⟨hw.laid.text.trans hfin₃.text, fun f hne hf =>
      (hfin₃.other f hne hf).trans (hw.laid.other f hf), hfin₃.size⟩
  have hcls₃ := hnumbers.text.cls.trans hcls
  have hpage : hdr.get .pageSize = boot.hdr.get .pageSize := by
    have hne : ∀ b : Block, .pageSize ≠ b.sizeField := fun b => (sizeField_ne_pageSize b).symm
    exact (hnumbers.other _ (by decide) hne).trans (hother _ hne)
  have hspace : off.header + spaceOf boot.hdr ≤ blocksEnd mem boot d := by
    have hstart := ha.start .kernel
    have hstop := ha.stop .kernel
    rw [hlocated.header]
    omega
  have h₄ := patchHdr_eq (w := { w₂ with hdr }) hr.page hcls₃ hpage hroom
    (hspace.trans hholds₂.stop)
  have hraw : (hdr.raw.take (storedSize boot)).length = storedSize boot := by
    have hle : storedSize boot ≤ boot.hdr.cls.hdrSize := by
      rw [storedSize]
      split
      · exact min_le_right _ _
      · exact le_rfl
    rw [length_take, hdr.length_raw, hcls₃]
    omega
  obtain ⟨hstart, hstop⟩ := hdrStart_le off hroom
  have hin : hdrStart boot off + (hdr.raw.take (storedSize boot)).length ≤ w₂.out.length := by
    have hle := hholds₂.stop
    omega
  have hholds₄ := hholds₂.outside ha hin (.inl (by rw [← hlocated.header]; omega))
  have hlen₄ : w.out.length ≤
      (patch w₂.out (hdrStart boot off) (hdr.raw.take (storedSize boot))).length := by
    rw [length_patch hin, hlen₂]
  obtain ⟨out₅, out₆, out₇, h₅, h₆, h₇, hsame, hsigned⟩ :=
    patchAround_eq sha sign patchVbmeta hr (hlocated.mono hlen₄)
  refine ⟨⟨hdr, out₇, w₂.log⟩, ?_, ?_⟩
  · refine bind_eq_ok.mpr ⟨w₁, h₁, bind_eq_ok.mpr ⟨w₂, h₂, bind_eq_ok.mpr ⟨_, h₃, ?_⟩⟩⟩
    refine bind_eq_ok.mpr ⟨_, h₄, bind_eq_ok.mpr ⟨out₅, h₅, bind_eq_ok.mpr ⟨out₆, h₆, ?_⟩⟩⟩
    exact bind_eq_ok.mpr ⟨out₇, h₇, rfl⟩
  · have hbefore : blocksEnd mem boot d ≤ off.tail := by omega
    refine
      { header := hlocated.header
        holds := ⟨hholds₄.length, fun b => ?_, hholds₄.stop.trans hsame.le⟩
        stored := ?_
        numbers := hnumbers
        log := hlog₂
        tail := htail
        signature := hsigned }
    · have hb := ha.start b
      have hb' := ha.stop b
      rw [hsame.part (by rw [hlocated.header]; omega) (by omega), hholds₄.found]
    · have hself :=
        window_patch_self w₂.out (hdrStart boot off) (hdr.raw.take (storedSize boot)) hin
      rw [hraw] at hself
      exact (hsame.part hstart (by omega)).trans hself

end Magisk.Boot
