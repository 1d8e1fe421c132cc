import Magisk.Boot.Tiles

/-!
# What packing writes

The blocks are written one after the other, each padded to a multiple of the page size, and their
sizes are noted in the header.

* `ImgHdr.SameNumbers`, `ImgHdr.SameText`: what a store to the header keeps;
* `Laid`: the blocks that are done, and the sizes that were noted;
* `Laid.step`: one more block;
* `Ready`, `Usable`: what packing needs of the image and of the files;
* `sections`, `writeBlocks_sections`: what is written for each block, and where;
* `blockData`, `writeBlocks_eq`: the same if nothing is compressed.
-/

namespace Magisk.Boot

open Magisk.Base Magisk.Lib List Option Function

/-! ### What stores to the header keep -/

lemma length_fitText (n : Nat) (value : Str) : (fitText n value).length = n := by
  rw [fitText, length_take, length_append, length_replicate]
  omega

/-- A range of the header without a size or another number in it. -/
def HdrClass.FreeRange (c : HdrClass) (off n : Nat) : Prop :=
  ∀ x ∈ c.fields, x.2 + 4 ≤ off ∨ off + n ≤ x.2

instance (c : HdrClass) (off n : Nat) : Decidable (c.FreeRange off n) :=
  inferInstanceAs (Decidable (∀ x ∈ c.fields, _))

/-- A range of the header that has no number and no part of the checksum in it. -/
structure HdrClass.TextRange (c : HdrClass) (off n : Nat) : Prop where
  numbers : c.FreeRange off n
  dtboOffset : ∀ o, c.dtboOffset = some o → off + n ≤ o ∨ o + 8 ≤ off
  id : ∀ o, c.idOffset = some o → off + n ≤ o ∨ o + 32 ≤ off

variable {off n : Nat} {data content : Str} {f : ImgField}

namespace ImgHdr

variable {h : ImgHdr}

@[simp] lemma cls_put (off : Nat) (data : Str) : (h.put off data).cls = h.cls := by
  rw [put]
  split <;> rfl

lemma get_put (hfree : h.cls.FreeRange off data.length) (f : ImgField) :
    (h.put off data).get f = h.get f := by
  rw [put]
  split
  · exact get_store _ fun o ho => hfree (f, o) (HdrClass.mem_fields ho)
  · rfl

lemma fixed_eq_zero (c : HdrClass) (hf : f ≠ .pageSize) : c.fixed f = 0 := by
  cases f <;> first | exact absurd rfl hf | (cases c <;> rfl)

lemma get_set (h : ImgHdr) (hf : f ≠ .pageSize) (v : Nat) :
    (h.set f v).get f = if h.cls.offset f = none then 0 else u32 v := by
  cases ho : h.cls.offset f with
  | none => rw [if_pos rfl, set_of_none ho, get_of_none ho, fixed_eq_zero _ hf]
  | some o => rw [if_neg (some_ne_none o), get_set_self_mod ho, u32]

lemma get_set_zero (h : ImgHdr) (hf : f ≠ .pageSize) : (h.set f 0).get f = 0 := by
  rw [get_set h hf]
  split <;> rfl

/-- The layout and the bytes outside of the numbers and the checksum are those of another one. -/
structure SameText (h h' : ImgHdr) : Prop where
  cls : h'.cls = h.cls
  text : ∀ off n, h.cls.TextRange off n → window h'.raw off n = window h.raw off n

lemma SameText.refl (h : ImgHdr) : SameText h h := ⟨rfl, fun _ _ _ => rfl⟩

lemma SameText.trans (hh : SameText h h') (hh' : SameText h' h'') : SameText h h'' where
  cls := hh'.cls.trans hh.cls
  text off n hr := (hh'.text off n (hh.cls.symm ▸ hr)).trans (hh.text off n hr)

lemma sameText_set (f : ImgField) (v : Nat) : SameText h (h.set f v) where
  cls := cls_set f v
  text _ _ hr := window_raw_set fun o ho => (hr.numbers (f, o) (HdrClass.mem_fields ho)).symm

lemma window_raw_put (hd : off + n ≤ o ∨ o + data.length ≤ off) :
    window (h.put o data).raw off n = window h.raw off n := by
  rw [put]
  split
  · exact window_patch_of_disjoint (h.length_raw.symm ▸ ‹_›) hd
  · rfl

/-- The layout and the numbers of a header are those of another one. -/
structure SameNumbers (h h' : ImgHdr) : Prop where
  cls : h'.cls = h.cls
  get : ∀ f, h'.get f = h.get f

lemma SameNumbers.refl (h : ImgHdr) : SameNumbers h h := ⟨rfl, fun _ => rfl⟩

lemma SameNumbers.trans (hh : SameNumbers h h') (hh' : SameNumbers h' h'') :
    SameNumbers h h'' := ⟨hh'.cls.trans hh.cls, fun f => (hh'.get f).trans (hh.get f)⟩

lemma sameNumbers_put (hn : data.length = n) (hfree : h.cls.FreeRange off n) :
    SameNumbers h (h.put off data) :=
  ⟨cls_put off data, get_put (hn ▸ hfree)⟩

lemma sameNumbers_setOsVersion (v : BitVec 32) : SameNumbers h (h.setOsVersion v) := by
  rw [setOsVersion]
  cases ho : h.cls.osVersionOffset with
  | none => exact .refl h
  | some o =>
    refine sameNumbers_put (length_leBytes 4 _) ?_
    generalize h.cls = c at ho
    cases c <;> cases ho <;> decide

lemma sameNumbers_setDtboOffset (v : Nat) : SameNumbers h (h.setDtboOffset v) := by
  rw [setDtboOffset]
  cases ho : h.cls.dtboOffset with
  | none => exact .refl h
  | some o =>
    refine sameNumbers_put (length_leBytes 8 _) ?_
    generalize h.cls = c at ho
    cases c <;> cases ho <;> decide

lemma sameText_setDtboOffset (v : Nat) : SameText h (h.setDtboOffset v) := by
  rw [setDtboOffset]
  cases ho : h.cls.dtboOffset with
  | none => exact .refl h
  | some o =>
    refine ⟨cls_put _ _, fun off n hr => window_raw_put ?_⟩
    exact hr.dtboOffset o ho

lemma dtboOffset_of_some (ho : h.cls.dtboOffset = some o) :
    h.dtboOffset = leNat (window h.raw o 8) := by rw [dtboOffset, ho]

lemma dtboOffset_set (f : ImgField) (v : Nat) : (h.set f v).dtboOffset = h.dtboOffset := by
  rw [dtboOffset, dtboOffset, cls_set]
  cases ho : h.cls.dtboOffset with
  | none => rfl
  | some o =>
    have hfree : h.cls.FreeRange o 8 := by
      generalize h.cls = c at ho
      cases c <;> cases ho <;> decide
    dsimp only
    rw [window_raw_set fun p hp => (hfree (f, p) (HdrClass.mem_fields hp)).symm]

/-- The position is read back, as much of it as 64 bits hold. -/
lemma dtboOffset_setDtboOffset_le (h : ImgHdr) (v : Nat) :
    (h.setDtboOffset v).dtboOffset ≤ v := by
  cases ho : h.cls.dtboOffset with
  | none =>
    have hset : h.setDtboOffset v = h := by rw [setDtboOffset, ho]
    rw [hset, dtboOffset, ho]
    exact Nat.zero_le v
  | some o =>
    have hle : o + (leBytes 8 v).length ≤ h.cls.hdrSize := by
      rw [length_leBytes]
      generalize h.cls = c at ho
      cases c <;> cases ho <;> decide
    have hslice := window_patch_self h.raw o (leBytes 8 v) (h.length_raw.symm ▸ hle)
    rw [length_leBytes] at hslice
    have hset : h.setDtboOffset v = h.store o (leBytes 8 v) hle := by
      rw [setDtboOffset, ho]
      exact dif_pos hle
    rw [hset, dtboOffset_of_some (h := h.store o _ hle) ho, store, hslice, leNat_leBytes_mod]
    exact Nat.mod_le v _

/-- The header file has no say in the sizes. -/
lemma sameNumbers_loadProp (prop : HdrProp) : SameNumbers h (h.loadProp prop) := by
  cases prop with
  | name value =>
    rw [loadProp]
    cases ho : h.cls.nameOffset with
    | none => exact .refl h
    | some o =>
      refine sameNumbers_put (length_fitText 16 _) ?_
      generalize h.cls = c at ho
      cases c <;> cases ho <;> decide
  | cmdline value =>
    refine (sameNumbers_put (length_fitText bootArgsSize value) ?_).trans
      (sameNumbers_put (length_fitText bootExtraArgsSize _) ?_)
    · generalize h.cls = c
      cases c <;> decide
    · rw [cls_put]
      generalize h.cls = c
      cases c <;> decide
  | osVersion a b c => exact sameNumbers_setOsVersion _
  | osPatchLevel y m => exact sameNumbers_setOsVersion _

end ImgHdr

lemma sameNumbers_loadHdrFile (files : Files) (h : ImgHdr) :
    ImgHdr.SameNumbers h (files.loadHdrFile h) := by
  rw [Files.loadHdrFile]
  generalize files.header.getD [] = props
  induction props generalizing h with
  | nil => exact .refl h
  | cons prop props ih => exact (ImgHdr.sameNumbers_loadProp prop).trans (ih _)

/-- The blocks whose sizes are filled in from nothing. -/
def Block.isReset : Block → Bool
  | kernel | ramdisk | second | dtb | bootconfig => true
  | extra | recoveryDtbo | signature | vendorRamdiskTable => false

/-- The header at the start of packing. -/
lemma get_startHdr (boot : BootImg) (files : Files) :
    (startHdr boot files).cls = boot.hdr.cls ∧
      (∀ f, (∀ b : Block, f ≠ b.sizeField) → (startHdr boot files).get f = boot.hdr.get f) ∧
      ∀ b : Block, (startHdr boot files).get b.sizeField =
        if b.isReset then 0 else boot.size b := by
  have hsame := sameNumbers_loadHdrFile files
    (((((boot.hdr.set .kernelSize 0).set .ramdiskSize 0).set .secondSize 0).set .dtbSize 0).set
      .bootconfigSize 0)
  refine ⟨?_, fun f hf => ?_, fun b => ?_⟩
  · rw [startHdr, hsame.cls]
    simp
  · have hset : ∀ (h : ImgHdr) (b : Block), (h.set b.sizeField 0).get f = h.get f :=
      fun h b => ImgHdr.get_set_of_ne (hf b) 0
    calc (startHdr boot files).get f = _ := hsame.get f
      _ = _ := hset _ .bootconfig
      _ = _ := hset _ .dtb
      _ = _ := hset _ .second
      _ = _ := hset _ .ramdisk
      _ = _ := hset _ .kernel
  · rw [startHdr, hsame.get]
    cases b <;>
      simp [Block.sizeField, Block.isReset, BootImg.size, ImgHdr.get_set_of_ne, ImgHdr.get_set_zero]

/-! ### What the writer has written -/

section Writing

variable {header page : Nat} (hpage : 0 < page) {w : ImgWriter}

include hpage

lemma out_align (hout : w.out = base ++ data) (hle : header ≤ base.length)
    (hdvd : page ∣ base.length - header) :
    (w.align header page).out = base ++ padTo 0 page data := by
  have hlen : w.out.length - header = base.length - header + data.length := by
    rw [hout, length_append]
    omega
  rw [ImgWriter.align, ImgWriter.append, hlen, alignTo_add hpage hdvd, hout, append_assoc,
    padTo, Nat.add_sub_add_left]

lemma out_block (hle : header ≤ w.out.length) (hdvd : page ∣ w.out.length - header) (b : Block)
    (data : Option Str) :
    (w.block header page b data).out = w.out ++ padTo 0 page (data.getD []) := by
  cases data with
  | none => rw [ImgWriter.block, getD_none, padTo_nil hpage, append_nil]
  | some data => exact out_align hpage rfl hle hdvd

omit hpage in
lemma log_block (hlog : w.log b = []) (data : Option Str) :
    (w.block header page b data).log = update w.log b (data.getD []) := by
  cases data with
  | none => rw [ImgWriter.block, getD_none, ← hlog, update_eq_self]
  | some data =>
    change update w.log b (w.log b ++ data) = _
    rw [hlog, nil_append, getD_some]

omit hpage in
lemma component_eq (w : ImgWriter) (header page : Nat) (b : Block) (data : Option Str) :
    (w.component header page b data).out = (w.block header page b data).out ∧
      (w.component header page b data).log = (w.block header page b data).log ∧
      (w.component header page b data).hdr =
        data.elim w.hdr fun data => w.hdr.set b.sizeField data.length := by
  cases data <;> exact ⟨rfl, rfl, rfl⟩

end Writing

/-- The output has a start and then the blocks that are done, with `d b` for each block and padded,
and their sizes are noted.  Of some blocks a part of `x b` bytes is not counted yet. -/
structure Laid (head : Str) (page : Nat) (hdr : ImgHdr) (d : Block → Str) (x : Block → Nat)
    (done : List Block) (w : ImgWriter) : Prop where
  out : w.out = head ++ pack 0 page (done.map d)
  log : ∀ b ∈ done, w.log b = d b
  later : ∀ b ∉ done, w.log b = []
  text : hdr.SameText w.hdr
  other : ∀ f, (∀ b : Block, f ≠ b.sizeField) → w.hdr.get f = hdr.get f
  noted : ∀ b ∈ done, w.hdr.get b.sizeField = u32 ((d b).length - x b)
  pending : ∀ b ∉ done, w.hdr.get b.sizeField = hdr.get b.sizeField
  dtbo : .recoveryDtbo ∈ done → d .recoveryDtbo = [] ∨
    w.hdr.dtboOffset + (d .recoveryDtbo).length ≤ w.out.length

lemma sizeField_ne_pageSize (b : Block) : b.sizeField ≠ .pageSize := by cases b <;> decide

namespace Laid

variable {head : Str} {header page space : Nat} {hdr : ImgHdr} {d : Block → Str}
  {x : Block → Nat} {done : List Block} {w w' : ImgWriter} {b : Block}

lemma start (head : Str) (page : Nat) (hdr : ImgHdr) (d : Block → Str) (x : Block → Nat) :
    Laid head page hdr d x [] ⟨hdr, head, fun _ => []⟩ where
  out := (append_nil head).symm
  log _ hb := nomatch hb
  later _ _ := rfl
  text := .refl hdr
  other _ _ := rfl
  noted _ hb := nomatch hb
  pending _ _ := rfl
  dtbo hb := nomatch hb

/-- One more block, with its size. -/
lemma step (h : Laid head page hdr d x done w)
    (hout : w'.out = w.out ++ padTo 0 page (d b))
    (hlog : w'.log = update w.log b (d b)) (htext : w.hdr.SameText w'.hdr)
    (hget : ∀ f ≠ b.sizeField, w'.hdr.get f = w.hdr.get f)
    (hsize : w'.hdr.get b.sizeField = u32 ((d b).length - x b))
    (hdtbo : if b = .recoveryDtbo then d .recoveryDtbo = [] ∨ w'.hdr.dtboOffset ≤ w.out.length
      else w'.hdr.dtboOffset = w.hdr.dtboOffset) :
    Laid head page hdr d x (done ++ [b]) w' := by
  have hother : ∀ c ≠ b, w'.log c = w.log c := fun c hc => by
    rw [hlog, update_of_ne hc]
  have hself : w'.log b = d b := by rw [hlog, update_self]
  have hdone : ∀ c ∈ done ++ [b], c ≠ b → c ∈ done := fun c hc hcb =>
    (mem_append.mp hc).resolve_right fun h' => hcb (mem_singleton.mp h')
  have hgrow : w.out.length + (d b).length ≤ w'.out.length := by
    rw [hout, padTo, length_append, length_append]
    omega
  refine
    { out := ?_
      log := fun c hc => ?_
      later := fun c hc => ?_
      text := h.text.trans htext
      other := fun f hf => (hget f (hf b)).trans (h.other f hf)
      noted := fun c hc => ?_
      pending := fun c hc => ?_
      dtbo := fun hc => ?_ }
  · rw [hout, h.out, map_append, pack_append, map_singleton, pack_singleton,
      append_assoc]
  · by_cases hcb : c = b
    · rw [hcb, hself]
    · rw [hother c hcb]
      exact h.log c (hdone c hc hcb)
  · rw [mem_append, not_or, mem_singleton] at hc
    rw [hother c hc.2, h.later c hc.1]
  · by_cases hcb : c = b
    · rw [hcb, hsize]
    · rw [hget _ fun heq => hcb (sizeField_injective heq)]
      exact h.noted c (hdone c hc hcb)
  · rw [mem_append, not_or, mem_singleton] at hc
    rw [hget _ fun heq => hc.2 (sizeField_injective heq)]
    exact h.pending c hc.1
  · split at hdtbo
    · rename_i hbd
      refine hdtbo.imp_right fun hle => ?_
      rw [← hbd]
      omega
    · rename_i hbd
      refine (h.dtbo (hdone _ hc fun heq => hbd heq.symm)).imp_right fun hle => ?_
      omega

section Geometry

variable (hpage : 0 < page) (hhead : head.length = header + space) (hspace : page ∣ space)
  {data : Option Str}

include hpage hhead hspace

section

variable (h : Laid head page hdr d x done w)

include h

lemma aligned :
    header ≤ w.out.length ∧ page ∣ w.out.length - header := by
  have hlen : w.out.length = header + space + (pack 0 page (done.map d)).length := by
    rw [h.out, length_append, hhead]
  have hdvd := dvd_length_pack (z := (0 : UInt8)) hpage (done.map d)
  refine ⟨by omega, ?_⟩
  rw [hlen, Nat.add_assoc, Nat.add_sub_cancel_left]
  exact Dvd.dvd.add hspace hdvd

lemma block (hb : b ∉ done) (hd : d b = data.getD [])
    (hx : x b = 0) (hsize : hdr.get b.sizeField = (d b).length) (hne : b ≠ .recoveryDtbo) :
    Laid head page hdr d x (done ++ [b]) (w.block header page b data) := by
  obtain ⟨hle, hdvd⟩ := h.aligned hpage hhead hspace
  have hhdr : (w.block header page b data).hdr = w.hdr := by cases data <;> rfl
  refine h.step (hd ▸ out_block hpage hle hdvd b data) (hd ▸ log_block (h.later b hb) data)
    (hhdr ▸ .refl _) (fun f _ => by rw [hhdr]) ?_ ?_
  · have hlt := hdr.get_lt b.sizeField
    rw [hhdr, h.pending b hb, hx, Nat.sub_zero, u32, ← hsize, Nat.mod_eq_of_lt hlt]
  · rw [if_neg hne, hhdr]

/-- What a component that is written does, other than to the position of the recovery device
tree. -/
lemma component_aux (hb : b ∉ done) (hd : d b = data.getD [])
    (hx : x b = 0) (hnone : data = none → hdr.get b.sizeField = 0)
    (hfield : hdr.cls.offset b.sizeField = none → d b = []) {v : ImgWriter} (hout : v.out = w.out)
    (hlog : v.log = w.log) (hsame : w.hdr.SameNumbers v.hdr) (htext : w.hdr.SameText v.hdr)
    (hdtbo : if b = .recoveryDtbo then d .recoveryDtbo = [] ∨ v.hdr.dtboOffset ≤ w.out.length
      else v.hdr.dtboOffset = w.hdr.dtboOffset) :
    Laid head page hdr d x (done ++ [b]) (v.component header page b data) := by
  obtain ⟨hle, hdvd⟩ := h.aligned hpage hhead hspace
  obtain ⟨hout', hlog', hhdr⟩ := component_eq v header page b data
  have htext' : v.hdr.SameText (v.component header page b data).hdr := by
    cases data with
    | none => exact .refl _
    | some _ => exact ImgHdr.sameText_set _ _
  have hdtbo' : (v.component header page b data).hdr.dtboOffset = v.hdr.dtboOffset := by
    cases data with
    | none => rfl
    | some _ => exact ImgHdr.dtboOffset_set _ _
  refine h.step ?_ ?_ (htext.trans htext') (fun f hf => ?_) ?_ (hdtbo'.symm ▸ hdtbo)
  · rw [hout', out_block hpage (hout.symm ▸ hle) (hout.symm ▸ hdvd), hout, hd]
  · rw [hlog', log_block (hlog.symm ▸ h.later b hb), hlog, hd]
  · rw [← hsame.get f]
    cases data with
    | none => rfl
    | some _ => exact ImgHdr.get_set_of_ne hf _
  · rw [hx]
    cases data with
    | none =>
      rw [hd]
      exact (hsame.get _).trans ((h.pending b hb).trans (hnone rfl))
    | some data =>
      refine (ImgHdr.get_set v.hdr (sizeField_ne_pageSize b) _).trans ?_
      rw [hsame.cls, h.text.cls]
      split
      · rw [hfield ‹_›]
        rfl
      · rw [hd]
        rfl

lemma component (hb : b ∉ done) (hd : d b = data.getD [])
    (hx : x b = 0) (hnone : data = none → hdr.get b.sizeField = 0)
    (hfield : hdr.cls.offset b.sizeField = none → d b = []) (hne : b ≠ .recoveryDtbo) :
    Laid head page hdr d x (done ++ [b]) (w.component header page b data) := by
  refine h.component_aux hpage hhead hspace hb hd hx hnone hfield rfl rfl (.refl _) (.refl _) ?_
  rw [if_neg hne]

/-- The recovery device tree, with its position. -/
lemma recoveryDtbo (hb : .recoveryDtbo ∉ done)
    (hd : d .recoveryDtbo = files.recoveryDtbo.getD []) (hx : x .recoveryDtbo = 0)
    (hnone : files.recoveryDtbo = none → hdr.get .recoveryDtboSize = 0)
    (hfield : hdr.cls.offset .recoveryDtboSize = none → d .recoveryDtbo = []) :
    Laid head page hdr d x (done ++ [.recoveryDtbo]) (writeDtbo files header page w) := by
  rw [writeDtbo]
  cases hfile : files.recoveryDtbo with
  | none =>
    rw [hfile] at hd
    refine h.component_aux hpage hhead hspace hb hd hx (fun _ => hnone hfile) hfield rfl rfl
      (.refl _) (.refl _) ?_
    exact .inl hd
  | some data =>
    rw [hfile] at hd
    refine h.component_aux hpage hhead hspace hb hd hx nofun hfield rfl rfl
      (ImgHdr.sameNumbers_setDtboOffset _) (ImgHdr.sameText_setDtboOffset _) ?_
    exact .inr (ImgHdr.dtboOffset_setDtboOffset_le _ _)

end

/-- The kernel comes first. -/
lemma kernel (hsize : size + x .kernel = (d .kernel).length)
    (hfield : hdr.cls.offset .kernelSize = none → d .kernel = []) :
    Laid head page hdr d x [.kernel]
      (writeKernel header page (d .kernel, size) ⟨hdr, head, fun _ => []⟩) := by
  have hdvd : page ∣ head.length - header := by
    rw [hhead, Nat.add_sub_cancel_left]
    exact hspace
  have hle : header ≤ head.length := by omega
  refine (start head page hdr d x).step (out_align hpage rfl hle hdvd) ?_ (ImgHdr.sameText_set _ _)
    (fun f hf => ImgHdr.get_set_of_ne hf _) ?_ (ImgHdr.dtboOffset_set _ _)
  · change update (fun _ => []) Block.kernel ([] ++ d .kernel) = _
    rw [nil_append]
  · refine (ImgHdr.get_set hdr (sizeField_ne_pageSize .kernel) size).trans ?_
    split
    · rw [hfield ‹_›]
      exact congrArg u32 (Nat.zero_sub _).symm
    · congr 1
      omega

/-- The ramdisk comes after the header of a MediaTek block, which there is only with a ramdisk. -/
lemma ramdisk (h : Laid head page hdr d x done w) (hb : .ramdisk ∉ done)
    (hd : d .ramdisk = m ++ data.getD []) (hx : x .ramdisk = m.length) (hm : data = none → m = [])
    (hnone : data = none → hdr.get .ramdiskSize = 0)
    (hfield : hdr.cls.offset .ramdiskSize = none → d .ramdisk = []) :
    Laid head page hdr d x (done ++ [.ramdisk])
      ((w.write .ramdisk m).component header page .ramdisk data) := by
  obtain ⟨hle, hdvd⟩ := h.aligned hpage hhead hspace
  have hlater := h.later .ramdisk hb
  cases data with
  | none =>
    have hw : w.write .ramdisk m = w := by
      rw [hm rfl, ImgWriter.write, append_nil, append_nil, update_eq_self]
    rw [hm rfl] at hd
    rw [hm rfl] at hx
    rw [hw]
    exact h.component hpage hhead hspace hb hd hx hnone hfield (by decide)
  | some data =>
    have hd' : d .ramdisk = m ++ data := hd
    have hout : ((w.write .ramdisk m).write .ramdisk data).out = w.out ++ d .ramdisk := by
      rw [hd']
      exact append_assoc w.out m data
    refine h.step (out_align hpage hout hle hdvd) ?_ (ImgHdr.sameText_set _ _)
      (fun f hf => ImgHdr.get_set_of_ne hf _) ?_ (ImgHdr.dtboOffset_set _ _)
    · change update (update w.log .ramdisk (w.log .ramdisk ++ m)) .ramdisk
        (update w.log .ramdisk (w.log .ramdisk ++ m) .ramdisk ++ data) = _
      rw [update_idem, update_self, hlater, nil_append, hd']
    · refine (ImgHdr.get_set w.hdr (sizeField_ne_pageSize .ramdisk) data.length).trans ?_
      rw [h.text.cls, hx]
      split
      · rw [hfield ‹_›]
        exact congrArg u32 (Nat.zero_sub _).symm
      · rw [hd', length_append, Nat.add_sub_cancel_left]

end Geometry

end Laid

/-! ### What is written -/

/-- What packing needs of an image that was parsed. -/
structure Ready (mem : Str) (boot : BootImg) : Prop where
  page : PageSafe (boot.hdr.get .pageSize)
  space : boot.payload.data + spaceOf boot.hdr ≤ mem.length
  bytes : ∀ b, (boot.bytes mem b).length = boot.size b
  kernelParts : ∀ v ∈ boot.kernelParts, (v.bytes mem).length = v.size
  ramdiskParts : ∀ v ∈ boot.ramdiskParts, (v.bytes mem).length = v.size
  noKernel : boot.hdr.cls.offset .kernelSize = none → ∀ v ∈ boot.kernelParts, v.size = 0
  table : boot.flags.mtkRamdisk = true → boot.size .vendorRamdiskTable = 0
  tableSafe : boot.size .ramdisk ≠ 0 → boot.size .vendorRamdiskTable ≠ 0 →
    boot.hdr.get .vendorRamdiskTableEntrySize = tableEntrySz ∧
      TableSafe mem (boot.ptr .ramdisk) (boot.ptr .vendorRamdiskTable)
        (List.range (boot.hdr.get .vendorRamdiskTableEntryNum))
  inTable : boot.ptr .vendorRamdiskTable + boot.size .vendorRamdiskTable ≤ mem.length
  footer : boot.flags.avb = true → boot.avbFooter.getD 0 + avbFooterSz ≤ mem.length
  dhtb : boot.flags.dhtb = true → boot.flags.seandroid = true
  pages : getpagesize ≤ mem.length

lemma length_mtkHdr (h : ((BootImg.partIf flag ⟨hdr.getD 0, mtkHdrSz⟩).bytes mem).length =
      (BootImg.partIf flag ⟨hdr.getD 0, mtkHdrSz⟩).size) :
    (mtkHdr mem flag hdr).length = if flag then mtkHdrSz else 0 := by
  cases flag with
  | false => rfl
  | true => exact h

section Data

variable {compress : FileFormat → Str → Str} {skipComp : Bool} {mem : Str} {boot : BootImg}
  {files : Files}

/-- The kernel with what is around it. -/
def kernelData (mem : Str) (boot : BootImg) (files : Files) (content : Str) : Str :=
  mtkHdr mem boot.flags.mtkKernel boot.kHdr ++ zimagePart mem boot boot.zHdr ++ content ++
    zimagePart mem boot boot.zTail ++ files.kernelDtb.getD []

/-- The size of the kernel is that of its parts, without the header of a MediaTek kernel. -/
lemma kernelBlock_eq (h : Ready mem boot)
    (hcontent : kernelContent compress skipComp mem boot files = .ok (content, content.length)) :
    ∃ size, kernelBlock compress skipComp mem boot files =
        .ok (kernelData mem boot files content, size) ∧
      size + (mtkHdr mem boot.flags.mtkKernel boot.kHdr).length =
        (kernelData mem boot files content).length := by
  have hzHdr : (zimagePart mem boot boot.zHdr).length =
      if boot.flags.zimageKernel then boot.zHdr.size else 0 := by
    have hpart := h.kernelParts _ (.tail _ (.head _))
    rw [zimagePart]
    cases hz : boot.flags.zimageKernel with
    | false => rfl
    | true =>
      rw [hz] at hpart
      exact hpart
  refine ⟨_, bind_eq_ok.mpr ⟨_, hcontent, rfl⟩, ?_⟩
  rw [kernelData]
  simp only [length_append]
  omega

section

variable (h : Ready mem boot) (hsize : boot.size .vendorRamdiskTable = tableEntrySz * n)

include h hsize

lemma length_tableEntry (hi : i < n) : (tableEntry mem boot i).length = tableEntrySz := by
  refine length_window ?_
  have hin := h.inTable
  have hle : tableEntrySz * (i + 1) ≤ tableEntrySz * n := Nat.mul_le_mul_left _ hi
  rw [Nat.mul_add] at hle
  omega

/-- The ramdisks of the table are written, and a table of the same size. -/
lemma vendorRamdisks_eq (his : ∀ i ∈ is, i < n)
    (hsafe : TableSafe mem (boot.ptr .ramdisk) (boot.ptr .vendorRamdiskTable) is) (offset : Nat) :
    ∃ ramdisks table, vendorRamdisks compress skipComp mem boot files offset is =
      .ok (ramdisks, table) ∧ table.length = tableEntrySz * is.length := by
  induction is generalizing offset with
  | nil => exact ⟨[], [], rfl, rfl⟩
  | cons i is ih =>
    have hentry := length_tableEntry h hsize (his i (.head _))
    obtain ⟨-, hfmt⟩ := hsafe i (.head _)
    have hoff : leNat (window (tableEntry mem boot i) 4 4) =
        u32At mem (boot.ptr .vendorRamdiskTable + tableEntrySz * i + 4) := by
      rw [tableEntry, window_window (by decide), u32At]
    have hsz : leNat (window (tableEntry mem boot i) 0 4) =
        u32At mem (boot.ptr .vendorRamdiskTable + tableEntrySz * i) := by
      rw [tableEntry, window_window (by decide), u32At, Nat.add_zero]
    obtain ⟨fmt, hfmt⟩ := succeeds_checkFmtLg_iff.mpr hfmt
    rw [← hoff, ← hsz] at hfmt
    obtain ⟨ramdisks, table, hrest, hlen⟩ := ih (fun j hj => his j (.tail _ hj))
      (fun j hj => hsafe j (.tail _ hj)) _
    refine ⟨_, _, bind_eq_ok.mpr ⟨fmt, hfmt, bind_eq_ok.mpr ⟨_, hrest, rfl⟩⟩, ?_⟩
    simp only [length_append, length_leBytes, length_drop, hentry, hlen,
      length_cons]
    rw [tableEntrySz]
    omega

end

/-- What the files say about a new image, for the image to be packed from them.

There is no file for what the layout has no place for; what is not reset is there again; a
MediaTek header has a ramdisk after it; the new content of a zImage is not smaller than the old one;
and the table of vendor ramdisks has the size that its entries have. -/
structure Usable (mem : Str) (boot : BootImg) (files : Files) : Prop where
  place : ∀ b : Block, boot.hdr.cls.offset b.sizeField = none → files.ofBlock b = none
  kernelDtb : boot.hdr.cls.offset .kernelSize = none → files.kernelDtb = none
  extra : files.extra = none → boot.size .extra = 0
  recoveryDtbo : files.recoveryDtbo = none → boot.size .recoveryDtbo = 0
  mtkRamdisk : files.ramdisk = none → boot.flags.mtkRamdisk = false
  zimage : boot.flags.zimageKernel = true → ∀ m, files.kernel = some m →
    boot.size .kernel ≤ m.length ∧ m.length < 2 ^ 32
  table : boot.size .vendorRamdiskTable ≠ 0 →
    boot.size .vendorRamdiskTable = tableEntrySz * boot.hdr.get .vendorRamdiskTableEntryNum
  entries : boot.size .vendorRamdiskTable ≠ 0 → boot.size .ramdisk = 0 →
    boot.hdr.get .vendorRamdiskTableEntrySize = tableEntrySz ∧
      TableSafe mem (boot.ptr .ramdisk) (boot.ptr .vendorRamdiskTable)
        (List.range (boot.hdr.get .vendorRamdiskTableEntryNum))

/-- What the files say about a new image, other than about the content of a zImage. -/
structure Placed (mem : Str) (boot : BootImg) (files : Files) : Prop where
  place : ∀ b : Block, boot.hdr.cls.offset b.sizeField = none → files.ofBlock b = none
  kernelDtb : boot.hdr.cls.offset .kernelSize = none → files.kernelDtb = none
  extra : files.extra = none → boot.size .extra = 0
  recoveryDtbo : files.recoveryDtbo = none → boot.size .recoveryDtbo = 0
  mtkRamdisk : files.ramdisk = none → boot.flags.mtkRamdisk = false
  table : boot.size .vendorRamdiskTable ≠ 0 →
    boot.size .vendorRamdiskTable = tableEntrySz * boot.hdr.get .vendorRamdiskTableEntryNum
  entries : boot.size .vendorRamdiskTable ≠ 0 → boot.size .ramdisk = 0 →
    boot.hdr.get .vendorRamdiskTableEntrySize = tableEntrySz ∧
      TableSafe mem (boot.ptr .ramdisk) (boot.ptr .vendorRamdiskTable)
        (List.range (boot.hdr.get .vendorRamdiskTableEntryNum))

lemma Usable.placed (hu : Usable mem boot files) : Placed mem boot files :=
  { hu with }

lemma Placed.tableSafe (hu : Placed mem boot files) (h : Ready mem boot)
    (hne : boot.size .vendorRamdiskTable ≠ 0) :
    boot.hdr.get .vendorRamdiskTableEntrySize = tableEntrySz ∧
      TableSafe mem (boot.ptr .ramdisk) (boot.ptr .vendorRamdiskTable)
        (List.range (boot.hdr.get .vendorRamdiskTableEntryNum)) := by
  by_cases hzero : boot.size .ramdisk = 0
  · exact hu.entries hne hzero
  · exact h.tableSafe hzero hne

/-- The new content of the kernel: the old one if there is no file, or if the file is too large
for the zImage. -/
def kernelSource (mem : Str) (boot : BootImg) (files : Files) : Str :=
  match files.kernel with
  | none => boot.bytes mem .kernel
  | some m =>
    if boot.flags.zimageKernel = true ∧ boot.size .kernel < m.length then boot.bytes mem .kernel
    else m

lemma getD_ite_none {c : Prop} [Decidable c] (h : c → data = []) :
    (if c then none else some data).getD [] = data := by
  split
  · exact (h ‹_›).symm
  · rfl

lemma recompress_skip (was fmt : FileFormat) (data : Str) :
    recompress compress true was fmt data = data := rfl

variable (compress) in
lemma kernelContent_eq (h : Ready mem boot) (hu : Usable mem boot files) :
    kernelContent compress true mem boot files =
      .ok (kernelSource mem boot files, (kernelSource mem boot files).length) := by
  rw [kernelContent, kernelSource]
  cases hfile : files.kernel with
  | none => rw [h.bytes]
  | some m =>
    simp only [recompress_skip]
    cases hz : boot.flags.zimageKernel with
    | false => simp
    | true =>
      obtain ⟨hle, hlt⟩ := hu.zimage hz m hfile
      have hu32 : u32 m.length = m.length := Nat.mod_eq_of_lt hlt
      simp only [hu32, if_true, true_and, Nat.sub_self, take_zero, nil_append,
        Bool.not_true, Bool.false_eq_true, if_false]
      split
      · rw [h.bytes]
      · have heq : boot.size .kernel = m.length := by omega
        rw [heq]

variable (compress skipComp) in
/-- The ramdisk and the table are those of the table, or there is a ramdisk if there is a file. -/
lemma ramdiskBlock_eq (h : Ready mem boot) (hu : Placed mem boot files) (hdr : ImgHdr) :
    ∃ ramdisk table, ramdiskBlock compress skipComp mem boot files hdr = .ok (ramdisk, table) ∧
      table.length = boot.size .vendorRamdiskTable ∧
      (ramdisk = none → files.ramdisk = none ∨ boot.size .vendorRamdiskTable ≠ 0) := by
  by_cases hzero : boot.size .vendorRamdiskTable = 0
  · simp only [ramdiskBlock, if_neg (not_not.mpr hzero)]
    exact ⟨_, [], rfl, hzero.symm, fun hnone => .inl (map_eq_none_iff.mp hnone)⟩
  · have hsize := hu.table hzero
    obtain ⟨ramdisks, table, heq, hlen⟩ :=
      vendorRamdisks_eq h hsize (fun i => mem_range.mp) (hu.tableSafe h hzero).2 0
    refine ⟨some ramdisks, table, ?_, ?_, nofun⟩
    · rw [ramdiskBlock, if_pos hzero, heq]
      rfl
    · rw [hlen, length_range, hsize]

lemma ramdisk_of_skip (h : ramdiskBlock compress true mem boot files hdr = .ok (ramdisk, table))
    (hzero : boot.size .vendorRamdiskTable = 0) : ramdisk = files.ramdisk := by
  rw [ramdiskBlock, if_neg (not_not.mpr hzero)] at h
  simp only [recompress_skip, Option.map_id'] at h
  exact (Prod.mk.inj (Except.ok.inj h)).1.symm

/-- What is written for each block, with a content for the kernel and with the ramdisk, the extra
block and the table as they are packed. -/
def sections (mem : Str) (boot : BootImg) (files : Files) (content : Str)
    (ramdisk extra : Option Str) (table : Str) : Block → Str
  | .kernel => kernelData mem boot files content
  | .ramdisk => mtkHdr mem boot.flags.mtkRamdisk boot.rHdr ++ ramdisk.getD []
  | .extra => extra.getD []
  | .signature => boot.bytes mem .signature
  | .vendorRamdiskTable => table
  | b => (files.ofBlock b).getD []

/-- What is written for each block. -/
def blockData (mem : Str) (boot : BootImg) (files : Files) (ramdisk : Option Str) (table : Str) :
    Block → Str
  | .kernel => kernelData mem boot files (kernelSource mem boot files)
  | .ramdisk => mtkHdr mem boot.flags.mtkRamdisk boot.rHdr ++ ramdisk.getD []
  | .signature => boot.bytes mem .signature
  | .vendorRamdiskTable => table
  | b => (files.ofBlock b).getD []

/-- How much of it the sizes do not count at first. -/
def uncounted (mem : Str) (boot : BootImg) : Block → Nat
  | .kernel => (mtkHdr mem boot.flags.mtkKernel boot.kHdr).length
  | .ramdisk => (mtkHdr mem boot.flags.mtkRamdisk boot.rHdr).length
  | _ => 0

/-- What comes before the blocks. -/
def startBytes (mem : Str) (boot : BootImg) : Str :=
  preHeader mem boot ++ window mem boot.payload.data (spaceOf boot.hdr)

/-- Where a block starts. -/
def place (mem : Str) (boot : BootImg) (d : Block → Str) (b : Block) : Nat :=
  (startBytes mem boot ++
    pack 0 (boot.hdr.get .pageSize) ((Block.all.take (Block.all.idxOf b)).map d)).length

/-- What the part of `repack` that writes the blocks ends with. -/
structure Written (mem : Str) (boot : BootImg) (files : Files) (d : Block → Str) (w : ImgWriter)
    (off : Offsets) : Prop where
  laid : Laid (startBytes mem boot) (boot.hdr.get .pageSize) (startHdr boot files) d
    (uncounted mem boot) Block.all w
  header : off.header = (preHeader mem boot).length
  kernel : off.kernel = u32 (place mem boot d .kernel)
  ramdisk : off.ramdisk = u32 (place mem boot d .ramdisk)
  second : off.second = u32 (place mem boot d .second)
  extra : off.extra = u32 (place mem boot d .extra)
  dtb : off.dtb = u32 (place mem boot d .dtb)

lemma length_preHeader_le (mem : Str) (boot : BootImg) :
    (preHeader mem boot).length ≤ nookhdPreHeaderSz := by
  have hle : ∀ n ≤ nookhdPreHeaderSz, (window mem 0 n).length ≤ nookhdPreHeaderSz :=
    fun n hn => (length_take_le _ _).trans hn
  rw [preHeader]
  split
  · exact hle _ (by decide)
  · split
    · exact hle _ (by decide)
    · split
      · exact hle _ le_rfl
      · split
        · exact hle _ (by decide)
        · exact Nat.zero_le _

lemma spaceOf_startHdr (boot : BootImg) (files : Files) :
    spaceOf (startHdr boot files) = spaceOf boot.hdr := by
  obtain ⟨hcls, hother, -⟩ := get_startHdr boot files
  rw [spaceOf, spaceOf, hcls, hother _ fun b => (sizeField_ne_pageSize b).symm]

lemma dvd_spaceOf (hdr : ImgHdr) : hdr.get .pageSize ∣ spaceOf hdr := by
  rw [spaceOf]
  split
  · exact dvd_alignTo _
  · exact dvd_rfl

/-- A layout without a kernel gets none. -/
lemma kernelData_eq_nil (h : Ready mem boot) (hu : Placed mem boot files)
    (hcontent : kernelContent compress skipComp mem boot files = .ok (content, n))
    (hfield : boot.hdr.cls.offset .kernelSize = none) : kernelData mem boot files content = [] := by
  have hnil : ∀ v ∈ boot.kernelParts, v.bytes mem = [] := fun v hv =>
    eq_nil_of_length_eq_zero ((h.kernelParts v hv).trans (h.noKernel hfield v hv))
  have hmtk : boot.flags.mtkKernel = false := by
    have hsize := h.noKernel hfield _ (.head _)
    cases hflag : boot.flags.mtkKernel with
    | false => rfl
    | true =>
      rw [hflag] at hsize
      cases hsize
  have hpart : ∀ part, BootImg.partIf boot.flags.zimageKernel part ∈ boot.kernelParts →
      zimagePart mem boot part = [] := by
    intro part hmem
    have hbytes := hnil _ hmem
    rw [zimagePart]
    split
    · rw [BootImg.partIf, if_pos ‹_›] at hbytes
      exact hbytes
    · rfl
  have hkernel : content = [] := by
    rw [kernelContent, show files.kernel = none from hu.place .kernel hfield] at hcontent
    rw [← (Prod.mk.inj (Except.ok.inj hcontent)).1]
    exact hnil ⟨boot.ptr .kernel, boot.size .kernel⟩ (by simp [BootImg.kernelParts])
  rw [kernelData, mtkHdr, hmtk, hpart _ (by simp [BootImg.kernelParts]), hkernel,
    hpart _ (by simp [BootImg.kernelParts]), hu.kernelDtb hfield]
  rfl

/-- **The blocks are written one after the other.** -/
lemma writeBlocks_sections (h : Ready mem boot) (hu : Placed mem boot files)
    (hcontent : kernelContent compress skipComp mem boot files = .ok (content, content.length))
    (hramdisk : ramdiskBlock compress skipComp mem boot files (startHdr boot files) =
      .ok (ramdisk, table))
    (htable : table.length = boot.size .vendorRamdiskTable)
    (hnone : ramdisk = none → files.ramdisk = none ∨ boot.size .vendorRamdiskTable ≠ 0) :
    ∃ w off, writeBlocks compress skipComp mem boot files = .ok (w, off) ∧
      Written mem boot files (sections mem boot files content ramdisk
        (files.extra.map (recompress compress skipComp boot.eFmt boot.eFmt)) table) w off := by
  obtain ⟨hcls, hother, hsizes⟩ := get_startHdr boot files
  have hpage := hother _ fun b => (sizeField_ne_pageSize b).symm
  have hspace : hdrSpace (startHdr boot files) = .ok (spaceOf boot.hdr) := by
    rw [hdrSpace_eq (hpage.symm ▸ h.page), spaceOf_startHdr]
  obtain ⟨size, hkernel, hsize⟩ := kernelBlock_eq h hcontent
  have hheader : u32 (preHeader mem boot).length = (preHeader mem boot).length :=
    Nat.mod_eq_of_lt ((length_preHeader_le mem boot).trans_lt (by decide))
  have hhead : (startBytes mem boot).length =
      u32 (preHeader mem boot).length + spaceOf boot.hdr := by
    rw [startBytes, length_append, length_window h.space, hheader]
  have hdvd := dvd_spaceOf boot.hdr
  have hplace : ∀ b : Block, (startHdr boot files).cls.offset b.sizeField = none →
      (files.ofBlock b).getD [] = [] := by
    intro b hb
    rw [hu.place b (hcls ▸ hb)]
    rfl
  refine ⟨_, _,
    bind_eq_ok.mpr ⟨_, hspace, bind_eq_ok.mpr ⟨_, hkernel, bind_eq_ok.mpr ⟨_, hramdisk, rfl⟩⟩⟩, ?_⟩
  have hk : Laid _ _ (startHdr boot files) (sections mem boot files content ramdisk
      (files.extra.map (recompress compress skipComp boot.eFmt boot.eFmt)) table)
      (uncounted mem boot) _ _ := .kernel h.page.1 hhead hdvd hsize
    fun hf => kernelData_eq_nil h hu hcontent (hcls ▸ hf)
  have hmtk : ramdisk = none → mtkHdr mem boot.flags.mtkRamdisk boot.rHdr = [] := by
    intro hr
    rcases hnone hr with hnofile | htab
    · rw [hu.mtkRamdisk hnofile]
      rfl
    · cases hflag : boot.flags.mtkRamdisk with
      | false => rfl
      | true => exact absurd (h.table hflag) htab
  have hrField : (startHdr boot files).cls.offset .ramdiskSize ≠ none := by
    generalize (startHdr boot files).cls = c
    cases c <;> decide
  have hr := hk.ramdisk h.page.1 hhead hdvd (by decide) rfl rfl hmtk (fun _ => hsizes .ramdisk)
    fun hf => absurd hf hrField
  have hs := hr.component h.page.1 hhead hdvd (by decide) rfl rfl
    (fun _ => hsizes .second) (hplace .second) (by decide)
  have hextra : ∀ f : Str → Str, (startHdr boot files).cls.offset .extraSize = none →
      (files.extra.map f).getD [] = [] := by
    intro f hf
    have hfile : files.extra = none := hu.place .extra (hcls ▸ hf)
    rw [hfile]
    rfl
  have he := hs.component h.page.1 hhead hdvd (by decide) rfl rfl
    (fun hf => (hsizes .extra).trans (hu.extra (map_eq_none_iff.mp hf))) (hextra _)
    (by decide)
  have hrd := he.recoveryDtbo h.page.1 hhead hdvd (by decide) rfl rfl
    (fun hf => (hsizes .recoveryDtbo).trans (hu.recoveryDtbo hf)) (hplace .recoveryDtbo)
  have hd := hrd.component h.page.1 hhead hdvd (by decide) rfl rfl
    (fun _ => hsizes .dtb) (hplace .dtb) (by decide)
  have hsigNil : boot.size .signature = 0 → boot.bytes mem .signature = [] := fun hz =>
    eq_nil_of_length_eq_zero ((h.bytes .signature).trans hz)
  have hsig := hd.block h.page.1 hhead hdvd (b := .signature) (by decide)
    (getD_ite_none hsigNil).symm rfl
    ((hsizes .signature).trans (h.bytes .signature).symm) (by decide)
  have ht := hsig.block h.page.1 hhead hdvd (by decide)
    (getD_ite_none id).symm rfl
    ((hsizes .vendorRamdiskTable).trans htable.symm) (by decide)
  have hb := ht.component h.page.1 hhead hdvd (by decide) rfl rfl
    (fun _ => hsizes .bootconfig) (hplace .bootconfig) (by decide)
  exact
    { laid := hb
      header := hheader
      kernel := congrArg (fun out : Str => u32 out.length) (append_nil _).symm
      ramdisk := congrArg (fun out : Str => u32 out.length) hk.out
      second := congrArg (fun out : Str => u32 out.length) hr.out
      extra := congrArg (fun out : Str => u32 out.length) hs.out
      dtb := congrArg (fun out : Str => u32 out.length) hrd.out }

variable (compress) in
lemma sections_eq_blockData (ramdisk : Option Str) (table : Str) :
    sections mem boot files (kernelSource mem boot files) ramdisk
        (files.extra.map (recompress compress true boot.eFmt boot.eFmt)) table =
      blockData mem boot files ramdisk table := by
  have hextra := congrFun map_id files.extra
  funext b
  cases b with
  | extra => exact congrArg (Option.getD · []) hextra
  | kernel | ramdisk | second | recoveryDtbo | dtb | signature | vendorRamdiskTable
  | bootconfig => rfl

variable (compress) in
lemma writeBlocks_eq (h : Ready mem boot) (hu : Usable mem boot files) :
    ∃ ramdisk table w off, writeBlocks compress true mem boot files = .ok (w, off) ∧
      Written mem boot files (blockData mem boot files ramdisk table) w off ∧
      table.length = boot.size .vendorRamdiskTable ∧
      (boot.size .vendorRamdiskTable = 0 → ramdisk = files.ramdisk) := by
  obtain ⟨ramdisk, table, hramdisk, htable, hnone⟩ :=
    ramdiskBlock_eq compress true h hu.placed (startHdr boot files)
  obtain ⟨w, off, hwrite, hw⟩ :=
    writeBlocks_sections h hu.placed (kernelContent_eq compress h hu) hramdisk htable hnone
  rw [sections_eq_blockData] at hw
  exact ⟨ramdisk, table, w, off, hwrite, hw, htable, ramdisk_of_skip hramdisk⟩

lemma uncounted_le (content : Str) (ramdisk extra : Option Str) (table : Str) (b : Block) :
    uncounted mem boot b ≤ (sections mem boot files content ramdisk extra table b).length := by
  cases b with
  | kernel =>
    change (mtkHdr mem boot.flags.mtkKernel boot.kHdr).length ≤
      (kernelData mem boot files _).length
    simp only [kernelData, length_append]
    omega
  | ramdisk =>
    change _ ≤ (mtkHdr mem boot.flags.mtkRamdisk boot.rHdr ++ _).length
    rw [length_append]
    exact Nat.le_add_right _ _
  | second | extra | recoveryDtbo | dtb | signature | vendorRamdiskTable | bootconfig =>
    exact Nat.zero_le _

end Data

end Magisk.Boot
