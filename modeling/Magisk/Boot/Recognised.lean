import Magisk.Boot.SelfConsistent

/-!
# Headers that are found again

`parse_hdr` chooses the layout of a header by a few of its bytes, after it has looked for the marks
of a loader.  The header of a packed image has these bytes again.

* `HdrClass.Marked`: the bytes at an address lead to a layout;
* `parseHdr_vendor`, `parseHdr_pxa`, `parseHdr_of_small`: what is found from them;
* `marked_of_bootImg`: the header of an image that was accepted is marked;
* `Finished.marked`, `Finished.noLoader`: so is the one that is stored at the end of packing.
-/

namespace Magisk.Boot

open Magisk.Base Magisk.Lib Option

variable {mem : Str} {addr : Nat} {flags : Flags} {hdr : ImgHdr} {boot : BootImg}

/-! ### Marks -/

variable {c : HdrClass} {addr' n off : Nat} {verify : Str → Str → Bool} {img : BootImg}

namespace HdrClass

/-- The magic number of a layout. -/
def magic (c : HdrClass) : Str := if c.isVendor then vendorBootMagic else bootMagic

/-- Where the number is by which the layout is chosen. -/
def choiceOffset : HdrClass → Nat
  | pxa => 36
  | vndV3 | vndV4 => 8
  | v0 | v1 | v2 | v3 | v4 => 40

/-- The number leads to the layout. -/
def Chosen (c : HdrClass) (v : Nat) : Prop :=
  match c with
  | pxa => 0x02000000 ≤ v
  | vndV3 => v ≠ 4
  | vndV4 => v = 4
  | c => aospClass v = c

/-- The bytes at an address are those of a header with this layout. -/
structure Marked (c : HdrClass) (mem : Str) (addr : Nat) : Prop where
  magic : window mem addr 8 = c.magic
  chosen : c.Chosen (u32At mem (addr + c.choiceOffset))

/-- The layouts of `make_aosp_hdr`. -/
def isAosp (c : HdrClass) : Bool := !c.isVendor && c != pxa

lemma aospClass_isAosp (version : Nat) : (aospClass version).isAosp = true := by
  unfold aospClass
  split <;> rfl

lemma choiceOffset_of_isAosp (h : c.isAosp = true) : c.choiceOffset = 40 := by
  cases c <;> first | rfl | cases h

lemma chosen_iff (h : c.isAosp = true) (v : Nat) : c.Chosen v ↔ aospClass v = c := by
  cases c <;> first | exact Iff.rfl | cases h

lemma magic_of_isAosp (h : c.isAosp = true) : c.magic = bootMagic := by
  cases c <;> first | rfl | cases h

lemma Marked.congr (h : c.Marked mem addr) {mem' : Str}
    (hmagic : window mem' addr' 8 = window mem addr 8)
    (hchoice : window mem' (addr' + c.choiceOffset) 4 = window mem (addr + c.choiceOffset) 4) :
    c.Marked mem' addr' := by
  refine ⟨hmagic.trans h.magic, ?_⟩
  rw [u32At, hchoice]
  exact h.chosen

end HdrClass

/-- Nothing in the header is the mark of a loader. -/
structure NoLoader (mem : Str) (addr : Nat) : Prop where
  page : u32At mem (addr + 36) < 0x02000000
  amonet : window mem (addr + amonetMicroloaderSz) 8 ≠ bootMagic
  nookhd : ¬HasNookhd mem addr
  acclaim : window mem (addr + 48) 10 ≠ str "BauwksBoot"

lemma length_nookhdMagics : ∀ text ∈ nookhdMagics, text.length ≤ 30 := by decide

/-- The marks of a loader are in three places. -/
lemma NoLoader.congr (h : NoLoader mem addr)
    (hpage : u32At mem' (addr' + 36) = u32At mem (addr + 36))
    (htext : window mem' (addr' + 48) 46 = window mem (addr + 48) 46)
    (hmagic : window mem' (addr' + amonetMicroloaderSz) 8 =
      window mem (addr + amonetMicroloaderSz) 8) :
    NoLoader mem' addr' := by
  have hpart : ∀ o n, o + n ≤ 46 →
      window mem' (addr' + 48 + o) n = window mem (addr + 48 + o) n := by
    intro o n hle
    rw [← window_window hle, htext, window_window hle]
  refine ⟨?_, hmagic ▸ h.amonet, ?_, ?_⟩
  · rw [hpage]
    exact h.page
  · rintro ⟨text, hmem, htext'⟩
    have hlen := length_nookhdMagics text hmem
    have hcmd := hpart 16 text.length (by omega)
    exact h.nookhd ⟨text, hmem, hcmd.symm.trans htext'⟩
  · rw [hpart 0 10 (by decide)]
    exact h.acclaim

/-! ### What is found from the marks -/

lemma loadU32_eq (h : p + 4 ≤ mem.length) : loadU32 mem p = .ok (u32At mem p) := by
  rw [loadU32, load_of_le h]
  rfl

lemma isAmonet_eq (h : addr + amonetMicroloaderSz + 8 ≤ mem.length) :
    isAmonet mem addr = .ok (decide (HasAmonet mem addr)) := by
  refine bind_eq_ok.mpr ⟨_, load_of_le (by omega), ?_⟩
  by_cases hmicro : bufferContain (window mem addr amonetMicroloaderSz) (str "microloader") = true
  · rw [if_pos hmicro, load_of_le h]
    refine congrArg Except.ok ?_
    rw [Bool.eq_iff_iff, decide_eq_true_eq, beq_iff_eq, HasAmonet, and_iff_right hmicro]
  · rw [if_neg hmicro, decide_eq_false fun hamonet : HasAmonet mem addr => hmicro hamonet.1]

lemma parseHdr_vendor (hm : c.Marked mem addr) (hc : c.isVendor = true)
    (hload : loadHdr mem c addr c.hdrSize = .ok hdr) :
    parseHdr mem addr .aospVendor flags = .ok (addr, some hdr, flags) := by
  have hle := (succeeds_loadHdr_iff.mp ⟨hdr, hload⟩).2
  have hsize : 12 ≤ c.hdrSize := by cases c <;> decide
  have hcls : (if u32At mem (addr + 8) = 4 then HdrClass.vndV4 else .vndV3) = c := by
    cases c with
    | v0 | v1 | v2 | v3 | v4 | pxa => cases hc
    | vndV3 => exact if_neg hm.chosen
    | vndV4 => exact if_pos hm.chosen
  refine (if_pos rfl).trans (bind_eq_ok.mpr ⟨_, loadU32_eq (by omega), ?_⟩)
  rw [hcls]
  exact bind_eq_ok.mpr ⟨hdr, hload, rfl⟩

lemma parseHdr_pxa (hm : HdrClass.pxa.Marked mem addr)
    (hload : loadHdr mem .pxa addr HdrClass.pxa.hdrSize = .ok hdr) :
    parseHdr mem addr .aosp flags = .ok (addr, some hdr, flags) := by
  have hle : addr + 1640 ≤ mem.length := (succeeds_loadHdr_iff.mp ⟨hdr, hload⟩).2
  refine (if_neg (by decide)).trans (bind_eq_ok.mpr ⟨_, loadU32_eq (by omega), ?_⟩)
  exact (if_pos hm.chosen).trans (bind_eq_ok.mpr ⟨hdr, hload, rfl⟩)

lemma makeAospHdr_eq (hm : c.Marked mem addr) (hc : c.isAosp = true)
    (hle : addr + 44 ≤ mem.length) (hload : loadHdr mem c addr (size.getD c.hdrSize) = .ok hdr) :
    makeAospHdr mem addr size = .ok (some hdr) := by
  have hmagic : window mem addr 8 = bootMagic := hm.magic.trans (HdrClass.magic_of_isAosp hc)
  refine bind_eq_ok.mpr ⟨_, load_of_le (by omega), (if_neg (not_not.mpr hmagic)).trans ?_⟩
  refine bind_eq_ok.mpr ⟨_, loadU32_eq (by omega), ?_⟩
  dsimp only
  have hversion := (HdrClass.chosen_iff hc _).mp hm.chosen
  rw [HdrClass.choiceOffset_of_isAosp hc] at hversion
  rw [hversion, hload]
  rfl

/-- The marks of a loader are looked for one after the other. -/
lemma parseHdr_of_small (hpage : u32At mem (addr + 36) < 0x02000000)
    (hle : addr + amonetMicroloaderSz + 8 ≤ mem.length) :
    parseHdr mem addr .aosp flags =
      if HasAmonet mem addr then do
        let pageSize ← loadU32 mem (addr + amonetMicroloaderSz + 36)
        let realHdrSz ← sub pageSize amonetMicroloaderSz
        let hdr ← makeAospHdr mem (addr + amonetMicroloaderSz) (some realHdrSz)
        .ok (addr, hdr, { flags with amonet := true })
      else if HasNookhd mem addr then do
        let hdr ← makeAospHdr mem (addr + nookhdPreHeaderSz) none
        .ok (addr + nookhdPreHeaderSz, hdr, { flags with nookhd := true })
      else if window mem (addr + 48) 10 = str "BauwksBoot" then do
        let hdr ← makeAospHdr mem (addr + acclaimPreHeaderSz) none
        .ok (addr + acclaimPreHeaderSz, hdr, { flags with acclaim := true })
      else (do
        let hdr ← makeAospHdr mem addr none
        .ok (addr, hdr, flags)) := by
  have hle' : addr + 1032 ≤ mem.length := hle
  have hcmd : cmdMatch mem addr nookhdMagics = .ok (decide (HasNookhd mem addr)) := by
    refine cmdMatch_eq fun text htext => ?_
    have hlen := length_nookhdMagics text htext
    omega
  rw [parseHdr, if_neg (by decide), loadU32_eq (by omega), isAmonet_eq hle, hcmd,
    load_of_le (by omega)]
  change (if 0x02000000 ≤ u32At mem (addr + 36) then _ else
    if decide (HasAmonet mem addr) = true then _ else
      if decide (HasNookhd mem addr) = true then _ else _) = _
  rw [if_neg (not_le.mpr hpage)]
  simp only [decide_eq_true_eq]
  rfl

lemma parseHdr_plain (hm : c.Marked mem addr) (hc : c.isAosp = true) (hn : NoLoader mem addr)
    (hload : loadHdr mem c addr c.hdrSize = .ok hdr) :
    parseHdr mem addr .aosp flags = .ok (addr, some hdr, flags) := by
  have hle := (succeeds_loadHdr_iff.mp ⟨hdr, hload⟩).2
  have hsize : 1032 ≤ c.hdrSize := by cases c <;> decide
  have hle' : addr + amonetMicroloaderSz + 8 ≤ mem.length := by
    rw [amonetMicroloaderSz]
    omega
  rw [parseHdr_of_small hn.page hle', if_neg fun h => hn.amonet h.2, if_neg hn.nookhd,
    if_neg hn.acclaim]
  exact bind_eq_ok.mpr ⟨some hdr, makeAospHdr_eq hm hc (by omega) hload, rfl⟩

/-! ### Images that were accepted -/

/-- The first check that holds is one of the checks. -/
lemma exists_of_firstFmt (h : firstFmt mem addr len cs = .ok fmt) (hne : fmt ≠ .unknown) :
    ∃ c, (c, fmt) ∈ cs ∧ c.run mem addr len = .ok true := by
  induction cs with
  | nil => exact absurd (Except.ok.inj h).symm hne
  | cons x cs ih =>
    obtain ⟨c, fmt'⟩ := x
    obtain ⟨holds, hrun, h⟩ := bind_eq_ok.mp h
    cases holds with
    | true =>
      cases h
      exact ⟨c, .head _, hrun⟩
    | false =>
      obtain ⟨c', hmem, hrun'⟩ := ih h
      exact ⟨c', .tail _ hmem, hrun'⟩

/-- The format of an image is told by its magic number. -/
lemma window_of_checkFmtAt (magic : Str) (hne : fmt ≠ .unknown)
    (honly : ∀ x ∈ fmtChecks, x.2 = fmt → x.1 = .magic 0 magic)
    (h : checkFmtAt mem addr len = .ok fmt) :
    window mem addr magic.length = magic := by
  obtain ⟨c, hc, hrun⟩ := exists_of_firstFmt h hne
  obtain rfl : c = .magic 0 magic := honly _ hc rfl
  rw [FmtCheck.run] at hrun
  split at hrun
  · cases hload : load mem (addr + 0) magic.length with
    | error e =>
      rw [hload] at hrun
      cases hrun
    | ok l =>
      rw [hload] at hrun
      have heq : l = magic := beq_iff_eq.mp (Except.ok.inj hrun)
      exact (load_eq_ok hload).2.symm.trans heq
  · cases hrun

/-- The type of an image that is parsed, and its magic number. -/
def TypedAt (mem : Str) (addr : Nat) (type : FileFormat) : Prop :=
  (type = .aosp ∧ window mem addr 8 = bootMagic) ∨
    (type = .aospVendor ∧ window mem addr 8 = vendorBootMagic)

lemma window_loadHdr (h : loadHdr mem c addr sz = .ok hdr) (hle : o + n ≤ sz) :
    window hdr.raw o n = window mem (addr + o) n := by
  rw [loadHdr] at h
  split at h
  · rename_i hin
    cases h
    rw [window_append_left (by rw [length_window hin.2]; exact hle), window_window hle]
  · cases h

lemma HdrClass.choiceOffset_le (c : HdrClass) : c.choiceOffset + 4 ≤ 44 := by cases c <;> decide

lemma HdrClass.Marked.of_loadHdr (hm : c.Marked mem addr)
    (h : loadHdr mem c addr sz = .ok hdr) (hsz : 44 ≤ sz) : hdr.cls.Marked hdr.raw 0 := by
  have hle := c.choiceOffset_le
  rw [(get_loadHdr h).1]
  refine hm.congr (window_loadHdr h (by omega)) ?_
  rw [Nat.zero_add]
  exact window_loadHdr h (by omega)

lemma marked_of_makeAospHdr (h : makeAospHdr mem addr none = .ok (some hdr)) :
    hdr.cls.Marked hdr.raw 0 := by
  obtain ⟨magic, hmagic, h⟩ := bind_eq_ok.mp h
  obtain ⟨-, rfl⟩ := load_eq_ok hmagic
  split at h
  · cases h
  · rename_i hboot
    obtain ⟨version, hversion, h⟩ := bind_eq_ok.mp h
    have hu32 := loadU32_eq_ok hversion
    dsimp only [getD_none] at h
    cases hload : loadHdr mem (aospClass version) addr (aospClass version).hdrSize with
    | error e =>
      rw [hload] at h
      cases h
    | ok hdr' =>
      rw [hload] at h
      obtain rfl : hdr' = hdr := some.inj (Except.ok.inj h)
      have haosp := HdrClass.aospClass_isAosp version
      refine HdrClass.Marked.of_loadHdr ⟨?_, ?_⟩ hload ?_
      · rw [HdrClass.magic_of_isAosp haosp]
        exact not_not.mp hboot
      · rw [HdrClass.choiceOffset_of_isAosp haosp, HdrClass.chosen_iff haosp, ← hu32]
      · generalize aospClass version = c
        cases c <;> decide

/-- A header that is found is marked, if it does not come after a microloader. -/
lemma marked_of_parseHdr (htype : TypedAt mem addr type)
    (h : parseHdr mem addr type flags = .ok (addr', some hdr, flags'))
    (hamonet : flags'.amonet = false) : hdr.cls.Marked hdr.raw 0 := by
  have hmake : ∀ {p a : Nat} {f : Flags},
      (makeAospHdr mem p none >>= fun hdr => .ok (a, hdr, f)) = .ok (addr', some hdr, flags') →
        hdr.cls.Marked hdr.raw 0 := by
    intro p a f hx
    obtain ⟨hdr', hhdr', hx⟩ := bind_eq_ok.mp hx
    obtain rfl : hdr' = some hdr := (Prod.mk.inj (Prod.mk.inj (Except.ok.inj hx)).2).1
    exact marked_of_makeAospHdr hhdr'
  rcases htype with ⟨rfl, hmagic⟩ | ⟨rfl, hmagic⟩
  · rw [parseHdr] at h
    obtain ⟨pageSize, hpage, h⟩ := bind_eq_ok.mp h
    split at h
    · obtain ⟨hdr', hload, h⟩ := bind_eq_ok.mp h
      obtain rfl : hdr' = hdr :=
        some.inj (Prod.mk.inj (Prod.mk.inj (Except.ok.inj h)).2).1
      have hm : HdrClass.pxa.Marked mem addr := by
        obtain rfl := loadU32_eq_ok hpage
        exact ⟨hmagic, ‹_›⟩
      exact hm.of_loadHdr hload (by decide)
    · obtain ⟨amonet, -, h⟩ := bind_eq_ok.mp h
      split at h
      · obtain ⟨pageSize, -, h⟩ := bind_eq_ok.mp h
        obtain ⟨realHdrSz, -, h⟩ := bind_eq_ok.mp h
        obtain ⟨hdr', -, h⟩ := bind_eq_ok.mp h
        rw [← (Prod.mk.inj (Prod.mk.inj (Except.ok.inj h)).2).2] at hamonet
        cases hamonet
      · obtain ⟨nookhd, -, h⟩ := bind_eq_ok.mp h
        split at h
        · exact hmake h
        · obtain ⟨name, -, h⟩ := bind_eq_ok.mp h
          split at h
          · exact hmake h
          · exact hmake h
  · rw [parseHdr] at h
    obtain ⟨version, hversion, h⟩ := bind_eq_ok.mp h
    obtain ⟨hdr', hload, h⟩ := bind_eq_ok.mp h
    obtain rfl : hdr' = hdr :=
      some.inj (Prod.mk.inj (Prod.mk.inj (Except.ok.inj h)).2).1
    obtain rfl := loadU32_eq_ok hversion
    split at hload
    · rename_i h4
      have hm : HdrClass.vndV4.Marked mem addr := ⟨hmagic, h4⟩
      exact hm.of_loadHdr hload (by decide)
    · rename_i h4
      have hm : HdrClass.vndV3.Marked mem addr := ⟨hmagic, h4⟩
      exact hm.of_loadHdr hload (by decide)

lemma sets_of_parseBlocks (h : parseBlocks verify mem img = .ok (.accepted boot)) :
    ∃ hdr, ImgHdr.SetsOnly .kernelSize img.hdr hdr ∧
      ImgHdr.SetsOnly .ramdiskSize hdr boot.hdr := by
  obtain ⟨img₁, img₂, eFmt, h₁, h₂, -, h₄⟩ := parseBlocks_eq_ok h
  obtain ⟨flags, avbFooter, vbmeta, rfl, -⟩ := parseTail_eq_ok h₄
  exact ⟨img₁.hdr, (parseKernel_narrowed h₁).hdr, (parseRamdisk_narrowed h₂).hdr⟩

lemma marked_of_setsOnly (hf : f = .kernelSize ∨ f = .ramdiskSize)
    (hs : ImgHdr.SetsOnly f h h') (hm : h.cls.Marked h.raw 0) : h'.cls.Marked h'.raw 0 := by
  rw [hs.cls]
  refine hm.congr (hs.window_raw fun o ho => ?_) (hs.window_raw fun o ho => ?_)
  all_goals
    generalize h.cls = c at ho ⊢
    rcases hf with rfl | rfl <;> cases c <;> cases ho <;> decide

/-- Flags of an image whose tail was not looked at. -/
structure TailFresh (flags : Flags) : Prop where
  seandroid : flags.seandroid = flags.dhtb
  lgBump : flags.lgBump = false
  avb1Signed : flags.avb1Signed = false

lemma TailFresh.scanStep (hf : TailFresh s.2)
    (h : scanStep verify mem size s = .ok (.inl t)) : TailFresh t.2 := by
  rcases scanStep_flags h with ht | ⟨_, _, _, _, _, _, ht⟩
  · rw [ht]
    exact ⟨rfl, hf.lgBump, hf.avb1Signed⟩
  · rw [ht]
    exact ⟨hf.seandroid, hf.lgBump, hf.avb1Signed⟩

lemma TailFresh.parseHdr {hdr : Option ImgHdr}
    (hf : TailFresh flags) (h : parseHdr mem addr type flags = .ok (addr', hdr, flags')) :
    TailFresh flags' := by
  rcases parseHdr_flags h with rfl | rfl | rfl | rfl <;>
    exact ⟨hf.seandroid, hf.lgBump, hf.avb1Signed⟩

/-- The flags of a tail that was looked at. -/
lemma parseTail_flags (h : parseTail mem verify img = .ok img')
    (hsize : img.tail.size ≠ 0) : ∃ avb, img'.flags = { tailFlags mem verify img with avb } := by
  rcases parseTail_cases h with ⟨hzero, -⟩ | ⟨-, ⟨rfl, -⟩ | ⟨-, ⟨rfl, -⟩ | ⟨-, rfl⟩⟩⟩
  · exact absurd hzero hsize
  all_goals exact ⟨_, rfl⟩

/-- What the tail was looked at with: the flags of the blocks make no difference to it. -/
lemma exists_parseTail (h : parseBlocks verify mem img = .ok (.accepted boot)) :
    ∃ img', parseTail mem verify img' = .ok boot ∧ img'.payload = img.payload ∧
      img'.tail = img.tail ∧ ∃ mtkKernel zimageKernel mtkRamdisk,
        img'.flags = { img.flags with mtkKernel, zimageKernel, mtkRamdisk } := by
  obtain ⟨img₁, img₂, eFmt, h₁, h₂, -, h₄⟩ := parseBlocks_eq_ok h
  have hn₁ := parseKernel_narrowed h₁
  have hn₂ := parseRamdisk_narrowed h₂
  obtain ⟨mtkKernel, zimageKernel, hflags₁⟩ := parseKernel_flags h₁
  obtain ⟨mtkRamdisk, hflags₂⟩ := parseRamdisk_flags h₂
  refine ⟨_, h₄, hn₂.payload.trans hn₁.payload, hn₂.tail.trans hn₁.tail, mtkKernel, zimageKernel,
    mtkRamdisk, ?_⟩
  rw [hflags₂, hflags₁]

/-- **The flags of the tail exclude each other.** -/
lemma trailer_of_parseBlocks (hf : TailFresh img.flags)
    (h : parseBlocks verify mem img = .ok (.accepted boot))
    (hsigned : boot.flags.avb1Signed = true) :
    boot.flags.seandroid = boot.flags.dhtb ∧ boot.flags.lgBump = false := by
  obtain ⟨img', htail, -, -, mtkKernel, zimageKernel, mtkRamdisk, hflags⟩ := exists_parseTail h
  have hf' : TailFresh img'.flags := by
    rw [hflags]
    exact ⟨hf.seandroid, hf.lgBump, hf.avb1Signed⟩
  by_cases hsize : img'.tail.size = 0
  · rw [parseTail, if_pos hsize] at htail
    cases htail
    exact absurd hsigned (ne_true_of_eq_false hf'.avb1Signed)
  · obtain ⟨avb, hboot⟩ := parseTail_flags htail hsize
    rw [hboot] at hsigned ⊢
    rw [tailFlags] at hsigned ⊢
    split at hsigned
    · exact absurd hsigned (ne_true_of_eq_false hf'.avb1Signed)
    · rw [if_neg ‹_›]
      split at hsigned
      · exact absurd hsigned (ne_true_of_eq_false hf'.avb1Signed)
      · rw [if_neg ‹_›]
        split
        · exact ⟨hf'.seandroid, hf'.lgBump⟩
        · exact ⟨hf'.seandroid, hf'.lgBump⟩

/-- **What is known of an image that was accepted**: its header is marked, if it does not come
after a microloader, and with a signature there is another trailer just if there is a DHTB
header. -/
lemma marked_of_bootImg (h : bootImg verify file = .ok (some boot)) :
    (boot.flags.amonet = false → boot.hdr.cls.Marked boot.hdr.raw 0) ∧
      (boot.flags.avb1Signed = true →
        (vendorTrailer boot).length = if boot.flags.dhtb then 20 else 0) := by
  obtain ⟨s, fmt, hvisited, hfmt, htype, himage⟩ := exists_visited_of_bootImg h
  have hfresh : FreshFlags s.2 :=
    hvisited.invariant (P := fun s => FreshFlags s.2) ⟨rfl, rfl, rfl, rfl, nofun⟩
      fun _ _ hs hst => hs.scanStep hst
  have htail : TailFresh s.2 :=
    hvisited.invariant (P := fun s => TailFresh s.2) ⟨rfl, rfl, rfl⟩ fun _ _ hs hst =>
      hs.scanStep hst
  obtain ⟨addr, hdr, flags, hhdr, -, -, hblocks⟩ := exists_of_parseImage himage
  obtain ⟨huntouched, hfresh'⟩ := untouched_ofHdr (mapped file) addr hdr (hfresh.parseHdr hhdr)
  have htaken := taken_of_parseBlocks huntouched hfresh' hblocks
  have hflags := htail.parseHdr hhdr
  have hofHdr : ∃ sha256, (BootImg.ofHdr (mapped file) addr hdr flags).flags =
      { flags with sha256 } := by
    change ∃ sha256, (if hasSha256 hdr then { flags with sha256 := true } else flags) = _
    split <;> exact ⟨_, rfl⟩
  obtain ⟨sha256, hofHdr⟩ := hofHdr
  refine ⟨fun hamonet => ?_, fun hsigned => ?_⟩
  · have htyped : TypedAt (mapped file) s.1 fmt := by
      rcases htype with rfl | rfl
      · exact .inl ⟨rfl, window_of_checkFmtAt bootMagic (by decide) (by decide) hfmt⟩
      · exact .inr ⟨rfl, window_of_checkFmtAt vendorBootMagic (by decide) (by decide) hfmt⟩
    obtain ⟨hdr', hset, hset'⟩ := sets_of_parseBlocks hblocks
    refine marked_of_setsOnly (.inr rfl) hset' (marked_of_setsOnly (.inl rfl) hset ?_)
    refine marked_of_parseHdr htyped hhdr ?_
    obtain ⟨_, _, _, _, _, _, _, hboot⟩ := htaken.flags
    rw [hboot, hofHdr] at hamonet
    exact hamonet
  · have hfresh₀ : TailFresh (BootImg.ofHdr (mapped file) addr hdr flags).flags := by
      rw [hofHdr]
      exact ⟨hflags.seandroid, hflags.lgBump, hflags.avb1Signed⟩
    obtain ⟨hsea, hlg⟩ := trailer_of_parseBlocks hfresh₀ hblocks hsigned
    rw [vendorTrailer, hsea, hlg]
    cases boot.flags.dhtb <;> rfl

/-! ### Headers that are stored -/

/-- The texts that the header file has a say in come after the marks. -/
def HdrClass.editStart : HdrClass → Nat
  | v0 | v1 | v2 => 44
  | pxa => 48
  | v3 | v4 => 16
  | vndV3 | vndV4 => 28

lemma window_setOsVersion {h : ImgHdr} (v : BitVec 32) (hle : off + n ≤ h.cls.editStart) :
    window (h.setOsVersion v).raw off n = window h.raw off n := by
  rw [ImgHdr.setOsVersion]
  cases ho : h.cls.osVersionOffset with
  | none => rfl
  | some o =>
    refine ImgHdr.window_raw_put (.inl (hle.trans ?_))
    generalize h.cls = c at ho
    cases c <;> cases ho <;> decide

lemma window_loadProp {h : ImgHdr} (prop : HdrProp) (hle : off + n ≤ h.cls.editStart) :
    window (h.loadProp prop).raw off n = window h.raw off n := by
  cases prop with
  | name value =>
    rw [ImgHdr.loadProp]
    cases ho : h.cls.nameOffset with
    | none => rfl
    | some o =>
      refine ImgHdr.window_raw_put (.inl (hle.trans ?_))
      generalize h.cls = c at ho
      cases c <;> cases ho <;> decide
  | cmdline value =>
    rw [ImgHdr.loadProp, ImgHdr.window_raw_put, ImgHdr.window_raw_put]
    · refine .inl (hle.trans ?_)
      generalize h.cls = c
      cases c <;> decide
    · refine .inl (hle.trans ?_)
      generalize h.cls = c
      cases c <;> decide
  | osVersion a b c => exact window_setOsVersion _ hle
  | osPatchLevel y m => exact window_setOsVersion _ hle

variable {files : Files}

/-- The header at the start of packing has the old bytes before the texts. -/
lemma window_startHdr (hfree : boot.hdr.cls.FreeRange off n)
    (hle : off + n ≤ boot.hdr.cls.editStart) :
    window (startHdr boot files).raw off n = window boot.hdr.raw off n := by
  have hfile : ∀ (props : List HdrProp) (h : ImgHdr), h.cls = boot.hdr.cls →
      window (props.foldl ImgHdr.loadProp h).raw off n = window h.raw off n := by
    intro props
    induction props with
    | nil => exact fun _ _ => rfl
    | cons prop props ih =>
      intro h hcls
      rw [List.foldl_cons, ih _ ((ImgHdr.sameNumbers_loadProp prop).cls.trans hcls),
        window_loadProp prop (hcls.symm ▸ hle)]
  have hset : ∀ (h : ImgHdr) (f : ImgField), h.cls = boot.hdr.cls →
      window (h.set f 0).raw off n = window h.raw off n := by
    intro h f hcls
    refine ImgHdr.window_raw_set fun o ho => ?_
    exact (hfree (f, o) (HdrClass.mem_fields (hcls ▸ ho))).symm
  rw [startHdr, Files.loadHdrFile, hfile, hset, hset, hset, hset, hset] <;>
    simp

namespace Finished

variable {len : Block → Nat} (h : Finished (startHdr boot files) len hdr)

include h

lemma cls : hdr.cls = boot.hdr.cls := h.text.cls.trans (get_startHdr boot files).1

lemma headerVersion : hdr.get .headerVersion = boot.hdr.get .headerVersion := by
  have hne : ∀ b : Block, .headerVersion ≠ b.sizeField := by
    intro b
    cases b <;> decide
  exact (h.other _ (by decide) hne).trans ((get_startHdr boot files).2.1 _ hne)

/-- **The header that is stored is marked again**, unless the size of an extra block looks like a
version. -/
lemma marked (hm : boot.hdr.cls.Marked boot.hdr.raw 0)
    (hextra : boot.hdr.cls = .v0 → aospClass (len .extra) = .v0) : hdr.cls.Marked hdr.raw 0 := by
  have hcls : (startHdr boot files).cls = boot.hdr.cls := (get_startHdr boot files).1
  have htext : ∀ off n, boot.hdr.cls.TextRange off n → off + n ≤ boot.hdr.cls.editStart →
      window hdr.raw off n = window boot.hdr.raw off n := fun off n hr hle =>
    (h.text.text off n (hcls.symm ▸ hr)).trans (window_startHdr hr.numbers hle)
  have hversion : ∀ k, boot.hdr.cls.offset .headerVersion = some k →
      u32At hdr.raw k = u32At boot.hdr.raw k := by
    intro k hk
    have hnew : hdr.get .headerVersion = u32At hdr.raw k := ImgHdr.get_of_some (h.cls.symm ▸ hk)
    have hold : boot.hdr.get .headerVersion = u32At boot.hdr.raw k := ImgHdr.get_of_some hk
    rw [← hnew, ← hold, h.headerVersion]
  have hrange : boot.hdr.cls.TextRange 0 8 ∧ 8 ≤ boot.hdr.cls.editStart := by
    generalize boot.hdr.cls = c
    refine ⟨⟨?_, fun o ho => ?_, fun o ho => ?_⟩, ?_⟩
    · cases c <;> decide
    · cases c <;> cases ho <;> decide
    · cases c <;> cases ho <;> decide
    · cases c <;> decide
  have hchosen := hm.chosen
  rw [h.cls]
  refine ⟨(htext 0 8 hrange.1 hrange.2).trans hm.magic, ?_⟩
  cases hc : boot.hdr.cls with
  | pxa =>
    have hpxa : window hdr.raw 36 4 = window boot.hdr.raw 36 4 := by
      refine htext 36 4 ⟨?_, ?_, ?_⟩ ?_
      · rw [hc]
        decide
      · rw [hc]
        nofun
      · rw [hc]
        decide
      · rw [hc]
        decide
    rw [hc] at hchosen
    rw [HdrClass.choiceOffset, u32At, hpxa]
    exact hchosen
  | v0 =>
    have hsize : hdr.get .extraSize = u32At hdr.raw 40 :=
      ImgHdr.get_of_some (by rw [h.cls, hc]; rfl)
    change aospClass (u32At hdr.raw 40) = .v0
    rw [← hsize]
    exact (congrArg aospClass (h.size .extra)).trans (hextra hc)
  | v1 | v2 | v3 | v4 | vndV3 | vndV4 =>
    rw [hc] at hchosen hversion
    exact Eq.mpr (congrArg (HdrClass.Chosen _) (hversion _ rfl)) hchosen

/-- It has no mark of a loader if there is none before the sizes are filled in. -/
lemma noLoader (hc : boot.hdr.cls.isAosp = true) (hn : NoLoader (startHdr boot files).raw 0) :
    NoLoader hdr.raw 0 := by
  have hcls : (startHdr boot files).cls = boot.hdr.cls := (get_startHdr boot files).1
  have hrange : ∀ off n, (off = 48 ∧ n = 46) ∨ (off = 1024 ∧ n = 8) →
      boot.hdr.cls.TextRange off n := by
    generalize boot.hdr.cls = c at hc
    rintro off n (⟨rfl, rfl⟩ | ⟨rfl, rfl⟩) <;> cases c <;> first
      | exact absurd hc (by decide)
      | refine ⟨by decide, fun o ho => ?_, fun o ho => ?_⟩ <;> cases ho <;> decide
  have htext : ∀ off n, boot.hdr.cls.TextRange off n →
      window hdr.raw (0 + off) n = window (startHdr boot files).raw (0 + off) n := by
    intro off n hr
    rw [Nat.zero_add]
    exact h.text.text off n (hcls.symm ▸ hr)
  have hpage : u32At hdr.raw (0 + 36) = u32At (startHdr boot files).raw (0 + 36) := by
    cases hpage : boot.hdr.cls.offset .pageSize with
    | some o =>
      obtain rfl : o = 36 := by
        generalize boot.hdr.cls = c at hc hpage
        cases c <;> first | exact absurd hc (by decide) | cases hpage <;> rfl
      have hget := h.other .pageSize (by decide) fun b => (sizeField_ne_pageSize b).symm
      rwa [ImgHdr.get_of_some (h.cls.symm ▸ hpage), ImgHdr.get_of_some (hcls.symm ▸ hpage)]
        at hget
    | none =>
      refine congrArg leNat (htext 36 4 ?_)
      generalize boot.hdr.cls = c at hc hpage
      cases c <;> first
        | exact absurd hc (by decide)
        | exact absurd hpage (by decide)
        | refine ⟨by decide, fun o ho => ?_, fun o ho => ?_⟩ <;> cases ho
  exact hn.congr hpage (htext 48 46 (hrange _ _ (.inl ⟨rfl, rfl⟩)))
    (htext 1024 8 (hrange _ _ (.inr ⟨rfl, rfl⟩)))

end Finished

end Magisk.Boot
