import Magisk.Boot.BootImg

/-!
# What reading a boot image asks for

The parser of boot images takes what it reads for granted.  The conditions under which it stays in
the mapping and its arithmetic does not wrap around, for what it reads before it knows where the
blocks are.

* `succeeds_load_bind`, `succeeds_sub_bind`: one access or difference and what comes after it;
* `FmtSafe`, `FmtLgSafe`: finding the format of a buffer;
* `HdrSafe`: reading the header;
* `PageSafe`, `getBlocks_eq`: where the blocks are.
-/

namespace Magisk.Boot

open Magisk.Base Magisk.Lib List

variable {mem : Str} {addr len : Nat}

/-! ### Accesses -/

lemma length_mapped (file : Str) : (mapped file).length = alignTo file.length getpagesize := by
  have hle := le_alignTo (a := getpagesize) (by decide) file.length
  rw [mapped, length_append, length_replicate]
  omega

lemma le_length_mapped (file : Str) : file.length ≤ (mapped file).length := by
  rw [length_mapped]
  exact le_alignTo (by decide) _

variable {off n v a b sz : Nat} {α : Type} {f : Nat → Except Fault α}

lemma window_mapped (h : off + n ≤ file.length) :
    window (mapped file) off n = window file off n := window_append_left h

lemma window_mapped_zeros (h : file.length ≤ off) (h' : off + n ≤ (mapped file).length) :
    window (mapped file) off n = List.replicate n 0 := by
  rw [length_mapped] at h'
  rw [mapped, window_append_right h, window, drop_replicate, take_replicate]
  congr 1
  omega

lemma load_eq_ok (h : load mem addr n = .ok l) : addr + n ≤ mem.length ∧ l = window mem addr n := by
  rw [load] at h
  split at h
  · exact ⟨‹_›, (Except.ok.inj h).symm⟩
  · cases h

lemma load_of_le (h : addr + n ≤ mem.length) :
    load mem addr n = .ok (window mem addr n) := if_pos h

lemma succeeds_load_iff : Succeeds (load mem addr n) ↔ addr + n ≤ mem.length :=
  succeeds_guard

/-- The little-endian number at a position. -/
def u32At (mem : Str) (addr : Nat) : Nat := leNat (window mem addr 4)

/-- The big-endian number at a position. -/
def beAt (mem : Str) (addr n : Nat) : Nat := beNat (window mem addr n)

lemma loadU32_eq_ok (h : loadU32 mem addr = .ok v) : v = u32At mem addr := by
  obtain ⟨l, hl⟩ := succeeds_map.mp ⟨v, h⟩
  rw [loadU32, hl] at h
  obtain ⟨-, rfl⟩ := load_eq_ok hl
  exact (Except.ok.inj h).symm

lemma loadBE_of_le (h : addr + n ≤ mem.length) : loadBE mem addr n = .ok (beAt mem addr n) := by
  rw [loadBE, load_of_le h]
  rfl

lemma loadBE_eq_ok (h : loadBE mem addr n = .ok v) : v = beAt mem addr n := by
  obtain ⟨l, hl⟩ := succeeds_map.mp ⟨v, h⟩
  rw [loadBE, hl] at h
  obtain ⟨-, rfl⟩ := load_eq_ok hl
  exact (Except.ok.inj h).symm

lemma sub_eq_ok : sub a b = .ok c ↔ b ≤ a ∧ c = a - b := by
  rw [sub]
  split
  · simp [*, eq_comm]
  · simp [*]

lemma succeeds_sub_iff : Succeeds (sub a b) ↔ b ≤ a := succeeds_guard

lemma succeeds_alignUp_iff : Succeeds (alignUp v a) ↔ 0 < a ∧ a < 2 ^ 31 := by
  rw [alignUp, succeeds_ite, succeeds_ite]
  simp
  omega

lemma succeeds_load_bind {f : Str → Except Fault α} :
    Succeeds (load mem addr n >>= f) ↔
      addr + n ≤ mem.length ∧ Succeeds (f (window mem addr n)) := by
  by_cases h : addr + n ≤ mem.length
  · rw [succeeds_bind_ok (load_of_le h)]
    exact (and_iff_right h).symm
  · rw [succeeds_bind_iff, succeeds_load_iff]
    exact ⟨fun hs => absurd hs.1 h, fun hs => absurd hs.1 h⟩

lemma succeeds_loadU32_bind :
    Succeeds (loadU32 mem addr >>= f) ↔
      addr + 4 ≤ mem.length ∧ Succeeds (f (u32At mem addr)) := by
  by_cases h : addr + 4 ≤ mem.length
  · have hload : loadU32 mem addr = .ok (u32At mem addr) := by
      rw [loadU32, load_of_le h]
      rfl
    rw [succeeds_bind_ok hload]
    exact (and_iff_right h).symm
  · rw [succeeds_bind_iff, loadU32, succeeds_map, succeeds_load_iff]
    exact ⟨fun hs => absurd hs.1 h, fun hs => absurd hs.1 h⟩

lemma succeeds_loadBE_bind :
    Succeeds (loadBE mem addr n >>= f) ↔
      addr + n ≤ mem.length ∧ Succeeds (f (beAt mem addr n)) := by
  by_cases h : addr + n ≤ mem.length
  · have hload : loadBE mem addr n = .ok (beAt mem addr n) := by
      rw [loadBE, load_of_le h]
      rfl
    rw [succeeds_bind_ok hload]
    exact (and_iff_right h).symm
  · rw [succeeds_bind_iff, loadBE, succeeds_map, succeeds_load_iff]
    exact ⟨fun hs => absurd hs.1 h, fun hs => absurd hs.1 h⟩

lemma succeeds_sub_bind : Succeeds (sub a b >>= f) ↔ b ≤ a ∧ Succeeds (f (a - b)) := by
  by_cases h : b ≤ a
  · rw [succeeds_bind_ok (x := sub a b) (if_pos h)]
    exact (and_iff_right h).symm
  · rw [succeeds_bind_iff, succeeds_sub_iff]
    exact ⟨fun hs => absurd hs.1 h, fun hs => absurd hs.1 h⟩

/-! ### Formats -/

/-- What one check asks for: the bytes that it compares lie in the mapping. -/
def FmtCheck.Readable (mem : Str) (addr len : Nat) : FmtCheck → Prop
  | .magic off bytes => off + bytes.length ≤ len → addr + off + bytes.length ≤ mem.length
  | .lzma => 13 < len → addr + 1 ≤ mem.length ∧ (window mem addr 1 = [0x5d] →
      addr + 5 ≤ mem.length ∧ (badDict (.ofNat (u32At mem (addr + 1))) = false →
        addr + 13 ≤ mem.length))

lemma FmtCheck.succeeds_run_iff (c : FmtCheck) :
    Succeeds (c.run mem addr len) ↔ c.Readable mem addr len := by
  cases c with
  | magic off bytes =>
    simp [run, Readable, succeeds_ite, succeeds_map, succeeds_load_iff]
  | lzma =>
    simp only [run, Readable, guessLzmaAt, succeeds_ite, succeeds_load_bind,
      succeeds_loadU32_bind, succeeds_map, succeeds_load_iff, succeeds_ok, implies_true, true_and,
      not_le, ne_eq, not_not, Bool.not_eq_true, Nat.add_assoc, Nat.reduceAdd]

/-- What the checks ask for, one after the other until one of them holds. -/
def ChecksReadable (mem : Str) (addr len : Nat) : List (FmtCheck × FileFormat) → Prop
  | [] => True
  | (c, _) :: cs =>
    c.Readable mem addr len ∧ (c.run mem addr len = .ok false → ChecksReadable mem addr len cs)

lemma succeeds_firstFmt_iff (cs : List (FmtCheck × FileFormat)) :
    Succeeds (firstFmt mem addr len cs) ↔ ChecksReadable mem addr len cs := by
  induction cs with
  | nil => simp [firstFmt, ChecksReadable]
  | cons x cs ih =>
    obtain ⟨c, fmt⟩ := x
    rw [firstFmt, succeeds_bind_iff, c.succeeds_run_iff]
    refine and_congr_right fun _ => ?_
    constructor
    · intro h hrun
      exact ih.mp (by simpa using h false hrun)
    · intro h holds hrun
      cases holds with
      | true => exact succeeds_ok fmt
      | false => simpa using ih.mpr (h hrun)

/-- The comparisons that `check_fmt` makes lie in the mapping. -/
def FmtSafe (mem : Str) (addr len : Nat) : Prop := ChecksReadable mem addr len fmtChecks

lemma succeeds_checkFmtAt_iff :
    Succeeds (checkFmtAt mem addr len) ↔ FmtSafe mem addr len := succeeds_firstFmt_iff fmtChecks

/-- A check of a buffer in the mapping. -/
lemma FmtCheck.run_eq (h : addr + len ≤ mem.length) (c : FmtCheck) :
    c.run mem addr len = .ok (c.holds (window mem addr len)) := by
  have hlen : (window mem addr len).length = len := length_window h
  cases c with
  | magic off bytes =>
    rw [run, holds, hlen]
    split
    · rename_i hle
      rw [load_of_le (by omega), window_window hle, decide_eq_true hle]
      rfl
    · rename_i hgt
      rw [decide_eq_false hgt, Bool.false_and]
  | lzma =>
    rw [run, holds, guessLzma, hlen, guessLzmaAt]
    split
    · rename_i hle
      rw [decide_eq_false (not_lt.mpr hle)]
      rfl
    · rename_i hgt
      rw [window_window (by omega), window_window (by omega), window_window (by omega),
        decide_eq_true (not_le.mp hgt), loadU32, load_of_le (by omega), load_of_le (by omega),
        load_of_le (by omega)]
      by_cases hprops : window mem addr 1 = [0x5d]
      · by_cases hdict : badDict (.ofNat (leNat (window mem (addr + 1) 4))) = true
        · simp [hdict, bind, Except.bind]
        · simp [hprops, hdict, bind, Except.bind]
      · simp [hprops, bind, Except.bind]

section Magic

variable (hlen : 8 ≤ len) (hle : addr + 8 ≤ mem.length)

include hlen hle

lemma FmtCheck.run_magic (hbytes : bytes.length = 8) :
    (FmtCheck.magic 0 bytes).run mem addr len = .ok (window mem addr 8 == bytes) := by
  rw [run, hbytes, if_pos (by omega), Nat.add_zero, load_of_le hle]
  rfl

lemma checkFmtAt_bootMagic (h : window mem addr 8 = bootMagic) :
    checkFmtAt mem addr len = .ok .aosp := by
  refine bind_eq_ok.mpr ⟨_, FmtCheck.run_magic hlen hle rfl, ?_⟩
  rw [h]
  refine bind_eq_ok.mpr ⟨_, FmtCheck.run_magic hlen hle rfl, ?_⟩
  rw [h]
  rfl

lemma checkFmtAt_vendorBootMagic (h : window mem addr 8 = vendorBootMagic) :
    checkFmtAt mem addr len = .ok .aospVendor := by
  refine bind_eq_ok.mpr ⟨_, FmtCheck.run_magic hlen hle rfl, ?_⟩
  rw [h]
  refine bind_eq_ok.mpr ⟨_, FmtCheck.run_magic hlen hle rfl, ?_⟩
  rw [h]
  refine bind_eq_ok.mpr ⟨_, FmtCheck.run_magic hlen hle rfl, ?_⟩
  rw [h]
  rfl

end Magic

lemma checkFmtAt_eq (h : addr + len ≤ mem.length) :
    checkFmtAt mem addr len = .ok (checkFmt (window mem addr len)) := by
  rw [checkFmtAt, checkFmt]
  generalize fmtChecks = cs
  induction cs with
  | nil => rfl
  | cons x cs ih =>
    obtain ⟨c, fmt⟩ := x
    rw [firstFmt, FmtCheck.run_eq h, find?_cons]
    cases hc : c.holds (window mem addr len) with
    | true => rfl
    | false => exact ih

/-- `check_fmt_lg` is safe: so are the sizes of LZ4 blocks that it goes through, which lie in the
mapping and lead to offsets of 32 bits. -/
structure FmtLgSafe (mem : Str) (buf sz : Nat) : Prop where
  fmt : FmtSafe mem buf sz
  blocks : checkFmtAt mem buf sz = .ok .lz4Legacy → ∀ off, Visited (lgStep mem buf sz) 4 off →
    off + 4 ≤ sz → buf + off + 4 ≤ mem.length ∧ off + 4 + u32At mem (buf + off) < 2 ^ 32

lemma succeeds_lgStep_iff : Succeeds (lgStep mem buf sz off) ↔
      (off + 4 ≤ sz → buf + off + 4 ≤ mem.length ∧ off + 4 + u32At mem (buf + off) < 2 ^ 32) := by
  simp [lgStep, succeeds_ite, succeeds_loadU32_bind]

lemma succeeds_checkFmtLg_iff : Succeeds (checkFmtLg mem buf sz) ↔ FmtLgSafe mem buf sz := by
  rw [checkFmtLg, succeeds_bind_iff, succeeds_checkFmtAt_iff]
  constructor
  · rintro ⟨hfmt, hrest⟩
    refine ⟨hfmt, fun hlz4 => ?_⟩
    have hloop := hrest .lz4Legacy hlz4
    rw [if_pos rfl, loop_succeeds_iff] at hloop
    exact fun off hoff => succeeds_lgStep_iff.mp (hloop off hoff)
  · rintro ⟨hfmt, hblocks⟩
    refine ⟨hfmt, fun fmt hfmt => ?_⟩
    split
    · rw [loop_succeeds_iff]
      exact fun off hoff => succeeds_lgStep_iff.mpr (hblocks (‹fmt = _› ▸ hfmt) off hoff)
    · exact succeeds_ok fmt

/-! ### The header -/

lemma succeeds_loadHdr_iff :
    Succeeds (loadHdr mem cls addr sz) ↔ sz ≤ cls.hdrSize ∧ addr + sz ≤ mem.length := by
  rw [loadHdr]
  split
  · exact iff_of_true (succeeds_ok _) ‹_›
  · exact iff_of_false (not_succeeds_error _) ‹_›

lemma get_loadHdr (h : loadHdr mem cls addr sz = .ok hdr) : hdr.cls = cls ∧
      ∀ f o, cls.offset f = some o → o + 4 ≤ sz → hdr.get f = u32At mem (addr + o) := by
  rw [loadHdr] at h
  split at h
  · rename_i hle
    cases h
    refine ⟨rfl, fun f o ho hsz => ?_⟩
    rw [ImgHdr.get_of_some ho, window_append_left (by rw [length_window hle.2]; exact hsz),
      window_window hsz, u32At]
  · cases h

/-- A header at an address lies in the mapping, and so many bytes fit its class. -/
def AospHdrSafe (mem : Str) (addr : Nat) (size : Option Nat) : Prop :=
  let cls := aospClass (u32At mem (addr + 40))
  addr + 8 ≤ mem.length ∧ (window mem addr 8 = bootMagic →
    addr + 44 ≤ mem.length ∧ size.getD cls.hdrSize ≤ cls.hdrSize ∧
      addr + size.getD cls.hdrSize ≤ mem.length)

lemma succeeds_makeAospHdr_iff :
    Succeeds (makeAospHdr mem addr size) ↔ AospHdrSafe mem addr size := by
  simp only [makeAospHdr, AospHdrSafe, succeeds_load_bind, succeeds_ite, succeeds_ok, implies_true,
    true_and, ne_eq, not_not, succeeds_loadU32_bind, succeeds_map, succeeds_loadHdr_iff,
    Nat.add_assoc, Nat.reduceAdd]

/-- There is a microloader with a header after it. -/
def HasAmonet (mem : Str) (addr : Nat) : Prop :=
  bufferContain (window mem addr amonetMicroloaderSz) (str "microloader") = true ∧
    window mem (addr + amonetMicroloaderSz) 8 = bootMagic

/-- The command line is that of a Nook HD loader. -/
def HasNookhd (mem : Str) (addr : Nat) : Prop :=
  ∃ text ∈ nookhdMagics, window mem (addr + 64) text.length = text

/-- `parse_hdr` is safe: all that it compares and copies lies in the mapping, and the header that
comes after a microloader fits its class. -/
def HdrSafe (mem : Str) (addr : Nat) (type : FileFormat) : Prop :=
  if type = .aospVendor then
    addr + 12 ≤ mem.length ∧
      addr + (if u32At mem (addr + 8) = 4 then HdrClass.vndV4 else .vndV3).hdrSize ≤ mem.length
  else addr + 40 ≤ mem.length ∧
    (0x02000000 ≤ u32At mem (addr + 36) → addr + HdrClass.pxa.hdrSize ≤ mem.length) ∧
    (u32At mem (addr + 36) < 0x02000000 →
      addr + amonetMicroloaderSz ≤ mem.length ∧
      (bufferContain (window mem addr amonetMicroloaderSz) (str "microloader") = true →
        addr + amonetMicroloaderSz + 8 ≤ mem.length) ∧
      (HasAmonet mem addr →
        addr + amonetMicroloaderSz + 40 ≤ mem.length ∧
        amonetMicroloaderSz ≤ u32At mem (addr + amonetMicroloaderSz + 36) ∧
        AospHdrSafe mem (addr + amonetMicroloaderSz)
          (some (u32At mem (addr + amonetMicroloaderSz + 36) - amonetMicroloaderSz))) ∧
      (¬HasAmonet mem addr →
        (HasNookhd mem addr → AospHdrSafe mem (addr + nookhdPreHeaderSz) none) ∧
        (¬HasNookhd mem addr →
          (window mem (addr + 48) 10 = str "BauwksBoot" →
            AospHdrSafe mem (addr + acclaimPreHeaderSz) none) ∧
          (window mem (addr + 48) 10 ≠ str "BauwksBoot" → AospHdrSafe mem addr none))))

instance (mem : Str) (addr : Nat) : Decidable (HasAmonet mem addr) :=
  inferInstanceAs (Decidable (_ ∧ _))

instance (mem : Str) (addr : Nat) : Decidable (HasNookhd mem addr) :=
  inferInstanceAs (Decidable (∃ text ∈ nookhdMagics, window mem (addr + 64) text.length = text))

/-- The check for a microloader and what comes after it. -/
lemma succeeds_isAmonet_bind {f : Bool → Except Fault α} :
    Succeeds (isAmonet mem addr >>= f) ↔
      addr + amonetMicroloaderSz ≤ mem.length ∧
      (bufferContain (window mem addr amonetMicroloaderSz) (str "microloader") = true →
        addr + amonetMicroloaderSz + 8 ≤ mem.length) ∧
      Succeeds (f (decide (HasAmonet mem addr))) := by
  rw [isAmonet, bind_assoc, succeeds_load_bind]
  refine and_congr_right fun _ => ?_
  by_cases hmicro : bufferContain (window mem addr amonetMicroloaderSz) (str "microloader") = true
  · have hiff : decide (HasAmonet mem addr) =
        (window mem (addr + amonetMicroloaderSz) 8 == bootMagic) := by
      rw [Bool.eq_iff_iff, decide_eq_true_eq, beq_iff_eq, HasAmonet, and_iff_right hmicro]
    rw [if_pos hmicro, map_eq_pure_bind, bind_assoc, succeeds_load_bind, hiff]
    simp [hmicro]
  · have hfalse : decide (HasAmonet mem addr) = false := decide_eq_false fun h => hmicro h.1
    rw [if_neg hmicro, hfalse]
    exact ⟨fun h => ⟨fun h' => absurd h' hmicro, h⟩, fun h => h.2⟩

/-- The command line of the header is in the mapping, as is all of its first kilobyte. -/
lemma cmdMatch_eq (h : ∀ text ∈ texts, addr + 64 + text.length ≤ mem.length) :
    cmdMatch mem addr texts =
      .ok (decide (∃ text ∈ texts, window mem (addr + 64) text.length = text)) := by
  induction texts with
  | nil => rfl
  | cons text texts ih =>
    obtain ⟨htext, htexts⟩ := forall_mem_cons.mp h
    rw [cmdMatch, load_of_le htext]
    by_cases heq : window mem (addr + 64) text.length = text
    · have htrue : ∃ t ∈ text :: texts, window mem (addr + 64) t.length = t :=
        ⟨text, .head _, heq⟩
      rw [decide_eq_true htrue]
      exact if_pos heq
    · have hiff : (∃ t ∈ text :: texts, window mem (addr + 64) t.length = t) ↔
          ∃ t ∈ texts, window mem (addr + 64) t.length = t := by
        simp only [exists_mem_cons_iff, heq, false_or]
      refine (if_neg heq).trans ((ih htexts).trans ?_)
      simp only [hiff]

lemma succeeds_parseHdr_iff : Succeeds (parseHdr mem addr type flags) ↔ HdrSafe mem addr type := by
  by_cases htype : type = .aospVendor
  · rw [parseHdr, HdrSafe, if_pos htype, if_pos htype, succeeds_loadU32_bind]
    rw [succeeds_bind_ok_iff, succeeds_loadHdr_iff, and_iff_right le_rfl]
  · rw [parseHdr, HdrSafe, if_neg htype, if_neg htype, succeeds_loadU32_bind]
    refine and_congr (by rw [Nat.add_assoc]) ?_
    rw [succeeds_ite, not_le]
    refine and_congr (forall_congr' fun _ => ?_) (forall_congr' fun _ => ?_)
    · rw [succeeds_bind_ok_iff, succeeds_loadHdr_iff, and_iff_right le_rfl]
    · rw [succeeds_isAmonet_bind]
      refine and_congr_right fun hpage => and_congr_right fun _ => ?_
      have hcmd : cmdMatch mem addr nookhdMagics = .ok (decide (HasNookhd mem addr)) := by
        refine cmdMatch_eq fun text htext => ?_
        have hlen : text.length ≤ 30 := by revert text; decide
        rw [amonetMicroloaderSz] at hpage
        omega
      have hname : addr + 48 + 10 ≤ mem.length := by
        rw [amonetMicroloaderSz] at hpage
        omega
      simp only [succeeds_ite, decide_eq_true_eq, succeeds_loadU32_bind, succeeds_sub_bind,
        succeeds_bind_ok hcmd, succeeds_load_bind, hname, true_and, succeeds_bind_ok_iff,
        succeeds_makeAospHdr_iff,
        Nat.add_assoc, Nat.reduceAdd, ne_eq]

/-! ### Blocks -/

/-- The page size is a positive `int`. -/
def PageSafe (page : Nat) : Prop := 0 < page ∧ page < 2 ^ 31

lemma alignUp_of (h : PageSafe a) : alignUp v a = .ok (alignTo v a) := by
  rw [alignUp, if_neg h.1.ne', if_neg (not_le.mpr h.2)]

/-- With such a page size the blocks are where the sizes say, or do not fit the mapping. -/
lemma getBlocks_eq (hpage : PageSafe page) (off : Nat) (sizes : List Nat) :
    getBlocks mapEnd addr page off sizes =
      .ok (if sizes = [] ∨ addr + endOffset page off sizes ≤ mapEnd then
        some (offsets page off sizes, endOffset page off sizes) else none) := by
  induction sizes generalizing off with
  | nil =>
    rfl
  | cons size sizes ih =>
    have hend := le_endOffset hpage.1 (alignTo (off + size) page) sizes
    rw [getBlocks, alignUp_of hpage]
    by_cases hfit : mapEnd < addr + alignTo (off + size) page
    · refine (if_pos hfit).trans ?_
      rw [if_neg]
      rintro (hnil | hle)
      · cases hnil
      · rw [endOffset] at hle
        omega
    · refine (if_neg hfit).trans ?_
      have hiff :
          (sizes = [] ∨ addr + endOffset page (alignTo (off + size) page) sizes ≤ mapEnd) ↔
            (size :: sizes = [] ∨ addr + endOffset page off (size :: sizes) ≤ mapEnd) := by
        constructor
        · rintro (rfl | hle)
          · exact .inr (not_lt.mp hfit)
          · exact .inr hle
        · rintro (hnil | hle)
          · cases hnil
          · exact .inr hle
      rw [ih]
      simp only [hiff]
      split <;> rfl

lemma succeeds_getBlocks_iff :
    Succeeds (getBlocks mapEnd addr page off (size :: sizes)) ↔ PageSafe page := by
  constructor
  · intro h
    rw [getBlocks, succeeds_bind_iff, succeeds_alignUp_iff] at h
    exact h.1
  · intro hpage
    rw [getBlocks_eq hpage]
    exact succeeds_ok _

end Magisk.Boot
