import Magisk.Base.Str
import Magisk.Lib.Window
import Magisk.Lib.Wire

/-!
# File formats

How the boot tools tell what a buffer holds, by the bytes at its start.

* `FileFormat`: the formats that are told apart;
* `fmtChecks`, `checkFmt`: the checks, in their order;
* `isCompressed`: the formats that can be decompressed.
-/

namespace Magisk.Boot

open Magisk.Base Magisk.Lib List

/-- `FileFormat`. -/
inductive FileFormat where
  | unknown
  -- boot formats
  | chromeos
  | aosp
  | aospVendor
  | dhtb
  | blob
  -- compression formats
  | gzip
  | zopfli
  | xz
  | lzma
  | bzip2
  | lz4
  | lz4Legacy
  | lz4Lg
  -- unsupported compression
  | lzop
  -- misc
  | mtk
  | dtb
  | zimage
  deriving DecidableEq, Repr

/-! ### Magic numbers -/

/-- `BOOT_MAGIC`. -/
def bootMagic : Str := str "ANDROID!"

/-- `VENDOR_BOOT_MAGIC`. -/
def vendorBootMagic : Str := str "VNDRBOOT"

/-- `CHROMEOS_MAGIC`. -/
def chromeosMagic : Str := str "CHROMEOS"

/-- `GZIP1_MAGIC`. -/
def gzip1Magic : Str := [0x1f, 0x8b]

/-- `GZIP2_MAGIC`. -/
def gzip2Magic : Str := [0x1f, 0x9e]

/-- `LZOP_MAGIC`. -/
def lzopMagic : Str := 0x89 :: str "LZO"

/-- `XZ_MAGIC`. -/
def xzMagic : Str := 0xfd :: str "7zXZ"

/-- `BZIP_MAGIC`. -/
def bzipMagic : Str := str "BZh"

/-- `LZ4_LEG_MAGIC`. -/
def lz4LegMagic : Str := [0x02, 0x21, 0x4c, 0x18]

/-- `LZ41_MAGIC`. -/
def lz41Magic : Str := [0x03, 0x21, 0x4c, 0x18]

/-- `LZ42_MAGIC`. -/
def lz42Magic : Str := [0x04, 0x22, 0x4d, 0x18]

/-- `MTK_MAGIC`. -/
def mtkMagic : Str := [0x88, 0x16, 0x88, 0x58]

/-- `DTB_MAGIC`. -/
def dtbMagic : Str := [0xd0, 0x0d, 0xfe, 0xed]

/-- `DHTB_MAGIC`. -/
def dhtbMagic : Str := [0x44, 0x48, 0x54, 0x42, 0x01, 0x00, 0x00, 0x00]

/-- `TEGRABLOB_MAGIC`. -/
def tegrablobMagic : Str := str "-SIGNED-BY-SIGNBLOB-"

/-- `ZIMAGE_MAGIC`. -/
def zimageMagic : Str := [0x18, 0x28, 0x6f, 0x01]

/-! ### The checks -/

/-- A check of a buffer: it has these bytes at an offset (`CHECKED_MATCH` and the one for a
zImage), or `guess_lzma`. -/
inductive FmtCheck where
  | magic (off : Nat) (bytes : Str)
  | lzma
  deriving DecidableEq

/-- The checks of `check_fmt`, in their order. -/
def fmtChecks : List (FmtCheck × FileFormat) :=
  [(.magic 0 chromeosMagic, .chromeos), (.magic 0 bootMagic, .aosp),
    (.magic 0 vendorBootMagic, .aospVendor), (.magic 0 gzip1Magic, .gzip),
    (.magic 0 gzip2Magic, .gzip), (.magic 0 lzopMagic, .lzop), (.magic 0 xzMagic, .xz),
    (.lzma, .lzma), (.magic 0 bzipMagic, .bzip2), (.magic 0 lz41Magic, .lz4),
    (.magic 0 lz42Magic, .lz4), (.magic 0 lz4LegMagic, .lz4Legacy), (.magic 0 mtkMagic, .mtk),
    (.magic 0 dtbMagic, .dtb), (.magic 0 dhtbMagic, .dhtb), (.magic 0 tegrablobMagic, .blob),
    (.magic 0x24 zimageMagic, .zimage)]

/-- `dict_sz` is not a power of two. -/
def badDict (dictSz : UInt32) : Bool := dictSz == 0 || dictSz &&& (dictSz - 1) != 0

/-- `guess_lzma`: the properties byte, a dictionary size that is a power of two, and no
uncompressed size. -/
def guessLzma (buf : Str) : Bool :=
  13 < buf.length && window buf 0 1 == [0x5d] && !badDict (.ofNat (leNat (window buf 1 4))) &&
    window buf 5 8 == List.replicate 8 0xff

/-- The check holds of the buffer. -/
def FmtCheck.holds (buf : Str) : FmtCheck → Bool
  | .magic off bytes => off + bytes.length ≤ buf.length && window buf off bytes.length == bytes
  | .lzma => guessLzma buf

/-- `check_fmt`: the format of the first check that holds. -/
def checkFmt (buf : Str) : FileFormat :=
  ((fmtChecks.find? fun c => c.1.holds buf).map Prod.snd).getD .unknown

/-- `is_compressed`. -/
def FileFormat.isCompressed : FileFormat → Bool
  | .gzip | .zopfli | .xz | .lzma | .bzip2 | .lz4 | .lz4Legacy | .lz4Lg => true
  | _ => false

/-- The check asks for another first byte. -/
def FmtCheck.rulesOut (b : UInt8) : FmtCheck → Bool
  | .magic off bytes => off == 0 && bytes != [] && bytes.head? != some b
  | .lzma => b != 0x5d

/-- Such a check does not hold. -/
lemma FmtCheck.holds_eq_false {buf : Str} {c : FmtCheck} (h : c.rulesOut b = true) :
    c.holds (b :: buf) = false := by
  cases c with
  | magic off bytes =>
    simp only [rulesOut, Bool.and_eq_true, beq_iff_eq, bne_iff_ne] at h
    obtain ⟨⟨rfl, hne⟩, hhead⟩ := h
    obtain ⟨c, cs, rfl⟩ := exists_cons_of_ne_nil hne
    have hfirst : (window (b :: buf) 0 (c :: cs).length == c :: cs) = false := by
      rw [beq_eq_false_iff_ne]
      exact fun heq => hhead (congrArg some (cons.inj heq).1.symm)
    simp only [holds, hfirst, Bool.and_false]
  | lzma =>
    simp only [rulesOut, bne_iff_ne] at h
    have hfirst : (window (b :: buf) 0 1 == [0x5d]) = false := by
      rw [beq_eq_false_iff_ne]
      exact fun heq => h (cons.inj heq).1
    simp [holds, guessLzma, hfirst]

/-- A buffer is told by the magic number at its start, if the checks before ask for another first
byte. -/
lemma checkFmt_append {bytes : Str} (l m : List (FmtCheck × FileFormat))
    (h : fmtChecks = l ++ (.magic 0 (b :: bytes), fmt) :: m)
    (hl : l.all (fun c => c.1.rulesOut b) = true) (rest : Str) :
    checkFmt (b :: bytes ++ rest) = fmt := by
  have hholds : (FmtCheck.magic 0 (b :: bytes)).holds (b :: bytes ++ rest) = true := by
    have hslice : window (b :: bytes ++ rest) 0 (b :: bytes).length = b :: bytes := by
      rw [window_append_left (by omega), window_length]
    simp only [FmtCheck.holds, hslice, beq_self_eq_true, Bool.and_true, decide_eq_true_eq,
      length_append]
    omega
  have hnone : l.find? (fun c => c.1.holds (b :: bytes ++ rest)) = none := by
    rw [find?_eq_none]
    intro c hc
    have hfalse : c.1.holds (b :: (bytes ++ rest)) = false :=
      FmtCheck.holds_eq_false (all_eq_true.mp hl c hc)
    exact ne_true_of_eq_false hfalse
  rw [checkFmt, h, find?_append, hnone, find?_cons]
  simp only [hholds]
  rfl

lemma checkFmt_bzipMagic {buf : Str} (h : bzipMagic <+: buf) : checkFmt buf = .bzip2 := by
  obtain ⟨rest, rfl⟩ := h
  exact checkFmt_append (fmtChecks.take 8) (fmtChecks.drop 9) rfl (by decide) rest

lemma checkFmt_xzMagic {buf : Str} (h : xzMagic <+: buf) : checkFmt buf = .xz := by
  obtain ⟨rest, rfl⟩ := h
  exact checkFmt_append (fmtChecks.take 6) (fmtChecks.drop 7) rfl (by decide) rest

end Magisk.Boot
