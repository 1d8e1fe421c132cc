import Mathlib
import Magisk.Base.Text
import Magisk.Lib.Result

/-!
# CPIO archives

The archives `magiskboot cpio` works on: reading them, writing them, and the
backup of an original ramdisk inside a patched one.  A `BTreeMap` is the ordered
map of the standard library, and so is a `HashMap` of which only the entries
matter.  Positions do not overflow, since they lie in a slice or in a file.

* `Cpio`, `CpioEntry`: an archive and its entries;
* `loadFromData`: the reader, with its error paths;
* `dump`: the writer;
* `rm`, `backup`, `restore`: the commands that make and undo a backup.
-/

namespace Magisk.Boot

open Magisk.Base Magisk.Lib

variable {e : Option (Str × CpioEntry)}

/-! ### Archives -/

/-- `CpioEntry`. -/
structure CpioEntry where
  mode : UInt32
  uid : UInt32
  gid : UInt32
  rdevmajor : UInt64
  rdevminor : UInt64
  data : Str
  deriving DecidableEq

/-- The entries of an archive by their names. -/
abbrev Entries := Std.ExtTreeMap Str CpioEntry

/-- `Cpio`. -/
structure Cpio where
  entries : Entries

/-- Why an archive is not read.  `panic` stands for an index out of range. -/
inductive CpioError where
  | invalidMagic
  | badHeader
  | badName
  | panic
  deriving DecidableEq, Repr

/-! ### Reading -/

/-- `size_of::<CpioHeader>()`. -/
def hdrSz : Nat := 110

/-- `"070701"`. -/
def magic : Str := str "070701"

/-- The name of the entry that ends an archive. -/
def trailer : Str := str "TRAILER!!!"

/-- `align_4`: the two low bits are cleared. -/
def align4 (x : Nat) : Nat := (x + 3) / 4 * 4

/-- `char::to_digit(16)` of a byte. -/
def toDigit (c : UInt8) : Option UInt32 :=
  if chr '0' ≤ c && c ≤ chr '9' then some (c - chr '0').toUInt32
  else if chr 'a' ≤ c && c ≤ chr 'f' then some (c - chr 'a' + 10).toUInt32
  else if chr 'A' ≤ c && c ≤ chr 'F' then some (c - chr 'A' + 10).toUInt32
  else none

/-- The loop of `x8u`. -/
def x8uFrom : Str → UInt32 → Except CpioError UInt32
  | [], ret => .ok ret
  | c :: s, ret =>
    match toDigit c with
    | none => .error .badHeader
    | some d => x8uFrom s (ret * 16 + d)

/-- `x8u`.  Text that is not UTF-8 holds a byte that is no digit, with the same error. -/
def x8u (x : Str) : Except CpioError UInt32 := x8uFrom x 0

/-- `data[pos..(pos + len)]`. -/
def slice (data : Str) (pos len : Nat) : Except CpioError Str :=
  if pos + len ≤ data.length then .ok ((data.drop pos).take len) else .error .panic

/-- `Utf8CStr::from_bytes`: one NUL, at the end, and UTF-8 before it. -/
def utf8CStr (bytes : Str) : Except CpioError Str :=
  if bytes.getLast? = some 0 ∧ 0 ∉ bytes.dropLast ∧ validUtf8 bytes.dropLast then
    .ok bytes.dropLast
  else .error .badName

/-- `BytesExt::find`. -/
def find (needle : Str) : Str → Option Nat
  | [] => if needle = [] then some 0 else none
  | c :: s => if needle.isPrefixOf (c :: s) then some 0 else (find needle s).map (· + 1)

/-- The fields of `CpioHeader` after the magic, eight digits each. -/
inductive HdrField where
  | ino | mode | uid | gid | nlink | mtime | filesize | devmajor | devminor | rdevmajor
  | rdevminor | namesize | check

/-- The text of a header field. -/
def hdrField (hdr : Str) (f : HdrField) : Str := (hdr.drop (6 + 8 * f.ctorIdx)).take 8

/-- What one round of the reader's loop leads to: the end, or the next position, with the
entry that was read. -/
inductive Round where
  | done
  | next (pos : Nat) (entry : Option (Str × CpioEntry))

/-- A round at the end of an archive: another one may follow. -/
def nextArchive (data : Str) (pos : Nat) : Except CpioError Round :=
  if data.length < pos then .error .panic
  else
    match find magic (data.drop pos) with
    | some x => .ok (.next (pos + x) none)
    | none => .ok .done

/-- A round at an entry, after its name. -/
def loadEntry (data hdr name : Str) (pos : Nat) : Except CpioError Round := do
  let fileSz ← x8u (hdrField hdr .filesize)
  let mode ← x8u (hdrField hdr .mode)
  let uid ← x8u (hdrField hdr .uid)
  let gid ← x8u (hdrField hdr .gid)
  let rdevmajor ← x8u (hdrField hdr .rdevmajor)
  let rdevminor ← x8u (hdrField hdr .rdevminor)
  let content ← slice data pos fileSz.toNat
  return .next (align4 (pos + fileSz.toNat))
    (some (name, ⟨mode, uid, gid, rdevmajor.toUInt64, rdevminor.toUInt64, content⟩))

/-- A header is to start with the magic. -/
def checkMagic (hdr : Str) : Except CpioError Unit :=
  if hdr.take 6 = magic then .ok () else .error .invalidMagic

/-- One round of the loop of `load_from_data`. -/
def loadRound (data : Str) (pos : Nat) : Except CpioError Round := do
  let hdr ← slice data pos hdrSz
  checkMagic hdr
  let nameSz ← x8u (hdrField hdr .namesize)
  let bytes ← slice data (pos + hdrSz) nameSz.toNat
  let name ← utf8CStr bytes
  let pos := align4 (pos + hdrSz + nameSz.toNat)
  if name = str "." ∨ name = str ".." then return .next pos none
  else if name = trailer then nextArchive data pos
  else loadEntry data hdr name pos

lemma le_align4 (x : Nat) : x ≤ align4 x := by
  rw [align4]
  omega

lemma le_of_nextArchive (h : nextArchive data pos = .ok (.next pos' e)) : pos ≤ pos' := by
  rw [nextArchive] at h
  split at h
  · cases h
  · split at h
    · simp only [Except.ok.injEq, Round.next.injEq] at h
      omega
    · simp at h

lemma le_of_loadEntry (h : loadEntry data hdr name pos = .ok (.next pos' e)) : pos ≤ pos' := by
  simp only [loadEntry, bind_eq_ok] at h
  obtain ⟨fileSz, -, _, -, _, -, _, -, _, -, _, -, _, -, h⟩ := h
  simp only [pure, Except.pure, Except.ok.injEq, Round.next.injEq] at h
  have hle := le_align4 (pos + fileSz.toNat)
  omega

lemma lt_of_loadRound (h : loadRound data pos = .ok (.next pos' e)) : pos < pos' := by
  simp only [loadRound, bind_eq_ok] at h
  obtain ⟨_, -, _, -, nameSz, -, _, -, name, -, h⟩ := h
  have hle := le_align4 (pos + hdrSz + nameSz.toNat)
  have hlt : pos < pos + hdrSz := Nat.lt_add_of_pos_right (by decide)
  suffices hnext : align4 (pos + hdrSz + nameSz.toNat) ≤ pos' by omega
  split_ifs at h
  · simp only [pure, Except.pure, Except.ok.injEq, Round.next.injEq] at h
    omega
  · exact le_of_nextArchive h
  · exact le_of_loadEntry h

/-- The loop of `load_from_data`. -/
def loadFrom (data : Str) (pos : Nat) (entries : Entries) : Except CpioError Entries :=
  if pos < data.length then
    match _h : loadRound data pos with
    | .error e => .error e
    | .ok .done => .ok entries
    | .ok (.next pos' none) => loadFrom data pos' entries
    | .ok (.next pos' (some (name, entry))) => loadFrom data pos' (entries.insert name entry)
  else .ok entries
termination_by data.length - pos
decreasing_by
  · have hlt := lt_of_loadRound _h
    omega
  · have hlt := lt_of_loadRound _h
    omega

/-- `Cpio::load_from_data`. -/
def loadFromData (data : Str) : Except CpioError Cpio := (loadFrom data 0 ∅).map Cpio.mk

/-! ### Writing -/

/-- `{:08x}`: eight digits, or as many as it takes. -/
def hex08 (v : Nat) : Str := hexDigits (max 8 (Nat.log 16 v + 1)) v

/-- A header, with its fields in order. -/
def header (fields : List Nat) : Str := magic ++ fields.flatMap hex08

/-- A file that is written, and the running position `pos`. -/
structure Writer where
  file : Str
  pos : Nat

namespace Writer

variable (w : Writer)

/-- `pos += file.write(buf)?`. -/
def write (buf : Str) : Writer := ⟨w.file ++ buf, w.pos + buf.length⟩

/-- `file.write_zeros(align_4(pos) - pos)?; pos = align_4(pos)`. -/
def pad : Writer := ⟨w.file ++ List.replicate (align4 w.pos - w.pos) 0, align4 w.pos⟩

end Writer

/-- One round of the loop of `dump`, with the running `inode`. -/
def dumpEntry (w : Writer × Nat) (e : Str × CpioEntry) : Writer × Nat :=
  let (name, entry) := e
  let hdr := header [w.2, entry.mode.toNat, entry.uid.toNat, entry.gid.toNat, 1, 0,
    entry.data.length, 0, 0, entry.rdevmajor.toNat, entry.rdevminor.toNat, name.length + 1, 0]
  (((((w.1.write hdr).write name).write [0]).pad.write entry.data).pad, w.2 + 1)

/-- `Cpio::dump`: the file that is written. -/
def Cpio.dump (c : Cpio) : Str :=
  let (w, inode) := c.entries.toList.foldl dumpEntry (⟨[], 0⟩, 300000)
  (((w.write (header [inode, 0o755, 0, 0, 1, 0, 0, 0, 0, 0, 0, 11, 0])).write
    (trailer ++ [0])).pad).file

/-! ### Backups -/

/-- `S_IFMT`. -/
def sIfmt : UInt32 := 0o170000

/-- `S_IFREG`. -/
def sIfreg : UInt32 := 0o100000

/-- `S_IFDIR`. -/
def sIfdir : UInt32 := 0o040000

/-- `'/'`. -/
abbrev slash : UInt8 := 47

/-- `norm_path`. -/
def normPath (path : Str) : Str :=
  [slash].intercalate ((path.splitOn slash).filter (· ≠ []))

/-- `".backup"`. -/
def backupDir : Str := str ".backup"

/-- `".backup/"`. -/
def backupPre : Str := str ".backup/"

/-- `".xz"`. -/
def xzExt : Str := str ".xz"

/-- `".magisk"`. -/
def magiskName : Str := str ".magisk"

/-- `".rmlist"`. -/
def rmlistName : Str := str ".rmlist"

/-- `Cpio::rm`. -/
def Cpio.rm (c : Cpio) (path : Str) (recursive : Bool) : Cpio :=
  let path := normPath path
  let entries := c.entries.erase path
  if recursive then ⟨entries.filter fun k _ => !(path ++ [slash]).isPrefixOf k⟩ else ⟨entries⟩

/-- The XZ coders; both can fail. -/
structure Xz where
  encode : Str → Option Str
  decode : Str → Option Str
  decode_encode : ∀ x y, encode x = some y → decode y = some x

namespace CpioEntry

variable (X : Xz) (e : CpioEntry)

/-- Is the entry a regular file? -/
def isReg : Bool := e.mode &&& sIfmt = sIfreg

/-- `CpioEntry::compress`: the compressed entry, if that succeeds. -/
def compress : Option CpioEntry :=
  if e.isReg then (X.encode e.data).map fun data => { e with data := data } else none

/-- `CpioEntry::decompress`: the decompressed entry, if that succeeds. -/
def decompress : Option CpioEntry :=
  if e.isReg then (X.decode e.data).map fun data => { e with data := data } else none

end CpioEntry

/-- The directory `.backup`, or an empty list of removals: an entry without an owner. -/
def plainEntry (mode : UInt32) (data : Str) : CpioEntry := ⟨mode, 0, 0, 0, 0, data⟩

/-- What `backup` collects: the entries it adds, and `rm_list`. -/
structure Collected where
  backups : Entries
  rmList : Str

section Backup

variable (X : Xz) (skipCompress : Bool)

/-- `Action::Backup`. -/
def Collected.backup (s : Collected) (name : Str) (entry : CpioEntry) : Collected :=
  match if skipCompress then none else entry.compress X with
  | some packed => { s with backups := s.backups.insert (backupPre ++ name ++ xzExt) packed }
  | none => { s with backups := s.backups.insert (backupPre ++ name) entry }

/-- `Action::Record`. -/
def Collected.record (s : Collected) (name : Str) : Collected :=
  { s with rmList := s.rmList ++ name ++ [0] }

/-- The loop of `backup` over the two sorted iterators.  What is put back is the head of its
list. -/
def merge : List (Str × CpioEntry) → List (Str × CpioEntry) → Collected → Collected
  | [], [], s => s
  | (ln, le) :: ls, [], s => merge ls [] (s.backup X skipCompress ln le)
  | [], (rn, _) :: rs, s => merge [] rs (s.record rn)
  | (ln, le) :: ls, (rn, re) :: rs, s =>
    match compare ln rn with
    | .lt => merge ls ((rn, re) :: rs) (s.backup X skipCompress ln le)
    | .gt => merge ((ln, le) :: ls) rs (s.record rn)
    | .eq => merge ls rs (if re.data ≠ le.data then s.backup X skipCompress ln le else s)

/-- `Cpio::backup`; `origin` is the archive that was loaded. -/
def Cpio.backup (c origin : Cpio) : Cpio :=
  let o := origin.rm backupDir true
  let c := c.rm backupDir true
  let s := merge X skipCompress o.entries.toList c.entries.toList
    ⟨(∅ : Entries).insert backupDir (plainEntry sIfdir []), []⟩
  let backups :=
    if s.rmList = [] then s.backups
    else s.backups.insert (backupPre ++ rmlistName) (plainEntry sIfreg s.rmList)
  ⟨c.entries ∪ backups⟩

end Backup

section Restore

variable (X : Xz)

/-- The name and the entry an entry below `.backup/` is restored as. -/
def restoreEntry (name : Str) (entry : CpioEntry) : Str × CpioEntry :=
  match if xzExt.isSuffixOf name then entry.decompress X else none with
  | some unpacked => ((name.drop 8).take (name.length - 3 - 8), unpacked)
  | none => (name.drop 8, entry)

/-- The closure of `restore` that takes an entry below `.backup/` out. -/
def Collected.extract (s : Collected) (e : Str × CpioEntry) : Collected :=
  let (name, entry) := e
  if name = backupPre ++ rmlistName then
    if validUtf8 entry.data then { s with rmList := s.rmList ++ entry.data } else s
  else if name ≠ backupPre ++ magiskName then
    let (newName, entry) := restoreEntry X name entry
    { s with backups := s.backups.insert newName entry }
  else s

/-- `Cpio::restore`. -/
def Cpio.restore (c : Cpio) : Cpio :=
  let s := (c.entries.toList.filter fun e => backupPre.isPrefixOf e.1).foldl
    (Collected.extract X) ⟨∅, []⟩
  let c : Cpio := ⟨c.entries.filter fun name _ => !backupPre.isPrefixOf name⟩
  let c := c.rm backupDir false
  if s.rmList = [] && s.backups.isEmpty then ⟨∅⟩
  else
    let c := ((s.rmList.splitOn 0).filter (· ≠ [])).foldl (fun c name => c.rm name false) c
    ⟨c.entries ∪ s.backups⟩

end Restore

end Magisk.Boot
