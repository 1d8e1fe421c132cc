import Magisk.Boot.Cpio
import Magisk.Lib.OrderedMap

/-!
# Reading back what was written

Archives that `dump` writes, one after the other and padded with zeros, are read
back by `load_from_data`.

* `At`: what stands at a position of the data;
* `record`, `dump_eq`: the file `dump` writes, entry by entry, without the running
  position;
* `loadRound_record`, `loadRound_trailer`: one round of the reader at an entry and
  at the end of an archive;
* `load_dumps`: the entries read are the union of the archives', the last one
  counting.
-/

namespace Magisk.Boot

open Magisk.Base Magisk.Lib List Std.ExtTreeMap

/-! ### Alignment -/

/-- Zeros up to the next multiple of four. -/
def zeros (len : Nat) : Str := List.replicate (align4 len - len) 0

lemma dvd_align4 (x : Nat) : 4 ∣ align4 x := Dvd.intro_left _ rfl

lemma align4_add (hp : 4 ∣ p) (x : Nat) : align4 (p + x) = p + align4 x := by
  simp only [align4]
  omega

lemma length_zeros (len : Nat) : len + (zeros len).length = align4 len := by
  have hle := le_align4 len
  rw [zeros, length_replicate]
  omega

/-! ### Header fields -/

variable {v inode : Nat} {fields : List Nat} {e : Str × CpioEntry} {name : Str}
  {es : List (Str × CpioEntry)} {w : Writer} {c : Cpio}

lemma hex08_eq (hv : v < 2 ^ 32) : hex08 v = hexDigits 8 v := by
  have hlog : Nat.log 16 v < 8 := Nat.log_lt_of_lt_pow' (by decide) hv
  rw [hex08, max_eq_left (by omega)]

lemma toDigit_hexChar (hd : d < 16) : toDigit (hexChar d) = some (UInt32.ofNat d) := by
  have hdec : ∀ d < 16, toDigit (hexChar d) = some (UInt32.ofNat d) := by decide
  exact hdec d hd

/-- Printed digits are read back. -/
lemma x8uFrom_hexDigits (n v acc : Nat) :
    x8uFrom (hexDigits n v) (UInt32.ofNat acc) =
      .ok (UInt32.ofNat (acc * 16 ^ n + v % 16 ^ n)) := by
  induction n generalizing acc with
  | zero => rw [hexDigits, x8uFrom, pow_zero, Nat.mod_one, Nat.mul_one, Nat.add_zero]
  | succ n ih =>
    have hstep : UInt32.ofNat acc * 16 + UInt32.ofNat (v / 16 ^ n % 16) =
        UInt32.ofNat (acc * 16 + v / 16 ^ n % 16) := by
      rw [UInt32.ofNat_add, UInt32.ofNat_mul]
      rfl
    rw [hexDigits, x8uFrom, toDigit_hexChar (Nat.mod_lt _ (by decide))]
    simp only [hstep, ih]
    rw [Nat.mod_pow_succ]
    ring

lemma x8u_hexDigits (hv : v < 2 ^ 32) : x8u (hexDigits 8 v) = .ok (UInt32.ofNat v) := by
  have hall := x8uFrom_hexDigits 8 v 0
  rwa [Nat.zero_mul, Nat.zero_add, Nat.mod_eq_of_lt (show v < 16 ^ 8 from hv)] at hall

lemma length_header (h : ∀ v ∈ fields, v < 2 ^ 32) :
    (header fields).length = 6 + 8 * fields.length := by
  have hlen : ∀ v ∈ fields, (hex08 v).length = 8 := fun v hv => by
    rw [hex08_eq (h v hv), length_hexDigits]
  rw [header, length_append, length_flatMap, map_congr_left hlen, map_const',
    sum_replicate, smul_eq_mul, Nat.mul_comm]
  rfl

/-- The fields stand in the header in their order. -/
lemma hdrField_header (h : ∀ v ∈ fields, v < 2 ^ 32)
    (hf : fields[f.ctorIdx]? = some v) : hdrField (header fields) f = hexDigits 8 v := by
  have hdrop : ∀ (i : Nat) (fs : List Nat), (∀ u ∈ fs, u < 2 ^ 32) → fs[i]? = some v →
      ((fs.flatMap hex08).drop (8 * i)).take 8 = hexDigits 8 v := by
    intro i
    induction i with
    | zero =>
      intro fs hfs hv
      obtain ⟨rest, rfl⟩ : ∃ rest, fs = v :: rest := by
        cases fs with
        | nil => cases hv
        | cons u rest => exact ⟨rest, by rw [Option.some.inj hv]⟩
      rw [flatMap_cons, hex08_eq (hfs v mem_cons_self), Nat.mul_zero, drop_zero,
        take_left' (length_hexDigits 8 v)]
    | succ i ih =>
      intro fs hfs hv
      cases fs with
      | nil => cases hv
      | cons u rest =>
        have hlen : (hex08 u).length = 8 := by
          rw [hex08_eq (hfs u mem_cons_self), length_hexDigits]
        rw [flatMap_cons, Nat.mul_succ, Nat.add_comm, ← drop_drop,
          drop_left' hlen]
        exact ih rest (fun w hw => hfs w (.tail _ hw)) hv
  rw [hdrField, ← drop_drop]
  exact hdrop _ _ h hf

/-! ### Positions -/

/-- At this position of the data stands the rest. -/
def At (data : Str) (pos : Nat) (rest : Str) : Prop := pos ≤ data.length ∧ data.drop pos = rest

namespace At

variable {data x rest : Str} {pos : Nat}

lemma zero (data : Str) : At data 0 data := ⟨Nat.zero_le _, rfl⟩

lemma slice (h : At data pos (x ++ rest)) : slice data pos x.length = .ok x := by
  have hlen := congrArg List.length h.2
  rw [length_drop, length_append] at hlen
  rw [Boot.slice, if_pos (by have := h.1; omega), h.2, take_left' rfl]

lemma advance (h : At data pos (x ++ rest)) : At data (pos + x.length) rest := by
  have hlen := congrArg List.length h.2
  rw [length_drop, length_append] at hlen
  refine ⟨by have := h.1; omega, ?_⟩
  rw [← drop_drop, h.2, drop_left' rfl]

lemma lt (h : At data pos rest) (hrest : rest ≠ []) : pos < data.length := by
  by_contra hge
  exact hrest (h.2 ▸ drop_eq_nil_of_le (not_lt.mp hge))

end At

/-! ### The file that is written -/

/-- The fields of the header of an entry. -/
def entryFields (inode : Nat) (name : Str) (e : CpioEntry) : List Nat :=
  [inode, e.mode.toNat, e.uid.toNat, e.gid.toNat, 1, 0, e.data.length, 0, 0, e.rdevmajor.toNat,
    e.rdevminor.toNat, name.length + 1, 0]

/-- The fields of the header of the trailer. -/
def trailerFields (inode : Nat) : List Nat := [inode, 0o755, 0, 0, 1, 0, 0, 0, 0, 0, 0, 11, 0]

/-- A header and a name, up to an aligned position. -/
def nameRecord (fields : List Nat) (name : Str) : Str :=
  header fields ++ ((name ++ [0]) ++ zeros (hdrSz + (name.length + 1)))

/-- An entry as it stands in the file. -/
def record (inode : Nat) (e : Str × CpioEntry) : Str :=
  nameRecord (entryFields inode e.1 e.2) e.1 ++ (e.2.data ++ zeros e.2.data.length)

/-- Entries as they stand in the file. -/
def records : Nat → List (Str × CpioEntry) → Str
  | _, [] => []
  | inode, e :: es => record inode e ++ records (inode + 1) es

/-- What an archive must be like to be written with headers of the right size and to be
read back. -/
structure Dumpable (c : Cpio) : Prop where
  names : ∀ name ∈ c.entries, 0 ∉ name ∧ validUtf8 name = true ∧ name ≠ str "." ∧
    name ≠ str ".." ∧ name ≠ trailer ∧ name.length + 1 < 2 ^ 32
  fields : ∀ (name : Str) (e : CpioEntry), c.entries[name]? = some e →
    e.rdevmajor.toNat < 2 ^ 32 ∧ e.rdevminor.toNat < 2 ^ 32 ∧ e.data.length < 2 ^ 32
  size : c.entries.size < 2 ^ 32 - 300000

/-- The same of one entry, with its inode. -/
structure EntryOk (inode : Nat) (e : Str × CpioEntry) : Prop where
  nul : 0 ∉ e.1
  utf8 : validUtf8 e.1 = true
  ordinary : e.1 ≠ str "." ∧ e.1 ≠ str ".." ∧ e.1 ≠ trailer
  fields : ∀ v ∈ entryFields inode e.1 e.2, v < 2 ^ 32

lemma length_header_entry (h : EntryOk inode e) :
    (header (entryFields inode e.1 e.2)).length = hdrSz := length_header h.fields

lemma length_header_trailer (h : inode < 2 ^ 32) :
    (header (trailerFields inode)).length = hdrSz := by
  refine length_header fun v hv => ?_
  simp only [trailerFields, mem_cons, not_mem_nil, or_false] at hv
  omega

lemma length_nameRecord (h : (header fields).length = hdrSz) :
    (nameRecord fields name).length = align4 (hdrSz + (name.length + 1)) := by
  rw [nameRecord, length_append, length_append, length_append, h,
    length_singleton, ← Nat.add_assoc, length_zeros]

lemma length_record (h : EntryOk inode e) :
    (record inode e).length = align4 (hdrSz + (e.1.length + 1)) + align4 e.2.data.length := by
  rw [record, length_append, length_nameRecord (length_header_entry h), length_append,
    length_zeros]

lemma dvd_length_record (h : EntryOk inode e) : 4 ∣ (record inode e).length := by
  rw [length_record h]
  exact (dvd_align4 _).add (dvd_align4 _)

/-- The entries are in order from this inode on. -/
def EntriesOk : Nat → List (Str × CpioEntry) → Prop
  | _, [] => True
  | inode, e :: es => EntryOk inode e ∧ EntriesOk (inode + 1) es

lemma dvd_length_records (h : EntriesOk inode es) : 4 ∣ (records inode es).length := by
  induction es generalizing inode with
  | nil => exact Nat.dvd_zero 4
  | cons e es ih =>
    rw [records, length_append]
    exact (dvd_length_record h.1).add (ih h.2)

/-- The writer stands at the end of its file, at an aligned position. -/
def Writer.Ready (w : Writer) : Prop := w.pos = w.file.length ∧ 4 ∣ w.pos

lemma Writer.Ready.pad_write (hw : w.Ready) (buf : Str) :
    ((w.write buf).pad).file = w.file ++ (buf ++ zeros buf.length) ∧ ((w.write buf).pad).Ready := by
  have hpos : align4 (w.pos + buf.length) = w.pos + align4 buf.length := align4_add hw.2 _
  have hlen := length_zeros buf.length
  have hzeros : List.replicate (align4 (w.pos + buf.length) - (w.pos + buf.length)) (0 : UInt8) =
      zeros buf.length := by
    rw [hpos, zeros, Nat.add_sub_add_left]
  refine ⟨?_, ?_, dvd_align4 _⟩
  · simp [Writer.pad, Writer.write, hzeros]
  · simp only [Writer.pad, Writer.write, hzeros, length_append]
    have hstart := hw.1
    omega

lemma Writer.write_write (w : Writer) (a b : Str) : (w.write a).write b = w.write (a ++ b) := by
  simp only [Writer.write, append_assoc, length_append, Nat.add_assoc]

lemma Writer.Ready.pad_name (hw : w.Ready) (name : Str) (h : (header fields).length = hdrSz) :
    ((w.write (header fields)).write (name ++ [0])).pad.file = w.file ++ nameRecord fields name ∧
      ((w.write (header fields)).write (name ++ [0])).pad.Ready := by
  have hpad := hw.pad_write (header fields ++ (name ++ [0]))
  rw [Writer.write_write]
  refine ⟨?_, hpad.2⟩
  rw [hpad.1, nameRecord, length_append, h]
  simp

lemma dumpEntry_eq (hw : w.Ready) (h : EntryOk inode e) :
    ∃ w' : Writer, dumpEntry (w, inode) e = (w', inode + 1) ∧
      w'.file = w.file ++ record inode e ∧ w'.Ready := by
  refine ⟨_, rfl, ?_⟩
  obtain ⟨hfile, hready⟩ := hw.pad_name e.1 (length_header_entry h)
  obtain ⟨hfile', hready'⟩ := hready.pad_write e.2.data
  rw [← Writer.write_write] at hfile hready hfile' hready'
  refine ⟨?_, hready'⟩
  exact hfile'.trans (by rw [hfile, record, append_assoc])

lemma foldl_dumpEntry (hw : w.Ready) (h : EntriesOk inode es) :
    ∃ w' : Writer, es.foldl dumpEntry (w, inode) = (w', inode + es.length) ∧
      w'.file = w.file ++ records inode es ∧ w'.Ready := by
  induction es generalizing w inode with
  | nil => exact ⟨w, rfl, (append_nil _).symm, hw⟩
  | cons e es ih =>
    obtain ⟨w₁, hround, hfile₁, hready₁⟩ := dumpEntry_eq hw h.1
    obtain ⟨w₂, hloop, hfile₂, hready₂⟩ := ih hready₁ h.2
    refine ⟨w₂, ?_, ?_, hready₂⟩
    · rw [foldl_cons, hround, hloop, length_cons, Nat.add_assoc, Nat.add_comm 1]
    · rw [hfile₂, hfile₁, records, append_assoc]

/-- **The file that is written**: the records of the entries and the trailer. -/
lemma dump_eq (h : EntriesOk 300000 c.entries.toList)
    (hsize : 300000 + c.entries.toList.length < 2 ^ 32) :
    c.dump = records 300000 c.entries.toList ++
      nameRecord (trailerFields (300000 + c.entries.toList.length)) trailer := by
  obtain ⟨w, hloop, hfile, hready⟩ := foldl_dumpEntry (w := ⟨[], 0⟩) ⟨rfl, Nat.dvd_zero 4⟩ h
  rw [Cpio.dump, hloop]
  rw [nil_append] at hfile
  exact (hready.pad_name _ (length_header_trailer hsize)).1.trans (by rw [hfile])

/-! ### The reader at a record -/

lemma utf8CStr_append (hnul : 0 ∉ name) (hutf8 : validUtf8 name = true) :
    utf8CStr (name ++ [0]) = .ok name := by
  rw [utf8CStr, getLast?_concat, dropLast_concat, if_pos ⟨rfl, hnul, hutf8⟩]

section Round

variable {data rest : Str} {pos : Nat}

/-- The reader reads a header and a name, and goes on behind them. -/
lemma loadRound_nameRecord (hat : At data pos (nameRecord fields name ++ rest)) (hpos : 4 ∣ pos)
    (hfields : ∀ v ∈ fields, v < 2 ^ 32) (hlen : fields.length = 13)
    (hsize : fields[11]? = some (name.length + 1)) (hnul : 0 ∉ name)
    (hutf8 : validUtf8 name = true) :
    At data (align4 (pos + hdrSz + (name.length + 1))) rest ∧
      loadRound data pos =
        if name = str "." ∨ name = str ".." then
          .ok (.next (align4 (pos + hdrSz + (name.length + 1))) none)
        else if name = trailer then nextArchive data (align4 (pos + hdrSz + (name.length + 1)))
        else loadEntry data (header fields) name (align4 (pos + hdrSz + (name.length + 1))) := by
  have hhdr : (header fields).length = hdrSz := by
    rw [length_header hfields, hlen]
    rfl
  have hlt : name.length + 1 < 2 ^ 32 := hfields _ (mem_of_getElem? hsize)
  have hnext : pos + (nameRecord fields name).length =
      align4 (pos + hdrSz + (name.length + 1)) := by
    rw [length_nameRecord hhdr, Nat.add_assoc, align4_add hpos]
  refine ⟨hnext ▸ hat.advance, ?_⟩
  -- the parts of the record, one after the other
  rw [nameRecord, append_assoc, append_assoc] at hat
  have hslice := hat.slice
  have hname := hat.advance.slice
  rw [hhdr] at hslice hname
  rw [length_append, length_singleton] at hname
  have hmagic : checkMagic (header fields) = .ok () := by
    rw [checkMagic, header, take_left' (by decide), if_pos rfl]
  have hnamesize : x8u (hdrField (header fields) .namesize) =
      .ok (UInt32.ofNat (name.length + 1)) := by
    rw [hdrField_header hfields (f := .namesize) hsize, x8u_hexDigits hlt]
  simp only [loadRound, hslice, hmagic, hnamesize, bind, Except.bind,
    UInt32.toNat_ofNat_of_lt' hlt, hname, utf8CStr_append hnul hutf8]
  rfl

lemma toUInt64_ofNat (hn : n.toNat < 2 ^ 32) : (UInt32.ofNat n.toNat).toUInt64 = n := by
  rw [← UInt64.toNat_inj, UInt32.toNat_toUInt64, UInt32.toNat_ofNat_of_lt' hn]

/-- The reader reads an entry. -/
lemma loadRound_record (hat : At data pos (record inode e ++ rest)) (hpos : 4 ∣ pos)
    (h : EntryOk inode e) :
    At data (pos + (record inode e).length) rest ∧
      loadRound data pos = .ok (.next (pos + (record inode e).length) (some e)) := by
  obtain ⟨name, e⟩ := e
  refine ⟨hat.advance, ?_⟩
  have hnext : align4 (align4 (pos + hdrSz + (name.length + 1)) + e.data.length) =
      pos + (record inode (name, e)).length := by
    rw [length_record h, align4_add (dvd_align4 _), Nat.add_assoc pos, align4_add hpos,
      Nat.add_assoc]
  rw [record, append_assoc] at hat
  obtain ⟨hat', hround⟩ := loadRound_nameRecord hat hpos h.fields rfl rfl h.nul h.utf8
  rw [append_assoc] at hat'
  have hcontent := hat'.slice
  have hfield : ∀ (f : HdrField) (v : Nat), (entryFields inode name e)[f.ctorIdx]? = some v →
      x8u (hdrField (header (entryFields inode name e)) f) = .ok (UInt32.ofNat v) := by
    intro f v hv
    rw [hdrField_header h.fields hv, x8u_hexDigits (h.fields v (mem_of_getElem? hv))]
  have hsize : e.data.length < 2 ^ 32 := h.fields _ (by simp [entryFields])
  have hmajor : e.rdevmajor.toNat < 2 ^ 32 := h.fields _ (by simp [entryFields])
  have hminor : e.rdevminor.toNat < 2 ^ 32 := h.fields _ (by simp [entryFields])
  rw [hround, if_neg (not_or.mpr ⟨h.ordinary.1, h.ordinary.2.1⟩), if_neg h.ordinary.2.2]
  simp only [loadEntry, hfield .filesize _ rfl, hfield .mode _ rfl, hfield .uid _ rfl,
    hfield .gid _ rfl, hfield .rdevmajor _ rfl, hfield .rdevminor _ rfl, bind, Except.bind,
    UInt32.toNat_ofNat_of_lt' hsize, hcontent, pure, Except.pure, hnext, UInt32.ofNat_toNat,
    toUInt64_ofNat hmajor, toUInt64_ofNat hminor]

/-- Nothing but zeros in front of an archive. -/
lemma find_zeros (k : Nat) {s : Str} (hs : s = [] ∨ magic <+: s) :
    find magic (List.replicate k 0 ++ s) = if s = [] then none else some k := by
  induction k with
  | zero =>
    rw [replicate_zero, nil_append]
    rcases hs with rfl | ⟨t, rfl⟩
    · rfl
    · rw [if_neg (by simp [magic, str])]
      have hmagic : magic = 48 :: [55, 48, 55, 48, 49] := by decide
      rw [hmagic, cons_append, find, if_pos (by simp)]
  | succ k ih =>
    have hno : ¬ magic.isPrefixOf (0 :: (List.replicate k 0 ++ s)) = true := by
      exact Bool.false_ne_true
    rw [replicate_succ, cons_append, find, if_neg hno, ih]
    split_ifs <;> rfl

/-- The reader reads the trailer and looks for another archive. -/
lemma loadRound_trailer (hinode : inode < 2 ^ 32) (hpos : 4 ∣ pos)
    (hat : At data pos (nameRecord (trailerFields inode) trailer ++ (List.replicate k 0 ++ rest)))
    (hrest : rest = [] ∨ magic <+: rest) :
    ∃ pos', loadRound data pos = .ok (if rest = [] then .done else .next pos' none) ∧
      At data pos' rest ∧ (4 ∣ k → 4 ∣ pos') := by
  have hfields : ∀ v ∈ trailerFields inode, v < 2 ^ 32 := by
    intro v hv
    simp only [trailerFields, mem_cons, not_mem_nil, or_false] at hv
    omega
  obtain ⟨hat', hround⟩ := loadRound_nameRecord hat hpos hfields rfl rfl (by decide)
    (validUtf8_ascii (ascii_of_all (by decide)))
  set pos' := align4 (pos + hdrSz + (trailer.length + 1))
  have hend := hat'.advance
  rw [length_replicate] at hend
  refine ⟨pos' + k, ?_, hend, fun hk => (dvd_align4 _).add hk⟩
  rw [hround, if_neg (by decide), if_pos rfl, nextArchive, if_neg (not_lt.mpr hat'.1), hat'.2,
    find_zeros k hrest]
  split_ifs <;> rfl

end Round

/-! ### The reader over archives -/

/-- Archives one after the other, each with zeros behind it. -/
def dumps (archives : List (Cpio × Nat)) : Str :=
  archives.flatMap fun a => a.1.dump ++ List.replicate a.2 0

section Loop

variable {data rest : Str} {pos pos' : Nat} {entries : Entries}

lemma loadFrom_done (hlt : pos < data.length) (h : loadRound data pos = .ok .done) :
    loadFrom data pos entries = .ok entries := by
  rw [loadFrom, if_pos hlt]
  split <;> simp_all

lemma loadFrom_none (hlt : pos < data.length) (h : loadRound data pos = .ok (.next pos' none)) :
    loadFrom data pos entries = loadFrom data pos' entries := by
  rw [loadFrom, if_pos hlt]
  split <;> simp_all

lemma loadFrom_some (hlt : pos < data.length) (h : loadRound data pos = .ok (.next pos' (some e))) :
    loadFrom data pos entries = loadFrom data pos' (entries.insert e.1 e.2) := by
  obtain ⟨name, entry⟩ := e
  rw [loadFrom, if_pos hlt]
  split <;> simp_all

lemma nameRecord_append_ne (fields : List Nat) (name rest : Str) :
    nameRecord fields name ++ rest ≠ [] := by
  intro hnil
  simp only [nameRecord, header, append_eq_nil_iff] at hnil
  exact absurd hnil.1.1.1 (by decide)

/-- The loop reads the entries of an archive up to its trailer. -/
lemma loadFrom_records (hat : At data pos (records inode es ++ rest)) (hpos : 4 ∣ pos)
    (h : EntriesOk inode es) :
    loadFrom data pos entries =
      loadFrom data (pos + (records inode es).length) (entries.insertMany es) := by
  rw [insertMany_list_eq_foldl]
  induction es generalizing pos inode entries with
  | nil => rfl
  | cons e es ih =>
    rw [records, append_assoc] at hat
    obtain ⟨hat', hround⟩ := loadRound_record hat hpos h.1
    have hlt : pos < data.length := by
      refine hat.lt ?_
      rw [record, append_assoc]
      exact nameRecord_append_ne _ _ _
    rw [loadFrom_some hlt hround, ih hat' (hpos.add (dvd_length_record h.1)) h.2, records,
      length_append, Nat.add_assoc]
    rfl

/-- The entries of an archive are in order. -/
lemma Dumpable.entriesOk (hc : Dumpable c) : EntriesOk 300000 c.entries.toList := by
  have hall : ∀ (es : List (Str × CpioEntry)) (inode : Nat), inode + es.length < 2 ^ 32 →
      (∀ e ∈ es, c.entries[e.1]? = some e.2) → EntriesOk inode es := by
    intro es
    induction es with
    | nil => exact fun _ _ _ => trivial
    | cons e es ih =>
      intro inode hlen hes
      rw [length_cons] at hlen
      have he := hes e (.head _)
      have hmem : e.1 ∈ c.entries := mem_iff_isSome_getElem?.mpr (by rw [he]; rfl)
      obtain ⟨hnul, hutf8, hdot, hdots, htrailer, hname⟩ := hc.names e.1 hmem
      obtain ⟨hmajor, hminor, hdata⟩ := hc.fields e.1 e.2 he
      refine ⟨⟨hnul, hutf8, ⟨hdot, hdots, htrailer⟩, fun v hv => ?_⟩,
        ih (inode + 1) (by omega) fun e' he' => hes e' (.tail _ he')⟩
      have hmode := e.2.mode.toNat_lt
      have huid := e.2.uid.toNat_lt
      have hgid := e.2.gid.toNat_lt
      simp only [entryFields, mem_cons, not_mem_nil, or_false] at hv
      omega
  refine hall _ _ ?_ fun e he => mem_toList_iff_getElem?_eq_some.mp he
  rw [length_toList]
  have := hc.size
  omega

/-- The loop reads an archive: it ends, or goes on at the next one. -/
lemma loadFrom_dump (hc : Dumpable c) (hk : 4 ∣ k) (hpos : 4 ∣ pos)
    (hat : At data pos (c.dump ++ (List.replicate k 0 ++ rest)))
    (hrest : rest = [] ∨ magic <+: rest) (entries : Entries) :
    if rest = [] then loadFrom data pos entries = .ok (entries.insertMany c.entries.toList)
    else ∃ pos', At data pos' rest ∧ 4 ∣ pos' ∧
      loadFrom data pos entries = loadFrom data pos' (entries.insertMany c.entries.toList) := by
  have hes := hc.entriesOk
  have hsize : 300000 + c.entries.toList.length < 2 ^ 32 := by
    rw [length_toList]
    have := hc.size
    omega
  rw [dump_eq hes hsize, append_assoc] at hat
  rw [loadFrom_records hat hpos hes]
  have hat' := hat.advance
  obtain ⟨pos', hround, hnext, hdvd⟩ :=
    loadRound_trailer hsize (hpos.add (dvd_length_records hes)) hat' hrest
  have hlt := hat'.lt (nameRecord_append_ne _ _ _)
  split_ifs at hround ⊢
  · exact loadFrom_done hlt hround
  · exact ⟨pos', hnext, hdvd hk, loadFrom_none hlt hround⟩

/-- A dumped archive starts with the magic. -/
lemma magic_prefix_dump (hc : Dumpable c) (rest : Str) : magic <+: c.dump ++ rest := by
  have hsize : 300000 + c.entries.toList.length < 2 ^ 32 := by
    rw [length_toList]
    have := hc.size
    omega
  rw [dump_eq hc.entriesOk hsize]
  cases c.entries.toList with
  | nil =>
    exact prefix_append _ _
  | cons e es =>
    exact prefix_append _ _

lemma dumps_cons (a : Cpio × Nat) (as : List (Cpio × Nat)) :
    dumps (a :: as) = a.1.dump ++ (List.replicate a.2 0 ++ dumps as) := by
  rw [dumps, flatMap_cons, append_assoc]
  rfl

lemma magic_prefix_dumps (h : ∀ a ∈ archives, Dumpable a.1) :
    archives = [] ∨ magic <+: dumps archives := by
  cases archives with
  | nil => exact .inl rfl
  | cons a as =>
    rw [dumps_cons]
    exact .inr (magic_prefix_dump (h a (.head _)) _)

/-- The loop reads all archives. -/
lemma loadFrom_dumps
    (h : ∀ a ∈ archives, Dumpable a.1 ∧ 4 ∣ a.2) (hat : At data pos (dumps archives))
    (hpos : 4 ∣ pos) :
    loadFrom data pos entries =
      .ok (archives.foldl (fun m a => m.insertMany a.1.entries.toList) entries) := by
  induction archives generalizing pos entries with
  | nil =>
    have hend : ¬ pos < data.length := by
      rw [not_lt]
      exact drop_eq_nil_iff.mp hat.2
    rw [loadFrom, if_neg hend]
    rfl
  | cons a as ih =>
    obtain ⟨hc, hk⟩ := h a (.head _)
    have has : ∀ b ∈ as, Dumpable b.1 ∧ 4 ∣ b.2 := fun b hb => h b (.tail _ hb)
    have hmagic := magic_prefix_dumps fun b hb => (has b hb).1
    rw [dumps_cons] at hat
    have hrest : dumps as = [] ∨ magic <+: dumps as :=
      hmagic.imp_left fun hnil => by rw [hnil]; rfl
    have hread := loadFrom_dump hc hk hpos hat hrest entries
    rw [foldl_cons]
    split_ifs at hread with hnil
    · have hempty : as = [] := by
        refine hmagic.resolve_right fun hpre => ?_
        rw [hnil] at hpre
        exact absurd hpre (by decide)
      rw [hread, hempty, foldl_nil]
    · obtain ⟨pos', hat', hpos', hread⟩ := hread
      rw [hread, ih has hat' hpos']

end Loop

/-- The entry of a name in a sequence of archives: the last one counts. -/
def lastEntry (archives : List (Cpio × Nat)) (name : Str) : Option CpioEntry :=
  archives.foldl (fun e a => (a.1.entries[name]?).or e) none

/-- An archive of one file `init`. -/
def initArchive (data : Str) : Cpio :=
  ⟨(∅ : Entries).insert (str "init") ⟨0o100750, 0, 0, 0, 0, data⟩⟩

lemma getElem?_initArchive (data name : Str) :
    (initArchive data).entries[name]? =
      if str "init" = name then some ⟨0o100750, 0, 0, 0, 0, data⟩ else none := by
  simp [initArchive, Std.ExtTreeMap.getElem?_insert]

/-- An `initArchive` can be written. -/
lemma dumpable_initArchive (h : data.length < 2 ^ 32) : Dumpable (initArchive data) where
  names := by
    intro name hname
    obtain rfl : str "init" = name := by simpa [initArchive] using hname
    exact ⟨by decide, validUtf8_ascii (ascii_of_all (by decide)), by decide, by decide, by decide,
      by decide⟩
  fields := by
    intro name e he
    rw [getElem?_initArchive] at he
    split_ifs at he
    cases he
    exact ⟨Nat.two_pow_pos 32, Nat.two_pow_pos 32, h⟩
  size := by
    have hle := size_insert_le (t := (∅ : Entries)) (k := str "init")
      (v := (⟨0o100750, 0, 0, 0, 0, data⟩ : CpioEntry))
    exact lt_of_le_of_lt hle (by decide)

end Magisk.Boot
