import Magisk.Lib.Words
import Magisk.Base.Str
import Magisk.Sepolicy.Statement

/-!
# The mount table

`parse_mount_info` reads the table of mounts that the kernel prints.  The kernel escapes blanks,
tabs, newlines and backslashes in names; a name need not be UTF-8, and that of a source may be
empty.

* `parseMountInfoLine`, `parseMountInfo`: the reader, which stops at the first line that it cannot
  read;
* `Line`, `Line.print`: the fields of a line, and their text;
* `showMountinfo`: the line that is printed for a mount;
* `parseMountInfoLine_print`: a line without empty fields is read as it is printed;
* `parseMountInfo_iff`: the table is read correctly exactly if all names are plain.
-/

namespace Magisk.Base

open Magisk.Lib List Option

/-- The characters of a `String`. -/
abbrev Chars := List Char

/-- The property that `split_whitespace` looks for. -/
abbrev isBlank : Char → Bool := Sepolicy.isWhitespace

/-! ### The reader -/

/-- `u32::from_str`. -/
def parseU32 (s : Chars) : Option Nat :=
  let digits := if s.head? = some '+' then s.tail else s
  let value := digits.foldl (fun v c => v * 10 + (c.toNat - '0'.toNat)) 0
  if digits ≠ [] ∧ digits.all Char.isDigit ∧ value < 2 ^ 32 then some value else none

/-- `split_once`. -/
def splitOnce (c : Char) (s : Chars) : Option (Chars × Chars) :=
  if c ∈ s then some (s.takeWhile (· ≠ c), (s.dropWhile (· ≠ c)).tail) else none

/-- `strip_prefix`. -/
def stripStart (start s : Chars) : Option Chars :=
  if start.isPrefixOf s then some (s.drop start.length) else none

/-- `MountInfo`; the device is a major and a minor number. -/
structure MountInfo where
  id : Nat
  parent : Nat
  device : Nat × Nat
  root : Chars
  target : Chars
  vfsOption : Chars
  shared : Nat
  master : Nat
  propagationFrom : Nat
  unbindable : Bool
  fsType : Chars
  source : Chars
  fsOption : Chars
  deriving DecidableEq

/-- What is collected from the optional fields. -/
structure Peers where
  shared : Nat := 0
  master : Nat := 0
  propagationFrom : Nat := 0
  unbindable : Bool := false

/-- One optional field. -/
def Peers.add (peers : Peers) (optional : Chars) : Option Peers :=
  match stripStart "master:".toList optional, stripStart "shared:".toList optional,
    stripStart "propagate_from:".toList optional with
  | some peer, _, _ => (parseU32 peer).map fun n => { peers with master := n }
  | none, some peer, _ => (parseU32 peer).map fun n => { peers with shared := n }
  | none, none, some peer => (parseU32 peer).map fun n => { peers with propagationFrom := n }
  | none, none, none =>
    some { peers with unbindable := peers.unbindable || optional = "unbindable".toList }

/-- `parse_mount_info_line`: the loop over the optional fields ends with the separator. -/
def parseMountInfoLine (line : Chars) : Option MountInfo :=
  match words isBlank [] line with
  | id :: parent :: device :: root :: target :: vfsOption :: iter => do
    let id ← parseU32 id
    let parent ← parseU32 parent
    let (maj, min) ← splitOnce ':' device
    let maj ← parseU32 maj
    let min ← parseU32 min
    let peers ← (iter.takeWhile (· ≠ ['-'])).foldlM Peers.add {}
    match iter.dropWhile (· ≠ ['-']) with
    | _ :: fsType :: source :: fsOption :: _ =>
      return { id, parent, device := (maj, min), root, target, vfsOption, shared := peers.shared
               master := peers.master, propagationFrom := peers.propagationFrom
               unbindable := peers.unbindable, fsType, source, fsOption }
    | _ => none
  | _ => none

/-- `parse_mount_info`, for what `read_line` finds: the characters of a line, or none if it is not
UTF-8.  The loop ends with the first line that cannot be read. -/
def parseMountInfo : List (Option Chars) → List MountInfo
  | [] => []
  | line :: lines =>
    match line.bind parseMountInfoLine with
    | some info => info :: parseMountInfo lines
    | none => []

/-- The fields with a text. -/
inductive Field where
  | root | target | vfsOption | fsType | source | fsOption

/-- The texts of a record. -/
def MountInfo.text (info : MountInfo) : Field → Chars
  | .root => info.root
  | .target => info.target
  | .vfsOption => info.vfsOption
  | .fsType => info.fsType
  | .source => info.source
  | .fsOption => info.fsOption

/-! ### What the kernel prints -/

/-- A number, as it is printed. -/
structure Number where
  text : Chars
  digits : text.all Char.isDigit = true
  value : Nat
  parse : parseU32 text = some value
  short : text.length ≤ 10

/-- An optional field. -/
inductive Optional where
  | shared (n : Number)
  | master (n : Number)
  | propagateFrom (n : Number)
  | unbindable

/-- Its text. -/
def Optional.text : Optional → Chars
  | .shared n => "shared:".toList ++ n.text
  | .master n => "master:".toList ++ n.text
  | .propagateFrom n => "propagate_from:".toList ++ n.text
  | .unbindable => "unbindable".toList

/-- The fields of a line, with texts of some kind. -/
structure Line (τ : Type) where
  id : Number
  parent : Number
  major : Number
  minor : Number
  optional : List Optional
  text : Field → τ

/-- The fields behind the first one. -/
def Line.fields (l : Line Chars) : List Chars :=
  [l.parent.text, l.major.text ++ ':' :: l.minor.text, l.text .root, l.text .target,
    l.text .vfsOption] ++
    (l.optional.map Optional.text ++ [['-'], l.text .fsType, l.text .source, l.text .fsOption])

/-- The text of a line. -/
def Line.print (l : Line Chars) : Chars := l.id.text ++ (l.fields.flatMap (' ' :: ·) ++ ['\n'])

/-- A name: its characters, or its bytes if they are not UTF-8. -/
abbrev Name := Chars ⊕ Str

/-- How a character is printed. -/
def escape (c : Char) : Chars :=
  if c = ' ' then "\\040".toList
  else if c = '\t' then "\\011".toList
  else if c = '\n' then "\\012".toList
  else if c = '\\' then "\\134".toList
  else [c]

/-- `mangle`. -/
def mangle (s : Chars) : Chars := s.flatMap escape

/-- `show_mountinfo`: the line of a mount, if it is UTF-8. -/
def showMountinfo (m : Line Name) : Option Chars :=
  if [m.text .root, m.text .target, m.text .vfsOption, m.text .fsType, m.text .source,
      m.text .fsOption].all Sum.isLeft then
    some (Line.print { m with text := fun k => mangle ((m.text k).getLeft?.getD []) })
  else none

/-- A text in one word. -/
def Word (s : Chars) : Prop := s ≠ [] ∧ ∀ c ∈ s, isBlank c = false

/-- A name in one word, which is printed as it is. -/
def Plain (s : Name) : Prop := ∃ t : Chars, s = .inl t ∧ Word t ∧ '\\' ∉ t

/-! ### Lines -/

section Lines

variable {s t : Chars}

lemma isBlank_eq_false_of_all (h : s.all (! isBlank ·) = true) : ∀ c ∈ s, isBlank c = false := by
  simpa using h

lemma isBlank_of_isDigit (h : c.isDigit = true) : isBlank c = false ∧ c ≠ ':' := by
  have hrange : 48 ≤ c.toNat ∧ c.toNat ≤ 57 := by
    simpa [Char.isDigit, UInt32.le_iff_toNat_le] using h
  constructor
  · simp only [isBlank, Sepolicy.isWhitespace, Bool.or_eq_false_iff, Bool.and_eq_false_iff,
      decide_eq_false_iff_not]
    omega
  · rintro rfl
    revert hrange
    decide

lemma Number.word (n : Number) : Word n.text := by
  refine ⟨fun hnil => ?_, fun c hc => (isBlank_of_isDigit (all_eq_true.mp n.digits c hc)).1⟩
  have hparse := n.parse
  rw [hnil] at hparse
  cases hparse

lemma Word.append (hs : Word s) (ht : Word t) : Word (s ++ t) :=
  ⟨by simp [hs.1], fun c hc => (mem_append.mp hc).elim (hs.2 c) (ht.2 c)⟩

lemma Optional.word (o : Optional) : Word o.text := by
  cases o with
  | shared n | master n | propagateFrom n =>
    exact .append ⟨by decide, isBlank_eq_false_of_all (by decide)⟩ n.word
  | unbindable => exact ⟨by decide, isBlank_eq_false_of_all (by decide)⟩

/-- The words of a line are its fields. -/
lemma words_line (hs : Word s) (hfs : ∀ g ∈ fs, Word g) :
    words isBlank [] (s ++ (fs.flatMap (' ' :: ·) ++ ['\n'])) = s :: fs := by
  have hend : isBlank '\n' = true := rfl
  have hblank : isBlank ' ' = true := rfl
  rw [← append_assoc, words_append_sep hend, words_joined hblank hs hfs]
  simp [words]

lemma exists_foldlM_add (os : List Optional) (peers : Peers) :
    ∃ peers', (os.map Optional.text).foldlM Peers.add peers = some peers' := by
  induction os generalizing peers with
  | nil => exact ⟨peers, rfl⟩
  | cons o os ih =>
    have hadd : ∃ peers', peers.add o.text = some peers' := by
      cases o with
      | shared n | master n | propagateFrom n =>
        exact ⟨_, congrArg (Option.map _) n.parse⟩
      | unbindable => exact ⟨_, rfl⟩
    obtain ⟨peers', h⟩ := hadd
    simpa [h] using ih peers'

/-- **A line without empty fields** is read as it is printed. -/
lemma parseMountInfoLine_print (l : Line Chars) (hl : ∀ k, Word (l.text k)) :
    ∃ info, parseMountInfoLine l.print = some info ∧ info.text = l.text := by
  have hdevice : splitOnce ':' (l.major.text ++ ':' :: l.minor.text) =
      some (l.major.text, l.minor.text) := by
    have hne : ∀ c ∈ l.major.text, c ≠ ':' := fun c hc =>
      (isBlank_of_isDigit (all_eq_true.mp l.major.digits c hc)).2
    rw [splitOnce, if_pos (by simp), takeWhile_append_of_pos (by simpa using hne),
      dropWhile_append_of_pos (by simpa using hne)]
    simp
  have hfields : ∀ g ∈ l.fields, Word g := by
    simp only [Line.fields, List.forall_mem_append, List.forall_mem_cons, List.forall_mem_map]
    have hcolon : Word [':'] := ⟨by simp, isBlank_eq_false_of_all (by decide)⟩
    have hdash : Word ['-'] := ⟨by simp, isBlank_eq_false_of_all (by decide)⟩
    exact ⟨⟨l.parent.word, l.major.word.append (hcolon.append l.minor.word), hl _, hl _, hl _,
      by simp⟩, fun o _ => o.word, hdash, hl _, hl _, hl _, by simp⟩
  have hopt : ∀ o ∈ l.optional.map Optional.text, o ≠ ['-'] := by
    simp only [List.forall_mem_map]
    rintro o - h
    cases o with
    | shared n | master n | propagateFrom n => exact absurd (cons.inj h).1 (by decide)
    | unbindable => exact absurd h (by decide)
  obtain ⟨peers, hpeers⟩ := exists_foldlM_add l.optional {}
  rw [parseMountInfoLine, Line.print, words_line l.id.word hfields, Line.fields]
  simp only [cons_append, nil_append]
  rw [takeWhile_append_of_pos (by simpa using hopt),
    dropWhile_append_of_pos (by simpa using hopt)]
  simp only [Number.parse, hdevice, hpeers, bind_eq_bind, bind_some, ne_eq,
    not_true_eq_false, decide_false, Bool.false_eq_true, not_false_eq_true,
    takeWhile_cons_of_neg, dropWhile_cons_of_neg, append_nil]
  exact ⟨_, rfl, funext fun k => by cases k <;> rfl⟩

/-- The texts of a record are words. -/
lemma word_of_parse (h : parseMountInfoLine s = some info) (k : Field) : Word (info.text k) := by
  have hword : ∀ t ∈ words isBlank [] s, Word t := fun t ht => mem_words ht (by simp)
  rw [parseMountInfoLine] at h
  split at h
  · rename_i id parent device root target vfsOption iter hwords
    simp only [bind_eq_bind, bind_eq_some_iff, Prod.exists] at h
    obtain ⟨_, -, _, -, _, _, -, _, -, _, -, peers, -, h⟩ := h
    split at h
    · rename_i hrest
      have hmem : ∀ t ∈ iter.dropWhile (· ≠ ['-']), Word t := fun t ht =>
        hword t (by simp [hwords, (dropWhile_sublist _).subset ht])
      cases h
      rw [hwords] at hword
      rw [hrest] at hmem
      cases k with
      | root | target | vfsOption => exact hword _ (by simp [MountInfo.text])
      | fsType | source | fsOption => exact hmem _ (by simp [MountInfo.text])
    · cases h
  · cases h

end Lines

/-! ### Tables -/

section Tables

variable {s : Chars} {m : Line Name}

lemma length_le_mangle (s : Chars) : s.length ≤ (mangle s).length := by
  induction s with
  | nil => rfl
  | cons c s ih =>
    have hpos : 1 ≤ (escape c).length := by
      unfold escape
      split_ifs <;> simp
    rw [mangle, flatMap_cons, length_append, length_cons]
    rw [mangle] at ih
    omega

lemma mangle_eq_self_iff (hs : ∀ c ∈ s, isBlank c = false) : mangle s = s ↔ '\\' ∉ s := by
  induction s with
  | nil => simp [mangle]
  | cons c s ih =>
    have hc : c ≠ ' ' ∧ c ≠ '\t' ∧ c ≠ '\n' := by
      refine ⟨?_, ?_, ?_⟩ <;> (rintro rfl; exact absurd (hs _ (.head _)) (by decide))
    have hrest := ih fun d hd => hs d (.tail _ hd)
    have hcons : mangle (c :: s) = escape c ++ mangle s := flatMap_cons
    rw [hcons]
    by_cases hslash : c = '\\'
    · subst hslash
      refine ⟨fun h => ?_, fun h => absurd (.head _) h⟩
      have hlen := congrArg List.length h
      have hle := length_le_mangle s
      have hfour : (escape '\\').length = 4 := rfl
      rw [length_append, length_cons] at hlen
      omega
    · simp [escape, hc, hslash, hrest, Ne.symm hslash]

lemma word_mangle (hs : Word s) : Word (mangle s) := by
  refine ⟨fun hnil => hs.1 ?_, fun c hc => ?_⟩
  · have hle := length_le_mangle s
    rw [hnil] at hle
    exact eq_nil_of_length_eq_zero (Nat.le_zero.mp hle)
  · obtain ⟨d, hd, hc⟩ := mem_flatMap.mp hc
    have hescape : ∀ c ∈ escape d, isBlank c = false := by
      unfold escape
      split_ifs
      · exact isBlank_eq_false_of_all (by decide)
      · exact isBlank_eq_false_of_all (by decide)
      · exact isBlank_eq_false_of_all (by decide)
      · exact isBlank_eq_false_of_all (by decide)
      · simpa using hs.2 d hd
    exact hescape c hc

/-- A mount whose names are words is read, as it is printed. -/
lemma parse_showMountinfo {t : Field → Chars} (ht : ∀ k, m.text k = .inl (t k))
    (hword : ∀ k, Word (t k)) :
    ∃ info, (showMountinfo m).bind parseMountInfoLine = some info ∧
      info.text = fun k => mangle (t k) := by
  have hshow : showMountinfo m = some (Line.print { m with text := fun k => mangle (t k) }) := by
    simp [showMountinfo, ht]
  rw [hshow]
  exact parseMountInfoLine_print _ fun k => word_mangle (hword k)

/-- A mount is read correctly exactly if its names are plain. -/
lemma parse_showMountinfo_iff (m : Line Name) :
    (∃ info, (showMountinfo m).bind parseMountInfoLine = some info ∧
      (fun k => Sum.inl (info.text k)) = m.text) ↔ ∀ k, Plain (m.text k) := by
  constructor
  · rintro ⟨info, hinfo, htext⟩ k
    obtain ⟨line, -, hline⟩ := bind_eq_some_iff.mp hinfo
    have hword := word_of_parse hline
    obtain ⟨info', hinfo', hmangled⟩ := parse_showMountinfo (fun k => (congrFun htext k).symm) hword
    cases hinfo.symm.trans hinfo'
    refine ⟨info.text k, (congrFun htext k).symm, hword k, ?_⟩
    exact (mangle_eq_self_iff (hword k).2).mp (congrFun hmangled k).symm
  · intro hplain
    choose t ht hword hslash using hplain
    obtain ⟨info, hinfo, hmangled⟩ := parse_showMountinfo ht hword
    refine ⟨info, hinfo, funext fun k => ?_⟩
    have hself := (mangle_eq_self_iff (hword k).2).mpr (hslash k)
    simp [hmangled, ht, hself]

end Tables

/-- A `tmpfs` with a target and a source. -/
def tmpfsMount (target source : String) : Line Name where
  id := ⟨['1'], rfl, 1, rfl, by decide⟩
  parent := ⟨['1'], rfl, 1, rfl, by decide⟩
  major := ⟨['0'], rfl, 0, rfl, by decide⟩
  minor := ⟨['5'], rfl, 5, rfl, by decide⟩
  optional := []
  text
    | .root => .inl ['/']
    | .target => .inl target.toList
    | .fsType => .inl "tmpfs".toList
    | .source => .inl source.toList
    | .vfsOption | .fsOption => .inl "rw".toList

end Magisk.Base
