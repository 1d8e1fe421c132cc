import Magisk.Boot.Cpio
import Magisk.Lib.OrderedMap

/-!
# Backing up and restoring a ramdisk

`backup` walks over the original and the patched archive side by side, saves what
the patch changed below `.backup/` and lists what it added; `restore` undoes that
through other code.

* `stored`: the name and the entry an entry is saved as;
* `merge_eq`: the walk with put-back is a walk over the join of the two archives;
* `Recoverable`: the saved entries can be told apart and read back;
* `mem_taken`, `flatten_removals`: `restore` reads back what was saved and listed;
* `getElem?_restore_backup`: the archive after both commands, name by name.
-/

namespace Magisk.Boot

open Magisk.Base Magisk.Lib List Option Std

/-! ### What a backup holds -/

section Stored

variable (X : Xz) (skipCompress : Bool)

/-- The name and the entry an entry of the original archive is saved as. -/
def stored (name : Str) (entry : CpioEntry) : Str × CpioEntry :=
  match if skipCompress then none else entry.compress X with
  | some packed => (backupPre ++ name ++ xzExt, packed)
  | none => (backupPre ++ name, entry)

/-- What is saved for a name: nothing if both archives have the same data. -/
def savedOf : Str × Option CpioEntry × Option CpioEntry → Option (Str × CpioEntry)
  | (name, some le, re) =>
    if re.map (·.data) = some le.data then none else some (stored X skipCompress name le)
  | (_, none, _) => none

/-- A name that the patch added. -/
def addedOf : Str × Option CpioEntry × Option CpioEntry → Option Str
  | (name, none, some _) => some name
  | (_, _, _) => none

/-- The list of names `restore` is to remove. -/
def rmText (names : List Str) : Str := names.flatMap fun name => name ++ [0]

lemma Collected.backup_eq (s : Collected) (name : Str) (entry : CpioEntry) :
    s.backup X skipCompress name entry =
      ⟨s.backups.insert (stored X skipCompress name entry).1
        (stored X skipCompress name entry).2, s.rmList⟩ := by
  rw [Collected.backup, stored]
  cases if skipCompress then none else entry.compress X <;> rfl

/-- What the loop of `backup` collects from the join of the two archives. -/
def Collected.join (s : Collected) (j : List (Str × Option CpioEntry × Option CpioEntry)) :
    Collected :=
  ⟨s.backups.insertMany (j.filterMap (savedOf X skipCompress)),
    s.rmList ++ rmText (j.filterMap addedOf)⟩

section Join

variable (s : Collected) (name : Str) (le re : CpioEntry)
  (j : List (Str × Option CpioEntry × Option CpioEntry))

lemma Collected.join_nil : s.join X skipCompress [] = s := by
  rw [Collected.join, filterMap_nil, filterMap_nil, rmText, flatMap_nil,
    append_nil, ExtTreeMap.insertMany_nil]

lemma Collected.join_left : s.join X skipCompress ((name, some le, none) :: j) =
    (s.backup X skipCompress name le).join X skipCompress j := by
  rw [Collected.backup_eq]
  simp only [Collected.join, filterMap_cons, savedOf, addedOf, map_none,
    reduceCtorEq, if_false, insertMany_cons]

lemma Collected.join_right : s.join X skipCompress ((name, none, some re) :: j) =
    (s.record name).join X skipCompress j := by
  simp only [Collected.join, filterMap_cons, savedOf, addedOf, Collected.record, rmText,
    flatMap_cons, append_assoc]

lemma Collected.join_both : s.join X skipCompress ((name, some le, some re) :: j) =
    (if re.data ≠ le.data then s.backup X skipCompress name le else s).join X skipCompress j := by
  rw [Collected.backup_eq]
  simp only [Collected.join, filterMap_cons, savedOf, addedOf, map_some,
    some_inj]
  split_ifs <;> simp_all [insertMany_cons]

end Join

lemma merge_eq (ls rs : List (Str × CpioEntry)) (s : Collected) :
    merge X skipCompress ls rs s = s.join X skipCompress (outerJoin compare ls rs) := by
  fun_induction merge X skipCompress ls rs s with
  | case1 s => rw [outerJoin, Collected.join_nil]
  | case2 ln le ls s ih => rw [ih, outerJoin, Collected.join_left]
  | case3 rn re rs s ih => rw [ih, outerJoin, Collected.join_right]
  | case4 ln le ls rn re rs s hcmp ih => rw [ih, outerJoin, hcmp, Collected.join_left]
  | case5 ln le ls rn re rs s hcmp ih => rw [ih, outerJoin, hcmp, Collected.join_right]
  | case6 ln le ls rn re rs s hcmp ih =>
    rw [dite_eq_ite] at ih
    rw [ih, outerJoin, hcmp, Collected.join_both]

end Stored

/-! ### The two archives -/

/-- The path of the list of names to remove. -/
def rmlistPath : Str := backupPre ++ rmlistName

/-- The path of the configuration, which is never restored. -/
def magiskPath : Str := backupPre ++ magiskName

/-- The names of the backup's own directory. -/
def reserved (name : Str) : Bool := name = backupDir || backupPre.isPrefixOf name

lemma getElem?_rm_backupDir (c : Cpio) (name : Str) :
    (c.rm backupDir true).entries[name]? = if reserved name then none else c.entries[name]? := by
  have hnorm : normPath backupDir = backupDir := by decide
  have hpre : backupDir ++ [slash] = backupPre := by decide
  simp only [Cpio.rm, hnorm, hpre, if_true, ExtTreeMap.getElem?_filter',
    ExtTreeMap.getElem?_erase, reserved, LawfulEqCmp.compare_eq_iff_eq, Bool.or_eq_true,
    decide_eq_true_eq]
  by_cases hdir : backupDir = name
  · rw [if_pos hdir, if_pos (.inl hdir.symm), filter_none]
  · rw [if_neg hdir]
    cases backupPre.isPrefixOf name <;> cases c.entries[name]? <;> simp [Ne.symm hdir]

variable {c : Cpio} {q : Str × CpioEntry} {e : CpioEntry} {names : List Str} {name : Str}

lemma rm_backupDir_eq (h : ∀ name ∈ c.entries, reserved name = false) :
    c.rm backupDir true = c := by
  have hentries : (c.rm backupDir true).entries = c.entries := by
    refine ExtTreeMap.ext_getElem? fun {name} => ?_
    rw [getElem?_rm_backupDir]
    split_ifs with hres
    · refine (ExtTreeMap.getElem?_eq_none fun hmem => ?_).symm
      rw [h name hmem] at hres
      cases hres
    · rfl
  exact congrArg Cpio.mk hentries

/-- The data of a name. -/
def Cpio.data? (c : Cpio) (name : Str) : Option Str := (c.entries[name]?).map (·.data)

/-- The entries that are saved: the patch dropped them or changed their data. -/
def Saved (o p : Cpio) (name : Str) (e : CpioEntry) : Prop :=
  o.entries[name]? = some e ∧ p.data? name ≠ some e.data

/-- The names that the patch added. -/
def Added (o p : Cpio) (name : Str) : Prop := name ∈ p.entries ∧ name ∉ o.entries

section Collect

variable (X : Xz) (skipCompress : Bool) (o p : Cpio)

/-- The two archives, name by name. -/
def joined : List (Str × Option CpioEntry × Option CpioEntry) :=
  outerJoin compare o.entries.toList p.entries.toList

/-- The names in the list of removals. -/
def addedNames : List Str := (joined o p).filterMap addedOf

/-- The entries that `backup` adds to the patched archive. -/
def backupMap : Entries :=
  let backups := ((∅ : Entries).insert backupDir (plainEntry sIfdir [])).insertMany
    ((joined o p).filterMap (savedOf X skipCompress))
  if rmText (addedNames o p) = [] then backups
  else backups.insert rmlistPath (plainEntry sIfreg (rmText (addedNames o p)))

lemma backup_eq (c origin : Cpio) :
    c.backup X skipCompress origin = ⟨(c.rm backupDir true).entries ∪
      backupMap X skipCompress (origin.rm backupDir true) (c.rm backupDir true)⟩ := by
  rw [Cpio.backup, merge_eq]
  rfl

variable {o p}

/-- What is saved. -/
lemma mem_saved :
    q ∈ (joined o p).filterMap (savedOf X skipCompress) ↔
      ∃ name e, Saved o p name e ∧ stored X skipCompress name e = q := by
  rw [mem_filterMap]
  constructor
  · rintro ⟨⟨name, x, y⟩, hmem, hsaved⟩
    obtain ⟨-, hx, hy⟩ := (mem_outerJoin_toList _ _ _ _ _).mp hmem
    cases x with
    | none => cases hsaved
    | some e =>
      rw [savedOf] at hsaved
      split_ifs at hsaved with hdata
      refine ⟨name, e, ⟨hx.symm, ?_⟩, some.inj hsaved⟩
      rw [Cpio.data?, ← hy]
      exact hdata
  · rintro ⟨name, e, ⟨ho, hp⟩, rfl⟩
    refine ⟨(name, some e, p.entries[name]?), ?_, ?_⟩
    · exact (mem_outerJoin_toList _ _ _ _ _).mpr ⟨by simp, ho.symm, rfl⟩
    · exact if_neg hp

/-- What is listed. -/
lemma mem_addedNames : name ∈ addedNames o p ↔ Added o p name := by
  rw [addedNames, mem_filterMap]
  constructor
  · rintro ⟨⟨name', x, y⟩, hmem, hadded⟩
    obtain ⟨-, hx, hy⟩ := (mem_outerJoin_toList _ _ _ _ _).mp hmem
    cases x with
    | some e => cases hadded
    | none =>
      cases y with
      | none => cases hadded
      | some e =>
        cases hadded
        refine ⟨ExtTreeMap.mem_iff_isSome_getElem?.mpr (by rw [← hy]; rfl), fun ho => ?_⟩
        rw [ExtTreeMap.mem_iff_isSome_getElem?, ← hx] at ho
        cases ho
  · rintro ⟨hp, ho⟩
    have hnone : o.entries[name]? = none := ExtTreeMap.getElem?_eq_none ho
    obtain ⟨e, he⟩ := isSome_iff_exists.mp (ExtTreeMap.mem_iff_isSome_getElem?.mp hp)
    refine ⟨(name, none, some e), ?_, rfl⟩
    exact (mem_outerJoin_toList _ _ _ _ _).mpr ⟨by simp, hnone.symm, he.symm⟩

end Collect

/-! ### Archives that can be recovered -/

/-- The saved entries can be told apart and read back: none is stored under the name of
another one, of the list of removals or of the configuration. -/
structure Recoverable (X : Xz) (skipCompress : Bool) (o p : Cpio) : Prop where
  survives : ∀ name e, Saved o p name e →
    (stored X skipCompress name e).1 ≠ rmlistPath ∧ (stored X skipCompress name e).1 ≠ magiskPath ∧
      restoreEntry X (stored X skipCompress name e).1 (stored X skipCompress name e).2 = (name, e)
  separate : ∀ name e name' e', Saved o p name e → Saved o p name' e' →
    (stored X skipCompress name e).1 = (stored X skipCompress name' e').1 → name = name'

section Recover

variable {X : Xz} {skipCompress : Bool} {o p : Cpio}

lemma backupPre_prefix_stored (X : Xz) (skipCompress : Bool) (name : Str) (e : CpioEntry) :
    backupPre <+: (stored X skipCompress name e).1 := by
  rw [stored]
  cases if skipCompress then none else e.compress X with
  | none => exact prefix_append _ _
  | some packed =>
    exact prefix_append _ _

lemma Saved.unique (h : Saved o p name e) (h' : Saved o p name e') :
    e = e' := some.inj (h.1.symm.trans h'.1)

lemma getElem?_backupMap_rmlist (hrec : Recoverable X skipCompress o p) :
    (backupMap X skipCompress o p)[rmlistPath]? =
      if rmText (addedNames o p) = [] then none
      else some (plainEntry sIfreg (rmText (addedNames o p))) := by
  rw [backupMap]
  split_ifs with hrm
  · rw [getElem?_insertMany_of_ne, ExtTreeMap.getElem?_insert, if_neg (by decide),
      ExtTreeMap.getElem?_empty]
    intro q hq
    obtain ⟨name, e, hsaved, rfl⟩ := (mem_saved X skipCompress).mp hq
    exact (hrec.survives name e hsaved).1
  · rw [ExtTreeMap.getElem?_insert_self]

lemma getElem?_backupMap_of_ne (hne : path ≠ rmlistPath) : (backupMap X skipCompress o p)[path]? =
      (((∅ : Entries).insert backupDir (plainEntry sIfdir [])).insertMany
        ((joined o p).filterMap (savedOf X skipCompress)))[path]? := by
  rw [backupMap]
  split_ifs with hrm
  · rfl
  · rw [ExtTreeMap.getElem?_insert, if_neg]
    exact fun heq => hne (LawfulEqCmp.compare_eq_iff_eq.mp heq).symm

lemma getElem?_backupMap_stored (hrec : Recoverable X skipCompress o p)
    (hsaved : Saved o p name e) :
    (backupMap X skipCompress o p)[(stored X skipCompress name e).1]? =
      some (stored X skipCompress name e).2 := by
  rw [getElem?_backupMap_of_ne (hrec.survives name e hsaved).1]
  refine getElem?_insertMany_of_mem ((mem_saved X skipCompress).mpr ⟨name, e, hsaved, rfl⟩) ?_
  intro q hq hpath
  obtain ⟨name', e', hsaved', rfl⟩ := (mem_saved X skipCompress).mp hq
  obtain rfl := hrec.separate _ _ _ _ hsaved' hsaved hpath
  rw [hsaved'.unique hsaved]

/-- The other paths below `.backup/` hold what is saved. -/
lemma getElem?_backupMap_eq_some (hrec : Recoverable X skipCompress o p) {path : Str} (hpre : backupPre <+: path) (hne : path ≠ rmlistPath) :
    (backupMap X skipCompress o p)[path]? = some v ↔
      ∃ name e, Saved o p name e ∧ stored X skipCompress name e = (path, v) := by
  constructor
  · intro hv
    by_contra hno
    have hother : ∀ q ∈ (joined o p).filterMap (savedOf X skipCompress), q.1 ≠ path := by
      rintro q hq rfl
      obtain ⟨name, e, hsaved, rfl⟩ := (mem_saved X skipCompress).mp hq
      rw [getElem?_backupMap_stored hrec hsaved, some_inj] at hv
      exact hno ⟨name, e, hsaved, Prod.ext rfl hv⟩
    have hdir : backupDir ≠ path := by
      rintro rfl
      exact absurd hpre (by decide)
    rw [getElem?_backupMap_of_ne hne, getElem?_insertMany_of_ne hother,
      ExtTreeMap.getElem?_insert,
      if_neg fun heq => hdir (LawfulEqCmp.compare_eq_iff_eq.mp heq),
      ExtTreeMap.getElem?_empty] at hv
    cases hv
  · rintro ⟨name, e, hsaved, hstored⟩
    have hfound := getElem?_backupMap_stored hrec hsaved
    rw [hstored] at hfound
    exact hfound

end Recover

/-! ### Taking the backup out -/

section Extract

variable (X : Xz)

/-- What an entry below `.backup/` is restored as. -/
def takenOf (q : Str × CpioEntry) : Option (Str × CpioEntry) :=
  if q.1 = rmlistPath ∨ q.1 = magiskPath then none else some (restoreEntry X q.1 q.2)

/-- The text of the list of removals. -/
def removalsOf (q : Str × CpioEntry) : Option Str :=
  if q.1 = rmlistPath then if validUtf8 q.2.data then some q.2.data else none else none

lemma Collected.extract_eq (s : Collected) (q : Str × CpioEntry) :
    s.extract X q = ⟨s.backups.insertMany (takenOf X q).toList,
      s.rmList ++ (removalsOf q).toList.flatten⟩ := by
  simp only [Collected.extract, takenOf, removalsOf]
  split_ifs <;> simp_all [rmlistPath, magiskPath, insertMany_cons]

lemma foldl_extract (l : List (Str × CpioEntry)) (s : Collected) :
    l.foldl (Collected.extract X) s = ⟨s.backups.insertMany (l.filterMap (takenOf X)),
      s.rmList ++ (l.filterMap removalsOf).flatten⟩ := by
  induction l generalizing s with
  | nil => simp
  | cons q l ih =>
    rw [foldl_cons, ih, Collected.extract_eq, filterMap_cons, filterMap_cons]
    cases takenOf X q <;> cases removalsOf q <;>
      simp [insertMany_cons]

end Extract

/-- The names of an archive as the reader and the commands make them: normal paths of UTF-8
text without NULs. -/
def NamesOk (c : Cpio) : Prop :=
  ∀ name ∈ c.entries, normPath name = name ∧ 0 ∉ name ∧ validUtf8 name = true

section Taken

variable {X : Xz} {skipCompress : Bool} {o p : Cpio}

/-- The entries below `.backup/` of the archive with its backup. -/
def extracted (X : Xz) (skipCompress : Bool) (o p : Cpio) : List (Str × CpioEntry) :=
  (p.entries ∪ backupMap X skipCompress o p).toList.filter fun q => backupPre.isPrefixOf q.1

/-- They come from the backup. -/
lemma mem_extracted (hp : ∀ name ∈ p.entries, reserved name = false) :
    q ∈ extracted X skipCompress o p ↔
      backupPre <+: q.1 ∧ (backupMap X skipCompress o p)[q.1]? = some q.2 := by
  obtain ⟨path, v⟩ := q
  rw [extracted, mem_filter, ExtTreeMap.mem_toList_iff_getElem?_eq_some,
    ExtTreeMap.getElem?_union, isPrefixOf_iff_prefix, and_comm]
  refine and_congr_right fun hpre => ?_
  have hnone : p.entries[path]? = none := by
    refine ExtTreeMap.getElem?_eq_none fun hmem => ?_
    have hres := hp path hmem
    rw [reserved, isPrefixOf_iff_prefix.mpr hpre, Bool.or_true] at hres
    cases hres
  rw [hnone, or_none]

/-- What is taken out is what was saved. -/
lemma mem_taken (hp : ∀ name ∈ p.entries, reserved name = false)
    (hrec : Recoverable X skipCompress o p) :
    q ∈ (extracted X skipCompress o p).filterMap (takenOf X) ↔ Saved o p q.1 q.2 := by
  rw [mem_filterMap]
  constructor
  · rintro ⟨⟨path, v⟩, hmem, htaken⟩
    obtain ⟨hpre, hv⟩ := (mem_extracted hp).mp hmem
    rw [takenOf] at htaken
    split_ifs at htaken with hspecial
    rw [not_or] at hspecial
    obtain ⟨name, e, hsaved, hstored⟩ := (getElem?_backupMap_eq_some hrec hpre hspecial.1).mp hv
    have hback := (hrec.survives name e hsaved).2.2
    rw [hstored, some.inj htaken] at hback
    rw [hback]
    exact hsaved
  · intro hsaved
    obtain ⟨hrm, hmagisk, hback⟩ := hrec.survives q.1 q.2 hsaved
    refine ⟨stored X skipCompress q.1 q.2, ?_, ?_⟩
    · exact (mem_extracted hp).mpr
        ⟨backupPre_prefix_stored _ _ _ _, getElem?_backupMap_stored hrec hsaved⟩
    · rw [takenOf, if_neg (not_or.mpr ⟨hrm, hmagisk⟩), hback]

lemma validUtf8_rmText (h : ∀ name ∈ names, validUtf8 name = true) :
    validUtf8 (rmText names) = true := by
  induction names with
  | nil => rfl
  | cons name names ih =>
    refine validUtf8_append ?_ (ih fun n hn => h n (.tail _ hn))
    rw [validUtf8_append_right (by decide)]
    exact h name (.head _)

/-- The list of removals is read back. -/
lemma flatten_removals (hp : ∀ name ∈ p.entries, reserved name = false) (hnames : NamesOk p)
    (hrec : Recoverable X skipCompress o p) :
    ((extracted X skipCompress o p).filterMap removalsOf).flatten = rmText (addedNames o p) := by
  have hsorted : SortedKeys compare (extracted X skipCompress o p) :=
    (sortedKeys_toList _).filter _
  have hlookup := getElem?_backupMap_rmlist hrec
  split_ifs at hlookup with hrm
  · have hnone : (extracted X skipCompress o p).filterMap removalsOf = [] := by
      refine filterMap_eq_nil_iff.mpr fun q hq => if_neg fun hpath => ?_
      have hv := ((mem_extracted hp).mp hq).2
      rw [hpath, hlookup] at hv
      cases hv
    rw [hnone, hrm]
    rfl
  · have hmem : (rmlistPath, plainEntry sIfreg (rmText (addedNames o p))) ∈
        extracted X skipCompress o p :=
      (mem_extracted hp).mpr ⟨prefix_append _ _, hlookup⟩
    have hvalid : validUtf8 (rmText (addedNames o p)) = true :=
      validUtf8_rmText fun name hname => (hnames name (mem_addedNames.mp hname).1).2.2
    have hone := hsorted.filterMap_eq hmem fun v => if validUtf8 v.data then some v.data else none
    rw [show (plainEntry sIfreg (rmText (addedNames o p))).data = rmText (addedNames o p) from rfl,
      if_pos hvalid] at hone
    rw [show removalsOf = fun q => if q.1 = rmlistPath then
        (if validUtf8 q.2.data then some q.2.data else none) else none from rfl, hone]
    simp

end Taken

/-! ### The archive after both commands -/

section Restore

variable {X : Xz} {skipCompress : Bool} {o p : Cpio}

lemma rmText_eq_nil : rmText names = [] ↔ names = [] := by
  cases names with
  | nil => exact ⟨fun _ => rfl, fun _ => rfl⟩
  | cons name names => simp [rmText]

lemma splitOn_rmText (h : ∀ name ∈ names, 0 ∉ name) : (rmText names).splitOn 0 = names ++ [[]] := by
  induction names with
  | nil => rfl
  | cons name names ih =>
    have hname := splitOn_append_cons_self_of_not_mem (h name (.head _))
      (rmText names)
    rw [rmText, flatMap_cons, append_assoc]
    exact hname.trans (congrArg _ (ih fun n hn => h n (.tail _ hn)))

lemma pieces_rmText (h : ∀ name ∈ names, 0 ∉ name) :
    ((rmText names).splitOn 0).filter (· ≠ []) = names.filter (· ≠ []) := by
  rw [splitOn_rmText h, filter_append]
  exact append_nil _

/-- Names are removed one after the other. -/
lemma getElem?_foldl_rm (h : ∀ name ∈ names, normPath name = name) (c : Cpio) (k : Str) :
    (names.foldl (fun c name => c.rm name false) c).entries[k]? =
      if k ∈ names then none else c.entries[k]? := by
  induction names generalizing c with
  | nil => rfl
  | cons name names ih =>
    have hrm : (c.rm name false).entries = c.entries.erase name := by
      rw [Cpio.rm, h name mem_cons_self]
      rfl
    rw [foldl_cons, ih (fun n hn => h n (.tail _ hn)), hrm,
      ExtTreeMap.getElem?_erase]
    split_ifs <;> simp_all

lemma getElem?_backupMap_of_not_reserved (h : reserved name = false) :
    (backupMap X skipCompress o p)[name]? = none := by
  rw [reserved, Bool.or_eq_false_iff, decide_eq_false_iff_not, ← Bool.not_eq_true,
    isPrefixOf_iff_prefix] at h
  have hrm : name ≠ rmlistPath := fun heq => h.2 (heq ▸ prefix_append _ _)
  rw [getElem?_backupMap_of_ne hrm, getElem?_insertMany_of_ne, ExtTreeMap.getElem?_insert,
    if_neg fun heq => h.1 (LawfulEqCmp.compare_eq_iff_eq.mp heq).symm,
    ExtTreeMap.getElem?_empty]
  rintro q hq rfl
  obtain ⟨name, e, -, rfl⟩ := (mem_saved X skipCompress).mp hq
  exact h.2 (backupPre_prefix_stored _ _ _ _)

/-- The archive without its backup is the patched one. -/
lemma getElem?_without_backup (hp : ∀ name ∈ p.entries, reserved name = false) (name : Str) :
    ((⟨(p.entries ∪ backupMap X skipCompress o p).filter fun name _ =>
      !backupPre.isPrefixOf name⟩ : Cpio).rm backupDir false).entries[name]? =
        p.entries[name]? := by
  have hnorm : normPath backupDir = backupDir := by decide
  rw [Cpio.rm, hnorm]
  simp only [Bool.false_eq_true, if_false, ExtTreeMap.getElem?_erase,
    ExtTreeMap.getElem?_filter', ExtTreeMap.getElem?_union,
    LawfulEqCmp.compare_eq_iff_eq]
  cases hres : reserved name with
  | false =>
    rw [getElem?_backupMap_of_not_reserved hres]
    rw [reserved, Bool.or_eq_false_iff, decide_eq_false_iff_not] at hres
    rw [if_neg fun heq => hres.1 heq.symm, hres.2]
    cases p.entries[name]? <;> rfl
  | true =>
    have hnone : p.entries[name]? = none := by
      refine ExtTreeMap.getElem?_eq_none fun hmem => ?_
      rw [hp name hmem] at hres
      cases hres
    rw [reserved, Bool.or_eq_true, decide_eq_true_eq] at hres
    rcases hres with rfl | hpre
    · rw [if_pos rfl, hnone]
    · rw [hpre, hnone]
      simp

/-- The archives differ in a name or in the data of an entry. -/
def Differ (o p : Cpio) : Prop := ∃ name, o.data? name ≠ p.data? name

lemma data?_eq_some (h : c.entries[name]? = some e) : c.data? name = some e.data := by
  rw [Cpio.data?, h]
  rfl

lemma data?_eq_none : c.data? name = none ↔ name ∉ c.entries := by
  rw [Cpio.data?, map_eq_none_iff, ExtTreeMap.mem_iff_isSome_getElem?,
    not_isSome_iff_eq_none]

/-- The archives differ if something is saved or listed. -/
lemma differ_iff : Differ o p ↔ (∃ name e, Saved o p name e) ∨ ∃ name, Added o p name := by
  constructor
  · rintro ⟨name, hne⟩
    cases ho : o.entries[name]? with
    | some e => exact .inl ⟨name, e, ho, fun hp => hne ((data?_eq_some ho).trans hp.symm)⟩
    | none =>
      have hnot : o.data? name = none := by rw [Cpio.data?, ho]; rfl
      refine .inr ⟨name, ?_, data?_eq_none.mp hnot⟩
      by_contra hp
      exact hne (hnot.trans (data?_eq_none.mpr hp).symm)
  · rintro (⟨name, e, ho, hne⟩ | ⟨name, hp, ho⟩)
    · exact ⟨name, fun heq => hne (heq.symm.trans (data?_eq_some ho))⟩
    · refine ⟨name, fun heq => ?_⟩
      rw [data?_eq_none.mpr ho, eq_comm, data?_eq_none] at heq
      exact heq hp

/-- The entries that `restore` puts back. -/
def takenMap (X : Xz) (skipCompress : Bool) (o p : Cpio) : Entries :=
  (∅ : Entries).insertMany ((extracted X skipCompress o p).filterMap (takenOf X))

section

variable (hp : ∀ name ∈ p.entries, reserved name = false)
  (hrec : Recoverable X skipCompress o p)

include hp hrec

lemma getElem?_takenMap_of_saved (h : Saved o p name e) :
    (takenMap X skipCompress o p)[name]? = some e := by
  refine getElem?_insertMany_of_mem ((mem_taken hp hrec).mpr h) ?_
  rintro q hq rfl
  exact ((mem_taken hp hrec).mp hq).unique h

lemma getElem?_takenMap_of_not_saved (h : ∀ e, ¬ Saved o p name e) :
    (takenMap X skipCompress o p)[name]? = none := by
  rw [takenMap, getElem?_insertMany_of_ne, ExtTreeMap.getElem?_empty]
  rintro q hq rfl
  exact h q.2 ((mem_taken hp hrec).mp hq)

end

variable (hp : ∀ name ∈ p.entries, reserved name = false) (hnames : NamesOk p)
  (hrec : Recoverable X skipCompress o p)

include hp hnames hrec

/-- `restore` on an archive with its backup. -/
lemma restore_eq :
    (⟨p.entries ∪ backupMap X skipCompress o p⟩ : Cpio).restore X =
      if addedNames o p = [] ∧ takenMap X skipCompress o p = ∅ then ⟨∅⟩
      else ⟨(((addedNames o p).filter (· ≠ [])).foldl (fun c name => c.rm name false)
        ((⟨(p.entries ∪ backupMap X skipCompress o p).filter fun name _ =>
          !backupPre.isPrefixOf name⟩ : Cpio).rm backupDir false)).entries ∪
            takenMap X skipCompress o p⟩ := by
  have hnul : ∀ name ∈ addedNames o p, 0 ∉ name :=
    fun name hname => (hnames name (mem_addedNames.mp hname).1).2.1
  have hloop := foldl_extract X (extracted X skipCompress o p) ⟨∅, []⟩
  rw [flatten_removals hp hnames hrec, nil_append] at hloop
  simp only [Cpio.restore]
  rw [show ((p.entries ∪ backupMap X skipCompress o p).toList.filter
    fun q => backupPre.isPrefixOf q.1) = extracted X skipCompress o p from rfl, hloop,
    pieces_rmText hnul]
  simp only [Bool.and_eq_true, decide_eq_true_eq, rmText_eq_nil, ExtTreeMap.isEmpty_iff]
  rfl

lemma restore_of_not_differ (h : ¬ Differ o p) :
    (⟨p.entries ∪ backupMap X skipCompress o p⟩ : Cpio).restore X = ⟨∅⟩ := by
  rw [differ_iff, not_or, not_exists, not_exists] at h
  have hadded : addedNames o p = [] :=
    eq_nil_iff_forall_not_mem.mpr fun name hname => h.2 name (mem_addedNames.mp hname)
  have htaken : takenMap X skipCompress o p = ∅ := by
    refine ExtTreeMap.ext_getElem? fun {name} => ?_
    exact getElem?_takenMap_of_not_saved hp hrec fun e he => h.1 name ⟨e, he⟩
  rw [restore_eq hp hnames hrec, if_pos ⟨hadded, htaken⟩]

/-- The archive after both commands, name by name. -/
lemma getElem?_restore_backup (h : Differ o p) (name : Str) :
    ((⟨p.entries ∪ backupMap X skipCompress o p⟩ : Cpio).restore X).entries[name]? =
      ((takenMap X skipCompress o p)[name]?).or
        (if name ∈ addedNames o p ∧ name ≠ [] then none else p.entries[name]?) := by
  have hsome : ¬ (addedNames o p = [] ∧ takenMap X skipCompress o p = ∅) := by
    rintro ⟨hadded, htaken⟩
    rcases differ_iff.mp h with ⟨name, e, hsaved⟩ | ⟨name, hname⟩
    · have hfound := getElem?_takenMap_of_saved hp hrec hsaved
      rw [htaken] at hfound
      cases hfound
    · rw [← mem_addedNames, hadded] at hname
      exact absurd hname not_mem_nil
  have hnorm : ∀ name ∈ (addedNames o p).filter (· ≠ []), normPath name = name :=
    fun name hname => (hnames name (mem_addedNames.mp (mem_of_mem_filter hname)).1).1
  rw [restore_eq hp hnames hrec, if_neg hsome, ExtTreeMap.getElem?_union,
    getElem?_foldl_rm hnorm, getElem?_without_backup hp]
  simp

lemma getElem?_restore_of_saved (h : Saved o p name e) :
    ((⟨p.entries ∪ backupMap X skipCompress o p⟩ : Cpio).restore X).entries[name]? = some e := by
  rw [getElem?_restore_backup hp hnames hrec (differ_iff.mpr (.inl ⟨name, e, h⟩)),
    getElem?_takenMap_of_saved hp hrec h, some_or]

lemma getElem?_restore_of_same (h : Differ o p) (hmem : name ∈ o.entries)
    (hsame : p.data? name = o.data? name) :
    ((⟨p.entries ∪ backupMap X skipCompress o p⟩ : Cpio).restore X).entries[name]? =
      p.entries[name]? := by
  have hsaved : ∀ e, ¬ Saved o p name e :=
    fun e he => he.2 (hsame.trans (data?_eq_some he.1))
  have hadded : name ∉ addedNames o p := fun hname => (mem_addedNames.mp hname).2 hmem
  rw [getElem?_restore_backup hp hnames hrec h, getElem?_takenMap_of_not_saved hp hrec hsaved,
    none_or, if_neg fun hname => hadded hname.1]

/-- A name that is not of the original archive is gone, unless it is empty. -/
lemma getElem?_restore_of_not_mem (h : Differ o p) (hmem : name ∉ o.entries) :
    ((⟨p.entries ∪ backupMap X skipCompress o p⟩ : Cpio).restore X).entries[name]? =
      if name = [] then p.entries[name]? else none := by
  have hsaved : ∀ e, ¬ Saved o p name e := by
    intro e he
    exact hmem (ExtTreeMap.mem_iff_isSome_getElem?.mpr (by rw [he.1]; rfl))
  rw [getElem?_restore_backup hp hnames hrec h, getElem?_takenMap_of_not_saved hp hrec hsaved,
    none_or]
  split_ifs with hadded hempty hempty
  · exact absurd hempty hadded.2
  · rfl
  · rfl
  · refine ExtTreeMap.getElem?_eq_none fun hpmem => hadded ⟨?_, hempty⟩
    exact mem_addedNames.mpr ⟨hpmem, hmem⟩

end Restore

end Magisk.Boot
