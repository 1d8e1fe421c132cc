import Magisk.Boot.CpioRestore

/-!
# The names of a backup

An entry is saved below `.backup/` under its own name, with an extension if it was compressed.
`restore` tells the two apart by the name and by whether the data can be decompressed.

* `Unambiguous`: no two entries are saved under one name or under that of a list, and each is
  restored;
* `unambiguous_iff`: when this is so;
* `Described`: the archive with its backup, entry by entry;
* `described_iff`: when it is as described.
-/

namespace Magisk.Boot

open Magisk.Base Magisk.Lib List Option Std ExtTreeMap

/-! ### Telling the saved entries apart -/

section Names

variable {X : Xz} {skipCompress : Bool} {o p : Cpio} {name name' : Str} {e e' : CpioEntry}

/-- Is the entry saved in compressed form? -/
def packs (X : Xz) (skipCompress : Bool) (e : CpioEntry) : Bool :=
  !skipCompress && (e.compress X).isSome

/-- The name of an entry in the backup. -/
def backupKey (X : Xz) (skipCompress : Bool) (name : Str) (e : CpioEntry) : Str :=
  (stored X skipCompress name e).1

/-- `backup` saves the entry. -/
def BackedUp (o p : Cpio) (name : Str) (e : CpioEntry) : Prop :=
  Saved (o.rm backupDir true) (p.rm backupDir true) name e

/-- The backup of `o` in `p` is unambiguous: the entries that are saved have different names in
the backup, other than those of the lists, and each is restored under its name and with its
data. -/
structure Unambiguous (X : Xz) (skipCompress : Bool) (o p : Cpio) : Prop where
  distinct : ∀ name e name' e', BackedUp o p name e → BackedUp o p name' e' →
    backupKey X skipCompress name e = backupKey X skipCompress name' e' → name = name'
  special : ∀ name e, BackedUp o p name e →
    backupKey X skipCompress name e ≠ rmlistPath ∧ backupKey X skipCompress name e ≠ magiskPath
  mapped : ∀ name e, BackedUp o p name e →
    ∃ e', restoreEntry X (backupKey X skipCompress name e) (stored X skipCompress name e).2 =
      (name, e') ∧ e'.data = e.data
  restored : ∀ name e, BackedUp o p name e →
    ((p.backup X skipCompress o).restore X).data? name = some e.data

/-- Nothing is in the way of that: a file that is not compressed has no name of a list and
cannot be taken for a compressed one, neither by its data nor instead of another entry. -/
structure NamesApart (X : Xz) (skipCompress : Bool) (o p : Cpio) : Prop where
  lists : ∀ name e, BackedUp o p name e → packs X skipCompress e = false →
    name ≠ rmlistName ∧ name ≠ magiskName
  undecodable : ∀ name e, BackedUp o p (name ++ xzExt) e → packs X skipCompress e = false →
    e.decompress X = none
  apart : ∀ name e e', BackedUp o p name e → packs X skipCompress e = true →
    BackedUp o p (name ++ xzExt) e' → packs X skipCompress e' = true

lemma stored_of_packs (h : packs X skipCompress e = true) (name : Str) :
    ∃ packed, packed.decompress X = some e ∧
      stored X skipCompress name e = (backupPre ++ name ++ xzExt, packed) := by
  rw [packs, Bool.and_eq_true, Bool.not_eq_true'] at h
  obtain ⟨packed, hpacked⟩ := isSome_iff_exists.mp h.2
  refine ⟨packed, decompress_compress hpacked, ?_⟩
  rw [stored, h.1, hpacked]
  rfl

lemma stored_of_not_packs (h : packs X skipCompress e = false) (name : Str) :
    stored X skipCompress name e = (backupPre ++ name, e) := by
  rw [packs] at h
  rw [stored]
  cases skipCompress with
  | true => rfl
  | false =>
    have hnone : e.compress X = none := by simpa using h
    rw [hnone]
    rfl

lemma xzExt_append_ne (name : Str) :
    backupPre ++ name ++ xzExt ≠ rmlistPath ∧ backupPre ++ name ++ xzExt ≠ magiskPath := by
  constructor <;>
  · intro heq
    have hlast := congrArg List.getLast? heq
    rw [getLast?_append_of_ne_nil _ (by decide)] at hlast
    exact absurd hlast (by decide)

lemma restoreEntry_of_decompress (h : e.decompress X = some e') (name : Str) :
    restoreEntry X (backupPre ++ (name ++ xzExt)) e = (name, e') := by
  exact restoreEntry_packed h name

lemma restoreEntry_of_decompress_none (h : e.decompress X = none) (name : Str) :
    restoreEntry X (backupPre ++ name) e = (name, e) := by
  have hdrop : (backupPre ++ name).drop 8 = name := drop_left' (by decide)
  rw [restoreEntry, h, ite_self, hdrop]

lemma exists_of_xzExt_suffix (h : xzExt <:+ name) : ∃ base, name = base ++ xzExt := by
  obtain ⟨base, hbase⟩ := h
  exact ⟨base, hbase.symm⟩

/-- Names that are apart can be recovered. -/
lemma NamesApart.recoverable (h : NamesApart X skipCompress o p) :
    Recoverable X skipCompress (o.rm backupDir true) (p.rm backupDir true) := by
  refine ⟨fun name e hsaved => ?_, fun name e name' e' hsaved hsaved' hpath => ?_⟩
  · cases hpack : packs X skipCompress e with
    | true =>
      obtain ⟨packed, hpacked, hstored⟩ := stored_of_packs hpack name
      rw [hstored]
      exact ⟨(xzExt_append_ne name).1, (xzExt_append_ne name).2, restoreEntry_packed hpacked name⟩
    | false =>
      obtain ⟨hrm, hmagisk⟩ := h.lists name e hsaved hpack
      rw [stored_of_not_packs hpack]
      refine ⟨fun heq => hrm (append_cancel_left heq),
        fun heq => hmagisk (append_cancel_left heq), ?_⟩
      by_cases hext : xzExt <:+ name
      · obtain ⟨base, rfl⟩ := exists_of_xzExt_suffix hext
        exact restoreEntry_of_decompress_none (h.undecodable base e hsaved hpack) _
      · exact restoreEntry_plain hext
  · cases hpack : packs X skipCompress e <;> cases hpack' : packs X skipCompress e'
    · rw [stored_of_not_packs hpack, stored_of_not_packs hpack'] at hpath
      exact append_cancel_left hpath
    · obtain ⟨packed, -, hstored⟩ := stored_of_packs hpack' name'
      rw [stored_of_not_packs hpack, hstored] at hpath
      obtain rfl := append_cancel_left hpath
      rw [h.apart name' e' e hsaved' hpack' hsaved] at hpack
      cases hpack
    · obtain ⟨packed, -, hstored⟩ := stored_of_packs hpack name
      rw [stored_of_not_packs hpack', hstored, append_assoc] at hpath
      obtain rfl := append_cancel_left hpath
      rw [h.apart name e e' hsaved hpack hsaved'] at hpack'
      cases hpack'
    · obtain ⟨packed, -, hstored⟩ := stored_of_packs hpack name
      obtain ⟨packed', -, hstored'⟩ := stored_of_packs hpack' name'
      rw [hstored, hstored'] at hpath
      exact append_cancel_left (append_cancel_right hpath)

lemma outside_rm (c : Cpio) : ∀ name ∈ (c.rm backupDir true).entries, reserved name = false :=
  fun _ hname => (mem_rm_backupDir.mp hname).2

/-- What is saved is restored, whatever names the patched archive has. -/
lemma data?_restore_of_backedUp
    (hrec : Recoverable X skipCompress (o.rm backupDir true) (p.rm backupDir true))
    (h : BackedUp o p name e) :
    ((p.backup X skipCompress o).restore X).data? name = some e.data := by
  have htaken := getElem?_takenMap_of_saved (outside_rm p) hrec h
  have hloop := foldl_extract X
  have hbackups : takenMap X skipCompress (o.rm backupDir true) (p.rm backupDir true) ≠ ∅ := by
    intro hempty
    rw [hempty] at htaken
    cases htaken
  rw [backup_eq, Cpio.data?]
  simp only [Cpio.restore]
  rw [← extracted, hloop, ← takenMap]
  simp only [Bool.and_eq_true, ExtTreeMap.isEmpty_iff]
  rw [if_neg fun hnone => hbackups hnone.2, getElem?_union, htaken]
  rfl

/-- **The names of a backup are unambiguous** exactly if the names that are saved are apart. -/
theorem unambiguous_iff (X : Xz) (skipCompress : Bool) (o p : Cpio) :
    Unambiguous X skipCompress o p ↔ NamesApart X skipCompress o p := by
  constructor
  · intro h
    have hlen : ∀ base : Str, base ≠ base ++ xzExt := by
      intro base heq
      have hxz : xzExt = [] := append_right_eq_self.mp heq.symm
      exact absurd hxz (by decide)
    refine ⟨fun name e hsaved hpack => ?_, fun name e hsaved hpack => ?_,
      fun name e e' hsaved hpack hsaved' => ?_⟩
    · obtain ⟨hrm, hmagisk⟩ := h.special name e hsaved
      rw [backupKey, stored_of_not_packs hpack] at hrm hmagisk
      exact ⟨fun heq => hrm (heq ▸ rfl), fun heq => hmagisk (heq ▸ rfl)⟩
    · obtain ⟨e', hmapped, -⟩ := h.mapped _ e hsaved
      rw [backupKey, stored_of_not_packs hpack] at hmapped
      cases hdecode : e.decompress X with
      | none => rfl
      | some e'' =>
        rw [restoreEntry_of_decompress hdecode] at hmapped
        exact absurd (Prod.mk.inj hmapped).1 (hlen name)
    · by_contra hpack'
      rw [Bool.not_eq_true] at hpack'
      obtain ⟨packed, -, hstored⟩ := stored_of_packs hpack name
      refine hlen name (h.distinct name e _ e' hsaved hsaved' ?_)
      rw [backupKey, backupKey, hstored, stored_of_not_packs hpack', append_assoc]
  · intro h
    have hrec := h.recoverable
    refine ⟨hrec.separate, fun name e hsaved => ?_, fun name e hsaved => ?_,
      fun name e hsaved => ?_⟩
    · exact ⟨(hrec.survives name e hsaved).1, (hrec.survives name e hsaved).2.1⟩
    · exact ⟨e, (hrec.survives name e hsaved).2.2, rfl⟩
    · exact data?_restore_of_backedUp hrec hsaved

/-- An archive with a file `a` and a link `a.xz`. -/
def fileAndLink : Cpio :=
  ⟨((∅ : Entries).insert (str "a") (plainEntry sIfreg [1])).insert (str "a.xz")
    (plainEntry 0o120777 (str "b"))⟩

lemma getElem?_fileAndLink (name : Str) : (fileAndLink.rm backupDir true).entries[name]? =
    if reserved name then none
    else if str "a.xz" = name then some (plainEntry 0o120777 (str "b"))
    else if str "a" = name then some (plainEntry sIfreg [1]) else none := by
  rw [getElem?_rm_backupDir, fileAndLink, ExtTreeMap.getElem?_insert,
    ExtTreeMap.getElem?_insert, ExtTreeMap.getElem?_empty]
  simp

lemma backedUp_empty (h : (o.rm backupDir true).entries[name]? = some e) :
    BackedUp o ⟨∅⟩ name e := by
  refine ⟨h, ?_⟩
  exact some_ne_none _ ∘ Eq.symm

/-- Both are saved under one name. -/
theorem file_and_link_clash :
    BackedUp fileAndLink ⟨∅⟩ (str "a") (plainEntry sIfreg [1]) ∧
      BackedUp fileAndLink ⟨∅⟩ (str "a.xz") (plainEntry 0o120777 (str "b")) ∧
      backupKey storeXz false (str "a") (plainEntry sIfreg [1]) =
        backupKey storeXz false (str "a.xz") (plainEntry 0o120777 (str "b")) ∧
      ¬ Unambiguous storeXz false fileAndLink ⟨∅⟩ := by
  have hfile : BackedUp fileAndLink ⟨∅⟩ (str "a") (plainEntry sIfreg [1]) := by
    refine backedUp_empty ?_
    rw [getElem?_fileAndLink, if_neg (by decide), if_neg (by decide), if_pos rfl]
  have hlink : BackedUp fileAndLink ⟨∅⟩ (str "a.xz") (plainEntry 0o120777 (str "b")) := by
    refine backedUp_empty ?_
    rw [getElem?_fileAndLink, if_neg (by decide), if_pos rfl]
  have hkey : backupKey storeXz false (str "a") (plainEntry sIfreg [1]) =
      backupKey storeXz false (str "a.xz") (plainEntry 0o120777 (str "b")) := by decide
  exact ⟨hfile, hlink, hkey, fun h =>
    absurd (h.distinct _ _ _ _ hfile hlink hkey) (by decide)⟩

end Names

/-! ### The archive with its backup -/

section Described

variable {X : Xz} {o p : Cpio} {name path : Str} {e : CpioEntry}

/-- The names of `p` that `o` does not have, in ascending order. -/
def newNames (o p : Cpio) : List Str := p.entries.keys.filter fun name => name ∉ o.entries

/-- An archive that is `p` with a backup of `o`: the entries of `p`, the directory `.backup`, in
it the entries that `p` lacks or whose data it changed, and the list of names that it added, if
there are any. -/
def Described (c o p : Cpio) : Prop :=
  ∀ path e, c.entries[path]? = some e ↔
    p.entries[path]? = some e ∨
    (path = backupDir ∧ e = plainEntry sIfdir []) ∨
    (∃ name, path = backupPre ++ name ∧ Saved o p name e) ∨
    (newNames o p ≠ [] ∧ path = rmlistPath ∧ e = plainEntry sIfreg (rmText (newNames o p)))

lemma mem_newNames : name ∈ newNames o p ↔ Added o p name := by
  rw [newNames, List.mem_filter, ExtTreeMap.mem_keys, decide_eq_true_eq, Added]

/-- `backup` lists them in ascending order. -/
lemma addedNames_eq (o p : Cpio) : addedNames o p = newNames o p := by
  have hsorted : (addedNames o p).Pairwise fun a b => compare a b = .lt := by
    refine (sortedKeys_outerJoin (sortedKeys_toList o.entries)
      (sortedKeys_toList p.entries)).filterMap addedOf ?_
    rintro ⟨k, x, y⟩ ⟨k', x', y'⟩ hlt name hname name' hname'
    cases x <;> cases y <;> cases x' <;> cases y' <;> cases hname <;> cases hname'
    exact hlt
  have hsorted' : (newNames o p).Pairwise fun a b => compare a b = .lt :=
    ordered_keys.filter _
  have hirrefl : ∀ {a b : Str}, compare a b = .lt → a ≠ b := by
    rintro a b hlt rfl
    exact absurd (hlt.symm.trans ReflCmp.compare_self) (by decide)
  have hperm : (addedNames o p).Perm (newNames o p) := by
    refine (perm_ext_iff_of_nodup (hsorted.imp hirrefl) (hsorted'.imp hirrefl)).mpr ?_
    exact fun name => mem_addedNames.trans mem_newNames.symm
  refine hperm.eq_of_pairwise (fun a b _ _ hab hba => ?_) hsorted hsorted'
  exact absurd (hba.symm.trans (OrientedCmp.gt_iff_lt.mpr hab)) (by decide)

lemma mem_saved_plain : q ∈ (joined o p).filterMap (savedOf X true) ↔
      ∃ name, q.1 = backupPre ++ name ∧ Saved o p name q.2 := by
  rw [mem_saved]
  constructor
  · rintro ⟨name, e, hsaved, rfl⟩
    exact ⟨name, rfl, hsaved⟩
  · rintro ⟨name, hpath, hsaved⟩
    exact ⟨name, q.2, hsaved, Prod.ext hpath.symm rfl⟩

/-- The entries that are collected for the backup, without the list. -/
lemma getElem?_collected :
    ((((∅ : Entries).insert backupDir (plainEntry sIfdir [])).insertMany
      ((joined o p).filterMap (savedOf X true)))[path]? = some e) ↔
      (path = backupDir ∧ e = plainEntry sIfdir []) ∨
        ∃ name, path = backupPre ++ name ∧ Saved o p name e := by
  by_cases hmem : ∃ q ∈ (joined o p).filterMap (savedOf X true), q.1 = path
  · obtain ⟨q, hq, rfl⟩ := hmem
    obtain ⟨name, hpath, hsaved⟩ := mem_saved_plain.mp hq
    have hdir : q.1 ≠ backupDir := by
      intro heq
      have hlen := congrArg List.length (hpath.symm.trans heq)
      rw [length_append, show backupPre.length = 8 by decide,
        show backupDir.length = 7 by decide] at hlen
      omega
    rw [getElem?_insertMany_of_mem (v := q.2) hq, some_inj]
    · constructor
      · rintro rfl
        exact .inr ⟨name, hpath, hsaved⟩
      · rintro (⟨heq, -⟩ | ⟨name', hpath', hsaved'⟩)
        · exact absurd heq hdir
        · obtain rfl := append_cancel_left (hpath.symm.trans hpath')
          exact hsaved.unique hsaved'
    · intro q' hq' heq
      obtain ⟨name', hpath', hsaved'⟩ := mem_saved_plain.mp hq'
      obtain rfl := append_cancel_left (hpath.symm.trans (heq ▸ hpath'))
      exact hsaved'.unique hsaved
  · push Not at hmem
    rw [getElem?_insertMany_of_ne hmem, ExtTreeMap.getElem?_insert,
      getElem?_empty]
    simp only [LawfulEqCmp.compare_eq_iff_eq]
    have hsaved : ¬ ∃ name, path = backupPre ++ name ∧ Saved o p name e := by
      rintro ⟨name, hpath, hsaved⟩
      exact hmem (path, e) (mem_saved_plain.mpr ⟨name, hpath, hsaved⟩) rfl
    rw [or_iff_left hsaved]
    by_cases hdir : backupDir = path
    · rw [if_pos hdir, some_inj, and_iff_right hdir.symm, eq_comm]
    · rw [if_neg hdir]
      exact ⟨nofun, fun h => absurd h.1.symm hdir⟩

/-- The entries of the backup.  The list takes the place of an entry of its name. -/
lemma getElem?_backupMap_plain :
    (backupMap X true o p)[path]? = some e ↔
      if newNames o p ≠ [] ∧ path = rmlistPath then e = plainEntry sIfreg (rmText (newNames o p))
      else (path = backupDir ∧ e = plainEntry sIfdir []) ∨
        ∃ name, path = backupPre ++ name ∧ Saved o p name e := by
  rw [backupMap, addedNames_eq]
  simp only [rmText_eq_nil]
  by_cases hnew : newNames o p = []
  · rw [if_pos hnew, if_neg fun h => h.1 hnew]
    exact getElem?_collected
  · rw [if_neg hnew, ExtTreeMap.getElem?_insert]
    simp only [LawfulEqCmp.compare_eq_iff_eq]
    by_cases hpath : path = rmlistPath
    · rw [if_pos hpath.symm, if_pos ⟨hnew, hpath⟩, some_inj, eq_comm]
    · rw [if_neg fun h => hpath h.symm, if_neg fun h => hpath h.2]
      exact getElem?_collected

section

variable (ho : ∀ name ∈ o.entries, reserved name = false)
  (hp : ∀ name ∈ p.entries, reserved name = false)

include ho hp

/-- The archive with its backup has what is in the backup, and what is in the archive. -/
lemma getElem?_backup :
    (p.backup X true o).entries[path]? = some e ↔
      (backupMap X true o p)[path]? = some e ∨ p.entries[path]? = some e := by
  rw [backup_eq_of_outside X true ho hp, getElem?_union]
  cases hres : reserved path with
  | false => rw [getElem?_backupMap_of_not_reserved hres, none_or, or_iff_right nofun]
  | true =>
    have hnone : p.entries[path]? = none := by
      refine getElem?_eq_none fun hmem => ?_
      rw [hp path hmem] at hres
      cases hres
    rw [hnone, or_none, or_iff_left nofun]

lemma Described.eq_list (h : Described (p.backup X true o) o p)
    (hsaved : Saved o p rmlistName e) (hnew : newNames o p ≠ []) :
    e = plainEntry sIfreg (rmText (newNames o p)) := by
  have hmem := (h rmlistPath e).mpr (.inr (.inr (.inl ⟨rmlistName, rfl, hsaved⟩)))
  have hnone : p.entries[rmlistPath]? = none := by
    refine getElem?_eq_none fun hmem => ?_
    exact absurd (hp _ hmem) (by decide)
  rw [getElem?_backup ho hp, hnone, or_iff_left nofun, getElem?_backupMap_plain,
    if_pos ⟨hnew, rfl⟩] at hmem
  exact hmem

end

/-- **The archive with its backup is as described**, for archives without a backup of their
own, exactly if the list of new names does not take the place of an entry with its name. -/
theorem described_iff (X : Xz) (o p : Cpio) (ho : ∀ name ∈ o.entries, reserved name = false)
    (hp : ∀ name ∈ p.entries, reserved name = false) :
    Described (p.backup X true o) o p ↔
      ∀ e, Saved o p rmlistName e → newNames o p ≠ [] →
        e = plainEntry sIfreg (rmText (newNames o p)) := by
  refine ⟨fun h e => h.eq_list ho hp, fun h path e => ?_⟩
  rw [getElem?_backup ho hp, getElem?_backupMap_plain, or_comm]
  refine or_congr_right ?_
  by_cases hlist : newNames o p ≠ [] ∧ path = rmlistPath
  · obtain ⟨hnew, rfl⟩ := hlist
    rw [if_pos ⟨hnew, rfl⟩]
    constructor
    · exact fun he => .inr (.inr ⟨hnew, rfl, he⟩)
    · rintro (⟨hdir, -⟩ | ⟨name, hpath, hsaved⟩ | ⟨-, -, he⟩)
      · exact absurd hdir (by decide)
      · obtain rfl := append_cancel_left hpath
        exact h e hsaved hnew
      · exact he
  · rw [if_neg hlist]
    constructor
    · rintro (hdir | hsaved)
      · exact .inl hdir
      · exact .inr (.inl hsaved)
    · rintro (hdir | hsaved | ⟨hnew, hpath, -⟩)
      · exact .inl hdir
      · exact .inr hsaved
      · exact absurd ⟨hnew, hpath⟩ hlist

/-- The patch of an ordinary archive is backed up as described. -/
theorem stock_described :
    (∀ name ∈ stock.entries, reserved name = false) ∧
      (∀ name ∈ patched.entries, reserved name = false) ∧
      Described (patched.backup storeXz true stock) stock patched := by
  refine ⟨ordinary_stock.outside, ordinary_patched.outside,
    (described_iff storeXz stock patched ordinary_stock.outside ordinary_patched.outside).mpr ?_⟩
  rintro e ⟨hstock, -⟩ -
  cases hstock

/-- An archive that has a file of the list's name, and one that has another file instead. -/
def withRmlist : Cpio := initWith (plainEntry sIfreg [1]) rmlistName (plainEntry sIfreg [2])

/-- The patch removes the file and adds another one. -/
def withoutRmlist : Cpio := initWith (plainEntry sIfreg [1]) (str "su") (plainEntry sIfreg [3])

/-- The list of new names takes the place of the file, which is lost. -/
theorem rmlist_overwritten :
    (∀ name ∈ withRmlist.entries, reserved name = false) ∧
      (∀ name ∈ withoutRmlist.entries, reserved name = false) ∧
      Saved withRmlist withoutRmlist rmlistName (plainEntry sIfreg [2]) ∧
      (withoutRmlist.backup storeXz true withRmlist).entries[rmlistPath]? ≠
        some (plainEntry sIfreg [2]) ∧
      ¬ Described (withoutRmlist.backup storeXz true withRmlist) withRmlist withoutRmlist := by
  have ho : ∀ name ∈ withRmlist.entries, reserved name = false := by
    intro name hname
    rcases mem_initWith.mp hname with rfl | rfl <;> decide
  have hp : ∀ name ∈ withoutRmlist.entries, reserved name = false := by
    intro name hname
    rcases mem_initWith.mp hname with rfl | rfl <;> decide
  have hsaved : Saved withRmlist withoutRmlist rmlistName (plainEntry sIfreg [2]) := by
    refine ⟨by rw [withRmlist, getElem?_initWith, if_pos rfl], ?_⟩
    exact nofun
  have hsu : str "su" ∈ newNames withRmlist withoutRmlist := by
    refine mem_newNames.mpr ⟨mem_initWith.mpr (.inl rfl), fun hmem => ?_⟩
    rcases mem_initWith.mp hmem with h | h <;> exact absurd h (by decide)
  have hnew := ne_nil_of_mem hsu
  -- the list has a NUL, the file does not
  have hlist : plainEntry sIfreg [2] ≠
      plainEntry sIfreg (rmText (newNames withRmlist withoutRmlist)) := by
    intro heq
    have hdata : [2] = rmText (newNames withRmlist withoutRmlist) := congrArg CpioEntry.data heq
    have hnul : (0 : UInt8) ∈ rmText (newNames withRmlist withoutRmlist) :=
      mem_flatMap.mpr ⟨str "su", hsu, by decide⟩
    rw [← hdata] at hnul
    exact absurd hnul (by decide)
  refine ⟨ho, hp, hsaved, fun hkept => hlist ?_, fun h => hlist (h.eq_list ho hp hsaved hnew)⟩
  have hnone : withoutRmlist.entries[rmlistPath]? = none := by
    rw [withoutRmlist, getElem?_initWith, if_neg (by decide), if_neg (by decide)]
  rw [getElem?_backup ho hp, hnone, or_iff_left nofun, getElem?_backupMap_plain,
    if_pos ⟨hnew, rfl⟩] at hkept
  exact hkept

end Described

end Magisk.Boot
