import Magisk.Boot.CpioBackup

/-!
# Restoring the original ramdisk

What `restore` makes of an archive that `backup` has prepared.

* `recoverable_of_ordinary`: names that a backup has no other use for can be
  recovered;
* `restore_backup_data_iff`: when the names and the data are the original ones;
* `restore_backup_meta_iff`: when modes, owners and devices are.
-/

namespace Magisk.Boot

open Magisk.Base Magisk.Lib List Option Std.ExtTreeMap

variable {name : Str} {e : CpioEntry}

/-! ### Names and data -/

/-- An archive with the names and the data of another one. -/
def SameData (c o : Cpio) : Prop := ∀ name, c.data? name = o.data? name

/-- A name that a backup has no other use for. -/
structure OrdinaryName (name : Str) : Prop where
  norm : normPath name = name
  nul : 0 ∉ name
  utf8 : validUtf8 name = true
  outside : reserved name = false
  magisk : name ≠ magiskName
  rmlist : name ≠ rmlistName
  xz : ¬ xzExt <:+ name

/-- An archive of such names. -/
def Ordinary (c : Cpio) : Prop := ∀ name ∈ c.entries, OrdinaryName name

section Ordinary

variable {X : Xz} {skipCompress : Bool} {o p : Cpio}

lemma not_xzExt_suffix (h : ¬ xzExt <:+ name) : xzExt.isSuffixOf (backupPre ++ name) = false := by
  rw [← Bool.not_eq_true, isSuffixOf_iff_suffix]
  intro hsuffix
  rcases suffix_or_suffix_of_suffix hsuffix (suffix_append backupPre name) with hs | hs
  · exact h hs
  · -- a name that is no longer than the extension
    have htails : xzExt.tails = [[46, 120, 122], [120, 122], [122], []] := by decide
    rw [← mem_tails, htails] at hs
    simp only [mem_cons, not_mem_nil, or_false] at hs
    rcases hs with rfl | rfl | rfl | rfl
    · exact h (by decide)
    all_goals exact absurd hsuffix (by decide)

lemma decompress_compress (h : e.compress X = some packed) : packed.decompress X = some e := by
  rw [CpioEntry.compress] at h
  split_ifs at h with hreg
  obtain ⟨data, hencode, rfl⟩ := map_eq_some_iff.mp h
  have hreg' : CpioEntry.isReg { e with data := data } = true := hreg
  rw [CpioEntry.decompress, if_pos hreg', X.decode_encode _ _ hencode]
  rfl

/-- An entry that is stored compressed is read back, whatever its name. -/
lemma restoreEntry_packed (h : packed.decompress X = some e) (name : Str) :
    restoreEntry X (backupPre ++ name ++ xzExt) packed = (name, e) := by
  have hext : xzExt.isSuffixOf (backupPre ++ name ++ xzExt) = true :=
    isSuffixOf_iff_suffix.mpr (suffix_append _ _)
  rw [restoreEntry, if_pos hext, h]
  have hlen : (backupPre ++ name ++ xzExt).length - 3 - 8 = name.length := by
    rw [length_append, length_append, show backupPre.length = 8 by decide,
      show xzExt.length = 3 by decide]
    omega
  have hdrop : (backupPre ++ name ++ xzExt).drop 8 = name ++ xzExt := by
    rw [append_assoc]
    exact drop_left' (by decide)
  simp only [hlen, hdrop, take_left']

lemma restoreEntry_plain (h : ¬ xzExt <:+ name) :
    restoreEntry X (backupPre ++ name) e = (name, e) := by
  rw [restoreEntry, not_xzExt_suffix h]
  have hdrop : (backupPre ++ name).drop 8 = name := drop_left' (by decide)
  simp [hdrop]

lemma stored_cases (X : Xz) (skipCompress : Bool) (name : Str) (e : CpioEntry) :
    (∃ packed, packed.decompress X = some e ∧
      stored X skipCompress name e = (backupPre ++ name ++ xzExt, packed)) ∨
    stored X skipCompress name e = (backupPre ++ name, e) := by
  rw [stored]
  cases hpack : if skipCompress then none else e.compress X with
  | none => exact .inr rfl
  | some packed =>
    split_ifs at hpack
    exact .inl ⟨packed, decompress_compress hpack, rfl⟩

/-- Entries with ordinary names can be recovered. -/
lemma recoverable_of_ordinary (X : Xz) (skipCompress : Bool) (ho : Ordinary o) (p : Cpio) :
    Recoverable X skipCompress o p := by
  have hname : ∀ name e, Saved o p name e → OrdinaryName name := fun name e h =>
    ho name (mem_iff_isSome_getElem?.mpr (by rw [h.1]; rfl))
  refine ⟨fun name e h => ?_, fun name e name' e' h h' hpath => ?_⟩
  · rcases stored_cases X skipCompress name e with ⟨packed, hpacked, hstored⟩ | hstored
    · rw [hstored]
      refine ⟨fun heq => ?_, fun heq => ?_, restoreEntry_packed hpacked name⟩
      · have hlast := congrArg List.getLast? heq
        rw [getLast?_append_of_ne_nil _ (by decide)] at hlast
        exact absurd hlast (by decide)
      · have hlast := congrArg List.getLast? heq
        rw [getLast?_append_of_ne_nil _ (by decide)] at hlast
        exact absurd hlast (by decide)
    · rw [hstored]
      refine ⟨fun heq => (hname name e h).rmlist (append_cancel_left heq),
        fun heq => (hname name e h).magisk (append_cancel_left heq),
        restoreEntry_plain (hname name e h).xz⟩
  · rcases stored_cases X skipCompress name e with ⟨packed, -, hstored⟩ | hstored <;>
      rcases stored_cases X skipCompress name' e' with ⟨packed', -, hstored'⟩ | hstored' <;>
      rw [hstored, hstored'] at hpath
    · exact append_cancel_left (append_cancel_right hpath)
    · rw [append_assoc] at hpath
      exact absurd ⟨name, append_cancel_left hpath⟩ (hname name' e' h').xz
    · rw [append_assoc] at hpath
      exact absurd ⟨name', (append_cancel_left hpath).symm⟩ (hname name e h).xz
    · exact append_cancel_left hpath

lemma Ordinary.namesOk (h : Ordinary p) : NamesOk p :=
  fun name hname => ⟨(h name hname).norm, (h name hname).nul, (h name hname).utf8⟩

lemma Ordinary.outside (h : Ordinary p) : ∀ name ∈ p.entries, reserved name = false :=
  fun name hname => (h name hname).outside

lemma backup_eq_of_outside (X : Xz) (skipCompress : Bool)
    (ho : ∀ name ∈ o.entries, reserved name = false)
    (hp : ∀ name ∈ p.entries, reserved name = false) :
    p.backup X skipCompress o = ⟨p.entries ∪ backupMap X skipCompress o p⟩ := by
  rw [backup_eq, rm_backupDir_eq ho, rm_backupDir_eq hp]

lemma data?_restore_of_mem (ho : Ordinary o) (hp : Ordinary p) (h : Differ o p)
    (hmem : name ∈ o.entries) :
    ((p.backup X skipCompress o).restore X).data? name = o.data? name := by
  have hrec := recoverable_of_ordinary X skipCompress ho p
  obtain ⟨e, he⟩ := isSome_iff_exists.mp (mem_iff_isSome_getElem?.mp hmem)
  rw [backup_eq_of_outside X skipCompress ho.outside hp.outside, Cpio.data?]
  by_cases hsame : p.data? name = o.data? name
  · rw [getElem?_restore_of_same hp.outside hp.namesOk hrec h hmem hsame]
    exact hsame
  · have hsaved : Saved o p name e := ⟨he, fun heq => hsame (heq.trans (data?_eq_some he).symm)⟩
    rw [getElem?_restore_of_saved hp.outside hp.namesOk hrec hsaved]
    exact (data?_eq_some he).symm

lemma data?_restore_of_not_mem (ho : Ordinary o) (hp : Ordinary p) (h : Differ o p)
    (hmem : name ∉ o.entries) :
    ((p.backup X skipCompress o).restore X).data? name =
      if name = [] then p.data? name else none := by
  have hrec := recoverable_of_ordinary X skipCompress ho p
  rw [backup_eq_of_outside X skipCompress ho.outside hp.outside, Cpio.data?,
    getElem?_restore_of_not_mem hp.outside hp.namesOk hrec h hmem]
  split_ifs <;> rfl

/-- **The original names and data are restored**, for every pair of archives that differ,
exactly if the patch did not add an entry with the empty name. -/
theorem restore_backup_data_iff (X : Xz) (skipCompress : Bool) (o p : Cpio) (ho : Ordinary o)
    (hp : Ordinary p) (h : Differ o p) :
    SameData ((p.backup X skipCompress o).restore X) o ↔
      ([] ∈ p.entries → [] ∈ o.entries) := by
  constructor
  · intro hsame hempty
    by_contra hnone
    have hdata := hsame []
    rw [data?_restore_of_not_mem ho hp h hnone, if_pos rfl, data?_eq_none.mpr hnone,
      data?_eq_none] at hdata
    exact hdata hempty
  · intro hempty name
    by_cases hmem : name ∈ o.entries
    · exact data?_restore_of_mem ho hp h hmem
    · rw [data?_restore_of_not_mem ho hp h hmem, data?_eq_none.mpr hmem]
      split_ifs with hname
      · subst hname
        exact data?_eq_none.mpr fun hp' => hmem (hempty hp')
      · rfl

end Ordinary

section Samples

/-- A coder that compresses nothing. -/
def storeXz : Xz := ⟨some, some, fun _ _ h => h.symm ▸ rfl⟩

/-- An archive with a file `init` and one more entry. -/
def initWith (init : CpioEntry) (name : Str) (e : CpioEntry) : Cpio :=
  ⟨((∅ : Entries).insert (str "init") init).insert name e⟩

/-- The original archive: `init` and a directory. -/
def stock : Cpio := initWith ⟨0o100750, 0, 0, 0, 0, [1]⟩ (str "dev") (plainEntry sIfdir [])

lemma getElem?_initWith (init : CpioEntry) (name : Str) (e : CpioEntry) (k : Str) :
    (initWith init name e).entries[k]? =
      if name = k then some e else if str "init" = k then some init else none := by
  simp [initWith, Std.ExtTreeMap.getElem?_insert]

lemma mem_initWith : k ∈ (initWith init name e).entries ↔ name = k ∨ str "init" = k := by
  simp [initWith]

lemma ordinaryName_of_tests
    (h : (decide (normPath name = name) && decide (0 ∉ name) && name.all (· < 128) &&
      !reserved name && decide (name ≠ magiskName) && decide (name ≠ rmlistName) &&
      !xzExt.isSuffixOf name) = true) :
    OrdinaryName name := by
  simp only [Bool.and_eq_true, decide_eq_true_eq, Bool.not_eq_true'] at h
  obtain ⟨⟨⟨⟨⟨⟨hnorm, hnul⟩, hascii⟩, hout⟩, hmagisk⟩, hrm⟩, hxz⟩ := h
  refine ⟨hnorm, hnul, validUtf8_ascii (ascii_of_all hascii), hout, hmagisk, hrm, ?_⟩
  rw [← isSuffixOf_iff_suffix, hxz]
  exact Bool.false_ne_true

lemma ordinary_initWith (h : OrdinaryName name) (init e : CpioEntry) :
    Ordinary (initWith init name e) := by
  intro k hk
  rcases mem_initWith.mp hk with rfl | rfl
  · exact h
  · exact ordinaryName_of_tests (by decide)

lemma ordinary_stock : Ordinary stock := ordinary_initWith (ordinaryName_of_tests (by decide)) _ _

/-- A patched archive: another `init`, and a directory for overlays instead of the other
one. -/
def patched : Cpio :=
  initWith ⟨0o100750, 0, 0, 0, 0, [2]⟩ (str "overlay.d") (plainEntry sIfdir [])

lemma ordinary_patched : Ordinary patched :=
  ordinary_initWith (ordinaryName_of_tests (by decide)) _ _

lemma differ_stock (h : name ≠ str "dev") : Differ stock (initWith init name e) := by
  refine ⟨str "dev", ?_⟩
  rw [Cpio.data?, Cpio.data?, stock, getElem?_initWith, getElem?_initWith, if_pos rfl, if_neg h,
    if_neg (by decide)]
  exact some_ne_none _

/-- The patch is undone. -/
theorem restore_stock_data :
    SameData ((patched.backup storeXz false stock).restore storeXz) stock := by
  refine (restore_backup_data_iff storeXz false stock patched ordinary_stock ordinary_patched
    (differ_stock (by decide))).mpr fun hempty => ?_
  rcases mem_initWith.mp hempty with h | h
  · exact absurd h (by decide)
  · exact absurd h (by decide)

/-- An entry with the empty name, as `mkdir 755 /` makes one, outlives its removal. -/
theorem empty_name_stays :
    let p := initWith ⟨0o100750, 0, 0, 0, 0, [1]⟩ [] (plainEntry sIfdir [])
    (Ordinary stock ∧ Ordinary p ∧ Differ stock p) ∧
      ((p.backup storeXz false stock).restore storeXz).data? [] = some [] ∧
      stock.data? [] = none ∧
      ¬ SameData ((p.backup storeXz false stock).restore storeXz) stock := by
  intro p
  have hp : Ordinary p := ordinary_initWith (ordinaryName_of_tests (by decide)) _ _
  have hdiff : Differ stock p := differ_stock (by decide)
  have hstock : stock.data? [] = none := by
    rfl
  have hleft : ((p.backup storeXz false stock).restore storeXz).data? [] = some [] := by
    rw [data?_restore_of_not_mem ordinary_stock hp hdiff (data?_eq_none.mp hstock), if_pos rfl,
      Cpio.data?, getElem?_initWith, if_pos rfl]
    rfl
  refine ⟨⟨ordinary_stock, hp, hdiff⟩, hleft, hstock, fun hsame => ?_⟩
  rw [hsame []] at hleft
  cases hleft

end Samples

/-! ### Owners and modes -/

/-- What an entry is apart from its data: mode, owner and device. -/
def CpioEntry.metadata (e : CpioEntry) : UInt32 × UInt32 × UInt32 × UInt64 × UInt64 :=
  (e.mode, e.uid, e.gid, e.rdevmajor, e.rdevminor)

/-- Every entry of the original archive is there with its mode, owner and device. -/
def MetaRestored (c o : Cpio) : Prop :=
  ∀ (name : Str) (e : CpioEntry), o.entries[name]? = some e →
    ∃ e' : CpioEntry, c.entries[name]? = some e' ∧ e'.metadata = e.metadata

/-- The patch left the metadata of the entries alone whose data it left alone. -/
def SameMeta (o p : Cpio) : Prop :=
  ∀ (name : Str) (e e' : CpioEntry), o.entries[name]? = some e → p.entries[name]? = some e' →
    e'.data = e.data → e'.metadata = e.metadata

section Metadata

variable {X : Xz} {skipCompress : Bool} {o p : Cpio}

lemma mem_rm_backupDir {c : Cpio} :
    name ∈ (c.rm backupDir true).entries ↔ name ∈ c.entries ∧ reserved name = false := by
  rw [mem_iff_isSome_getElem?, getElem?_rm_backupDir,
    mem_iff_isSome_getElem?]
  cases reserved name <;> simp

section

variable (ho : ∀ name ∈ o.entries, reserved name = false)

include ho

lemma getElem?_rm_of_mem
    (he : o.entries[name]? = some e) (c : Cpio) :
    (c.rm backupDir true).entries[name]? = c.entries[name]? := by
  have hmem : name ∈ o.entries := mem_iff_isSome_getElem?.mpr (by rw [he]; rfl)
  rw [getElem?_rm_backupDir, ho name hmem, if_neg Bool.false_ne_true]

lemma saved_rm_iff :
    Saved o (p.rm backupDir true) name e ↔ Saved o p name e := by
  refine and_congr_right fun he => ?_
  rw [Cpio.data?, Cpio.data?, getElem?_rm_of_mem ho he]

lemma Recoverable.rm
    (h : Recoverable X skipCompress o p) : Recoverable X skipCompress o (p.rm backupDir true) where
  survives name e hsaved := h.survives name e ((saved_rm_iff ho).mp hsaved)
  separate name e name' e' hsaved hsaved' :=
    h.separate name e name' e' ((saved_rm_iff ho).mp hsaved) ((saved_rm_iff ho).mp hsaved')

/-- An entry of the original archive after both commands, if the archives differ. -/
lemma getElem?_restore_of_mem (hnames : NamesOk p)
    (hrec : Recoverable X skipCompress o p) (h : Differ o (p.rm backupDir true))
    (he : o.entries[name]? = some e) :
    ((p.backup X skipCompress o).restore X).entries[name]? =
      if p.data? name = some e.data then p.entries[name]? else some e := by
  have hp : ∀ name ∈ (p.rm backupDir true).entries, reserved name = false :=
    fun name hname => (mem_rm_backupDir.mp hname).2
  have hnames' : NamesOk (p.rm backupDir true) :=
    fun name hname => hnames name (mem_rm_backupDir.mp hname).1
  have hmem : name ∈ o.entries := mem_iff_isSome_getElem?.mpr (by rw [he]; rfl)
  have hdata : (p.rm backupDir true).data? name = p.data? name := by
    rw [Cpio.data?, Cpio.data?, getElem?_rm_of_mem ho he]
  rw [backup_eq, rm_backupDir_eq ho]
  split_ifs with hsame
  · rw [getElem?_restore_of_same hp hnames' (hrec.rm ho) h hmem, getElem?_rm_of_mem ho he]
    rw [hdata, hsame, data?_eq_some he]
  · exact getElem?_restore_of_saved hp hnames' (hrec.rm ho) ⟨he, fun heq => hsame (hdata ▸ heq)⟩

lemma restore_eq_empty
    (hnames : NamesOk p) (hrec : Recoverable X skipCompress o p)
    (h : ¬ Differ o (p.rm backupDir true)) : (p.backup X skipCompress o).restore X = ⟨∅⟩ := by
  rw [backup_eq, rm_backupDir_eq ho]
  exact restore_of_not_differ (fun name hname => (mem_rm_backupDir.mp hname).2)
    (fun name hname => hnames name (mem_rm_backupDir.mp hname).1) (hrec.rm ho) h

end

/-- **The original metadata is restored** exactly if the patch left that of every entry alone
whose data it left alone, and there is a difference at all. -/
theorem restore_backup_meta_iff (X : Xz) (skipCompress : Bool) (o p : Cpio)
    (ho : ∀ name ∈ o.entries, reserved name = false) (hnames : NamesOk p)
    (hrec : Recoverable X skipCompress o p) :
    MetaRestored ((p.backup X skipCompress o).restore X) o ↔
      (o.entries = ∅ ∨ Differ o (p.rm backupDir true)) ∧ SameMeta o p := by
  by_cases h : Differ o (p.rm backupDir true)
  · rw [and_iff_right (.inr h)]
    constructor
    · intro hmeta name e e' he he' hdata
      obtain ⟨r, hr, hrmeta⟩ := hmeta name e he
      have hsame : p.data? name = some e.data := by rw [data?_eq_some he', hdata]
      rw [getElem?_restore_of_mem ho hnames hrec h he, if_pos hsame, he'] at hr
      rw [some.inj hr]
      exact hrmeta
    · intro hsame name e he
      rw [getElem?_restore_of_mem ho hnames hrec h he]
      split_ifs with hdata
      · obtain ⟨e', he', hee'⟩ := map_eq_some_iff.mp hdata
        exact ⟨e', he', hsame name e e' he he' hee'⟩
      · exact ⟨e, rfl, rfl⟩
  · rw [restore_eq_empty ho hnames hrec h]
    constructor
    · intro hmeta
      have hempty : o.entries = ∅ := by
        refine eq_empty_iff_forall_not_mem.mpr fun name hmem => ?_
        obtain ⟨e, he⟩ := isSome_iff_exists.mp
          (mem_iff_isSome_getElem?.mp hmem)
        obtain ⟨r, hr, -⟩ := hmeta name e he
        cases hr
      refine ⟨.inl hempty, fun name e e' he => ?_⟩
      rw [hempty] at he
      cases he
    · rintro ⟨hempty, -⟩ name e he
      rw [hempty.resolve_right h] at he
      cases he

end Metadata

section Samples

/-- The patch changed what it saved, so modes and owners are restored. -/
theorem restore_stock_meta :
    MetaRestored ((patched.backup storeXz false stock).restore storeXz) stock := by
  refine (restore_backup_meta_iff storeXz false stock patched ordinary_stock.outside
    ordinary_patched.namesOk (recoverable_of_ordinary _ _ ordinary_stock _)).mpr ⟨.inr ?_, ?_⟩
  · rw [rm_backupDir_eq ordinary_patched.outside]
    exact differ_stock (by decide)
  · intro name e e' he he' hdata
    rw [stock, getElem?_initWith] at he
    split_ifs at he with hdev hinit
    · rw [← hdev] at he'
      cases he'
    · rw [← hinit] at he'
      rw [← some.inj he, ← some.inj he'] at hdata
      exact absurd hdata (by decide)

/-- A patch that makes `init` executable for everyone and leaves its data alone: the mode
stays. -/
theorem mode_stays :
    let p := initWith ⟨0o100777, 0, 0, 0, 0, [1]⟩ (str "overlay.d") (plainEntry sIfdir [])
    (Ordinary stock ∧ Ordinary p ∧ Differ stock p) ∧
      stock.entries[str "init"]? = some ⟨0o100750, 0, 0, 0, 0, [1]⟩ ∧
      ((p.backup storeXz false stock).restore storeXz).entries[str "init"]? =
        some ⟨0o100777, 0, 0, 0, 0, [1]⟩ ∧
      ¬ MetaRestored ((p.backup storeXz false stock).restore storeXz) stock := by
  intro p
  have hp : Ordinary p := ordinary_initWith (ordinaryName_of_tests (by decide)) _ _
  have hdiff : Differ stock p := differ_stock (by decide)
  have hstock : stock.entries[str "init"]? = some ⟨0o100750, 0, 0, 0, 0, [1]⟩ := by
    rw [stock, getElem?_initWith, if_neg (by decide), if_pos rfl]
  have hinit : p.entries[str "init"]? = some ⟨0o100777, 0, 0, 0, 0, [1]⟩ := by
    rw [getElem?_initWith, if_neg (by decide), if_pos rfl]
  have hleft : ((p.backup storeXz false stock).restore storeXz).entries[str "init"]? =
      some ⟨0o100777, 0, 0, 0, 0, [1]⟩ := by
    rw [getElem?_restore_of_mem ordinary_stock.outside hp.namesOk
      (recoverable_of_ordinary _ _ ordinary_stock _) _ hstock, if_pos (data?_eq_some hinit), hinit]
    rw [rm_backupDir_eq hp.outside]
    exact hdiff
  refine ⟨⟨ordinary_stock, hp, hdiff⟩, hstock, hleft, fun hmeta => ?_⟩
  obtain ⟨e, he, hmode⟩ := hmeta _ _ hstock
  rw [hleft] at he
  rw [← some.inj he] at hmode
  exact absurd hmode (by decide)

end Samples

end Magisk.Boot
