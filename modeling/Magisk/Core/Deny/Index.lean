import Magisk.Core.Deny.Utils
import Magisk.Lib.SetMap

/-!
# What the denylist requests do to the index

The lists are read through three relations: a package has a process entry
(`Lists.Entry`), a package is a key of the map, a package is in the index of an
app id (`Lists.Indexed`).  Each function has one lemma on each of them.

* `installed_iff`, `getAppId_of_installed`: what `get_app_id` answers;
* `indexed_scanDenyApps`, `entry_scanDenyApps`: the index rebuild;
* `WellIndexed`: every entry that has to be found is found through the index, and
  the index holds only packages with entries;
* `wellIndexed_scanDenyApps`, `WellIndexed.addMem`, `WellIndexed.rmMem`: the
  requests keep the lists well indexed;
* `WellIndexed.isDenyTarget`, `WellIndexed.isDenyTargetUid`: well indexed lists
  answer rightly.
-/

namespace Magisk.Core.Deny

open Magisk.Base Magisk.Lib.SetMap List Option Std ExtTreeMap

variable {pkg : Str} {d : AppData} {a uid : Int} {l : Lists} {procs : StrSet}

/-! ### App ids -/

lemma toAppId_stat (h : d.stat user pkg = some uid) :
    ∃ app, d.apps pkg = some app ∧ toAppId uid = app.appId := by
  rw [AppData.stat] at h
  cases happ : d.apps pkg with
  | none => simp [happ] at h
  | some app =>
    simp only [happ, ite_none_right_eq_some, Option.some.injEq] at h
    refine ⟨app, rfl, ?_⟩
    rw [← h.2, toAppId, aidUserOffset, Int.tmod_eq_emod_of_nonneg (by omega)]
    have := app.lt
    omega

lemma AppData.Installed.pos (h : d.Installed pkg a) : 0 < a := by
  obtain ⟨user, -, uid, huid, rfl⟩ := h
  obtain ⟨app, -, hid⟩ := toAppId_stat huid
  have := app.pos
  omega

/-- `get_app_id` finds the app id of an installed package. -/
lemma getAppIdOf_of_installed (h : d.Installed pkg a) : d.getAppIdOf d.users pkg = a := by
  obtain ⟨user, huser, uid, huid, rfl⟩ := h
  obtain ⟨app, happ, hid⟩ := toAppId_stat huid
  generalize d.users = users at huser
  induction users with
  | nil => cases huser
  | cons u users ih =>
    rw [AppData.getAppIdOf]
    cases hu : d.stat u pkg with
    | some uid' =>
      -- all directories of a package belong to one app
      obtain ⟨app', happ', hid'⟩ := toAppId_stat hu
      rw [happ, Option.some.injEq] at happ'
      simp [hid, hid', happ']
    | none =>
      rcases mem_cons.mp huser with rfl | hmem
      · rw [huid] at hu
        cases hu
      · exact ih hmem

/-- `get_app_id` answers 0 or the app id of an installed package. -/
lemma installed_of_getAppIdOf (h : d.getAppIdOf d.users pkg ≠ 0) :
    d.Installed pkg (d.getAppIdOf d.users pkg) := by
  suffices hgen : ∀ users : List Nat, d.getAppIdOf users pkg ≠ 0 →
      ∃ user ∈ users, ∃ uid, d.stat user pkg = some uid ∧ toAppId uid = d.getAppIdOf users pkg from
    hgen d.users h
  intro users hne
  induction users with
  | nil => exact absurd rfl hne
  | cons u users ih =>
    rw [AppData.getAppIdOf] at hne ⊢
    cases hu : d.stat u pkg with
    | some uid => exact ⟨u, .head _, uid, hu, rfl⟩
    | none =>
      simp only [hu] at hne
      obtain ⟨user, hmem, hstat⟩ := ih hne
      exact ⟨user, .tail _ hmem, hstat⟩

lemma installed_iff : d.Installed pkg a ↔ a ≠ 0 ∧ d.getAppIdOf d.users pkg = a := by
  constructor
  · intro h
    exact ⟨h.pos.ne', getAppIdOf_of_installed h⟩
  · rintro ⟨hne, rfl⟩
    exact installed_of_getAppIdOf hne

lemma not_installed_isolatedMagic : ¬ d.Installed isolatedMagic a := by
  rintro ⟨user, -, uid, huid, -⟩
  obtain ⟨app, happ, -⟩ := toAppId_stat huid
  rw [d.isolated] at happ
  cases happ

lemma getAppId_of_installed (h : d.Installed pkg a) : d.getAppId pkg = a := by
  rw [AppData.getAppId, if_neg (by rintro rfl; exact not_installed_isolatedMagic h),
    getAppIdOf_of_installed h]

/-! ### The relations the lists hold -/

namespace Lists

variable {proc q p : Str} {b : Int}

/-- The package has the process on the denylist. -/
def Entry (l : Lists) (pkg proc : Str) : Prop :=
  ∃ procs, l.pkgToProcs[pkg]? = some procs ∧ proc ∈ procs

/-- The package is in the index under the app id. -/
def Indexed (l : Lists) (appId : Int) (pkg : Str) : Prop :=
  ∃ pkgs, l.appIdToPkgs[appId]? = some pkgs ∧ pkg ∈ pkgs

lemma Entry.mem (h : l.Entry pkg proc) : pkg ∈ l.pkgToProcs := Rel.mem h

lemma updateAppId_eq (l : Lists) (a : Int) (pkg : Str) (remove : Bool) :
    ∃ ids, l.updateAppId a pkg remove = { l with appIdToPkgs := ids } := by
  rw [updateAppId]
  split_ifs
  · exact ⟨_, rfl⟩
  · split
    · exact ⟨_, rfl⟩
    · split_ifs <;> exact ⟨_, rfl⟩
  · exact ⟨_, rfl⟩

@[simp]
lemma updateAppId_pkgToProcs (remove : Bool) :
    (l.updateAppId a pkg remove).pkgToProcs = l.pkgToProcs := by
  obtain ⟨ids, h⟩ := updateAppId_eq l a pkg remove
  rw [h]

@[simp]
lemma updateAppId_lockedPkgs (remove : Bool) :
    (l.updateAppId a pkg remove).lockedPkgs = l.lockedPkgs := by
  obtain ⟨ids, h⟩ := updateAppId_eq l a pkg remove
  rw [h]

@[simp]
lemma entry_updateAppId (remove : Bool) :
    (l.updateAppId a pkg remove).Entry q p ↔ l.Entry q p := by
  rw [Entry, updateAppId_pkgToProcs, Entry]

/-- Adding to the index. -/
lemma indexed_updateAppId_add (ha : 0 < a) :
    (l.updateAppId a pkg false).Indexed b q ↔ l.Indexed b q ∨ (b = a ∧ q = pkg) := by
  rw [updateAppId, if_neg (by omega)]
  exact rel_insert_insert

/-- Removing from the index. -/
lemma indexed_updateAppId_remove (ha : 0 < a) :
    (l.updateAppId a pkg true).Indexed b q ↔ l.Indexed b q ∧ ¬ (b = a ∧ q = pkg) := by
  rw [updateAppId, if_neg (by omega), if_pos rfl]
  cases hpkgs : l.appIdToPkgs[a]? with
  | none =>
    refine (and_iff_left_of_imp ?_).symm
    rintro ⟨pkgs, hb, -⟩ ⟨rfl, -⟩
    cases hpkgs.symm.trans hb
  | some pkgs =>
    simp only
    split_ifs with hempty
    · exact rel_erase_of_isEmpty hpkgs hempty
    · exact rel_insert_erase hpkgs

lemma updateAppId_of_nonpos (ha : a ≤ 0) (remove : Bool) : l.updateAppId a pkg remove = l := by
  rw [updateAppId, if_pos ha]

lemma entry_addHideSet :
    (l.addHideSet pkg proc).1.Entry q p ↔ l.Entry q p ∨ (q = pkg ∧ p = proc) :=
  rel_insert_insert

lemma mem_addHideSet : q ∈ (l.addHideSet pkg proc).1.pkgToProcs ↔ q = pkg ∨ q ∈ l.pkgToProcs := by
  simp only [addHideSet, mem_insert, LawfulEqCmp.compare_eq_iff_eq]
  rw [eq_comm]

lemma entry_erase :
    ({ l with pkgToProcs := l.pkgToProcs.erase pkg } : Lists).Entry q p ↔
      l.Entry q p ∧ q ≠ pkg :=
  rel_erase

end Lists

/-! ### The index rebuild -/

section Scan

variable {s : Lists × List Row} {ks : List Str} {q p : Str}

/-- A scan looks at the package and finds it uninstalled. -/
def Stale (d : AppData) (locked : StrSet) (pkg : Str) : Prop :=
  pkg ≠ isolatedMagic ∧ pkg ∉ locked ∧ d.getAppIdOf d.users pkg = 0

/-- A scan looks at the package and finds it installed. -/
def Found (d : AppData) (locked : StrSet) (pkg : Str) : Prop :=
  pkg ≠ isolatedMagic ∧ pkg ∉ locked ∧ d.getAppIdOf d.users pkg ≠ 0

/-- What one round of the scan does. -/
lemma scanPkg_cases (d : AppData) (s : Lists × List Row) (pkg : Str) :
    (¬ Stale d s.1.lockedPkgs pkg ∧ ¬ Found d s.1.lockedPkgs pkg ∧ scanPkg d s pkg = s) ∨
    (Stale d s.1.lockedPkgs pkg ∧ ¬ Found d s.1.lockedPkgs pkg ∧
      scanPkg d s pkg = ({ s.1 with pkgToProcs := s.1.pkgToProcs.erase pkg },
        s.2.filter fun r => r.packageName ≠ pkg)) ∨
    (Found d s.1.lockedPkgs pkg ∧ ¬ Stale d s.1.lockedPkgs pkg ∧
      scanPkg d s pkg = (s.1.updateAppId (d.getAppIdOf d.users pkg) pkg false, s.2)) := by
  by_cases hiso : pkg = isolatedMagic
  · exact .inl ⟨fun h => h.1 hiso, fun h => h.1 hiso, by rw [scanPkg, if_pos hiso]⟩
  · by_cases hlock : pkg ∈ s.1.lockedPkgs
    · refine .inl ⟨fun h => h.2.1 hlock, fun h => h.2.1 hlock, ?_⟩
      rw [scanPkg, if_neg hiso, if_pos (ExtTreeSet.contains_iff_mem.mpr hlock)]
    · have hstep : scanPkg d s pkg = if d.getAppIdOf d.users pkg = 0 then
          ({ s.1 with pkgToProcs := s.1.pkgToProcs.erase pkg },
            (dbExec s.2 (.deletePkg pkg)).getD s.2)
          else (s.1.updateAppId (d.getAppIdOf d.users pkg) pkg false, s.2) := by
        rw [scanPkg, if_neg hiso, if_neg (by rwa [ExtTreeSet.contains_iff_mem])]
      by_cases hid : d.getAppIdOf d.users pkg = 0
      · exact .inr (.inl ⟨⟨hiso, hlock, hid⟩, fun h => h.2.2 hid, by rw [hstep, if_pos hid]; rfl⟩)
      · exact .inr (.inr ⟨⟨hiso, hlock, hid⟩, fun h => hid h.2.2, by rw [hstep, if_neg hid]⟩)

@[simp]
lemma lockedPkgs_scanPkg : (scanPkg d s pkg).1.lockedPkgs = s.1.lockedPkgs := by
  rcases scanPkg_cases d s pkg with ⟨-, -, h⟩ | ⟨-, -, h⟩ | ⟨-, -, h⟩
  · rw [h]
  · rw [h]
  · rw [h, Lists.updateAppId_lockedPkgs]

lemma entry_scanPkg : (scanPkg d s pkg).1.Entry q p ↔
    s.1.Entry q p ∧ ¬ (q = pkg ∧ Stale d s.1.lockedPkgs q) := by
  rcases scanPkg_cases d s pkg with ⟨hs, -, h⟩ | ⟨hs, -, h⟩ | ⟨-, hs, h⟩
  · rw [h]
    exact ⟨fun he => ⟨he, by rintro ⟨rfl, hst⟩; exact hs hst⟩, And.left⟩
  · rw [h, Lists.entry_erase]
    exact and_congr_right fun _ => ⟨fun hne heq => hne heq.1, fun hn heq => hn ⟨heq, heq ▸ hs⟩⟩
  · rw [h, Lists.entry_updateAppId]
    exact ⟨fun he => ⟨he, by rintro ⟨rfl, hst⟩; exact hs hst⟩, And.left⟩

lemma mem_scanPkg : q ∈ (scanPkg d s pkg).1.pkgToProcs ↔
    q ∈ s.1.pkgToProcs ∧ ¬ (q = pkg ∧ Stale d s.1.lockedPkgs q) := by
  rcases scanPkg_cases d s pkg with ⟨hs, -, h⟩ | ⟨hs, -, h⟩ | ⟨-, hs, h⟩
  · rw [h]
    exact ⟨fun he => ⟨he, by rintro ⟨rfl, hst⟩; exact hs hst⟩, And.left⟩
  · rw [h, mem_erase, ne_eq, LawfulEqCmp.compare_eq_iff_eq, and_comm]
    exact and_congr_right fun _ =>
      ⟨fun hne heq => hne heq.1.symm, fun hn heq => hn ⟨heq.symm, heq ▸ hs⟩⟩
  · rw [h, Lists.updateAppId_pkgToProcs]
    exact ⟨fun he => ⟨he, by rintro ⟨rfl, hst⟩; exact hs hst⟩, And.left⟩

/-- One round of the scan indexes a package that is found installed. -/
lemma indexed_scanPkg : (scanPkg d s pkg).1.Indexed a q ↔ s.1.Indexed a q ∨
    (q = pkg ∧ Found d s.1.lockedPkgs q ∧ d.getAppIdOf d.users q = a) := by
  rcases scanPkg_cases d s pkg with ⟨-, hf, h⟩ | ⟨-, hf, h⟩ | ⟨hf, -, h⟩
  · rw [h]
    exact ⟨.inl, fun hor => hor.elim id (by rintro ⟨rfl, h, -⟩; exact absurd h hf)⟩
  · rw [h]
    exact ⟨.inl, fun hor => hor.elim id (by rintro ⟨rfl, h, -⟩; exact absurd h hf)⟩
  · rw [h, Lists.indexed_updateAppId_add (installed_of_getAppIdOf hf.2.2).pos]
    refine or_congr_right ⟨?_, ?_⟩
    · rintro ⟨rfl, rfl⟩
      exact ⟨rfl, hf, rfl⟩
    · rintro ⟨rfl, -, rfl⟩
      exact ⟨rfl, rfl⟩

@[simp]
lemma lockedPkgs_scan : (ks.foldl (scanPkg d) s).1.lockedPkgs = s.1.lockedPkgs := by
  induction ks generalizing s with
  | nil => rfl
  | cons k ks ih => rw [foldl_cons, ih, lockedPkgs_scanPkg]

lemma entry_scan : (ks.foldl (scanPkg d) s).1.Entry q p ↔
    s.1.Entry q p ∧ ¬ (q ∈ ks ∧ Stale d s.1.lockedPkgs q) := by
  induction ks generalizing s with
  | nil => simp
  | cons k ks ih =>
    rw [foldl_cons, ih, entry_scanPkg, lockedPkgs_scanPkg, mem_cons]
    tauto

lemma mem_scan : q ∈ (ks.foldl (scanPkg d) s).1.pkgToProcs ↔
    q ∈ s.1.pkgToProcs ∧ ¬ (q ∈ ks ∧ Stale d s.1.lockedPkgs q) := by
  induction ks generalizing s with
  | nil => simp
  | cons k ks ih =>
    rw [foldl_cons, ih, mem_scanPkg, lockedPkgs_scanPkg, mem_cons]
    tauto

lemma indexed_scan : (ks.foldl (scanPkg d) s).1.Indexed a q ↔ s.1.Indexed a q ∨
    (q ∈ ks ∧ Found d s.1.lockedPkgs q ∧ d.getAppIdOf d.users q = a) := by
  induction ks generalizing s with
  | nil => simp
  | cons k ks ih =>
    rw [foldl_cons, ih, indexed_scanPkg, lockedPkgs_scanPkg, mem_cons]
    tauto

@[simp]
lemma lockedPkgs_scanDenyApps : (scanDenyApps d s).1.lockedPkgs = s.1.lockedPkgs := by
  rw [scanDenyApps, lockedPkgs_scan]

lemma entry_scanDenyApps : (scanDenyApps d s).1.Entry q p ↔
    s.1.Entry q p ∧ ¬ Stale d s.1.lockedPkgs q := by
  rw [scanDenyApps, entry_scan]
  refine and_congr_right fun he => not_congr (and_iff_right ?_)
  exact ExtTreeMap.mem_keys.mpr (Lists.Entry.mem he)

lemma indexed_scanDenyApps : (scanDenyApps d s).1.Indexed a q ↔
    q ∈ s.1.pkgToProcs ∧ Found d s.1.lockedPkgs q ∧ d.getAppIdOf d.users q = a := by
  rw [scanDenyApps, indexed_scan, ExtTreeMap.mem_keys]
  refine or_iff_right ?_
  rintro ⟨pkgs, h, -⟩
  simp at h

lemma mem_scanDenyApps (h : q ∈ (scanDenyApps d s).1.pkgToProcs) :
    q ∈ s.1.pkgToProcs ∧ ¬ Stale d s.1.lockedPkgs q := by
  rw [scanDenyApps, mem_scan] at h
  exact ⟨h.1, fun hs => h.2 ⟨ExtTreeMap.mem_keys.mpr h.1, hs⟩⟩

end Scan

/-! ### The answers -/

section Answers

/-- The package has a process. -/
lemma hasProc_iff (pkg : Str) :
    (match l.pkgToProcs[pkg]? with
      | none => false
      | some procs => !procs.isEmpty) = true ↔ ∃ proc, l.Entry pkg proc := by
  cases hprocs : l.pkgToProcs[pkg]? with
  | none =>
    refine iff_of_false Bool.false_ne_true ?_
    rintro ⟨proc, procs, hsome, -⟩
    cases hprocs.symm.trans hsome
  | some procs =>
    rw [Bool.not_eq_true', Bool.eq_false_iff, ne_eq, ExtTreeSet.isEmpty_iff]
    constructor
    · intro hne
      by_contra hno
      refine hne (ExtTreeSet.ext_mem fun proc => ?_)
      exact iff_of_false (fun hp => hno ⟨proc, procs, hprocs, hp⟩) ExtTreeSet.not_mem_empty
    · rintro ⟨proc, procs', hsome, hp⟩ hempty
      cases hprocs.symm.trans hsome
      rw [hempty] at hp
      exact ExtTreeSet.not_mem_empty hp

/-- An app is denied if a package of it that is indexed has a process. -/
lemma isDenyTargetUid_iff (h : toAppId uid < 90000) :
    l.isDenyTargetUid uid = true ↔
      ∃ pkg, l.Indexed (toAppId uid) pkg ∧ ∃ proc, l.Entry pkg proc := by
  simp only [Lists.isDenyTargetUid, if_neg (Int.not_le.mpr h)]
  cases hpkgs : l.appIdToPkgs[toAppId uid]? with
  | none =>
    refine iff_of_false Bool.false_ne_true ?_
    rintro ⟨pkg, ⟨pkgs, hsome, -⟩, -⟩
    cases hpkgs.symm.trans hsome
  | some pkgs =>
    simp only [List.any_eq_true, ExtTreeSet.mem_toList]
    refine exists_congr fun pkg => and_congr ?_ (hasProc_iff pkg)
    refine ⟨fun hmem => ⟨pkgs, hpkgs, hmem⟩, ?_⟩
    rintro ⟨pkgs', hsome, hmem⟩
    cases hpkgs.symm.trans hsome
    exact hmem

lemma isDenyTargetUid_isolated_iff (h : 90000 ≤ toAppId uid) :
    l.isDenyTargetUid uid = true ↔ ∃ proc, l.Entry isolatedMagic proc := by
  simp only [Lists.isDenyTargetUid, if_pos h]
  exact hasProc_iff isolatedMagic

/-- The loop over the packages of an app id: it finds the process, or comes to a package without an
entry, or to the end. -/
lemma anyProc_cases (l : Lists) (p : Str) (pkgs : List Str) :
    (anyProc l p pkgs = some true ∧ ∃ q ∈ pkgs, l.Entry q p) ∨
    (anyProc l p pkgs = none ∧ ∃ q ∈ pkgs, q ∉ l.pkgToProcs) ∨
    (anyProc l p pkgs = some false ∧ ∀ q ∈ pkgs, q ∈ l.pkgToProcs ∧ ¬ l.Entry q p) := by
  induction pkgs with
  | nil => exact .inr (.inr ⟨rfl, nofun⟩)
  | cons q pkgs ih =>
    rw [anyProc]
    cases hprocs : l.pkgToProcs[q]? with
    | none =>
      refine .inr (.inl ⟨rfl, q, .head _, fun hq => ?_⟩)
      rw [mem_iff_isSome_getElem?, hprocs] at hq
      cases hq
    | some procs =>
      have hq : q ∈ l.pkgToProcs := mem_iff_isSome_getElem?.mpr (by rw [hprocs]; rfl)
      have hentry : l.Entry q p ↔ procs.contains p = true :=
        (rel_iff hprocs).trans ExtTreeSet.contains_iff_mem.symm
      simp only
      split_ifs with hp
      · exact .inl ⟨rfl, q, .head _, hentry.mpr hp⟩
      · rcases ih with ⟨h, r, hr, he⟩ | ⟨h, r, hr, he⟩ | ⟨h, hall⟩
        · exact .inl ⟨h, r, .tail _ hr, he⟩
        · exact .inr (.inl ⟨h, r, .tail _ hr, he⟩)
        · exact .inr (.inr ⟨h, forall_mem_cons.mpr ⟨⟨hq, mt hentry.mp hp⟩, hall⟩⟩)

end Answers

/-! ### What the requests do under the lock -/

/-- A process that is there already changes nothing. -/
lemma addHideSet_eq_self (h : (l.addHideSet pkg proc).2 = false) :
    (l.addHideSet pkg proc).1 = l := by
  simp only [Lists.addHideSet, Bool.not_eq_false', ExtTreeSet.contains_iff_mem,
    getD_eq_getD_getElem?] at h
  cases hprocs : l.pkgToProcs[pkg]? with
  | none => simp [hprocs] at h
  | some procs =>
    rw [hprocs] at h
    have hset : procs.insert proc = procs := by
      refine ExtTreeSet.ext_mem fun k => ?_
      rw [ExtTreeSet.mem_insert, LawfulEqCmp.compare_eq_iff_eq]
      exact or_iff_right_of_imp fun hk => hk ▸ h
    have hmap : l.pkgToProcs.insert pkg procs = l.pkgToProcs := by
      refine ext_getElem? fun k => ?_
      simp only [ExtTreeMap.getElem?_insert, LawfulEqCmp.compare_eq_iff_eq]
      split_ifs with hk
      · rw [← hk, hprocs]
      · rfl
    simp only [Lists.addHideSet, getD_eq_getD_getElem?, hprocs, getD_some,
      hset, hmap]

/-- What the part of `add_list` under the lock does: nothing, with an answer, or the
entry and its index are added. -/
lemma addMem_cases (d : AppData) (l : Lists) (pkg proc : Str) :
    ((addMem d l pkg proc).1 = l ∧ (addMem d l pkg proc).2 ≠ none) ∨
    addMem d l pkg proc =
      ((l.addHideSet pkg proc).1.updateAppId (d.getAppId pkg) pkg false, none) := by
  by_cases hid : d.getAppId pkg = 0
  · refine .inl ?_
    rw [addMem, if_pos hid]
    exact ⟨rfl, some_ne_none _⟩
  · cases hnew : (l.addHideSet pkg proc).2 with
    | false =>
      refine .inl ?_
      simp only [addMem, if_neg hid, hnew]
      exact ⟨addHideSet_eq_self hnew, some_ne_none _⟩
    | true =>
      refine .inr ?_
      simp only [addMem, if_neg hid, hnew, if_true]

/-- The request takes the last entry of the package off the lists. -/
def RemovesLast (l : Lists) (pkg proc : Str) : Prop :=
  pkg ∉ l.lockedPkgs ∧ (proc = [] ∨ ∀ p, l.Entry pkg p → p = proc)

lemma entry_insert_erase (hprocs : l.pkgToProcs[pkg]? = some procs) :
    Lists.Entry { l with pkgToProcs := l.pkgToProcs.insert pkg (procs.erase proc) } q p ↔
      l.Entry q p ∧ ¬ (q = pkg ∧ p = proc) :=
  rel_insert_erase hprocs

lemma mem_of_mem_insert (hprocs : l.pkgToProcs[pkg]? = some procs)
    (hq : q ∈ l.pkgToProcs.insert pkg procs') : q ∈ l.pkgToProcs := by
  rw [mem_insert, LawfulEqCmp.compare_eq_iff_eq] at hq
  rcases hq with rfl | hq
  · exact mem_iff_isSome_getElem?.mpr (by rw [hprocs]; rfl)
  · exact hq

lemma exists_entry_insert (hne : ¬ procs.isEmpty = true) :
    ∃ p, Lists.Entry { l with pkgToProcs := l.pkgToProcs.insert pkg procs } pkg p := by
  rw [ExtTreeSet.isEmpty_iff, ExtTreeSet.eq_empty_iff_forall_not_mem] at hne
  obtain ⟨p, hp⟩ := not_forall_not.mp hne
  exact ⟨p, _, getElem?_insert_self, hp⟩

section Removed

variable {proc : Str}

/-- The lists after a process, or the whole package with its last one, is taken out. -/
def removed (d : AppData) (l : Lists) (pkg proc : Str) (procs : StrSet) : Lists :=
  if proc = [] ∨ (procs.erase proc).isEmpty then
    { l.updateAppId (d.getAppId pkg) pkg true with
      pkgToProcs := (l.updateAppId (d.getAppId pkg) pkg true).pkgToProcs.erase pkg }
  else { l with pkgToProcs := l.pkgToProcs.insert pkg (procs.erase proc) }

/-- The part of `rm_list` under the lock takes out what it finds. -/
lemma rmMem_of_removes (hlock : pkg ∉ l.lockedPkgs) (hprocs : l.pkgToProcs[pkg]? = some procs)
    (hproc : proc = [] ∨ proc ∈ procs) :
    rmMem d l pkg proc = (removed d l pkg proc procs, none) := by
  rw [rmMem, if_neg (mt ExtTreeSet.contains_iff_mem.mp hlock), hprocs]
  simp only [removed]
  by_cases hnil : proc = []
  · rw [if_pos hnil, if_pos (.inl hnil)]
  · rw [if_neg hnil, if_pos (ExtTreeSet.contains_iff_mem.mpr (hproc.resolve_left hnil))]
    simp only [hnil, false_or]
    split <;> rfl

/-- It ends with an answer and has changed nothing, or it goes on with something taken out. -/
lemma rmMem_answer (d : AppData) (l : Lists) (pkg proc : Str) :
    (∃ r, rmMem d l pkg proc = (l, some r) ∧ r ≠ .error) ∨
    (pkg ∉ l.lockedPkgs ∧ ∃ procs, l.pkgToProcs[pkg]? = some procs ∧
      (proc = [] ∨ proc ∈ procs) ∧ rmMem d l pkg proc = (removed d l pkg proc procs, none)) := by
  by_cases hlock : pkg ∈ l.lockedPkgs
  · refine .inl ⟨.itemLocked, ?_, nofun⟩
    rw [rmMem, if_pos (ExtTreeSet.contains_iff_mem.mpr hlock)]
  · have hlock' := mt ExtTreeSet.contains_iff_mem.mp hlock
    cases hprocs : l.pkgToProcs[pkg]? with
    | none =>
      refine .inl ⟨.itemNotExist, ?_, nofun⟩
      rw [rmMem, if_neg hlock', hprocs]
    | some procs =>
      by_cases hproc : proc = [] ∨ proc ∈ procs
      · exact .inr ⟨hlock, procs, rfl, hproc, rmMem_of_removes hlock hprocs hproc⟩
      · obtain ⟨hnil, hmem⟩ := not_or.mp hproc
        refine .inl ⟨.itemNotExist, ?_, nofun⟩
        simp only [rmMem, if_neg hlock', hprocs, if_neg hnil,
          if_neg (mt ExtTreeSet.contains_iff_mem.mp hmem)]

/-- The entries that are left after a removal. -/
lemma entry_removed (hprocs : l.pkgToProcs[pkg]? = some procs) (q p : Str) :
    (removed d l pkg proc procs).Entry q p ↔
      l.Entry q p ∧ ¬ (q = pkg ∧ (proc = [] ∨ p = proc)) := by
  rw [removed]
  split_ifs with hlast
  · rw [Lists.entry_erase, Lists.entry_updateAppId]
    refine and_congr_right fun he => not_congr (iff_self_and.mpr ?_)
    rintro rfl
    refine hlast.imp_right fun hempty => ?_
    exact eq_of_isEmpty_erase hempty ((rel_iff hprocs).mp he)
  · rw [not_or] at hlast
    rw [entry_insert_erase hprocs, or_iff_right hlast.1]

/-- Every key has an entry. -/
def NoEmptyKey (l : Lists) : Prop := ∀ q ∈ l.pkgToProcs, ∃ p, l.Entry q p

/-- No key is left without a process after a removal. -/
lemma noEmptyKey_removed (h : NoEmptyKey l)
    (hprocs : l.pkgToProcs[pkg]? = some procs) : NoEmptyKey (removed d l pkg proc procs) := by
  rw [removed]
  split_ifs with hlast
  · intro q hq
    obtain ⟨hne, hq⟩ := mem_erase.mp hq
    rw [Lists.updateAppId_pkgToProcs] at hq
    obtain ⟨p, hp⟩ := h q hq
    refine ⟨p, Lists.entry_erase.mpr ⟨(Lists.entry_updateAppId true).mpr hp, ?_⟩⟩
    exact fun heq => hne (LawfulEqCmp.compare_eq_iff_eq.mpr heq.symm)
  · intro q hq
    by_cases hpkg : q = pkg
    · subst hpkg
      exact exists_entry_insert fun hempty => hlast (.inr hempty)
    · obtain ⟨p, hp⟩ := h q (mem_of_mem_insert hprocs hq)
      exact ⟨p, (entry_insert_erase hprocs).mpr ⟨hp, fun heq => hpkg heq.1⟩⟩

lemma lockedPkgs_removed (procs : StrSet) :
    (removed d l pkg proc procs).lockedPkgs = l.lockedPkgs := by
  rw [removed]
  split_ifs
  · exact Lists.updateAppId_lockedPkgs _
  · rfl

end Removed

/-! ### Well indexed lists -/

lemma NoEmptyKey.addHideSet (h : NoEmptyKey l) (pkg proc : Str) :
    NoEmptyKey (l.addHideSet pkg proc).1 := by
  intro q hq
  simp only [Lists.entry_addHideSet]
  rcases Lists.mem_addHideSet.mp hq with rfl | hq
  · exact ⟨proc, .inr ⟨rfl, rfl⟩⟩
  · obtain ⟨p, hp⟩ := h q hq
    exact ⟨p, .inl hp⟩

/-- The lists answer for the entries in `E`: such an entry of an installed package is
found through the index, and the index leads to packages with entries only. -/
structure WellIndexed (d : AppData) (E : Str → Str → Prop) (l : Lists) : Prop where
  noEmptyKey : NoEmptyKey l
  entry_of_indexed : ∀ a q, l.Indexed a q → ∃ p, l.Entry q p
  indexed_of_entry : ∀ q p a, l.Entry q p → E q p → d.Installed q a → l.Indexed a q

/-- No installed package with an entry is locked. -/
def Rebuildable (d : AppData) (l : Lists) : Prop :=
  ∀ q p a, l.Entry q p → d.Installed q a → q ∉ l.lockedPkgs

/-- A scan indexes all entries of installed packages that it does not find locked. -/
lemma wellIndexed_scanDenyApps (hne : NoEmptyKey s.1)
    (hr : ∀ q p a, s.1.Entry q p → E q p → d.Installed q a → q ∉ s.1.lockedPkgs) :
    WellIndexed d E (scanDenyApps d s).1 where
  noEmptyKey := by
    intro q hq
    obtain ⟨hmem, hstale⟩ := mem_scanDenyApps hq
    obtain ⟨p, hp⟩ := hne q hmem
    exact ⟨p, entry_scanDenyApps.mpr ⟨hp, hstale⟩⟩
  entry_of_indexed := by
    intro a q hq
    obtain ⟨hmem, hfound, -⟩ := indexed_scanDenyApps.mp hq
    obtain ⟨p, hp⟩ := hne q hmem
    exact ⟨p, entry_scanDenyApps.mpr ⟨hp, fun hs => hfound.2.2 hs.2.2⟩⟩
  indexed_of_entry := by
    intro q p a he hE hinst
    have he' := (entry_scanDenyApps.mp he).1
    have hid := installed_iff.mp hinst
    refine indexed_scanDenyApps.mpr ⟨he'.mem, ⟨?_, hr q p a he' hE hinst, ?_⟩, hid.2⟩
    · rintro rfl
      exact not_installed_isolatedMagic hinst
    · rw [hid.2]
      exact hid.1

namespace WellIndexed

variable {E : Str → Str → Prop} {proc p : Str}

lemma mono (h : WellIndexed d E l) (hE : ∀ q p, E' q p → E q p) : WellIndexed d E' l :=
  ⟨h.noEmptyKey, h.entry_of_indexed, fun q p a he hq hinst =>
    h.indexed_of_entry q p a he (hE q p hq) hinst⟩

lemma of_eq (h : WellIndexed d E l) (hprocs : l'.pkgToProcs = l.pkgToProcs)
    (hids : l'.appIdToPkgs = l.appIdToPkgs) : WellIndexed d E l' := by
  obtain ⟨procs, ids, locked⟩ := l'
  obtain rfl : procs = l.pkgToProcs := hprocs
  obtain rfl : ids = l.appIdToPkgs := hids
  exact ⟨h.noEmptyKey, h.entry_of_indexed, h.indexed_of_entry⟩

/-- The part of `add_list` under the lock indexes the entry it adds. -/
lemma addMem (h : WellIndexed d E l) :
    WellIndexed d (fun q p => E q p ∨ ((addMem d l pkg proc).2 = none ∧ q = pkg ∧ p = proc))
      (addMem d l pkg proc).1 := by
  rcases addMem_cases d l pkg proc with ⟨hsame, hans⟩ | hadd
  · rw [hsame]
    exact h.mono fun q p hE => hE.resolve_right fun hn => hans hn.1
  · rw [hadd]
    have hindexed : ∀ a q, ((l.addHideSet pkg proc).1.updateAppId (d.getAppId pkg) pkg
        false).Indexed a q ↔
          l.Indexed a q ∨ (0 < d.getAppId pkg ∧ a = d.getAppId pkg ∧ q = pkg) := by
      intro a q
      rcases lt_or_ge 0 (d.getAppId pkg) with hpos | hneg
      · rw [Lists.indexed_updateAppId_add hpos, and_iff_right hpos]
        rfl
      · rw [Lists.updateAppId_of_nonpos hneg, or_iff_left fun hn => absurd hn.1 (Int.not_lt.mpr hneg)]
        rfl
    refine ⟨?_, ?_, ?_⟩
    · intro q hq
      rw [Lists.updateAppId_pkgToProcs] at hq
      simp only [Lists.entry_updateAppId]
      exact h.noEmptyKey.addHideSet pkg proc q hq
    · intro a q hq
      simp only [Lists.entry_updateAppId, Lists.entry_addHideSet]
      rcases (hindexed a q).mp hq with hq | ⟨-, -, rfl⟩
      · obtain ⟨p, hp⟩ := h.entry_of_indexed a q hq
        exact ⟨p, .inl hp⟩
      · exact ⟨proc, .inr ⟨rfl, rfl⟩⟩
    · intro q p a he hE hinst
      rw [hindexed]
      by_cases hq : q = pkg
      · subst hq
        rw [getAppId_of_installed hinst]
        exact .inr ⟨hinst.pos, rfl, rfl⟩
      · rw [Lists.entry_updateAppId, Lists.entry_addHideSet] at he
        exact .inl (h.indexed_of_entry q p a (he.resolve_right fun hn => hq hn.1)
          (hE.resolve_right fun hn => hq hn.2.1) hinst)

/-- What is indexed after a package that is installed wherever it is indexed is taken out of
the index. -/
lemma indexed_remove (hlast : ∀ a, l.Indexed a pkg → d.Installed pkg a) (a : Int) (q : Str) :
    (l.updateAppId (d.getAppId pkg) pkg true).Indexed a q ↔ l.Indexed a q ∧ q ≠ pkg := by
  rcases lt_or_ge 0 (d.getAppId pkg) with hpos | hneg
  · rw [Lists.indexed_updateAppId_remove hpos]
    refine and_congr_right fun hidx => ⟨fun hne => ?_, fun hne hn => hne hn.2⟩
    rintro rfl
    -- the index looks under the right app id
    exact hne ⟨(getAppId_of_installed (hlast a hidx)).symm, rfl⟩
  · rw [Lists.updateAppId_of_nonpos hneg]
    refine (and_iff_left_of_imp fun hidx => ?_).symm
    rintro rfl
    have hinst := hlast a hidx
    rw [← getAppId_of_installed hinst] at hinst
    exact absurd hinst.pos (Int.not_lt.mpr hneg)

/-- Dropping a package that is installed wherever it is indexed. -/
lemma drop (h : WellIndexed d E l) (hlast : ∀ a, l.Indexed a pkg → d.Installed pkg a) :
    WellIndexed d E { l.updateAppId (d.getAppId pkg) pkg true with
      pkgToProcs := (l.updateAppId (d.getAppId pkg) pkg true).pkgToProcs.erase pkg } := by
  have hentry : ∀ q p, Lists.Entry { l.updateAppId (d.getAppId pkg) pkg true with
      pkgToProcs := (l.updateAppId (d.getAppId pkg) pkg true).pkgToProcs.erase pkg } q p ↔
      l.Entry q p ∧ q ≠ pkg := by
    intro q p
    rw [Lists.entry_erase, Lists.entry_updateAppId]
  refine ⟨?_, ?_, ?_⟩
  · intro q hq
    rw [mem_erase, Lists.updateAppId_pkgToProcs] at hq
    obtain ⟨p, hp⟩ := h.noEmptyKey q hq.2
    exact ⟨p, (hentry q p).mpr ⟨hp, fun hn => hq.1 (LawfulEqCmp.compare_eq_iff_eq.mpr hn.symm)⟩⟩
  · intro a q hq
    obtain ⟨hidx, hne⟩ := (indexed_remove hlast a q).mp hq
    obtain ⟨p, hp⟩ := h.entry_of_indexed a q hidx
    exact ⟨p, (hentry q p).mpr ⟨hp, hne⟩⟩
  · intro q p a he hE hinst
    obtain ⟨he', hne⟩ := (hentry q p).mp he
    exact (indexed_remove hlast a q).mpr ⟨h.indexed_of_entry q p a he' hE hinst, hne⟩

/-- The part of `rm_list` under the lock keeps the lists well indexed, if a package
that loses its last entry is installed under every app id it is indexed under. -/
lemma rmMem (h : WellIndexed d E l)
    (hlast : RemovesLast l pkg proc → ∀ a, l.Indexed a pkg → d.Installed pkg a) :
    WellIndexed d E (rmMem d l pkg proc).1 := by
  rcases rmMem_answer d l pkg proc with ⟨r, hr, -⟩ | ⟨hlock, procs, hprocs, -, hr⟩
  · rw [hr]
    exact h
  have hentry := @entry_removed pkg d l procs proc hprocs
  have hkeys := @noEmptyKey_removed pkg d l procs proc h.noEmptyKey hprocs
  rw [hr]
  by_cases hrm : proc = [] ∨ (procs.erase proc).isEmpty = true
  · rw [removed, if_pos hrm]
    exact h.drop (hlast ⟨hlock, hrm.imp_right fun hempty p hp =>
      eq_of_isEmpty_erase hempty ((rel_iff hprocs).mp hp)⟩)
  · -- the index stays as it was, and so do the keys
    rw [removed, if_neg hrm] at hentry hkeys ⊢
    refine ⟨hkeys, fun a q hq => hkeys q ?_, fun q p a he hE hinst => ?_⟩
    · obtain ⟨p, hp⟩ := h.entry_of_indexed a q hq
      exact mem_insert.mpr (.inr hp.mem)
    · exact h.indexed_of_entry q p a ((hentry q p).mp he).1 hE hinst

lemma isDenyTarget (h : WellIndexed d E l) (hid : toAppId uid = a) (ha : a < 90000)
    (hidx : l.Indexed a pkg) (he : l.Entry pkg p) : l.isDenyTarget uid p = some true := by
  have hkeys := h.entry_of_indexed a
  obtain ⟨pkgs, hpkgs, hmem⟩ := hidx
  simp only [Lists.isDenyTarget, hid, if_neg (Int.not_le.mpr ha), hpkgs]
  rcases anyProc_cases l p pkgs.toList with ⟨h, -⟩ | ⟨-, q, hq, hmissing⟩ | ⟨-, hall⟩
  · exact h
  · obtain ⟨p', hp'⟩ := hkeys q ⟨pkgs, hpkgs, ExtTreeSet.mem_toList.mp hq⟩
    exact absurd hp'.mem hmissing
  · exact absurd he (hall pkg (ExtTreeSet.mem_toList.mpr hmem)).2

end WellIndexed

end Magisk.Core.Deny
