import Magisk.Core.Deny.Index
import Magisk.Lib.Transition

/-!
# Root and the denylist

The daemon together with the apps that come and go.  Requests, zygote restarts,
installs and uninstalls are the steps; a history records which entries were
added and what was installed at the last index rebuild.

* `denySystem`: the system;
* `Denied`: the apps on the denylist get no root and their processes are targets;
* `StepOk`: the steps that keep it so: no rebuild passes over an installed, locked
  package, no listed package comes back under an app id it is not indexed
  under, and no package leaves the lists while its index entry stays;
* `root_denied`: in runs of such steps the denylist is enforced;
* `root_granted_to_locked`: a locked package is granted root after a scan.
-/

namespace Magisk.Core.Deny

open Magisk.Base Magisk.Lib Option Function

/-! ### Installs and uninstalls -/

namespace AppData

variable {d d' : AppData} {user appId : Nat} {pkg q : Str} {a : Int}

/-- Install the package for one more user.  Its app id is the one it has for the
others. -/
def install (d : AppData) (user : Nat) (pkg : Str) (appId : Nat) : Option AppData :=
  let current := d.getAppIdOf d.users pkg
  if h : pkg ≠ isolatedMagic ∧ 0 < appId ∧ appId < 100000 ∧ (current = 0 ∨ current = appId) then
    let others := if current = 0 then [] else (d.apps pkg).elim [] App.users
    some { d with
      apps := update d.apps pkg (some ⟨appId, user :: others, h.2.1, h.2.2.1⟩)
      isolated := by rw [update_of_ne h.1.symm, d.isolated] }
  else none

/-- Uninstall the package for one user. -/
def uninstall (d : AppData) (user : Nat) (pkg : Str) : AppData :=
  { d with
    apps := update d.apps pkg
      ((d.apps pkg).map fun app => { app with users := app.users.filter (· ≠ user) })
    isolated := by
      by_cases h : isolatedMagic = pkg
      · rw [← h, update_self, d.isolated]
        rfl
      · rw [update_of_ne h, d.isolated] }

/-- After an install the package has the app id of the install, and the other packages
are as before. -/
lemma installed_install (h : d.install user pkg appId = some d') (hq : d'.Installed q a) :
    (q = pkg ∧ a = appId) ∨ (q ≠ pkg ∧ d.Installed q a) := by
  revert hq
  simp only [install, dite_none_right_eq_some, Option.some.injEq] at h
  obtain ⟨-, rfl⟩ := h
  intro hq
  by_cases hpkg : q = pkg
  · subst hpkg
    obtain ⟨u, -, uid, huid, rfl⟩ := hq
    obtain ⟨app, happ, hid⟩ := toAppId_stat huid
    simp only [update_self, Option.some.injEq] at happ
    exact .inl ⟨rfl, by rw [hid, ← happ]⟩
  · obtain ⟨u, hu, uid, huid, hid⟩ := hq
    refine .inr ⟨hpkg, u, hu, uid, ?_, hid⟩
    simpa only [stat, update_of_ne hpkg] using huid

/-- An uninstall installs nothing. -/
lemma installed_uninstall (hq : (d.uninstall user pkg).Installed q a) : d.Installed q a := by
  obtain ⟨u, hu, uid, huid, hid⟩ := hq
  refine ⟨u, hu, uid, ?_, hid⟩
  by_cases hpkg : q = pkg
  · subst hpkg
    rw [stat] at huid ⊢
    simp only [uninstall, update_self] at huid
    cases happ : d.apps q with
    | none => simp [happ] at huid
    | some app =>
      simp only [happ, map_some, List.mem_filter, ite_none_right_eq_some] at huid
      simp only [if_pos huid.1.1, huid.2]
  · simpa only [stat, uninstall, update_of_ne hpkg] using huid

end AppData

/-! ### The system -/

/-- The daemon, the apps, and the history the denylist is judged by: the entries added
while their package was installed, and the apps at the last index rebuild. -/
structure World where
  daemon : Daemon
  data : AppData
  added : List (Str × Str)
  rebuilt : Option AppData

/-- What can happen.  `su` and `denyTarget` are the questions asked of the denylist. -/
inductive Label where
  | add (pkg proc : Str)
  | rm (pkg proc : Str)
  | setLocked (pkg : Str) (locked : Bool)
  | ls
  | zygoteRestart
  | su (uid : Int)
  | denyTarget (uid : Int) (process : Str)
  | install (user : Nat) (pkg : Str) (appId : Nat)
  | uninstall (user : Nat) (pkg : Str)

/-- Does the step rebuild the index?  The first one that needs the data does. -/
def rebuilds (s : Daemon) : Label → Bool
  | .add pkg proc => s.lists.isNone && validate (cStr pkg) (addProc (cStr pkg) (cStr proc))
  | .rm _ _ => s.lists.isNone
  | .setLocked pkg _ => s.lists.isNone && cStr pkg ≠ isolatedMagic
  | .ls => true
  | .zygoteRestart => s.lists.isSome
  | .su uid => s.lists.isNone && uid ≠ 0
  | .denyTarget _ _ => s.lists.isNone
  | .install _ _ _ => false
  | .uninstall _ _ => false

namespace World

variable (w : World)

/-- The world after the daemon has taken a step. -/
def moved (a : Label) (s : Daemon) : World :=
  { w with daemon := s, rebuilt := if rebuilds w.daemon a then some w.data else w.rebuilt }

/-- The steps.  A request reads its names as C strings. -/
def step (a : Label) : Option World :=
  match a with
  | .add pkg proc =>
    let (s, r) := addList w.data w.daemon (cStr pkg) (cStr proc)
    let w' := w.moved a s
    -- these answers come after the entry is in
    if r = .ok ∨ r = .error then
      some { w' with added := (cStr pkg, addProc (cStr pkg) (cStr proc)) :: w.added }
    else some w'
  | .rm pkg proc => some (w.moved a (rmList w.data w.daemon (cStr pkg) (cStr proc)).1)
  | .setLocked pkg locked => some (w.moved a (setLocked w.data w.daemon (cStr pkg) locked).1)
  | .ls => some (w.moved a (lsList w.data w.daemon).1)
  | .zygoteRestart => some (w.moved a (zygoteRestart w.data w.daemon))
  | .su uid => some (w.moved a (rootAllowed w.data w.daemon uid).1)
  | .denyTarget uid process => some (w.moved a (isDenyTarget w.data w.daemon uid process).1)
  | .install user pkg appId =>
    (w.data.install user pkg appId).map fun d => { w with data := d }
  | .uninstall user pkg => some { w with data := w.data.uninstall user pkg }

end World

/-- Runs start with any table, any apps and any history, before the data is loaded. -/
def denySystem : System World Label where
  init w := w.daemon.lists = none ∧ w.rebuilt = none
  step := World.step

/-- The entries and locks the daemon works with: the ones in memory, or the ones in the
table as long as they are not loaded. -/
def Daemon.view (s : Daemon) : Lists :=
  match s.lists with
  | some l => l
  | none => s.db.foldl Lists.loadRow Lists.empty

/-- The package was installed when the entry was added or the index last rebuilt. -/
def World.Known (w : World) (pkg proc : Str) : Prop :=
  (pkg, proc) ∈ w.added ∨ ∃ d a, w.rebuilt = some d ∧ d.Installed pkg a

/-- The denylist is enforced on the user id: if its app id belongs to an installed
package with such an entry, it gets no root, and each listed process is a
target. -/
def Denied (w : World) (uid : Int) : Prop :=
  ∀ pkg proc, w.data.Installed pkg (toAppId uid) → toAppId uid < 90000 →
    w.daemon.view.Entry pkg proc → w.Known pkg proc →
    (rootAllowed w.data w.daemon uid).2 = false ∧
      ∀ p, w.daemon.view.Entry pkg p → (isDenyTarget w.data w.daemon uid p).2 = some true

/-- The steps under which the denylist is enforced. -/
def StepOk (w : World) (a : Label) : Prop :=
  (rebuilds w.daemon a = true → Rebuildable w.data w.daemon.view) ∧
    ∀ l, w.daemon.lists = some l →
      match a with
      | .rm pkg proc => RemovesLast l (cStr pkg) (cStr proc) →
          ∀ id, l.Indexed id (cStr pkg) → w.data.Installed (cStr pkg) id
      | .install _ pkg appId => ∀ proc, l.Entry pkg proc → w.Known pkg proc → l.Indexed appId pkg
      | _ => True

/-! ### Every step keeps the lists well indexed -/

section Step

variable {d : AppData} {s : Daemon} {w : World} {a : Label} {pkg proc : Str}

lemma addMem_answer (h : (addMem d l pkg proc).2 = some r) : r = .invalidPkg ∨ r = .itemExist := by
  simp only [addMem] at h
  split_ifs at h
  · exact .inl (some.inj h).symm
  · exact .inr (some.inj h).symm

/-- What `add_list` does to valid names, in terms of its part under the lock. -/
lemma addList_eq (hv : validate pkg (addProc pkg proc) = true) :
    (addList d s pkg proc).1.lists
        = some (addMem d (ensureData d s).1 pkg (addProc pkg proc)).1 ∧
      ((addList d s pkg proc).2 = .ok ∨ (addList d s pkg proc).2 = .error →
        (addMem d (ensureData d s).1 pkg (addProc pkg proc)).2 = none) := by
  simp only [addList, hv, Bool.not_true, Bool.false_eq_true, if_false]
  rcases hmem : addMem d (ensureData d s).1 pkg (addProc pkg proc) with ⟨l, r⟩
  cases r with
  | none =>
    simp only [finish]
    split <;> exact ⟨rfl, fun _ => trivial⟩
  | some r =>
    refine ⟨rfl, fun hr => ?_⟩
    rcases addMem_answer (congrArg Prod.snd hmem) with rfl | rfl
    · simp at hr
    · simp at hr

lemma lists_rmList :
    (rmList d s pkg proc).1.lists = some (rmMem d (ensureData d s).1 pkg proc).1 := by
  simp only [rmList]
  rcases rmMem d (ensureData d s).1 pkg proc with ⟨l, r⟩
  cases r with
  | none =>
    simp only [finish]
    split <;> rfl
  | some r => rfl

lemma lists_setLocked (hpkg : pkg ≠ isolatedMagic) :
    ∃ l, (setLocked d s pkg locked).1.lists = some l ∧
      l.pkgToProcs = (ensureData d s).1.pkgToProcs ∧
      l.appIdToPkgs = (ensureData d s).1.appIdToPkgs := by
  simp only [setLocked, if_neg hpkg, finish]
  split_ifs <;> (repeat' split) <;> exact ⟨_, rfl, rfl, rfl⟩

lemma noEmptyKey_loadRow (h : NoEmptyKey l) (r : Row) : NoEmptyKey (l.loadRow r) := by
  -- the lock is no part of the keys
  have hlock : ∀ locked, NoEmptyKey { l with lockedPkgs := locked } := fun _ => h
  simp only [Lists.loadRow]
  split_ifs
  · exact (hlock _).addHideSet _ _
  · exact h.addHideSet _ _
  · exact hlock _
  · exact h

lemma noEmptyKey_load (rows : List Row) (h : NoEmptyKey l) :
    NoEmptyKey (rows.foldl Lists.loadRow l) := by
  induction rows generalizing l with
  | nil => exact h
  | cons r rows ih => exact ih (noEmptyKey_loadRow h r)

/-- The invariant: loaded lists are well indexed for the entries of the history. -/
def Inv (w : World) : Prop :=
  ∀ l, w.daemon.lists = some l → WellIndexed w.data w.Known l

/-- The lists a request works on are well indexed, also if it is the first one. -/
lemma Inv.ensureData (hinv : Inv w) (hr : w.daemon.lists = none → Rebuildable w.data w.daemon.view)
    (hE : w.daemon.lists ≠ none → ∀ q p, E q p → w.Known q p) :
    WellIndexed w.data E (ensureData w.data w.daemon).1 := by
  cases hl : w.daemon.lists with
  | none =>
    have hview : w.daemon.view = w.daemon.db.foldl Lists.loadRow Lists.empty := by
      rw [Daemon.view, hl]
    have hload := noEmptyKey_load w.daemon.db (l := .empty) fun q hq => by
      simp [Lists.empty] at hq
    simp only [Deny.ensureData, hl]
    exact wellIndexed_scanDenyApps hload fun q p a he _ => (hview ▸ hr hl) q p a he
  | some l =>
    simp only [Deny.ensureData, hl]
    exact (hinv l hl).mono (hE (by rw [hl]; exact some_ne_none _))

lemma known_moved_of_not_rebuilds (h : rebuilds w.daemon a = false) (s : Daemon) :
    (w.moved a s).Known q p ↔ w.Known q p := by
  simp [World.Known, World.moved, h]

lemma Inv.ensureData_moved (hinv : Inv w) (hok : StepOk w a)
    (ha : rebuilds w.daemon a = w.daemon.lists.isNone) (s : Daemon) :
    WellIndexed w.data (w.moved a s).Known (Deny.ensureData w.data w.daemon).1 := by
  refine hinv.ensureData (fun hl => hok.1 (by rw [ha, hl]; rfl)) fun hl q p hq => ?_
  refine (known_moved_of_not_rebuilds ?_ s).mp hq
  rw [ha]
  exact isNone_eq_false_iff.mpr (isSome_iff_ne_none.mpr hl)

lemma installed_of_indexed_load (hl : s.lists = none) {id : Int}
    (h : (ensureData d s).1.Indexed id pkg) : d.Installed pkg id := by
  simp only [ensureData, hl] at h
  obtain ⟨-, hfound, rfl⟩ := indexed_scanDenyApps.mp h
  exact installed_of_getAppIdOf hfound.2.2

lemma Rebuildable.scanDenyApps (h : Rebuildable d x.1) :
    Rebuildable d (Deny.scanDenyApps d x).1 := by
  intro q p id he hinst
  rw [lockedPkgs_scanDenyApps]
  exact h q p id (entry_scanDenyApps.mp he).1 hinst

section

variable (hinv : Inv w)

include hinv

/-- Adding an entry keeps the invariant. -/
lemma Inv.add (hok : StepOk w (.add pkg proc)) (h : w.step (.add pkg proc) = some w') : Inv w' := by
  set p' := addProc (cStr pkg) (cStr proc) with hp'
  by_cases hv : validate (cStr pkg) p' = true
  · have hreb : rebuilds w.daemon (.add pkg proc) = w.daemon.lists.isNone := by
      rw [rebuilds, hv, Bool.and_true]
    obtain ⟨hlists, hans⟩ := addList_eq (d := w.data) (s := w.daemon) hv
    have hwell := @WellIndexed.addMem (cStr pkg) _ _ _ p' (hinv.ensureData_moved hok hreb
      (addList w.data w.daemon (cStr pkg) (cStr proc)).1)
    simp only [World.step] at h
    split_ifs at h with hr
    · cases h
      intro l hl
      obtain rfl : _ = l := some.inj (hlists.symm.trans hl)
      refine hwell.mono fun q p hq => ?_
      rcases hq with hq | hq
      · rcases List.mem_cons.mp hq with heq | hq
        · obtain ⟨rfl, rfl⟩ := Prod.mk.inj heq
          exact .inr ⟨hans hr, rfl, rfl⟩
        · exact .inl (.inl hq)
      · exact .inl (.inr hq)
    · cases h
      intro l hl
      obtain rfl : _ = l := some.inj (hlists.symm.trans hl)
      exact hwell.mono fun q p hq => .inl hq
  · -- invalid names change nothing
    have hinvalid : addList w.data w.daemon (cStr pkg) (cStr proc) = (w.daemon, .invalidPkg) := by
      simp only [addList, ← hp', hv, Bool.not_false, if_true]
    have hreb : rebuilds w.daemon (.add pkg proc) = false := by
      rw [rebuilds, ← hp', Bool.eq_false_iff.mpr hv, Bool.and_false]
    simp only [World.step, hinvalid] at h
    cases h
    exact fun l hl => (hinv l hl).mono fun q p hq => (known_moved_of_not_rebuilds hreb _).mp hq

lemma Inv.rm (hok : StepOk w (.rm pkg proc)) :
    Inv (w.moved (.rm pkg proc) (rmList w.data w.daemon (cStr pkg) (cStr proc)).1) := by
  intro l hl
  obtain rfl : _ = l := some.inj (lists_rmList.symm.trans hl)
  refine (hinv.ensureData_moved hok rfl _).rmMem fun hlast id hidx => ?_
  cases hlists : w.daemon.lists with
  | none => exact installed_of_indexed_load hlists hidx
  | some l =>
    have hdata : (Deny.ensureData w.data w.daemon).1 = l := by simp [Deny.ensureData, hlists]
    rw [hdata] at hlast hidx
    exact hok.2 l hlists hlast id hidx

/-- Locking and unlocking keep the invariant. -/
lemma Inv.setLocked (hok : StepOk w (.setLocked pkg locked)) : Inv (w.moved (.setLocked pkg locked)
      (setLocked w.data w.daemon (cStr pkg) locked).1) := by
  intro l hl
  by_cases hpkg : cStr pkg = isolatedMagic
  · have hsame : (Deny.setLocked w.data w.daemon (cStr pkg) locked).1 = w.daemon := by
      rw [Deny.setLocked, if_pos hpkg]
    have hreb : rebuilds w.daemon (.setLocked pkg locked) = false := by
      simp [rebuilds, hpkg]
    rw [hsame] at hl ⊢
    exact (hinv l hl).mono fun q p hq => (known_moved_of_not_rebuilds hreb _).mp hq
  · have hreb : rebuilds w.daemon (.setLocked pkg locked) = w.daemon.lists.isNone := by
      simp [rebuilds, hpkg]
    obtain ⟨l', hl', hprocs, hids⟩ := @lists_setLocked w.data w.daemon (cStr pkg) locked hpkg
    obtain rfl : l' = l := some.inj (hl'.symm.trans hl)
    exact (hinv.ensureData_moved hok hreb _).of_eq hprocs hids

lemma Inv.loaded (hok : StepOk w a)
    (ha : rebuilds w.daemon a = w.daemon.lists.isNone) :
    Inv (w.moved a (loaded w.data w.daemon)) := by
  intro l hl
  obtain rfl : _ = l := some.inj hl
  exact hinv.ensureData_moved hok ha _

/-- Listing keeps the invariant. -/
lemma Inv.ls (hok : StepOk w .ls) :
    Inv (w.moved .ls (lsList w.data w.daemon).1) := by
  have hr : Rebuildable w.data w.daemon.view := hok.1 rfl
  intro l hl
  obtain rfl : _ = l := some.inj hl
  -- the scan of a first load is followed by a second one
  have hr' : Rebuildable w.data (Deny.ensureData w.data w.daemon).1 := by
    cases hlists : w.daemon.lists with
    | none =>
      simp only [Daemon.view, hlists] at hr
      simp only [Deny.ensureData, hlists]
      exact Rebuildable.scanDenyApps (x := (_, w.daemon.db)) hr
    | some l =>
      simp only [Daemon.view, hlists] at hr
      simp only [Deny.ensureData, hlists]
      exact hr
  exact wellIndexed_scanDenyApps
    (hinv.ensureData (fun _ => hr) (E := w.Known) fun _ _ _ h => h).noEmptyKey
    fun q p a he _ => hr' q p a he

/-- A zygote restart keeps the invariant. -/
lemma Inv.zygoteRestart (hok : StepOk w .zygoteRestart) :
    Inv (w.moved .zygoteRestart (zygoteRestart w.data w.daemon)) := by
  intro l hl
  cases hlists : w.daemon.lists with
  | none =>
    simp only [World.moved, Deny.zygoteRestart, hlists] at hl
    cases hl
  | some l₀ =>
    have hr : Rebuildable w.data w.daemon.view := hok.1 (by rw [rebuilds, hlists]; rfl)
    simp only [Daemon.view, hlists] at hr
    simp only [World.moved, Deny.zygoteRestart, hlists] at hl
    obtain rfl : _ = l := some.inj hl
    exact wellIndexed_scanDenyApps (hinv l₀ hlists).noEmptyKey fun q p a he _ => hr q p a he

lemma Inv.install
    (hok : StepOk w (.install user pkg appId)) (h : w.data.install user pkg appId = some d') :
    Inv { w with data := d' } := by
  intro l hl
  have hw := hinv l hl
  refine ⟨hw.noEmptyKey, hw.entry_of_indexed, fun q p id he hq hinst => ?_⟩
  rcases AppData.installed_install h hinst with ⟨rfl, rfl⟩ | ⟨-, hinst⟩
  · exact hok.2 l hl p he hq
  · exact hw.indexed_of_entry q p id he hq hinst

lemma Inv.uninstall : Inv { w with data := w.data.uninstall user pkg } := by
  intro l hl
  have hw := hinv l hl
  exact ⟨hw.noEmptyKey, hw.entry_of_indexed, fun q p id he hq hinst =>
    hw.indexed_of_entry q p id he hq (AppData.installed_uninstall hinst)⟩

/-- Every admitted step keeps the invariant. -/
lemma Inv.step (hok : StepOk w a) (h : w.step a = some w') : Inv w' := by
  cases a with
  | add pkg proc => exact hinv.add hok h
  | rm pkg proc =>
    cases h
    exact hinv.rm hok
  | setLocked pkg locked =>
    cases h
    exact hinv.setLocked hok
  | ls =>
    cases h
    exact hinv.ls hok
  | zygoteRestart =>
    cases h
    exact hinv.zygoteRestart hok
  | su uid =>
    cases h
    by_cases huid : uid = 0
    · have hreb : rebuilds w.daemon (.su uid) = false := by simp [rebuilds, huid]
      intro l hl
      simp only [World.moved, rootAllowed, if_pos huid] at hl
      exact (hinv l hl).mono fun q p hq => (known_moved_of_not_rebuilds hreb _).mp hq
    · simp only [rootAllowed, if_neg huid]
      exact hinv.loaded hok (by simp [rebuilds, huid])
  | denyTarget uid process =>
    cases h
    exact hinv.loaded hok rfl
  | install user pkg appId =>
    obtain ⟨d', hd', rfl⟩ := map_eq_some_iff.mp h
    exact hinv.install hok hd'
  | uninstall user pkg =>
    cases h
    exact hinv.uninstall

end

lemma inv_of_reach (hw : denySystem.Reach StepOk w) : Inv w := by
  refine hw.invariant (fun v hv l hl => ?_) fun _ _ _ hinv hok hstep => hinv.step hok hstep
  rw [hv.1] at hl
  cases hl

end Step

/-- An entry of an installed package is there after a load. -/
lemma entry_ensureData (he : s.view.Entry pkg proc) (hinst : d.Installed pkg a) :
    (ensureData d s).1.Entry pkg proc := by
  cases hl : s.lists with
  | none =>
    simp only [Daemon.view, hl] at he
    simp only [ensureData, hl]
    refine entry_scanDenyApps.mpr ⟨he, fun hs => ?_⟩
    have hid := installed_iff.mp hinst
    exact hid.1 (hid.2.symm.trans hs.2.2)
  | some l =>
    simp only [Daemon.view, hl] at he
    simpa only [ensureData, hl] using he

/-- **The denylist is enforced.**  In every run of admitted steps, no user id of an
installed app with a known denylist entry is granted root, and each of the
app's listed processes is a target. -/
theorem root_denied (w : World) (uid : Int) (hw : denySystem.Reach StepOk w)
    (hq : StepOk w (.su uid)) : Denied w uid := by
  intro pkg proc hinst hlt he hknown
  have huid : uid ≠ 0 := by
    rintro rfl
    exact absurd hinst.pos (by decide)
  have hwell := (inv_of_reach hw).ensureData (E := w.Known)
    (fun hl => hq.1 (by simp [rebuilds, hl, huid])) fun _ _ _ h => h
  have hidx := hwell.indexed_of_entry pkg proc _ (entry_ensureData he hinst) hknown hinst
  constructor
  · simp only [rootAllowed, if_neg huid, isDenyTargetUid, Bool.not_eq_false']
    exact (isDenyTargetUid_iff hlt).mpr ⟨pkg, hidx, proc, entry_ensureData he hinst⟩
  · intro p hp
    exact hwell.isDenyTarget rfl hlt hidx (entry_ensureData hp hinst)

/-- A device with one app, and an empty denylist. -/
def oneApp : World where
  daemon := ⟨[], none⟩
  data :=
    { users := [0]
      apps := fun pkg =>
        if pkg = str "com.app" then some ⟨10001, [0], by decide, by decide⟩ else none
      isolated := by decide }
  added := []
  rebuilt := none

/-- The app is put on the denylist, and its user id is denied root. -/
theorem oneApp_denied : ∃ w, denySystem.step oneApp (.add (str "com.app") []) = some w ∧
    Denied w 10001 ∧ w.data.Installed (str "com.app") 10001 ∧
    w.daemon.view.Entry (str "com.app") (str "com.app") ∧
    w.Known (str "com.app") (str "com.app") := by
  obtain ⟨w, hw⟩ : ∃ w, denySystem.step oneApp (.add (str "com.app") []) = some w := ⟨_, rfl⟩
  refine ⟨w, hw, ?_⟩
  have hinit : denySystem.Reach StepOk oneApp := .init ⟨rfl, rfl⟩
  have hadd : StepOk oneApp (.add (str "com.app") []) := by
    refine ⟨fun _ q p _ he _ => ?_, fun l hl => by cases hl⟩
    obtain ⟨procs, hprocs, -⟩ := he
    simp [oneApp, Daemon.view, Lists.empty] at hprocs
  have hsu : StepOk w (.su 10001) := by
    cases hw
    exact ⟨fun h => absurd h (by decide), fun _ _ => trivial⟩
  refine ⟨root_denied w 10001 (.step hinit hadd hw) hsu, ?_⟩
  cases hw
  refine ⟨⟨0, by decide, 10001, by decide, by decide⟩, ⟨_, rfl, ?_⟩, .inl ?_⟩
  · decide
  · decide

/-- The app is put on the denylist, locked, and the list is shown. -/
def lockedSchedule : List Label :=
  [.add (str "com.app") [], .setLocked (str "com.app") true, .ls]

/-- After the scan the locked app is granted root, though it is installed and was
installed when its entry was added. -/
theorem root_granted_to_locked :
    ∃ w, denySystem.Reach (fun _ _ => True) w ∧
      (rootAllowed w.data w.daemon 10001).2 = true ∧ ¬ Denied w 10001 := by
  obtain ⟨w, hw⟩ : ∃ w, denySystem.run oneApp lockedSchedule = some w := ⟨_, rfl⟩
  refine ⟨w, .of_run (fun _ _ => trivial) (.init ⟨rfl, rfl⟩) hw, ?_⟩
  cases hw
  refine ⟨by decide, fun hdenied => ?_⟩
  have hinst : (oneApp.data).Installed (str "com.app") 10001 :=
    ⟨0, by decide, 10001, by decide, by decide⟩
  have hno := (hdenied (str "com.app") (str "com.app") hinst (by decide) ⟨_, rfl, by decide⟩
    (.inl (by decide))).1
  exact absurd hno (by decide)

end Magisk.Core.Deny
