import Magisk.Core.Deny.Names
import Magisk.Core.Deny.Restart
import Magisk.Core.Deny.Views

/-!
# What a process is told about itself

`get_process_info` asks the denylist twice: whether the process is a target, and whether its user
id is denied root.  The two questions walk the same lists, and take the lock one after the other.

* `Failing.isDenyTarget`, `Failing.isDenyTargetUid`: the questions, when the data may not load;
* `Answers`: what a call may answer, if it may dereference a missing entry;
* `processFlags`, `MaySend`: the flags that are sent;
* `Agree`: a target is denied root, so that no process but root's is told that it is both on the
  denylist and granted root;
* `agree_iff`: they agree exactly if the index does not lead to missing entries only;
* `agree_of_reach`: so they do in runs that leave no view of an erased key behind.
-/

namespace Magisk.Core.Deny

open Magisk.Base Magisk.Lib

/-! ### The questions -/

namespace Failing

variable (f : Failing)

/-- `is_deny_target`. -/
def isDenyTarget (d : AppData) (s : Daemon) (uid : Int) (process : Str) : Daemon × Option Bool :=
  match f.ensureData d s with
  | none => (⟨s.db, none⟩, some false)
  | some (l, db) => (⟨db, some l⟩, l.isDenyTarget uid process)

/-- `is_deny_target_uid`. -/
def isDenyTargetUid (d : AppData) (s : Daemon) (uid : Int) : Daemon × Bool :=
  match f.ensureData d s with
  | none => (⟨s.db, none⟩, false)
  | some (l, db) => (⟨db, some l⟩, l.isDenyTargetUid uid)

/-- `uid_granted_root`. -/
def uidGrantedRoot (d : AppData) (s : Daemon) (uid : Int) : Bool :=
  uid = 0 || !(f.isDenyTargetUid d s uid).2

end Failing

/-- The answers that a call may give: its result, or anything if that is not defined. -/
def Answers (result : Option Bool) (answer : Bool) : Prop := ∀ b, result = some b → answer = b

/-! ### The flags -/

namespace ZygiskStateFlags

def processGrantedRoot : UInt32 := 0x00000001

def processOnDenyList : UInt32 := 0x00000002

def rootHiderEnabled : UInt32 := 0x00000004

def denyListEnforced : UInt32 := 0x40000000

def processIsMagiskApp : UInt32 := 0x80000000

end ZygiskStateFlags

open ZygiskStateFlags

/-- `update_deny_flags`, with the answer of `is_deny_target`. -/
def updateDenyFlags (target enforced : Bool) (flags : UInt32) : UInt32 :=
  let flags := if target then flags ||| processOnDenyList else flags
  if enforced then flags ||| denyListEnforced else flags

/-- The flags of `get_process_info`, with the answers to its questions. -/
def processFlags (target enforced manager granted : Bool) : UInt32 :=
  let flags := updateDenyFlags target enforced 0
  let flags := if manager then flags ||| processIsMagiskApp else flags
  let flags := if granted then flags ||| processGrantedRoot else flags
  -- the root hider goes with the denylist
  if flags &&& denyListEnforced ≠ 0 then flags ||| rootHiderEnabled else flags

lemma processFlags_granted (target enforced manager granted : Bool) :
    processFlags target enforced manager granted &&& processGrantedRoot ≠ 0 ↔ granted = true := by
  revert target enforced manager granted
  decide

lemma processFlags_target (target enforced manager granted : Bool) :
    processFlags target enforced manager granted &&& processOnDenyList ≠ 0 ↔ target = true := by
  revert target enforced manager granted
  decide

/-- The flags that `get_process_info` may send, if no request comes between its two questions.
Each of them may be the first to load the data, which it may fail to do. -/
def MaySend (s : Daemon) (enforced manager : Bool) (uid : Int) (process : Str)
    (flags : UInt32) : Prop :=
  ∃ (f f' : Failing) (d d' : AppData) (target : Bool),
    Answers (f.isDenyTarget d s uid process).2 target ∧
    flags = processFlags target enforced manager
      (f'.uidGrantedRoot d' (f.isDenyTarget d s uid process).1 uid)

/-- The two questions agree on the user id: if the process is a target, root is denied. -/
structure Agree (s : Daemon) (uid : Int) (process : Str) : Prop where
  target : ∀ (f f' : Failing) (d d' : AppData), Answers (f.isDenyTarget d s uid process).2 true →
    (f'.isDenyTargetUid d' (f.isDenyTarget d s uid process).1 uid).2 = true
  flags : uid ≠ 0 → ∀ enforced manager flags, MaySend s enforced manager uid process flags →
    ¬(flags &&& processGrantedRoot ≠ 0 ∧ flags &&& processOnDenyList ≠ 0)

/-- If the index leads from the app id to a missing entry, it also leads to one that is there. -/
def Covered (l : Lists) (uid : Int) : Prop :=
  toAppId uid < 90000 → ∀ pkg, l.Indexed (toAppId uid) pkg → pkg ∉ l.pkgToProcs →
    ∃ q, l.Indexed (toAppId uid) q ∧ ∃ p, l.Entry q p

/-! ### Targets are denied root -/

section Lists

variable {l : Lists} {uid : Int} {process : Str}

/-- A target is denied root. -/
lemma isDenyTargetUid_of_isDenyTarget (h : l.isDenyTarget uid process = some true) :
    l.isDenyTargetUid uid = true := by
  by_cases hiso : 90000 ≤ toAppId uid
  · simp only [Lists.isDenyTarget, if_pos hiso] at h
    rw [isDenyTargetUid_isolated_iff hiso]
    cases hprocs : l.pkgToProcs[isolatedMagic]? with
    | none =>
      rw [hprocs] at h
      cases h
    | some procs =>
      simp only [hprocs, Option.some.injEq, List.any_eq_true] at h
      obtain ⟨proc, hproc, -⟩ := h
      exact ⟨proc, procs, hprocs, Std.ExtTreeSet.mem_toList.mp hproc⟩
  · simp only [Lists.isDenyTarget, if_neg hiso] at h
    rw [isDenyTargetUid_iff (not_le.mp hiso)]
    cases hpkgs : l.appIdToPkgs[toAppId uid]? with
    | none =>
      rw [hpkgs] at h
      cases h
    | some pkgs =>
      rw [hpkgs] at h
      rcases anyProc_cases l process pkgs.toList with ⟨-, pkg, hpkg, he⟩ | ⟨h', -⟩ | ⟨h', -⟩
      · exact ⟨pkg, ⟨pkgs, hpkgs, Std.ExtTreeSet.mem_toList.mp hpkg⟩, process, he⟩
      · cases h.symm.trans h'
      · cases h.symm.trans h'

lemma isDenyTarget_of_not_covered (h : ¬Covered l uid) :
    l.isDenyTarget uid process = none ∧ l.isDenyTargetUid uid = false := by
  simp only [Covered, not_forall, not_exists, not_and] at h
  obtain ⟨hlt, pkg, hidx, hmissing, hno⟩ := h
  constructor
  · obtain ⟨pkgs, hpkgs, hmem⟩ := hidx
    simp only [Lists.isDenyTarget, if_neg (not_le.mpr hlt), hpkgs]
    rcases anyProc_cases l process pkgs.toList with ⟨-, q, hq, he⟩ | ⟨h, -⟩ | ⟨-, hall⟩
    · exact absurd he (hno q ⟨pkgs, hpkgs, Std.ExtTreeSet.mem_toList.mp hq⟩ process)
    · exact h
    · exact absurd (hall pkg (Std.ExtTreeSet.mem_toList.mpr hmem)).1 hmissing
  · rw [Bool.eq_false_iff, ne_eq, isDenyTargetUid_iff hlt]
    rintro ⟨q, hq, p, he⟩
    exact hno q hq p he

lemma Covered.isDenyTargetUid (h : Covered l uid)
    (hans : Answers (l.isDenyTarget uid process) true) : l.isDenyTargetUid uid = true := by
  cases htarget : l.isDenyTarget uid process with
  | some b => exact isDenyTargetUid_of_isDenyTarget (hans b htarget ▸ htarget)
  | none =>
    obtain ⟨hlt, pkg, hidx, hmissing⟩ := exists_missing_of_isDenyTarget htarget
    exact (isDenyTargetUid_iff hlt).mpr (h hlt pkg hidx hmissing)

lemma IndexOk.covered (h : IndexOk l) (uid : Int) : Covered l uid := by
  intro _ pkg hidx hmissing
  obtain ⟨p, he⟩ := h.2 _ pkg hidx
  exact absurd he.mem hmissing

end Lists

/-! ### The two questions -/

section Daemon

variable {s : Daemon} {uid : Int} {process : Str}

lemma covered_ensureData (h : ∀ l, s.lists = some l → Covered l uid) {f : Failing} (hdata : f.ensureData d s = some (l, db)) : Covered l uid := by
  cases hlists : s.lists with
  | some l' =>
    simp only [Failing.ensureData, hlists, Option.some.injEq, Prod.mk.injEq] at hdata
    exact hdata.1 ▸ h l' hlists
  | none =>
    rw [Failing.lists_of_ensureData hlists hdata]
    exact (indexOk_scanDenyApps (loads_load s.db).noEmptyKey).covered uid

/-- On covered lists the questions agree. -/
lemma agree_of_covered (h : ∀ l, s.lists = some l → Covered l uid) : Agree s uid process := by
  have htarget : ∀ (f f' : Failing) (d d' : AppData),
      Answers (f.isDenyTarget d s uid process).2 true →
      (f'.isDenyTargetUid d' (f.isDenyTarget d s uid process).1 uid).2 = true := by
    intro f f' d d' hans
    rw [Failing.isDenyTarget] at hans ⊢
    cases hdata : f.ensureData d s with
    | none =>
      simp only [hdata] at hans
      cases hans false rfl
    | some data =>
      simp only [hdata] at hans ⊢
      exact (covered_ensureData h hdata).isDenyTargetUid hans
  refine ⟨htarget, ?_⟩
  rintro huid enforced manager flags ⟨f, f', d, d', target, hans, rfl⟩ ⟨hgranted, hlisted⟩
  rw [processFlags_granted, Failing.uidGrantedRoot, decide_eq_false huid, Bool.false_or,
    Bool.not_eq_true'] at hgranted
  rw [processFlags_target] at hlisted
  rw [htarget f f' d d' (hlisted ▸ hans)] at hgranted
  cases hgranted

/-- **The two questions about a process.**  A target is denied root, whatever a read of a missing
entry gives, exactly if the index does not lead from the app id to missing entries only. -/
theorem agree_iff (s : Daemon) (uid : Int) (process : Str) :
    Agree s uid process ↔ ∀ l, s.lists = some l → Covered l uid := by
  refine ⟨fun h l hl => ?_, agree_of_covered⟩
  by_contra hnot
  obtain ⟨hnone, hdenied⟩ := @isDenyTarget_of_not_covered l uid process hnot
  have hdata : ∀ db, Failing.never.ensureData oneApp.data ⟨db, some l⟩ = some (l, db) :=
    fun _ => rfl
  have hcall : Failing.never.isDenyTarget oneApp.data s uid process = (⟨s.db, some l⟩, none) := by
    obtain ⟨db, lists⟩ := s
    obtain rfl : lists = some l := hl
    rw [Failing.isDenyTarget, hdata]
    simp [hnone]
  have hroot := h.target .never .never oneApp.data oneApp.data
  rw [hcall, Failing.isDenyTargetUid, hdata] at hroot
  exact absurd (hroot nofun) (by simp only [hdenied]; exact Bool.false_ne_true)

/-- The questions agree in every run that leaves no view of an erased key behind. -/
theorem agree_of_reach {t : Tracked} (h : viewSystem.Reach (fun t a => ViewOk t.world a) t)
    (uid : Int) (process : Str) : Agree t.world.daemon uid process :=
  agree_of_covered fun l hl => ((viewInv_of_reach h).1 l hl).covered uid

theorem agree_added : ∃ t, viewSystem.step oneAppViews (.add (str "com.app") []) = some t ∧
    Agree t.world.daemon 10001 (str "com.app") := by
  have hadd : viewSystem.step oneAppViews (.add (str "com.app") []) = some _ := rfl
  exact ⟨_, hadd, agree_of_reach (.step (.init ⟨rfl, rfl⟩) (by trivial) hadd) _ _⟩

end Daemon

/-- An app is put on the denylist, uninstalled and taken off the list: the daemon may tell a process
with its user id that it is on the denylist and granted root. -/
theorem sent_after_uninstall : ∃ w flags, denySystem.Reach (fun _ _ => True) w ∧
    MaySend w.daemon true false 10001 (str "com.app") flags ∧
    flags &&& processGrantedRoot ≠ 0 ∧ flags &&& processOnDenyList ≠ 0 ∧
    ¬Agree w.daemon 10001 (str "com.app") := by
  have htest : (denySystem.run oneApp uninstallSchedule).any (fun w =>
      decide ((Failing.never.isDenyTarget w.data w.daemon 10001 (str "com.app")).2 = none) &&
      Failing.never.uidGrantedRoot w.data
        (Failing.never.isDenyTarget w.data w.daemon 10001 (str "com.app")).1 10001) = true := by
    decide
  obtain ⟨w, hw, htest⟩ := (Option.any_eq_true _ _).mp htest
  rw [Bool.and_eq_true, decide_eq_true_eq] at htest
  have hsend : MaySend w.daemon true false 10001 (str "com.app")
      (processFlags true true false true) := by
    refine ⟨.never, .never, w.data, w.data, true, ?_, ?_⟩
    · rw [htest.1]
      nofun
    · rw [htest.2]
  have hgranted := (processFlags_granted true true false true).mpr rfl
  have hlisted := (processFlags_target true true false true).mpr rfl
  refine ⟨w, _, .of_run (fun _ _ => trivial) (.init ⟨rfl, rfl⟩) hw, hsend, hgranted, hlisted, ?_⟩
  exact fun hagree => hagree.flags (by decide) _ _ _ hsend ⟨hgranted, hlisted⟩

end Magisk.Core.Deny
