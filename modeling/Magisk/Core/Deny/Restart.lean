import Magisk.Core.Deny.Persist
import Magisk.Lib.OrderedMap

/-!
# A zygote restart and the requests

The handler of `ZYGOTE_RESTART` calls `scan_deny_apps` without the lock.  It clears the index and
adds the packages one by one, while `su` and the other requests, which hold the lock, are answered
in between.

* `Scanner`, `Restart`: how far the scan is, and the daemon;
* `restartSystem`: the rounds of the scan and the requests, in any order;
* `scanned_of_run`: where the scan is after some rounds without other requests;
* `Overtaken`: a user that is denied root before and after the scan, and no package of which has
  been added again;
* `rootAllowed_between_iff`: the answer in between is one of the two unless the user is overtaken.
-/

namespace Magisk.Core.Deny

open Magisk.Base Magisk.Lib List Option Std ExtTreeMap

/-! ### The scan and the requests -/

/-- How far the scan is. -/
inductive Scanner where
  /-- It has not begun. -/
  | ready
  /-- The iterator is at a package, or at the end. -/
  | iter (pkg : Option Str)
  /-- The iterator is at a package that was erased. -/
  | undefined
  deriving DecidableEq

/-- The daemon during a zygote restart. -/
structure Restart where
  daemon : Daemon
  scanner : Scanner

/-- What can happen: a part of the scan, or a request. -/
inductive Act where
  | clear
  | round
  | su (uid : Int)
  | request (r : Request)
  | ls

/-- The part of `scan_deny_apps` before its loop. -/
def Restart.clear (s : Daemon) : Restart :=
  match s.lists with
  | none => ⟨s, .iter none⟩
  | some l => ⟨⟨s.db, some { l with appIdToPkgs := ∅ }⟩, .iter l.pkgToProcs.keys.head?⟩

/-- One round of its loop. -/
def Restart.round (d : AppData) (s : Daemon) (l : Lists) (pkg : Str) : Restart :=
  if l.pkgToProcs.contains pkg then
    let r := scanPkg d (l, s.db) pkg
    ⟨⟨r.2, some r.1⟩, .iter (nextKey l.pkgToProcs pkg)⟩
  else ⟨s, .undefined⟩

/-- One step. -/
def Restart.step (d : AppData) (s : Restart) : Act → Option Restart
  | .clear => if s.scanner = .ready then some (.clear s.daemon) else none
  | .round =>
    match s.scanner, s.daemon.lists with
    | .iter (some pkg), some l => some (.round d s.daemon l pkg)
    | _, _ => none
  | .su uid => some { s with daemon := (rootAllowed d s.daemon uid).1 }
  | .request r => some { s with daemon := Deny.request d s.daemon r }
  | .ls => some { s with daemon := (lsList d s.daemon).1 }

/-- A daemon whose handler has not come to the scan. -/
def restartSystem (d : AppData) : System Restart Act where
  init s := s.scanner = .ready
  step := Restart.step d

/-- Rounds and `su` requests only. -/
def Act.Quiet : Act → Prop
  | .round => True
  | .su _ => True
  | _ => False

/-- The rounds among the steps. -/
def rounds : List Act → Nat
  | [] => 0
  | .round :: acts => rounds acts + 1
  | _ :: acts => rounds acts

/-! ### Where the scan is -/

variable {d : AppData} {l : Lists} {db : List Row}

/-- The lists after some rounds. -/
def scanned (d : AppData) (l : Lists) (db : List Row) (k : Nat) : Lists × List Row :=
  (l.pkgToProcs.keys.take k).foldl (scanPkg d) ({ l with appIdToPkgs := ∅ }, db)

variable {k : Nat} {s : Daemon} {uid : Int}

lemma scanned_of_le (h : l.pkgToProcs.keys.length ≤ k) :
    scanned d l db k = scanDenyApps d (l, db) := by
  rw [scanned, take_of_length_le h]
  rfl

lemma scanned_succ (h : l.pkgToProcs.keys[k]? = some pkg) :
    scanned d l db (k + 1) = scanPkg d (scanned d l db k) pkg := by
  rw [scanned, take_add_one, h, foldl_append]
  rfl

/-- The keys that are still to come are not touched. -/
lemma mem_scanned_of_lt (h : l.pkgToProcs.keys[k]? = some pkg)
    (hq : compare pkg q = .lt ∨ q = pkg) :
    q ∈ (scanned d l db k).1.pkgToProcs ↔ q ∈ l.pkgToProcs := by
  rw [scanned, mem_scan]
  refine and_iff_left ?_
  rintro ⟨htake, -⟩
  have hlt : compare q pkg = .lt := by
    have hsorted := ordered_keys (t := l.pkgToProcs)
    rw [← take_append_drop k l.pkgToProcs.keys, pairwise_append] at hsorted
    refine hsorted.2.2 q htake pkg (mem_of_getElem? (i := 0) ?_)
    rw [getElem?_drop, Nat.add_zero, h]
  rcases hq with hq | rfl
  · cases (OrientedCmp.gt_of_lt hlt).symm.trans hq
  · cases (ReflCmp.compare_self : compare q q = .eq).symm.trans hlt

/-- The daemon after some rounds of a scan of these lists. -/
def Scanned (d : AppData) (l : Lists) (db : List Row) (k : Nat) (s : Restart) : Prop :=
  s.daemon = ⟨(scanned d l db k).2, some (scanned d l db k).1⟩ ∧
    s.scanner = .iter l.pkgToProcs.keys[k]?

lemma rootAllowed_fst_of_some (h : s.lists = some l) (uid : Int) : (rootAllowed d s uid).1 = s := by
  have hloaded : loaded d s = s := by
    obtain ⟨db, lists⟩ := s
    obtain rfl : lists = some l := h
    rfl
  rw [rootAllowed]
  split
  · rfl
  · exact hloaded

/-- One step without another request. -/
lemma Scanned.step {s s' : Restart} (h : Scanned d l db k s) (ha : a.Quiet)
    (hstep : s.step d a = some s') : Scanned d l db (k + rounds [a]) s' := by
  obtain ⟨hdaemon, hscanner⟩ := h
  cases a with
  | su uid =>
    cases hstep
    refine ⟨?_, hscanner⟩
    rw [rootAllowed_fst_of_some (l := (scanned d l db k).1) (by rw [hdaemon])]
    exact hdaemon
  | round =>
    rw [Restart.step, hscanner, hdaemon] at hstep
    cases hkey : l.pkgToProcs.keys[k]? with
    | none => rw [hkey] at hstep; cases hstep
    | some pkg =>
      rw [hkey] at hstep
      cases hstep
      have hmem : pkg ∈ l.pkgToProcs :=
        mem_keys.mp (mem_of_getElem? hkey)
      have hcontains : (scanned d l db k).1.pkgToProcs.contains pkg = true :=
        contains_iff_mem.mpr ((mem_scanned_of_lt hkey (.inr rfl)).mpr hmem)
      rw [Restart.round, if_pos hcontains]
      refine ⟨?_, ?_⟩
      · rw [rounds, rounds, scanned_succ hkey]
      · have hnext : nextKey (scanned d l db k).1.pkgToProcs pkg = nextKey l.pkgToProcs pkg :=
          nextKey_congr fun q hq => mem_scanned_of_lt hkey (.inl hq)
        simp only [hnext, nextKey_eq hkey]
        rfl
  | clear => cases ha
  | request r => cases ha
  | ls => cases ha

lemma rounds_cons (a : Act) (acts : List Act) : rounds (a :: acts) = rounds [a] + rounds acts := by
  cases a with
  | round => exact Nat.add_comm _ _
  | _ => exact (Nat.zero_add _).symm

/-- **Where the scan is** after rounds and `su` requests. -/
lemma Scanned.run {s s' : Restart} (h : Scanned d l db k s)
    (hquiet : ∀ a ∈ acts, a.Quiet) (hrun : (restartSystem d).run s acts = some s') :
    Scanned d l db (k + rounds acts) s' := by
  induction acts generalizing k s with
  | nil =>
    cases hrun
    exact h
  | cons a acts ih =>
    obtain ⟨t, ht, hrun⟩ := bind_eq_some_iff.mp hrun
    rw [rounds_cons, ← Nat.add_assoc]
    exact ih (h.step (hquiet a (.head _)) ht)
      (fun b hb => hquiet b (.tail _ hb)) hrun

lemma scanned_clear (h : s.lists = some l) : Scanned d l s.db 0 (Restart.clear s) := by
  have hfirst : l.pkgToProcs.keys.head? = l.pkgToProcs.keys[0]? := head?_eq_getElem?
  rw [Restart.clear, h]
  exact ⟨rfl, congrArg Scanner.iter hfirst⟩

lemma Scanned.finished {s : Restart} (h : Scanned d l db k s) (hend : s.scanner = .iter none) :
    s.daemon = ⟨(scanDenyApps d (l, db)).2, some (scanDenyApps d (l, db)).1⟩ := by
  have hnone : l.pkgToProcs.keys[k]? = none := Scanner.iter.inj (h.2.symm.trans hend)
  rw [h.1, scanned_of_le (getElem?_eq_none_iff.mp hnone)]

/-! ### Data that are not loaded -/

lemma rootAllowed_rootAllowed (s : Daemon) (uid uid' : Int) :
    (rootAllowed d (rootAllowed d s uid').1 uid).2 = (rootAllowed d s uid).2 := by
  have hfst : (rootAllowed d s uid').1 = s ∨ (rootAllowed d s uid').1 = loaded d s := by
    rw [rootAllowed]
    split
    · exact .inl rfl
    · exact .inr rfl
  rcases hfst with h | h
  · rw [h]
  · rw [h, rootAllowed, rootAllowed]
    split <;> rfl

/-- Nothing is scanned. -/
lemma rootAllowed_of_unloaded (hquiet : ∀ a ∈ acts, a.Quiet)
    (hrun : (restartSystem d).run ⟨s, .iter none⟩ acts = some m) (uid : Int) :
    (rootAllowed d m.daemon uid).2 = (rootAllowed d s uid).2 := by
  induction acts generalizing s with
  | nil =>
    cases hrun
    rfl
  | cons a acts ih =>
    obtain ⟨t, ht, hrun⟩ := bind_eq_some_iff.mp hrun
    have hquiet' : ∀ b ∈ acts, b.Quiet := fun b hb => hquiet b (.tail _ hb)
    have ha := hquiet a (.head _)
    cases a with
    | su uid' =>
      rw [ih hquiet' hrun]
      exact rootAllowed_rootAllowed s uid uid'
    | round => cases ht
    | clear => cases ha
    | request r => cases ha
    | ls => cases ha

/-! ### The answers -/

/-- A package with processes that a scan indexes under the app id. -/
def Readded (d : AppData) (l : Lists) (a : Int) (pkg : Str) : Prop :=
  Found d l.lockedPkgs pkg ∧ d.getAppIdOf d.users pkg = a ∧ ∃ proc, l.Entry pkg proc

lemma isDenyTargetUid_scanned (h : toAppId uid < 90000) (k : Nat) :
    (scanned d l db k).1.isDenyTargetUid uid = true ↔
      ∃ pkg ∈ l.pkgToProcs.keys.take k, Readded d l (toAppId uid) pkg := by
  rw [isDenyTargetUid_iff h]
  simp only [scanned, indexed_scan, entry_scan]
  constructor
  · rintro ⟨pkg, hidx | ⟨htake, hfound, hid⟩, proc, he, -⟩
    · obtain ⟨pkgs, hsome, -⟩ := hidx
      simp at hsome
    · exact ⟨pkg, htake, hfound, hid, proc, he⟩
  · rintro ⟨pkg, htake, hfound, hid, proc, he⟩
    exact ⟨pkg, .inr ⟨htake, hfound, hid⟩, proc, he, fun hstale => hfound.2.2 hstale.2.2.2⟩

/-- A user that is denied root before the scan and after it, no package of which has been added
again in so many rounds. -/
structure Overtaken (d : AppData) (l : Lists) (uid : Int) (k : Nat) : Prop where
  nonzero : uid ≠ 0
  app : toAppId uid < 90000
  before : l.isDenyTargetUid uid = true
  after : ∃ pkg, Readded d l (toAppId uid) pkg
  waiting : ∀ pkg ∈ l.pkgToProcs.keys.take k, ¬Readded d l (toAppId uid) pkg

lemma rootAllowed_snd_of_some (h : s.lists = some l) (huid : uid ≠ 0) :
    (rootAllowed d s uid).2 = !l.isDenyTargetUid uid := by
  have hdata : ensureData d s = (l, s.db) := by rw [ensureData, h]
  rw [rootAllowed, if_neg huid]
  simp [isDenyTargetUid, hdata]

/-- **The answer to a `su` request during the scan** is the one before the scan or the one after
it, just if the user is not overtaken. -/
theorem rootAllowed_between_iff {s : Daemon} {acts acts' : List Act} {m e : Restart}
    (hquiet : ∀ a ∈ acts ++ acts', a.Quiet)
    (hm : (restartSystem d).run ⟨s, .ready⟩ (.clear :: acts) = some m)
    (he : (restartSystem d).run m acts' = some e) (hend : e.scanner = .iter none) (uid : Int) :
    ((rootAllowed d m.daemon uid).2 = (rootAllowed d s uid).2 ∨
      (rootAllowed d m.daemon uid).2 = (rootAllowed d e.daemon uid).2) ↔
      ∀ l, s.lists = some l → ¬Overtaken d l uid (rounds acts) := by
  have hacts : ∀ a ∈ acts, a.Quiet := fun a ha => hquiet a (mem_append_left _ ha)
  have hacts' : ∀ a ∈ acts', a.Quiet := fun a ha => hquiet a (mem_append_right _ ha)
  obtain ⟨t, ht, hm⟩ := bind_eq_some_iff.mp hm
  obtain rfl : Restart.clear s = t := some.inj ht
  by_cases huid : uid = 0
  · refine iff_of_true (.inl ?_) fun l _ hover => hover.nonzero huid
    rw [rootAllowed, rootAllowed, if_pos huid, if_pos huid]
  cases hlists : s.lists with
  | none =>
    refine iff_of_true (.inl ?_) (by rintro l ⟨⟩)
    rw [Restart.clear, hlists] at hm
    exact rootAllowed_of_unloaded hacts hm uid
  | some l =>
    have hscan := (scanned_clear (d := d) hlists).run hacts hm
    have hlast := (hscan.run hacts' he).finished hend
    rw [Nat.zero_add] at hscan
    have hmid : m.daemon.lists = some (scanned d l s.db (rounds acts)).1 := by rw [hscan.1]
    have hdone : e.daemon.lists = some (scanDenyApps d (l, s.db)).1 := by rw [hlast]
    rw [rootAllowed_snd_of_some hlists huid, rootAllowed_snd_of_some hmid huid,
      rootAllowed_snd_of_some hdone huid, Bool.not_inj_iff, Bool.not_inj_iff]
    rcases lt_or_ge (toAppId uid) 90000 with happ | hisolated
    · refine (or_congr Bool.eq_iff_iff Bool.eq_iff_iff).trans ?_
      rw [← scanned_of_le le_rfl, isDenyTargetUid_scanned happ, isDenyTargetUid_scanned happ,
        take_length]
      constructor
      · rintro hor l' hl' ⟨-, -, hbefore, ⟨pkg, hafter⟩, hwaiting⟩
        cases hl'
        have hmem : pkg ∈ l.pkgToProcs.keys := by
          obtain ⟨proc, he⟩ := hafter.2.2
          exact mem_keys.mpr he.mem
        obtain ⟨q, hq, hreadded⟩ : ∃ q ∈ l.pkgToProcs.keys.take (rounds acts),
            Readded d l (toAppId uid) q :=
          hor.elim (·.mpr hbefore) (·.mpr ⟨pkg, hmem, hafter⟩)
        exact hwaiting q hq hreadded
      · intro hover
        by_cases hmidDenied : ∃ q ∈ l.pkgToProcs.keys.take (rounds acts),
            Readded d l (toAppId uid) q
        · obtain ⟨q, hq, hreadded⟩ := hmidDenied
          exact .inr (iff_of_true ⟨q, hq, hreadded⟩ ⟨q, mem_of_mem_take hq, hreadded⟩)
        · by_cases hbefore : l.isDenyTargetUid uid = true
          · refine .inr (iff_of_false hmidDenied ?_)
            rintro ⟨pkg, -, hafter⟩
            refine hover l rfl ⟨huid, happ, hbefore, ⟨pkg, hafter⟩, fun q hq hreadded => ?_⟩
            exact hmidDenied ⟨q, hq, hreadded⟩
          · exact .inl (iff_of_false hmidDenied hbefore)
    · refine iff_of_true (.inl ?_) fun l _ hover => absurd hover.app (Int.not_lt.mpr hisolated)
      rw [Bool.eq_iff_iff, isDenyTargetUid_isolated_iff hisolated,
        isDenyTargetUid_isolated_iff hisolated]
      simp only [scanned, entry_scan]
      exact exists_congr fun proc => and_iff_left fun hstale => hstale.2.1 rfl

lemma twoApps_pos : 0 < 10001 := by decide

lemma twoApps_lt : 10001 < 100000 := by decide

/-- A device with two apps. -/
def twoApps : AppData where
  users := [0]
  apps pkg :=
    if pkg = str "com.app" then some ⟨10001, [0], twoApps_pos, twoApps_lt⟩
    else if pkg = str "com.bank" then some ⟨10002, [0], by decide, by decide⟩
    else none
  isolated := by decide

/-- Both are on the denylist, and the data are loaded. -/
def bothDenied : Daemon :=
  (addList twoApps (addList twoApps ⟨[], none⟩ (str "com.app") []).1 (str "com.bank") []).1

/-- After the first of two rounds the first app is denied root, as before or after the scan. -/
theorem rootAllowed_between_rounds : ∃ m e,
    (restartSystem twoApps).run ⟨bothDenied, .ready⟩ [.clear, .round] = some m ∧
      (restartSystem twoApps).run m [.round] = some e ∧ e.scanner = .iter none ∧
      ((rootAllowed twoApps m.daemon 10001).2 = (rootAllowed twoApps bothDenied 10001).2 ∨
        (rootAllowed twoApps m.daemon 10001).2 = (rootAllowed twoApps e.daemon 10001).2) := by
  obtain ⟨m, hm⟩ : ∃ m,
      (restartSystem twoApps).run ⟨bothDenied, .ready⟩ [.clear, .round] = some m := ⟨_, rfl⟩
  obtain ⟨e, he⟩ : ∃ e, (restartSystem twoApps).run m [.round] = some e := by
    cases hm
    exact ⟨_, rfl⟩
  have hend : e.scanner = .iter none := by
    cases hm
    cases he
    decide
  refine ⟨m, e, hm, he, hend, (rootAllowed_between_iff ?_ hm he hend 10001).mpr ?_⟩
  · intro a ha
    rcases mem_cons.mp ha with rfl | ha
    · trivial
    · obtain rfl := mem_singleton.mp ha
      trivial
  · rintro l hl ⟨-, -, -, -, hwaiting⟩
    cases hl
    refine hwaiting (str "com.app") (by decide) ⟨⟨by decide, by decide, by decide⟩, by decide, ?_⟩
    exact ⟨str "com.app", _, rfl, by decide⟩

/-- Before the first round the index is empty: the app is granted root, though it is denied root
before the scan and after it. -/
theorem root_granted_during_scan : ∃ m e,
    (restartSystem twoApps).run ⟨bothDenied, .ready⟩ [.clear] = some m ∧
      (restartSystem twoApps).run m [.round, .round] = some e ∧ e.scanner = .iter none ∧
      (rootAllowed twoApps bothDenied 10001).2 = false ∧
      (rootAllowed twoApps m.daemon 10001).2 = true ∧
      (rootAllowed twoApps e.daemon 10001).2 = false := by
  refine ⟨_, _, rfl, rfl, ?_, ?_, ?_, ?_⟩
  · decide
  · decide
  · decide
  · decide

end Magisk.Core.Deny
