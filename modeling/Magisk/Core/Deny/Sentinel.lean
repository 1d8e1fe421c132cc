import Magisk.Core.Deny.Names

/-!
# Sentinel rows

A package that is locked before it has a process gets a row with an empty process, so that the lock
persists.  Whether that row is inserted, kept or deleted is decided from the lists in memory.

* `cut`: the statements that do not fit the buffer they are printed into;
* `PkgRequest`: the requests for one package;
* `Lockable`: a lock request succeeds, and a sentinel row is there only while the package is locked;
* `Strands`: the request that leaves a sentinel row behind;
* `sentinelOk_request_iff`: what one request does;
* `lockable_iff`: what a run of requests does;
* `lock_fails`: a package whose sentinel row is left behind cannot be locked again.
-/

namespace Magisk.Core.Deny

open Magisk.Base Option Std.ExtTreeMap

/-! ### Statements that do not fit -/

/-- The text that is printed for a statement. -/
def DbStmt.sql : DbStmt → Sql
  | .insert r => if r.locked = 0 then .add r.packageName r.process else .sentinel r.packageName
  | .deletePkg pkg => .rmPkg pkg
  | .deleteProc pkg proc => if proc = [] then .dropSentinel pkg else .rmProc pkg proc
  | .updateLocked pkg locked => .setLocked (locked ≠ 0) pkg

/-- The statements that fail because their text is cut.  The others behave as they should. -/
def cut : Failing where
  select := false
  stmt stmt := sqlSize ≤ stmt.sql.text.length

/-- The name is short enough to be printed with a sentinel row. -/
def Short (pkg : Str) : Prop := pkg.length + 70 < sqlSize

section Cut

variable {pkg : Str}

lemma cut_insert : cut.stmt (.insert ⟨pkg, [], 1⟩) = false ↔ Short pkg := by
  have hsql : (DbStmt.insert ⟨pkg, [], 1⟩).sql = .sentinel pkg := rfl
  simp only [cut, hsql, Sql.length_sentinel, decide_eq_false_iff_not, not_le]
  exact Iff.rfl

lemma Short.cut_delete (h : Short pkg) : cut.stmt (.deleteProc pkg []) = false := by
  have hsql : (DbStmt.deleteProc pkg []).sql = .dropSentinel pkg := rfl
  rw [Short] at h
  simp only [cut, hsql, length_dropSentinel, decide_eq_false_iff_not]
  omega

lemma Short.cut_update (h : Short pkg) (locked : Int) :
    cut.stmt (.updateLocked pkg locked) = false := by
  have hsql : (DbStmt.updateLocked pkg locked).sql = .setLocked (locked ≠ 0) pkg := rfl
  rw [Short] at h
  simp only [cut, hsql, Sql.length_setLocked, decide_eq_false_iff_not]
  omega

end Cut

/-! ### Requests for one package -/

/-- The requests for a package. -/
inductive PkgRequest where
  | lock
  | unlock
  | add (proc : Str)
  | rm (proc : Str)

/-- The request, with the package it is for. -/
def PkgRequest.on (pkg : Str) : PkgRequest → Request
  | .lock => .setLocked pkg true
  | .unlock => .setLocked pkg false
  | .add proc => .add pkg proc
  | .rm proc => .rm pkg proc

/-- The table has a sentinel row for the package. -/
def HasSentinel (db : List Row) (pkg : Str) : Prop := ∃ v, ⟨pkg, [], v⟩ ∈ db

/-- A sentinel row is there only while the package is locked. -/
def SentinelOk (pkg : Str) (s : Daemon) : Prop :=
  HasSentinel s.db pkg → pkg ∈ s.view.lockedPkgs

/-- A lock request succeeds, whatever apps are installed, and there is no sentinel row without a
lock. -/
structure Lockable (pkg : Str) (s : Daemon) : Prop where
  lock : ∀ d, (cut.setLocked d s pkg true).2 = .ok
  sentinel : SentinelOk pkg s

/-- The package stays so throughout a run of requests, each with the apps it finds installed. -/
def LockableRun (pkg : Str) : Daemon → List (AppData × PkgRequest) → Prop
  | s, [] => Lockable pkg s
  | s, (d, r) :: rs => Lockable pkg s ∧ LockableRun pkg (cut.request d s (r.on pkg)).1 rs

/-- The request unlocks a package that has a sentinel row and processes. -/
def Strands (pkg : Str) (s : Daemon) : PkgRequest → Prop
  | .unlock => HasSentinel s.db pkg ∧ pkg ∈ s.view.pkgToProcs
  | _ => False

/-- No request of the run does. -/
def SparesRun (pkg : Str) : Daemon → List (AppData × PkgRequest) → Prop
  | _, [] => True
  | s, (d, r) :: rs => ¬Strands pkg s r ∧ SparesRun pkg (cut.request d s (r.on pkg)).1 rs

/-! ### Sentinel rows in the table -/

section Table

variable {f : Failing} {d : AppData} {s : Daemon} {db db' : List Row} {l : Lists} {stmt : DbStmt}
  {pkg : Str}

lemma eq_sentinel (h : SameKey r ⟨pkg, [], v⟩) : r = ⟨pkg, [], r.locked⟩ := by
  obtain ⟨q, p, v'⟩ := r
  obtain ⟨hq, hp⟩ := h
  simp only at hq hp
  rw [hq, hp]

/-- The sentinel row after a statement: it was there and is kept, or it is inserted. -/
lemma hasSentinel_dbExec (h : dbExec db stmt = some db') : HasSentinel db' pkg ↔
    (HasSentinel db pkg ∧ stmt.deletes ⟨pkg, [], 0⟩ = false) ∨
      ∃ v, stmt.added = some ⟨pkg, [], v⟩ := by
  constructor
  · rintro ⟨v, hv⟩
    rcases (mem_dbExec h).mp hv with ⟨r, hr, hkeep⟩ | hadded
    · obtain ⟨hdel, hrel⟩ := keep_eq_some.mp hkeep
      have hkey : SameKey r ⟨pkg, [], v⟩ := hrel ▸ sameKey_relock stmt r
      have hkey' : SameKey ⟨pkg, [], 0⟩ r := ⟨hkey.1.symm, hkey.2.symm⟩
      exact .inl ⟨⟨r.locked, eq_sentinel hkey ▸ hr⟩, (deletes_congr hkey').trans hdel⟩
    · exact .inr ⟨v, hadded⟩
  · rintro (⟨⟨v, hv⟩, hdel⟩ | ⟨v, hadded⟩)
    · have hkey := sameKey_relock stmt ⟨pkg, [], v⟩
      have hkey' : SameKey ⟨pkg, [], v⟩ ⟨pkg, [], 0⟩ := ⟨rfl, rfl⟩
      refine ⟨(stmt.relock ⟨pkg, [], v⟩).locked, (mem_dbExec h).mpr (.inl ⟨_, hv, ?_⟩)⟩
      exact keep_eq_some.mpr ⟨(deletes_congr hkey').trans hdel,
        eq_sentinel (v := v) ⟨hkey.1.symm, hkey.2.symm⟩⟩
    · exact ⟨v, (mem_dbExec h).mpr (.inr hadded)⟩

lemma finish_cases (f : Failing) (db : List Row) (l : Lists) (stmt : DbStmt) :
    (∃ db', dbExec db stmt = some db' ∧ (f.finish db l stmt).1 = ⟨db', some l⟩) ∨
      (f.finish db l stmt).1 = ⟨db, some l⟩ := by
  rw [Failing.finish, Failing.exec]
  split_ifs
  · exact .inr rfl
  · cases hdb : dbExec db stmt with
    | none => exact .inr rfl
    | some db' => exact .inl ⟨db', rfl, rfl⟩

lemma hasSentinel_finish (hadded : ∀ v, stmt.added ≠ some ⟨pkg, [], v⟩)
    (h : HasSentinel (f.finish db l stmt).1.db pkg) : HasSentinel db pkg := by
  rcases finish_cases f db l stmt with ⟨db', hdb, heq⟩ | heq
  · rw [heq, hasSentinel_dbExec hdb] at h
    exact (h.resolve_right fun ⟨v, hv⟩ => hadded v hv).1
  · rwa [heq] at h

lemma hasSentinel_finish_update (locked : Int) :
    HasSentinel (f.finish db l (.updateLocked pkg locked)).1.db pkg ↔ HasSentinel db pkg := by
  rcases finish_cases f db l (.updateLocked pkg locked) with ⟨db', hdb, heq⟩ | heq
  · rw [heq, hasSentinel_dbExec hdb]
    exact ⟨fun h => (h.resolve_right fun ⟨v, hv⟩ => by cases hv).1, fun h => .inl ⟨h, rfl⟩⟩
  · rw [heq]

/-- Deleting packages deletes no sentinel row of another. -/
lemma hasSentinel_execAll (ks : List Str) (db : List Row) :
    (HasSentinel (f.execAll db (ks.map .rmPkg)) pkg → HasSentinel db pkg) ∧
      (pkg ∉ ks → HasSentinel db pkg → HasSentinel (f.execAll db (ks.map .rmPkg)) pkg) := by
  induction ks generalizing db with
  | nil => exact ⟨id, fun _ => id⟩
  | cons k ks ih =>
    have hcons : f.execAll db ((k :: ks).map .rmPkg) =
        f.execAll ((f.exec db (.deletePkg k)).getD db) (ks.map .rmPkg) := rfl
    rw [hcons]
    rw [Failing.exec]
    split_ifs
    · exact ⟨(ih db).1, fun hout => (ih db).2 fun hk => hout (.tail _ hk)⟩
    · obtain ⟨db', hdb⟩ : ∃ db', dbExec db (.deletePkg k) = some db' := ⟨_, rfl⟩
      rw [hdb]
      refine ⟨fun h => ?_, fun hout h => (ih db').2 (fun hk => hout (.tail _ hk)) ?_⟩
      · exact (((hasSentinel_dbExec hdb).mp ((ih db').1 h)).resolve_right
          (by rintro ⟨v, ⟨⟩⟩)).1
      · refine (hasSentinel_dbExec hdb).mpr (.inl ⟨h, decide_eq_false fun hk => hout ?_⟩)
        exact hk ▸ .head _

end Table

/-! ### Loading -/

section Load

variable {f : Failing} {d : AppData} {s : Daemon} {db : List Row} {l : Lists} {pkg : Str}

lemma lockedPkgs_ensureData (h : f.ensureData d s = some (l, db)) :
    l.lockedPkgs = s.view.lockedPkgs := by
  rw [Daemon.view]
  cases hlists : s.lists with
  | some l' =>
    simp only [Failing.ensureData, hlists, Option.some.injEq, Prod.mk.injEq] at h
    rw [← h.1]
  | none => rw [Failing.lists_of_ensureData hlists h, lockedPkgs_scanDenyApps]

lemma hasSentinel_of_ensureData (h : f.ensureData d s = some (l, db)) (hdb : HasSentinel db pkg) :
    HasSentinel s.db pkg := by
  rw [Failing.db_ensureData h, Failing.loadSql] at hdb
  cases hlists : s.lists with
  | some l' =>
    rw [hlists] at hdb
    exact hdb
  | none =>
    simp only [hlists] at hdb
    split_ifs at hdb
    · exact hdb
    · exact (hasSentinel_execAll _ s.db).1 hdb

lemma not_scans_of_locked (h : pkg ∈ locked) : scans d locked pkg = false := by
  rw [scans, Std.ExtTreeSet.contains_iff_mem.mpr h, Bool.not_true, Bool.and_false, Bool.false_and]

section

variable (h : f.ensureData d s = some (l, db)) (hlocked : pkg ∈ s.view.lockedPkgs)

include h hlocked

/-- Loading keeps the sentinel row of a package that is locked. -/
lemma hasSentinel_ensureData (hdb : HasSentinel s.db pkg) : HasSentinel db pkg := by
  rw [Daemon.view] at hlocked
  rw [Failing.db_ensureData h, Failing.loadSql]
  cases hlists : s.lists with
  | some l' => exact hdb
  | none =>
    simp only [hlists] at hlocked ⊢
    split_ifs
    · exact hdb
    · refine (hasSentinel_execAll _ s.db).2 (fun hmem => ?_) hdb
      have hscan := (List.mem_filter.mp hmem).2
      rw [not_scans_of_locked hlocked] at hscan
      cases hscan

lemma mem_ensureData :
    pkg ∈ l.pkgToProcs ↔ pkg ∈ s.view.pkgToProcs := by
  rw [Daemon.view] at hlocked ⊢
  cases hlists : s.lists with
  | some l' =>
    simp only [Failing.ensureData, hlists, Option.some.injEq, Prod.mk.injEq] at h
    rw [← h.1]
  | none =>
    simp only [hlists] at hlocked ⊢
    rw [Failing.lists_of_ensureData hlists h, scanDenyApps, mem_scan]
    exact and_iff_left fun hstale => hstale.2.2.1 hlocked

end

lemma SentinelOk.ensureData (hok : SentinelOk pkg s) (h : f.ensureData d s = some (l, db))
    (hdb : HasSentinel db pkg) : pkg ∈ l.lockedPkgs := by
  rw [lockedPkgs_ensureData h]
  exact hok (hasSentinel_of_ensureData h hdb)

lemma exists_ensureData (d : AppData) (s : Daemon) : ∃ l db, cut.ensureData d s = some (l, db) := by
  rw [Failing.ensureData]
  cases s.lists with
  | some l => exact ⟨l, s.db, rfl⟩
  | none => exact ⟨_, _, rfl⟩

end Load

/-! ### One request -/

section Request

variable {d : AppData} {s : Daemon} {pkg : Str}

/-- Adding a process leaves the sentinel row alone. -/
lemma SentinelOk.addList (h : SentinelOk pkg s) (proc : Str) :
    SentinelOk pkg (cut.addList d s pkg proc).1 := by
  rw [Failing.addList]
  cases hv : validate pkg (addProc pkg proc) with
  | false => exact h
  | true =>
    obtain ⟨l, db, hdata⟩ := exists_ensureData d s
    have hlocked : (addMem d l pkg (addProc pkg proc)).1.lockedPkgs = l.lockedPkgs := by
      rcases addMem_cases d l pkg (addProc pkg proc) with ⟨hsame, -⟩ | hadd
      · rw [hsame]
      · rw [hadd]
        exact Lists.updateAppId_lockedPkgs _
    simp only [Bool.not_true, Bool.false_eq_true, if_false, hdata]
    rcases hmem : addMem d l pkg (addProc pkg proc) with ⟨l', _ | r⟩
    · rw [hmem] at hlocked
      intro hdb
      rw [Daemon.view, Failing.lists_finish]
      have hold : HasSentinel db pkg := by
        refine hasSentinel_finish (fun v hv' => ?_) hdb
        exact addProc_ne_nil hv (Row.mk.inj (some.inj hv')).2.1
      exact hlocked ▸ h.ensureData hdata hold
    · rw [hmem] at hlocked
      exact fun hdb => hlocked ▸ h.ensureData hdata hdb

/-- So does removing one. -/
lemma SentinelOk.rmList (h : SentinelOk pkg s) (proc : Str) :
    SentinelOk pkg (cut.rmList d s pkg proc).1 := by
  obtain ⟨l, db, hdata⟩ := exists_ensureData d s
  simp only [Failing.rmList, hdata]
  rcases rmMem_answer d l pkg proc with ⟨r, hr, -⟩ | ⟨-, procs, -, -, hr⟩
  · rw [hr]
    exact fun hdb => h.ensureData hdata hdb
  · rw [hr]
    intro hdb
    rw [Daemon.view, Failing.lists_finish]
    have hold : HasSentinel db pkg := by
      refine hasSentinel_finish (fun v hv => ?_) hdb
      split_ifs at hv <;> cases hv
    exact (lockedPkgs_removed procs).symm ▸ h.ensureData hdata hold

variable (hv : validate pkg [] = true) (hiso : pkg ≠ isolatedMagic)
include hv hiso

/-- After a lock request the package is locked, unless the request fails at once. -/
lemma SentinelOk.lock (h : SentinelOk pkg s) :
    SentinelOk pkg (cut.setLocked d s pkg true).1 := by
  obtain ⟨l, db, hdata⟩ := exists_ensureData d s
  have hlocked : ∀ (db : List Row) (stmt : DbStmt), SentinelOk pkg
      (cut.finish db { l with lockedPkgs := l.lockedPkgs.insert pkg } stmt).1 := by
    intro db stmt _
    rw [Daemon.view, Failing.lists_finish]
    exact Std.ExtTreeSet.mem_insert_self
  simp only [Failing.setLocked, if_neg hiso, hdata, hv, Bool.not_true, Bool.false_eq_true,
    if_false, if_true]
  split_ifs
  · exact hlocked db _
  · cases hinsert : cut.exec db (.insert ⟨pkg, [], 1⟩) with
    | none => exact fun hdb => h.ensureData hdata hdb
    | some db' => exact hlocked db' _

section

variable (hshort : Short pkg) (h : SentinelOk pkg s)

include hshort h

/-- After an unlock request a sentinel row is left if the package has processes. -/
lemma sentinelOk_unlock_iff :
    SentinelOk pkg (cut.setLocked d s pkg false).1 ↔ ¬Strands pkg s .unlock := by
  obtain ⟨l, db, hdata⟩ := exists_ensureData d s
  have hunlocked : ∀ (db : List Row) (stmt : DbStmt), SentinelOk pkg
      (cut.finish db { l with lockedPkgs := l.lockedPkgs.erase pkg } stmt).1 ↔
      ¬HasSentinel (cut.finish db { l with lockedPkgs := l.lockedPkgs.erase pkg } stmt).1.db
        pkg := by
    intro db stmt
    rw [SentinelOk, Daemon.view, Failing.lists_finish]
    have hout : pkg ∉ l.lockedPkgs.erase pkg := by simp
    exact ⟨fun himp hdb => hout (himp hdb), fun hno hdb => absurd hdb hno⟩
  -- the loaded data have the sentinel row and the processes that were there
  have hsame : (HasSentinel db pkg ∧ pkg ∈ l.pkgToProcs) ↔ Strands pkg s .unlock := by
    constructor
    · rintro ⟨hdb, hlisted⟩
      have hold := hasSentinel_of_ensureData hdata hdb
      exact ⟨hold, (mem_ensureData hdata (h hold)).mp hlisted⟩
    · rintro ⟨hold, hlisted⟩
      exact ⟨hasSentinel_ensureData hdata (h hold) hold,
        (mem_ensureData hdata (h hold)).mpr hlisted⟩
  rw [← hsame]
  simp only [Failing.setLocked, if_neg hiso, hdata, hv, Bool.not_true, Bool.false_eq_true,
    if_false]
  split_ifs with hlisted
  · rw [hunlocked, hasSentinel_finish_update,
      and_iff_left (contains_iff_mem.mp hlisted)]
  · rw [hunlocked, hasSentinel_finish_update]
    obtain ⟨db', hdb'⟩ : ∃ db', dbExec db (.deleteProc pkg []) = some db' := ⟨_, rfl⟩
    rw [Failing.exec, hshort.cut_delete, if_neg Bool.false_ne_true, hdb', getD_some,
      hasSentinel_dbExec hdb']
    refine iff_of_true ?_ fun hboth => hlisted (contains_iff_mem.mpr hboth.2)
    rintro (⟨-, hdel⟩ | ⟨v, hadded⟩)
    · exact absurd hdel (by simp [DbStmt.deletes])
    · cases hadded

/-- **One request** leaves no sentinel row without a lock just if it is not an unlock of a package
that has both a sentinel row and processes. -/
lemma sentinelOk_request_iff (r : PkgRequest) :
    SentinelOk pkg (cut.request d s (r.on pkg)).1 ↔ ¬Strands pkg s r := by
  cases r with
  | lock => exact iff_of_true (h.lock hv hiso) id
  | unlock => exact sentinelOk_unlock_iff hv hiso hshort h
  | add proc => exact iff_of_true (h.addList proc) id
  | rm proc => exact iff_of_true (h.rmList proc) id

/-- A lock request succeeds if there is no sentinel row without a lock. -/
lemma SentinelOk.lockable : Lockable pkg s := by
  refine ⟨fun d => ?_, h⟩
  obtain ⟨l, db, hdata⟩ := exists_ensureData d s
  have hok : ∀ (db : List Row) (l : Lists), (cut.finish db l (.updateLocked pkg 1)).2 = .ok := by
    intro db l
    rw [Failing.finish, Failing.exec, hshort.cut_update]
    rfl
  simp only [Failing.setLocked, if_neg hiso, hdata, hv, Bool.not_true, Bool.false_eq_true,
    if_false, if_true]
  split_ifs with hthere
  · exact hok db _
  · have hout : pkg ∉ l.lockedPkgs := fun hmem => hthere (by
      rw [Std.ExtTreeSet.contains_iff_mem.mpr hmem, Bool.true_or])
    obtain ⟨db', hdb'⟩ : ∃ db', dbExec db (.insert ⟨pkg, [], 1⟩) = some db' := by
      refine exists_dbExec.mpr ?_
      rintro _ ⟨rfl⟩ r hr hkey
      exact hout (h.ensureData hdata ⟨r.locked, eq_sentinel hkey ▸ hr⟩)
    rw [Failing.exec, cut_insert.mpr hshort, hdb']
    exact hok db' _

end

/-- A package with a long name, which has no rows, cannot be locked. -/
lemma short_of_lockable (hl : s.lists = none) (hdb : ∀ r ∈ s.db, r.packageName ≠ pkg)
    (h : Lockable pkg s) : Short pkg := by
  by_contra hlong
  obtain ⟨l, db, hdata⟩ := exists_ensureData oneApp.data s
  have hloads := loads_load s.db
  have hview : s.view = s.db.foldl Lists.loadRow Lists.empty := by rw [Daemon.view, hl]
  have hlocked : ¬l.lockedPkgs.contains pkg = true := by
    rw [Std.ExtTreeSet.contains_iff_mem, lockedPkgs_ensureData hdata, hview, hloads.locked]
    rintro ⟨proc, v, -, hmem⟩
    exact hdb _ hmem rfl
  have hlisted : ¬l.pkgToProcs.contains pkg = true := by
    intro hmem
    rw [Failing.lists_of_ensureData hl hdata] at hmem
    obtain ⟨p, he⟩ := hloads.noEmptyKey pkg (mem_scanDenyApps hmem).1
    obtain ⟨-, v, hrow⟩ := (hloads.entry pkg p).mp he
    exact hdb _ hrow rfl
  have hcut : cut.exec db (.insert ⟨pkg, [], 1⟩) = none := by
    rw [Failing.exec, if_pos]
    rw [← Bool.not_eq_false, cut_insert]
    exact hlong
  have hlock := h.lock oneApp.data
  simp only [Failing.setLocked, if_neg hiso, hdata, hv, Bool.not_true, Bool.false_eq_true,
    if_false, if_true, hlocked, hlisted, Bool.or_self, hcut] at hlock
  cases hlock

/-- What a run of requests does, from a state without a sentinel row that is left behind. -/
lemma lockableRun_iff (hshort : Short pkg) (h : SentinelOk pkg s)
    (rs : List (AppData × PkgRequest)) : LockableRun pkg s rs ↔ SparesRun pkg s rs := by
  induction rs generalizing s with
  | nil => exact iff_of_true (h.lockable hv hiso hshort) trivial
  | cons dr rs ih =>
    obtain ⟨d, r⟩ := dr
    rw [LockableRun, and_iff_right (h.lockable hv hiso hshort)]
    have hstep := @sentinelOk_request_iff d s pkg hv hiso hshort h r
    constructor
    · intro hrun
      have hnext : SentinelOk pkg (cut.request d s (r.on pkg)).1 := by
        cases rs with
        | nil => exact hrun.sentinel
        | cons dr' rs => exact hrun.1.sentinel
      exact ⟨hstep.mp hnext, (ih hnext).mp hrun⟩
    · rintro ⟨hspare, hrun⟩
      exact (ih (hstep.mpr hspare)).mpr hrun

end Request

/-! ### Runs -/

/-- **Locks and sentinel rows.**  A package that has no rows when the daemon starts can be locked
after every request of a run, and has a sentinel row only while it is locked, exactly if its name is
short and no request unlocks it while it has both a sentinel row and processes. -/
theorem lockable_iff (pkg : Str) (hv : validate pkg [] = true) (hiso : pkg ≠ isolatedMagic)
    (s : Daemon) (hl : s.lists = none) (hdb : ∀ r ∈ s.db, r.packageName ≠ pkg)
    (rs : List (AppData × PkgRequest)) :
    LockableRun pkg s rs ↔ Short pkg ∧ SparesRun pkg s rs := by
  have hok : SentinelOk pkg s := fun ⟨v, hmem⟩ => absurd rfl (hdb _ hmem)
  constructor
  · intro hrun
    have hfirst : Lockable pkg s := by
      cases rs with
      | nil => exact hrun
      | cons dr rs => exact hrun.1
    have hshort := short_of_lockable hv hiso hl hdb hfirst
    exact ⟨hshort, (lockableRun_iff hv hiso hshort hok rs).mp hrun⟩
  · rintro ⟨hshort, hspares⟩
    exact (lockableRun_iff hv hiso hshort hok rs).mpr hspares

/-- A package is locked, and unlocked before it gets a process. -/
theorem lockable_com_app : LockableRun (str "com.app") ⟨[], none⟩
    [(oneApp.data, .lock), (oneApp.data, .unlock), (oneApp.data, .add (str "com.app"))] := by
  have hshort : Short (str "com.app") := by
    rw [Short]
    decide
  refine (lockable_iff (str "com.app") (by decide) (by decide) ⟨[], none⟩ rfl nofun _).mpr
    ⟨hshort, id, ?_, id, trivial⟩
  rintro ⟨-, hlisted⟩
  exact absurd (contains_iff_mem.mpr hlisted) (by decide)

/-- The daemon after a package is locked, gets a process, is unlocked, and loses its process. -/
def stranded : Daemon :=
  [PkgRequest.lock, .add (str "com.app"), .unlock, .rm (str "com.app")].foldl
    (fun s r => (cut.request oneApp.data s (r.on (str "com.app"))).1) ⟨[], none⟩

/-- The sentinel row is still there, and the package cannot be locked again. -/
theorem lock_fails : stranded.db = [⟨str "com.app", [], 0⟩] ∧
    stranded.view.lockedPkgs.contains (str "com.app") = false ∧
    (cut.setLocked oneApp.data stranded (str "com.app") true).2 = .error ∧
    ¬LockableRun (str "com.app") ⟨[], none⟩
      [(oneApp.data, .lock), (oneApp.data, .add (str "com.app")), (oneApp.data, .unlock),
        (oneApp.data, .rm (str "com.app"))] := by
  have hlock : (cut.setLocked oneApp.data stranded (str "com.app") true).2 = .error := by
    decide +kernel
  refine ⟨by decide +kernel, by decide +kernel, hlock, fun hrun => ?_⟩
  have hlast : Lockable (str "com.app") stranded := hrun.2.2.2.2
  exact absurd ((hlast.lock oneApp.data).symm.trans hlock) (by decide)

end Magisk.Core.Deny
