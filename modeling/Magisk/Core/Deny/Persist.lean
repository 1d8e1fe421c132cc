import Magisk.Core.Deny.Root
import Magisk.Lib.Commute

/-!
# The denylist in memory and in the database

Requests of several clients.  Each changes the lists in memory under the lock, and
writes to the database after the lock is released, so that statements can reach
the database in another order than their requests changed the lists.

* `plan`: what a request does under the lock, and the statement it leaves for later;
* `persistSystem`: clients that take turns;
* `Loads`: what `ensure_data` reads from a table;
* `Conflict`, `indep_of_not_conflict`: the statements whose order matters;
* `loads_plan`: requests one at a time keep both sides the same;
* `persisted`: so do clients whose conflicting statements keep their order;
* `removed_comes_back`: two clients whose statements do not.
-/

namespace Magisk.Core.Deny

open Magisk.Base Magisk.Lib List Option Std ExtTreeMap

variable {stmt : DbStmt} {r : Request} {d : AppData} {s : Daemon}

/-! ### Statements on the table -/

/-- Does the statement delete the row? -/
def DbStmt.deletes : DbStmt → Row → Bool
  | .deletePkg pkg, r => r.packageName = pkg
  | .deleteProc pkg proc, r => r.packageName = pkg ∧ r.process = proc
  | _, _ => false

/-- The row with the lock that the statement gives it. -/
def DbStmt.relock : DbStmt → Row → Row
  | .updateLocked pkg locked, r => if r.packageName = pkg then { r with locked := locked } else r
  | _, r => r

/-- What becomes of a row that is there. -/
def DbStmt.keep (stmt : DbStmt) (r : Row) : Option Row :=
  if stmt.deletes r then none else some (stmt.relock r)

/-- The row that is added. -/
def DbStmt.added : DbStmt → Option Row
  | .insert r => some r
  | _ => none

/-- Rows with the same primary key. -/
def SameKey (r r' : Row) : Prop := r.packageName = r'.packageName ∧ r.process = r'.process

section Table

variable {db db' : List Row} {r : Row}

/-- A statement succeeds unless the row it adds is there. -/
lemma exists_dbExec : (∃ db', dbExec db stmt = some db') ↔
    ∀ r, stmt.added = some r → ∀ r' ∈ db, ¬ SameKey r' r := by
  cases stmt with
  | insert r =>
    simp only [dbExec, DbStmt.added, Option.some.injEq, forall_eq', SameKey,
      Option.ite_none_left_eq_some, List.any_eq_true, Bool.and_eq_true, decide_eq_true_eq]
    constructor
    · rintro ⟨db', hno, -⟩ r' hr' hkey
      exact hno ⟨r', hr', hkey⟩
    · exact fun h => ⟨_, fun ⟨r', hr', hkey⟩ => h r' hr' hkey, rfl⟩
  | deletePkg pkg => exact ⟨fun _ r hr => (by cases hr), fun _ => ⟨_, rfl⟩⟩
  | deleteProc pkg proc => exact ⟨fun _ r hr => (by cases hr), fun _ => ⟨_, rfl⟩⟩
  | updateLocked pkg locked => exact ⟨fun _ r hr => (by cases hr), fun _ => ⟨_, rfl⟩⟩

lemma sameKey_relock (stmt : DbStmt) (r : Row) : SameKey r (stmt.relock r) := by
  cases stmt with
  | updateLocked pkg locked =>
    rw [DbStmt.relock]
    split_ifs <;> exact ⟨rfl, rfl⟩
  | _ => exact ⟨rfl, rfl⟩

lemma deletes_congr (h : SameKey r r') : stmt.deletes r = stmt.deletes r' := by
  cases stmt <;> simp only [DbStmt.deletes, h.1, h.2]

lemma keep_eq_some : stmt.keep r = some r' ↔ stmt.deletes r = false ∧ stmt.relock r = r' := by
  rw [DbStmt.keep, ite_none_left_eq_some, some_inj, Bool.not_eq_true]

/-- The rows after a statement: those that are kept, and the one that is added. -/
lemma mem_dbExec (h : dbExec db stmt = some db') :
    r ∈ db' ↔ (∃ r₀ ∈ db, stmt.keep r₀ = some r) ∨ stmt.added = some r := by
  simp only [keep_eq_some]
  cases stmt with
  | insert r' =>
    simp only [dbExec, ite_none_left_eq_some, Option.some.injEq] at h
    rw [← h.2]
    simp [DbStmt.deletes, DbStmt.relock, DbStmt.added, eq_comm]
  | deletePkg pkg =>
    cases h
    simp [DbStmt.deletes, DbStmt.relock, DbStmt.added]
  | deleteProc pkg proc =>
    cases h
    simp only [mem_filter, DbStmt.deletes, DbStmt.relock, DbStmt.added, decide_eq_true_eq,
      decide_eq_false_iff_not, reduceCtorEq, or_false]
    exact ⟨fun hr => ⟨r, hr.1, hr.2, rfl⟩, fun ⟨_, hr, hne, heq⟩ => heq ▸ ⟨hr, hne⟩⟩
  | updateLocked pkg locked =>
    cases h
    simp [DbStmt.deletes, DbStmt.relock, DbStmt.added]

end Table

/-- The statements, on tables of the same rows. -/
def tableActions : Actions (List Row) DbStmt where
  act := dbExec
  same db db' := ∀ r, r ∈ db ↔ r ∈ db'
  refl _ _ := Iff.rfl
  symm h r := (h r).symm
  trans h h' r := (h r).trans (h' r)
  respects := by
    intro db db₂ db' stmt hsame h
    obtain ⟨db₂', h'⟩ := exists_dbExec.mpr fun r hr r' hr' =>
      exists_dbExec.mp ⟨db', h⟩ r hr r' ((hsame r').mpr hr')
    refine ⟨db₂', h', fun r => ?_⟩
    rw [mem_dbExec h, mem_dbExec h']
    simp [hsame]

/-- Two statements whose order matters. -/
def Conflict : DbStmt → DbStmt → Prop
  | .insert r, .insert r' => SameKey r r'
  | .insert r, .deletePkg pkg => r.packageName = pkg
  | .deletePkg pkg, .insert r => r.packageName = pkg
  | .insert r, .deleteProc pkg proc => r.packageName = pkg ∧ r.process = proc
  | .deleteProc pkg proc, .insert r => r.packageName = pkg ∧ r.process = proc
  | .insert r, .updateLocked pkg locked => r.packageName = pkg ∧ r.locked ≠ locked
  | .updateLocked pkg locked, .insert r => r.packageName = pkg ∧ r.locked ≠ locked
  | .updateLocked pkg locked, .updateLocked pkg' locked' => pkg = pkg' ∧ locked ≠ locked'
  | _, _ => False

section Conflict

variable {a b : DbStmt} {r r' : Row}

lemma Conflict.symm (h : Conflict a b) : Conflict b a := by
  cases a <;> cases b <;> simp only [Conflict, SameKey] at h ⊢ <;> simp_all [eq_comm]

variable (h : ¬ Conflict a b)

include h

lemma relock_comm (r : Row) :
    b.relock (a.relock r) = a.relock (b.relock r) := by
  cases a with
  | updateLocked pkg locked =>
    cases b with
    | updateLocked pkg' locked' =>
      simp only [Conflict] at h
      simp only [DbStmt.relock]
      split_ifs <;> simp_all
    | _ => rfl
  | _ => rfl

lemma keep_comm (r : Row) :
    (a.keep r).bind b.keep = (b.keep r).bind a.keep := by
  have ha : a.deletes (b.relock r) = a.deletes r := (deletes_congr (sameKey_relock b r)).symm
  have hb : b.deletes (a.relock r) = b.deletes r := (deletes_congr (sameKey_relock a r)).symm
  simp only [DbStmt.keep]
  split_ifs <;> simp_all [DbStmt.keep, relock_comm h]

/-- Without a conflict, a row that is added is left alone. -/
lemma keep_added (hr : a.added = some r) : b.keep r = some r := by
  cases a with
  | insert _ =>
    cases hr
    rw [keep_eq_some]
    cases b with
    | insert _ => exact ⟨rfl, rfl⟩
    | deletePkg pkg => exact ⟨decide_eq_false h, rfl⟩
    | deleteProc pkg proc => exact ⟨decide_eq_false h, rfl⟩
    | updateLocked pkg locked =>
      refine ⟨rfl, ?_⟩
      rw [DbStmt.relock]
      split_ifs with hpkg
      · obtain rfl : _ = locked := not_not.mp fun hne => h ⟨hpkg, hne⟩
        rfl
      · rfl
  | _ => cases hr

lemma not_sameKey_added (hr : a.added = some r) (hr' : b.added = some r') :
    ¬ SameKey r r' := by
  cases a with
  | insert _ =>
    cases b with
    | insert _ =>
      cases hr
      cases hr'
      exact h
    | _ => cases hr'
  | _ => cases hr

lemma exists_dbExec_after
    (ha : dbExec db a = some da) (hb : dbExec db b = some db_b) : ∃ x, dbExec da b = some x := by
  refine exists_dbExec.mpr fun r hr r' hr' hkey => ?_
  rcases (mem_dbExec ha).mp hr' with ⟨r₀, hr₀, hkeep⟩ | hadded
  · have hsame := sameKey_relock a r₀
    rw [(keep_eq_some.mp hkeep).2] at hsame
    exact exists_dbExec.mp ⟨db_b, hb⟩ r hr r₀ hr₀ ⟨hsame.1.trans hkey.1, hsame.2.trans hkey.2⟩
  · exact not_sameKey_added h hadded hr hkey

/-- The rows after two statements. -/
lemma mem_dbExec_dbExec (ha : dbExec db a = some da) (hx : dbExec da b = some x) : r ∈ x ↔
      (∃ r₀ ∈ db, (a.keep r₀).bind b.keep = some r) ∨ a.added = some r ∨ b.added = some r := by
  rw [mem_dbExec hx]
  simp only [mem_dbExec ha, bind_eq_some_iff]
  constructor
  · rintro (⟨r₁, ⟨r₀, hr₀, hkeep⟩ | hadded, hkeep'⟩ | hadded)
    · exact .inl ⟨r₀, hr₀, r₁, hkeep, hkeep'⟩
    · rw [keep_added h hadded] at hkeep'
      exact .inr (.inl (hadded.trans hkeep'))
    · exact .inr (.inr hadded)
  · rintro (⟨r₀, hr₀, r₁, hkeep, hkeep'⟩ | hadded | hadded)
    · exact .inl ⟨r₁, .inl ⟨r₀, hr₀, hkeep⟩, hkeep'⟩
    · exact .inl ⟨r, .inr hadded, keep_added h hadded⟩
    · exact .inr hadded

lemma indep_of_not_conflict : tableActions.Indep a b := by
  intro db da db_b ha hb
  have h' : ¬ Conflict b a := fun hc => h hc.symm
  obtain ⟨x, hx⟩ := exists_dbExec_after h ha hb
  obtain ⟨y, hy⟩ := exists_dbExec_after h' hb ha
  refine ⟨x, y, hx, hy, fun r => ?_⟩
  rw [mem_dbExec_dbExec h ha hx, mem_dbExec_dbExec h' hb hy, or_comm (a := a.added = some r)]
  simp [keep_comm h]

end Conflict

/-! ### Requests in two parts -/

/-- The requests that change the lists. -/
inductive Request where
  | add (pkg proc : Str)
  | rm (pkg proc : Str)
  | setLocked (pkg : Str) (locked : Bool)

/-- Does the request come to `ensure_data`? -/
def Request.needsData : Request → Bool
  | .add pkg proc => validate pkg (addProc pkg proc)
  | .rm _ _ => true
  | .setLocked pkg _ => pkg ≠ isolatedMagic

/-- What a request does once the data is loaded: the lists it leaves, the statements it
executes under the lock, and those it executes afterwards. -/
structure Plan where
  lists : Lists
  inLock : List DbStmt
  after : List DbStmt

/-- The parts of `add_list`, `rm_list` and `set_locked`. -/
def plan (d : AppData) (l : Lists) : Request → Plan
  | .add pkg proc =>
    match addMem d l pkg (addProc pkg proc) with
    | (l, some _) => ⟨l, [], []⟩
    | (l, none) => ⟨l, [], [.insert ⟨pkg, addProc pkg proc, 0⟩]⟩
  | .rm pkg proc =>
    match rmMem d l pkg proc with
    | (l, some _) => ⟨l, [], []⟩
    | (l, none) => ⟨l, [], [if proc = [] then .deletePkg pkg else .deleteProc pkg proc]⟩
  | .setLocked pkg locked =>
    if !validate pkg [] then ⟨l, [], []⟩
    else if locked then
      ⟨{ l with lockedPkgs := l.lockedPkgs.insert pkg },
        if l.lockedPkgs.contains pkg || l.pkgToProcs.contains pkg then []
        else [.insert ⟨pkg, [], 1⟩],
        [.updateLocked pkg 1]⟩
    else
      ⟨{ l with lockedPkgs := l.lockedPkgs.erase pkg },
        if l.pkgToProcs.contains pkg then [] else [.deleteProc pkg []],
        [.updateLocked pkg 0]⟩

/-- The daemon after a request. -/
def request (d : AppData) (s : Daemon) : Request → Daemon
  | .add pkg proc => (addList d s pkg proc).1
  | .rm pkg proc => (rmList d s pkg proc).1
  | .setLocked pkg locked => (setLocked d s pkg locked).1

lemma request_of_not_needsData (h : r.needsData = false) : request d s r = s := by
  cases r with
  | add pkg proc =>
    rw [Request.needsData] at h
    simp [request, addList, h]
  | rm pkg proc => cases h
  | setLocked pkg locked =>
    rw [Request.needsData, decide_eq_false_iff_not, not_not] at h
    rw [request, setLocked, if_pos h]

lemma actAll_singleton : tableActions.actAll db [stmt] = some db' ↔ dbExec db stmt = some db' := by
  rw [Actions.actAll_cons]
  constructor
  · rintro ⟨db₁, h, h'⟩
    exact some.inj h' ▸ h
  · exact fun h => ⟨db', h, rfl⟩

lemma finish_eq (h : dbExec db stmt = some db') : (finish db l stmt).1 = ⟨db', some l⟩ := by
  rw [finish, h]

lemma actAll_pair : tableActions.actAll db [stmt, stmt'] = some db' ↔
      ∃ db₁, dbExec db stmt = some db₁ ∧ dbExec db₁ stmt' = some db' := by
  rw [Actions.actAll_cons]
  constructor
  · rintro ⟨db₁, h, h'⟩
    exact ⟨db₁, h, actAll_singleton.mp h'⟩
  · rintro ⟨db₁, h, h'⟩
    exact ⟨db₁, h, actAll_singleton.mpr h'⟩

/-- `set_locked` does what it plans. -/
lemma setLocked_eq_plan (h : (Request.setLocked pkg locked).needsData = true)
    (hdb : tableActions.actAll (ensureData d s).2
      ((plan d (ensureData d s).1 (.setLocked pkg locked)).inLock ++
        (plan d (ensureData d s).1 (.setLocked pkg locked)).after) = some db) :
    (setLocked d s pkg locked).1 =
      ⟨db, some (plan d (ensureData d s).1 (.setLocked pkg locked)).lists⟩ := by
  rw [Request.needsData, decide_eq_true_eq] at h
  simp only [setLocked, if_neg h]
  simp only [plan] at hdb ⊢
  cases hv : validate pkg [] with
  | false =>
    simp only [hv, Bool.not_false, if_true] at hdb ⊢
    rw [← some.inj hdb]
  | true =>
    simp only [hv, Bool.not_true, Bool.false_eq_true, if_false] at hdb ⊢
    cases locked with
    | true =>
      simp only [if_true] at hdb ⊢
      split_ifs at hdb ⊢
      · exact finish_eq (actAll_singleton.mp hdb)
      · obtain ⟨db₁, hsentinel, hupdate⟩ := actAll_pair.mp hdb
        simp only [hsentinel]
        exact finish_eq hupdate
    | false =>
      simp only [Bool.false_eq_true, if_false] at hdb ⊢
      split_ifs at hdb ⊢
      · exact finish_eq (actAll_singleton.mp hdb)
      · obtain ⟨db₁, hsentinel, hupdate⟩ := actAll_pair.mp hdb
        rw [hsentinel]
        exact finish_eq hupdate

/-- A request does what it plans, with all of its statements. -/
lemma request_eq_plan (h : r.needsData = true) (hdb : tableActions.actAll (ensureData d s).2
      ((plan d (ensureData d s).1 r).inLock ++ (plan d (ensureData d s).1 r).after) = some db) :
    request d s r = ⟨db, some (plan d (ensureData d s).1 r).lists⟩ := by
  cases r with
  | add pkg proc =>
    rw [Request.needsData] at h
    simp only [request, addList, h, Bool.not_true, Bool.false_eq_true, if_false]
    simp only [plan] at hdb ⊢
    revert hdb
    rcases addMem d (ensureData d s).1 pkg (addProc pkg proc) with ⟨l, _ | r⟩ <;> intro hdb
    · exact finish_eq (actAll_singleton.mp hdb)
    · rw [← some.inj hdb]
  | rm pkg proc =>
    simp only [request, rmList]
    simp only [plan] at hdb ⊢
    revert hdb
    rcases rmMem d (ensureData d s).1 pkg proc with ⟨l, _ | r⟩ <;> intro hdb
    · exact finish_eq (actAll_singleton.mp hdb)
    · rw [← some.inj hdb]
  | setLocked pkg locked => exact setLocked_eq_plan h hdb

/-! ### Clients that take turns -/

/-- The daemon, and the statements of requests that have left the lock, in the order they
left it. -/
structure Shared where
  daemon : Daemon
  pending : List DbStmt

/-- A turn: a request goes through the lock, with the apps it finds installed, or a
statement that is pending is executed. -/
inductive Turn where
  | lock (d : AppData) (r : Request)
  | write (i : Nat)

/-- The turns, in which all statements succeed. -/
def Shared.step (s : Shared) : Turn → Option Shared
  | .lock d r =>
    if r.needsData then
      let (l, db) := ensureData d s.daemon
      let p := plan d l r
      (tableActions.actAll db p.inLock).map fun db =>
        ⟨⟨db, some p.lists⟩, s.pending ++ p.after⟩
    else some s
  | .write i =>
    s.pending[i]?.bind fun stmt =>
      (dbExec s.daemon.db stmt).map fun db => ⟨⟨db, s.daemon.lists⟩, s.pending.eraseIdx i⟩

/-- Clients start before the data is loaded, with any table. -/
def persistSystem : System Shared Turn where
  init s := s.daemon.lists = none ∧ s.pending = []
  step := Shared.step

/-- The turns that keep conflicting statements in order: no statement, whether it is
executed under the lock or after it, overtakes a pending one of an earlier request
that it conflicts with. -/
def TurnOk (s : Shared) : Turn → Prop
  | .lock d r => ∀ a ∈ s.pending, ∀ b ∈ (plan d (ensureData d s.daemon).1 r).inLock, ¬ Conflict a b
  | .write i => ∀ a ∈ s.pending.take i, ∀ b, s.pending[i]? = some b → ¬ Conflict a b

/-! ### What is loaded -/

/-- The lists hold what the table says: the processes of its rows but for the sentinel
rows, and the packages of its locked rows. -/
structure Loads (db : List Row) (l : Lists) : Prop where
  entry : ∀ pkg proc, l.Entry pkg proc ↔ proc ≠ [] ∧ ∃ v, ⟨pkg, proc, v⟩ ∈ db
  noEmptyKey : NoEmptyKey l
  locked : ∀ pkg, pkg ∈ l.lockedPkgs ↔ ∃ proc v, v ≠ 0 ∧ ⟨pkg, proc, v⟩ ∈ db

section Loads

variable {db db' : List Row} {l l' : Lists} {pkg proc : Str}

lemma Loads.congr (h : Loads db l) (hsame : ∀ r, r ∈ db ↔ r ∈ db') : Loads db' l := by
  obtain ⟨hentry, hkey, hlocked⟩ := h
  simp only [hsame] at hentry hlocked
  exact ⟨hentry, hkey, hlocked⟩

lemma Loads.of_eq (h : Loads db l) (hprocs : l'.pkgToProcs = l.pkgToProcs)
    (hlocked : l'.lockedPkgs = l.lockedPkgs) : Loads db l' := by
  obtain ⟨procs, ids, locked⟩ := l'
  obtain rfl := hprocs
  obtain rfl := hlocked
  exact ⟨h.entry, h.noEmptyKey, h.locked⟩

/-- Lists with the same entries have the same processes. -/
lemma pkgToProcs_eq (hl : NoEmptyKey l) (hl' : NoEmptyKey l')
    (h : ∀ pkg proc, l.Entry pkg proc ↔ l'.Entry pkg proc) : l.pkgToProcs = l'.pkgToProcs := by
  have hmem : ∀ pkg, pkg ∈ l.pkgToProcs ↔ pkg ∈ l'.pkgToProcs := by
    intro pkg
    constructor
    · intro hp
      obtain ⟨p, hp⟩ := hl pkg hp
      exact ((h pkg p).mp hp).mem
    · intro hp
      obtain ⟨p, hp⟩ := hl' pkg hp
      exact ((h pkg p).mpr hp).mem
  refine ext_getElem? fun {pkg} => ?_
  cases hprocs : l.pkgToProcs[pkg]? with
  | none =>
    refine (ExtTreeMap.getElem?_eq_none fun hp => ?_).symm
    rw [← hmem, mem_iff_isSome_getElem?, hprocs] at hp
    cases hp
  | some procs =>
    have hp : pkg ∈ l'.pkgToProcs := by
      rw [← hmem, mem_iff_isSome_getElem?, hprocs]
      rfl
    obtain ⟨procs', hprocs'⟩ :=
      isSome_iff_exists.mp (mem_iff_isSome_getElem?.mp hp)
    rw [hprocs', some_inj]
    refine ExtTreeSet.ext_mem fun proc => ?_
    have hproc := h pkg proc
    simp only [Lists.Entry, hprocs, hprocs', Option.some.injEq, exists_eq_left'] at hproc
    exact hproc

lemma Loads.unique (h : Loads db l) (h' : Loads db l') :
    l.pkgToProcs = l'.pkgToProcs ∧ l.lockedPkgs = l'.lockedPkgs := by
  constructor
  · exact pkgToProcs_eq h.noEmptyKey h'.noEmptyKey fun pkg proc =>
      (h.entry pkg proc).trans (h'.entry pkg proc).symm
  · exact ExtTreeSet.ext_mem fun pkg => (h.locked pkg).trans (h'.locked pkg).symm

/-- The entries after a row is loaded. -/
lemma entry_loadRow (r : Row) : (l.loadRow r).Entry pkg proc ↔
    l.Entry pkg proc ∨ (proc ≠ [] ∧ pkg = r.packageName ∧ proc = r.process) := by
  have hlock : ∀ locked, Lists.Entry { l with lockedPkgs := locked } pkg proc ↔ l.Entry pkg proc :=
    fun _ => Iff.rfl
  simp only [Lists.loadRow]
  split_ifs with hproc hlocked hlocked
  · rw [Lists.entry_addHideSet]
    grind
  · rw [Lists.entry_addHideSet]
    grind
  · rw [hlock]
    grind
  · grind

lemma locked_loadRow (r : Row) : pkg ∈ (l.loadRow r).lockedPkgs ↔
    pkg ∈ l.lockedPkgs ∨ (r.locked ≠ 0 ∧ pkg = r.packageName) := by
  by_cases hlocked : r.locked ≠ 0
  · have hset : (l.loadRow r).lockedPkgs = l.lockedPkgs.insert r.packageName := by
      simp only [Lists.loadRow]
      split_ifs <;> rfl
    rw [hset, ExtTreeSet.mem_insert, LawfulEqCmp.compare_eq_iff_eq, and_iff_right hlocked,
      or_comm, eq_comm]
  · have hset : (l.loadRow r).lockedPkgs = l.lockedPkgs := by
      simp only [Lists.loadRow]
      split_ifs <;> rfl
    rw [hset, or_iff_left fun h => hlocked h.1]

/-- One more row is loaded. -/
lemma Loads.loadRow (h : Loads db l) (r : Row) : Loads (db ++ [r]) (l.loadRow r) where
  entry pkg proc := by
    rw [entry_loadRow, h.entry]
    constructor
    · rintro (⟨hne, v, hv⟩ | ⟨hne, rfl, rfl⟩)
      · exact ⟨hne, v, mem_append_left _ hv⟩
      · exact ⟨hne, r.locked, mem_append_right _ (mem_singleton.mpr rfl)⟩
    · rintro ⟨hne, v, hv⟩
      rcases mem_append.mp hv with hv | hv
      · exact .inl ⟨hne, v, hv⟩
      · rw [← mem_singleton.mp hv]
        exact .inr ⟨hne, rfl, rfl⟩
  noEmptyKey := noEmptyKey_loadRow h.noEmptyKey r
  locked pkg := by
    rw [locked_loadRow, h.locked]
    constructor
    · rintro (⟨proc, v, hne, hv⟩ | ⟨hne, rfl⟩)
      · exact ⟨proc, v, hne, mem_append_left _ hv⟩
      · exact ⟨r.process, r.locked, hne, mem_append_right _ (mem_singleton.mpr rfl)⟩
    · rintro ⟨proc, v, hne, hv⟩
      rcases mem_append.mp hv with hv | hv
      · exact .inl ⟨proc, v, hne, hv⟩
      · rw [← mem_singleton.mp hv]
        exact .inr ⟨hne, rfl⟩

lemma loads_load (db : List Row) : Loads db (db.foldl Lists.loadRow Lists.empty) := by
  induction db using List.reverseRecOn with
  | nil => exact ⟨by simp [Lists.Entry, Lists.empty], fun q hq => by simp [Lists.empty] at hq,
      by simp [Lists.empty]⟩
  | append_singleton db r ih =>
    rw [foldl_append]
    exact ih.loadRow r

/-- Entries of packages that are not locked are deleted on both sides. -/
lemma Loads.delete (h : Loads db l) {D : Str → Str → Prop}
    (hmem : ∀ r, r ∈ db' ↔ r ∈ db ∧ ¬ D r.packageName r.process)
    (hD : ∀ q p, D q p → q ∉ l.lockedPkgs)
    (hentry : ∀ q p, l'.Entry q p ↔ l.Entry q p ∧ ¬ D q p) (hkey : NoEmptyKey l')
    (hlocked : l'.lockedPkgs = l.lockedPkgs) : Loads db' l' where
  entry q p := by
    rw [hentry, h.entry]
    simp only [hmem]
    constructor
    · rintro ⟨⟨hne, v, hv⟩, hno⟩
      exact ⟨hne, v, hv, hno⟩
    · rintro ⟨hne, v, hv, hno⟩
      exact ⟨⟨hne, v, hv⟩, hno⟩
  noEmptyKey := hkey
  locked q := by
    rw [hlocked, h.locked]
    simp only [hmem]
    constructor
    · rintro ⟨p, v, hne, hv⟩
      refine ⟨p, v, hne, hv, fun hdel => hD q p hdel ?_⟩
      exact (h.locked q).mpr ⟨p, v, hne, hv⟩
    · rintro ⟨p, v, hne, hv, -⟩
      exact ⟨p, v, hne, hv⟩

lemma mem_delete (h : dbExec db stmt = some db') (hadded : stmt.added = none)
    (hlock : ∀ r, stmt.relock r = r) (r : Row) : r ∈ db' ↔ r ∈ db ∧ ¬ stmt.deletes r = true := by
  rw [mem_dbExec h, hadded]
  simp [keep_eq_some, hlock]

/-- One round of a scan drops the same packages on both sides. -/
lemma Loads.scanPkg {s : Lists × List Row} (h : Loads s.2 s.1) (pkg : Str) :
    Loads (scanPkg d s pkg).2 (scanPkg d s pkg).1 := by
  rcases scanPkg_cases d s pkg with ⟨-, -, heq⟩ | ⟨hstale, -, heq⟩ | ⟨-, -, heq⟩
  · rw [heq]
    exact h
  · have hkey : NoEmptyKey (Deny.scanPkg d s pkg).1 := by
      intro q hq
      obtain ⟨hmem, hno⟩ := mem_scanPkg.mp hq
      obtain ⟨p, hp⟩ := h.noEmptyKey q hmem
      exact ⟨p, entry_scanPkg.mpr ⟨hp, hno⟩⟩
    refine h.delete (D := fun q _ => q = pkg) (fun r => ?_) (fun q _ hq => hq ▸ hstale.2.1)
      (fun q p => ?_) hkey lockedPkgs_scanPkg
    · rw [heq]
      simp
    · rw [heq, Lists.entry_erase]
  · rw [heq]
    exact h.of_eq (Lists.updateAppId_pkgToProcs _) (Lists.updateAppId_lockedPkgs _)

lemma Loads.scanDenyApps {s : Lists × List Row} (h : Loads s.2 s.1) :
    Loads (scanDenyApps d s).2 (scanDenyApps d s).1 := by
  have hloop : ∀ (ks : List Str) (s : Lists × List Row), Loads s.2 s.1 →
      Loads (ks.foldl (Deny.scanPkg d) s).2 (ks.foldl (Deny.scanPkg d) s).1 := by
    intro ks
    induction ks with
    | nil => exact fun _ h => h
    | cons k ks ih => exact fun s h => ih _ (h.scanPkg k)
  exact hloop _ _ (h.of_eq rfl rfl)

lemma loads_ensureData (h : s.lists = none) : Loads (ensureData d s).2 (ensureData d s).1 := by
  rw [ensureData, h]
  exact Loads.scanDenyApps (s := (_, s.db)) (loads_load s.db)

end Loads

/-! ### Requests one at a time -/

section Plan

variable {db db' : List Row} {l l' : Lists} {pkg proc : Str}

lemma mem_insertRow (h : dbExec db (.insert r₀) = some db') (r : Row) :
    r ∈ db' ↔ r ∈ db ∨ r = r₀ := by
  have hkeep : ∀ r₁ : Row, (DbStmt.insert r₀).keep r₁ = some r₁ := fun _ => rfl
  rw [mem_dbExec h]
  simp only [hkeep, DbStmt.added, Option.some.injEq, exists_eq_right, eq_comm (a := r₀)]

lemma addProc_ne_nil (h : validate pkg (addProc pkg proc) = true) : addProc pkg proc ≠ [] := by
  rw [addProc] at h ⊢
  split_ifs at h ⊢ with hproc
  · rintro rfl
    exact absurd h (by decide)
  · exact hproc

lemma not_entry_of_addMem (h : (addMem d l pkg proc).2 = none) : ¬ l.Entry pkg proc := by
  rintro ⟨procs, hprocs, hp⟩
  simp only [addMem] at h
  split_ifs at h with hid hnew
  simp only [Lists.addHideSet, Bool.not_eq_true', getD_eq_getD_getElem?, hprocs,
    getD_some] at hnew
  rw [ExtTreeSet.contains_iff_mem.mpr hp] at hnew
  cases hnew

/-- Both sides get the process. -/
lemma Loads.addMem (h : Loads db l) (hne : proc ≠ []) (hnone : (addMem d l pkg proc).2 = none) :
    ∃ db', dbExec db (.insert ⟨pkg, proc, 0⟩) = some db' ∧ Loads db' (addMem d l pkg proc).1 := by
  have hnew := not_entry_of_addMem hnone
  obtain ⟨db', hdb'⟩ : ∃ db', dbExec db (.insert ⟨pkg, proc, 0⟩) = some db' := by
    refine exists_dbExec.mpr ?_
    rintro r ⟨rfl⟩ ⟨q, p, v⟩ hr' ⟨rfl, rfl⟩
    exact hnew ((h.entry q p).mpr ⟨hne, v, hr'⟩)
  refine ⟨db', hdb', ?_⟩
  have hlists := (addMem_cases d l pkg proc).resolve_left fun hsame => hsame.2 hnone
  rw [hlists]
  refine ⟨fun q p => ?_, ?_, fun q => ?_⟩
  · rw [Lists.entry_updateAppId, Lists.entry_addHideSet, h.entry]
    simp only [mem_insertRow hdb']
    constructor
    · rintro (⟨hp, v, hv⟩ | ⟨rfl, rfl⟩)
      · exact ⟨hp, v, .inl hv⟩
      · exact ⟨hne, 0, .inr rfl⟩
    · rintro ⟨hp, v, hv | hv⟩
      · exact .inl ⟨hp, v, hv⟩
      · obtain ⟨rfl, rfl, -⟩ := Row.mk.inj hv
        exact .inr ⟨rfl, rfl⟩
  · intro q hq
    rw [Lists.updateAppId_pkgToProcs] at hq
    simp only [Lists.entry_updateAppId]
    exact h.noEmptyKey.addHideSet pkg proc q hq
  · have hlocked : (l.addHideSet pkg proc).1.lockedPkgs = l.lockedPkgs := rfl
    rw [Lists.updateAppId_lockedPkgs, hlocked, h.locked]
    simp only [mem_insertRow hdb']
    constructor
    · rintro ⟨p, v, hv, hmem⟩
      exact ⟨p, v, hv, .inl hmem⟩
    · rintro ⟨p, v, hv, hmem | hmem⟩
      · exact ⟨p, v, hv, hmem⟩
      · obtain ⟨-, -, rfl⟩ := Row.mk.inj hmem
        exact absurd rfl hv

lemma exists_dbExec_rm (db : List Row) (pkg proc : Str) :
    ∃ db', dbExec db (if proc = [] then .deletePkg pkg else .deleteProc pkg proc) = some db' ∧
      ∀ r, r ∈ db' ↔ r ∈ db ∧ ¬ (r.packageName = pkg ∧ (proc = [] ∨ r.process = proc)) := by
  split_ifs with hproc
  · obtain ⟨db', h⟩ : ∃ db', dbExec db (.deletePkg pkg) = some db' := ⟨_, rfl⟩
    refine ⟨db', h, fun r => ?_⟩
    rw [mem_delete h rfl fun _ => rfl]
    simp [DbStmt.deletes, hproc]
  · obtain ⟨db', h⟩ : ∃ db', dbExec db (.deleteProc pkg proc) = some db' := ⟨_, rfl⟩
    refine ⟨db', h, fun r => ?_⟩
    rw [mem_delete h rfl fun _ => rfl]
    simp [DbStmt.deletes, hproc]

lemma Loads.rmMem (h : Loads db l) (hnone : (rmMem d l pkg proc).2 = none) :
    ∃ db', dbExec db (if proc = [] then .deletePkg pkg else .deleteProc pkg proc) = some db' ∧
      Loads db' (rmMem d l pkg proc).1 := by
  rcases rmMem_answer d l pkg proc with ⟨r, hr, -⟩ | ⟨hlock, procs, hprocs, -, hr⟩
  · rw [hr] at hnone
    cases hnone
  · obtain ⟨db', hdb', hmem⟩ := exists_dbExec_rm db pkg proc
    refine ⟨db', hdb', ?_⟩
    rw [hr]
    exact h.delete (D := fun q p => q = pkg ∧ (proc = [] ∨ p = proc)) hmem
      (fun q p hD => hD.1 ▸ hlock) (entry_removed hprocs) (noEmptyKey_removed h.noEmptyKey hprocs)
      (lockedPkgs_removed procs)

/-- The rows after the lock of a package is written. -/
lemma mem_updateLocked (h : dbExec db (.updateLocked pkg locked) = some db')
    (q p : Str) (v : Int) : ⟨q, p, v⟩ ∈ db' ↔
      if q = pkg then v = locked ∧ ∃ v₀, ⟨pkg, p, v₀⟩ ∈ db else ⟨q, p, v⟩ ∈ db := by
  cases h
  rw [List.mem_map]
  split_ifs with hq
  · subst hq
    constructor
    · rintro ⟨⟨q', p', v'⟩, hmem, heq⟩
      split_ifs at heq with hpkg <;> obtain ⟨rfl, rfl, rfl⟩ := Row.mk.inj heq
      · exact ⟨rfl, v', hpkg ▸ hmem⟩
      · exact absurd rfl hpkg
    · rintro ⟨rfl, v₀, hmem⟩
      exact ⟨⟨q, p, v₀⟩, hmem, if_pos rfl⟩
  · constructor
    · rintro ⟨⟨q', p', v'⟩, hmem, heq⟩
      split_ifs at heq with hpkg <;> obtain ⟨rfl, rfl, rfl⟩ := Row.mk.inj heq
      · exact absurd hpkg hq
      · exact hmem
    · exact fun hmem => ⟨⟨q, p, v⟩, hmem, if_neg hq⟩

/-- Both sides get another lock for the package, with or without a sentinel row that is inserted or
deleted before. -/
lemma Loads.relock (h : Loads db l) {locked : Int}
    (hsame : ∀ q p v, p ≠ [] ∨ q ≠ pkg → (⟨q, p, v⟩ ∈ db₁ ↔ ⟨q, p, v⟩ ∈ db))
    (hdb : dbExec db₁ (.updateLocked pkg locked) = some db')
    (hlocked : pkg ∈ lockedPkgs ↔ locked ≠ 0 ∧ ∃ p v, ⟨pkg, p, v⟩ ∈ db₁)
    (hrest : ∀ q ≠ pkg, q ∈ lockedPkgs ↔ q ∈ l.lockedPkgs) :
    Loads db' { l with lockedPkgs := lockedPkgs } where
  entry q p := by
    have hentry : Lists.Entry { l with lockedPkgs := lockedPkgs } q p ↔ l.Entry q p := Iff.rfl
    rw [hentry, h.entry]
    refine and_congr_right fun hp => ?_
    simp only [mem_updateLocked hdb, hsame _ p _ (.inl hp)]
    by_cases hq : q = pkg <;> simp [hq]
  noEmptyKey := h.noEmptyKey
  locked q := by
    simp only [mem_updateLocked hdb]
    by_cases hq : q = pkg
    · subst hq
      rw [hlocked]
      simp only [if_true]
      constructor
      · rintro ⟨hne, p, v, hv⟩
        exact ⟨p, locked, hne, rfl, v, hv⟩
      · rintro ⟨p, _, hne, rfl, v, hv⟩
        exact ⟨hne, p, v, hv⟩
    · rw [hrest q hq, h.locked]
      simp [hq, hsame q _ _ (.inr hq)]

lemma Loads.exists_row (h : Loads db l)
    (hpkg : (l.lockedPkgs.contains pkg || l.pkgToProcs.contains pkg) = true) :
    ∃ p v, ⟨pkg, p, v⟩ ∈ db := by
  rw [Bool.or_eq_true] at hpkg
  rcases hpkg with hlock | hkey
  · obtain ⟨p, v, -, hmem⟩ := (h.locked pkg).mp hlock
    exact ⟨p, v, hmem⟩
  · obtain ⟨p, hp⟩ := h.noEmptyKey pkg hkey
    obtain ⟨-, v, hmem⟩ := (h.entry pkg p).mp hp
    exact ⟨p, v, hmem⟩

/-- Locking, with or without a sentinel row before. -/
lemma Loads.lock (h : Loads db l) (hrow : ∃ p v, ⟨pkg, p, v⟩ ∈ db₁)
    (hsame : ∀ q p v, p ≠ [] ∨ q ≠ pkg → (⟨q, p, v⟩ ∈ db₁ ↔ ⟨q, p, v⟩ ∈ db))
    (hdb : dbExec db₁ (.updateLocked pkg 1) = some db') :
    Loads db' { l with lockedPkgs := l.lockedPkgs.insert pkg } := by
  refine h.relock hsame hdb ?_ fun q hq => ?_
  · exact iff_of_true ExtTreeSet.mem_insert_self ⟨one_ne_zero, hrow⟩
  · rw [ExtTreeSet.mem_insert, LawfulEqCmp.compare_eq_iff_eq, or_iff_right (Ne.symm hq)]

/-- Unlocking, with or without a sentinel row deleted before. -/
lemma Loads.unlock (h : Loads db l)
    (hsame : ∀ q p v, p ≠ [] ∨ q ≠ pkg → (⟨q, p, v⟩ ∈ db₁ ↔ ⟨q, p, v⟩ ∈ db))
    (hdb : dbExec db₁ (.updateLocked pkg 0) = some db') :
    Loads db' { l with lockedPkgs := l.lockedPkgs.erase pkg } := by
  refine h.relock hsame hdb (iff_of_false (by simp) fun hne => hne.1 rfl) fun q hq => ?_
  rw [ExtTreeSet.mem_erase, ne_eq, LawfulEqCmp.compare_eq_iff_eq,
    and_iff_right (Ne.symm hq)]

lemma mem_deleteSentinel (hdb : dbExec db (.deleteProc pkg []) = some db') (q p : Str) (v : Int)
    (h : p ≠ [] ∨ q ≠ pkg) : ⟨q, p, v⟩ ∈ db' ↔ ⟨q, p, v⟩ ∈ db := by
  rw [mem_delete hdb rfl fun _ => rfl, DbStmt.deletes, decide_eq_true_eq]
  exact and_iff_left fun heq => h.elim (fun hp => hp heq.2) fun hq => hq heq.1

lemma mem_insertSentinel (hdb : dbExec db (.insert ⟨pkg, [], 1⟩) = some db') (q p : Str) (v : Int)
    (h : p ≠ [] ∨ q ≠ pkg) : ⟨q, p, v⟩ ∈ db' ↔ ⟨q, p, v⟩ ∈ db := by
  rw [mem_insertRow hdb, Row.mk.injEq]
  exact or_iff_left fun heq => h.elim (fun hp => hp heq.2.1) fun hq => hq heq.1

/-- A request for a lock keeps both sides the same. -/
lemma loads_plan_setLocked (h : Loads db l)
    (hdb : tableActions.actAll db (plan d l (.setLocked pkg locked)).inLock = some db') :
    ∃ db₂, tableActions.actAll db' (plan d l (.setLocked pkg locked)).after = some db₂ ∧
      Loads db₂ (plan d l (.setLocked pkg locked)).lists := by
  have hupdate : ∀ v, ∃ db₂, dbExec db' (.updateLocked pkg v) = some db₂ := fun _ => ⟨_, rfl⟩
  simp only [plan] at hdb ⊢
  cases hv : validate pkg [] with
  | false =>
    simp only [hv] at hdb ⊢
    exact ⟨db', rfl, some.inj hdb ▸ h⟩
  | true =>
    simp only [hv, Bool.not_true, Bool.false_eq_true, if_false] at hdb ⊢
    cases locked with
    | true =>
      simp only [if_true] at hdb ⊢
      obtain ⟨db₂, h₂⟩ := hupdate 1
      refine ⟨db₂, actAll_singleton.mpr h₂, ?_⟩
      split_ifs at hdb with hexists
      · cases hdb
        exact h.lock (h.exists_row hexists) (fun _ _ _ _ => Iff.rfl) h₂
      · have hinsert := actAll_singleton.mp hdb
        refine h.lock ⟨[], 1, ?_⟩ (mem_insertSentinel hinsert) h₂
        exact (mem_insertRow hinsert _).mpr (.inr rfl)
    | false =>
      simp only [Bool.false_eq_true, if_false] at hdb ⊢
      obtain ⟨db₂, h₂⟩ := hupdate 0
      refine ⟨db₂, actAll_singleton.mpr h₂, ?_⟩
      split_ifs at hdb
      · cases hdb
        exact h.unlock (fun _ _ _ _ => Iff.rfl) h₂
      · exact h.unlock (mem_deleteSentinel (actAll_singleton.mp hdb)) h₂

/-- A request keeps both sides the same, with all of its statements. -/
lemma loads_plan (h : Loads db l) (hr : r.needsData = true)
    (hdb : tableActions.actAll db (plan d l r).inLock = some db') :
    ∃ db₂, tableActions.actAll db' (plan d l r).after = some db₂ ∧
      Loads db₂ (plan d l r).lists := by
  cases r with
  | add pkg proc =>
    have hadd := @Loads.addMem d db l pkg (addProc pkg proc) h (addProc_ne_nil hr)
    have hcases := addMem_cases d l pkg (addProc pkg proc)
    simp only [plan] at hdb ⊢
    generalize addMem d l pkg (addProc pkg proc) = m at hadd hcases hdb ⊢
    obtain ⟨l', _ | answer⟩ := m <;> obtain rfl := some.inj hdb
    · obtain ⟨db₂, h₂, hloads⟩ := hadd rfl
      exact ⟨db₂, actAll_singleton.mpr h₂, hloads⟩
    · rcases hcases with ⟨rfl, -⟩ | hnone
      · exact ⟨db, rfl, h⟩
      · cases (Prod.mk.inj hnone).2
  | rm pkg proc =>
    have hrm := @Loads.rmMem d db l pkg proc h
    have hcases := rmMem_answer d l pkg proc
    simp only [plan] at hdb ⊢
    generalize rmMem d l pkg proc = m at hrm hcases hdb ⊢
    obtain ⟨l', _ | answer⟩ := m <;> obtain rfl := some.inj hdb
    · obtain ⟨db₂, h₂, hloads⟩ := hrm rfl
      exact ⟨db₂, actAll_singleton.mpr h₂, hloads⟩
    · rcases hcases with ⟨r, hsame, -⟩ | ⟨-, procs, -, -, hnone⟩
      · obtain ⟨rfl, -⟩ := Prod.mk.inj hsame
        exact ⟨db, rfl, h⟩
      · cases (Prod.mk.inj hnone).2
  | setLocked pkg locked => exact loads_plan_setLocked h hdb

end Plan

/-! ### Both sides agree -/

/-- The invariant: with the pending statements executed in order, the table is what the
lists hold. -/
def Persisted (s : Shared) : Prop :=
  match s.daemon.lists with
  | none => s.pending = []
  | some l => ∃ db, tableActions.actAll s.daemon.db s.pending = some db ∧ Loads db l

section Persisted

variable {s s' : Shared} {t : Turn}

/-- The pending statements and the lists a request works on. -/
lemma Persisted.ensureData (h : Persisted s) (d : AppData) :
    ∃ db, tableActions.actAll (ensureData d s.daemon).2 s.pending = some db ∧
      Loads db (ensureData d s.daemon).1 := by
  rw [Persisted] at h
  cases hl : s.daemon.lists with
  | none =>
    rw [hl] at h
    rw [show s.pending = [] from h]
    exact ⟨_, rfl, loads_ensureData hl⟩
  | some l =>
    rw [hl] at h
    rw [Deny.ensureData, hl]
    exact h

/-- A request keeps the invariant. -/
lemma Persisted.lock (h : Persisted s) (hok : TurnOk s (.lock d r))
    (hs : s.step (.lock d r) = some s') : Persisted s' := by
  rw [Shared.step] at hs
  split_ifs at hs with hr
  · obtain ⟨db₁, hlock, rfl⟩ := map_eq_some_iff.mp hs
    obtain ⟨db, hpending, hloads⟩ := h.ensureData d
    -- the statements under the lock move past the pending ones
    obtain ⟨x, y, hx, hy, hxy⟩ := Actions.actAll_pasts
      (fun a ha b hb => indep_of_not_conflict (hok a ha b hb)) hpending hlock
    obtain ⟨db₂, hafter, hloads₂⟩ := loads_plan hloads hr hx
    obtain ⟨db₃, hafter₃, hsame⟩ := Actions.actAll_respects hxy hafter
    exact ⟨db₃, Actions.actAll_append.mpr ⟨y, hy, hafter₃⟩, hloads₂.congr hsame⟩
  · exact some.inj hs ▸ h

/-- A statement keeps the invariant. -/
lemma Persisted.write (h : Persisted s) (hok : TurnOk s (.write i))
    (hs : s.step (.write i) = some s') : Persisted s' := by
  obtain ⟨stmt, hstmt, hs⟩ := bind_eq_some_iff.mp hs
  obtain ⟨db₁, hdb₁, rfl⟩ := map_eq_some_iff.mp hs
  rw [Persisted] at h ⊢
  cases hl : s.daemon.lists with
  | none =>
    rw [hl] at h
    rw [show s.pending = [] from h] at hstmt
    cases hstmt
  | some l =>
    rw [hl] at h
    obtain ⟨db, hpending, hloads⟩ := h
    obtain ⟨hi, rfl⟩ := List.getElem?_eq_some_iff.mp hstmt
    have hsplit : s.pending = s.pending.take i ++ s.pending[i] :: s.pending.drop (i + 1) := by
      rw [getElem_cons_drop, take_append_drop]
    rw [hsplit] at hpending
    obtain ⟨db₂, hpending₂, hsame⟩ := Actions.actAll_early
      (fun a ha => indep_of_not_conflict (hok a ha _ hstmt)) hpending hdb₁
    rw [← eraseIdx_eq_take_drop_succ] at hpending₂
    exact ⟨db₂, hpending₂, hloads.congr hsame⟩

lemma persisted_of_reach (h : persistSystem.Reach TurnOk s) : Persisted s := by
  refine h.invariant (fun s hs => ?_) fun s t s' hinv hok hstep => ?_
  · rw [Persisted, hs.1]
    exact hs.2
  · cases t with
    | lock d r => exact hinv.lock hok hstep
    | write i => exact hinv.write hok hstep

/-- **The database has what the lists hold.**  When all requests of such a run are done, the
processes and locks in memory are those that `ensure_data` reads from the table; a
scan of either leaves the same lists. -/
theorem persisted (s : Shared) (h : persistSystem.Reach TurnOk s) (hdone : s.pending = [])
    (l : Lists) (hl : s.daemon.lists = some l) :
    (s.daemon.db.foldl Lists.loadRow .empty).pkgToProcs = l.pkgToProcs ∧
      (s.daemon.db.foldl Lists.loadRow .empty).lockedPkgs = l.lockedPkgs ∧
      ∀ d, ensureData d ⟨s.daemon.db, none⟩ = scanDenyApps d (l, s.daemon.db) := by
  have hinv := persisted_of_reach h
  rw [Persisted, hl, hdone] at hinv
  obtain ⟨db, hdb, hloads⟩ := hinv
  cases hdb
  obtain ⟨hprocs, hlocked⟩ := (loads_load s.daemon.db).unique hloads
  simp [ensureData, scanDenyApps, hprocs, hlocked]

/-- No client has come yet, and the table is empty. -/
def noClients : Shared := ⟨⟨[], none⟩, []⟩

/-- A package that is added is in the table after its statement. -/
theorem persisted_added : ∃ s₁ s l,
    persistSystem.step noClients (.lock oneApp.data (.add (str "com.app") [])) = some s₁ ∧
      persistSystem.step s₁ (.write 0) = some s ∧ s.daemon.lists = some l ∧
      l.pkgToProcs.contains (str "com.app") = true ∧
      (s.daemon.db.foldl Lists.loadRow .empty).pkgToProcs = l.pkgToProcs := by
  obtain ⟨s₁, hs₁⟩ : ∃ s₁, persistSystem.step noClients
      (.lock oneApp.data (.add (str "com.app") [])) = some s₁ := ⟨_, rfl⟩
  have htest : (persistSystem.step s₁ (.write 0)).any (fun s => s.pending.isEmpty &&
      s.daemon.lists.any fun l => l.pkgToProcs.contains (str "com.app")) = true := by
    cases hs₁
    decide
  obtain ⟨s, hs, htest⟩ := (any_eq_true _ _).mp htest
  rw [Bool.and_eq_true] at htest
  obtain ⟨l, hl, hcontains⟩ := (any_eq_true _ _).mp htest.2
  have hinit : persistSystem.Reach TurnOk noClients := .init ⟨rfl, rfl⟩
  have hlock : TurnOk noClients (.lock oneApp.data (.add (str "com.app") [])) :=
    fun a ha => by cases ha
  have hwrite : TurnOk s₁ (.write 0) := fun a ha => by cases ha
  have hreach : persistSystem.Reach TurnOk s := .step (.step hinit hlock hs₁) hwrite hs
  exact ⟨s₁, s, l, hs₁, hs, hl, hcontains,
    (persisted s hreach (List.isEmpty_iff.mp htest.1) l hl).1⟩

/-- One client adds a package, another removes it, and the statements are executed in the
other order. -/
def crossedSchedule : List Turn :=
  [.lock oneApp.data (.add (str "com.app") []), .lock oneApp.data (.rm (str "com.app") []),
    .write 1, .write 0]

/-- After it, the package is on the list in the database only: it comes back with the
next start of the daemon. -/
theorem removed_comes_back : ∃ s l, persistSystem.init noClients ∧
    persistSystem.run noClients crossedSchedule = some s ∧ s.pending = [] ∧
    s.daemon.lists = some l ∧
    (s.daemon.db.foldl Lists.loadRow .empty).pkgToProcs ≠ l.pkgToProcs := by
  have htest : (persistSystem.run noClients crossedSchedule).any (fun s =>
      s.pending.isEmpty && s.daemon.lists.any fun l =>
        !l.pkgToProcs.contains (str "com.app") &&
          (s.daemon.db.foldl Lists.loadRow .empty).pkgToProcs.contains (str "com.app")) = true := by
    decide
  obtain ⟨s, hs, htest⟩ := (any_eq_true _ _).mp htest
  rw [Bool.and_eq_true] at htest
  obtain ⟨l, hl, hdiff⟩ := (any_eq_true _ _).mp htest.2
  refine ⟨s, l, ⟨rfl, rfl⟩, hs, List.isEmpty_iff.mp htest.1, hl, fun heq => ?_⟩
  rw [heq, Bool.not_and_self] at hdiff
  cases hdiff

end Persisted

end Magisk.Core.Deny
