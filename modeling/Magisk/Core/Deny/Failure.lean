import Magisk.Core.Deny.Persist

/-!
# Requests whose statements fail

Each statement of a request may fail, also one that could be executed: the database is busy, or
the disk is full.  A request then answers `ERROR`, after it has changed the lists.

* `Failing`: the statements that fail;
* `Failing.request`: the requests, with such statements;
* `Failing.request_never`: without them these are the requests of the other modules;
* `Failing.memory_eq_iff`: when a request that answers `ERROR` leaves the lists as they were.
-/

namespace Magisk.Core.Deny

open Magisk.Base Std ExtTreeMap

/-- The statements that fail: the `SELECT` of `ensure_data`, and the others. -/
structure Failing where
  select : Bool
  stmt : DbStmt → Bool

variable {l : Lists} {pkg proc : Str} {db : List Row}

namespace Failing

variable (f : Failing)

/-- `db_exec`. -/
def exec (db : List Row) (stmt : DbStmt) : Option (List Row) :=
  if f.stmt stmt then none else dbExec db stmt

/-- One round of the loop of `scan_deny_apps`.  It does not look at the result of its
statement. -/
def scanPkg (d : AppData) (s : Lists × List Row) (pkg : Str) : Lists × List Row :=
  if pkg = isolatedMagic then s
  else if s.1.lockedPkgs.contains pkg then s
  else
    let appId := d.getAppIdOf d.users pkg
    if appId = 0 then
      ({ s.1 with pkgToProcs := s.1.pkgToProcs.erase pkg }, (f.exec s.2 (.deletePkg pkg)).getD s.2)
    else (s.1.updateAppId appId pkg false, s.2)

/-- `scan_deny_apps` on allocated structures. -/
def scanDenyApps (d : AppData) (s : Lists × List Row) : Lists × List Row :=
  s.1.pkgToProcs.keys.foldl (f.scanPkg d) ({ s.1 with appIdToPkgs := ∅ }, s.2)

/-- `ensure_data`, if it succeeds. -/
def ensureData (d : AppData) (s : Daemon) : Option (Lists × List Row) :=
  match s.lists with
  | some l => some (l, s.db)
  | none =>
    if f.select then none
    else some (f.scanDenyApps d (s.db.foldl Lists.loadRow Lists.empty, s.db))

/-- The state after `clear_data`, and the answer. -/
def notLoaded (s : Daemon) : Daemon × DenyResponse := (⟨s.db, none⟩, .error)

/-- The end of a request: the statement after the lock is released. -/
def finish (db : List Row) (l : Lists) (stmt : DbStmt) : Daemon × DenyResponse :=
  match f.exec db stmt with
  | some db' => (⟨db', some l⟩, .ok)
  | none => (⟨db, some l⟩, .error)

/-- `add_list`. -/
def addList (d : AppData) (s : Daemon) (pkg proc : Str) : Daemon × DenyResponse :=
  let proc := addProc pkg proc
  if !validate pkg proc then (s, .invalidPkg)
  else
    match f.ensureData d s with
    | none => notLoaded s
    | some (l, db) =>
      match addMem d l pkg proc with
      | (l, some r) => (⟨db, some l⟩, r)
      | (l, none) => f.finish db l (.insert ⟨pkg, proc, 0⟩)

/-- `rm_list`. -/
def rmList (d : AppData) (s : Daemon) (pkg proc : Str) : Daemon × DenyResponse :=
  match f.ensureData d s with
  | none => notLoaded s
  | some (l, db) =>
    match rmMem d l pkg proc with
    | (l, some r) => (⟨db, some l⟩, r)
    | (l, none) => f.finish db l (if proc = [] then .deletePkg pkg else .deleteProc pkg proc)

/-- `set_locked`. -/
def setLocked (d : AppData) (s : Daemon) (pkg : Str) (locked : Bool) : Daemon × DenyResponse :=
  if pkg = isolatedMagic then (s, .invalidPkg)
  else
    match f.ensureData d s with
    | none => notLoaded s
    | some (l, db) =>
      if !validate pkg [] then (⟨db, some l⟩, .invalidPkg)
      else if locked then
        let l' := { l with lockedPkgs := l.lockedPkgs.insert pkg }
        if l.lockedPkgs.contains pkg || l.pkgToProcs.contains pkg then
          f.finish db l' (.updateLocked pkg 1)
        else
          match f.exec db (.insert ⟨pkg, [], 1⟩) with
          | none => (⟨db, some l⟩, .error)
          | some db' => f.finish db' l' (.updateLocked pkg 1)
      else
        let l' := { l with lockedPkgs := l.lockedPkgs.erase pkg }
        if l.pkgToProcs.contains pkg then f.finish db l' (.updateLocked pkg 0)
        else f.finish ((f.exec db (.deleteProc pkg [])).getD db) l' (.updateLocked pkg 0)

/-- A request: the daemon after it, and the answer. -/
def request (d : AppData) (s : Daemon) : Request → Daemon × DenyResponse
  | .add pkg proc => f.addList d s pkg proc
  | .rm pkg proc => f.rmList d s pkg proc
  | .setLocked pkg locked => f.setLocked d s pkg locked

/-- The lists that a request finds in memory, or loads. -/
def memory (d : AppData) (s : Daemon) : Option Lists := (f.ensureData d s).map Prod.fst

/-! ### No failures -/

/-- No statement fails. -/
def never : Failing := ⟨false, fun _ => false⟩

lemma ensureData_never (d : AppData) (s : Daemon) :
    never.ensureData d s = some (Deny.ensureData d s) := by
  rw [ensureData, Deny.ensureData]
  cases s.lists <;> rfl

/-- Without failures the requests are those of the other modules. -/
theorem request_never (d : AppData) (s : Daemon) (r : Request) :
    (never.request d s r).1 = Deny.request d s r := by
  cases r with
  | add pkg proc =>
    rw [request, addList, ensureData_never]
    rfl
  | rm pkg proc =>
    rw [request, rmList, ensureData_never]
    rfl
  | setLocked pkg locked =>
    rw [request, setLocked, ensureData_never]
    rfl

/-! ### Failures -/

/-- What a request that answers `ERROR` needs in order to leave the lists as they were: the data
could not be loaded, the lock has been there before, or its sentinel row could not be inserted. -/
def Keeps (d : AppData) (s : Daemon) : Request → Prop
  | .add _ _ => f.ensureData d s = none
  | .rm _ _ => f.ensureData d s = none
  | .setLocked pkg true => ∀ l db, f.ensureData d s = some (l, db) →
      pkg ∈ l.lockedPkgs ∨ (pkg ∉ l.pkgToProcs ∧ f.exec db (.insert ⟨pkg, [], 1⟩) = none)
  | .setLocked pkg false => ∀ l db, f.ensureData d s = some (l, db) → pkg ∉ l.lockedPkgs

variable {f} {d : AppData} {s : Daemon}

lemma lists_finish (db : List Row) (l : Lists) (stmt : DbStmt) :
    (f.finish db l stmt).1.lists = some l := by
  rw [finish]
  split <;> rfl

lemma addMem_ne_error (l : Lists) (pkg proc : Str) :
    (addMem d l pkg proc).2 ≠ some .error := by
  simp only [addMem]
  split_ifs <;> rintro ⟨⟩

lemma rmMem_ne_error (l : Lists) (pkg proc : Str) : (rmMem d l pkg proc).2 ≠ some .error := by
  rcases rmMem_answer d l pkg proc with ⟨r, hr, hne⟩ | ⟨-, procs, -, -, hr⟩
  · rw [hr]
    exact fun heq => hne (Option.some.inj heq)
  · rw [hr]
    nofun

lemma addMem_ne (h : (addMem d l pkg proc).2 = none) : (addMem d l pkg proc).1 ≠ l := by
  have hnew := not_entry_of_addMem h
  have hlists := (addMem_cases d l pkg proc).resolve_left fun hsame => hsame.2 h
  intro heq
  rw [hlists] at heq
  refine hnew ?_
  rw [← heq, Lists.entry_updateAppId, Lists.entry_addHideSet]
  exact .inr ⟨rfl, rfl⟩

/-- So does one that is taken out, or a whole package. -/
lemma rmMem_ne (h : (rmMem d l pkg proc).2 = none) : (rmMem d l pkg proc).1 ≠ l := by
  rcases rmMem_answer d l pkg proc with ⟨r, hr, -⟩ | ⟨-, procs, hprocs, hproc, hr⟩
  · rw [hr] at h
    cases h
  · rw [hr]
    rintro (heq : removed d l pkg proc procs = l)
    by_cases hlast : proc = [] ∨ (procs.erase proc).isEmpty = true
    · have hkey : (removed d l pkg proc procs).pkgToProcs[pkg]? = some procs := by rw [heq, hprocs]
      rw [removed, if_pos hlast, getElem?_erase_self] at hkey
      cases hkey
    · have he : l.Entry pkg proc :=
        ⟨procs, hprocs, hproc.resolve_left fun hnil => hlast (.inl hnil)⟩
      rw [← heq, entry_removed hprocs] at he
      exact he.2 ⟨rfl, .inr rfl⟩

/-- A lock that is set changes the lists unless it has been there. -/
lemma insert_eq_iff (l : Lists) (pkg : Str) :
    ({ l with lockedPkgs := l.lockedPkgs.insert pkg } : Lists) = l ↔ pkg ∈ l.lockedPkgs := by
  constructor
  · intro h
    have hmem : pkg ∈ l.lockedPkgs.insert pkg := ExtTreeSet.mem_insert_self
    have hlocked : l.lockedPkgs.insert pkg = l.lockedPkgs := congrArg Lists.lockedPkgs h
    rwa [hlocked] at hmem
  · intro h
    have hlocked : l.lockedPkgs.insert pkg = l.lockedPkgs := by
      refine ExtTreeSet.ext_mem fun q => ?_
      rw [ExtTreeSet.mem_insert, LawfulEqCmp.compare_eq_iff_eq]
      exact or_iff_right_of_imp fun heq => heq ▸ h
    rw [hlocked]

/-- One that is taken away does unless there was none. -/
lemma erase_eq_iff (l : Lists) (pkg : Str) :
    ({ l with lockedPkgs := l.lockedPkgs.erase pkg } : Lists) = l ↔ pkg ∉ l.lockedPkgs := by
  constructor
  · intro h hmem
    have hlocked : l.lockedPkgs.erase pkg = l.lockedPkgs := congrArg Lists.lockedPkgs h
    rw [← hlocked] at hmem
    exact (ExtTreeSet.mem_erase.mp hmem).1 ReflCmp.compare_self
  · intro h
    have hlocked : l.lockedPkgs.erase pkg = l.lockedPkgs := by
      refine ExtTreeSet.ext_mem fun q => ?_
      rw [ExtTreeSet.mem_erase, ne_eq, LawfulEqCmp.compare_eq_iff_eq]
      exact and_iff_right_of_imp fun hq heq => h (heq ▸ hq)
    rw [hlocked]

lemma memory_of_some (h : f.ensureData d s = some (l, db)) : f.memory d s = some l := by
  rw [memory, h]
  rfl

lemma memory_of_none (h : f.ensureData d s = none) : f.memory d s = none := by
  rw [memory, h]
  rfl

/-- What a request that answers `ERROR` leaves after its part under the lock. -/
lemma lists_answer_ne {m : Lists × Option DenyResponse} {stmt : DbStmt} {x : Daemon × DenyResponse}
    (hx : x = match m with
      | (l, some r) => (⟨db, some l⟩, r)
      | (l, none) => f.finish db l stmt)
    (herror : m.2 ≠ some .error) (hne : m.2 = none → m.1 ≠ l) (h : x.2 = .error) :
    x.1.lists ≠ some l := by
  obtain ⟨l', _ | r⟩ := m
  · rw [hx, lists_finish, ne_eq, Option.some.injEq]
    exact hne rfl
  · obtain rfl : r = .error := by rwa [hx] at h
    exact absurd rfl herror

lemma lists_addList_iff (h : (f.addList d s pkg proc).2 = .error) :
    (f.addList d s pkg proc).1.lists = f.memory d s ↔ f.ensureData d s = none := by
  rw [addList] at h ⊢
  split at h
  · cases h
  · rename_i hvalid
    rw [if_neg hvalid]
    cases hdata : f.ensureData d s with
    | none => exact iff_of_true (memory_of_none hdata).symm rfl
    | some data =>
      refine iff_of_false ?_ nofun
      rw [memory_of_some hdata]
      simp only [hdata] at h ⊢
      exact lists_answer_ne rfl (addMem_ne_error _ pkg _) addMem_ne h

lemma lists_rmList_iff (h : (f.rmList d s pkg proc).2 = .error) :
    (f.rmList d s pkg proc).1.lists = f.memory d s ↔ f.ensureData d s = none := by
  rw [rmList] at h ⊢
  cases hdata : f.ensureData d s with
  | none => exact iff_of_true (memory_of_none hdata).symm rfl
  | some data =>
    refine iff_of_false ?_ nofun
    rw [memory_of_some hdata]
    simp only [hdata] at h ⊢
    exact lists_answer_ne rfl (rmMem_ne_error _ pkg proc) rmMem_ne h

lemma keeps_lock_iff (hdata : f.ensureData d s = some (l, db)) : f.Keeps d s (.setLocked pkg true) ↔
      pkg ∈ l.lockedPkgs ∨
        (pkg ∉ l.pkgToProcs ∧ f.exec db (.insert ⟨pkg, [], 1⟩) = none) := by
  constructor
  · exact fun h => h l db hdata
  · rintro h l' db' hdata'
    cases hdata.symm.trans hdata'
    exact h

lemma keeps_unlock_iff (hdata : f.ensureData d s = some (l, db)) :
    f.Keeps d s (.setLocked pkg false) ↔ pkg ∉ l.lockedPkgs := by
  constructor
  · exact fun h => h l db hdata
  · rintro h l' db' hdata'
    cases hdata.symm.trans hdata'
    exact h

lemma lists_setLocked_iff (h : (f.setLocked d s pkg locked).2 = .error) :
    (f.setLocked d s pkg locked).1.lists = f.memory d s ↔ f.Keeps d s (.setLocked pkg locked) := by
  rw [setLocked] at h ⊢
  split at h
  · cases h
  · rename_i hisolated
    rw [if_neg hisolated]
    cases hdata : f.ensureData d s with
    | none =>
      refine iff_of_true (memory_of_none hdata).symm ?_
      cases locked <;> simp only [Keeps, hdata, reduceCtorEq, false_implies, implies_true]
    | some data =>
      obtain ⟨l, db⟩ := data
      rw [memory_of_some hdata]
      simp only [hdata] at h ⊢
      split at h
      · cases h
      · rename_i hvalid
        rw [if_neg hvalid]
        cases locked with
        | false =>
          rw [keeps_unlock_iff hdata, ← erase_eq_iff]
          simp only [Bool.false_eq_true, if_false]
          split <;> rw [lists_finish, Option.some.injEq]
        | true =>
          rw [keeps_lock_iff hdata]
          simp only [if_true, Bool.or_eq_true, ExtTreeSet.contains_iff_mem,
            contains_iff_mem]
          split
          · rename_i hknown
            rw [lists_finish, Option.some.injEq, insert_eq_iff]
            exact ⟨.inl, fun hkeeps => hkeeps.elim id fun hnone =>
              hknown.resolve_right hnone.1⟩
          · rename_i hnew
            obtain ⟨hlocked, hprocs⟩ := not_or.mp hnew
            cases hexec : f.exec db (.insert ⟨pkg, [], 1⟩) with
            | none => exact iff_of_true rfl (.inr ⟨hprocs, rfl⟩)
            | some db' =>
              simp [lists_finish, insert_eq_iff]

/-- A request that does not come to the data changes nothing. -/
lemma request_of_not_needsData (h : ¬r.needsData = true) : (f.request d s r).1 = s := by
  cases r with
  | add pkg proc =>
    rw [Request.needsData] at h
    simp [request, addList, h]
  | rm pkg proc => exact absurd rfl h
  | setLocked pkg locked =>
    have heq : pkg = isolatedMagic := not_not.mp fun hne => h (decide_eq_true hne)
    simp only [request, setLocked, if_pos heq]

/-- One that cannot load the data leaves none. -/
lemma request_of_none (h : r.needsData = true) (hdata : f.ensureData d s = none) :
    (f.request d s r).1 = ⟨s.db, none⟩ := by
  cases r with
  | add pkg proc =>
    rw [Request.needsData] at h
    simp only [request, addList, h, hdata]
    rfl
  | rm pkg proc =>
    simp only [request, rmList, hdata]
    rfl
  | setLocked pkg locked =>
    have hne : pkg ≠ isolatedMagic := of_decide_eq_true h
    simp only [request, setLocked, if_neg hne, hdata]
    rfl

/-- **When a request that answers `ERROR` leaves the lists as they were.** -/
theorem memory_eq_iff (r : Request) (h : (f.request d s r).2 = .error) :
    (f.request d s r).1.lists = f.memory d s ↔ f.Keeps d s r := by
  cases r with
  | add pkg proc => exact lists_addList_iff h
  | rm pkg proc => exact lists_rmList_iff h
  | setLocked pkg locked => exact lists_setLocked_iff h

/-- No row can be inserted. -/
def inserts : Failing where
  select := false
  stmt
    | .insert _ => true
    | _ => false

/-- A lock whose sentinel row cannot be inserted is not set. -/
theorem memory_eq_sentinel :
    (inserts.request oneApp.data ⟨[], some .empty⟩ (.setLocked (str "com.app") true)).2 = .error ∧
    (inserts.request oneApp.data ⟨[], some .empty⟩ (.setLocked (str "com.app") true)).1.lists =
      some .empty := by
  have herror : (inserts.request oneApp.data ⟨[], some .empty⟩
      (.setLocked (str "com.app") true)).2 = .error := by decide
  refine ⟨herror, (memory_eq_iff _ herror).mpr fun l db hdata => .inr ⟨?_, rfl⟩⟩
  cases hdata
  exact not_mem_empty

/-- A process whose row cannot be inserted is on the list all the same. -/
theorem added_without_row : ∃ l,
    inserts.request oneApp.data ⟨[], some .empty⟩ (.add (str "com.app") []) =
      (⟨[], some l⟩, .error) ∧ l.pkgToProcs.contains (str "com.app") = true ∧ l ≠ .empty := by
  obtain ⟨l, hl⟩ : ∃ l, inserts.request oneApp.data ⟨[], some .empty⟩
      (.add (str "com.app") []) = (⟨[], some l⟩, .error) := ⟨_, rfl⟩
  have hcontains : (inserts.request oneApp.data ⟨[], some .empty⟩
      (.add (str "com.app") [])).1.lists.any fun l => l.pkgToProcs.contains (str "com.app") := by
    decide
  rw [hl] at hcontains
  refine ⟨l, hl, hcontains, ?_⟩
  rintro rfl
  cases hcontains

end Failing

end Magisk.Core.Deny
