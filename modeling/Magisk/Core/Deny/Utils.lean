import Mathlib.Tactic
import Magisk.Base.Str

/-!
# The denylist

The data structures and requests of the denylist daemon.  `std::map` and
`std::set` are the ordered maps and sets of the standard library; their
`string_view` elements are kept by value.  Killing processes leaves the lists
alone and is not modelled.

* `AppData`: the app data directories `stat` looks into;
* `Lists`: `pkg_to_procs`, `app_id_to_pkgs` and `locked_pkgs`;
* `scanDenyApps`, `ensureData`: the index rebuild and the first load;
* `addList`, `rmList`, `setLocked`, `lsList`: the requests;
* `isDenyTarget`, `isDenyTargetUid`: the two questions asked of the lists.
-/

namespace Magisk.Core.Deny

open Magisk.Base Std

/-- A `std::set<string>`. -/
abbrev StrSet := ExtTreeSet Str

/-- `ISOLATED_MAGIC`. -/
def isolatedMagic : Str := str "isolated"

/-- `LOCKED_MAGIC`. -/
def lockedMagic : Str := str "*locked"

/-- `AID_USER_OFFSET`. -/
def aidUserOffset : Int := 100000

/-- `to_app_id`: C's remainder. -/
def toAppId (uid : Int) : Int := uid.tmod aidUserOffset

/-! ### App data directories -/

/-- An installed app: one app id for all users, and the users that have it. -/
structure App where
  appId : Nat
  users : List Nat
  pos : 0 < appId
  lt : appId < 100000

/-- The directories below `APP_DATA_DIR`: the users in directory order, and the
app behind a package name.  No app has the name reserved for isolated
services, since a package name contains a dot. -/
structure AppData where
  users : List Nat
  apps : Str → Option App
  isolated : apps isolatedMagic = none

namespace AppData

variable (d : AppData)

/-- `stat` of `APP_DATA_DIR/<user>/<pkg>`: the `st_uid`, if there is a directory. -/
def stat (user : Nat) (pkg : Str) : Option Int :=
  match d.apps pkg with
  | none => none
  | some app => if user ∈ app.users then some (user * aidUserOffset + app.appId) else none

/-- `get_app_id(users, pkg)`. -/
def getAppIdOf (users : List Nat) (pkg : Str) : Int :=
  match users with
  | [] => 0
  | user :: rest =>
    match d.stat user pkg with
    | some uid => toAppId uid
    | none => getAppIdOf rest pkg

/-- `get_app_id(pkg)`. -/
def getAppId (pkg : Str) : Int :=
  if pkg = isolatedMagic then -1 else d.getAppIdOf d.users pkg

/-- The package is installed for some user, under this app id. -/
def Installed (pkg : Str) (appId : Int) : Prop :=
  ∃ user ∈ d.users, ∃ uid, d.stat user pkg = some uid ∧ toAppId uid = appId

end AppData

/-! ### The denylist table -/

/-- A row of the table `denylist`. -/
structure Row where
  packageName : Str
  process : Str
  locked : Int
  deriving DecidableEq

/-- The statements of the denylist code. -/
inductive DbStmt where
  /-- `INSERT INTO denylist (package_name, process, locked)` -/
  | insert (r : Row)
  /-- `DELETE FROM denylist WHERE package_name=...` -/
  | deletePkg (pkg : Str)
  /-- `DELETE FROM denylist WHERE package_name=... AND process=...` -/
  | deleteProc (pkg proc : Str)
  /-- `UPDATE denylist SET locked=... WHERE package_name=...` -/
  | updateLocked (pkg : Str) (locked : Int)

/-- `db_exec`.  An `INSERT` fails on a row with the same primary key
`(package_name, process)`. -/
def dbExec (db : List Row) : DbStmt → Option (List Row)
  | .insert r =>
    if db.any fun r' => r'.packageName = r.packageName && r'.process = r.process then none
    else some (db ++ [r])
  | .deletePkg pkg => some (db.filter fun r => r.packageName ≠ pkg)
  | .deleteProc pkg proc =>
    some (db.filter fun r => ¬ (r.packageName = pkg ∧ r.process = proc))
  | .updateLocked pkg locked =>
    some (db.map fun r => if r.packageName = pkg then { r with locked := locked } else r)

/-! ### The lists in memory -/

/-- The structures behind `data_lock`. -/
structure Lists where
  pkgToProcs : ExtTreeMap Str StrSet
  appIdToPkgs : ExtTreeMap Int StrSet
  lockedPkgs : StrSet

namespace Lists

variable (l : Lists)

/-- The freshly allocated structures. -/
def empty : Lists := ⟨∅, ∅, ∅⟩

/-- `update_app_id`. -/
def updateAppId (appId : Int) (pkg : Str) (remove : Bool) : Lists :=
  if appId ≤ 0 then l
  else if remove then
    match l.appIdToPkgs[appId]? with
    | none => l
    | some pkgs =>
      if (pkgs.erase pkg).isEmpty then { l with appIdToPkgs := l.appIdToPkgs.erase appId }
      else { l with appIdToPkgs := l.appIdToPkgs.insert appId (pkgs.erase pkg) }
  else
    { l with
      appIdToPkgs := l.appIdToPkgs.insert appId ((l.appIdToPkgs.getD appId ∅).insert pkg) }

/-- `add_hide_set`, and whether the process is new. -/
def addHideSet (pkg proc : Str) : Lists × Bool :=
  let procs := l.pkgToProcs.getD pkg ∅
  ({ l with pkgToProcs := l.pkgToProcs.insert pkg (procs.insert proc) }, !procs.contains proc)

/-- The row callback of `ensure_data`. -/
def loadRow (r : Row) : Lists :=
  let l := if r.locked ≠ 0 then { l with lockedPkgs := l.lockedPkgs.insert r.packageName } else l
  -- a sentinel row has an empty process
  if r.process ≠ [] then (l.addHideSet r.packageName r.process).1 else l

end Lists

/-- One round of the loop of `scan_deny_apps`. -/
def scanPkg (d : AppData) (s : Lists × List Row) (pkg : Str) : Lists × List Row :=
  if pkg = isolatedMagic then s
  else if s.1.lockedPkgs.contains pkg then s
  else
    let appId := d.getAppIdOf d.users pkg
    if appId = 0 then
      ({ s.1 with pkgToProcs := s.1.pkgToProcs.erase pkg },
        (dbExec s.2 (.deletePkg pkg)).getD s.2)
    else (s.1.updateAppId appId pkg false, s.2)

/-- `scan_deny_apps` on allocated structures. -/
def scanDenyApps (d : AppData) (s : Lists × List Row) : Lists × List Row :=
  s.1.pkgToProcs.keys.foldl (scanPkg d) ({ s.1 with appIdToPkgs := ∅ }, s.2)

/-- The daemon: the table, and the structures once they are allocated. -/
structure Daemon where
  db : List Row
  lists : Option Lists

/-- `ensure_data`, with the `SELECT` succeeding. -/
def ensureData (d : AppData) (s : Daemon) : Lists × List Row :=
  match s.lists with
  | some l => (l, s.db)
  | none => scanDenyApps d (s.db.foldl Lists.loadRow Lists.empty, s.db)

/-- The state a request leaves that has changed nothing but loaded the data. -/
def loaded (d : AppData) (s : Daemon) : Daemon :=
  ⟨(ensureData d s).2, some (ensureData d s).1⟩

/-! ### Requests -/

/-- `DenyResponse`, as far as these requests use it. -/
inductive DenyResponse where
  | ok
  | itemExist
  | itemNotExist
  | invalidPkg
  | error
  | itemLocked
  deriving DecidableEq, Repr

/-- The process part of `validate` for isolated services: all is well after a
colon. -/
def validateIsolated : Str → Bool
  | [] => true
  | c :: proc =>
    if isAlnum c || c = chr '_' || c = chr '.' then validateIsolated proc else c = chr ':'

/-- The package part of `validate`; `valid` is `pkg_valid` so far. -/
def validatePkg (valid : Bool) : Str → Bool
  | [] => valid
  | c :: pkg =>
    if isAlnum c || c = chr '_' then validatePkg valid pkg
    else if c = chr '.' then validatePkg true pkg
    else false

/-- `validate`. -/
def validate (pkg proc : Str) : Bool :=
  if pkg = isolatedMagic then validateIsolated proc
  else validatePkg false pkg &&
    proc.all fun c => isAlnum c || c = chr '_' || c = chr ':' || c = chr '.'

/-- The process an `add` request is about: the package's own by default. -/
def addProc (pkg proc : Str) : Str := if proc = [] then pkg else proc

/-- The part of `add_list` under the lock; the answer is given if the request ends
there. -/
def addMem (d : AppData) (l : Lists) (pkg proc : Str) : Lists × Option DenyResponse :=
  let appId := d.getAppId pkg
  if appId = 0 then (l, some .invalidPkg)
  else
    let r := l.addHideSet pkg proc
    if r.2 then (r.1.updateAppId appId pkg false, none) else (r.1, some .itemExist)

/-- The end of a request: the statement after the lock is released. -/
def finish (db : List Row) (l : Lists) (stmt : DbStmt) : Daemon × DenyResponse :=
  match dbExec db stmt with
  | some db' => (⟨db', some l⟩, .ok)
  | none => (⟨db, some l⟩, .error)

/-- `add_list`. -/
def addList (d : AppData) (s : Daemon) (pkg proc : Str) : Daemon × DenyResponse :=
  let proc := addProc pkg proc
  if !validate pkg proc then (s, .invalidPkg)
  else
    let (l, db) := ensureData d s
    match addMem d l pkg proc with
    | (l, some r) => (⟨db, some l⟩, r)
    | (l, none) => finish db l (.insert ⟨pkg, proc, 0⟩)

/-- The part of `rm_list` under the lock. -/
def rmMem (d : AppData) (l : Lists) (pkg proc : Str) : Lists × Option DenyResponse :=
  if l.lockedPkgs.contains pkg then (l, some .itemLocked)
  else
    match l.pkgToProcs[pkg]? with
    | none => (l, some .itemNotExist)
    | some procs =>
      if proc = [] then
        let l := l.updateAppId (d.getAppId pkg) pkg true
        ({ l with pkgToProcs := l.pkgToProcs.erase pkg }, none)
      else if procs.contains proc then
        if (procs.erase proc).isEmpty then
          let l := l.updateAppId (d.getAppId pkg) pkg true
          ({ l with pkgToProcs := l.pkgToProcs.erase pkg }, none)
        else ({ l with pkgToProcs := l.pkgToProcs.insert pkg (procs.erase proc) }, none)
      else (l, some .itemNotExist)

/-- `rm_list`. -/
def rmList (d : AppData) (s : Daemon) (pkg proc : Str) : Daemon × DenyResponse :=
  let (l, db) := ensureData d s
  match rmMem d l pkg proc with
  | (l, some r) => (⟨db, some l⟩, r)
  | (l, none) => finish db l (if proc = [] then .deletePkg pkg else .deleteProc pkg proc)

/-- `set_locked`. -/
def setLocked (d : AppData) (s : Daemon) (pkg : Str) (locked : Bool) : Daemon × DenyResponse :=
  if pkg = isolatedMagic then (s, .invalidPkg)
  else
    let (l, db) := ensureData d s
    if !validate pkg [] then (⟨db, some l⟩, .invalidPkg)
    else if locked then
      let l' := { l with lockedPkgs := l.lockedPkgs.insert pkg }
      if l.lockedPkgs.contains pkg || l.pkgToProcs.contains pkg then
        finish db l' (.updateLocked pkg 1)
      else
        -- a sentinel row, so that the lock persists without any process
        match dbExec db (.insert ⟨pkg, [], 1⟩) with
        | none => (⟨db, some l⟩, .error)
        | some db' => finish db' l' (.updateLocked pkg 1)
    else
      let l' := { l with lockedPkgs := l.lockedPkgs.erase pkg }
      if l.pkgToProcs.contains pkg then finish db l' (.updateLocked pkg 0)
      else finish ((dbExec db (.deleteProc pkg [])).getD db) l' (.updateLocked pkg 0)

/-- The lines `ls_list` writes. -/
def lsLines (l : Lists) : List Str :=
  let marker (pkg : Str) := lockedMagic ++ [chr '|'] ++ pkg
  ((l.lockedPkgs.toList.filter fun pkg => !l.pkgToProcs.contains pkg).map marker) ++
    l.pkgToProcs.toList.flatMap fun (pkg, procs) =>
      (if l.lockedPkgs.contains pkg then [marker pkg] else []) ++
        procs.toList.map fun proc => pkg ++ [chr '|'] ++ proc

/-- `ls_list`. -/
def lsList (d : AppData) (s : Daemon) : Daemon × List Str :=
  let (l, db) := scanDenyApps d (ensureData d s)
  (⟨db, some l⟩, lsLines l)

/-- The denylist part of a zygote restart: `scan_deny_apps`. -/
def zygoteRestart (d : AppData) (s : Daemon) : Daemon :=
  match s.lists with
  | none => s
  | some l => ⟨(scanDenyApps d (l, s.db)).2, some (scanDenyApps d (l, s.db)).1⟩

/-! ### Queries -/

/-- The loop of `is_deny_target` over the packages of an app id.  A package without
an entry is dereferenced all the same, which is undefined: `none`. -/
def anyProc (l : Lists) (process : Str) : List Str → Option Bool
  | [] => some false
  | pkg :: pkgs =>
    match l.pkgToProcs[pkg]? with
    | none => none
    | some procs => if procs.contains process then some true else anyProc l process pkgs

/-- `is_deny_target` on loaded lists. -/
def Lists.isDenyTarget (l : Lists) (uid : Int) (process : Str) : Option Bool :=
  let appId := toAppId uid
  if 90000 ≤ appId then
    match l.pkgToProcs[isolatedMagic]? with
    | none => some false
    | some procs => some (procs.toList.any fun s => s.isPrefixOf process)
  else
    match l.appIdToPkgs[appId]? with
    | none => some false
    | some pkgs => anyProc l process pkgs.toList

/-- `is_deny_target_uid` on loaded lists. -/
def Lists.isDenyTargetUid (l : Lists) (uid : Int) : Bool :=
  let hasProc (pkg : Str) : Bool :=
    match l.pkgToProcs[pkg]? with
    | none => false
    | some procs => !procs.isEmpty
  let appId := toAppId uid
  if 90000 ≤ appId then hasProc isolatedMagic
  else
    match l.appIdToPkgs[appId]? with
    | none => false
    | some pkgs => pkgs.toList.any hasProc

/-- `is_deny_target`. -/
def isDenyTarget (d : AppData) (s : Daemon) (uid : Int) (process : Str) :
    Daemon × Option Bool :=
  (loaded d s, (ensureData d s).1.isDenyTarget uid process)

/-- `is_deny_target_uid`. -/
def isDenyTargetUid (d : AppData) (s : Daemon) (uid : Int) : Daemon × Bool :=
  (loaded d s, (ensureData d s).1.isDenyTargetUid uid)

/-- `root_allowed` of the su daemon: everyone but the apps on the denylist. -/
def rootAllowed (d : AppData) (s : Daemon) (uid : Int) : Daemon × Bool :=
  if uid = 0 then (s, true)
  else ((isDenyTargetUid d s uid).1, !(isDenyTargetUid d s uid).2)

end Magisk.Core.Deny
