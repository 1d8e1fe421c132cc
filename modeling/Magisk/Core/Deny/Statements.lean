import Magisk.Core.Deny.Failure
import Magisk.Lib.Quote

/-!
# The statements of the denylist

The handlers print their statements into a buffer of 4096 bytes, with the names of packages and
processes between quotes.  The names of an `add` request and of a lock are validated, and the other
requests print names that are in the lists.

* `Sql`, `Sql.text`: the statements as they are printed;
* `Sql.Intended`: a statement that is printed whole, with names without a quote, and read back;
* `Event`, `Daemon.sql`: what the daemon is asked, and the statements it prints;
* `db_next`: these are the statements that are executed.
-/

namespace Magisk.Core.Deny

open Magisk.Base Magisk.Lib List Option

/-! ### Texts -/

/-- The statements, one for each format string. -/
inductive Sql where
  /-- `INSERT INTO denylist (package_name, process) VALUES('%s', '%s')` -/
  | add (pkg proc : Str)
  /-- `DELETE FROM denylist WHERE package_name='%s'` -/
  | rmPkg (pkg : Str)
  /-- `DELETE FROM denylist WHERE package_name='%s' AND process='%s'` -/
  | rmProc (pkg proc : Str)
  /-- `INSERT INTO denylist (package_name, process, locked) VALUES('%s', '', 1)` -/
  | sentinel (pkg : Str)
  /-- `DELETE FROM denylist WHERE package_name='%s' AND process=''` -/
  | dropSentinel (pkg : Str)
  /-- `UPDATE denylist SET locked=%d WHERE package_name='%s'` -/
  | setLocked (locked : Bool) (pkg : Str)
  deriving DecidableEq

/-- The quote of a literal. -/
def sqlQuote : UInt8 := 39

/-- `sizeof(sql)`. -/
def sqlSize : Nat := 4096

/-- `ssprintf`: what is left of a text in a buffer. -/
def ssprintf (size : Nat) (text : Str) : Str := text.take (size - 1)

variable {q : Sql} {l : Lists} {db : List Row}

namespace Sql

/-- What the statement is to do. -/
def stmt : Sql → DbStmt
  | .add pkg proc => .insert ⟨pkg, proc, 0⟩
  | .rmPkg pkg => .deletePkg pkg
  | .rmProc pkg proc => .deleteProc pkg proc
  | .sentinel pkg => .insert ⟨pkg, [], 1⟩
  | .dropSentinel pkg => .deleteProc pkg []
  | .setLocked locked pkg => .updateLocked pkg (if locked then 1 else 0)

/-- The names in it. -/
def names : Sql → List Str
  | .add pkg proc => [pkg, proc]
  | .rmPkg pkg => [pkg]
  | .rmProc pkg proc => [pkg, proc]
  | .sentinel pkg => [pkg]
  | .dropSentinel pkg => [pkg]
  | .setLocked _ pkg => [pkg]

/-- The text before the first literal. -/
def head : Sql → Str
  | .add _ _ => str "INSERT INTO denylist (package_name, process) VALUES("
  | .sentinel _ => str "INSERT INTO denylist (package_name, process, locked) VALUES("
  | .rmPkg _ => str "DELETE FROM denylist WHERE package_name="
  | .rmProc _ _ => str "DELETE FROM denylist WHERE package_name="
  | .dropSentinel _ => str "DELETE FROM denylist WHERE package_name="
  | .setLocked true _ => str "UPDATE denylist SET locked=1 WHERE package_name="
  | .setLocked false _ => str "UPDATE denylist SET locked=0 WHERE package_name="

/-- The literals, each with the text behind it. -/
def parts : Sql → List (Str × Str)
  | .add pkg proc => [(pkg, str ", "), (proc, str ")")]
  | .sentinel pkg => [(pkg, str ", "), ([], str ", 1)")]
  | .rmPkg pkg => [(pkg, [])]
  | .rmProc pkg proc => [(pkg, str " AND process="), (proc, [])]
  | .dropSentinel pkg => [(pkg, str " AND process="), ([], [])]
  | .setLocked _ pkg => [(pkg, [])]

/-- The text that is printed. -/
def text (q : Sql) : Str := quoted sqlQuote q.head q.parts

/-- The statement that a text is, for the statements of the handlers. -/
def read (text : Str) : Option DbStmt :=
  match unquote sqlQuote false text with
  | some [head, pkg, mid, proc, tail] =>
    if head = str "INSERT INTO denylist (package_name, process) VALUES(" ∧ mid = str ", " ∧
        tail = str ")" then some (.insert ⟨pkg, proc, 0⟩)
    else if head = str "INSERT INTO denylist (package_name, process, locked) VALUES(" ∧
        mid = str ", " ∧ tail = str ", 1)" then some (.insert ⟨pkg, proc, 1⟩)
    else if head = str "DELETE FROM denylist WHERE package_name=" ∧
        mid = str " AND process=" ∧ tail = [] then some (.deleteProc pkg proc)
    else none
  | some [head, pkg, tail] =>
    if tail ≠ [] then none
    else if head = str "DELETE FROM denylist WHERE package_name=" then some (.deletePkg pkg)
    else if head = str "UPDATE denylist SET locked=1 WHERE package_name=" then
      some (.updateLocked pkg 1)
    else if head = str "UPDATE denylist SET locked=0 WHERE package_name=" then
      some (.updateLocked pkg 0)
    else none
  | _ => none

/-- The names have no quote, the text fits the buffer, and what is in the buffer is the statement
that it is to be. -/
structure Intended (q : Sql) : Prop where
  quoteFree : ∀ name ∈ q.names, sqlQuote ∉ name
  fits : q.text.length < sqlSize
  reads : read (ssprintf sqlSize q.text) = some q.stmt

lemma sqlQuote_notMem_head (q : Sql) : sqlQuote ∉ q.head := by
  cases q with
  | setLocked locked pkg => cases locked <;> rw [head] <;> decide
  | _ => rw [head]; decide

lemma quotable_parts (h : ∀ name ∈ q.names, sqlQuote ∉ name) : Quotable sqlQuote q.parts := by
  have hnil : sqlQuote ∉ ([] : Str) := not_mem_nil
  cases q with
  | add pkg proc =>
    exact ⟨h pkg (.head _), by decide, nofun,
      h proc (.tail _ (.head _)), by decide, fun _ => rfl, trivial⟩
  | rmPkg pkg => exact ⟨h pkg (.head _), hnil, fun _ => rfl, trivial⟩
  | rmProc pkg proc =>
    exact ⟨h pkg (.head _), by decide, nofun,
      h proc (.tail _ (.head _)), hnil, fun _ => rfl, trivial⟩
  | sentinel pkg =>
    exact ⟨h pkg (.head _), by decide, nofun, hnil, by decide, fun _ => rfl, trivial⟩
  | dropSentinel pkg =>
    exact ⟨h pkg (.head _), by decide, nofun, hnil, hnil, fun _ => rfl, trivial⟩
  | setLocked locked pkg => exact ⟨h pkg (.head _), hnil, fun _ => rfl, trivial⟩

lemma read_text (h : ∀ name ∈ q.names, sqlQuote ∉ name) : read q.text = some q.stmt := by
  have hunquote : unquote sqlQuote false q.text = some (pieces q.head q.parts) :=
    unquote_quoted q.sqlQuote_notMem_head (quotable_parts h)
  rw [read, hunquote]
  cases q with
  | setLocked locked pkg => cases locked <;> rfl
  | _ => rfl

lemma intended_iff :
    q.Intended ↔ (∀ name ∈ q.names, sqlQuote ∉ name) ∧ q.text.length < sqlSize := by
  constructor
  · exact fun h => ⟨h.quoteFree, h.fits⟩
  · rintro ⟨hquote, hfits⟩
    have htext : ssprintf sqlSize q.text = q.text :=
      take_of_length_le (Nat.le_sub_one_of_lt hfits)
    exact ⟨hquote, hfits, by rw [htext, read_text hquote]⟩

/-! ### Lengths -/

section Lengths

variable (pkg proc : Str)

lemma length_add : (add pkg proc).text.length = pkg.length + proc.length + 59 := by
  have hhead : (str "INSERT INTO denylist (package_name, process) VALUES(").length = 52 := rfl
  have hmid : (str ", ").length = 2 := rfl
  have htail : (str ")").length = 1 := rfl
  simp only [text, head, parts, quoted, flatMap_cons, flatMap_nil, append_nil,
    length_append, length_cons, hhead, hmid, htail]
  omega

lemma length_rmPkg : (rmPkg pkg).text.length = pkg.length + 42 := by
  have hhead : (str "DELETE FROM denylist WHERE package_name=").length = 40 := rfl
  simp only [text, head, parts, quoted, flatMap_cons, flatMap_nil, append_nil,
    length_append, length_cons, length_nil, hhead]
  omega

lemma length_rmProc : (rmProc pkg proc).text.length = pkg.length + proc.length + 57 := by
  have hhead : (str "DELETE FROM denylist WHERE package_name=").length = 40 := rfl
  have hmid : (str " AND process=").length = 13 := rfl
  simp only [text, head, parts, quoted, flatMap_cons, flatMap_nil, append_nil,
    length_append, length_cons, length_nil, hhead, hmid]
  omega

lemma length_sentinel : (sentinel pkg).text.length = pkg.length + 70 := by
  have hhead : (str "INSERT INTO denylist (package_name, process, locked) VALUES(").length = 60 :=
    rfl
  have hmid : (str ", ").length = 2 := rfl
  have htail : (str ", 1)").length = 4 := rfl
  simp only [text, head, parts, quoted, flatMap_cons, flatMap_nil, append_nil,
    length_append, length_cons, length_nil, hhead, hmid, htail]
  omega

lemma length_setLocked (locked : Bool) : (setLocked locked pkg).text.length = pkg.length + 50 := by
  have hhead : (setLocked locked pkg).head.length = 48 := by cases locked <;> rfl
  simp only [text, parts, quoted, flatMap_cons, flatMap_nil, append_nil,
    length_append, length_cons, length_nil, hhead]
  omega

end Lengths

variable {pkg proc : Str}

lemma Intended.rmPkg (h : (add pkg proc).Intended) : (rmPkg pkg).Intended := by
  have hfits := h.fits
  rw [length_add] at hfits
  refine intended_iff.mpr ⟨fun name hname => h.quoteFree name ?_, ?_⟩
  · rw [mem_singleton.mp hname]
    exact .head _
  · rw [length_rmPkg]
    omega

lemma Intended.rmProc (h : (add pkg proc).Intended) : (rmProc pkg proc).Intended := by
  have hfits := h.fits
  rw [length_add] at hfits
  refine intended_iff.mpr ⟨h.quoteFree, ?_⟩
  rw [length_rmProc]
  omega

end Sql

/-! ### What is printed -/

/-- Does `scan_deny_apps` find the package uninstalled? -/
def scans (d : AppData) (locked : StrSet) (pkg : Str) : Bool :=
  pkg ≠ isolatedMagic && !locked.contains pkg && d.getAppIdOf d.users pkg = 0

/-- The statements of `scan_deny_apps`: one for each package that is not installed. -/
def scanSql (d : AppData) (l : Lists) : List Sql :=
  (l.pkgToProcs.keys.filter (scans d l.lockedPkgs)).map .rmPkg

/-- The names of a request, as C strings. -/
def Request.cStrs : Request → Request
  | .add pkg proc => .add (cStr pkg) (cStr proc)
  | .rm pkg proc => .rm (cStr pkg) (cStr proc)
  | .setLocked pkg locked => .setLocked (cStr pkg) locked

namespace Failing

variable (f : Failing)

/-- The statements of `ensure_data`. -/
def loadSql (d : AppData) (s : Daemon) : List Sql :=
  match s.lists with
  | some _ => []
  | none => if f.select then [] else scanSql d (s.db.foldl Lists.loadRow Lists.empty)

/-- The statements of a request on lists that are loaded. -/
def mainSql (d : AppData) (l : Lists) (db : List Row) : Request → List Sql
  | .add pkg proc =>
    match addMem d l pkg (addProc pkg proc) with
    | (_, some _) => []
    | (_, none) => [.add pkg (addProc pkg proc)]
  | .rm pkg proc =>
    match rmMem d l pkg proc with
    | (_, some _) => []
    | (_, none) => if proc = [] then [.rmPkg pkg] else [.rmProc pkg proc]
  | .setLocked pkg locked =>
    if !validate pkg [] then []
    else if locked then
      if l.lockedPkgs.contains pkg || l.pkgToProcs.contains pkg then [.setLocked true pkg]
      else if (f.exec db (.insert ⟨pkg, [], 1⟩)).isNone then [.sentinel pkg]
      else [.sentinel pkg, .setLocked true pkg]
    else if l.pkgToProcs.contains pkg then [.setLocked false pkg]
    else [.dropSentinel pkg, .setLocked false pkg]

/-- The statements of a request. -/
def requestSql (d : AppData) (s : Daemon) (r : Request) : List Sql :=
  if r.needsData then
    f.loadSql d s ++
      match f.ensureData d s with
      | none => []
      | some (l, db) => f.mainSql d l db r
  else []

/-- The table after some statements: one that fails changes nothing. -/
def execAll (db : List Row) (qs : List Sql) : List Row :=
  qs.foldl (fun db q => (f.exec db q.stmt).getD db) db

/-- The daemon after `ensure_data`. -/
def loaded (d : AppData) (s : Daemon) : Daemon :=
  match f.ensureData d s with
  | none => ⟨s.db, none⟩
  | some (l, db) => ⟨db, some l⟩

/-- The daemon after `scan_deny_apps`. -/
def rescanned (d : AppData) (s : Daemon) : Daemon :=
  match s.lists with
  | none => s
  | some l => ⟨(f.scanDenyApps d (l, s.db)).2, some (f.scanDenyApps d (l, s.db)).1⟩

end Failing

/-- What the daemon is asked.  A query is a request that only loads the data, and the daemon may be
started again. -/
inductive Event where
  | request (f : Failing) (d : AppData) (r : Request)
  | ls (f : Failing) (d : AppData)
  | query (f : Failing) (d : AppData)
  | zygoteRestart (f : Failing) (d : AppData)
  | reboot

/-- The daemon after it. -/
def Daemon.next (s : Daemon) : Event → Daemon
  | .request f d r => (f.request d s r.cStrs).1
  | .ls f d => f.rescanned d (f.loaded d s)
  | .query f d => f.loaded d s
  | .zygoteRestart f d => f.rescanned d s
  | .reboot => ⟨s.db, none⟩

/-- The statements that it prints. -/
def Daemon.sql (s : Daemon) : Event → List Sql
  | .request f d r => f.requestSql d s r.cStrs
  | .ls f d => f.loadSql d s ++ (f.loaded d s).lists.elim [] (scanSql d)
  | .query f d => f.loadSql d s
  | .zygoteRestart _ d => s.lists.elim [] (scanSql d)
  | .reboot => []

/-- The statements of a run. -/
def Daemon.runSql : Daemon → List Event → List Sql
  | _, [] => []
  | s, e :: es => s.sql e ++ (s.next e).runSql es

/-! ### What is executed -/

namespace Failing

variable {f : Failing} {d : AppData} {s : Daemon}

lemma execAll_append (db : List Row) (qs qs' : List Sql) :
    f.execAll db (qs ++ qs') = f.execAll (f.execAll db qs) qs' := foldl_append

/-- One round of the scan executes what it prints. -/
lemma snd_scanPkg (l : Lists) (db : List Row) (pkg : Str) :
    (f.scanPkg d (l, db) pkg).2 =
      f.execAll db (if scans d l.lockedPkgs pkg then [.rmPkg pkg] else []) := by
  rw [scanPkg, scans]
  by_cases hisolated : pkg = isolatedMagic
  · simp only [hisolated, if_true, ne_eq, not_true_eq_false, decide_false, Bool.false_and,
      Bool.false_eq_true, if_false]
    rfl
  · by_cases hlocked : l.lockedPkgs.contains pkg = true
    · simp only [if_neg hisolated, hlocked, if_true, Bool.not_true, Bool.and_false, Bool.false_and,
        Bool.false_eq_true, if_false]
      rfl
    · by_cases hid : d.getAppIdOf d.users pkg = 0
      · simp only [hisolated, hlocked, hid, if_true, if_false, ne_eq, not_false_eq_true,
          decide_true, Bool.not_false, Bool.and_true, Bool.false_eq_true]
        rfl
      · simp only [hisolated, hlocked, hid, if_false, decide_false, Bool.and_false,
          Bool.false_eq_true]
        rfl

lemma lockedPkgs_scanPkg (s : Lists × List Row) (pkg : Str) :
    (f.scanPkg d s pkg).1.lockedPkgs = s.1.lockedPkgs := by
  simp only [scanPkg]
  split_ifs
  · rfl
  · rfl
  · rfl
  · exact Lists.updateAppId_lockedPkgs _

/-- The scan executes what it prints. -/
lemma snd_scanDenyApps (l : Lists) (db : List Row) :
    (f.scanDenyApps d (l, db)).2 = f.execAll db (scanSql d l) := by
  have hfold : ∀ (ks : List Str) (s : Lists × List Row), s.1.lockedPkgs = l.lockedPkgs →
      (ks.foldl (f.scanPkg d) s).2 =
        f.execAll s.2 ((ks.filter (scans d l.lockedPkgs)).map .rmPkg) := by
    intro ks
    induction ks with
    | nil => exact fun _ _ => rfl
    | cons k ks ih =>
      intro s hlocked
      rw [foldl_cons, ih _ ((lockedPkgs_scanPkg s k).trans hlocked),
        show s = (s.1, s.2) from rfl, snd_scanPkg, hlocked, ← execAll_append]
      by_cases hk : scans d l.lockedPkgs k = true
      · rw [if_pos hk, filter_cons_of_pos hk]
        rfl
      · rw [if_neg hk, filter_cons_of_neg hk]
        rfl
  exact hfold l.pkgToProcs.keys _ rfl

/-- Loading executes what it prints. -/
lemma db_ensureData (h : f.ensureData d s = some (l, db)) :
    db = f.execAll s.db (f.loadSql d s) := by
  rw [ensureData] at h
  rw [loadSql]
  cases hlists : s.lists with
  | some l' =>
    rw [hlists] at h
    exact (congrArg Prod.snd (some.inj h)).symm
  | none =>
    simp only [hlists] at h ⊢
    split at h
    · cases h
    · rw [if_neg ‹_›, ← snd_scanDenyApps, some.inj h]

lemma loadSql_of_none (h : f.ensureData d s = none) : f.loadSql d s = [] := by
  rw [ensureData] at h
  rw [loadSql]
  cases hlists : s.lists with
  | some l => rfl
  | none =>
    simp only [hlists] at h ⊢
    split at h
    · rw [if_pos ‹_›]
    · cases h

lemma db_loaded : (f.loaded d s).db = f.execAll s.db (f.loadSql d s) := by
  rw [loaded]
  cases hdata : f.ensureData d s with
  | none =>
    rw [loadSql_of_none hdata]
    rfl
  | some data => exact db_ensureData hdata

lemma db_rescanned :
    (f.rescanned d s).db = f.execAll s.db (s.lists.elim [] (scanSql d)) := by
  rw [rescanned]
  cases s.lists with
  | none => rfl
  | some l => exact snd_scanDenyApps l s.db

lemma db_finish (db : List Row) (l : Lists) (q : Sql) :
    (f.finish db l q.stmt).1.db = f.execAll db [q] := by
  rw [finish, execAll, foldl_cons]
  cases f.exec db q.stmt <;> rfl

lemma db_addList (pkg proc : Str) (h : validate pkg (addProc pkg proc) = true)
    (hdata : f.ensureData d s = some (l, db)) :
    (f.addList d s pkg proc).1.db = f.execAll db (f.mainSql d l db (.add pkg proc)) := by
  simp only [addList, h, hdata, mainSql]
  rcases addMem d l pkg (addProc pkg proc) with ⟨l', _ | r⟩
  · exact db_finish db l' (.add pkg (addProc pkg proc))
  · rfl

lemma db_rmList (pkg proc : Str) (hdata : f.ensureData d s = some (l, db)) :
    (f.rmList d s pkg proc).1.db = f.execAll db (f.mainSql d l db (.rm pkg proc)) := by
  simp only [rmList, hdata, mainSql]
  rcases rmMem d l pkg proc with ⟨l', _ | r⟩
  · by_cases hproc : proc = []
    · simp only [if_pos hproc]
      exact db_finish db l' (.rmPkg pkg)
    · simp only [if_neg hproc]
      exact db_finish db l' (.rmProc pkg proc)
  · rfl

lemma db_setLocked (pkg : Str) (locked : Bool) (h : pkg ≠ isolatedMagic)
    (hdata : f.ensureData d s = some (l, db)) :
    (f.setLocked d s pkg locked).1.db =
      f.execAll db (f.mainSql d l db (.setLocked pkg locked)) := by
  simp only [setLocked, if_neg h, hdata, mainSql]
  by_cases hvalid : (!validate pkg []) = true
  · rw [if_pos hvalid, if_pos hvalid]
    rfl
  rw [if_neg hvalid]
  cases locked with
  | true =>
    simp only [if_true]
    split
    · exact db_finish db _ (.setLocked true pkg)
    · cases hexec : f.exec db (.insert ⟨pkg, [], 1⟩) with
      | none =>
        have hstmt : f.exec db (Sql.sentinel pkg).stmt = none := hexec
        simp [execAll, hstmt]
      | some db' =>
        have hstmt : f.exec db (Sql.sentinel pkg).stmt = some db' := hexec
        simp only [isNone_some, Bool.false_eq_true, if_false]
        rw [execAll, foldl_cons, hstmt]
        exact db_finish db' _ (.setLocked true pkg)
  | false =>
    simp only [Bool.false_eq_true, if_false]
    split
    · exact db_finish db _ (.setLocked false pkg)
    · exact db_finish _ _ (.setLocked false pkg)

/-- A request executes what it prints. -/
lemma db_request (r : Request) :
    (f.request d s r).1.db = f.execAll s.db (f.requestSql d s r) := by
  rw [requestSql]
  by_cases hneeds : r.needsData = true
  · rw [if_pos hneeds]
    cases hdata : f.ensureData d s with
    | none =>
      rw [request_of_none hneeds hdata, loadSql_of_none hdata]
      rfl
    | some data =>
      rw [execAll_append, ← db_ensureData hdata]
      cases r with
      | add pkg proc => exact db_addList pkg proc hneeds hdata
      | rm pkg proc => exact db_rmList pkg proc hdata
      | setLocked pkg locked => exact db_setLocked pkg locked (of_decide_eq_true hneeds) hdata
  · rw [if_neg hneeds, request_of_not_needsData hneeds]
    rfl

end Failing

/-- **The statements that are printed are those that are executed.** -/
theorem db_next (s : Daemon) (e : Event) :
    ∃ f : Failing, (s.next e).db = f.execAll s.db (s.sql e) := by
  cases e with
  | request f d r => exact ⟨f, f.db_request r.cStrs⟩
  | ls f d =>
    refine ⟨f, ?_⟩
    rw [Daemon.next, Daemon.sql, Failing.db_rescanned, Failing.db_loaded,
      Failing.execAll_append]
  | query f d => exact ⟨f, Failing.db_loaded⟩
  | zygoteRestart f d => exact ⟨f, Failing.db_rescanned⟩
  | reboot => exact ⟨.never, rfl⟩

end Magisk.Core.Deny
