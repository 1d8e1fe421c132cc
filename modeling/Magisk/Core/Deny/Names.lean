import Magisk.Core.Deny.Statements

/-!
# Names in statements

A name that is printed into a statement has been validated by the request that brought it in, or
by an earlier one.  For isolated services the validation ends at a colon, and no name is too long
for it.

* `Printable`: the names in memory and in the table can be printed;
* `Harmless`: a request that does not bring in a name with a quote, or one that is too long;
* `intended_sql_iff`, `Printable.next`: one request;
* `intended_iff_harmless`: when all statements of a run are as intended.
-/

namespace Magisk.Core.Deny

open Magisk.Base Magisk.Lib List Option Std.ExtTreeMap

variable {l l' : Lists} {db : List Row}

/-! ### Names -/

/-- A package name that is valid has no quote. -/
lemma sqlQuote_notMem_of_validatePkg (h : validatePkg valid pkg = true) : sqlQuote ∉ pkg := by
  induction pkg generalizing valid with
  | nil => exact not_mem_nil
  | cons c pkg ih =>
    rw [mem_cons, not_or]
    rw [validatePkg] at h
    split at h
    · rename_i hc
      refine ⟨?_, ih h⟩
      rintro rfl
      exact absurd hc (by decide)
    · split at h
      · rename_i hdot
        refine ⟨?_, ih h⟩
        rintro rfl
        exact absurd hdot (by decide)
      · cases h

lemma sqlQuote_notMem_of_validate (h : validate pkg proc = true) : sqlQuote ∉ pkg := by
  rw [validate] at h
  split at h
  · rename_i hisolated
    rw [hisolated]
    decide
  · exact sqlQuote_notMem_of_validatePkg (Bool.and_eq_true_iff.mp h).1

/-- The names in the lists can be printed. -/
structure PrintableLists (l : Lists) : Prop where
  key : ∀ pkg ∈ l.pkgToProcs, (Sql.rmPkg pkg).Intended
  entry : ∀ pkg proc, l.Entry pkg proc → (Sql.add pkg proc).Intended

/-- So can those of the rows, which the lists may be loaded from. -/
def PrintableRows (db : List Row) : Prop :=
  ∀ r ∈ db, r.process ≠ [] → (Sql.add r.packageName r.process).Intended

/-- The names in memory and in the table can be printed. -/
structure Printable (s : Daemon) : Prop where
  rows : PrintableRows s.db
  lists : ∀ l, s.lists = some l → PrintableLists l

lemma PrintableLists.of_eq (h : PrintableLists l) (heq : l'.pkgToProcs = l.pkgToProcs) :
    PrintableLists l' := by
  constructor
  · rw [heq]
    exact h.key
  · intro pkg proc he
    rw [Lists.Entry, heq] at he
    exact h.entry pkg proc he

lemma PrintableRows.load (h : PrintableRows db) :
    PrintableLists (db.foldl Lists.loadRow Lists.empty) := by
  have hloads := loads_load db
  have hentry : ∀ pkg proc, (db.foldl Lists.loadRow Lists.empty).Entry pkg proc →
      (Sql.add pkg proc).Intended := by
    intro pkg proc he
    obtain ⟨hne, v, hmem⟩ := (hloads.entry pkg proc).mp he
    exact h _ hmem hne
  refine ⟨fun pkg hpkg => ?_, hentry⟩
  obtain ⟨proc, he⟩ := hloads.noEmptyKey pkg hpkg
  exact (hentry pkg proc he).rmPkg

namespace Failing

variable {f : Failing} {d : AppData} {s : Daemon}

/-- A statement that fails does not change what a scan does to the lists. -/
lemma fst_scanDenyApps (l : Lists) (db : List Row) :
    (f.scanDenyApps d (l, db)).1 = (Deny.scanDenyApps d (l, db)).1 := by
  have hround : ∀ (s s' : Lists × List Row) (pkg : Str), s.1 = s'.1 →
      (f.scanPkg d s pkg).1 = (Deny.scanPkg d s' pkg).1 := by
    intro s s' pkg heq
    simp only [scanPkg, Deny.scanPkg, heq]
    split_ifs <;> first | rfl | exact heq
  have hfold : ∀ (ks : List Str) (s s' : Lists × List Row), s.1 = s'.1 →
      (ks.foldl (f.scanPkg d) s).1 = (ks.foldl (Deny.scanPkg d) s').1 := by
    intro ks
    induction ks with
    | nil => exact fun _ _ heq => heq
    | cons k ks ih => exact fun s s' heq => ih _ _ (hround s s' k heq)
  exact hfold _ _ _ rfl

lemma lists_of_ensureData (hlists : s.lists = none) (h : f.ensureData d s = some (l, db)) :
    l = (Deny.scanDenyApps d (s.db.foldl Lists.loadRow Lists.empty, s.db)).1 := by
  simp only [ensureData, hlists, ite_none_left_eq_some, Option.some.injEq] at h
  rw [← fst_scanDenyApps (f := f), h.2]

end Failing

section Printable

variable {f : Failing} {d : AppData} {s : Daemon}

lemma PrintableLists.scan (h : PrintableLists l) (db : List Row) :
    PrintableLists (f.scanDenyApps d (l, db)).1 := by
  rw [Failing.fst_scanDenyApps]
  constructor
  · exact fun pkg hpkg => h.key pkg (mem_scanDenyApps hpkg).1
  · exact fun pkg proc he => h.entry pkg proc (entry_scanDenyApps.mp he).1

lemma PrintableLists.scanSql (h : PrintableLists l) : ∀ q ∈ scanSql d l, q.Intended := by
  intro q hq
  obtain ⟨pkg, hpkg, rfl⟩ := mem_map.mp hq
  exact h.key pkg (mem_keys.mp (mem_of_mem_filter hpkg))

lemma Printable.ensureData (h : Printable s) (hdata : f.ensureData d s = some (l, db)) :
    PrintableLists l := by
  rw [Failing.ensureData] at hdata
  split at hdata
  · rename_i l' hlists
    obtain ⟨rfl, -⟩ := Prod.mk.inj (some.inj hdata)
    exact h.lists _ hlists
  · split at hdata
    · cases hdata
    · have hscan := h.rows.load.scan (f := f) (d := d) s.db
      rw [some.inj hdata] at hscan
      exact hscan

lemma Printable.loadSql (h : Printable s) : ∀ q ∈ f.loadSql d s, q.Intended := by
  rw [Failing.loadSql]
  split
  · exact forall_mem_nil _
  · split
    · exact forall_mem_nil _
    · exact h.rows.load.scanSql

/-- Statements that are as intended leave rows that are. -/
lemma PrintableRows.execAll (h : PrintableRows db) (hqs : ∀ q ∈ qs, q.Intended) :
    PrintableRows (f.execAll db qs) := by
  induction qs generalizing db with
  | nil => exact h
  | cons q qs ih =>
    have hrest := fun q' hq' => hqs q' (mem_cons_of_mem q hq')
    suffices hclean : PrintableRows ((f.exec db q.stmt).getD db) from ih hclean hrest
    cases hexec : f.exec db q.stmt with
    | none => exact h
    | some db' =>
      rw [Failing.exec] at hexec
      split at hexec
      · cases hexec
      · intro r hr hne
        rcases (mem_dbExec hexec).mp hr with ⟨r₀, hr₀, hkeep⟩ | hadded
        · have hkey := sameKey_relock q.stmt r₀
          rw [(keep_eq_some.mp hkeep).2] at hkey
          rw [← hkey.1, ← hkey.2]
          rw [← hkey.2] at hne
          exact h r₀ hr₀ hne
        · have hq := hqs q (.head _)
          cases q with
          | add pkg proc =>
            cases hadded
            exact hq
          | sentinel pkg =>
            cases hadded
            exact absurd rfl hne
          | _ => cases hadded

/-- A process that is taken out was in the lists. -/
lemma entry_of_rmMem (h : (rmMem d l pkg proc).2 = none) (hne : proc ≠ []) : l.Entry pkg proc := by
  rcases rmMem_answer d l pkg proc with ⟨r, hr, -⟩ | ⟨-, procs, hprocs, hproc, -⟩
  · rw [hr] at h
    cases h
  · exact ⟨procs, hprocs, hproc.resolve_left hne⟩

lemma PrintableLists.addMem (h : PrintableLists l)
    (hadd : (addMem d l pkg proc).2 = none → (Sql.add pkg proc).Intended) :
    PrintableLists (addMem d l pkg proc).1 := by
  rcases addMem_cases d l pkg proc with ⟨hsame, -⟩ | hnew
  · rw [hsame]
    exact h
  · have hintended := hadd (by rw [hnew])
    rw [hnew]
    constructor
    · intro q hq
      rw [Lists.updateAppId_pkgToProcs, Lists.mem_addHideSet] at hq
      rcases hq with rfl | hq
      · exact hintended.rmPkg
      · exact h.key q hq
    · intro q p he
      rw [Lists.entry_updateAppId, Lists.entry_addHideSet] at he
      rcases he with he | ⟨rfl, rfl⟩
      · exact h.entry q p he
      · exact hintended

lemma PrintableLists.rmMem (h : PrintableLists l) (pkg proc : Str) :
    PrintableLists (rmMem d l pkg proc).1 := by
  rcases rmMem_answer d l pkg proc with ⟨r, hsame, -⟩ | ⟨-, procs, hprocs, -, hremoved⟩
  · rw [hsame]
    exact h
  · rw [hremoved]
    constructor
    · intro q hq
      refine h.key q ?_
      simp only [removed] at hq
      split_ifs at hq
      · have hq' := (mem_erase.mp hq).2
        rwa [Lists.updateAppId_pkgToProcs] at hq'
      · exact mem_of_mem_insert hprocs hq
    · exact fun q p he => h.entry q p ((entry_removed hprocs q p).mp he).1

end Printable

/-! ### Requests that do no harm -/

/-- The request brings in no name with a quote, and none that is too long for its statements. -/
def HarmlessOn (d : AppData) (l : Lists) : Request → Prop
  | .add pkg proc => (addMem d l pkg (addProc pkg proc)).2 = none →
      sqlQuote ∉ addProc pkg proc ∧ pkg.length + (addProc pkg proc).length + 59 < sqlSize
  | .rm _ _ => True
  | .setLocked pkg true => validate pkg [] = true →
      if l.lockedPkgs.contains pkg || l.pkgToProcs.contains pkg then pkg.length + 50 < sqlSize
      else pkg.length + 70 < sqlSize
  | .setLocked pkg false => validate pkg [] = true →
      if l.pkgToProcs.contains pkg then pkg.length + 50 < sqlSize else pkg.length + 57 < sqlSize

/-- The same of an event.  It matters only for a request that comes to the lists. -/
def Harmless (s : Daemon) : Event → Prop
  | .request f d r => r.cStrs.needsData = true →
      ∀ l db, f.ensureData d s = some (l, db) → HarmlessOn d l r.cStrs
  | _ => True

/-- Each event of a run does no harm, in the state in which it comes. -/
def HarmlessRun : Daemon → List Event → Prop
  | _, [] => True
  | s, e :: es => Harmless s e ∧ HarmlessRun (s.next e) es

section Intended

variable {f : Failing} {d : AppData} {pkg proc : Str} {r : Request} {s : Daemon}

lemma intended_add_iff (h : sqlQuote ∉ pkg) : (Sql.add pkg proc).Intended ↔
    sqlQuote ∉ proc ∧ pkg.length + proc.length + 59 < sqlSize := by
  rw [Sql.intended_iff, Sql.length_add]
  refine and_congr_left fun _ => ⟨fun hq => hq proc ?_, fun hproc name hname => ?_⟩
  · exact .tail _ (.head _)
  · rcases mem_cons.mp hname with rfl | hname
    · exact h
    · rw [mem_singleton.mp hname]
      exact hproc

lemma intended_iff_of_names {q : Sql} (h : sqlQuote ∉ pkg) (hnames : q.names = [pkg])
    (hlen : q.text.length = n) : q.Intended ↔ n < sqlSize := by
  rw [Sql.intended_iff, hlen, hnames]
  refine and_iff_right fun name hname => ?_
  rw [mem_singleton.mp hname]
  exact h

lemma length_dropSentinel (pkg : Str) : (Sql.dropSentinel pkg).text.length = pkg.length + 57 :=
  Sql.length_rmProc pkg []

/-- **When the statements of a request are as intended.** -/
lemma intended_mainSql_iff (h : PrintableLists l) (hneeds : r.needsData = true) :
    (∀ q ∈ f.mainSql d l db r, q.Intended) ↔ HarmlessOn d l r := by
  cases r with
  | add pkg proc =>
    have hquote := sqlQuote_notMem_of_validate hneeds
    rw [Failing.mainSql, HarmlessOn]
    split
    · rename_i hmem
      rw [hmem]
      exact iff_of_true (forall_mem_nil _) (by rintro ⟨⟩)
    · rename_i hmem
      rw [hmem, forall_mem_singleton, intended_add_iff hquote]
      exact ⟨fun h _ => h, fun h => h rfl⟩
  | rm pkg proc =>
    refine iff_of_true ?_ trivial
    rw [Failing.mainSql]
    split
    · exact forall_mem_nil _
    · rename_i hmem
      have hnone : (rmMem d l pkg proc).2 = none := congrArg Prod.snd hmem
      split
      · rw [forall_mem_singleton]
        rcases rmMem_answer d l pkg proc with ⟨r, hr, -⟩ | ⟨-, procs, hprocs, -⟩
        · rw [hr] at hnone
          cases hnone
        · refine h.key pkg (mem_iff_isSome_getElem?.mpr ?_)
          rw [hprocs]
          rfl
      · rw [forall_mem_singleton]
        exact (h.entry pkg proc (entry_of_rmMem hnone ‹_›)).rmProc
  | setLocked pkg locked =>
    rw [Failing.mainSql]
    by_cases hvalid : validate pkg [] = true
    · have hquote := sqlQuote_notMem_of_validate hvalid
      have hset : ∀ locked, (Sql.setLocked locked pkg).Intended ↔ pkg.length + 50 < sqlSize :=
        fun locked => intended_iff_of_names hquote rfl (Sql.length_setLocked pkg locked)
      have hsentinel : (Sql.sentinel pkg).Intended ↔ pkg.length + 70 < sqlSize :=
        intended_iff_of_names hquote rfl (Sql.length_sentinel pkg)
      have hdrop : (Sql.dropSentinel pkg).Intended ↔ pkg.length + 57 < sqlSize :=
        intended_iff_of_names hquote rfl (length_dropSentinel pkg)
      rw [if_neg (by rw [hvalid]; decide)]
      cases locked with
      | true =>
        simp only [if_true, HarmlessOn, hvalid, true_implies]
        split
        · rw [forall_mem_singleton, hset]
        · split
          · rw [forall_mem_singleton, hsentinel]
          · rw [forall_mem_cons, forall_mem_singleton, hsentinel, hset]
            exact and_iff_left_of_imp fun hlt => by omega
      | false =>
        simp only [Bool.false_eq_true, if_false, HarmlessOn, hvalid, true_implies]
        split
        · rw [forall_mem_singleton, hset]
        · rw [forall_mem_cons, forall_mem_singleton, hdrop, hset]
          exact and_iff_left_of_imp fun hlt => by omega
    · rw [Bool.not_eq_true] at hvalid
      rw [hvalid]
      refine iff_of_true (forall_mem_nil _) ?_
      cases locked <;> simp only [HarmlessOn, hvalid, Bool.false_eq_true, false_implies]

/-- A lock changes no process. -/
lemma Failing.pkgToProcs_setLocked (h : pkg ≠ isolatedMagic)
    (hdata : f.ensureData d s = some (l, db))
    (hl' : (f.setLocked d s pkg locked).1.lists = some l') :
    l'.pkgToProcs = l.pkgToProcs := by
  simp only [setLocked, if_neg h, hdata] at hl'
  split at hl'
  · cases hl'
    rfl
  · cases locked with
    | true =>
      simp only [if_true] at hl'
      split at hl'
      · rw [lists_finish] at hl'
        cases hl'
        rfl
      · split at hl'
        · cases hl'
          rfl
        · rw [lists_finish] at hl'
          cases hl'
          rfl
    | false =>
      simp only [Bool.false_eq_true, if_false] at hl'
      split at hl' <;> rw [lists_finish] at hl'
      · cases hl'
        rfl
      · cases hl'
        rfl

/-- The lists after a request on lists that are loaded. -/
lemma PrintableLists.request (h : PrintableLists l) (hdata : f.ensureData d s = some (l, db))
    (hneeds : r.needsData = true) (hsql : ∀ q ∈ f.mainSql d l db r, q.Intended)
    (hl' : (f.request d s r).1.lists = some l') : PrintableLists l' := by
  cases r with
  | add pkg proc =>
    rw [Request.needsData] at hneeds
    have hclean : PrintableLists (Deny.addMem d l pkg (addProc pkg proc)).1 := by
      refine h.addMem fun hnone => hsql _ ?_
      rw [Failing.mainSql]
      split
      · rename_i hmem
        rw [hmem] at hnone
        cases hnone
      · exact mem_singleton.mpr rfl
    simp only [Failing.request, Failing.addList, hneeds, Bool.not_true, Bool.false_eq_true,
      if_false, hdata] at hl'
    split at hl'
    · rename_i hmem
      rw [hmem] at hclean
      cases hl'
      exact hclean
    · rename_i hmem
      rw [hmem] at hclean
      rw [Failing.lists_finish] at hl'
      cases hl'
      exact hclean
  | rm pkg proc =>
    have hclean : PrintableLists (Deny.rmMem d l pkg proc).1 := h.rmMem pkg proc
    simp only [Failing.request, Failing.rmList, hdata] at hl'
    split at hl'
    · rename_i hmem
      rw [hmem] at hclean
      cases hl'
      exact hclean
    · rename_i hmem
      rw [hmem] at hclean
      rw [Failing.lists_finish] at hl'
      cases hl'
      exact hclean
  | setLocked pkg locked =>
    have hne : pkg ≠ isolatedMagic := of_decide_eq_true hneeds
    exact h.of_eq (Failing.pkgToProcs_setLocked hne hdata hl')

end Intended

section Run

variable {s : Daemon}

/-- **When the statements of an event are as intended.** -/
lemma intended_sql_iff (h : Printable s) (e : Event) :
    (∀ q ∈ s.sql e, q.Intended) ↔ Harmless s e := by
  cases e with
  | request f d r =>
    rw [Daemon.sql, Failing.requestSql, Harmless]
    split
    · rename_i hneeds
      rw [forall_mem_append, and_iff_right h.loadSql]
      cases hdata : f.ensureData d s with
      | none => exact iff_of_true (forall_mem_nil _) (by rintro _ _ _ ⟨⟩)
      | some data =>
        obtain ⟨l, db⟩ := data
        refine (intended_mainSql_iff (h.ensureData hdata) hneeds).trans ?_
        refine ⟨fun hharm _ l' db' heq => ?_, fun hharm => hharm hneeds l db rfl⟩
        cases heq
        exact hharm
    · exact iff_of_true (forall_mem_nil _) fun hneeds => absurd hneeds ‹_›
  | ls f d =>
    refine iff_of_true ?_ trivial
    rw [Daemon.sql, forall_mem_append]
    refine ⟨h.loadSql, ?_⟩
    rw [Failing.loaded]
    cases hdata : f.ensureData d s with
    | none => exact forall_mem_nil _
    | some data => exact (h.ensureData hdata).scanSql
  | query f d => exact iff_of_true h.loadSql trivial
  | zygoteRestart f d =>
    refine iff_of_true ?_ trivial
    rw [Daemon.sql]
    cases hlists : s.lists with
    | none => exact forall_mem_nil _
    | some l => exact (h.lists l hlists).scanSql
  | reboot => exact iff_of_true (forall_mem_nil _) trivial

lemma Printable.lists_loaded (h : Printable s) {f : Failing}
    (hl : (f.loaded d s).lists = some l) : PrintableLists l := by
  rw [Failing.loaded] at hl
  cases hdata : f.ensureData d s with
  | none =>
    rw [hdata] at hl
    cases hl
  | some data =>
    rw [hdata] at hl
    cases hl
    exact h.ensureData hdata

lemma lists_rescanned {f : Failing} (h : ∀ l, s.lists = some l → PrintableLists l)
    (hl : (f.rescanned d s).lists = some l) : PrintableLists l := by
  rw [Failing.rescanned] at hl
  cases hlists : s.lists with
  | none =>
    simp only [hlists] at hl
    cases hl
  | some l' =>
    simp only [hlists, Option.some.injEq] at hl
    rw [← hl]
    exact (h l' hlists).scan s.db

/-- One event: statements that are as intended leave names that can be printed. -/
lemma Printable.next (h : Printable s) (hsql : ∀ q ∈ s.sql e, q.Intended) :
    Printable (s.next e) := by
  constructor
  · obtain ⟨f, hdb⟩ := db_next s e
    rw [hdb]
    exact h.rows.execAll hsql
  · intro l hl
    cases e with
    | request f d r =>
      by_cases hneeds : r.cStrs.needsData = true
      · cases hdata : f.ensureData d s with
        | none =>
          rw [Daemon.next, Failing.request_of_none hneeds hdata] at hl
          cases hl
        | some data =>
          refine (h.ensureData hdata).request hdata hneeds (fun q hq => hsql q ?_) hl
          rw [Daemon.sql, Failing.requestSql, if_pos hneeds, hdata]
          exact mem_append_right _ hq
      · rw [Daemon.next, Failing.request_of_not_needsData hneeds] at hl
        exact h.lists l hl
    | ls f d => exact lists_rescanned (fun _ => h.lists_loaded) hl
    | query f d => exact h.lists_loaded hl
    | zygoteRestart f d => exact lists_rescanned h.lists hl
    | reboot => cases hl

/-- **When all statements of a run are as intended**: just if none of its requests brings in a name
that does harm. -/
theorem intended_iff_harmless (h : Printable s) (es : List Event) :
    (∀ q ∈ s.runSql es, q.Intended) ↔ HarmlessRun s es := by
  induction es generalizing s with
  | nil => exact iff_of_true nofun trivial
  | cons e es ih =>
    rw [Daemon.runSql, forall_mem_append]
    constructor
    · rintro ⟨hsql, hrest⟩
      exact ⟨(intended_sql_iff h e).mp hsql, (ih (h.next hsql)).mp hrest⟩
    · rintro ⟨hharm, hrest⟩
      have hsql := (intended_sql_iff h e).mpr hharm
      exact ⟨hsql, (ih (h.next hsql)).mpr hrest⟩

lemma printable_empty : Printable ⟨[], none⟩ := ⟨nofun, nofun⟩

/-- A package is added and locked. -/
def shortRequests : List Event :=
  [.request .never oneApp.data (.add (str "com.app") []),
    .request .never oneApp.data (.setLocked (str "com.app") true)]

/-- The two statements are as intended. -/
theorem intended_shortRequests :
    (Sql.add (str "com.app") (str "com.app")).Intended ∧
      (Sql.setLocked true (str "com.app")).Intended := by
  have hall := (intended_iff_harmless printable_empty shortRequests).mpr ⟨?_, ?_, trivial⟩
  · exact ⟨hall _ (by decide), hall _ (by decide)⟩
  · exact fun _ l db _ _ => ⟨by decide, by decide⟩
  · intro _ l db _ _
    split <;> decide

/-- The process of an isolated service is not validated behind a colon: with a quote there the
literal does not end. -/
theorem not_intended_isolated :
    Sql.add isolatedMagic (str "a:" ++ [sqlQuote]) ∈ Daemon.runSql ⟨[], none⟩
      [.request .never oneApp.data (.add isolatedMagic (str "a:" ++ [sqlQuote]))] ∧
    Sql.read (ssprintf sqlSize (Sql.add isolatedMagic (str "a:" ++ [sqlQuote])).text) = none :=
  ⟨by decide, rfl⟩

end Run

end Magisk.Core.Deny
