import Magisk.Core.Sqlite

/-!
What the migration chain of `open_and_init_db` achieves.

The steps of versions 11 to 14 are executed symbolically once each, from the
last to the first, on any database that has what the step needs; the database
they end in is `finished`.  The failures all have one cause: a script that adds
a column somewhere fails on a database that has the column already (or has no
such table), and nothing before that statement takes the column away again.

* `execAll_script_11`, `execAll_script_12`, `execAll_script_13`,
  `execAll_script_14`: where a chain entered at one of these versions ends;
* `fails_of_locked`, `fails_of_packageName`: where it fails;
* `migrated_iff`: the migration of a historical database is complete exactly
  from version 11 on, because the steps of versions 7 to 10 create `denylist`
  with the column `locked` that version 13 then adds;
* `restartable_iff`: a crash is repaired by the next start exactly if no `ALTER
  TABLE ... ADD COLUMN` has been committed;
* `openAndInitDb_again`: an opened database is left as it is.
-/

namespace Magisk.Core.Sqlite

open Magisk.Lib.Sql List Option

/-! ### The rebuild of `policies` -/

/-- The columns the rebuild selects. -/
def policiesColumns : List String := ["uid", "policy", "until", "logging", "notification"]

/-- A `policies` table the rebuild of version 12 can read: it has the five columns
and its primary key is `uid`. -/
structure Rebuildable (p : Table) : Prop where
  columns : policiesColumns.all p.schema.hasColumn
  primaryKey : p.schema.primaryKey = ["uid"]
  unique : p.schema.Unique p.rows

/-- `policies` after the rebuild. -/
def rebuilt (p : Table) : Table :=
  ⟨policiesSchema, p.rows.map fun r => policiesColumns.map fun c => (p.schema.get r c).getD .null⟩

variable {p d : Table} {n : String} {db' db : Database} {k : Nat} {ss ss' : List Stmt} {v : Int}

/-- The rebuilt rows obey the primary key: their key is the `uid` they had. -/
lemma unique_rebuilt (hp : Rebuildable p) : policiesSchema.Unique (rebuilt p).rows := by
  rw [rebuilt, Schema.Unique, pairwise_map]
  refine hp.unique.imp fun {r₁ r₂} hne hconf => hne ?_
  have hkey : ∀ r, p.schema.key r = [p.schema.get r "uid"] := fun r => by
    rw [Schema.key, hp.primaryKey]
    rfl
  have hnew : ∀ r, policiesSchema.key
      (policiesColumns.map fun c => (p.schema.get r c).getD .null)
        = [some ((p.schema.get r "uid").getD .null)] := fun r => rfl
  obtain ⟨heq, hnull⟩ := hconf
  simp only [hnew, List.cons.injEq, Option.some.injEq, and_true] at heq
  simp only [hnew, mem_singleton, Option.some.injEq] at hnull
  -- a `uid` that is not `NULL` is there in both rows
  have hget : ∀ r v, (p.schema.get r "uid").getD .null = v → v ≠ .null →
      p.schema.get r "uid" = some v := by
    intro r v hv hvn
    cases hg : p.schema.get r "uid" with
    | none => simp [hg] at hv; exact absurd hv.symm hvn
    | some w => simpa [hg] using hv
  have h1 := hget r₁ _ rfl (Ne.symm hnull)
  have h2 := hget r₂ _ heq.symm (Ne.symm hnull)
  refine ⟨by rw [hkey, hkey, h1, h2], ?_⟩
  rw [hkey, h1]
  simpa using hnull

/-- The rebuild succeeds and replaces `policies`. -/
lemma applyAll_rebuildPolicies (hp : db.tables "policies" = some p) (hr : Rebuildable p)
    (htmp : db.tables "policies_tmp" = none) :
    Stmt.applyAll rebuildPolicies db = some (db.set "policies" (some (rebuilt p))) := by
  have hinsert : Stmt.insertRows ⟨policiesSchema, []⟩ p (some policiesColumns)
      = some (rebuilt p) := by
    have hu := unique_rebuilt hr
    rw [rebuilt] at hu
    simp only [Stmt.insertRows, getD_some, nil_append]
    rw [if_pos ⟨rfl, hr.columns⟩, if_pos hu]
    rfl
  have hne : "policies" ≠ "policies_tmp" := by decide
  have h1 : (Stmt.renameTable "policies" "policies_tmp").apply db
      = some ((db.set "policies" none).set "policies_tmp" (some p)) := by
    simp [Stmt.apply, hp, htmp]
  have h2 : (Stmt.createTable "policies" policiesSchema).apply
      ((db.set "policies" none).set "policies_tmp" (some p))
        = some ((db.set "policies" (some ⟨policiesSchema, []⟩)).set "policies_tmp" (some p)) := by
    simp only [Stmt.apply, Database.set_tables_ne _ hne, Database.set_tables_self]
    rw [Database.set_comm _ hne.symm, Database.set_set]
  have h3 : (Stmt.insertSelect "policies" (some policiesColumns) "policies_tmp").apply
      ((db.set "policies" (some ⟨policiesSchema, []⟩)).set "policies_tmp" (some p))
        = some ((db.set "policies" (some (rebuilt p))).set "policies_tmp" (some p)) := by
    simp only [Stmt.apply, Database.set_tables_ne _ hne, Database.set_tables_self, hinsert,
      map_some]
    rw [Database.set_comm _ hne.symm, Database.set_set]
  have h4 : (Stmt.dropTable false "policies_tmp").apply
      ((db.set "policies" (some (rebuilt p))).set "policies_tmp" (some p))
        = some (db.set "policies" (some (rebuilt p))) := by
    simp only [Stmt.apply, Database.set_tables_self, Database.set_set]
    rw [Database.set_eq_self]
    rw [Database.set_tables_ne _ hne.symm, htmp]
  simp only [rebuildPolicies, Stmt.applyAll, h1, bind_some, h2]
  rw [← policiesColumns, h3, bind_some, h4, bind_some]

/-! ### Where a chain ends -/

/-- The database after the steps of version 15: no `policies`, the settings about
them deleted, everything else as it was. -/
def finished (db : Database) : Database :=
  { (db.set "policies" none).set "settings"
      ((db.tables "settings").map (·.deleteIn "key" policySettings)) with
    userVersion := dbVersion }

lemma finished_set_policies (db : Database) (t : Option Table) :
    finished (db.set "policies" t) = finished db := by
  simp only [finished, Database.set_set,
    Database.set_tables_ne db (show "settings" ≠ "policies" by decide)]

lemma finished_set_settings (db : Database) (h : db.tables "settings" = some t) :
    finished (db.set "settings" (some (t.deleteIn "key" policySettings))) = finished db := by
  have hne : "settings" ≠ "policies" := by decide
  simp only [finished, h, map_some, Database.set_tables_self, Table.deleteIn_deleteIn]
  rw [Database.set_comm _ hne, Database.set_set]

/-- There are settings, with their keys. -/
def HasSettings (db : Database) : Prop :=
  ∃ t, db.tables "settings" = some t ∧ t.schema.hasColumn "key"

lemma HasSettings.set (hs : HasSettings db) (hn : "settings" ≠ n) : HasSettings (db.set n t) := by
  obtain ⟨s, hset, hkey⟩ := hs
  exact ⟨s, by rw [Database.set_tables_ne _ hn, hset], hkey⟩

lemma execAll_dropPolicies (db : Database) :
    Conn.execAll [.dropTable true "policies"] ⟨db, none⟩ = (⟨db.set "policies" none, none⟩, true) :=
  Conn.execAll_autocommit rfl (Stmt.apply_dropTable_ifExists db "policies")

lemma execAll_deleteSettings (ht : db.tables "settings" = some t)
    (hkey : t.schema.hasColumn "key") :
    Conn.execAll [.deleteIn "settings" "key" policySettings] ⟨db.set "policies" none, none⟩ =
      (⟨(db.set "policies" none).set "settings" (some (t.deleteIn "key" policySettings)), none⟩,
        true) := by
  have ht' : (db.set "policies" none).tables "settings" = some t := by
    rw [Database.set_tables_ne _ (by decide), ht]
  exact Conn.execAll_autocommit rfl (Stmt.apply_deleteIn ht' hkey)

lemma execAll_script_14 (hs : HasSettings db) :
    Conn.execAll (script 14) ⟨db, none⟩ = (⟨finished db, none⟩, true) := by
  obtain ⟨t, ht, hkey⟩ := hs
  have hscript : script 14 = [.dropTable true "policies"] ++
      ([.deleteIn "settings" "key" policySettings] ++ [.setUserVersion dbVersion]) := rfl
  rw [hscript, Conn.execAll_append (execAll_dropPolicies db),
    Conn.execAll_append (execAll_deleteSettings ht hkey),
    Conn.execAll_autocommit (s := .setUserVersion dbVersion) rfl rfl, finished, ht]
  rfl

lemma execAll_addPackageName (hp : db.tables "policies" = some p)
    (hpn : p.schema.hasColumn "package_name" = false) :
    Conn.execAll (.begin :: (addPackageName ++ [.commit])) ⟨db, none⟩
      = (⟨db.set "policies" (some (p.addColumn packageNameColumn)), none⟩, true) := by
  refine Conn.execAll_transaction (by decide) ?_
  simp [addPackageName, Stmt.applyAll, Stmt.apply_addColumn (c := packageNameColumn) hp hpn]

lemma execAll_script_13 (hs : HasSettings db) (hp : db.tables "policies" = some p)
    (hpn : p.schema.hasColumn "package_name" = false) :
    Conn.execAll (script 13) ⟨db, none⟩ = (⟨finished db, none⟩, true) := by
  have hscript : script 13 = (.begin :: (addPackageName ++ [.commit])) ++ script 14 := rfl
  rw [hscript, Conn.execAll_append (execAll_addPackageName hp hpn),
    execAll_script_14 (hs.set (by decide)), finished_set_policies]

/-- The transaction of version 13. -/
lemma execAll_addLocked (hp : db.tables "policies" = some p)
    (hpl : p.schema.hasColumn "locked" = false) (hd : db.tables "denylist" = some d)
    (hdl : d.schema.hasColumn "locked" = false) :
    Conn.execAll (.begin :: (addLocked ++ [.commit])) ⟨db, none⟩
      = (⟨(db.set "denylist" (some (d.addColumn lockedColumn))).set "policies"
          (some (p.addColumn lockedColumn)), none⟩, true) := by
  have hne : "denylist" ≠ "policies" := by decide
  have hd' : (db.set "policies" (some (p.addColumn lockedColumn))).tables "denylist"
      = some d := by
    rw [Database.set_tables_ne _ hne, hd]
  refine Conn.execAll_transaction (by decide) ?_
  simp only [addLocked, Stmt.applyAll, Stmt.apply_addColumn (c := lockedColumn) hp hpl,
    bind_some, Stmt.apply_addColumn (c := lockedColumn) hd' hdl]
  rw [Database.set_comm _ hne]

lemma execAll_script_12 (hs : HasSettings db) (hp : db.tables "policies" = some p)
    (hpn : p.schema.hasColumn "package_name" = false) (hpl : p.schema.hasColumn "locked" = false)
    (hd : db.tables "denylist" = some d) (hdl : d.schema.hasColumn "locked" = false) :
    Conn.execAll (script 12) ⟨db, none⟩
      = (⟨finished (db.set "denylist" (some (d.addColumn lockedColumn))), none⟩, true) := by
  have hscript : script 12 = (.begin :: (addLocked ++ [.commit])) ++ script 13 := rfl
  have hpn' : (p.addColumn lockedColumn).schema.hasColumn "package_name" = false := by
    simp [Table.addColumn, hpn, lockedColumn]
  rw [hscript, Conn.execAll_append (execAll_addLocked hp hpl hd hdl),
    execAll_script_13 ((hs.set (by decide)).set (by decide)) (Database.set_tables_self _ _ _) hpn',
    finished_set_policies]

lemma execAll_rebuildPolicies (hp : db.tables "policies" = some p) (hr : Rebuildable p)
    (htmp : db.tables "policies_tmp" = none) :
    Conn.execAll (.begin :: (rebuildPolicies ++ [.commit])) ⟨db, none⟩
      = (⟨db.set "policies" (some (rebuilt p)), none⟩, true) :=
  Conn.execAll_transaction (by decide) (applyAll_rebuildPolicies hp hr htmp)

lemma execAll_script_11 (hs : HasSettings db) (hp : db.tables "policies" = some p)
    (hr : Rebuildable p) (htmp : db.tables "policies_tmp" = none)
    (hd : db.tables "denylist" = some d) (hdl : d.schema.hasColumn "locked" = false) :
    Conn.execAll (script 11) ⟨db, none⟩
      = (⟨finished (db.set "denylist" (some (d.addColumn lockedColumn))), none⟩, true) := by
  have hscript : script 11 = (.begin :: (rebuildPolicies ++ [.commit])) ++ script 12 := rfl
  have hne : "denylist" ≠ "policies" := by decide
  rw [hscript, Conn.execAll_append (execAll_rebuildPolicies hp hr htmp),
    execAll_script_12 (hs.set (by decide)) (Database.set_tables_self _ _ _) rfl rfl
      (by rw [Database.set_tables_ne _ hne, hd]) hdl,
    Database.set_comm _ hne.symm, finished_set_policies]

/-! ### Where a chain fails -/

/-- There is no `denylist` without the column `locked`. -/
def OnlyLocked (db : Database) : Prop :=
  ∀ t, db.tables "denylist" = some t → t.schema.hasColumn "locked"

/-- There is no `policies` without the column `package_name`. -/
def OnlyNamed (db : Database) : Prop :=
  ∀ t, db.tables "policies" = some t → t.schema.hasColumn "package_name"

/-- Creating `denylist` makes one with the column, every other statement that
leaves the table alone keeps what there is, and adding the column fails. -/
lemma OnlyLocked.apply
    (hs : "denylist" ∉ s.touches ∨ s = createDenylist ∨ s = .addColumn "denylist" lockedColumn)
    (hdb : OnlyLocked db) (h : s.apply db = some db') : OnlyLocked db' := by
  rcases hs with hs | rfl | rfl
  · intro t ht
    exact hdb t (by rw [← Stmt.apply_tables_of_notMem h hs, ht])
  · simp only [createDenylist, Stmt.apply] at h
    split at h <;> cases h
    · exact hdb
    · intro t ht
      rw [Database.set_tables_self, Option.some.injEq] at ht
      subst ht
      rfl
  · have hnone : (Stmt.addColumn "denylist" lockedColumn).apply db = none :=
      Stmt.apply_addColumn_eq_none hdb
    rw [hnone] at h
    cases h

lemma OnlyNamed.apply {s : Stmt} (hs : "policies" ∉ s.touches ∨ s = .dropTable true "policies")
    (hdb : OnlyNamed db) (h : s.apply db = some db') : OnlyNamed db' := by
  rcases hs with hs | rfl
  · intro t ht
    exact hdb t (by rw [← Stmt.apply_tables_of_notMem h hs, ht])
  · rw [Stmt.apply_dropTable_ifExists, Option.some.injEq] at h
    subst h
    intro t ht
    simp at ht

lemma openAndInitDb_eq (h : db.userVersion ≤ dbVersion) :
    openAndInitDb db = ((Conn.execAll (script db.userVersion) ⟨db, none⟩).1.close,
      (Conn.execAll (script db.userVersion) ⟨db, none⟩).2) := by
  simp [openAndInitDb, not_lt.mpr h]

/-- The scripts of versions 7 to 12 add `locked` to `denylist`, and what comes
before either leaves the table alone or creates it with the column. -/
lemma script_le_twelve (h7 : 7 ≤ v) (h12 : v ≤ 12) :
    ∃ pre post, script v = pre ++ .addColumn "denylist" lockedColumn :: post ∧
      ∀ s ∈ pre, "denylist" ∉ s.touches ∨ s = createDenylist := by
  have hpost : ∀ pre, (∀ s ∈ pre, "denylist" ∉ s.touches ∨ s = createDenylist) →
      ∀ w, script w = pre ++ .addColumn "denylist" lockedColumn :: (.commit :: script 13) →
      ∃ pre post, script w = pre ++ .addColumn "denylist" lockedColumn :: post ∧
        ∀ s ∈ pre, "denylist" ∉ s.touches ∨ s = createDenylist :=
    fun pre hpre w hw => ⟨pre, _, hw, hpre⟩
  interval_cases v
  · exact hpost ((script 7).take 18) (by decide) 7 rfl
  · exact hpost ((script 8).take 18) (by decide) 8 rfl
  · exact hpost ((script 9).take 12) (by decide) 9 rfl
  · exact hpost ((script 10).take 11) (by decide) 10 rfl
  · exact hpost ((script 11).take 8) (by decide) 11 rfl
  · exact hpost ((script 12).take 2) (by decide) 12 rfl

/-- **The column is there already.**  Up to version 12 the chain fails on a
database whose `denylist`, if there is one, has the column `locked`. -/
lemma fails_of_locked (h7 : 7 ≤ db.userVersion) (h12 : db.userVersion ≤ 12) (hdb : OnlyLocked db) :
    (openAndInitDb db).2 = false := by
  obtain ⟨pre, post, hscript, hpre⟩ := script_le_twelve h7 h12
  rw [openAndInitDb_eq (by unfold dbVersion; omega), hscript]
  refine Conn.execAll_fails (Q := OnlyLocked) (fun s hs d d' hd h => hd.apply ?_ h)
    (fun d hd => Stmt.apply_addColumn_eq_none hd) rfl hdb hdb
  rcases hpre s hs with h | h
  · exact Or.inl h
  · exact Or.inr (Or.inl h)

lemma fails_of_packageName (hv : db.userVersion = 13) (hdb : OnlyNamed db) :
    (openAndInitDb db).2 = false := by
  have hscript : script 13 = [.begin] ++ .addColumn "policies" packageNameColumn ::
      (.commit :: script 14) := rfl
  rw [openAndInitDb_eq (by rw [hv]; decide), hv, hscript]
  exact Conn.execAll_fails (Q := OnlyNamed)
    (fun s hs d d' hd h => hd.apply (by simp_all [Stmt.touches]) h)
    (fun d hd => Stmt.apply_addColumn_eq_none hd) rfl hdb hdb

/-! ### Historical databases -/

section Historical

section

variable (h : Historical v db)

include h

lemma Historical.exists_table (hn : n ≠ "logs")
    (hs : schemaAt v n = some sch) : ∃ t, db.tables n = some t ∧ t.schema = sch := by
  have hsch := h.schema n hn
  rw [hs, Database.schema, map_eq_some_iff] at hsch
  exact hsch

lemma Historical.tables_eq_none (hn : n ≠ "logs") (hs : schemaAt v n = none) :
    db.tables n = none := by
  have hsch := h.schema n hn
  rwa [hs, Database.schema, map_eq_none_iff] at hsch

lemma Historical.hasSettings : HasSettings db := by
  obtain ⟨t, ht, hsch⟩ := h.exists_table (n := "settings") (by decide) rfl
  exact ⟨t, ht, by rw [hsch]; rfl⟩

lemma Historical.rebuildable (hv : v ≤ 11) :
    ∃ p, db.tables "policies" = some p ∧ Rebuildable p := by
  have hat : schemaAt v "policies" = some policiesSchema11 := by simp [schemaAt, policiesAt, hv]
  obtain ⟨p, hp, hsch⟩ := h.exists_table (by decide) hat
  exact ⟨p, hp, by rw [hsch]; rfl, by rw [hsch]; rfl, h.unique _ _ hp⟩

lemma Historical.exists_denylist (h11 : 11 ≤ v) (h12 : v ≤ 12) :
    ∃ d, db.tables "denylist" = some d ∧ d.schema = hidelistSchema :=
  h.exists_table (by decide) (by simp [schemaAt, denylistAt, h12, show ¬ v ≤ 10 by omega])

lemma Historical.exists_denylist_locked (h13 : 13 ≤ v) :
    ∃ d, db.tables "denylist" = some d ∧ d.schema = denylistSchema :=
  h.exists_table (by decide)
    (by simp [schemaAt, denylistAt, show ¬ v ≤ 10 by omega, show ¬ v ≤ 12 by omega])

/-- The result of the migration of versions 11 and 12. -/
lemma Historical.openAndInitDb_add (h11 : 11 ≤ v) (h12 : v ≤ 12)
    (hd : db.tables "denylist" = some d) :
    openAndInitDb db = (finished (db.set "denylist" (some (d.addColumn lockedColumn))), true) := by
  obtain ⟨d', hd', hsch⟩ := h.exists_denylist h11 h12
  obtain rfl : d' = d := by simpa [hd'] using hd
  have hdl : d'.schema.hasColumn "locked" = false := by rw [hsch]; rfl
  rw [openAndInitDb_eq (by rw [h.version, dbVersion]; omega), h.version]
  rcases (by omega : v = 11 ∨ v = 12) with rfl | rfl
  · obtain ⟨p, hp, hr⟩ := h.rebuildable le_rfl
    have htmp := h.tables_eq_none (n := "policies_tmp") (by decide) rfl
    rw [execAll_script_11 h.hasSettings hp hr htmp hd' hdl]
    rfl
  · obtain ⟨p, hp, hpsch⟩ := h.exists_table (n := "policies") (by decide) rfl
    rw [execAll_script_12 h.hasSettings hp (by rw [hpsch]; rfl) (by rw [hpsch]; rfl) hd' hdl]
    rfl

lemma Historical.openAndInitDb_keep (h13 : 13 ≤ v) (h14 : v ≤ 14) :
    openAndInitDb db = (finished db, true) := by
  rw [openAndInitDb_eq (by rw [h.version, dbVersion]; omega), h.version]
  rcases (by omega : v = 13 ∨ v = 14) with rfl | rfl
  · obtain ⟨p, hp, hpsch⟩ := h.exists_table (n := "policies") (by decide) rfl
    rw [execAll_script_13 h.hasSettings hp (by rw [hpsch]; rfl)]
    rfl
  · rw [execAll_script_14 h.hasSettings]
    rfl

end

lemma Historical.openAndInitDb_current (h : Historical 15 db) : openAndInitDb db = (db, true) := by
  rw [openAndInitDb_eq (by rw [h.version, dbVersion]), h.version]
  rfl

end Historical

/-! ### Complete migrations -/

lemma schema_set (db : Database) (n m : String) (t : Option Table) :
    (db.set n t).schema m = if m = n then t.map Table.schema else db.schema m := by
  by_cases h : m = n
  · subst h
    simp [Database.schema]
  · simp [Database.schema, Database.set_tables_ne _ h, h]

lemma schema_finished (db : Database) (n : String) :
    (finished db).schema n = if n = "policies" then none else db.schema n := by
  have hset : (finished db).schema n = ((db.set "policies" none).set "settings"
      ((db.tables "settings").map (·.deleteIn "key" policySettings))).schema n := rfl
  rw [hset, schema_set, schema_set]
  by_cases hn : n = "settings"
  · subst hn
    simp [Database.schema, Function.comp_def, Table.deleteIn]
  · simp [hn]

lemma schema_fresh (n : String) : (openAndInitDb Database.empty).1.schema n = schemaAt 15 n := by
  have hfresh : (openAndInitDb Database.empty).1.schema n
      = (((Database.empty.set "settings" (some ⟨settingsSchema, []⟩)).set "strings"
          (some ⟨stringsSchema, []⟩)).set "denylist" (some ⟨denylistSchema, []⟩)).schema n := rfl
  rw [hfresh, schema_set, schema_set, schema_set]
  have hnone : Database.empty.schema n = none := rfl
  simp only [schemaAt]
  split_ifs <;> simp_all [hidelistAt, policiesAt, denylistAt]

/-- The rows of a `denylist` under the newest schema, unlocked where there was no
lock before. -/
def keptDenylist (t : Table) : List (List Value) :=
  if t.schema.hasColumn "locked" then t.rows else t.rows.map (· ++ [.int 0])

/-- The keys the chain entered at version `v` deletes from `settings`. -/
def deletedKeys (v : Int) : List String :=
  (if v ≤ 10 then ["magiskhide"] else []) ++ if v ≤ 14 then policySettings else []

/-- `open_and_init_db` does its work on the database: it succeeds, leaves exactly
the tables of a new database, keeps the `denylist` of version 11 and later, and
keeps every setting whose key is not one of the deleted ones. -/
structure Migrated (v : Int) (db : Database) : Prop where
  succeeds : (openAndInitDb db).2 = true
  schema : ∀ n, (openAndInitDb db).1.schema n = (openAndInitDb Database.empty).1.schema n
  denylist : 11 ≤ v → ∀ t, db.tables "denylist" = some t →
    ((openAndInitDb db).1.tables "denylist").map Table.rows = some (keptDenylist t)
  settings : ∀ t, db.tables "settings" = some t →
    ((openAndInitDb db).1.tables "settings").map Table.rows
      = some (t.deleteIn "key" (deletedKeys v)).rows

lemma deleteIn_nil (t : Table) (c : String) : t.deleteIn c [] = t := by
  simp [Table.deleteIn]

lemma schemaAt_of_eleven_le (hv : 11 ≤ v) (hp : n ≠ "policies") (hd : n ≠ "denylist") :
    schemaAt v n = schemaAt 15 n := by
  simp only [schemaAt]
  split_ifs <;> simp [hidelistAt, show v ≠ 7 by omega, show v ≠ 8 by omega,
    show ¬ v ≤ 10 by omega]

section Migrated

section

variable (h : Historical v db) (h11 : 11 ≤ v)

include h h11

lemma Historical.schema_rest (hp : n ≠ "policies")
    (hd : n ≠ "denylist") : db.schema n = schemaAt 15 n := by
  by_cases hn : n = "logs"
  · subst hn
    rw [Database.schema, h.logs (by omega)]
    rfl
  · rw [h.schema n hn, schemaAt_of_eleven_le h11 hp hd]

/-- A migration is complete if its last step starts with the newest `denylist`, and with the other
tables as they were. -/
lemma Historical.migrated_of_finished (h14 : v ≤ 14) (hopen : openAndInitDb db = (finished db', true))
    (hd : db.tables "denylist" = some d) (he : db'.tables "denylist" = some e)
    (hsch : e.schema = denylistSchema) (hrows : e.rows = keptDenylist d)
    (hrest : ∀ n ≠ "denylist", db'.tables n = db.tables n) : Migrated v db := by
  refine ⟨by rw [hopen], fun n => ?_, fun _ t ht => ?_, fun t ht => ?_⟩
  · rw [schema_fresh, hopen, schema_finished]
    by_cases hp : n = "policies"
    · subst hp
      rfl
    · rw [if_neg hp]
      by_cases hdn : n = "denylist"
      · subst hdn
        rw [Database.schema, he, map_some, hsch]
        rfl
      · rw [Database.schema, hrest n hdn]
        exact h.schema_rest h11 hp hdn
  · obtain rfl : d = t := some.inj (hd.symm.trans ht)
    have hfin : (openAndInitDb db).1.tables "denylist" = some e := by
      rw [hopen, ← he]
      rfl
    rw [hfin, map_some, hrows]
  · have hfin : (openAndInitDb db).1.tables "settings"
        = some (t.deleteIn "key" policySettings) := by
      rw [hopen]
      simp [finished, hrest "settings" (by decide), ht]
    rw [hfin, map_some, deletedKeys, if_neg (by omega), if_pos h14, nil_append]

lemma Historical.migrated_add (h12 : v ≤ 12) :
    Migrated v db := by
  obtain ⟨d, hd, hsch⟩ := h.exists_denylist h11 h12
  refine h.migrated_of_finished h11 (by omega) (h.openAndInitDb_add h11 h12 hd) hd
    (Database.set_tables_self _ _ _) ?_ ?_ fun _ hn => Database.set_tables_ne _ hn _
  · rw [Table.addColumn, hsch]
    rfl
  · have hdl : d.schema.hasColumn "locked" = false := by rw [hsch]; rfl
    rw [keptDenylist, hdl]
    rfl

end

lemma Historical.migrated_keep (h : Historical v db) (h13 : 13 ≤ v) (h14 : v ≤ 14) :
    Migrated v db := by
  obtain ⟨d, hd, hsch⟩ := h.exists_denylist_locked h13
  refine h.migrated_of_finished (by omega) h14 (h.openAndInitDb_keep h13 h14) hd hd hsch ?_
    fun _ _ => rfl
  have hdl : d.schema.hasColumn "locked" = true := by rw [hsch]; rfl
  rw [keptDenylist, hdl, if_pos rfl]

/-- The current version needs nothing. -/
lemma Historical.migrated_current (h : Historical 15 db) : Migrated 15 db := by
  have hopen := h.openAndInitDb_current
  obtain ⟨d, hd, hsch⟩ := h.exists_denylist_locked (by decide)
  refine ⟨by rw [hopen], fun n => ?_, fun _ t ht => ?_, fun t ht => ?_⟩
  · rw [schema_fresh, hopen]
    by_cases hn : n = "logs"
    · subst hn
      rw [Database.schema, h.logs (by decide)]
      rfl
    · exact h.schema n hn
  · obtain rfl : d = t := by simpa [hd] using ht
    have hdl : d.schema.hasColumn "locked" = true := by rw [hsch]; rfl
    rw [hopen, hd, map_some, keptDenylist, hdl, if_pos rfl]
  · have hnone : deletedKeys 15 = [] := by decide
    rw [hopen, ht, map_some, hnone, deleteIn_nil]

lemma Historical.onlyLocked (h : Historical v db) (h10 : v ≤ 10) : OnlyLocked db := by
  have hnone : schemaAt v "denylist" = none := by simp [schemaAt, denylistAt, h10]
  intro t ht
  rw [h.tables_eq_none (by decide) hnone] at ht
  cases ht

end Migrated

/-- **Which versions are migrated.**  A database of version 7 to 15 with the
schema of its version is migrated completely exactly from version 11 on. -/
theorem migrated_iff (v : Int) (db : Database) (h7 : 7 ≤ v) (h15 : v ≤ 15)
    (h : Historical v db) : Migrated v db ↔ 11 ≤ v := by
  refine ⟨fun hm => ?_, fun h11 => ?_⟩
  · by_contra hlt
    have hfail := fails_of_locked (by rw [h.version]; exact h7) (by rw [h.version]; omega)
      (h.onlyLocked (by omega))
    rw [hm.succeeds] at hfail
    cases hfail
  · rcases (by omega : v ≤ 12 ∨ (13 ≤ v ∧ v ≤ 14) ∨ v = 15) with h12 | ⟨h13, h14⟩ | rfl
    · exact h.migrated_add h11 h12
    · exact h.migrated_keep h13 h14
    · exact h.migrated_current

/-- The database of version `v` without any rows. -/
def emptyAt (v : Int) : Database := ⟨v, fun n => (schemaAt v n).map (⟨·, []⟩)⟩

lemma historical_emptyAt (v : Int) : Historical v (emptyAt v) := by
  refine ⟨rfl, fun n _ => ?_, fun _ => rfl, fun n t ht => ?_⟩
  · simp [Database.schema, emptyAt, Function.comp_def]
  · obtain ⟨sch, -, rfl⟩ := map_eq_some_iff.mp ht
    exact List.Pairwise.nil

/-- A database of version 11 with one entry on its `denylist`. -/
def sampleEleven : Database :=
  (emptyAt 11).set "denylist" (some ⟨hidelistSchema, [[.text "com.app", .text "com.app:push"]]⟩)

lemma historical_sampleEleven : Historical 11 sampleEleven := by
  refine ⟨rfl, fun n hn => ?_, fun _ => rfl, fun n t ht => ?_⟩
  · rw [sampleEleven, schema_set, (historical_emptyAt 11).schema n hn]
    by_cases hd : n = "denylist"
    · subst hd
      rfl
    · rw [if_neg hd]
  · by_cases hd : n = "denylist"
    · subst hd
      rw [sampleEleven, Database.set_tables_self, Option.some.injEq] at ht
      subst ht
      exact pairwise_singleton _ _
    · rw [sampleEleven, Database.set_tables_ne _ hd] at ht
      exact (historical_emptyAt 11).unique n t ht

/-- The entry of the sample survives its migration, unlocked. -/
theorem migrated_sampleEleven :
    Historical 11 sampleEleven ∧ Migrated 11 sampleEleven ∧
      ((openAndInitDb sampleEleven).1.tables "denylist").map Table.rows
        = some [[.text "com.app", .text "com.app:push", .int 0]] := by
  have hm := (migrated_iff 11 sampleEleven (by decide) (by decide) historical_sampleEleven).mpr
    le_rfl
  exact ⟨historical_sampleEleven, hm, hm.denylist le_rfl _ rfl⟩

/-- A database of version 10 is not migrated: version 13 adds a column that the
table created by version 11 has already. -/
theorem not_migrated_ten : Historical 10 (emptyAt 10) ∧ ¬ Migrated 10 (emptyAt 10) := by
  refine ⟨historical_emptyAt 10, fun hm => ?_⟩
  have hfail : (openAndInitDb (emptyAt 10)).2 = false :=
    fails_of_locked (by decide) (by decide) ((historical_emptyAt 10).onlyLocked le_rfl)
  rw [hm.succeeds] at hfail
  cases hfail

/-! ### Opening again -/

/-- Is a transaction open after the statement? -/
def inTxn (isOpen : Bool) (s : Stmt) : Bool := s = .begin || isOpen && s ≠ .commit

lemma isSome_txn_exec (h : Conn.exec c s = some c') :
    c'.txn.isSome = inTxn c.txn.isSome s := by
  cases s with
  | begin =>
    simp only [Conn.exec] at h
    split_ifs at h
    cases h
    rfl
  | commit =>
    obtain ⟨d, hd, rfl⟩ := map_eq_some_iff.mp h
    simp [inTxn]
  | _ =>
    rw [Conn.exec_plain rfl] at h
    obtain ⟨d, -, rfl⟩ := map_eq_some_iff.mp h
    cases hc : c.txn.isSome <;> simp [inTxn]

lemma userVersion_execAll (hend : ss.foldl inTxn c.txn.isSome = false)
    (h : Conn.execAll (ss ++ [.setUserVersion v]) c = (c', true)) :
    c'.committed.userVersion = v := by
  induction ss generalizing c with
  | nil =>
    obtain ⟨file, _ | txn⟩ := c
    · cases h
      rfl
    · cases hend
  | cons s ss ih =>
    rw [cons_append, Conn.execAll] at h
    cases hexec : c.exec s with
    | none => simp [hexec] at h
    | some c1 =>
      rw [foldl_cons, ← isSome_txn_exec hexec] at hend
      simp only [hexec] at h
      exact ih hend h

lemma exists_script_eq (hv : v < dbVersion) : ∃ ss, script v = ss ++ [.setUserVersion dbVersion] ∧
    ss.foldl inTxn false = false := by
  refine ⟨(script v).dropLast, ?_⟩
  by_cases h7 : 7 ≤ v
  · rw [dbVersion] at hv
    interval_cases v <;> decide
  · have hscript : script v = script 6 := by
      rw [script, script, Plan.start, Plan.start, if_pos (by omega), if_pos le_rfl]
    rw [hscript]
    decide

/-- **A database that was opened is left as it is** by the next start, whatever it was before. -/
theorem openAndInitDb_again (db : Database) (h : (openAndInitDb db).2 = true) :
    openAndInitDb (openAndInitDb db).1 = openAndInitDb db := by
  have hnew : ∀ d : Database, d.userVersion = dbVersion → openAndInitDb d = (d, true) := by
    intro d hd
    rw [openAndInitDb_eq hd.le, hd]
    rfl
  suffices hver : (openAndInitDb db).1.userVersion = dbVersion by rw [hnew _ hver, ← h]
  rcases lt_trichotomy db.userVersion dbVersion with hlt | heq | hgt
  · obtain ⟨ss, hss, hend⟩ := exists_script_eq hlt
    rw [openAndInitDb_eq hlt.le, hss] at h ⊢
    exact userVersion_execAll (c := ⟨db, none⟩) hend (Prod.ext rfl h)
  · rw [hnew db heq, heq]
  · rw [openAndInitDb, if_pos hgt]
    rfl

theorem reopen_thirteen :
    openAndInitDb (openAndInitDb (emptyAt 13)).1 = openAndInitDb (emptyAt 13) :=
  openAndInitDb_again _ (by rw [(historical_emptyAt 13).openAndInitDb_keep le_rfl (by decide)])

/-! ### Crashes -/

/-- The database file after the process is lost when `k` statements of the
migration have been executed: the open transaction, if any, is rolled back. -/
def crashAt (db : Database) (k : Nat) : Database :=
  (Conn.execAll ((script db.userVersion).take k) ⟨db, none⟩).1.close

/-- The next start repairs a crash after `k` statements: it succeeds and ends in
the database the uninterrupted migration ends in. -/
def Restartable (db : Database) (k : Nat) : Prop :=
  (openAndInitDb (crashAt db k)).2 = true ∧
    (openAndInitDb (crashAt db k)).1 = (openAndInitDb db).1

/-- Some `ALTER TABLE ... ADD COLUMN` of the statements has been committed by
them. -/
def commitsNewColumn : List Stmt → Bool
  | [] => false
  | .addColumn _ _ :: ss => ss.contains .commit || commitsNewColumn ss
  | _ :: ss => commitsNewColumn ss

lemma crashAt_userVersion (hv : db.userVersion = v)
    (hk : ∀ w, .setUserVersion w ∉ (script v).take k) : (crashAt db k).userVersion = v := by
  have hkeep : ∀ s ∈ (script v).take k, ∀ d d' : Database, d.userVersion = v →
      s.apply d = some d' → d'.userVersion = v := by
    intro s hs d d' hd h
    rw [Stmt.apply_userVersion h fun w hw => hk w (hw ▸ hs), hd]
  have hall := @Conn.execAll_keeps _ ⟨db, none⟩ (fun d => d.userVersion = v) hkeep hv hv
  rw [crashAt, hv]
  exact hall.2

lemma crashAt_append {d : Database} (hscript : script db.userVersion = ss ++ ss')
    (hss : Conn.execAll ss ⟨db, none⟩ = (⟨d, none⟩, true)) (j : Nat) :
    crashAt db (ss.length + j) = (Conn.execAll (ss'.take j) ⟨d, none⟩).1.committed := by
  rw [crashAt, hscript, take_length_add_append, Conn.execAll_append hss]
  rfl

/-- A crash inside the transaction that follows a completed part of the script
leaves the database of that part. -/
lemma crashAt_inside {d : Database} (ss body ss' : List Stmt)
    (hscript : script db.userVersion = ss ++ ((.begin :: (body ++ [.commit])) ++ ss'))
    (hss : Conn.execAll ss ⟨db, none⟩ = (⟨d, none⟩, true)) (hbody : .commit ∉ body)
    (hlo : ss.length ≤ k) (hhi : k ≤ ss.length + body.length + 1) : crashAt db k = d := by
  obtain ⟨j, rfl⟩ := Nat.exists_eq_add_of_le hlo
  rw [crashAt_append hscript hss]
  cases j with
  | zero => rfl
  | succ j =>
    have htake : ((Stmt.begin :: (body ++ [.commit])) ++ ss').take (j + 1)
        = .begin :: body.take j := by
      rw [cons_append, take_succ_cons, append_assoc,
        take_append_of_le_length (by omega)]
    rw [htake]
    exact (Conn.committed_execAll (fun h => hbody (mem_of_mem_take h)) rfl).1

lemma crashAt_keeps {d : Database} {Q : Database → Prop}
    (hscript : script db.userVersion = ss ++ ss')
    (hss : Conn.execAll ss ⟨db, none⟩ = (⟨d, none⟩, true)) (hd : Q d)
    (hkeep : ∀ s ∈ ss', ∀ d d', Q d → s.apply d = some d' → Q d') (hk : ss.length ≤ k) :
    Q (crashAt db k) := by
  obtain ⟨j, rfl⟩ := Nat.exists_eq_add_of_le hk
  rw [crashAt_append hscript hss]
  exact (@Conn.execAll_keeps _ ⟨d, none⟩ Q
    (fun s hs => hkeep s (mem_of_mem_take hs)) hd hd).2

lemma script_keeps_locked (h7 : 7 ≤ v) (h12 : v ≤ 12) : ∀ s ∈ script v,
    ∀ d d', OnlyLocked d → s.apply d = some d' → OnlyLocked d' := by
  have hstmts : ∀ s ∈ script v, "denylist" ∉ s.touches ∨ s = createDenylist ∨
      s = .addColumn "denylist" lockedColumn := by
    interval_cases v <;> decide
  exact fun s hs d d' hd h => hd.apply (hstmts s hs) h

/-- Does the statement leave the version alone? -/
def keepsUserVersion : Stmt → Bool
  | .setUserVersion _ => false
  | _ => true

lemma setUserVersion_notMem (h7 : 7 ≤ v) (h14 : v ≤ 14) (hk : k < (script v).length) (w : Int) :
    .setUserVersion w ∉ (script v).take k := by
  have hlast : script v = (script v).dropLast ++ [.setUserVersion dbVersion] ∧
      ∀ s ∈ (script v).dropLast, keepsUserVersion s = true := by
    interval_cases v <;> decide
  obtain ⟨hss, hkeeps⟩ := hlast
  intro hmem
  rw [hss, length_append, length_singleton] at hk
  rw [hss, take_append_of_le_length (by omega)] at hmem
  exact Bool.false_ne_true (hkeeps _ (mem_of_mem_take hmem))

section Restart

lemma not_restartable_of_locked (h7 : 7 ≤ v) (h12 : v ≤ 12) (hv : db.userVersion = v) {d : Database}
    (hscript : script v = ss ++ ss') (hss : Conn.execAll ss ⟨db, none⟩ = (⟨d, none⟩, true))
    (hd : OnlyLocked d) (hlo : ss.length ≤ k) (hk : k < (script v).length) :
    ¬ Restartable db k := by
  have hver := crashAt_userVersion hv (setUserVersion_notMem h7 (by omega) hk)
  have hlocked : OnlyLocked (crashAt db k) := by
    refine crashAt_keeps (by rw [hv, hscript]) hss hd (fun s hs => ?_) hlo
    exact script_keeps_locked h7 h12 s (by rw [hscript]; exact mem_append_right _ hs)
  intro hr
  have hfail := fails_of_locked (by rw [hver]; exact h7) (by rw [hver]; exact h12) hlocked
  rw [hr.1] at hfail
  cases hfail

lemma not_restartable_of_le_ten (h7 : 7 ≤ v) (h10 : v ≤ 10) (h : Historical v db)
    (hk : k < (script v).length) : ¬ Restartable db k :=
  not_restartable_of_locked h7 (by omega) h.version (nil_append _).symm rfl
    (h.onlyLocked h10) (Nat.zero_le k) hk

lemma onlyLocked_set (db : Database) (d p : Table) :
    OnlyLocked ((db.set "denylist" (some (d.addColumn lockedColumn))).set "policies" (some p)) := by
  intro t ht
  rw [Database.set_tables_ne _ (by decide), Database.set_tables_self, Option.some.injEq] at ht
  subst ht
  simp [Table.addColumn, lockedColumn]

lemma restartable_of_crashAt_eq (h : (openAndInitDb db).2 = true) (hk : crashAt db k = db) :
    Restartable db k := by
  rw [Restartable, hk]
  exact ⟨h, rfl⟩

/-- Version 14: every crash is repaired. -/
lemma restartable_14 (h : Historical 14 db) (hk : k < (script 14).length) : Restartable db k := by
  -- whatever is left, the last steps bring it to the same end
  have hopen : ∀ d : Database, d.userVersion = 14 → HasSettings d → finished d = finished db →
      crashAt db k = d → Restartable db k := by
    intro d hv hs hfin hcrash
    have hd : openAndInitDb d = (finished d, true) := by
      rw [openAndInitDb_eq (by rw [hv]; decide), hv, execAll_script_14 hs]
      rfl
    rw [Restartable, hcrash, hd, h.openAndInitDb_keep (by decide) le_rfl, hfin]
    exact ⟨rfl, rfl⟩
  obtain ⟨t, ht, hkey⟩ := h.hasSettings
  have hne : "settings" ≠ "policies" := by decide
  have hscript : script db.userVersion = [.dropTable true "policies"] ++
      ([.deleteIn "settings" "key" policySettings] ++ [.setUserVersion dbVersion]) := by
    rw [h.version]
    rfl
  have hdrop := execAll_dropPolicies db
  have hk3 : k < 3 := hk
  interval_cases k
  · exact hopen db h.version h.hasSettings rfl rfl
  · refine hopen (db.set "policies" none) h.version (h.hasSettings.set hne)
      (finished_set_policies _ _) ?_
    exact crashAt_append hscript hdrop 0
  · refine hopen ((db.set "policies" none).set "settings" (some (t.deleteIn "key" policySettings)))
      h.version ⟨_, Database.set_tables_self _ _ _, hkey⟩ ?_ ?_
    · rw [finished_set_settings _ (by rw [Database.set_tables_ne _ hne, ht]),
        finished_set_policies]
    · exact (crashAt_append hscript hdrop 1).trans
        (congrArg (fun r => r.1.committed) (execAll_deleteSettings ht hkey))

/-- Version 13: a crash is repaired before the first `COMMIT`. -/
lemma restartable_13 (h : Historical 13 db) (hk : k < (script 13).length) :
    Restartable db k ↔ k < 3 := by
  obtain ⟨p, hp, hpsch⟩ := h.exists_table (n := "policies") (by decide) rfl
  have hpn : p.schema.hasColumn "package_name" = false := by rw [hpsch]; rfl
  have hscript :
      script db.userVersion = (.begin :: (addPackageName ++ [.commit])) ++ script 14 := by
    rw [h.version]
    rfl
  refine ⟨fun hr => ?_, fun hlt => ?_⟩
  · by_contra hge
    have hver := crashAt_userVersion h.version (setUserVersion_notMem (by decide) (by decide) hk)
    have hnamed : OnlyNamed (crashAt db k) := by
      refine crashAt_keeps hscript (execAll_addPackageName hp hpn) ?_ ?_ (not_lt.mp hge)
      · intro t ht
        rw [Database.set_tables_self, Option.some.injEq] at ht
        subst ht
        simp [Table.addColumn, packageNameColumn]
      · have hstmts : ∀ s ∈ script 14, "policies" ∉ s.touches ∨ s = .dropTable true "policies" := by
          decide
        exact fun s hs d d' hd hap => hd.apply (hstmts s hs) hap
    have hfail := fails_of_packageName hver hnamed
    rw [hr.1] at hfail
    cases hfail
  · refine restartable_of_crashAt_eq (by rw [h.openAndInitDb_keep (by decide) (by decide)]) ?_
    exact crashAt_inside [] addPackageName _ hscript rfl (by decide) (Nat.zero_le k) (by
      change k ≤ 2
      omega)

/-- Version 12: a crash is repaired before the first `COMMIT`. -/
lemma restartable_12 (h : Historical 12 db) (hk : k < (script 12).length) :
    Restartable db k ↔ k < 4 := by
  obtain ⟨p, hp, hpsch⟩ := h.exists_table (n := "policies") (by decide) rfl
  obtain ⟨d, hd, hdsch⟩ := h.exists_denylist (by decide) le_rfl
  have hscript : script 12 = (.begin :: (addLocked ++ [.commit])) ++ script 13 := rfl
  refine ⟨fun hr => ?_, fun hlt => ?_⟩
  · by_contra hge
    have hadd := execAll_addLocked hp (by rw [hpsch]; rfl) hd (by rw [hdsch]; rfl)
    exact not_restartable_of_locked (by decide) le_rfl h.version hscript hadd
      (onlyLocked_set _ _ _) (not_lt.mp hge) hk hr
  · refine restartable_of_crashAt_eq (by rw [h.openAndInitDb_add (by decide) le_rfl hd]) ?_
    exact crashAt_inside [] addLocked _ (by rw [h.version]; rfl) rfl (by decide)
      (Nat.zero_le k) (by
        change k ≤ 3
        omega)

lemma rebuildable_rebuilt (hp : Rebuildable p) : Rebuildable (rebuilt p) :=
  ⟨rfl, rfl, unique_rebuilt hp⟩

/-- Version 11: a crash is repaired before the second `COMMIT`. -/
lemma restartable_11 (h : Historical 11 db) (hk : k < (script 11).length) :
    Restartable db k ↔ k < 10 := by
  obtain ⟨p, hp, hr⟩ := h.rebuildable le_rfl
  obtain ⟨d, hd, hdsch⟩ := h.exists_denylist le_rfl (by decide)
  have hdl : d.schema.hasColumn "locked" = false := by rw [hdsch]; rfl
  have hne : "denylist" ≠ "policies" := by decide
  have htmp := h.tables_eq_none (n := "policies_tmp") (by decide) rfl
  have hrebuild := execAll_rebuildPolicies hp hr htmp
  have hd' : (db.set "policies" (some (rebuilt p))).tables "denylist" = some d := by
    rw [Database.set_tables_ne _ hne, hd]
  have hopen := h.openAndInitDb_add le_rfl (by decide) hd
  refine ⟨fun hres => ?_, fun hlt => ?_⟩
  · by_contra hge
    have hscript : script 11 = ((.begin :: (rebuildPolicies ++ [.commit])) ++
        (.begin :: (addLocked ++ [.commit]))) ++ script 13 := rfl
    have hadd := Conn.execAll_append hrebuild (.begin :: (addLocked ++ [.commit]))
    rw [execAll_addLocked (Database.set_tables_self _ _ _) rfl hd' hdl] at hadd
    exact not_restartable_of_locked (by decide) (by decide) h.version hscript hadd
      (onlyLocked_set _ _ _) (not_lt.mp hge) hk hres
  · rcases lt_or_ge k 6 with hlt6 | hge6
    · refine restartable_of_crashAt_eq (by rw [hopen]) ?_
      exact crashAt_inside [] rebuildPolicies (script 12) (by rw [h.version]; rfl) rfl (by decide)
        (Nat.zero_le k) (by
          change k ≤ 5
          omega)
    · -- the rebuilt table is committed, and the next start rebuilds it once more
      have hcrash : crashAt db k = db.set "policies" (some (rebuilt p)) :=
        crashAt_inside _ addLocked (script 13) (by rw [h.version]; rfl) hrebuild
          (by decide) hge6 (by
            change k ≤ 9
            omega)
      have hver : (db.set "policies" (some (rebuilt p))).userVersion = 11 := h.version
      have hagain : openAndInitDb (db.set "policies" (some (rebuilt p)))
          = (finished (db.set "denylist" (some (d.addColumn lockedColumn))), true) := by
        rw [openAndInitDb_eq (by rw [hver]; decide), hver,
          execAll_script_11 (h.hasSettings.set (by decide)) (Database.set_tables_self _ _ _)
            (rebuildable_rebuilt hr) (by rw [Database.set_tables_ne _ (by decide), htmp]) hd' hdl,
          Database.set_comm _ hne.symm, finished_set_policies]
        rfl
      rw [Restartable, hcrash, hagain, hopen]
      exact ⟨rfl, rfl⟩

end Restart

/-- **Restarting a migration.**  A crash after `k` statements of the migration of
a database of version 7 to 14 is repaired by the next start exactly if the
version is at least 11 and no `ALTER TABLE ... ADD COLUMN` has been committed. -/
theorem restartable_iff (v : Int) (db : Database) (k : Nat) (h7 : 7 ≤ v) (h14 : v ≤ 14)
    (h : Historical v db) (hk : k < (script v).length) :
    Restartable db k ↔ 11 ≤ v ∧ commitsNewColumn ((script v).take k) = false := by
  by_cases h10 : v ≤ 10
  · exact ⟨fun hr => absurd hr (not_restartable_of_le_ten h7 h10 h hk), fun hc => by omega⟩
  · rcases (by omega : v = 11 ∨ v = 12 ∨ v = 13 ∨ v = 14) with rfl | rfl | rfl | rfl
    · have hcommit : ∀ k < 16, commitsNewColumn ((script 11).take k) = decide (10 ≤ k) := by decide
      rw [restartable_11 h hk, hcommit k hk]
      simp
    · have hcommit : ∀ k < 10, commitsNewColumn ((script 12).take k) = decide (4 ≤ k) := by decide
      rw [restartable_12 h hk, hcommit k hk]
      simp
    · have hcommit : ∀ k < 6, commitsNewColumn ((script 13).take k) = decide (3 ≤ k) := by decide
      rw [restartable_13 h hk, hcommit k hk]
      simp
    · have hcommit : ∀ k < 3, commitsNewColumn ((script 14).take k) = false := by decide
      simp [restartable_14 h hk, hcommit k hk]

/-- A crash between the two transactions of the sample is repaired. -/
theorem restartable_sampleEleven :
    Historical 11 sampleEleven ∧ Restartable sampleEleven 6 :=
  ⟨historical_sampleEleven, (restartable_iff 11 sampleEleven 6 (by decide) (by decide)
    historical_sampleEleven (by decide)).mpr ⟨le_rfl, by decide⟩⟩

/-- A database of version 13 is lost to a crash right after its first
transaction: the next start adds the same column again. -/
theorem not_restartable_thirteen :
    Historical 13 (emptyAt 13) ∧ 3 < (script 13).length ∧ ¬ Restartable (emptyAt 13) 3 := by
  refine ⟨historical_emptyAt 13, by decide, fun hr => ?_⟩
  have hlt := (restartable_13 (historical_emptyAt 13) (by decide)).mp hr
  omega

end Magisk.Core.Sqlite
