import Mathlib.Tactic

/-!
A relational store in the manner of SQLite: tables with a primary key, the
schema and data statements a migration script is written in, and a connection
on which they run one at a time, inside a transaction or committed at once.

* `Stmt.apply`: what a statement does to a database, undefined where SQLite
  reports an error (no such table, duplicate column, primary key violated);
* `Conn.exec`, `Conn.execAll`: a connection with at most one open transaction;
  execution stops at the first failing statement, and closing the connection
  gives up what is not committed;
* `execAll_transaction`, `execAll_autocommit`: a completed transaction and a
  statement outside any act as their statements do on the database;
* `committed_execAll`: before its `COMMIT` a transaction has no lasting effect,
  so a crash inside it leaves the database as it was;
* `written_of_apply`, `apply_tables_of_notMem`: a statement leaves the tables it does not name
  alone;
* `execAll_keeps`, `execAll_fails`: what every statement keeps the script keeps,
  and a script fails if every statement before a bad one keeps the condition
  that makes the bad one fail.
-/

namespace Magisk.Lib.Sql

open List Option

/-! ### Tables -/

/-- The storage classes of SQLite; a real is kept by its bit pattern. -/
inductive Value where
  | null
  | int (n : Int)
  | real (bits : UInt64)
  | text (s : String)
  | blob (b : List UInt8)
  deriving DecidableEq, Repr

/-- A column with its declared type and its default value. -/
structure Column where
  name : String
  type : String
  dflt : Value := .null
  deriving DecidableEq, Repr

/-- What `CREATE TABLE` declares. -/
structure Schema where
  columns : List Column
  primaryKey : List String
  deriving DecidableEq, Repr

namespace Schema

variable (sch : Schema)

/-- There is a column of that name. -/
def hasColumn (c : String) : Bool := sch.columns.any (·.name == c)

/-- The value of a row in the column `c`, if there is such a column. -/
def get (row : List Value) (c : String) : Option Value :=
  (sch.columns.findIdx? (·.name == c)).bind fun i => row[i]?

/-- The primary key of a row. -/
def key (row : List Value) : List (Option Value) := sch.primaryKey.map (sch.get row)

/-- Two rows violate the primary key: the keys agree and hold no `NULL`, which is
distinct from everything. -/
def conflict (r₁ r₂ : List Value) : Prop :=
  sch.key r₁ = sch.key r₂ ∧ some Value.null ∉ sch.key r₁

instance (r₁ r₂ : List Value) : Decidable (sch.conflict r₁ r₂) :=
  inferInstanceAs (Decidable (_ ∧ _))

/-- The rows obey the primary key. -/
def Unique (rows : List (List Value)) : Prop := rows.Pairwise fun r₁ r₂ => ¬ sch.conflict r₁ r₂

instance (rows : List (List Value)) : Decidable (sch.Unique rows) :=
  inferInstanceAs (Decidable (List.Pairwise _ _))

/-- `ALTER TABLE ... ADD COLUMN` on the declaration. -/
def addColumn (c : Column) : Schema := { sch with columns := sch.columns ++ [c] }

@[simp] lemma hasColumn_addColumn (c : Column) (n : String) :
    (sch.addColumn c).hasColumn n = (sch.hasColumn n || c.name == n) := by
  simp [addColumn, hasColumn]

end Schema

/-- A table: its declaration and its rows, each listing its values in column
order. -/
structure Table where
  schema : Schema
  rows : List (List Value)
  deriving DecidableEq, Repr

/-- `ALTER TABLE ... ADD COLUMN`: the rows get the default value. -/
def Table.addColumn (t : Table) (c : Column) : Table :=
  ⟨t.schema.addColumn c, t.rows.map (· ++ [c.dflt])⟩

/-- The rows whose value in the column `c` is none of the listed texts. -/
def Table.deleteIn (t : Table) (c : String) (texts : List String) : Table :=
  { t with rows := t.rows.filter fun r => texts.all fun s => t.schema.get r c != some (.text s) }

lemma Table.deleteIn_deleteIn (t : Table) (c : String) (texts : List String) :
    (t.deleteIn c texts).deleteIn c texts = t.deleteIn c texts := by
  simp [Table.deleteIn]

/-- A database file. -/
structure Database where
  userVersion : Int
  tables : String → Option Table

/-- A database file that has just been created. -/
def Database.empty : Database := ⟨0, fun _ => none⟩

variable {n : String} {db db' : Database} {s : Stmt}

namespace Database

variable (db : Database)

/-- The table of name `n` becomes `t`. -/
def set (n : String) (t : Option Table) : Database :=
  { db with tables := Function.update db.tables n t }

/-- The declarations of all tables. -/
def schema (n : String) : Option Schema := (db.tables n).map Table.schema

@[simp] lemma set_tables_self (n : String) (t : Option Table) : (db.set n t).tables n = t := by
  simp [set]

lemma set_tables_ne (h : m ≠ n) (t : Option Table) : (db.set n t).tables m = db.tables m := by
  simp [set, h]

@[ext] lemma ext {d₁ d₂ : Database} (hv : d₁.userVersion = d₂.userVersion)
    (ht : ∀ n, d₁.tables n = d₂.tables n) : d₁ = d₂ := by
  cases d₁; cases d₂
  simp only [mk.injEq]
  exact ⟨hv, funext ht⟩

@[simp] lemma set_set (n : String) (t t' : Option Table) :
    (db.set n t).set n t' = db.set n t' := by
  simp [set]

lemma set_comm (h : m ≠ n) (t t' : Option Table) :
    (db.set m t).set n t' = (db.set n t').set m t := by
  simp [set, Function.update_comm h]

lemma set_eq_self (h : db.tables n = t) : db.set n t = db := by
  subst h
  simp [set]

end Database

/-! ### Statements -/

/-- The statements of a migration script. -/
inductive Stmt where
  | begin
  | commit
  | createTable (n : String) (sch : Schema)
  | renameTable (n m : String)
  | addColumn (n : String) (c : Column)
  | dropTable (ifExists : Bool) (n : String)
  | insertSelect (into : String) (cols : Option (List String)) (n : String)
  | deleteIn (n c : String) (texts : List String)
  | setUserVersion (v : Int)
  deriving DecidableEq, Repr

namespace Stmt

/-- `INSERT INTO into SELECT cols FROM n`; no column list is `SELECT *`.  The
columns must exist, their number must fit, and the primary key must hold. -/
def insertRows (tgt src : Table) (cols : Option (List String)) : Option Table :=
  let cols := cols.getD (src.schema.columns.map Column.name)
  if cols.length = tgt.schema.columns.length ∧ cols.all src.schema.hasColumn then
    let rows := tgt.rows ++ src.rows.map fun r => cols.map fun c => (src.schema.get r c).getD .null
    if tgt.schema.Unique rows then some { tgt with rows := rows } else none
  else none

/-- What a statement does to a database; `none` is an error.  `BEGIN` and
`COMMIT` concern the connection and leave the database as it is. -/
def apply (db : Database) : Stmt → Option Database
  | begin => some db
  | commit => some db
  | createTable n sch =>
    -- `CREATE TABLE IF NOT EXISTS`
    match db.tables n with
    | some _ => some db
    | none => some (db.set n (some ⟨sch, []⟩))
  | renameTable n m =>
    match db.tables n, db.tables m with
    | some t, none => some ((db.set n none).set m (some t))
    | _, _ => none
  | addColumn n c =>
    match db.tables n with
    | some t => if t.schema.hasColumn c.name then none else some (db.set n (some (t.addColumn c)))
    | none => none
  | dropTable ifExists n =>
    match db.tables n with
    | some _ => some (db.set n none)
    | none => if ifExists then some db else none
  | insertSelect into cols n =>
    match db.tables into, db.tables n with
    | some tgt, some src => (insertRows tgt src cols).map fun t => db.set into (some t)
    | _, _ => none
  | deleteIn n c texts =>
    match db.tables n with
    | some t => if t.schema.hasColumn c then some (db.set n (some (t.deleteIn c texts))) else none
    | none => none
  | setUserVersion v => some { db with userVersion := v }

/-- The tables a statement may change. -/
def touches : Stmt → List String
  | begin | commit | setUserVersion _ => []
  | createTable n _ | addColumn n _ | dropTable _ n | deleteIn n _ _ => [n]
  | renameTable n m => [n, m]
  | insertSelect into _ _ => [into]

/-- The statement is neither `BEGIN` nor `COMMIT`. -/
def plain : Stmt → Bool
  | begin | commit => false
  | _ => true

/-- The database after writes to some tables, by their names. -/
inductive Written (ns : List String) (db : Database) : Database → Prop where
  | refl : Written ns db db
  | set {d : Database} {n : String} (t : Option Table) : Written ns db d → n ∈ ns →
      Written ns db (d.set n t)

lemma Written.tables_eq (h : Written ns db d) (hn : n ∉ ns) : d.tables n = db.tables n := by
  induction h with
  | refl => rfl
  | @set d m t _ hm ih =>
    have hne : n ≠ m := fun heq => hn (heq ▸ hm)
    rw [d.set_tables_ne hne, ih]

lemma Written.userVersion_eq (h : Written ns db d) : d.userVersion = db.userVersion := by
  induction h with
  | refl => rfl
  | set t _ _ ih => exact ih

lemma Written.single (db : Database) (n : String) (t : Option Table) :
    Written [n] db (db.set n t) :=
  .set t .refl (.head _)

/-- What a statement can do: it sets the version, or writes to the tables it names. -/
lemma written_of_apply (h : s.apply db = some db') (hs : ∀ v, s ≠ setUserVersion v) :
    Written s.touches db db' := by
  cases s with
  | setUserVersion v => exact absurd rfl (hs v)
  | begin => cases h; exact .refl
  | commit => cases h; exact .refl
  | createTable m sch =>
    simp only [apply] at h
    split at h <;> cases h
    · exact .refl
    · exact .single db m _
  | renameTable m m' =>
    simp only [apply] at h
    split at h <;> cases h
    exact .set _ (.set _ .refl (.head _)) (.tail _ (.head _))
  | addColumn m c =>
    simp only [apply] at h
    split at h
    · split_ifs at h
      cases h
      exact .single db m _
    · cases h
  | dropTable e m =>
    simp only [apply] at h
    split at h
    · cases h
      exact .single db m _
    · split_ifs at h
      cases h
      exact .refl
  | insertSelect into cols m =>
    simp only [apply] at h
    split at h
    · obtain ⟨t, -, rfl⟩ := map_eq_some_iff.mp h
      exact .single db into _
    · cases h
  | deleteIn m c texts =>
    simp only [apply] at h
    split at h
    · split_ifs at h
      cases h
      exact .single db m _
    · cases h

/-- **Frame.**  A statement leaves the tables it does not name alone. -/
lemma apply_tables_of_notMem (h : s.apply db = some db') (hn : n ∉ s.touches) :
    db'.tables n = db.tables n := by
  by_cases hs : ∃ v, s = setUserVersion v
  · obtain ⟨v, rfl⟩ := hs
    cases h
    rfl
  · exact (written_of_apply h fun v hv => hs ⟨v, hv⟩).tables_eq hn

lemma apply_userVersion (h : s.apply db = some db') (hs : ∀ v, s ≠ setUserVersion v) :
    db'.userVersion = db.userVersion :=
  (written_of_apply h hs).userVersion_eq

lemma apply_dropTable_ifExists (db : Database) (n : String) :
    (dropTable true n).apply db = some (db.set n none) := by
  simp only [apply]
  cases h : db.tables n with
  | some t => rfl
  | none => simp [db.set_eq_self h]

lemma apply_addColumn (h : db.tables n = some t) (hc : t.schema.hasColumn c.name = false) :
    (addColumn n c).apply db = some (db.set n (some (t.addColumn c))) := by
  simp [apply, h, hc]

lemma apply_addColumn_eq_none (h : ∀ t, db.tables n = some t → t.schema.hasColumn c.name) :
    (addColumn n c).apply db = none := by
  simp only [apply]
  cases ht : db.tables n with
  | none => rfl
  | some t => simp [h t ht]

lemma apply_deleteIn (h : db.tables n = some t) (hc : t.schema.hasColumn c) :
    (deleteIn n c texts).apply db = some (db.set n (some (t.deleteIn c texts))) := by
  simp [apply, h, hc]

/-- The statements in order, as one change of the database. -/
def applyAll : List Stmt → Database → Option Database
  | [], db => some db
  | s :: ss, db => (s.apply db).bind (applyAll ss)

end Stmt

/-! ### Connections -/

/-- An open connection: the database file, and the working copy of the open
transaction if there is one. -/
structure Conn where
  committed : Database
  txn : Option Database := none

variable {ss : List Stmt}

namespace Conn

/-- What a statement on this connection sees. -/
def view (c : Conn) : Database := c.txn.getD c.committed

/-- Execute one statement. -/
def exec (c : Conn) : Stmt → Option Conn
  | .begin => if c.txn.isSome then none else some { c with txn := some c.committed }
  | .commit => c.txn.map fun db => ⟨db, none⟩
  | s => (s.apply c.view).map fun db =>
    if c.txn.isSome then { c with txn := some db } else ⟨db, none⟩

/-- Execute statements in order up to the first failing one; the flag says that
none failed. -/
def execAll : List Stmt → Conn → Conn × Bool
  | [], c => (c, true)
  | s :: ss, c =>
    match c.exec s with
    | some c' => execAll ss c'
    | none => (c, false)

/-- The connection is closed or lost: an open transaction is rolled back. -/
def close (c : Conn) : Database := c.committed

lemma exec_plain {c : Conn} (hs : s.plain) :
    c.exec s = (s.apply c.view).map fun db =>
      if c.txn.isSome then { c with txn := some db } else ⟨db, none⟩ := by
  cases s <;> simp_all [Stmt.plain, exec]

lemma execAll_append (h : execAll ss c = (c', true)) (ss' : List Stmt) :
    execAll (ss ++ ss') c = execAll ss' c' := by
  induction ss generalizing c with
  | nil =>
    simp only [execAll, Prod.mk.injEq, and_true] at h
    rw [nil_append, h]
  | cons s ss ih =>
    simp only [execAll, cons_append] at h ⊢
    split at h
    · exact ih h
    · simp at h

section

variable (hss : ∀ s ∈ ss, s.plain) (h : Stmt.applyAll ss db = some db')

include hss h

/-- Inside a transaction statements work on its copy. -/
lemma execAll_plain : execAll ss ⟨file, some db⟩ = (⟨file, some db'⟩, true) := by
  induction ss generalizing db with
  | nil =>
    simp only [Stmt.applyAll] at h
    simp [execAll, h]
  | cons s ss ih =>
    simp only [Stmt.applyAll, bind_eq_some_iff] at h
    obtain ⟨d, hd, hrest⟩ := h
    have hexec : Conn.exec ⟨file, some db⟩ s = some ⟨file, some d⟩ := by
      rw [exec_plain (hss s (by simp))]
      simp [view, hd]
    simp only [execAll, hexec]
    exact ih (fun s' hs' => hss s' (by simp [hs'])) hrest

/-- **A completed transaction** changes the database as its statements do. -/
lemma execAll_transaction :
    execAll (.begin :: (ss ++ [.commit])) ⟨db, none⟩ = (⟨db', none⟩, true) := by
  have hbegin : Conn.exec ⟨db, none⟩ .begin = some ⟨db, some db⟩ := rfl
  simp only [execAll, hbegin]
  rw [execAll_append (execAll_plain hss h)]
  rfl

end

lemma execAll_autocommit (hs : s.plain) (h : s.apply db = some db') :
    execAll [s] ⟨db, none⟩ = (⟨db', none⟩, true) := by
  have hexec : Conn.exec ⟨db, none⟩ s = some ⟨db', none⟩ := by
    rw [exec_plain hs]
    simp [view, h]
  simp [execAll, hexec]

/-- **Atomicity.**  Statements without a `COMMIT`, run inside a transaction, have
no effect on the database file. -/
lemma committed_execAll (hss : .commit ∉ ss) (hc : c.txn.isSome) :
    (execAll ss c).1.committed = c.committed ∧ (execAll ss c).1.txn.isSome := by
  induction ss generalizing c with
  | nil => exact ⟨rfl, hc⟩
  | cons s ss ih =>
    simp only [mem_cons, not_or] at hss
    simp only [execAll]
    cases hexec : c.exec s with
    | none => exact ⟨rfl, hc⟩
    | some c' =>
      have hc' : c'.committed = c.committed ∧ c'.txn.isSome := by
        cases s with
        | commit => exact absurd rfl hss.1
        | begin => simp [exec, hc] at hexec
        | _ =>
          rw [exec_plain rfl] at hexec
          obtain ⟨d, -, rfl⟩ := map_eq_some_iff.mp hexec
          simp [hc]
      obtain ⟨h1, h2⟩ := ih hss.2 hc'.2
      exact ⟨h1.trans hc'.1, h2⟩

/-- What every statement of a script keeps, of the database file and of what the
connection sees, the script keeps, however far it gets. -/
lemma execAll_keeps {Q : Database → Prop}
    (hss : ∀ s ∈ ss, ∀ db db', Q db → s.apply db = some db' → Q db') (hview : Q c.view)
    (hfile : Q c.committed) : Q (execAll ss c).1.view ∧ Q (execAll ss c).1.committed := by
  induction ss generalizing c with
  | nil => exact ⟨hview, hfile⟩
  | cons s ss ih =>
    simp only [execAll]
    cases hexec : c.exec s with
    | none => exact ⟨hview, hfile⟩
    | some c' =>
      have hkeep : Q c'.view ∧ Q c'.committed := by
        cases s with
        | begin =>
          simp only [exec] at hexec
          split_ifs at hexec
          cases hexec
          exact ⟨hfile, hfile⟩
        | commit =>
          obtain ⟨d, hd, rfl⟩ := map_eq_some_iff.mp hexec
          simp only [view, hd] at hview
          exact ⟨hview, hview⟩
        | _ =>
          rw [exec_plain rfl] at hexec
          obtain ⟨d, hd, rfl⟩ := map_eq_some_iff.mp hexec
          have hQ := hss _ (by simp) _ _ hview hd
          by_cases htxn : c.txn.isSome <;> simp [htxn, view, hQ, hfile]
      exact ih (fun s' hs' => hss s' (by simp [hs'])) hkeep.1 hkeep.2

/-- A script fails if every statement before a bad one keeps the condition that
makes the bad one fail. -/
lemma execAll_fails {Q : Database → Prop}
    (hpre : ∀ s ∈ pre, ∀ db db', Q db → s.apply db = some db' → Q db')
    (hbad : ∀ db, Q db → bad.apply db = none) (hplain : bad.plain)
    (hview : Q c.view) (hfile : Q c.committed) :
    (execAll (pre ++ bad :: post) c).2 = false := by
  induction pre generalizing c with
  | nil =>
    have hexec : c.exec bad = none := by
      rw [exec_plain hplain, hbad _ hview, map_none]
    simp [execAll, hexec]
  | cons s pre ih =>
    have hkeep := @execAll_keeps [s] c Q (fun s' hs' => hpre s' (by simp_all)) hview hfile
    simp only [cons_append, execAll] at hkeep ⊢
    cases hexec : c.exec s with
    | none => rfl
    | some c' =>
      rw [hexec] at hkeep
      exact ih (fun s' hs' => hpre s' (by simp [hs'])) hkeep.1 hkeep.2

end Conn

end Magisk.Lib.Sql
