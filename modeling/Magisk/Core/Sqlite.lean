import Magisk.Lib.Sql

/-!
`open_and_init_db` of `core/sqlite.cpp`: the schema of Magisk's database and the
chain of migration steps that brings an older one to version 15.

The database is read once, for its `user_version`; which statements then run is
fixed by that number alone (`script`), the `if (ver == n)` blocks falling through
into one another by setting `ver`.  The first failing statement ends the
function, which closes the connection.

* `openAndInitDb`: the file it leaves behind and whether it succeeded;
* `schemaAt`, `Historical`: the databases of version `v` the changelog describes,
  with arbitrary rows.
-/

namespace Magisk.Core.Sqlite

open Magisk.Lib.Sql

/-- `DB_VERSION`. -/
def dbVersion : Int := 15

/-! ### The tables -/

/-- `settings (key TEXT, value INT, PRIMARY KEY(key))`. -/
def settingsSchema : Schema := ⟨[⟨"key", "TEXT", .null⟩, ⟨"value", "INT", .null⟩], ["key"]⟩

/-- `strings (key TEXT, value TEXT, PRIMARY KEY(key))`. -/
def stringsSchema : Schema := ⟨[⟨"key", "TEXT", .null⟩, ⟨"value", "TEXT", .null⟩], ["key"]⟩

/-- `locked INT DEFAULT 0`. -/
def lockedColumn : Column := ⟨"locked", "INT", .int 0⟩

/-- `package_name TEXT`. -/
def packageNameColumn : Column := ⟨"package_name", "TEXT", .null⟩

/-- `process TEXT`. -/
def processColumn : Column := ⟨"process", "TEXT", .null⟩

/-- `hidelist` from version 9 on, and `denylist` before it had a lock. -/
def hidelistSchema : Schema :=
  ⟨[packageNameColumn, processColumn], ["package_name", "process"]⟩

/-- `denylist (package_name TEXT, process TEXT, locked INT DEFAULT 0,
PRIMARY KEY(package_name, process))`. -/
def denylistSchema : Schema :=
  ⟨[packageNameColumn, processColumn, lockedColumn], ["package_name", "process"]⟩

/-- `policies` as version 12 rebuilds it. -/
def policiesSchema : Schema :=
  ⟨[⟨"uid", "INT", .null⟩, ⟨"policy", "INT", .null⟩, ⟨"until", "INT", .null⟩,
    ⟨"logging", "INT", .null⟩, ⟨"notification", "INT", .null⟩], ["uid"]⟩

/-- `create_settings`. -/
def createSettings : Stmt := .createTable "settings" settingsSchema

/-- `create_strings`. -/
def createStrings : Stmt := .createTable "strings" stringsSchema

/-- `create_denylist`: always the newest schema. -/
def createDenylist : Stmt := .createTable "denylist" denylistSchema

/-! ### The migration steps -/

/-- A block `if (ver == n) { ...; ver = next; upgrade = true; }`. -/
structure Step where
  ver : Int
  body : List Stmt
  next : Int

/-- The rebuild of `hidelist` in versions 7 and 8, which differ in the columns
they select. -/
def rebuildHidelist (cols : Option (List String)) : List Stmt :=
  [.begin, .renameTable "hidelist" "hidelist_tmp", .createTable "hidelist" hidelistSchema,
    .insertSelect "hidelist" cols "hidelist_tmp", .dropTable false "hidelist_tmp", .commit]

/-- Drop `package_name` from `policies`. -/
def rebuildPolicies : List Stmt :=
  [.renameTable "policies" "policies_tmp", .createTable "policies" policiesSchema,
    .insertSelect "policies" (some ["uid", "policy", "until", "logging", "notification"])
      "policies_tmp",
    .dropTable false "policies_tmp"]

/-- Add the lock columns. -/
def addLocked : List Stmt :=
  [.addColumn "policies" lockedColumn, .addColumn "denylist" lockedColumn]

/-- Add `package_name` to `policies`. -/
def addPackageName : List Stmt := [.addColumn "policies" packageNameColumn]

/-- The settings version 15 has no use for. -/
def policySettings : List String := ["root_access", "multiuser_mode", "su_biometric"]

/-- The blocks of `open_and_init_db` in program order. -/
def steps : List Step :=
  [⟨7, rebuildHidelist (some ["process", "process"]), 9⟩,
    ⟨8, rebuildHidelist none, 9⟩,
    ⟨9, [.dropTable true "logs"], 10⟩,
    ⟨10, [.dropTable true "hidelist", .deleteIn "settings" "key" ["magiskhide"],
      createDenylist], 11⟩,
    ⟨11, .begin :: (rebuildPolicies ++ [.commit]), 12⟩,
    ⟨12, .begin :: (addLocked ++ [.commit]), 13⟩,
    ⟨13, .begin :: (addPackageName ++ [.commit]), 14⟩,
    ⟨14, [.dropTable true "policies", .deleteIn "settings" "key" policySettings], 15⟩]

/-- The variables `ver` and `upgrade`, and the statements issued so far. -/
structure Plan where
  ver : Int
  upgrade : Bool
  stmts : List Stmt

/-- The block for versions 0 to 6, which creates everything and jumps to the
latest version. -/
def Plan.start (ver : Int) : Plan :=
  if ver ≤ 6 then ⟨dbVersion, true, [createSettings, createStrings, createDenylist]⟩
  else ⟨ver, false, []⟩

/-- One of the later blocks. -/
def Plan.take (p : Plan) (s : Step) : Plan :=
  if p.ver = s.ver then ⟨s.next, true, p.stmts ++ s.body⟩ else p

/-- The statements `open_and_init_db` issues on a database of version `ver`, as
long as none fails. -/
def script (ver : Int) : List Stmt :=
  let p := steps.foldl Plan.take (Plan.start ver)
  p.stmts ++ if p.upgrade then [.setUserVersion dbVersion] else []

/-- `open_and_init_db` on a database file: what the file is afterwards, and
whether the function succeeded.  A file of a newer version is deleted and the
function starts over. -/
def openAndInitDb (db : Database) : Database × Bool :=
  let db := if db.userVersion > dbVersion then Database.empty else db
  let r := Conn.execAll (script db.userVersion) ⟨db, none⟩
  (r.1.close, r.2)

/-! ### Databases of earlier versions -/

/-- `policies` up to version 11, with its column `package_name`. -/
def policiesSchema11 : Schema :=
  ⟨[⟨"uid", "INT", .null⟩, packageNameColumn, ⟨"policy", "INT", .null⟩, ⟨"until", "INT", .null⟩,
    ⟨"logging", "INT", .null⟩, ⟨"notification", "INT", .null⟩], ["uid"]⟩

/-- `hidelist` by version. -/
def hidelistAt (v : Int) : Option Schema :=
  if v = 7 then some ⟨[processColumn], ["process"]⟩
  else if v = 8 then some ⟨[processColumn, packageNameColumn], ["process"]⟩
  else if v ≤ 10 then some hidelistSchema
  else none

/-- `policies` by version. -/
def policiesAt (v : Int) : Option Schema :=
  if v ≤ 11 then some policiesSchema11
  else if v = 12 then some policiesSchema
  else if v = 13 then some (policiesSchema.addColumn lockedColumn)
  else if v = 14 then some ((policiesSchema.addColumn lockedColumn).addColumn packageNameColumn)
  else none

/-- `denylist` by version. -/
def denylistAt (v : Int) : Option Schema :=
  if v ≤ 10 then none else if v ≤ 12 then some hidelistSchema else some denylistSchema

/-- The tables of version `v` in the changelog, `logs` apart, of which it says no
more than the name. -/
def schemaAt (v : Int) (n : String) : Option Schema :=
  if n = "settings" then some settingsSchema
  else if n = "strings" then some stringsSchema
  else if n = "hidelist" then hidelistAt v
  else if n = "policies" then policiesAt v
  else if n = "denylist" then denylistAt v
  else none

/-- A database of version `v` with the schema of that version and arbitrary
rows, which SQLite has kept within the primary keys. -/
structure Historical (v : Int) (db : Database) : Prop where
  version : db.userVersion = v
  schema : ∀ n, n ≠ "logs" → db.schema n = schemaAt v n
  logs : 9 < v → db.tables "logs" = none
  unique : ∀ n t, db.tables n = some t → t.schema.Unique t.rows

end Magisk.Core.Sqlite
