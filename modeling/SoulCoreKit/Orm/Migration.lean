import Mathlib.Data.List.Nodup
import SoulCoreKit.Core.Result
import SoulCoreKit.Data.Transaction

/-!
# Schema migrations

`orm::migration::MigrationManager` over a driver with atomic transactions. A database is a schema and
the table `schema_migrations`; an open transaction is a second copy of it, which a commit makes durable
and a rollback discards. Every call of the driver may be refused, as the environment decides for the
number of the call, and a script is an arbitrary function on the schema that may fail after having
changed it. Locks are left out: the manager is used by one thread.
-/

namespace SoulCoreKit.Orm

/-- A `QString` as its code units. -/
abbrev QString := List UInt16

/-- `operator<` of `QString`: the code units, lexicographically. -/
def versionLess : QString → QString → Bool
  | _, [] => false
  | [], _ :: _ => true
  | a :: as, b :: bs => if a.toNat = b.toNat then versionLess as bs else decide (a.toNat < b.toNat)

/-- The characters of a text; a surrogate without its other half is replaced. -/
def QString.characters : QString → List Char
  | [] => []
  | [unit] => [if 0xD800 ≤ unit ∧ unit < 0xE000 then '\uFFFD' else Char.ofNat unit.toNat]
  | unit :: next :: rest =>
      if 0xD800 ≤ unit ∧ unit < 0xDC00 ∧ 0xDC00 ≤ next ∧ next < 0xE000 then
        Char.ofNat (0x10000 + (unit.toNat - 0xD800) * 0x400 + (next.toNat - 0xDC00)) ::
          QString.characters rest
      else
        (if 0xD800 ≤ unit ∧ unit < 0xE000 then '\uFFFD' else Char.ofNat unit.toNat) ::
          QString.characters (next :: rest)

def QString.toText (text : QString) : String := String.ofList (QString.characters text)

structure MigrationRecord where
  version : QString
  description : String
  appliedAt : String
  deriving DecidableEq, Repr

/-- A migration whose scripts see the number of driver calls made before them. -/
structure IMigration (S : Type) where
  version : QString
  description : String
  up : Nat → S → Result Unit × S
  down : Nat → S → Result Unit × S

/-! ### The driver -/

/-- `history` is the table `schema_migrations`, if there is one. -/
structure Database (S : Type) where
  schema : S
  history : Option (List MigrationRecord)

/-- What the database server and the clock do at each call of the driver. -/
structure Environment where
  isConnected : Nat → Bool
  refusal : Nat → Option Error
  lastError : Nat → String
  currentDateTimeUtc : Nat → String

/-- The scripts that were run are noted in `executed`, which nothing reads. -/
structure Driver (S : Type) where
  durable : Database S
  transaction : Option (Database S) := none
  calls : Nat := 0
  executed : List QString := []

namespace Driver

variable {S : Type}

/-- The database as the connection sees it. -/
def view (d : Driver S) : Database S := d.transaction.getD d.durable

/-- A change made through the connection: in the open transaction, or at once. -/
def write (d : Driver S) (db : Database S) : Driver S :=
  match d.transaction with
  | some _ => { d with transaction := some db }
  | none => { d with durable := db }

def called (d : Driver S) : Driver S := { d with calls := d.calls + 1 }

/-- A statement that does not apply changes nothing. -/
def executeUpdate (env : Environment) (d : Driver S) (statement : Database S → Option (Database S)) :
    Result Unit × Driver S :=
  match env.refusal d.calls with
  | some error => (.error error, d.called)
  | none =>
      match statement d.view with
      | none => (.error ⟨.queryFailed, env.lastError d.calls⟩, d.called)
      | some db => (.ok (), (d.write db).called)

def executeQuery {R : Type} (env : Environment) (d : Driver S) (query : Database S → Option R) :
    Result R × Driver S :=
  match env.refusal d.calls with
  | some error => (.error error, d.called)
  | none =>
      match query d.view with
      | none => (.error ⟨.queryFailed, env.lastError d.calls⟩, d.called)
      | some rows => (.ok rows, d.called)

def beginTransaction (env : Environment) (d : Driver S) : Result Unit × Driver S :=
  match env.refusal d.calls, d.transaction with
  | none, none => (.ok (), { d with transaction := some d.durable }.called)
  | _, _ => (.error ⟨.databaseError, "Failed to begin transaction"⟩, d.called)

def commit (env : Environment) (d : Driver S) : Result Unit × Driver S :=
  match env.refusal d.calls, d.transaction with
  | none, some db => (.ok (), { d with durable := db, transaction := none }.called)
  | _, _ => (.error ⟨.databaseError, "Failed to commit transaction"⟩, d.called)

def rollback (env : Environment) (d : Driver S) : Result Unit × Driver S :=
  match env.refusal d.calls, d.transaction with
  | none, some _ => (.ok (), { d with transaction := none }.called)
  | _, _ => (.error ⟨.databaseError, "Failed to rollback transaction"⟩, d.called)

/-- A script called with the driver. -/
def runScript (d : Driver S) (version : QString) (script : Nat → S → Result Unit × S) :
    Result Unit × Driver S :=
  let (result, schema) := script d.calls d.view.schema
  (result, { (d.write { d.view with schema }).called with executed := d.executed ++ [version] })

end Driver

/-! ### The statements -/

section Statements

variable {S : Type}

/-- `CREATE TABLE IF NOT EXISTS schema_migrations (version TEXT PRIMARY KEY, …)`. -/
def createTable (db : Database S) : Option (Database S) :=
  some { db with history := some (db.history.getD []) }

/-- `SELECT version FROM schema_migrations`. -/
def selectVersions (db : Database S) : Option (List QString) :=
  db.history.map fun rows => rows.map MigrationRecord.version

/-- `INSERT INTO schema_migrations (version, description, applied_at) VALUES (?, ?, ?)`: the version is
the primary key. -/
def insertRecord (row : MigrationRecord) (db : Database S) : Option (Database S) :=
  match db.history with
  | none => none
  | some rows =>
      if row.version ∈ rows.map MigrationRecord.version then none
      else some { db with history := some (rows ++ [row]) }

/-- What `ORDER BY applied_at ASC` promises: ascending stamps, and equal ones in an order the engine
chooses. -/
structure AppliedAtOrder where
  arrange : List MigrationRecord → List MigrationRecord
  perm : ∀ rows, (arrange rows).Perm rows
  ascending : ∀ rows, (arrange rows).Pairwise fun a b => a.appliedAt ≤ b.appliedAt

/-- `SELECT version, description, applied_at FROM schema_migrations ORDER BY applied_at ASC`. -/
def selectRecords (order : AppliedAtOrder) (db : Database S) : Option (List MigrationRecord) :=
  db.history.map order.arrange

/-- `DELETE FROM schema_migrations WHERE version = ?`. -/
def deleteRecord (version : QString) (db : Database S) : Option (Database S) :=
  match db.history with
  | none => none
  | some rows => some { db with history := some (rows.filter fun row => row.version ≠ version) }

end Statements

/-! ### The manager -/

/-- No two registered migrations have the same version. -/
structure MigrationManager (S : Type) where
  mMigrations : List (IMigration S) := []
  mTableEnsured : Bool := false
  distinct : (mMigrations.map IMigration.version).Nodup := by exact List.nodup_nil

namespace MigrationManager

variable {S : Type}

/-- A version that is registered already is ignored. -/
def addMigration (mgr : MigrationManager S) (migration : IMigration S) : MigrationManager S :=
  if hnew : migration.version ∈ mgr.mMigrations.map IMigration.version then
    mgr
  else
    { mgr with
      mMigrations := mgr.mMigrations ++ [migration]
      distinct := by
        rw [List.map_append, List.nodup_append]
        refine ⟨mgr.distinct, List.nodup_singleton _, ?_⟩
        intro version hversion other hother heq
        rw [List.map_singleton, List.mem_singleton] at hother
        exact hnew (hother ▸ heq ▸ hversion) }

def ensureMigrationsTable (env : Environment) (mgr : MigrationManager S) (d : Driver S) :
    Result Unit × MigrationManager S × Driver S :=
  if mgr.mTableEnsured then
    (.ok (), mgr, d)
  else
    match d.executeUpdate env createTable with
    | (.error error, d) => (.error error, mgr, d)
    | (.ok _, d) => (.ok (), { mgr with mTableEnsured := true }, d)

def appliedVersions (env : Environment) (d : Driver S) : Result (List QString) × Driver S :=
  d.executeQuery env selectVersions

def recordMigration (env : Environment) (d : Driver S) (version : QString) (description : String) :
    Result Unit × Driver S :=
  d.executeUpdate env (insertRecord ⟨version, description, env.currentDateTimeUtc d.calls⟩)

def removeMigrationRecord (env : Environment) (d : Driver S) (version : QString) :
    Result Unit × Driver S :=
  d.executeUpdate env (deleteRecord version)

def applyMigration (env : Environment) (d : Driver S) (m : IMigration S) (isUp : Bool) :
    Result Unit × Driver S :=
  match d.beginTransaction env with
  | (.error error, d) => (.error error, d)
  | (.ok _, d) =>
      match d.runScript m.version (if isUp then m.up else m.down) with
      | (.error error, d) => (.error error, (d.rollback env).2)
      | (.ok _, d) =>
          match (if isUp then recordMigration env d m.version m.description
            else removeMigrationRecord env d m.version) with
          | (.error error, d) => (.error error, (d.rollback env).2)
          | (.ok _, d) => d.commit env

/-- The migrations that are not applied, sorted. No two of them have the same version, so every sort
gives this list. -/
def pending (mgr : MigrationManager S) (applied : List QString) : List (IMigration S) :=
  (mgr.mMigrations.filter fun m => m.version ∉ applied).mergeSort
    fun a b => !versionLess b.version a.version

/-- The loop over the pending migrations. -/
def applyAll (env : Environment) (d : Driver S) : List (IMigration S) → Result Unit × Driver S
  | [] => (.ok (), d)
  | m :: rest =>
      match applyMigration env d m true with
      | (.error error, d) => (.error error, d)
      | (.ok _, d) => applyAll env d rest

def migrate (env : Environment) (mgr : MigrationManager S) (d : Driver S) :
    Result Unit × MigrationManager S × Driver S :=
  if ¬ env.isConnected d.calls then
    (.error ⟨.notConnected, "MigrationManager::migrate: driver not connected"⟩, mgr, d)
  else
    match ensureMigrationsTable env mgr d with
    | (.error error, mgr, d) => (.error error, mgr, d)
    | (.ok _, mgr, d) =>
        match appliedVersions env d with
        | (.error error, d) => (.error error, mgr, d)
        | (.ok applied, d) =>
            let (result, d) := applyAll env d (mgr.pending applied)
            (result, mgr, d)

/-- The applied versions from the greatest to the least. -/
def descending (applied : List QString) : List QString :=
  applied.mergeSort fun a b => !versionLess a b

/-- `find` in the map of the registered migrations. -/
def registered (mgr : MigrationManager S) (version : QString) : Option (IMigration S) :=
  mgr.mMigrations.find? fun m => m.version = version

/-- The error for a version whose migration nobody registered. -/
def notRegistered (version : QString) : Error :=
  ⟨.invalidState, "Migration " ++ QString.toText version ++ " applied but not registered"⟩

/-- The loop of `rollback`. -/
def rollbackLoop (env : Environment) (mgr : MigrationManager S) (steps : Int) :
    Int → Driver S → List QString → Result Unit × Driver S
  | _, d, [] => (.ok (), d)
  | rolledBack, d, version :: rest =>
      if rolledBack ≥ steps then
        (.ok (), d)
      else
        match mgr.registered version with
        | none => (.error (notRegistered version), d)
        | some m =>
            match applyMigration env d m false with
            | (.error error, d) => (.error error, d)
            | (.ok _, d) => rollbackLoop env mgr steps (rolledBack + 1) d rest

def rollback (env : Environment) (mgr : MigrationManager S) (steps : Int)
    (d : Driver S) : Result Unit × MigrationManager S × Driver S :=
  if steps ≤ 0 then
    (.ok (), mgr, d)
  else if ¬ env.isConnected d.calls then
    (.error ⟨.notConnected, "MigrationManager::rollback: driver not connected"⟩, mgr, d)
  else
    match ensureMigrationsTable env mgr d with
    | (.error error, mgr, d) => (.error error, mgr, d)
    | (.ok _, mgr, d) =>
        match appliedVersions env d with
        | (.error error, d) => (.error error, mgr, d)
        | (.ok applied, d) =>
            let (result, d) := rollbackLoop env mgr steps 0 d (descending applied)
            (result, mgr, d)

/-- The loop of `rollbackTo`. -/
def rollbackToLoop (env : Environment) (mgr : MigrationManager S)
    (targetVersion : QString) : Driver S → List QString → Result Unit × Driver S
  | d, [] => (.ok (), d)
  | d, version :: rest =>
      if !versionLess targetVersion version then
        (.ok (), d)
      else
        match mgr.registered version with
        | none => (.error (notRegistered version), d)
        | some m =>
            match applyMigration env d m false with
            | (.error error, d) => (.error error, d)
            | (.ok _, d) => rollbackToLoop env mgr targetVersion d rest

def rollbackTo (env : Environment) (mgr : MigrationManager S)
    (targetVersion : QString) (d : Driver S) : Result Unit × MigrationManager S × Driver S :=
  if ¬ env.isConnected d.calls then
    (.error ⟨.notConnected, "MigrationManager::rollbackTo: driver not connected"⟩, mgr, d)
  else
    match ensureMigrationsTable env mgr d with
    | (.error error, mgr, d) => (.error error, mgr, d)
    | (.ok _, mgr, d) =>
        match appliedVersions env d with
        | (.error error, d) => (.error error, mgr, d)
        | (.ok applied, d) =>
            let (result, d) := rollbackToLoop env mgr targetVersion d (descending applied)
            (result, mgr, d)

/-- The stamps stay the texts of the table, which the source parses and nothing here reads. -/
def appliedMigrations (env : Environment) (order : AppliedAtOrder) (mgr : MigrationManager S)
    (d : Driver S) : Result (List MigrationRecord) × MigrationManager S × Driver S :=
  if ¬ env.isConnected d.calls then
    (.error ⟨.notConnected, "MigrationManager::appliedMigrations: driver not connected"⟩, mgr, d)
  else
    match ensureMigrationsTable env mgr d with
    | (.error error, mgr, d) => (.error error, mgr, d)
    | (.ok _, mgr, d) =>
        let (result, d) := d.executeQuery env (selectRecords order)
        (result, mgr, d)

/-- The version of the last record, or the empty string. -/
def lastVersion (records : List MigrationRecord) : QString :=
  match records.getLast? with
  | none => []
  | some last => last.version

def currentVersion (env : Environment) (order : AppliedAtOrder) (mgr : MigrationManager S)
    (d : Driver S) : Result QString × MigrationManager S × Driver S :=
  match appliedMigrations env order mgr d with
  | (.error error, rest) => (.error error, rest)
  | (.ok records, rest) => (.ok (lastVersion records), rest)

/-! ### Runs -/

/-- The calls that make a history. -/
inductive Call (S : Type) where
  | addMigration (migration : IMigration S)
  | migrate
  | rollback (steps : Int)

def perform (env : Environment) (state : MigrationManager S × Driver S) :
    Call S → MigrationManager S × Driver S
  | .addMigration migration => (state.1.addMigration migration, state.2)
  | .migrate => (state.1.migrate env state.2).2
  | .rollback steps => (state.1.rollback env steps state.2).2

/-- A new manager on a database that has no table `schema_migrations` yet. -/
def opened (schema : S) : MigrationManager S × Driver S := ({}, { durable := ⟨schema, none⟩ })

end MigrationManager

end SoulCoreKit.Orm

/-! ### A migration on an SQL driver

`MigrationManager::applyMigration` for scripts that may do anything with the driver they are given, end
its transaction and throw included. What the scripts do to the schema is left to the model of the manager,
which this one agrees with on scripts that do neither. -/

namespace SoulCoreKit.Orm

open Data (Exit IDatabaseDriver BaseSqlDriver Server)

/-- `applyMigration` on any driver: `exec` is the script, and `record` the statement on the history. -/
def applyScript {D : Type} (driver : IDatabaseDriver D) (exec : D → Exit Unit × D)
    (record : D → Result Unit × D) (d : D) : Exit Unit × D :=
  match driver.beginTransaction d with
  | (.error error, d) => (.returns (.error error), d)
  | (.ok _, d) =>
      match exec d with
      | (.throws what, d) => (.throws what, d)
      | (.returns (.error error), d) => (.returns (.error error), (driver.rollback d).2)
      | (.returns (.ok _), d) =>
          match record d with
          | (.error error, d) => (.returns (.error error), (driver.rollback d).2)
          | (.ok _, d) =>
              match driver.commit d with
              | (.error error, d) => (.returns (.error error), d)
              | (.ok _, d) => (.returns (.ok ()), d)

namespace Sql

structure IMigration where
  version : String
  description : String
  up : BaseSqlDriver → Exit Unit × BaseSqlDriver
  down : BaseSqlDriver → Exit Unit × BaseSqlDriver

variable (server : Server)

/-- The result of a statement without the number of rows. -/
def withoutRows (d : BaseSqlDriver) (statement : Data.Statement) : Result Unit × BaseSqlDriver :=
  match d.executeUpdate server statement with
  | (.error error, d) => (.error error, d)
  | (.ok _, d) => (.ok (), d)

def recordMigration (version description : String) (d : BaseSqlDriver) : Result Unit × BaseSqlDriver :=
  withoutRows server d
    ⟨"INSERT INTO schema_migrations (version, description, applied_at) VALUES (?, ?, ?)",
      [version, description, server.currentDateTimeUtc d.calls]⟩

def removeMigrationRecord (version : String) (d : BaseSqlDriver) : Result Unit × BaseSqlDriver :=
  withoutRows server d ⟨"DELETE FROM schema_migrations WHERE version = ?", [version]⟩

variable (m : IMigration) (isUp : Bool)

def exec : BaseSqlDriver → Exit Unit × BaseSqlDriver := if isUp then m.up else m.down

def record : BaseSqlDriver → Result Unit × BaseSqlDriver :=
  if isUp then recordMigration server m.version m.description else removeMigrationRecord server m.version

def applyMigration : BaseSqlDriver → Exit Unit × BaseSqlDriver :=
  applyScript (BaseSqlDriver.driver server) (exec m isUp) (record server m isUp)

end Sql

/-! ### The model of the manager -/

variable {S : Type} (env : Environment)

def Driver.driver : IDatabaseDriver (Driver S) :=
  ⟨Driver.beginTransaction env, Driver.commit env, Driver.rollback env⟩

/-- A script on the schema does not throw and does not end the transaction. -/
def Driver.exec (m : IMigration S) (isUp : Bool) (d : Driver S) : Exit Unit × Driver S :=
  ((.returns (d.runScript m.version (if isUp then m.up else m.down)).1),
    (d.runScript m.version (if isUp then m.up else m.down)).2)

def Driver.record (m : IMigration S) (isUp : Bool) (d : Driver S) : Result Unit × Driver S :=
  if isUp then MigrationManager.recordMigration env d m.version m.description
  else MigrationManager.removeMigrationRecord env d m.version

theorem applyScript_eq_applyMigration (d : Driver S) (m : IMigration S) (isUp : Bool) :
    applyScript (Driver.driver env) (Driver.exec m isUp) (Driver.record env m isUp) d =
      (.returns (MigrationManager.applyMigration env d m isUp).1,
        (MigrationManager.applyMigration env d m isUp).2) := by
  unfold applyScript MigrationManager.applyMigration Driver.driver
  dsimp only
  rcases d.beginTransaction env with ⟨error | _, begun⟩
  · rfl
  · dsimp only [Driver.exec]
    rcases begun.runScript m.version (if isUp then m.up else m.down) with ⟨error | _, scripted⟩
    · rfl
    · dsimp only [Driver.record]
      rcases (if isUp then MigrationManager.recordMigration env scripted m.version m.description
        else MigrationManager.removeMigrationRecord env scripted m.version) with ⟨error | _, recorded⟩
      · rfl
      · dsimp only
        rcases recorded.commit env with ⟨error | _, committed⟩
        · rfl
        · rfl

end SoulCoreKit.Orm
