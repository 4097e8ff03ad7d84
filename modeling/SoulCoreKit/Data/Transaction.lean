import SoulCoreKit.Core.Result
import Mathlib.Data.List.Nodup

/-!
# Transactions

The transaction methods of `data::BaseSqlDriver`, and `withTransaction` and `TransactionScope` over the
interface `data::ITransactionManager`, which has no implementation in the library.

The database behind a driver is a `QSqlDatabase`. It has at most one transaction open, transactions are
numbered in the order in which they were begun, and what it answers is told by a server for the number of
the call.
-/

namespace SoulCoreKit.Data

/-- The end of a call. An exception has a text if it is a `std::exception`. -/
inductive Exit (T : Type) where
  | returns (result : Result T)
  | throws (what : Option String)
  deriving DecidableEq, Repr

/-! ### The connection -/

structure Statement where
  sql : String
  params : List String
  deriving DecidableEq, Repr

/-- What a statement does to the open transaction. A `CREATE TABLE` commits it on some servers. -/
inductive Effect where
  | none
  | begins
  | commits
  | rollsBack
  deriving DecidableEq, Repr

structure Server where
  transaction : Nat → Bool := fun _ => true
  commit : Nat → Bool := fun _ => true
  rollback : Nat → Bool := fun _ => true
  exec : Nat → Statement → Except String Int × Effect := fun _ _ => (.ok 0, .none)
  currentDateTimeUtc : Nat → String := fun _ => ""

/-- The transaction that is open, and those that were committed. -/
structure Connection where
  isOpen : Bool := true
  current : Option Nat := none
  begun : Nat := 0
  committed : List Nat := []
  closed : isOpen = false → current = none := by simp
  once : committed.Nodup := by simp
  earlier : ∀ tx ∈ committed, tx < begun := by simp
  uncommitted : ∀ tx ∈ current, tx < begun ∧ tx ∉ committed := by simp

namespace Connection

variable (c : Connection)

/-- Nothing happens inside a transaction, or on a closed connection. -/
def beginNext : Connection :=
  if hopen : c.isOpen = true ∧ c.current = none then
    { c with
      current := some c.begun
      begun := c.begun + 1
      closed := fun hclosed => absurd hopen.1 (by simp [hclosed])
      earlier := fun tx htx => Nat.lt_succ_of_lt (c.earlier tx htx)
      uncommitted := by
        rintro tx ⟨⟩
        exact ⟨Nat.lt_succ_self _, fun htx => Nat.lt_irrefl _ (c.earlier _ htx)⟩ }
  else
    c

def commitCurrent : Connection :=
  match hcurrent : c.current with
  | none => c
  | some tx =>
      { c with
        current := none
        committed := tx :: c.committed
        closed := fun _ => rfl
        once := List.nodup_cons.mpr ⟨(c.uncommitted tx hcurrent).2, c.once⟩
        earlier := List.forall_mem_cons.mpr ⟨(c.uncommitted tx hcurrent).1, c.earlier⟩
        uncommitted := fun _ htx => absurd htx (Option.not_mem_none _) }

def endCurrent : Connection :=
  { c with
    current := none
    closed := fun _ => rfl
    uncommitted := fun _ htx => absurd htx (Option.not_mem_none _) }

def affected : Effect → Connection
  | .none => c
  | .begins => c.beginNext
  | .commits => c.commitCurrent
  | .rollsBack => c.endCurrent

end Connection

/-! ### The driver -/

structure BaseSqlDriver where
  mDb : Connection := {}
  mInTransaction : Bool := false
  calls : Nat := 0

/-- The methods of `IDatabaseDriver` for transactions. -/
structure IDatabaseDriver (D : Type) where
  beginTransaction : D → Result Unit × D
  commit : D → Result Unit × D
  rollback : D → Result Unit × D

namespace BaseSqlDriver

/-- The driver after `open`. -/
def opened : BaseSqlDriver := {}

variable (server : Server) (d : BaseSqlDriver)

def called : BaseSqlDriver := { d with calls := d.calls + 1 }

def isConnected : Bool := d.mDb.isOpen

def notConnected : Error := ⟨.databaseError, "Not connected"⟩

def executeUpdate (statement : Statement) : Result Int × BaseSqlDriver :=
  if ¬ d.isConnected then
    (.error notConnected, d)
  else
    let (answer, effect) := server.exec d.calls statement
    (answer.mapError fun lastError => ⟨.queryFailed, lastError⟩,
      { d with mDb := d.mDb.affected effect }.called)

/-- A transaction inside another one is refused. -/
def beginTransaction : Result Unit × BaseSqlDriver :=
  if ¬ d.isConnected then
    (.error notConnected, d)
  else if ¬ (server.transaction d.calls ∧ d.mDb.current = none) then
    (.error ⟨.databaseError, "Failed to begin transaction"⟩, d.called)
  else
    (.ok (), { d with mDb := d.mDb.beginNext, mInTransaction := true }.called)

def commit : Result Unit × BaseSqlDriver :=
  if ¬ d.isConnected then
    (.error notConnected, d)
  else if ¬ (server.commit d.calls ∧ d.mDb.current.isSome) then
    (.error ⟨.databaseError, "Failed to commit transaction"⟩, d.called)
  else
    (.ok (), { d with mDb := d.mDb.commitCurrent, mInTransaction := false }.called)

def rollback : Result Unit × BaseSqlDriver :=
  if ¬ d.isConnected then
    (.error notConnected, d)
  else if ¬ (server.rollback d.calls ∧ d.mDb.current.isSome) then
    (.error ⟨.databaseError, "Failed to rollback transaction"⟩, d.called)
  else
    (.ok (), { d with mDb := d.mDb.endCurrent, mInTransaction := false }.called)

def driver : IDatabaseDriver BaseSqlDriver :=
  ⟨beginTransaction server, commit server, rollback server⟩

end BaseSqlDriver

/-! ### The manager -/

/-- The methods that `withTransaction` and `TransactionScope` call: `beginTransaction` of the manager, and
`commit` and `rollback` of the transactions it hands out. -/
structure ITransactionManager (D Tx : Type) where
  beginTransaction : D → Option Tx × D
  commit : Tx → D → Exit Unit × D
  rollback : Tx → D → Result Unit × D

def transactionFailed : Option String → Error
  | some what => ⟨.internalError, "Transaction failed: " ++ what⟩
  | none => ⟨.internalError, "Transaction failed: unknown exception"⟩

def ITransactionManager.withTransaction {D Tx T : Type} (manager : ITransactionManager D Tx)
    (operation : D → Exit T × D) (d : D) : Result T × D :=
  match manager.beginTransaction d with
  | (none, d) => (.error ⟨.internalError, "Failed to begin transaction"⟩, d)
  | (some tx, d) =>
      match operation d with
      | (.throws what, d) => (.error (transactionFailed what), (manager.rollback tx d).2)
      | (.returns (.error error), d) => (.error error, (manager.rollback tx d).2)
      | (.returns (.ok value), d) =>
          match manager.commit tx d with
          | (.throws what, d) => (.error (transactionFailed what), (manager.rollback tx d).2)
          | (.returns (.error error), d) =>
              (.error ⟨.internalError, "Transaction commit failed: " ++ error.message⟩, d)
          | (.returns (.ok _), d) => (.ok value, d)

/-! ### The scope -/

structure TransactionScope (Tx : Type) where
  mTx : Option Tx
  mCommitted : Bool := false
  mRolledBack : Bool := false

namespace TransactionScope

variable {D Tx : Type} (manager : ITransactionManager D Tx) (scope : TransactionScope Tx)

/-- The tests at the beginning of `commit` and of `rollback`. -/
def active : Result Tx :=
  match scope.mTx with
  | none => .error ⟨.internalError, "No active transaction"⟩
  | some tx =>
      if scope.mCommitted then .error ⟨.internalError, "Transaction already committed"⟩
      else if scope.mRolledBack then .error ⟨.internalError, "Transaction already rolled back"⟩
      else .ok tx

def commit (d : D) : Exit Unit × TransactionScope Tx × D :=
  match scope.active with
  | .error error => (.returns (.error error), scope, d)
  | .ok tx =>
      match manager.commit tx d with
      | (.returns (.ok _), d) => (.returns (.ok ()), { scope with mCommitted := true }, d)
      | (exit, d) => (exit, scope, d)

def rollback (d : D) : Result Unit × TransactionScope Tx × D :=
  match scope.active with
  | .error error => (.error error, scope, d)
  | .ok tx =>
      match manager.rollback tx d with
      | (.ok _, d) => (.ok (), { scope with mRolledBack := true }, d)
      | (.error error, d) => (.error error, scope, d)

/-- The destructor. -/
def destroy (d : D) : D :=
  match scope.mTx with
  | none => d
  | some tx => if ¬ scope.mCommitted ∧ ¬ scope.mRolledBack then (manager.rollback tx d).2 else d

end TransactionScope

end SoulCoreKit.Data
