import SoulCoreKit.Core.Result
import SoulCoreKit.Lib.Run

/-!
# The SQLite database

`sc::SqliteDatabase`, called by any number of threads. Its `QMutex` is not recursive, and `open` calls
`enableWAL` and `setBusyTimeout`, which lock it, while it has it itself.

A call is the list of what it has still to do; a section under the lock replaces itself by what follows from
it. Any call may make the next step, and what the file system and the driver answer is part of it.
-/

namespace SoulCoreKit.Storage.SqliteDatabase

structure SqlError where
  text : String
  type : Int
  deriving DecidableEq

/-- The fields of the object. -/
structure Fields where
  isOpen : Bool := false
  mInTransaction : Bool := false
  mLastError : String := ""
  mEncryptionKey : String := ""
  deriving DecidableEq

/-- What the file system and the driver answer, and whether `prepare` or `exec` is what fails. -/
structure Env (Query : Type) where
  absolutePath : String
  mkpath : Bool
  opens : Except SqlError Unit
  transaction : Except SqlError Unit
  notOpen : SqlError
  prepares : Except SqlError Unit
  executes : Except SqlError Query

inductive Reply (Query : Type) where
  | opened (result : Result Unit)
  | closed
  | isOpen (value : Bool)
  | executed (result : Result Query)
  | transaction (result : Result Unit)
  | isInTransaction (value : Bool)
  | lastError (text : String)
  | set

/-- The calls. `executeNonQuery` and `executeScalar` are `execute` and a reading of its result. -/
inductive Request where
  | open (filePath : String)
  | close
  | isOpen
  | execute (sql : String)
  | beginTransaction
  | commitTransaction
  | rollbackTransaction
  | isInTransaction
  | lastError
  | enableWAL (enabled : Bool)
  | setBusyTimeout (milliseconds : Int)
  | setEncryptionKey (key : String)
  deriving DecidableEq

/-- A part of a call. `perform` is what a method does with the lock. -/
inductive Action (Query : Type) where
  | lock
  | unlock
  | perform (request : Request)
  | readKey
  | pragmaKey
  | done (reply : Reply Query)

section

variable {Query : Type}

def handleError (error : SqlError) : String := error.text ++ " (" ++ toString error.type ++ ")"

def transactionError (env : Env Query) (fields : Fields) : Option SqlError :=
  match if fields.isOpen then env.transaction else .error env.notOpen with
  | .ok () => none
  | .error error => some error

/-- How `open` goes on when the file is open. -/
def openRest : List (Action Query) :=
  [.lock, .perform (.enableWAL true), .lock, .perform (.setBusyTimeout 5000), .readKey]

def readKeyRest (fields : Fields) : List (Action Query) :=
  if fields.mEncryptionKey.isEmpty then [.unlock, .done (.opened (.ok ()))] else [.lock, .pragmaKey]

/-- A section under the lock: the fields afterwards, and what is left to do. -/
def perform (env : Env Query) (fields : Fields) : Request → Fields × List (Action Query)
  | .open _ =>
      if fields.isOpen then
        ({ fields with mLastError := "Database already open" },
          [.unlock, .done (.opened (.error ⟨.invalidArgument, "Database already open"⟩))])
      else if ¬ env.mkpath then
        let message := "Cannot create directory: " ++ env.absolutePath
        ({ fields with mLastError := message }, [.unlock, .done (.opened (.error ⟨.internalError, message⟩))])
      else
        match env.opens with
        | .error error =>
            ({ fields with mLastError := handleError error },
              [.unlock, .done (.opened (.error ⟨.internalError, handleError error⟩))])
        | .ok () => ({ fields with isOpen := true }, openRest)
  | .close => ({ fields with isOpen := false }, [.unlock, .done .closed])
  | .isOpen => (fields, [.unlock, .done (.isOpen fields.isOpen)])
  | .execute _ =>
      if ¬ fields.isOpen then
        ({ fields with mLastError := "Database not open" },
          [.unlock, .done (.executed (.error ⟨.internalError, "Database not open"⟩))])
      else
        match env.prepares, env.executes with
        | .error error, _ =>
            ({ fields with mLastError := handleError error },
              [.unlock, .done (.executed (.error ⟨.parseError, handleError error⟩))])
        | .ok (), .error error =>
            ({ fields with mLastError := handleError error },
              [.unlock, .done (.executed (.error ⟨.internalError, handleError error⟩))])
        | .ok (), .ok query => (fields, [.unlock, .done (.executed (.ok query))])
  | .beginTransaction =>
      match transactionError env fields with
      | some error =>
          ({ fields with mLastError := handleError error },
            [.unlock, .done (.transaction (.error ⟨.internalError, handleError error⟩))])
      | none => ({ fields with mInTransaction := true }, [.unlock, .done (.transaction (.ok ()))])
  | .commitTransaction | .rollbackTransaction =>
      match transactionError env fields with
      | some error =>
          ({ fields with mLastError := handleError error },
            [.unlock, .done (.transaction (.error ⟨.internalError, handleError error⟩))])
      | none => ({ fields with mInTransaction := false }, [.unlock, .done (.transaction (.ok ()))])
  | .isInTransaction => (fields, [.unlock, .done (.isInTransaction fields.mInTransaction)])
  | .lastError => (fields, [.unlock, .done (.lastError fields.mLastError)])
  | .enableWAL _ | .setBusyTimeout _ => (fields, [.unlock])
  | .setEncryptionKey key => ({ fields with mEncryptionKey := key }, [])

/-- The `execute` at the end of `open`, with both locks. -/
def pragmaKeyRest (env : Env Query) (fields : Fields) : Fields × List (Action Query) :=
  match env.prepares, env.executes with
  | .error error, _ =>
      ({ fields with mLastError := handleError error },
        [.unlock, .unlock, .done (.opened (.error ⟨.parseError, handleError error⟩))])
  | .ok (), .error error =>
      ({ fields with mLastError := handleError error },
        [.unlock, .unlock, .done (.opened (.error ⟨.internalError, handleError error⟩))])
  | .ok (), .ok _ => (fields, [.unlock, .unlock, .done (.opened (.ok ()))])

def Request.todo : Request → List (Action Query)
  | .setEncryptionKey key => [.perform (.setEncryptionKey key), .done .set]
  | .enableWAL enabled => [.lock, .perform (.enableWAL enabled), .done .set]
  | .setBusyTimeout milliseconds => [.lock, .perform (.setBusyTimeout milliseconds), .done .set]
  | request => [.lock, .perform request]

structure Call (Query : Type) where
  request : Request
  todo : List (Action Query)
  reply : Option (Reply Query) := none

/-- The fields, who has the lock, and the calls in the order in which they began. -/
structure State (Query : Type) where
  fields : Fields := {}
  owner : Option Nat := none
  calls : List (Call Query) := []

/-- A thread makes a call, or a call goes on. -/
inductive Op (Query : Type) where
  | call (request : Request)
  | step (call : Nat) (env : Env Query)

def advance (env : Env Query) (s : State Query) (id : Nat) (call : Call Query) : State Query :=
  match call.todo with
  | [] => s
  | .lock :: rest =>
      if s.owner = none then
        { s with owner := some id, calls := s.calls.set id { call with todo := rest } }
      else s
  | .unlock :: rest => { s with owner := none, calls := s.calls.set id { call with todo := rest } }
  | .perform request :: rest =>
      let (fields, left) := perform env s.fields request
      { s with fields := fields, calls := s.calls.set id { call with todo := left ++ rest } }
  | .readKey :: rest =>
      { s with calls := s.calls.set id { call with todo := readKeyRest s.fields ++ rest } }
  | .pragmaKey :: rest =>
      let (fields, left) := pragmaKeyRest env s.fields
      { s with fields := fields, calls := s.calls.set id { call with todo := left ++ rest } }
  | .done reply :: rest =>
      { s with calls := s.calls.set id { call with todo := rest, reply := some reply } }

def step (s : State Query) : Op Query → State Query
  | .call request => { s with calls := s.calls ++ [{ request := request, todo := request.todo }] }
  | .step id env =>
      match s.calls[id]? with
      | none => s
      | some call => advance env s id call

def after (ops : List (Op Query)) : State Query := run step {} ops

end

end SoulCoreKit.Storage.SqliteDatabase
