import Mathlib.Data.Finmap

/-!
# Results and errors

`sc::Result<T>` holds a value or an `sc::Error`. The cause chain of an error is left out: no
modelled function sets one.
-/

namespace SoulCoreKit

inductive ErrorCode where
  | ok
  | unknown
  | notFound
  | alreadyExists
  | invalidArgument
  | invalidState
  | permissionDenied
  | unauthorized
  | authError
  | tokenExpired
  | networkError
  | timeout
  | connectionRefused
  | sslHandshakeFailed
  | notConnected
  | parseError
  | serializationError
  | deserializationError
  | databaseError
  | queryFailed
  | constraintViolation
  | resourceExhausted
  | fileError
  | fileNotFound
  | fileReadError
  | fileWriteError
  | internalError
  | notImplemented
  | outOfMemory
  deriving DecidableEq, Repr

structure Error where
  code : ErrorCode
  message : String
  deriving DecidableEq, Repr

abbrev Result (T : Type) := Except Error T

end SoulCoreKit
