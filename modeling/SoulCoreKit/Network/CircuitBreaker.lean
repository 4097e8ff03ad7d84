import Mathlib.Algebra.Order.Ring.Int
import Mathlib.Data.List.Basic
import Mathlib.Logic.Function.Basic
import SoulCoreKit.Core.Result

/-!
# The circuit breaker

`network::CircuitBreaker`, each method as it runs alone. Times are readings of the steady clock in
nanoseconds; one reading stands for all that a method makes. The state changes that are logged and told
to the callback are kept in `changes`.
-/

namespace SoulCoreKit.Network

inductive CircuitBreakerState where
  | closed
  | opened
  | halfOpen
  deriving DecidableEq, Repr

structure CircuitBreakerConfig where
  failureThreshold : Int := 5
  resetTimeoutMs : Int := 30000
  halfOpenMaxCalls : Int := 3
  windowDurationMs : Int := 60000
  deriving DecidableEq, Repr

structure CircuitBreaker where
  mConfig : CircuitBreakerConfig := {}
  mState : CircuitBreakerState := .closed
  mFailureCount : Int := 0
  mHalfOpenCalls : Int := 0
  mFailureTimestamps : List Int := []
  mOpenedAt : Int := 0
  changes : List (CircuitBreakerState × CircuitBreakerState) := []
  deriving DecidableEq, Repr

/-- `duration_cast<milliseconds>(now - since).count()`, which rounds towards zero. -/
def elapsedMs (now since : Int) : Int := (now - since).tdiv 1000000

namespace CircuitBreaker

variable (b : CircuitBreaker) (now : Int)

def transitionTo (newState : CircuitBreakerState) : CircuitBreaker :=
  if b.mState = newState then
    b
  else
    { b with
      mState := newState
      mOpenedAt := if newState = .opened then now else b.mOpenedAt
      changes := b.changes ++ [(b.mState, newState)] }

@[simp]
theorem mState_transitionTo (newState : CircuitBreakerState) :
    (b.transitionTo now newState).mState = newState := by
  unfold transitionTo
  split
  · assumption
  · rfl

@[simp]
theorem mHalfOpenCalls_transitionTo (newState : CircuitBreakerState) :
    (b.transitionTo now newState).mHalfOpenCalls = b.mHalfOpenCalls := by
  unfold transitionTo
  split <;> rfl

@[simp]
theorem mConfig_transitionTo (newState : CircuitBreakerState) :
    (b.transitionTo now newState).mConfig = b.mConfig := by
  unfold transitionTo
  split <;> rfl

def pruneExpiredFailures : CircuitBreaker :=
  let kept := b.mFailureTimestamps.dropWhile fun time =>
    elapsedMs now time ≥ b.mConfig.windowDurationMs
  { b with mFailureTimestamps := kept, mFailureCount := kept.length }

def clearFailures : CircuitBreaker := { b with mFailureTimestamps := [], mFailureCount := 0 }

/-- Run alone, the loop of the half-open branch ends with the first exchange that does not fail
spuriously. -/
def allowRequest : Bool × CircuitBreaker :=
  match b.mState with
  | .closed => (true, b)
  | .opened =>
      if elapsedMs now b.mOpenedAt ≥ b.mConfig.resetTimeoutMs then
        let b := { b with mHalfOpenCalls := 0 }.transitionTo now .halfOpen
        (true, { b with mHalfOpenCalls := b.mHalfOpenCalls + 1 })
      else
        (false, b)
  | .halfOpen =>
      if b.mHalfOpenCalls < b.mConfig.halfOpenMaxCalls then
        (true, { b with mHalfOpenCalls := b.mHalfOpenCalls + 1 })
      else
        (false, b)

@[simp]
theorem mConfig_allowRequest : (b.allowRequest now).2.mConfig = b.mConfig := by
  unfold allowRequest
  split
  · rfl
  · split
    · exact mConfig_transitionTo _ _ _
    · rfl
  · split <;> rfl

def onSuccess : CircuitBreaker :=
  match b.mState with
  | .halfOpen =>
      let b := { b with mHalfOpenCalls := b.mHalfOpenCalls - 1 }
      if b.mHalfOpenCalls ≤ 0 then b.clearFailures.transitionTo now .closed else b
  | .closed => b.clearFailures
  | .opened => b

@[simp]
theorem mConfig_onSuccess : (b.onSuccess now).mConfig = b.mConfig := by
  unfold onSuccess
  split
  · simp only
    split
    · exact mConfig_transitionTo _ _ _
    · rfl
  · rfl
  · rfl

/-- `onFailure` up to its switch. -/
def recordFailure : CircuitBreaker :=
  { b with mFailureTimestamps := b.mFailureTimestamps ++ [now] }.pruneExpiredFailures now

def onFailure : CircuitBreaker :=
  let b := b.recordFailure now
  match b.mState with
  | .closed => if b.mFailureCount ≥ b.mConfig.failureThreshold then b.transitionTo now .opened else b
  | .halfOpen => { b with mHalfOpenCalls := 0 }.transitionTo now .opened
  | .opened => b

@[simp]
theorem mConfig_onFailure : (b.onFailure now).mConfig = b.mConfig := by
  unfold onFailure
  simp only
  split
  · split
    · exact mConfig_transitionTo _ _ _
    · rfl
  · exact mConfig_transitionTo _ _ _
  · rfl

def reset : CircuitBreaker := { b.clearFailures with mHalfOpenCalls := 0 }.transitionTo now .closed

def forceOpen : CircuitBreaker := b.transitionTo now .opened

end CircuitBreaker

/-- How the function of a call ends. -/
inductive CallEnding (T : Type) where
  | returned (result : Result T)
  | threw
  deriving Repr

/-- The wrapper of a function that ends this way after the duration, for the breaker of the name. -/
def CircuitBreaker.call {T : Type} (b : CircuitBreaker) (name : String) (now : Int)
    (func : CallEnding T) (duration : Nat) : CallEnding T × CircuitBreaker :=
  match b.allowRequest now with
  | (false, b) =>
      (.returned (.error ⟨.resourceExhausted, "CircuitBreaker '" ++ name ++ "' is OPEN"⟩), b)
  | (true, b) =>
      match func with
      | .returned (.ok value) => (.returned (.ok value), b.onSuccess (now + duration))
      | .returned (.error e) => (.returned (.error e), b.onFailure (now + duration))
      | .threw => (.threw, b)

end SoulCoreKit.Network

/-!
### The breaker under threads

`allowRequest`, `onSuccess` and `onFailure` as their atomic accesses, interleaved. The state changes
under the lock only, so in a locked section the reading of the state and the access that follows are one
step; the counter also moves without the lock, and each access to it is a step of its own. A thread in
its locked section is the owner of the lock, with what it has still to do; the others have a place of
their own. A step that a thread cannot make leaves everything as it is.
-/

namespace SoulCoreKit.Network

/-- Where a thread is outside the lock: in no method, or in `allowRequest`. -/
inductive Place where
  | idle
  | openSeen
  | openTimed (now : Int)
  | halfOpenSeen
  | halfOpenLoaded (expected : Int)
  deriving DecidableEq, Repr

/-- What the owner of the lock has done: set the counter to zero, moved to half-open, lowered the counter
to zero after a success, or set it to zero after a failure. -/
inductive Section where
  | openCleared
  | openMoved
  | successLowered
  | failureCleared
  deriving DecidableEq, Repr

/-- A step of a thread, or the clock. `spurious` is a weak exchange that fails although the counter is as
expected. -/
inductive Label where
  | allowRequest (thread : Nat)
  | proceed (thread : Nat)
  | spurious (thread : Nat)
  | onSuccess (thread call : Nat)
  | onFailure (thread call : Nat)
  | advance (time : Nat)
  deriving DecidableEq, Repr

/-- Calls are named in the order of their admission. `outstanding` are those admitted in the current
half-open episode that have not reported. -/
structure Threads where
  breaker : CircuitBreaker
  now : Int
  places : Nat → Place := fun _ => .idle
  lock : Option (Nat × Section) := none
  calls : Nat := 0
  outstanding : List Nat := []

namespace Threads

variable (s : Threads) (thread : Nat)

def moveTo (place : Place) : Threads := { s with places := Function.update s.places thread place }

/-- The thread is in no method. -/
def isFree : Prop := s.places thread = .idle ∧ s.lock.map Prod.fst ≠ some thread

instance : Decidable (s.isFree thread) := inferInstanceAs (Decidable (_ ∧ _))

/-- `allowRequest` returns true. -/
def admitted : Threads :=
  { s with
    calls := s.calls + 1
    outstanding :=
      if s.breaker.mState = .halfOpen then s.outstanding ++ [s.calls] else s.outstanding }

/-- A call reports. -/
def complete (call : Nat) : Threads := { s with outstanding := s.outstanding.erase call }

/-- The reading of the state. -/
def allowRequest : Threads :=
  match s.breaker.mState with
  | .closed => s.admitted
  | .opened => s.moveTo thread .openSeen
  | .halfOpen => s.moveTo thread .halfOpenSeen

/-- The lock of the open branch, with the clock read before. -/
def enterOpen (now : Int) : Threads :=
  let s := s.moveTo thread .idle
  if elapsedMs now s.breaker.mOpenedAt ≥ s.breaker.mConfig.resetTimeoutMs then
    { s with breaker.mHalfOpenCalls := 0, lock := some (thread, .openCleared) }
  else
    s

/-- The strong outcomes of `compare_exchange_weak`, and the end of the loop. -/
def exchange (expected : Int) : Threads :=
  if expected < s.breaker.mConfig.halfOpenMaxCalls then
    if s.breaker.mHalfOpenCalls = expected then
      { s with breaker.mHalfOpenCalls := expected + 1 }.admitted.moveTo thread .idle
    else
      s.moveTo thread (.halfOpenLoaded s.breaker.mHalfOpenCalls)
  else
    s.moveTo thread .idle

/-- The next access of a thread that does not own the lock. -/
def proceedOutside : Threads :=
  match s.places thread with
  | .idle => s
  | .openSeen => s.moveTo thread (.openTimed s.now)
  | .openTimed now => if s.lock.isSome then s else s.enterOpen thread now
  | .halfOpenSeen => s.moveTo thread (.halfOpenLoaded s.breaker.mHalfOpenCalls)
  | .halfOpenLoaded expected => s.exchange thread expected

/-- The next access of the owner of the lock. A change to half-open begins an episode. -/
def proceedInside (owner : Nat) : Section → Threads
  | .openCleared =>
      { s with
        breaker := s.breaker.transitionTo s.now .halfOpen
        outstanding := if s.breaker.mState = .halfOpen then s.outstanding else []
        lock := some (owner, .openMoved) }
  | .openMoved =>
      { s with breaker.mHalfOpenCalls := s.breaker.mHalfOpenCalls + 1, lock := none }.admitted
  | .successLowered =>
      { s with breaker := s.breaker.clearFailures.transitionTo s.now .closed, lock := none }
  | .failureCleared =>
      { s with breaker := s.breaker.transitionTo s.now .opened, lock := none }

def proceed : Threads :=
  match s.lock with
  | none => s.proceedOutside thread
  | some (owner, done) => if owner = thread then s.proceedInside owner done else s.proceedOutside thread

def onSuccess (call : Nat) : Threads :=
  let s := s.complete call
  match s.breaker.mState with
  | .halfOpen =>
      let s := { s with breaker.mHalfOpenCalls := s.breaker.mHalfOpenCalls - 1 }
      if s.breaker.mHalfOpenCalls ≤ 0 then { s with lock := some (thread, .successLowered) } else s
  | .closed => { s with breaker := s.breaker.clearFailures }
  | .opened => s

def onFailure (call : Nat) : Threads :=
  let s := { s.complete call with breaker := s.breaker.recordFailure s.now }
  match s.breaker.mState with
  | .closed =>
      if s.breaker.mFailureCount ≥ s.breaker.mConfig.failureThreshold then
        { s with breaker := s.breaker.transitionTo s.now .opened }
      else
        s
  | .halfOpen => { s with breaker.mHalfOpenCalls := 0, lock := some (thread, .failureCleared) }
  | .opened => s

def spurious : Threads :=
  match s.places thread with
  | .halfOpenLoaded expected =>
      if expected < s.breaker.mConfig.halfOpenMaxCalls then
        s.moveTo thread (.halfOpenLoaded s.breaker.mHalfOpenCalls)
      else
        s
  | _ => s

def step (s : Threads) : Label → Threads
  | .allowRequest thread => if s.isFree thread then s.allowRequest thread else s
  | .proceed thread => s.proceed thread
  | .spurious thread => s.spurious thread
  | .onSuccess thread call =>
      if s.isFree thread ∧ s.lock = none then s.onSuccess thread call else s
  | .onFailure thread call =>
      if s.isFree thread ∧ s.lock = none then s.onFailure thread call else s
  | .advance time => { s with now := s.now + time }

/-- A breaker as it is constructed, with all threads idle. -/
def start (config : CircuitBreakerConfig) (now : Int) : Threads :=
  { breaker := { mConfig := config }, now }

end Threads

end SoulCoreKit.Network
