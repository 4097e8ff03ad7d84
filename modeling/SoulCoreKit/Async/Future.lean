import Mathlib.Logic.Function.Basic
import SoulCoreKit.Lib.Run

/-!
# Futures

The callbacks of one `sc::Future<T>`, under the steps of any number of threads. A registration takes
three steps, and other steps may come between them: it asks whether the future is finished, it enqueues
its callback under the lock, it makes sure that there is a watcher. `waitForFinished` and `result` act
when the future is finished; before that they block. Each swap of the lists leaves a batch with the
thread that made it, which invokes one callback after the other. The unprotected tests of `m_data` and
`m_watcher` are each taken as one step with what follows them.

A callback is known by an identity, one for each registration. `invoked` counts, and no step reads it.
-/

namespace SoulCoreKit.Async

/-- How the underlying future ends: `std::exception`, or something else that was thrown. -/
inductive FutureOutcome where
  | value
  | exception
  | unknownException
  deriving DecidableEq, Repr

def FutureOutcome.failed : FutureOutcome → Bool
  | .value => false
  | .exception | .unknownException => true

inductive CallbackKind where
  | success
  | failure
  deriving DecidableEq, Repr

/-- The callbacks: which list each belongs to, and whether it throws. -/
structure Callbacks (Id : Type) where
  kind : Id → CallbackKind
  throws : Id → Bool

/-- How far a registration is. -/
inductive Registration where
  | notCalled
  | checked
  | enqueued
  | returned
  deriving DecidableEq, Repr

inductive Watcher where
  | absent
  | watching
  | notified
  deriving DecidableEq, Repr

structure Future (Id : Type) where
  outcome : Option FutureOutcome := none
  successCallbacks : List Id := []
  failureCallbacks : List Id := []
  mWatcher : Watcher := .absent
  registration : Id → Registration := fun _ => .notCalled
  batches : List (List Id) := []
  invoked : Id → Nat := fun _ => 0

inductive FutureStep (Id : Type) where
  | finish (outcome : FutureOutcome)
  | check (callback : Id)
  | enqueue (callback : Id)
  | ensureWatcher (callback : Id)
  | notify
  | waitForFinished
  | result
  | invoke (batch : Nat)
  deriving DecidableEq

namespace Future

variable {Id : Type} [DecidableEq Id] (callbacks : Callbacks Id)

/-- The underlying future ends in the way that the callback is for. -/
def wanted (callback : Id) (outcome : FutureOutcome) : Bool :=
  match callbacks.kind callback with
  | .success => !outcome.failed
  | .failure => outcome.failed

def isFinished (future : Future Id) : Bool := future.outcome.isSome

def call (future : Future Id) (callback : Id) : Future Id :=
  { future with invoked := Function.update future.invoked callback (future.invoked callback + 1) }

/-- `executeCallbacksStatic` up to its loops. The result is a value, and the loop over the success
callbacks will run; or it throws, and the loop over the failure callbacks will run. -/
def executeCallbacksStatic (future : Future Id) (outcome : FutureOutcome) : Future Id :=
  { future with
    successCallbacks := []
    failureCallbacks := []
    batches := future.batches ++
      [if outcome.failed then future.failureCallbacks else future.successCallbacks] }

/-- The test of `onSuccess` and `onFailure`; where the future is finished, all of the call. -/
def check (future : Future Id) (callback : Id) : Future Id :=
  match future.outcome with
  | none => { future with registration := Function.update future.registration callback .checked }
  | some outcome =>
      let future := if wanted callbacks callback outcome then future.call callback else future
      { future with registration := Function.update future.registration callback .returned }

/-- The unprotected test of `m_data`, which makes the callback data where there is none, and the push
under the lock are one step. -/
def enqueue (future : Future Id) (callback : Id) : Future Id :=
  let future :=
    match callbacks.kind callback with
    | .success => { future with successCallbacks := future.successCallbacks ++ [callback] }
    | .failure => { future with failureCallbacks := future.failureCallbacks ++ [callback] }
  { future with registration := Function.update future.registration callback .enqueued }

def ensureWatcher (future : Future Id) (callback : Id) : Future Id :=
  { future with
    mWatcher := if future.mWatcher = .absent then .watching else future.mWatcher
    registration := Function.update future.registration callback .returned }

/-- The next callback of a batch. All callbacks of a loop are in one `try` block, or in none. -/
def invoke (future : Future Id) (batch : Nat) : Future Id :=
  match future.batches[batch]? with
  | some (callback :: rest) =>
      { future.call callback with
        batches := future.batches.set batch (if callbacks.throws callback then [] else rest) }
  | _ => future

/-- A step that cannot be taken changes nothing. -/
def step (future : Future Id) : FutureStep Id → Future Id
  | .finish outcome => if future.isFinished then future else { future with outcome := some outcome }
  | .check callback =>
      if future.registration callback = .notCalled then future.check callbacks callback else future
  | .enqueue callback =>
      if future.registration callback = .checked then future.enqueue callbacks callback else future
  | .ensureWatcher callback =>
      if future.registration callback = .enqueued then future.ensureWatcher callback else future
  | .notify =>
      match future.outcome, future.mWatcher with
      | some outcome, .watching => { future.executeCallbacksStatic outcome with mWatcher := .notified }
      | _, _ => future
  | .waitForFinished =>
      match future.outcome with
      | some outcome => future.executeCallbacksStatic outcome
      | none => future
  | .result =>
      match future.outcome with
      | some .value => future.executeCallbacksStatic .value
      | _ => future
  | .invoke batch => future.invoke callbacks batch

end Future

/-! ### Chains

`then` on a future that is finished calls its function at once. Otherwise it leaves a task to a pool of
threads that is kept for functions of that type. A task waits on its thread until the future it was made
for is finished. A pool takes its tasks in the order in which they were left. The values are all of one
type. -/

section Chains

variable {V E : Type}

/-- Work elsewhere, or `then` on an earlier future, with a function of the type `F`. -/
inductive Origin (V E : Type) where
  | async
  | chained (F parent : Nat) (func : V → Except E V)

structure ChainedFuture (V E : Type) where
  origin : Origin V E
  outcome : Option (Except E V) := none

/-- `s_thenPool`. -/
structure ThenPool where
  queue : List Nat := []
  running : List Nat := []

/-- The futures in the order in which they are made, and the pools with the tasks for some of them.
`called` tells for which the function has been called. -/
structure Chains (V E : Type) where
  maxThreadCount : Nat
  futures : List (ChainedFuture V E) := []
  thenPool : Nat → ThenPool := fun _ => {}
  called : List Nat := []

inductive ChainsLabel (V E : Type) where
  | async
  | finish (future : Nat) (outcome : Except E V)
  | chain (F parent : Nat) (func : V → Except E V)
  | startTask (F : Nat)
  | endTask (F task : Nat)

namespace Chains

variable (c : Chains V E)

def outcome? (future : Nat) : Option (Except E V) := c.futures[future]?.bind ChainedFuture.outcome

/-- The outcome of a future that has none yet. -/
def settle (future : Nat) (outcome : Except E V) : Chains V E :=
  { c with futures := c.futures.modify future fun f => { f with outcome := some outcome } }

/-- The function is called with a value; an exception is passed on. -/
def call (future : Nat) : Except E V → Chains V E
  | .ok _ => { c with called := c.called ++ [future] }
  | .error _ => c

def finish (future : Nat) (outcome : Except E V) : Chains V E :=
  match c.futures[future]? with
  | some ⟨.async, none⟩ => c.settle future outcome
  | _ => c

/-- `then`. -/
def chain (F parent : Nat) (func : V → Except E V) : Chains V E :=
  match c.futures[parent]? with
  | none => c
  | some ⟨_, some outcome⟩ =>
      { c.call c.futures.length outcome with
        futures := c.futures ++ [⟨.chained F parent func, some (outcome.bind func)⟩] }
  | some ⟨_, none⟩ =>
      let pool := c.thenPool F
      { c with
        futures := c.futures ++ [⟨.chained F parent func, none⟩]
        thenPool := Function.update c.thenPool F { pool with queue := pool.queue ++ [c.futures.length] } }

def startTask (F : Nat) : Chains V E :=
  let pool := c.thenPool F
  match pool.queue with
  | [] => c
  | task :: rest =>
      if pool.running.length < c.maxThreadCount then
        { c with
          thenPool := Function.update c.thenPool F { queue := rest, running := pool.running ++ [task] } }
      else
        c

/-- A task goes on when the future that it waits for is finished. -/
def endTask (F task : Nat) : Chains V E :=
  let pool := c.thenPool F
  if task ∈ pool.running then
    match c.futures[task]? with
    | some ⟨.chained _ parent func, none⟩ =>
        match c.outcome? parent with
        | some outcome =>
            { (c.call task outcome).settle task (outcome.bind func) with
              thenPool := Function.update c.thenPool F { pool with running := pool.running.erase task } }
        | none => c
    | _ => c
  else
    c

def step (c : Chains V E) : ChainsLabel V E → Chains V E
  | .async => { c with futures := c.futures ++ [⟨.async, none⟩] }
  | .finish future outcome => c.finish future outcome
  | .chain F parent func => c.chain F parent func
  | .startTask F => c.startTask F
  | .endTask F task => c.endTask F task

end Chains

end Chains

end SoulCoreKit.Async
