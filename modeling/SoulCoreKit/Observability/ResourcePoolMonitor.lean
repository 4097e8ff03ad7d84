import SoulCoreKit.Lib.UnorderedMap

/-!
# The collector of pool metrics

`ResourcePoolMetricsCollector::start`, `stop` and `runLoop` in any number of threads. Each access to one of
the two flags is a step of its own, and so are taking the mutex, a `join` that comes back, and the start of a
thread.

The workers are numbered as they are started. What a worker collects and how long it sleeps are left out.
-/

namespace SoulCoreKit.Observability

/-- Where a call stands: what it does next. -/
inductive CollectorPoint where
  | clearFlag
  | lockToStart
  | joinLast
  | spawn
  | raiseFlag
  | lockToStop
  | join
  deriving DecidableEq, Repr

structure ResourcePoolMetricsCollector where
  mRunning : Bool := false
  mStopFlag : Bool := false
  mThreadMutex : Option Nat := none
  mThread : Option Nat := none
  alive : List Nat := []
  started : Nat := 0
  calls : UnorderedMap Nat CollectorPoint := ∅
  deriving DecidableEq

/-- A thread begins a call or goes on with it; a worker looks at the flag. -/
inductive CollectorLabel where
  | start (thread : Nat)
  | stop (thread : Nat)
  | advance (thread : Nat)
  | check (worker : Nat)
  deriving DecidableEq, Repr

namespace ResourcePoolMetricsCollector

variable (c : ResourcePoolMetricsCollector)

def isRunning : Bool := c.mRunning

def goTo (thread : Nat) (point : CollectorPoint) : ResourcePoolMetricsCollector :=
  { c with calls := c.calls.insert thread point }

/-- Up to the exchange of `m_running`; where it fails the call returns. -/
def start (thread : Nat) : ResourcePoolMetricsCollector :=
  if c.mRunning = false then { c with mRunning := true }.goTo thread .clearFlag else c

def stop (thread : Nat) : ResourcePoolMetricsCollector :=
  if c.mRunning = true then { c with mRunning := false }.goTo thread .raiseFlag else c

/-- The call returns, and with it goes the `lock_guard`. -/
def finish (thread : Nat) : ResourcePoolMetricsCollector :=
  { c with mThreadMutex := none, calls := c.calls.erase thread }

/-- `m_thread.join()` does not come back as long as the worker is alive. -/
def joinBlocks : Bool := c.mThread.any (· ∈ c.alive)

def lock (thread : Nat) (point : CollectorPoint) : ResourcePoolMetricsCollector :=
  if c.mThreadMutex = none then { c with mThreadMutex := some thread }.goTo thread point else c

/-- The next step of a call. -/
def advance (thread : Nat) : CollectorPoint → ResourcePoolMetricsCollector
  | .clearFlag => { c with mStopFlag := false }.goTo thread .lockToStart
  | .lockToStart => c.lock thread .joinLast
  | .joinLast => if c.joinBlocks then c else { c with mThread := none }.goTo thread .spawn
  | .spawn =>
      { c with
        mThread := some c.started
        alive := c.started :: c.alive
        started := c.started + 1 }.finish thread
  | .raiseFlag => { c with mStopFlag := true }.goTo thread .lockToStop
  | .lockToStop => c.lock thread .join
  | .join => if c.joinBlocks then c else { c with mThread := none }.finish thread

/-- The condition of the loop in `runLoop`. -/
def check (worker : Nat) : ResourcePoolMetricsCollector :=
  if c.mStopFlag then { c with alive := c.alive.erase worker } else c

def step (c : ResourcePoolMetricsCollector) : CollectorLabel → ResourcePoolMetricsCollector
  | .start thread => if c.calls.lookup thread = none then c.start thread else c
  | .stop thread => if c.calls.lookup thread = none then c.stop thread else c
  | .advance thread =>
      match c.calls.lookup thread with
      | none => c
      | some point => c.advance thread point
  | .check worker => c.check worker

end ResourcePoolMetricsCollector

end SoulCoreKit.Observability
