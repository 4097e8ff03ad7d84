import SoulCoreKit.Lib.Run

/-!
# The thread pool

`ThreadPool` with its workers running. A task is named by the number of tasks submitted before it. The
body of a method under `m_queueMutex` is one step; so is each access to `m_activeCount` outside it, and
the end of a task. A step that is not next for the thread it names changes nothing.

Beside the pool stand the tasks whose `start` call has returned and those that have finished, and for
every call of `waitForDone` the tasks that had been submitted when it was made.
-/

namespace SoulCoreKit.Async

abbrev Task := Nat

inductive Priority where
  | high
  | normal
  | low
  deriving DecidableEq, Repr

structure StarvationTask where
  task : Task
  starvationCount : Nat := 0
  deriving DecidableEq, Repr

def kStarvationThreshold : Nat := 10

structure ThreadPool where
  mHighQueue : List Task := []
  mNormalQueue : List Task := []
  mLowQueue : List StarvationTask := []
  mActiveCount : Int := 0
  deriving DecidableEq, Repr

namespace ThreadPool

variable (p : ThreadPool)

/-- `start` under the lock. -/
def start (task : Task) : Priority → ThreadPool
  | .high => { p with mHighQueue := p.mHighQueue ++ [task] }
  | .normal => { p with mNormalQueue := p.mNormalQueue ++ [task] }
  | .low => { p with mLowQueue := p.mLowQueue ++ [{ task }] }

/-- `dequeueTask` once there is something in the queues; until then it waits. Both branches on the
starvation count take the task at the front. -/
def dequeueTask : Option (Task × ThreadPool) :=
  match p.mHighQueue, p.mNormalQueue, p.mLowQueue with
  | task :: rest, _, _ => some (task, { p with mHighQueue := rest })
  | [], task :: rest, _ => some (task, { p with mNormalQueue := rest })
  | [], [], st :: rest =>
      let st := { st with starvationCount := st.starvationCount + 1 }
      if st.starvationCount ≥ kStarvationThreshold then
        some (st.task, { p with mLowQueue := rest })
      else
        some (st.task, { p with mLowQueue := rest })
  | [], [], [] => none

/-- The test of `waitForDone` under the lock. -/
def isDone : Bool :=
  p.mHighQueue.isEmpty && p.mNormalQueue.isEmpty && p.mLowQueue.isEmpty && p.mActiveCount = 0

def queued : List Task := p.mHighQueue ++ p.mNormalQueue ++ p.mLowQueue.map StarvationTask.task

/-- The tasks of a priority that wait. -/
def queue : Priority → List Task
  | .high => p.mHighQueue
  | .normal => p.mNormalQueue
  | .low => p.mLowQueue.map StarvationTask.task

end ThreadPool

/-! ### The threads -/

/-- Where a worker stands in `workerLoop`: at `dequeueTask`, before the increment of `m_activeCount`,
in the task, before the decrement. -/
inductive Worker where
  | idle
  | dequeued (task : Task)
  | running (task : Task)
  | returned (task : Task)
  deriving DecidableEq, Repr

inductive PoolStep where
  | start (priority : Priority)
  | startReturns (task : Task)
  | dequeue (worker : Nat)
  | increment (worker : Nat)
  | finish (worker : Nat)
  | decrement (worker : Nat)
  | waitForDone (caller : Nat)
  | check (caller : Nat)
  | giveUp (caller : Nat)
  deriving DecidableEq, Repr

structure PoolRun where
  pool : ThreadPool := {}
  workers : List Worker
  submitted : Nat := 0
  accepted : List Task := []
  finished : List Task := []
  waits : List (Nat × List Task) := []
  deriving DecidableEq, Repr

namespace PoolRun

variable (s : PoolRun)

/-- `waitForDone` returns to its caller. -/
def leave (caller : Nat) : PoolRun := { s with waits := s.waits.filter fun wait => wait.1 ≠ caller }

def dequeue (worker : Nat) : PoolRun :=
  match s.workers[worker]?, s.pool.dequeueTask with
  | some .idle, some (task, pool) =>
      { s with pool, workers := s.workers.set worker (.dequeued task) }
  | _, _ => s

/-- `m_activeCount.fetch_add(1)`. -/
def increment (worker : Nat) : PoolRun :=
  match s.workers[worker]? with
  | some (.dequeued task) =>
      { s with
        pool := { s.pool with mActiveCount := s.pool.mActiveCount + 1 }
        workers := s.workers.set worker (.running task) }
  | _ => s

/-- The task returns. -/
def finish (worker : Nat) : PoolRun :=
  match s.workers[worker]? with
  | some (.running task) =>
      { s with
        finished := s.finished ++ [task]
        workers := s.workers.set worker (.returned task) }
  | _ => s

/-- `m_activeCount.fetch_sub(1)`. -/
def decrement (worker : Nat) : PoolRun :=
  match s.workers[worker]? with
  | some (.returned _) =>
      { s with
        pool := { s.pool with mActiveCount := s.pool.mActiveCount - 1 }
        workers := s.workers.set worker .idle }
  | _ => s

def step (s : PoolRun) : PoolStep → PoolRun
  | .start priority =>
      { s with pool := s.pool.start s.submitted priority, submitted := s.submitted + 1 }
  | .startReturns task =>
      if task < s.submitted then { s with accepted := s.accepted ++ [task] } else s
  | .dequeue worker => s.dequeue worker
  | .increment worker => s.increment worker
  | .finish worker => s.finish worker
  | .decrement worker => s.decrement worker
  | .waitForDone caller =>
      if (s.waits.lookup caller).isSome then s
      else { s with waits := s.waits ++ [(caller, s.accepted)] }
  | .check caller => if s.pool.isDone then s.leave caller else s
  | .giveUp caller => s.leave caller

/-- A pool that was just initialised, with at least one worker. -/
def init (otherWorkers : Nat) : PoolRun := { workers := List.replicate (otherWorkers + 1) .idle }

/-- Where `waitForDone` returns true, the tasks submitted before its call have finished. -/
def WaitsForTasks : PoolStep → Prop
  | .check caller =>
      s.pool.isDone = true → ∀ tasks ∈ s.waits.lookup caller, ∀ task ∈ tasks, task ∈ s.finished
  | _ => True

instance : ∀ label, Decidable (s.WaitsForTasks label)
  | .check _ => inferInstanceAs (Decidable (_ → ∀ _ ∈ _, ∀ _ ∈ _, _))
  | .start _ | .startReturns _ | .dequeue _ | .increment _ | .finish _ | .decrement _
  | .waitForDone _ | .giveUp _ => isTrue trivial

end PoolRun

/-! ### The order of the tasks -/

/-- The calls that the lock lets in one after the other. A `dequeueTask` that finds nothing waits, and
changes nothing. -/
inductive QueueStep where
  | start (priority : Priority)
  | dequeue
  deriving DecidableEq, Repr

/-- `submitted` are the priorities of the tasks, by their names, and `returned` the tasks that
`dequeueTask` has returned. -/
structure QueueRun where
  pool : ThreadPool := {}
  submitted : List Priority := []
  returned : List Task := []
  deriving DecidableEq, Repr

namespace QueueRun

def step (s : QueueRun) : QueueStep → QueueRun
  | .start priority =>
      { s with pool := s.pool.start s.submitted.length priority, submitted := s.submitted ++ [priority] }
  | .dequeue =>
      match s.pool.dequeueTask with
      | some (task, pool) => { s with pool, returned := s.returned ++ [task] }
      | none => s

end QueueRun

/-! ### The life of the workers

From `init` to the end of `shutdown`, with any number of threads that call `start`. The wait of
`dequeueTask` is two steps: a worker that has found the predicate false keeps the lock until it waits, and
what notifies before that does not reach it. `shutdown` writes `m_running` and notifies without the lock. -/

/-- Where a worker stands: at the test of `workerLoop`; in `dequeueTask`, before it has the lock; there, with
the lock, having found nothing to do; in the wait; in a task; after the loop. -/
inductive WorkerPlace where
  | looping
  | entering
  | tested
  | waiting
  | running (task : Task)
  | exited
  deriving DecidableEq, Repr

/-- `notify_all` reaches the worker if it waits. -/
def WorkerPlace.notified : WorkerPlace → WorkerPlace
  | .waiting => .entering
  | place => place

/-- The latest that `shutdown` has done: nothing, the store, the notification, the move of `m_workers`, the
joins. -/
inductive ShutdownPlace where
  | notCalled
  | stored
  | notified
  | joining
  | joined
  deriving DecidableEq, Repr

/-- One cycle from `init` to `shutdown`; a second `init` is left out. `starting` are the calls of `start` that
have found workers and have not enqueued their task, `notifying` the number of those that have, and are still
to notify. Without workers a task goes to the pool of Qt, where it is not followed further: `delegated`. -/
structure PoolLife where
  mRunning : Bool := true
  pool : ThreadPool := {}
  workers : List WorkerPlace
  mShutdown : ShutdownPlace := .notCalled
  submitted : Nat := 0
  starting : List (Task × Priority) := []
  notifying : Nat := 0
  delegated : List Task := []
  finished : List Task := []
  deriving DecidableEq, Repr

inductive LifeStep where
  | start (priority : Priority)
  | enqueue (task : Task)
  | notifyOne (worker : Nat)
  | test (worker : Nat)
  | dequeue (worker : Nat)
  | wait (worker : Nat)
  | wake (worker : Nat)
  | finish (worker : Nat)
  | store
  | notifyAll
  | takeWorkers
  | join
  deriving DecidableEq, Repr

namespace PoolLife

variable (s : PoolLife)

def isLocked : Bool := s.workers.any (· = .tested)

/-- `m_workers.empty()`. -/
def hasNoWorkers : Bool :=
  s.workers.isEmpty || s.mShutdown = .joining || s.mShutdown = .joined

def start (priority : Priority) : PoolLife :=
  if s.isLocked then
    s
  else if s.hasNoWorkers then
    { s with delegated := s.delegated ++ [s.submitted], submitted := s.submitted + 1 }
  else
    { s with starting := s.starting ++ [(s.submitted, priority)], submitted := s.submitted + 1 }

def enqueue (task : Task) : PoolLife :=
  match s.starting.lookup task with
  | none => s
  | some priority =>
      if s.isLocked then
        s
      else
        { s with
          pool := s.pool.start task priority
          starting := s.starting.filter fun call => call.1 ≠ task
          notifying := s.notifying + 1 }

/-- `notify_one` wakes a worker that waits, whichever, if there is one. -/
def notifyOne (worker : Nat) : PoolLife :=
  if s.notifying = 0 then
    s
  else
    match s.workers[worker]? with
    | some .waiting =>
        { s with workers := s.workers.set worker .entering, notifying := s.notifying - 1 }
    | _ => if s.workers.any (· = .waiting) then s else { s with notifying := s.notifying - 1 }

/-- The worker goes from one place to another. -/
def move (worker : Nat) (source target : WorkerPlace) : PoolLife :=
  if s.workers[worker]? = some source then { s with workers := s.workers.set worker target } else s

/-- `dequeueTask` under the lock, up to its end or the wait. -/
def dequeue (worker : Nat) : PoolLife :=
  if s.isLocked then
    s
  else if ¬ s.mRunning then
    s.move worker .entering .looping
  else
    match s.workers[worker]?, s.pool.dequeueTask with
    | some .entering, some (task, pool) =>
        { s with pool, workers := s.workers.set worker (.running task) }
    | _, _ => s.move worker .entering .tested

/-- The task returns. -/
def finish (worker : Nat) : PoolLife :=
  match s.workers[worker]? with
  | some (.running task) =>
      { s with workers := s.workers.set worker .looping, finished := s.finished ++ [task] }
  | _ => s

def step (s : PoolLife) : LifeStep → PoolLife
  | .start priority => s.start priority
  | .enqueue task => s.enqueue task
  | .notifyOne worker => s.notifyOne worker
  | .test worker => s.move worker .looping (if s.mRunning then .entering else .exited)
  | .dequeue worker => s.dequeue worker
  | .wait worker => s.move worker .tested .waiting
  | .wake worker => s.move worker .waiting .entering
  | .finish worker => s.finish worker
  | .store => if s.mShutdown = .notCalled then { s with mRunning := false, mShutdown := .stored } else s
  | .notifyAll =>
      if s.mShutdown = .stored then
        { s with workers := s.workers.map WorkerPlace.notified, mShutdown := .notified }
      else
        s
  | .takeWorkers => if s.mShutdown = .notified ∧ ¬ s.isLocked then { s with mShutdown := .joining } else s
  | .join =>
      if s.mShutdown = .joining ∧ s.workers.all (· = .exited) then { s with mShutdown := .joined } else s

/-- A pool that was just initialised, after some steps. -/
def after (workers : Nat) (labels : List LifeStep) : PoolLife :=
  run step { workers := List.replicate workers .looping } labels

end PoolLife

end SoulCoreKit.Async
