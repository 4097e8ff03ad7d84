import Mathlib.Logic.Function.Basic
import SoulCoreKit.Lib.Run
import SoulCoreKit.Scheduler.ScheduledTask

/-!
# The life of a scheduled task

`start`, `stop`, `triggerNow` and `onTimerTick` of a `ScheduledTask` on one thread, with the single-shot
`m_timer`. What a callback does is the list of the calls on its own task, and the time at which it returns
or that it throws. A task without a callback is one whose callback returns at once.

`accepts` tells of an interval whether `QTimer::start` starts the timer with it. Not every version of Qt
does with a negative one.

`Scheduler` holds tasks by their names, and starts and stops them.
-/

namespace SoulCoreKit.Scheduler

/-- A call on the task. `returned` is the time at which the callback returns, `none` where it throws. -/
inductive Call where
  | start (now : QDateTime)
  | stop
  | triggerNow (callback : List Call) (returned : Option QDateTime)

/-- A call from outside, or the timer fires; `now` is the time at which the tick schedules the next one. -/
inductive TaskEvent where
  | call (call : Call)
  | timerTick (callback : List Call) (returned : Option QDateTime) (now : QDateTime)

/-- `armed` is `m_timer->isActive()`, and `runs` tells of each run of the callback whether it returned. -/
structure TaskRun where
  mRunning : Bool := false
  mExecuting : Bool := false
  mExecutionCount : Nat := 0
  mLastExecutionTime : Option QDateTime := none
  armed : Bool := false
  runs : List Bool := []
  deriving DecidableEq, Repr

namespace TaskRun

variable (accepts : Int → Bool) (task : ScheduledTask) (s : TaskRun)

/-- The timer that runs is stopped by `QTimer::start` even where it does not start it again. The other case
is a return, or what `std::stoi` throws; neither comes to the timer. -/
def scheduleNext (now : QDateTime) : TaskRun :=
  match task.scheduleNext now with
  | .ok (some nextIntervalMs) => { s with armed := accepts nextIntervalMs }
  | _ => s

def start (now : QDateTime) : TaskRun :=
  if s.mRunning then s else scheduleNext accepts task { s with mRunning := true } now

def stop : TaskRun := { s with mRunning := false, armed := false }

/-- The end of `triggerNow`, after the callback. -/
def executed : Option QDateTime → TaskRun
  | none => { s with mExecuting := false, runs := s.runs ++ [false] }
  | some now =>
      { s with
        mExecutionCount := s.mExecutionCount + 1
        mLastExecutionTime := some now
        mExecuting := false
        runs := s.runs ++ [true] }

mutual

/-- A call, with whether it threw. -/
def exec (s : TaskRun) : Call → TaskRun × Bool
  | .start now => (s.start accepts task now, false)
  | .stop => (s.stop, false)
  | .triggerNow callback returned =>
      if s.mExecuting then
        (s, false)
      else
        ((execAll { s with mExecuting := true } callback).executed returned, returned.isNone)

/-- The calls that a callback makes; what they throw it may have caught. -/
def execAll (s : TaskRun) : List Call → TaskRun
  | [] => s
  | call :: rest => execAll (exec s call).1 rest

end

/-- The timer fires, being a single shot only once. -/
def onTimerTick (callback : List Call) (returned : Option QDateTime) (now : QDateTime) : TaskRun :=
  let s := { s with armed := false }
  if s.mRunning then
    match exec accepts task s (.triggerNow callback returned) with
    | (s, true) => s
    | (s, false) => if s.mRunning then s.scheduleNext accepts task now else s
  else
    s

/-- A timer that is not armed does not fire. -/
def step (s : TaskRun) : TaskEvent → TaskRun
  | .call call => (exec accepts task s call).1
  | .timerTick callback returned now =>
      if s.armed then s.onTimerTick accepts task callback returned now else s

/-- The states that the callback finds and leaves between its calls. -/
def during : TaskEvent → List TaskRun
  | .call (.triggerNow callback _) =>
      callback.inits.map (execAll accepts task { s with mExecuting := true })
  | .call _ => []
  | .timerTick callback _ _ =>
      if s.armed && s.mRunning then
        callback.inits.map (execAll accepts task { s with mExecuting := true, armed := false })
      else
        []

end TaskRun

/-! ### The scheduler

A task is named by a number, and `name` has its `m_name`. Others may hold a task that the scheduler holds,
and call it. A callback calls the scheduler and any task, its own among them. All of it runs on one thread.
What a slot on a signal of the scheduler calls is left out: the signals are sent under the lock, so a call
back would wait for itself. Slots on the signals of a task are left out as well. -/

section

set_option linter.dupNamespace false

/-- A call on the scheduler, or on a task by another who holds it. `now` is the time at which a task is
scheduled. -/
inductive SchedulerCall where
  | addTask (task : Option Nat)
  | removeTask (name : String)
  | startAll (now : Nat → QDateTime)
  | stopAll
  | startTask (name : String) (now : QDateTime)
  | stopTask (name : String)
  | start (task : Nat) (now : QDateTime)
  | stop (task : Nat)
  | triggerNow (task : Nat) (callback : List SchedulerCall) (returned : Option QDateTime)

inductive SchedulerEvent where
  | call (call : SchedulerCall)
  | timerTick (task : Nat) (callback : List SchedulerCall) (returned : Option QDateTime) (now : QDateTime)

/-- `tasks` has the tasks in the scheduler and out of it, and `held` those that another has started and that
were not stopped since. -/
structure Scheduler where
  mTasks : List Nat := []
  tasks : Nat → TaskRun := fun _ => {}
  held : List Nat := []

namespace Scheduler

variable (accepts : Int → Bool) (name : Nat → String) (task : Nat → ScheduledTask) (s : Scheduler)

def update (id : Nat) (run : TaskRun) : Scheduler := { s with tasks := Function.update s.tasks id run }

/-- `start` of a task, with whether `std::stoi` threw in it. -/
def startOne (id : Nat) (now : QDateTime) : Scheduler × Bool :=
  (s.update id ((s.tasks id).start accepts (task id) now),
    !(s.tasks id).mRunning && !((task id).scheduleNext now).isOk)

def stopOne (id : Nat) : Scheduler := { s.update id (s.tasks id).stop with held := s.held.filter (· ≠ id) }

/-- The place of the task of a name. -/
def find (wanted : String) : Option Nat := s.mTasks.findIdx? fun id => name id = wanted

def addTask (id : Nat) : Scheduler :=
  match s.find name (name id) with
  | some place => { s.stopOne (s.mTasks.getD place 0) with mTasks := s.mTasks.set place id }
  | none => { s with mTasks := s.mTasks ++ [id] }

def removeTask (wanted : String) : Scheduler :=
  match s.find name wanted with
  | some place => { s.stopOne (s.mTasks.getD place 0) with mTasks := s.mTasks.eraseIdx place }
  | none => s

/-- The loop of `startAll`, which an exception leaves. -/
def startEach (now : Nat → QDateTime) (s : Scheduler) : List Nat → Scheduler × Bool
  | [] => (s, false)
  | id :: rest =>
      match s.startOne accepts task id (now id) with
      | (s, true) => (s, true)
      | (s, false) => startEach now s rest

def stopAll : Scheduler := s.mTasks.foldl stopOne s

def startTask (wanted : String) (now : QDateTime) : Scheduler × Bool :=
  match s.find name wanted with
  | some place => s.startOne accepts task (s.mTasks.getD place 0) now
  | none => (s, false)

def stopTask (wanted : String) : Scheduler :=
  match s.find name wanted with
  | some place => s.stopOne (s.mTasks.getD place 0)
  | none => s

mutual

/-- A call, with whether it threw. -/
def exec (s : Scheduler) : SchedulerCall → Scheduler × Bool
  | .addTask none => (s, false)
  | .addTask (some id) => (s.addTask name id, false)
  | .removeTask wanted => (s.removeTask name wanted, false)
  | .startAll now => s.startEach accepts task now s.mTasks
  | .stopAll => (s.stopAll, false)
  | .startTask wanted now => s.startTask accepts name task wanted now
  | .stopTask wanted => (s.stopTask name wanted, false)
  | .start id now => { s with held := id :: s.held }.startOne accepts task id now
  | .stop id => (s.stopOne id, false)
  | .triggerNow id callback returned =>
      if (s.tasks id).mExecuting then
        (s, false)
      else
        let called := execAll (s.update id { s.tasks id with mExecuting := true }) callback
        (called.update id ((called.tasks id).executed returned), returned.isNone)

/-- The calls that a callback makes; what they throw it may have caught. -/
def execAll (s : Scheduler) : List SchedulerCall → Scheduler
  | [] => s
  | call :: rest => execAll (exec s call).1 rest

end

def onTimerTick (id : Nat) (callback : List SchedulerCall) (returned : Option QDateTime) (now : QDateTime) :
    Scheduler :=
  let s := s.update id { s.tasks id with armed := false }
  if (s.tasks id).mRunning then
    match exec accepts name task s (.triggerNow id callback returned) with
    | (s, true) => s
    | (s, false) =>
        if (s.tasks id).mRunning then s.update id ((s.tasks id).scheduleNext accepts (task id) now) else s
  else
    s

/-- A timer that is not armed does not fire. -/
def step (s : Scheduler) : SchedulerEvent → Scheduler
  | .call call => (exec accepts name task s call).1
  | .timerTick id callback returned now =>
      if (s.tasks id).armed then s.onTimerTick accepts name task id callback returned now else s

def after (events : List SchedulerEvent) : Scheduler := run (step accepts name task) {} events

end Scheduler

end

end SoulCoreKit.Scheduler
