import Mathlib.Data.List.Infix
import SoulCoreKit.Scheduler.TaskRun

/-!
# Whether a running task stays scheduled

The calls of a callback leave the timer as it was, stop it, or arm it for the time of one call of `start`.
A tick arms it again where the callback returns. Where the callback throws, the timer stays as the callback
leaves it: a task that was not stopped runs on without one.
-/

namespace SoulCoreKit.Scheduler

section

variable (accepts : Int → Bool) (task : ScheduledTask)

namespace ScheduledTask

/-- `scheduleNext` comes to the call of `m_timer->start`. -/
def HasNext (now : QDateTime) : Prop := ∃ nextIntervalMs, task.scheduleNext now = .ok (some nextIntervalMs)

/-- The timer starts with the interval from this time to the next one. -/
def arms (now : QDateTime) : Bool :=
  match task.scheduleNext now with
  | .ok (some nextIntervalMs) => accepts nextIntervalMs
  | _ => false

end ScheduledTask

/-! ### What the calls of a callback leave -/

/-- The timer is stopped, as it was, or started at this time. -/
inductive Standing where
  | idle
  | kept
  | asked (now : QDateTime)
  deriving DecidableEq, Repr

namespace Standing

def ofRunning (running : Bool) : Standing := if running then .kept else .idle

def after : Standing → Call → Standing
  | .idle, .start now => .asked now
  | standing, .start _ => standing
  | _, .stop => .idle
  | standing, .triggerNow _ _ => standing

def afterAll (standing : Standing) (calls : List Call) : Standing := calls.foldl after standing

def timer (armed : Bool) : Standing → Bool
  | .idle => false
  | .kept => armed
  | .asked now => task.arms accepts now

variable {accepts task} {standing : Standing}

/-- A timer that was touched is never as it was. -/
theorem afterAll_ne_kept (htouched : standing ≠ .kept) (calls : List Call) :
    standing.afterAll calls ≠ .kept := by
  induction calls generalizing standing with
  | nil => exact htouched
  | cons call rest ih =>
      refine ih ?_
      cases standing <;> cases call <;> first | contradiction | simp [after]

end Standing

/-- The times at which a call may arm the timer. -/
def Call.times : Call → List QDateTime
  | .start now => [now]
  | _ => []

/-- The calls that a call makes or is. -/
def Call.calls : Call → List Call
  | .triggerNow callback _ => callback
  | call => [call]

def TaskEvent.times : TaskEvent → List QDateTime
  | .call outer => outer.calls.flatMap Call.times
  | .timerTick callback _ now => now :: callback.flatMap Call.times

namespace TaskRun

/-- The last time for which the timer is asked is one for which it starts, and no callback of a tick throws
that has not stopped the task. -/
def Rearms (s : TaskRun) : TaskEvent → Prop
  | .call call =>
      ∀ now, (Standing.ofRunning s.mRunning).afterAll call.calls = .asked now → task.arms accepts now = true
  | .timerTick callback (some _) now =>
      s.armed = true → Standing.kept.afterAll callback ≠ .idle → task.arms accepts now = true
  | .timerTick callback none _ =>
      s.armed = true → Standing.kept.afterAll callback ≠ .kept ∧
        ∀ now, Standing.kept.afterAll callback = .asked now → task.arms accepts now = true

/-- A task that does not run is not armed, and it counts the runs that returned. -/
structure Consistent (s : TaskRun) : Prop where
  idle : s.mRunning = false → s.armed = false
  counted : s.mExecutionCount = s.runs.count true

/-- What holds of a task all along a run. -/
structure StaysScheduled (events : List TaskEvent) : Prop where
  armed : ∀ n, (run (step accepts task) {} (events.take n)).mRunning = true →
    (run (step accepts task) {} (events.take n)).armed = true
  consistent : ∀ n, (run (step accepts task) {} (events.take n)).Consistent
  during : ∀ n event, events[n]? = some event →
    ∀ s ∈ (run (step accepts task) {} (events.take n)).during accepts task event, s.Consistent

end TaskRun

end

variable {accepts : Int → Bool} {task : ScheduledTask}

namespace TaskRun

variable {s₀ s : TaskRun} {standing : Standing}

theorem scheduleNext_of_hasNext (s : TaskRun) {now : QDateTime} (hnext : task.HasNext now) :
    s.scheduleNext accepts task now = { s with armed := task.arms accepts now } := by
  obtain ⟨nextIntervalMs, hnext⟩ := hnext
  rw [scheduleNext, ScheduledTask.arms, hnext]

/-- Since the first state there were calls of `start` and `stop` alone. -/
structure Follows (accepts : Int → Bool) (task : ScheduledTask) (s₀ : TaskRun) (standing : Standing)
    (s : TaskRun) : Prop where
  executing : s.mExecuting = s₀.mExecuting
  count : s.mExecutionCount = s₀.mExecutionCount
  runs : s.runs = s₀.runs
  running : s.mRunning = true ↔ standing ≠ .idle
  timer : s.armed = standing.timer accepts task s₀.armed

theorem Follows.refl (hidle : s₀.mRunning = false → s₀.armed = false) :
    Follows accepts task s₀ (.ofRunning s₀.mRunning) s₀ := by
  refine ⟨rfl, rfl, rfl, ?_, ?_⟩
  · cases s₀.mRunning <;> simp [Standing.ofRunning]
  · cases hrunning : s₀.mRunning with
    | false => exact hidle hrunning
    | true => rfl

theorem Follows.start (hfollows : Follows accepts task s₀ standing s) {now : QDateTime}
    (hnext : task.HasNext now) :
    Follows accepts task s₀ (standing.after (.start now)) (s.start accepts task now) := by
  rw [TaskRun.start]
  by_cases hidle : standing = .idle
  · subst hidle
    have hrunning : s.mRunning ≠ true := fun h => hfollows.running.mp h rfl
    rw [if_neg hrunning, scheduleNext_of_hasNext _ hnext]
    exact ⟨hfollows.executing, hfollows.count, hfollows.runs, by simp [Standing.after], rfl⟩
  · have hsame : standing.after (.start now) = standing := by
      cases standing <;> first | contradiction | rfl
    rw [if_pos (hfollows.running.mpr hidle), hsame]
    exact hfollows

theorem Follows.stop (hfollows : Follows accepts task s₀ standing s) :
    Follows accepts task s₀ (standing.after .stop) s.stop := by
  have hidle : standing.after .stop = .idle := by cases standing <;> rfl
  rw [hidle]
  exact ⟨hfollows.executing, hfollows.count, hfollows.runs, by simp [TaskRun.stop], rfl⟩

theorem Follows.exec (hfollows : Follows accepts task s₀ standing s) (hexecuting : s₀.mExecuting = true)
    {call : Call} (hnext : ∀ now ∈ call.times, task.HasNext now) :
    Follows accepts task s₀ (standing.after call) (TaskRun.exec accepts task s call).1 := by
  cases call with
  | start now =>
      rw [TaskRun.exec]
      exact hfollows.start (hnext now List.mem_cons_self)
  | stop =>
      rw [TaskRun.exec]
      exact hfollows.stop
  | triggerNow callback returned =>
      have hsame : standing.after (.triggerNow callback returned) = standing := by cases standing <;> rfl
      rw [TaskRun.exec, if_pos (hfollows.executing.trans hexecuting), hsame]
      exact hfollows

theorem Follows.execAll (hexecuting : s₀.mExecuting = true) {calls : List Call}
    (hfollows : Follows accepts task s₀ standing s)
    (hnext : ∀ now ∈ calls.flatMap Call.times, task.HasNext now) :
    Follows accepts task s₀ (standing.afterAll calls) (TaskRun.execAll accepts task s calls) := by
  induction calls generalizing s standing with
  | nil =>
      rw [TaskRun.execAll]
      exact hfollows
  | cons call rest ih =>
      rw [List.flatMap_cons, List.forall_mem_append] at hnext
      rw [TaskRun.execAll]
      exact ih (hfollows.exec hexecuting hnext.1) hnext.2

theorem Follows.consistent (hfollows : Follows accepts task s₀ standing s)
    (hcounted : s₀.mExecutionCount = s₀.runs.count true) : s.Consistent := by
  constructor
  · intro hrunning
    have hidle : standing = .idle := by
      by_contra hne
      rw [hfollows.running.mpr hne] at hrunning
      contradiction
    rw [hfollows.timer, hidle]
    rfl
  · rw [hfollows.count, hfollows.runs, hcounted]

/-- Nothing executes between the events. -/
structure Resting (s : TaskRun) : Prop where
  notExecuting : s.mExecuting = false
  consistent : s.Consistent

/-- What an event leaves of the timer. -/
structure Settles (accepts : Int → Bool) (task : ScheduledTask) (s₀ : TaskRun) (standing : Standing)
    (s : TaskRun) : Prop where
  resting : s.Resting
  running : s.mRunning = true ↔ standing ≠ .idle
  timer : s.armed = standing.timer accepts task s₀.armed

theorem Follows.settles (hfollows : Follows accepts task s₀ standing s) (hrest : s₀.Resting) :
    Settles accepts task s₀ standing s where
  resting := ⟨hfollows.executing.trans hrest.notExecuting, hfollows.consistent hrest.consistent.counted⟩
  running := hfollows.running
  timer := hfollows.timer

theorem Follows.executed (hfollows : Follows accepts task { s₀ with mExecuting := true } standing s)
    (hrest : s₀.Resting) (returned : Option QDateTime) :
    Settles accepts task s₀ standing (s.executed returned) := by
  have hconsistent := hfollows.consistent hrest.consistent.counted
  have hresting : (s.executed returned).Resting := by
    cases returned <;>
      exact ⟨rfl, hconsistent.idle, by simp [TaskRun.executed, hconsistent.counted]⟩
  refine ⟨hresting, ?_, ?_⟩
  · cases returned <;> exact hfollows.running
  · cases returned <;> exact hfollows.timer

/-- The calls of a callback, from the state in which `triggerNow` calls it. -/
theorem follows_callback (hrest : s.Resting) {callback : List Call}
    (hnext : ∀ now ∈ callback.flatMap Call.times, task.HasNext now) :
    Follows accepts task { s with mExecuting := true } ((Standing.ofRunning s.mRunning).afterAll callback)
      (execAll accepts task { s with mExecuting := true } callback) :=
  Follows.execAll rfl (Follows.refl hrest.consistent.idle) hnext

theorem settles_exec (hrest : s.Resting) {call : Call}
    (hnext : ∀ now ∈ call.calls.flatMap Call.times, task.HasNext now) :
    Settles accepts task s ((Standing.ofRunning s.mRunning).afterAll call.calls)
      (exec accepts task s call).1 := by
  have hsame : Follows accepts task s (.ofRunning s.mRunning) s := Follows.refl hrest.consistent.idle
  cases call with
  | start now =>
      rw [exec]
      exact (hsame.start (hnext now (by simp [Call.calls, Call.times]))).settles hrest
  | stop =>
      rw [exec]
      exact hsame.stop.settles hrest
  | triggerNow callback returned =>
      rw [exec, if_neg (by simp [hrest.notExecuting])]
      exact (follows_callback hrest hnext).executed hrest returned

theorem exec_triggerNow_snd (hrest : s.Resting) (callback : List Call) (returned : Option QDateTime) :
    (exec accepts task s (.triggerNow callback returned)).2 = returned.isNone := by
  rw [exec, if_neg (by simp [hrest.notExecuting])]

/-- The timer is armed again by the tick where the callback returns, and by the callback alone where it
throws. -/
theorem onTimerTick_spec (hrest : s.Resting) (hrunning : s.mRunning = true) {callback : List Call}
    {returned : Option QDateTime} {now : QDateTime}
    (hnext : ∀ t ∈ now :: callback.flatMap Call.times, task.HasNext t) :
    (s.onTimerTick accepts task callback returned now).Resting ∧
      ((s.onTimerTick accepts task callback returned now).mRunning = true ↔
        Standing.kept.afterAll callback ≠ .idle) ∧
      (s.onTimerTick accepts task callback returned now).armed =
        if returned.isSome ∧ Standing.kept.afterAll callback ≠ .idle then task.arms accepts now
        else (Standing.kept.afterAll callback).timer accepts task false := by
  have hfired : TaskRun.Resting { s with armed := false } :=
    ⟨hrest.notExecuting, fun _ => rfl, hrest.consistent.counted⟩
  have hkept : Standing.ofRunning s.mRunning = .kept := by rw [hrunning]; rfl
  have hsettles : Settles accepts task { s with armed := false }
      ((Standing.ofRunning s.mRunning).afterAll callback)
      (exec accepts task { s with armed := false } (.triggerNow callback returned)).1 :=
    @settles_exec accepts task _ hfired (.triggerNow callback returned) (List.forall_mem_cons.mp hnext).2
  have hthrew := @exec_triggerNow_snd accepts task _ hfired callback returned
  rw [hkept] at hsettles
  rw [TaskRun.onTimerTick, if_pos hrunning]
  generalize exec accepts task { s with armed := false } (.triggerNow callback returned) = left
    at hsettles hthrew ⊢
  obtain ⟨left, threw⟩ := left
  obtain ⟨hresting, hruns, htimer⟩ := hsettles
  cases returned with
  | none =>
      obtain rfl : threw = true := hthrew
      refine ⟨hresting, hruns, ?_⟩
      rw [if_neg (by simp)]
      exact htimer
  | some _ =>
      obtain rfl : threw = false := hthrew
      by_cases hleft : left.mRunning = true
      · simp only [if_pos hleft, scheduleNext_of_hasNext _ (hnext now List.mem_cons_self)]
        refine ⟨⟨hresting.notExecuting, ?_, hresting.consistent.counted⟩, hruns, ?_⟩
        · intro hstopped
          rw [hleft] at hstopped
          contradiction
        · exact (if_pos ⟨rfl, hruns.mp hleft⟩).symm
      · simp only [if_neg hleft]
        refine ⟨hresting, hruns, ?_⟩
        rw [if_neg fun h => hleft (hruns.mpr h.2)]
        exact htimer

theorem Resting.mRunning_of_armed (hrest : s.Resting) (harmed : s.armed = true) : s.mRunning = true := by
  by_contra hstopped
  rw [hrest.consistent.idle (Bool.eq_false_of_not_eq_true hstopped)] at harmed
  contradiction

theorem Resting.step (hrest : s.Resting) {event : TaskEvent} (hnext : ∀ now ∈ event.times, task.HasNext now) :
    (s.step accepts task event).Resting := by
  cases event with
  | call call => exact (settles_exec hrest hnext).resting
  | timerTick callback returned now =>
      rw [TaskRun.step]
      split
      · rename_i harmed
        exact (onTimerTick_spec hrest (hrest.mRunning_of_armed harmed) hnext).1
      · exact hrest

/-- A running task is armed. -/
def Live (s : TaskRun) : Prop := s.mRunning = true → s.armed = true

theorem live_exec (hrest : s.Resting) (hlive : s.Live) {call : Call}
    (hnext : ∀ now ∈ call.calls.flatMap Call.times, task.HasNext now) :
    (exec accepts task s call).1.Live ↔ Rearms accepts task s (.call call) := by
  obtain ⟨-, hruns, htimer⟩ := settles_exec hrest hnext
  have hkept : (Standing.ofRunning s.mRunning).afterAll call.calls = .kept → s.armed = true := by
    intro hkept
    apply hlive
    by_contra hstopped
    rw [Bool.eq_false_of_not_eq_true hstopped] at hkept
    exact Standing.afterAll_ne_kept (by simp [Standing.ofRunning]) call.calls hkept
  rw [Live, hruns, htimer, Rearms]
  generalize (Standing.ofRunning s.mRunning).afterAll call.calls = standing at hkept ⊢
  cases standing with
  | idle => simp
  | kept => simp [Standing.timer, hkept rfl]
  | asked now => simp [Standing.timer]

theorem live_onTimerTick (hrest : s.Resting) (harmed : s.armed = true) {callback : List Call}
    {returned : Option QDateTime} {now : QDateTime}
    (hnext : ∀ t ∈ now :: callback.flatMap Call.times, task.HasNext t) :
    (s.onTimerTick accepts task callback returned now).Live ↔
      Rearms accepts task s (.timerTick callback returned now) := by
  obtain ⟨-, hruns, htimer⟩ := onTimerTick_spec hrest (hrest.mRunning_of_armed harmed) hnext
  rw [Live, hruns, htimer]
  cases returned with
  | none =>
      rw [Rearms]
      cases Standing.kept.afterAll callback <;> simp [Standing.timer, harmed]
  | some _ =>
      rw [Rearms]
      cases Standing.kept.afterAll callback <;> simp [harmed]

theorem live_step (hrest : s.Resting) (hlive : s.Live) {event : TaskEvent}
    (hnext : ∀ now ∈ event.times, task.HasNext now) :
    (s.step accepts task event).Live ↔ Rearms accepts task s event := by
  cases event with
  | call call => exact live_exec hrest hlive hnext
  | timerTick callback returned now =>
      rw [TaskRun.step]
      split
      · rename_i harmed
        exact live_onTimerTick hrest harmed hnext
      · rename_i hunarmed
        refine iff_of_true hlive ?_
        cases returned <;> exact fun harmed => absurd harmed hunarmed

/-- Between the calls of a callback. -/
theorem consistent_during (hrest : s.Resting) {event : TaskEvent}
    (hnext : ∀ now ∈ event.times, task.HasNext now) {mid : TaskRun}
    (hmid : mid ∈ s.during accepts task event) : mid.Consistent := by
  have hbetween : ∀ {s : TaskRun} {callback : List Call}, s.Resting →
      (∀ now ∈ callback.flatMap Call.times, task.HasNext now) →
        ∀ mid ∈ callback.inits.map (execAll accepts task { s with mExecuting := true }), mid.Consistent := by
    intro s callback hrest hnext mid hmid
    obtain ⟨front, hfront, rfl⟩ := List.mem_map.mp hmid
    have hsubset := ((List.mem_inits _ _).mp hfront).subset
    have hfront : ∀ now ∈ front.flatMap Call.times, task.HasNext now := by
      intro now hnow
      obtain ⟨call, hcall, hnow⟩ := List.mem_flatMap.mp hnow
      exact hnext now (List.mem_flatMap.mpr ⟨call, hsubset hcall, hnow⟩)
    exact (follows_callback hrest hfront).consistent hrest.consistent.counted
  cases event with
  | call call =>
      cases call with
      | start now => exact absurd hmid List.not_mem_nil
      | stop => exact absurd hmid List.not_mem_nil
      | triggerNow callback returned => exact hbetween hrest hnext mid hmid
  | timerTick callback returned now =>
      rw [during] at hmid
      split at hmid
      · exact @hbetween { s with armed := false } callback
          ⟨hrest.notExecuting, fun _ => rfl, hrest.consistent.counted⟩
          (List.forall_mem_cons.mp hnext).2 mid hmid
      · exact absurd hmid List.not_mem_nil

/-- A task stays scheduled all along a run exactly if no tick's callback throws that has not stopped it, and
the timer starts with each interval that is left to it. -/
theorem staysScheduled_iff {events : List TaskEvent}
    (hnext : ∀ event ∈ events, ∀ now ∈ event.times, task.HasNext now) :
    StaysScheduled accepts task events ↔
      Along (step accepts task) (Rearms accepts task) {} events := by
  have henabled :
      Along (step accepts task) (fun _ event => ∀ now ∈ event.times, task.HasNext now) {} events :=
    .of_forall_mem fun event hevent _ => hnext event hevent
  have hstart : Resting {} := ⟨rfl, fun _ => rfl, rfl⟩
  have hrest : ∀ n, (run (step accepts task) {} (events.take n)).Resting := fun n =>
    (henabled.take n).induction hstart fun _ _ hrest hnext => hrest.step hnext
  have harmed : (∀ n, (run (step accepts task) {} (events.take n)).Live) ↔
      Along (step accepts task) (Rearms accepts task) {} events :=
    always_iff_along henabled hstart (fun hrunning => absurd hrunning (by simp))
      (fun _ _ hrest hnext => hrest.step hnext)
      fun _ _ hrest hnext hlive => live_step hrest hlive hnext
  rw [← harmed]
  refine ⟨StaysScheduled.armed, fun hlive => ⟨hlive, fun n => (hrest n).consistent, ?_⟩⟩
  intro n event hevent mid hmid
  exact consistent_during (hrest n) (hnext event (List.mem_of_getElem? hevent)) hmid

/-- A task with a fixed rate whose callback throws at its first tick. -/
theorem not_staysScheduled_throws :
    ¬StaysScheduled (fun nextIntervalMs => decide (0 ≤ nextIntervalMs))
      { mMode := .fixedRate, mIntervalMs := 1000 }
      [.call (.start ⟨0⟩), .timerTick [] none ⟨1000⟩] := by
  intro hstays
  exact absurd (hstays.armed 2 (by decide)) (by decide)

theorem staysScheduled_stopping :
    StaysScheduled (fun nextIntervalMs => decide (0 ≤ nextIntervalMs))
      { mMode := .fixedRate, mIntervalMs := 1000 }
      [.call (.start ⟨0⟩), .timerTick [.stop] none ⟨1000⟩] := by
  refine (staysScheduled_iff fun _ _ _ _ => ⟨1000, rfl⟩).mpr
    ⟨fun _ _ => rfl, fun _ => ⟨by decide, ?_⟩, trivial⟩
  intro now hasked
  exact absurd hasked (by simp [Standing.afterAll, Standing.after])

end TaskRun

end SoulCoreKit.Scheduler
