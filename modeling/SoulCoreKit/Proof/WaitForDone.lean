import Mathlib.Data.List.Count
import SoulCoreKit.Async.ThreadPool

/-!
# What `waitForDone` waits for

No task is lost or run twice: at every moment each task submitted so far is in a queue, with a worker, or
finished, and in one of these places only. `m_activeCount` counts the workers from the increment to the
decrement. Between its removal from the queue and the increment a task is in neither of the places that
`waitForDone` looks at, and that is the only way for it to return too early.
-/

namespace SoulCoreKit.Async

/-- The task a worker has yet to finish. -/
def Worker.unfinished : Worker → Option Task
  | .dequeued task | .running task => some task
  | .idle | .returned _ => none

/-- The worker is counted in `m_activeCount`. -/
def Worker.isCounted : Worker → Bool
  | .running _ | .returned _ => true
  | .idle | .dequeued _ => false

/-! ### The queues -/

namespace ThreadPool

variable {p : ThreadPool}

theorem count_queued_start (task other : Task) (priority : Priority) :
    (p.start task priority).queued.count other = p.queued.count other + [task].count other := by
  cases priority <;> simp only [start, queued, List.count_append, List.map_append, List.map_cons,
    List.map_nil] <;> omega

theorem mActiveCount_start (task : Task) (priority : Priority) :
    (p.start task priority).mActiveCount = p.mActiveCount := by
  cases priority <;> rfl

theorem dequeueTask_spec {task : Task} {p' : ThreadPool} (hdequeue : p.dequeueTask = some (task, p')) :
    (∀ other, p.queued.count other = [task].count other + p'.queued.count other) ∧
      p'.mActiveCount = p.mActiveCount := by
  unfold dequeueTask at hdequeue
  split at hdequeue
  · rename_i hhigh
    obtain ⟨rfl, rfl⟩ := by simpa using hdequeue
    refine ⟨fun other => ?_, rfl⟩
    simp only [queued, hhigh, List.count_append, List.count_cons, List.count_nil]
    omega
  · rename_i hhigh hnormal
    obtain ⟨rfl, rfl⟩ := by simpa using hdequeue
    refine ⟨fun other => ?_, rfl⟩
    simp only [queued, hhigh, hnormal, List.count_append, List.count_cons, List.count_nil]
    omega
  · rename_i hhigh hnormal hlow
    obtain ⟨rfl, rfl⟩ := by simpa using hdequeue
    refine ⟨fun other => ?_, rfl⟩
    simp only [queued, hhigh, hnormal, hlow, List.map_cons, List.count_append, List.count_cons,
      List.count_nil]
    omega
  · simp at hdequeue

theorem queued_of_isDone (hdone : p.isDone = true) : p.queued = [] ∧ p.mActiveCount = 0 := by
  simp only [isDone, Bool.and_eq_true, List.isEmpty_iff, decide_eq_true_eq] at hdone
  obtain ⟨⟨⟨hhigh, hnormal⟩, hlow⟩, hactive⟩ := hdone
  exact ⟨by simp [queued, hhigh, hnormal, hlow], hactive⟩

end ThreadPool

/-! ### Every task in one place -/

namespace PoolRun

variable {s : PoolRun}

def atWorkers (s : PoolRun) : List Task := s.workers.filterMap Worker.unfinished

/-- Every task submitted so far has one place, and the counter counts the workers. -/
structure Tracked (s : PoolRun) : Prop where
  once : ∀ task, s.pool.queued.count task + s.atWorkers.count task + s.finished.count task =
    if task < s.submitted then 1 else 0
  active : s.pool.mActiveCount = s.workers.countP Worker.isCounted
  accepted : ∀ task ∈ s.accepted, task < s.submitted
  waits : ∀ wait ∈ s.waits, ∀ task ∈ wait.2, task < s.submitted

theorem exists_set {worker : Nat} {place : Worker} (hplace : s.workers[worker]? = some place) :
    ∃ before after, s.workers = before ++ place :: after ∧
      ∀ place', s.workers.set worker place' = before ++ place' :: after := by
  obtain ⟨hlt, hget⟩ := List.getElem?_eq_some_iff.mp hplace
  refine ⟨s.workers.take worker, s.workers.drop (worker + 1), ?_, ?_⟩
  · rw [← hget, List.getElem_cons_drop, List.take_append_drop]
  · intro place'
    rw [List.set_eq_take_append_cons_drop, if_pos hlt]

/-- What the move of one worker does to the tasks at the workers and to the workers counted. -/
theorem set_counts {worker : Nat} {place : Worker} (hplace : s.workers[worker]? = some place)
    (place' : Worker) (task : Task) :
    ((s.workers.set worker place').filterMap Worker.unfinished).count task +
          place.unfinished.toList.count task =
        s.atWorkers.count task + place'.unfinished.toList.count task ∧
      (s.workers.set worker place').countP Worker.isCounted + [place].countP Worker.isCounted =
        s.workers.countP Worker.isCounted + [place'].countP Worker.isCounted := by
  obtain ⟨before, after, hworkers, hset⟩ := exists_set hplace
  rw [hset, atWorkers, hworkers]
  have hsplit : ∀ place : Worker, (before ++ place :: after).filterMap Worker.unfinished =
      before.filterMap Worker.unfinished ++ (place.unfinished.toList ++
        after.filterMap Worker.unfinished) := by
    intro place
    rw [List.filterMap_append, List.filterMap_cons]
    cases place.unfinished <;> rfl
  rw [hsplit, hsplit]
  simp only [List.count_append, List.countP_append, List.countP_cons, List.countP_nil]
  omega

theorem tracked_init (otherWorkers : Nat) : Tracked (init otherWorkers) where
  once task := by
    have hnone : (init otherWorkers).atWorkers = [] := by
      rw [atWorkers, List.filterMap_eq_nil_iff]
      intro worker hworker
      rw [List.eq_of_mem_replicate hworker]
      rfl
    rw [hnone]
    simp [init, ThreadPool.queued]
  active := by simp [init, List.countP_replicate, Worker.isCounted]
  accepted := by simp [init]
  waits := by simp [init]

theorem Tracked.start (htracked : s.Tracked) (priority : Priority) :
    (s.step (.start priority)).Tracked where
  once task := by
    have honce := htracked.once task
    have hqueued := @ThreadPool.count_queued_start s.pool s.submitted task priority
    change (s.pool.start s.submitted priority).queued.count task + s.atWorkers.count task +
      s.finished.count task = if task < s.submitted + 1 then 1 else 0
    have hother : task ≠ s.submitted → [s.submitted].count task = 0 := by
      intro hne
      exact List.count_eq_zero.mpr (by simpa using hne)
    obtain hlt | rfl | hgt := Nat.lt_trichotomy task s.submitted
    · rw [if_pos hlt] at honce
      rw [if_pos (Nat.lt_add_right 1 hlt), hqueued, hother (Nat.ne_of_lt hlt)]
      omega
    · rw [if_neg (Nat.lt_irrefl _)] at honce
      rw [if_pos (Nat.lt_add_one s.submitted), hqueued, List.count_singleton_self]
      omega
    · rw [if_neg (Nat.not_lt_of_gt hgt)] at honce
      rw [if_neg (Nat.not_lt.mpr hgt), hqueued, hother (Nat.ne_of_gt hgt)]
      omega
  active := by
    rw [step, ThreadPool.mActiveCount_start, htracked.active]
  accepted task htask := Nat.lt_succ_of_lt (htracked.accepted task htask)
  waits wait hwait task htask := Nat.lt_succ_of_lt (htracked.waits wait hwait task htask)

/-- A worker moves on, and takes a task along or leaves it behind. -/
theorem Tracked.move (htracked : s.Tracked) {worker : Nat} {place place' : Worker}
    (hplace : s.workers[worker]? = some place) {pool : ThreadPool} {finished : List Task}
    (htasks : ∀ task, pool.queued.count task + finished.count task +
        place'.unfinished.toList.count task =
      s.pool.queued.count task + s.finished.count task + place.unfinished.toList.count task)
    (hactive : pool.mActiveCount + [place].countP Worker.isCounted =
      s.pool.mActiveCount + [place'].countP Worker.isCounted) :
    Tracked { s with pool, finished, workers := s.workers.set worker place' } where
  once task := by
    have honce := htracked.once task
    have htask := htasks task
    have hset := (set_counts hplace place' task).1
    simp only [atWorkers] at honce hset ⊢
    omega
  active := by
    have hbefore := htracked.active
    have hset := (set_counts hplace place' 0).2
    simp only
    omega
  accepted := htracked.accepted
  waits := htracked.waits

theorem Tracked.dequeue (htracked : s.Tracked) (worker : Nat) : (s.dequeue worker).Tracked := by
  unfold PoolRun.dequeue
  split
  · rename_i task pool hplace hdequeue
    obtain ⟨hcount, hactive⟩ := ThreadPool.dequeueTask_spec hdequeue
    apply htracked.move hplace
    · intro other
      have hother := hcount other
      simp only [Worker.unfinished, Option.toList_some, Option.toList_none, List.count_nil]
      omega
    · simp [hactive, Worker.isCounted]
  · exact htracked

theorem Tracked.increment (htracked : s.Tracked) (worker : Nat) : (s.increment worker).Tracked := by
  unfold PoolRun.increment
  split
  · rename_i task hplace
    apply htracked.move hplace
    · intro other
      rfl
    · simp [Worker.isCounted]
  · exact htracked

theorem Tracked.finish (htracked : s.Tracked) (worker : Nat) : (s.finish worker).Tracked := by
  unfold PoolRun.finish
  split
  · rename_i task hplace
    apply htracked.move hplace
    · intro other
      simp only [Worker.unfinished, List.count_append, Option.toList_some, Option.toList_none,
        List.count_nil]
      omega
    · simp [Worker.isCounted]
  · exact htracked

theorem Tracked.decrement (htracked : s.Tracked) (worker : Nat) : (s.decrement worker).Tracked := by
  unfold PoolRun.decrement
  split
  · rename_i task hplace
    apply htracked.move hplace
    · intro other
      rfl
    · simp [Worker.isCounted]
  · exact htracked

theorem Tracked.leave (htracked : s.Tracked) (caller : Nat) : (s.leave caller).Tracked where
  once := htracked.once
  active := htracked.active
  accepted := htracked.accepted
  waits wait hwait := htracked.waits wait (List.mem_filter.mp hwait).1

theorem Tracked.step (htracked : s.Tracked) (label : PoolStep) : (s.step label).Tracked := by
  cases label with
  | start priority => exact htracked.start priority
  | startReturns task =>
      simp only [PoolRun.step]
      split_ifs with hsubmitted
      · refine ⟨htracked.once, htracked.active, ?_, htracked.waits⟩
        intro other hother
        rcases List.mem_append.mp hother with hold | hnew
        · exact htracked.accepted other hold
        · rw [List.mem_singleton.mp hnew]
          exact hsubmitted
      · exact htracked
  | dequeue worker => exact htracked.dequeue worker
  | increment worker => exact htracked.increment worker
  | finish worker => exact htracked.finish worker
  | decrement worker => exact htracked.decrement worker
  | waitForDone caller =>
      simp only [PoolRun.step]
      split_ifs
      · exact htracked
      · refine ⟨htracked.once, htracked.active, htracked.accepted, ?_⟩
        intro wait hwait
        rcases List.mem_append.mp hwait with hold | hnew
        · exact htracked.waits wait hold
        · rw [List.mem_singleton.mp hnew]
          exact htracked.accepted
  | check caller =>
      simp only [PoolRun.step]
      split_ifs
      · exact htracked.leave caller
      · exact htracked
  | giveUp caller => exact htracked.leave caller

/-! ### The test of `waitForDone` -/

/-- No worker stands between the removal of a task the caller waits for and the increment of
`m_activeCount` while the test succeeds. -/
def NoneBetween (s : PoolRun) : PoolStep → Prop
  | .check caller =>
      s.pool.isDone = true → ∀ tasks ∈ s.waits.lookup caller, ∀ task ∈ tasks,
        Worker.dequeued task ∉ s.workers
  | _ => True

/-- When the test succeeds, a task is finished exactly if no worker has just taken it. -/
theorem Tracked.mem_finished_iff (htracked : s.Tracked) (hdone : s.pool.isDone = true) {task : Task}
    (hsubmitted : task < s.submitted) :
    task ∈ s.finished ↔ Worker.dequeued task ∉ s.workers := by
  obtain ⟨hqueued, hactive⟩ := ThreadPool.queued_of_isDone hdone
  have hcounted : ∀ worker ∈ s.workers, worker.isCounted = false := by
    have hzero : s.workers.countP Worker.isCounted = 0 := by
      have hbefore := htracked.active
      omega
    simpa [List.countP_eq_zero] using hzero
  have hworkers : task ∈ s.atWorkers ↔ Worker.dequeued task ∈ s.workers := by
    rw [atWorkers, List.mem_filterMap]
    constructor
    · rintro ⟨worker, hworker, htask⟩
      have hfalse := hcounted worker hworker
      cases worker with
      | dequeued other =>
          obtain rfl : other = task := by simpa [Worker.unfinished] using htask
          exact hworker
      | running other => simp [Worker.isCounted] at hfalse
      | idle => simp [Worker.unfinished] at htask
      | returned other => simp [Worker.unfinished] at htask
    · intro hworker
      exact ⟨_, hworker, rfl⟩
  have honce := htracked.once task
  rw [hqueued, if_pos hsubmitted, List.count_nil, Nat.zero_add] at honce
  rw [← hworkers, ← List.count_pos_iff, ← List.count_pos_iff]
  omega

theorem Tracked.waitsForTasks_iff (htracked : s.Tracked) (label : PoolStep) :
    s.WaitsForTasks label ↔ s.NoneBetween label := by
  cases label with
  | check caller =>
      have hsubmitted : ∀ tasks ∈ s.waits.lookup caller, ∀ task ∈ tasks, task < s.submitted := by
        intro tasks htasks
        obtain ⟨_, _, hsplit, -⟩ := List.lookup_eq_some_iff.mp htasks
        exact htracked.waits (caller, tasks) (by simp [hsplit])
      constructor
      · intro hwaits hdone tasks htasks task htask
        exact (htracked.mem_finished_iff hdone (hsubmitted tasks htasks task htask)).mp
          (hwaits hdone tasks htasks task htask)
      · intro hnone hdone tasks htasks task htask
        exact (htracked.mem_finished_iff hdone (hsubmitted tasks htasks task htask)).mpr
          (hnone hdone tasks htasks task htask)
  | start priority => exact Iff.rfl
  | startReturns task => exact Iff.rfl
  | dequeue worker => exact Iff.rfl
  | increment worker => exact Iff.rfl
  | finish worker => exact Iff.rfl
  | decrement worker => exact Iff.rfl
  | waitForDone caller => exact Iff.rfl
  | giveUp caller => exact Iff.rfl

end PoolRun

open PoolRun in
/-- In every interleaving, all calls of `waitForDone` that return true have waited for the tasks
submitted before them exactly if none of their tests succeeds while a worker has taken such a task and
not counted it yet. -/
theorem waits_for_tasks_iff (otherWorkers : Nat) (labels : List PoolStep) :
    Along step WaitsForTasks (init otherWorkers) labels ↔
      Along step NoneBetween (init otherWorkers) labels := by
  constructor
  · intro hwaits
    exact hwaits.of_invariant (tracked_init otherWorkers) (fun s label htracked _ => htracked.step label)
      (fun s label htracked hlabel => (htracked.waitsForTasks_iff label).mp hlabel)
  · intro hnone
    exact hnone.of_invariant (tracked_init otherWorkers) (fun s label htracked _ => htracked.step label)
      (fun s label htracked hlabel => (htracked.waitsForTasks_iff label).mpr hlabel)

open PoolRun in
/-- The only worker has taken the task and is about to count it. -/
theorem done_before_increment :
    ¬ Along step WaitsForTasks (init 0)
      [.start .normal, .startReturns 0, .waitForDone 0, .dequeue 0, .check 0] := by
  decide

end SoulCoreKit.Async
