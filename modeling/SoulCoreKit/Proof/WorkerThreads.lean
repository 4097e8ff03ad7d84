import Mathlib.Algebra.GroupWithZero.Nat
import Mathlib.Data.List.Nodup
import SoulCoreKit.Proof.WaitForDone

/-!
# The life of the worker threads

`start` changes the queues under the lock, so its notification is not missed: while the pool runs, no worker
sleeps on a task. The store and the notification of `shutdown` may both fall between the test and the wait of
a worker. Then the worker waits, and `shutdown` waits for the worker; and this is the only way in which
`shutdown` does not return. What stands in the queues when it does is left there.
-/

namespace SoulCoreKit.Async.PoolLife

/-! ### What a step can do -/

variable {s s' : PoolLife}

/-- The moves of a worker that change nothing else. -/
inductive Moves (s : PoolLife) : LifeStep → Nat → WorkerPlace → WorkerPlace → Prop where
  | goesOn (worker : Nat) (hrunning : s.mRunning = true) : Moves s (.test worker) worker .looping .entering
  | leaves (worker : Nat) (hstopped : s.mRunning = false) : Moves s (.test worker) worker .looping .exited
  | returns (worker : Nat) (hstopped : s.mRunning = false) (hfree : .tested ∉ s.workers) :
      Moves s (.dequeue worker) worker .entering .looping
  | findsNothing (worker : Nat) (hrunning : s.mRunning = true) (hfree : .tested ∉ s.workers)
      (hempty : s.pool.queued = []) : Moves s (.dequeue worker) worker .entering .tested
  | waits (worker : Nat) : Moves s (.wait worker) worker .tested .waiting
  | wakes (worker : Nat) : Moves s (.wake worker) worker .waiting .entering

inductive Change (s : PoolLife) : LifeStep → PoolLife → Prop where
  | same (label : LifeStep) : Change s label s
  | delegate (priority : Priority) : Change s (.start priority)
      { s with delegated := s.delegated ++ [s.submitted], submitted := s.submitted + 1 }
  | start (priority : Priority) : Change s (.start priority)
      { s with starting := s.starting ++ [(s.submitted, priority)], submitted := s.submitted + 1 }
  | enqueue {task : Task} {priority : Priority} (hcall : s.starting.lookup task = some priority)
      (hfree : .tested ∉ s.workers) : Change s (.enqueue task)
      { s with
        pool := s.pool.start task priority
        starting := s.starting.filter fun call => call.1 ≠ task
        notifying := s.notifying + 1 }
  | notifyNone (worker : Nat) (hnone : .waiting ∉ s.workers) : Change s (.notifyOne worker)
      { s with notifying := s.notifying - 1 }
  | notifyOne {worker : Nat} (hplace : s.workers[worker]? = some .waiting) : Change s (.notifyOne worker)
      { s with workers := s.workers.set worker .entering, notifying := s.notifying - 1 }
  | move {label : LifeStep} {worker : Nat} {source target : WorkerPlace}
      (hmoves : s.Moves label worker source target) (hplace : s.workers[worker]? = some source) :
      Change s label { s with workers := s.workers.set worker target }
  | takeTask {worker : Nat} {task : Task} {pool : ThreadPool}
      (hplace : s.workers[worker]? = some .entering) (hdequeue : s.pool.dequeueTask = some (task, pool))
      (hrunning : s.mRunning = true) (hfree : .tested ∉ s.workers) : Change s (.dequeue worker)
      { s with pool, workers := s.workers.set worker (.running task) }
  | finish {worker : Nat} {task : Task} (hplace : s.workers[worker]? = some (.running task)) :
      Change s (.finish worker)
      { s with workers := s.workers.set worker .looping, finished := s.finished ++ [task] }
  | store (hplace : s.mShutdown = .notCalled) : Change s .store
      { s with mRunning := false, mShutdown := .stored }
  | notifyAll (hplace : s.mShutdown = .stored) : Change s .notifyAll
      { s with workers := s.workers.map WorkerPlace.notified, mShutdown := .notified }
  | takeWorkers (hplace : s.mShutdown = .notified) : Change s .takeWorkers { s with mShutdown := .joining }
  | join (hplace : s.mShutdown = .joining) (hexited : ∀ place ∈ s.workers, place = .exited) :
      Change s .join { s with mShutdown := .joined }

theorem not_isLocked_iff : s.isLocked = false ↔ .tested ∉ s.workers := by
  simp only [isLocked, List.any_eq_false, decide_eq_true_eq]
  exact ⟨fun hall hmem => hall _ hmem rfl, fun hnot place hmem heq => hnot (heq ▸ hmem)⟩

theorem change_move {label : LifeStep} {worker : Nat} {source target : WorkerPlace}
    (hmoves : s.Moves label worker source target) : s.Change label (s.move worker source target) := by
  rw [move]
  split_ifs with hplace
  · exact .move hmoves hplace
  · exact .same label

theorem queued_of_dequeueTask_none {p : ThreadPool} (hdequeue : p.dequeueTask = none) : p.queued = [] := by
  unfold ThreadPool.dequeueTask at hdequeue
  split at hdequeue
  · cases hdequeue
  · cases hdequeue
  · simp at hdequeue
  · next hhigh hnormal hlow => simp [ThreadPool.queued, hhigh, hnormal, hlow]

theorem change_step (s : PoolLife) (label : LifeStep) : s.Change label (s.step label) := by
  cases label with
  | start priority =>
      simp only [step, start]
      split_ifs
      · exact .same _
      · exact .delegate priority
      · exact .start priority
  | enqueue task =>
      simp only [step, enqueue]
      split
      next => exact .same _
      next hcall =>
          split_ifs with hlocked
          · exact .same _
          · exact .enqueue hcall (not_isLocked_iff.mp (Bool.not_eq_true _ ▸ hlocked))
  | notifyOne worker =>
      rw [step, notifyOne]
      rcases Decidable.em (s.notifying = 0) with hnone | hpending
      · rw [if_pos hnone]
        exact .same _
      · rw [if_neg hpending]
        split
        next hplace => exact .notifyOne hplace
        next =>
            split_ifs with hwaiting
            · exact .same _
            · refine .notifyNone worker fun hmem => hwaiting ?_
              exact List.any_eq_true.mpr ⟨_, hmem, rfl⟩
  | test worker =>
      simp only [step]
      split_ifs with hrunning
      · exact change_move (.goesOn worker hrunning)
      · exact change_move (.leaves worker (Bool.not_eq_true _ ▸ hrunning))
  | dequeue worker =>
      simp only [step, dequeue]
      split_ifs with hlocked hrunning
      · exact .same _
      · have hfree := not_isLocked_iff.mp (Bool.not_eq_true _ ▸ hlocked)
        split
        next hplace hdequeue => exact .takeTask hplace hdequeue hrunning hfree
        next hother =>
            cases hdequeue : s.pool.dequeueTask with
            | none =>
                exact change_move (.findsNothing worker hrunning hfree
                  (queued_of_dequeueTask_none hdequeue))
            | some taken =>
                rw [move, if_neg fun hplace => hother taken.1 taken.2 hplace hdequeue]
                exact .same _
      · exact change_move (.returns worker (Bool.not_eq_true _ ▸ hrunning)
          (not_isLocked_iff.mp (Bool.not_eq_true _ ▸ hlocked)))
  | wait worker => exact change_move (.waits worker)
  | wake worker => exact change_move (.wakes worker)
  | finish worker =>
      simp only [step, finish]
      split
      next hplace => exact .finish hplace
      next => exact .same _
  | store =>
      simp only [step]
      split_ifs with hplace
      · exact .store hplace
      · exact .same _
  | notifyAll =>
      simp only [step]
      split_ifs with hplace
      · exact .notifyAll hplace
      · exact .same _
  | takeWorkers =>
      simp only [step]
      split_ifs with hplace
      · exact .takeWorkers hplace.1
      · exact .same _
  | join =>
      simp only [step]
      split_ifs with hplace
      · exact .join hplace.1 (by simpa using hplace.2)
      · exact .same _

/-! ### Every task in one place -/

theorem sum_map_set {α : Type} (f : α → Nat) {l : List α} {i : Nat} {a : α} (hget : l[i]? = some a) (b : α) :
    ((l.set i b).map f).sum + f a = (l.map f).sum + f b := by
  induction l generalizing i with
  | nil => cases hget
  | cons first rest ih =>
      cases i with
      | zero =>
          rw [List.getElem?_cons_zero, Option.some.injEq] at hget
          rw [List.set_cons_zero, List.map_cons, List.map_cons, List.sum_cons, List.sum_cons, hget]
          omega
      | succ i =>
          have hrest := ih (List.getElem?_cons_succ ▸ hget)
          rw [List.set_cons_succ, List.map_cons, List.map_cons, List.sum_cons, List.sum_cons]
          omega

/-- A worker is in the task. -/
def holds (task : Task) (place : WorkerPlace) : Nat := if place = .running task then 1 else 0

/-- How often the task stands in a call of `start`, in the queues, at a worker, with the pool of Qt or among
the finished. -/
def occurs (s : PoolLife) (task : Task) : Nat :=
  (s.starting.map Prod.fst).count task + s.pool.queued.count task +
    (s.workers.map (holds task)).sum + s.delegated.count task + s.finished.count task

def Tracked (s : PoolLife) : Prop := ∀ task, s.occurs task = if task < s.submitted then 1 else 0

theorem Tracked.of_occurs_eq (htracked : s.Tracked) (hsubmitted : s'.submitted = s.submitted)
    (hoccurs : ∀ task, s'.occurs task = s.occurs task) : s'.Tracked := by
  intro task
  rw [hoccurs, htracked, hsubmitted]

theorem Tracked.of_occurs_add (htracked : s.Tracked) (hsubmitted : s'.submitted = s.submitted + 1)
    (hoccurs : ∀ task, s'.occurs task = s.occurs task + [s.submitted].count task) : s'.Tracked := by
  intro task
  rw [hoccurs, htracked, hsubmitted, List.count_singleton]
  rcases Nat.lt_trichotomy task s.submitted with hlt | heq | hgt
  · simp [hlt, Nat.lt_succ_of_lt hlt, Nat.ne_of_gt hlt]
  · simp [heq]
  · simp [Nat.not_lt_of_le hgt, Nat.not_lt_of_gt hgt, Nat.ne_of_lt hgt]

theorem count_starting_filter (starting : List (Task × Priority)) (task other : Task) :
    ((starting.filter fun call => call.1 ≠ task).map Prod.fst).count other =
      if other = task then 0 else (starting.map Prod.fst).count other := by
  induction starting with
  | nil => simp
  | cons call rest ih =>
      rcases Decidable.em (call.1 = task) with heq | hne
      · rw [List.filter_cons_of_neg (by simpa using heq), ih, List.map_cons, heq]
        split_ifs with hother
        · rfl
        · rw [List.count_cons_of_ne (Ne.symm hother)]
      · rw [List.filter_cons_of_pos (by simpa using hne), List.map_cons, List.count_cons, ih, List.map_cons,
          List.count_cons]
        split_ifs with hother hcall hcall
        · exact absurd ((beq_iff_eq.mp hcall).trans hother) hne
        · rfl
        · rfl
        · rfl

theorem count_starting_of_lookup {starting : List (Task × Priority)} {task : Task} {priority : Priority}
    (hcall : starting.lookup task = some priority) : 0 < (starting.map Prod.fst).count task := by
  induction starting with
  | nil => cases hcall
  | cons call rest ih =>
      rw [List.map_cons, List.count_cons]
      rcases Decidable.em (task = call.1) with heq | hne
      · simp [heq]
      · rw [List.lookup_cons, beq_false_of_ne hne] at hcall
        exact Nat.lt_of_lt_of_le (ih hcall) (Nat.le_add_right _ _)

theorem Moves.holds_eq {label : LifeStep} {worker : Nat} {source target : WorkerPlace}
    (hmoves : s.Moves label worker source target) (task : Task) :
    holds task source = 0 ∧ holds task target = 0 := by
  cases hmoves <;> exact ⟨rfl, rfl⟩

theorem holds_notified (task : Task) (place : WorkerPlace) :
    holds task place.notified = holds task place := by
  cases place <;> rfl

theorem Tracked.change (htracked : s.Tracked) {label : LifeStep} (hchange : s.Change label s') :
    s'.Tracked := by
  cases hchange with
  | same => exact htracked
  | delegate priority =>
      refine htracked.of_occurs_add rfl fun task => ?_
      simp only [occurs, List.count_append]
      omega
  | start priority =>
      refine htracked.of_occurs_add rfl fun task => ?_
      simp only [occurs, List.map_append, List.count_append, List.map_cons, List.map_nil]
      omega
  | @enqueue other priority hcall hfree =>
      refine htracked.of_occurs_eq rfl fun task => ?_
      have hpos := count_starting_of_lookup hcall
      have hone := htracked other
      simp only [occurs, count_starting_filter, ThreadPool.count_queued_start] at hone ⊢
      rcases Decidable.em (task = other) with rfl | hne
      · rw [if_pos rfl, List.count_singleton_self]
        split_ifs at hone <;> omega
      · rw [if_neg hne, List.count_singleton, if_neg (by simpa using Ne.symm hne)]
        omega
  | notifyNone worker hnone => exact htracked
  | @notifyOne worker hplace =>
      refine htracked.of_occurs_eq rfl fun task => ?_
      have hsum := sum_map_set (holds task) hplace .entering
      simp only [holds, reduceCtorEq, if_false] at hsum
      simp only [occurs]
      omega
  | @move label worker source target hmoves hplace =>
      refine htracked.of_occurs_eq rfl fun task => ?_
      have hsum := sum_map_set (holds task) hplace target
      obtain ⟨hsource, htarget⟩ := hmoves.holds_eq task
      rw [hsource, htarget] at hsum
      simp only [occurs]
      omega
  | @takeTask worker other pool hplace hdequeue hrunning hfree =>
      refine htracked.of_occurs_eq rfl fun task => ?_
      have hsum := sum_map_set (holds task) hplace (.running other)
      have hcount := (ThreadPool.dequeueTask_spec hdequeue).1 task
      simp only [holds, reduceCtorEq, if_false, WorkerPlace.running.injEq, List.count_singleton,
        beq_iff_eq] at hsum hcount
      simp only [occurs]
      omega
  | @finish worker other hplace =>
      refine htracked.of_occurs_eq rfl fun task => ?_
      have hsum := sum_map_set (holds task) hplace .looping
      simp only [holds, reduceCtorEq, if_false, WorkerPlace.running.injEq] at hsum
      simp only [occurs, List.count_append, List.count_singleton, beq_iff_eq]
      omega
  | store hplace => exact htracked
  | notifyAll hplace =>
      refine htracked.of_occurs_eq rfl fun task => ?_
      have hmap : (s.workers.map WorkerPlace.notified).map (holds task) = s.workers.map (holds task) := by
        rw [List.map_map]
        exact List.map_congr_left fun place _ => holds_notified task place
      simp only [occurs, hmap]
  | takeWorkers hplace => exact htracked
  | join hplace hexited => exact htracked

theorem tracked_after (n : Nat) (labels : List LifeStep) : (after n labels).Tracked := by
  refine run_induction (fun task => ?_)
    (fun state label htracked => htracked.change (change_step state label)) labels
  simp [occurs, ThreadPool.queued, List.map_replicate, holds]

/-! ### No task is slept on -/

/-- The worker is on its way to the queues. -/
def awake : WorkerPlace → Nat
  | .looping | .entering => 1
  | _ => 0

/-- A worker sleeps, or is about to. -/
def Sleeps (s : PoolLife) : Prop := .waiting ∈ s.workers ∨ .tested ∈ s.workers

/-- Where a worker sleeps, there are at least as many workers on their way and notifications to come as there
are tasks. -/
structure Attended (s : PoolLife) : Prop where
  running : s.mRunning = true ↔ s.mShutdown = .notCalled
  stays : s.mRunning = true → .exited ∉ s.workers
  nothing : .tested ∈ s.workers → s.pool.queued = []
  attended : s.mRunning = true → s.Sleeps →
    s.pool.queued.length ≤ s.notifying + (s.workers.map awake).sum

theorem length_queued_start (p : ThreadPool) (task : Task) (priority : Priority) :
    (p.start task priority).queued.length = p.queued.length + 1 := by
  cases priority <;> simp [ThreadPool.start, ThreadPool.queued] <;> omega

theorem length_queued_dequeue {p p' : ThreadPool} {task : Task} (hdequeue : p.dequeueTask = some (task, p')) :
    p.queued.length = p'.queued.length + 1 := by
  have hperm : p.queued.Perm (task :: p'.queued) := by
    rw [List.perm_iff_count]
    intro other
    rw [(ThreadPool.dequeueTask_spec hdequeue).1 other]
    simp only [List.count_cons, List.count_nil]
    omega
  exact hperm.length_eq

theorem sum_awake_set {worker : Nat} {source : WorkerPlace} (hplace : s.workers[worker]? = some source)
    (target : WorkerPlace) : ((s.workers.set worker target).map awake).sum + awake source =
      (s.workers.map awake).sum + awake target :=
  sum_map_set awake hplace target

theorem mem_of_mem_set {worker : Nat} {target place : WorkerPlace} (hne : target ≠ place)
    (hmem : place ∈ s.workers.set worker target) : place ∈ s.workers :=
  (List.mem_or_eq_of_mem_set hmem).resolve_right fun heq => hne heq.symm

theorem Attended.move (hattended : s.Attended) {label : LifeStep} {worker : Nat} {source target : WorkerPlace}
    (hmoves : s.Moves label worker source target) (hplace : s.workers[worker]? = some source) :
    Attended { s with workers := s.workers.set worker target } := by
  have hsum := sum_awake_set hplace target
  refine ⟨hattended.running, fun hrunning hmem => ?_, fun hmem => ?_, fun hrunning hsleeps => ?_⟩
  · rcases List.mem_or_eq_of_mem_set hmem with hold | heq
    · exact hattended.stays hrunning hold
    · cases hmoves with
      | leaves _ hstopped =>
          rw [hstopped] at hrunning
          cases hrunning
      | _ => cases heq
  · rcases List.mem_or_eq_of_mem_set hmem with hold | heq
    · exact hattended.nothing hold
    · cases hmoves with
      | findsNothing _ _ _ hempty => exact hempty
      | _ => cases heq
  · have hold := hattended.attended hrunning
    have hsource : source ∈ s.workers := List.mem_of_getElem? hplace
    cases hmoves with
    | goesOn =>
        have hle := hold (hsleeps.imp (mem_of_mem_set (by decide)) (mem_of_mem_set (by decide)))
        simp only [awake] at hsum
        rw [Nat.add_right_cancel hsum]
        exact hle
    | leaves _ hstopped =>
        rw [hstopped] at hrunning
        cases hrunning
    | returns _ hstopped =>
        rw [hstopped] at hrunning
        cases hrunning
    | findsNothing _ _ _ hempty =>
        rw [hempty]
        exact Nat.zero_le _
    | waits =>
        rw [hattended.nothing hsource]
        exact Nat.zero_le _
    | wakes =>
        have hle := hold (.inl hsource)
        simp only [awake] at hsum
        simp only
        omega

theorem Attended.stopped (hattended : s.Attended) (hplace : s.mShutdown ≠ .notCalled) :
    s.mRunning = false := by
  rw [← Bool.not_eq_true, hattended.running]
  exact hplace

theorem Attended.of_stopped (hstopped : s.mRunning = false) (hplace : s.mShutdown ≠ .notCalled)
    (hnothing : .tested ∈ s.workers → s.pool.queued = []) : s.Attended := by
  have hnot : ¬ s.mRunning = true := by simp [hstopped]
  exact ⟨iff_of_false hnot hplace, fun h => absurd h hnot, hnothing, fun h => absurd h hnot⟩

theorem Attended.change (hattended : s.Attended) {label : LifeStep} (hchange : s.Change label s') :
    s'.Attended := by
  cases hchange with
  | same => exact hattended
  | delegate priority => exact ⟨hattended.running, hattended.stays, hattended.nothing, hattended.attended⟩
  | start priority => exact ⟨hattended.running, hattended.stays, hattended.nothing, hattended.attended⟩
  | @enqueue task priority hcall hfree =>
      refine ⟨hattended.running, hattended.stays, fun hmem => absurd hmem hfree, fun hrunning hsleeps => ?_⟩
      have hle := hattended.attended hrunning hsleeps
      simp only [length_queued_start]
      omega
  | notifyNone worker hnone =>
      refine ⟨hattended.running, hattended.stays, hattended.nothing, fun hrunning hsleeps => ?_⟩
      rw [hattended.nothing (hsleeps.resolve_left hnone)]
      exact Nat.zero_le _
  | @notifyOne worker hplace =>
      have hsource : .waiting ∈ s.workers := List.mem_of_getElem? hplace
      have hsum := sum_awake_set hplace .entering
      refine ⟨hattended.running, fun hrunning hmem => ?_, fun hmem => ?_, fun hrunning hsleeps => ?_⟩
      · exact hattended.stays hrunning (mem_of_mem_set (by decide) hmem)
      · exact hattended.nothing (mem_of_mem_set (by decide) hmem)
      · have hle := hattended.attended hrunning (.inl hsource)
        simp only [awake] at hsum
        simp only
        omega
  | move hmoves hplace => exact hattended.move hmoves hplace
  | @takeTask worker task pool hplace hdequeue hrunning hfree =>
      have hsum := sum_awake_set hplace (.running task)
      refine ⟨hattended.running, fun _ hmem => ?_, fun hmem => ?_, fun _ hsleeps => ?_⟩
      · exact hattended.stays hrunning (mem_of_mem_set (by simp) hmem)
      · exact absurd (mem_of_mem_set (by simp) hmem) hfree
      · have hle := hattended.attended hrunning
          (hsleeps.imp (mem_of_mem_set (by simp)) (mem_of_mem_set (by simp)))
        rw [length_queued_dequeue hdequeue] at hle
        simp only [awake] at hsum
        simp only
        omega
  | @finish worker task hplace =>
      have hsum := sum_awake_set hplace .looping
      refine ⟨hattended.running, fun hrunning hmem => ?_, fun hmem => ?_, fun hrunning hsleeps => ?_⟩
      · exact hattended.stays hrunning (mem_of_mem_set (by decide) hmem)
      · exact hattended.nothing (mem_of_mem_set (by decide) hmem)
      · have hle := hattended.attended hrunning
          (hsleeps.imp (mem_of_mem_set (by decide)) (mem_of_mem_set (by decide)))
        simp only [awake] at hsum
        simp only
        omega
  | store hplace => exact .of_stopped rfl (fun h => by cases h) hattended.nothing
  | notifyAll hplace =>
      refine .of_stopped (hattended.stopped (hplace ▸ fun h => by cases h)) (fun h => by cases h)
        fun hmem => ?_
      obtain ⟨place, hold, heq⟩ := List.mem_map.mp hmem
      cases place with
      | tested => exact hattended.nothing hold
      | _ => cases heq
  | takeWorkers hplace =>
      exact .of_stopped (hattended.stopped (hplace ▸ fun h => by cases h)) (fun h => by cases h)
        hattended.nothing
  | join hplace hexited =>
      exact .of_stopped (hattended.stopped (hplace ▸ fun h => by cases h)) (fun h => by cases h)
        hattended.nothing

theorem attended_after (n : Nat) (labels : List LifeStep) : (after n labels).Attended := by
  refine run_induction ⟨iff_of_true rfl rfl, fun _ hmem => ?_, fun _ => rfl, fun _ _ => Nat.zero_le _⟩
    (fun state label hattended => hattended.change (change_step state label)) labels
  cases List.eq_of_mem_replicate hmem

/-- A step of a worker that does not wait, or of `shutdown` once it has begun. -/
def ofWorker : LifeStep → Bool
  | .test _ | .dequeue _ | .wait _ | .finish _ => true
  | _ => false

def ofShutdown : LifeStep → Bool
  | .notifyAll | .takeWorkers | .join => true
  | _ => false

theorem set_ne {worker : Nat} {source target : WorkerPlace} (hplace : s.workers[worker]? = some source)
    (hne : target ≠ source) : s.workers.set worker target ≠ s.workers := by
  intro heq
  have hget := List.getElem?_set_self (List.getElem?_eq_some_iff.mp hplace).1 (a := target)
  rw [heq, hplace, Option.some.injEq] at hget
  exact hne hget.symm

theorem move_ne {worker : Nat} {source target : WorkerPlace} (hplace : s.workers[worker]? = some source)
    (hne : target ≠ source) : s.move worker source target ≠ s := by
  rw [move, if_pos hplace]
  exact fun heq => set_ne hplace hne (congrArg workers heq)

theorem dequeue_ne {worker : Nat} (hplace : s.workers[worker]? = some .entering)
    (hfree : .tested ∉ s.workers) : s.dequeue worker ≠ s := by
  intro heq
  rw [dequeue, if_neg (by simp [not_isLocked_iff.mpr hfree])] at heq
  split_ifs at heq
  · rw [hplace] at heq
    cases hdequeue : s.pool.dequeueTask with
    | none =>
        rw [hdequeue] at heq
        exact move_ne hplace (by decide) heq
    | some taken =>
        rw [hdequeue] at heq
        exact set_ne hplace (by simp) (congrArg workers heq)
  · exact move_ne hplace (by decide) heq

theorem finish_ne {worker : Nat} {task : Task} (hplace : s.workers[worker]? = some (.running task)) :
    s.finish worker ≠ s := by
  intro heq
  rw [finish, hplace] at heq
  exact set_ne hplace (by simp) (congrArg workers heq)

/-- Where no worker can go on, each waits or has left. -/
theorem waits_or_exited (hstuck : ∀ label, ofWorker label = true → s.step label = s) :
    ∀ place ∈ s.workers, place = .waiting ∨ place = .exited := by
  have hfree : .tested ∉ s.workers := by
    intro hmem
    obtain ⟨worker, hplace⟩ := List.mem_iff_getElem?.mp hmem
    exact move_ne hplace (by decide) (hstuck (.wait worker) rfl)
  intro place hmem
  obtain ⟨worker, hplace⟩ := List.mem_iff_getElem?.mp hmem
  cases place with
  | looping =>
      refine absurd (hstuck (.test worker) rfl) (move_ne hplace ?_)
      split_ifs <;> decide
  | entering => exact absurd (hstuck (.dequeue worker) rfl) (dequeue_ne hplace hfree)
  | tested => exact absurd hmem hfree
  | waiting => exact .inl rfl
  | running task => exact absurd (hstuck (.finish worker) rfl) (finish_ne hplace)
  | exited => exact .inr rfl

theorem Change.length_workers {label : LifeStep} (hchange : s.Change label s') :
    s'.workers.length = s.workers.length := by
  cases hchange with
  | notifyOne hplace => exact List.length_set
  | move hmoves hplace => exact List.length_set
  | takeTask hplace hdequeue hrunning hfree => exact List.length_set
  | finish hplace => exact List.length_set
  | notifyAll hplace => exact List.length_map _
  | _ => rfl

theorem length_workers_after (n : Nat) (labels : List LifeStep) : (after n labels).workers.length = n :=
  run_induction (P := fun state => state.workers.length = n) List.length_replicate
    (fun state label hlength => (change_step state label).length_workers.trans hlength) labels

theorem sum_map_eq_zero {f : WorkerPlace → Nat} {places : List WorkerPlace}
    (hzero : ∀ place ∈ places, f place = 0) : (places.map f).sum = 0 := by
  rw [List.sum_eq_zero_iff_forall_eq_nat]
  intro value hvalue
  obtain ⟨place, hplace, rfl⟩ := List.mem_map.mp hvalue
  exact hzero place hplace

/-- While the pool runs, no worker sleeps on a task: there is a worker on its way, or a notification to come,
for each. So when no call of `start` is under way and no worker can go on, every task has been finished or
left to the pool of Qt. -/
theorem attended_of_running (n : Nat) (labels : List LifeStep) (hworkers : 0 < n)
    (hrunning : (after n labels).mRunning = true) :
    ((after n labels).Sleeps → (after n labels).pool.queued.length ≤
        (after n labels).notifying + ((after n labels).workers.map awake).sum) ∧
      ((after n labels).starting = [] → (after n labels).notifying = 0 →
        (∀ label, ofWorker label = true → (after n labels).step label = after n labels) →
        ∀ task < (after n labels).submitted,
          task ∈ (after n labels).finished ∨ task ∈ (after n labels).delegated) := by
  have hattended := attended_after n labels
  refine ⟨hattended.attended hrunning, fun hstarting hnotifying hstuck task htask => ?_⟩
  have hwaiting : ∀ place ∈ (after n labels).workers, place = .waiting := by
    intro place hplace
    refine (waits_or_exited hstuck place hplace).resolve_right fun hexited => ?_
    exact hattended.stays hrunning (hexited ▸ hplace)
  have hsleeps : (after n labels).Sleeps := by
    obtain ⟨place, hplace⟩ := List.exists_mem_of_length_pos (Nat.lt_of_lt_of_eq hworkers
      (length_workers_after n labels).symm)
    exact .inl (hwaiting place hplace ▸ hplace)
  have hqueued : (after n labels).pool.queued = [] := by
    have hle := hattended.attended hrunning hsleeps
    rw [hnotifying, sum_map_eq_zero fun place hplace => hwaiting place hplace ▸ rfl] at hle
    exact List.length_eq_zero_iff.mp (Nat.le_zero.mp hle)
  have honce := tracked_after n labels task
  rw [occurs, hstarting, hqueued, sum_map_eq_zero fun place hplace => hwaiting place hplace ▸ rfl,
    if_pos htask] at honce
  simp only [List.map_nil, List.count_nil, Nat.zero_add] at honce
  rw [← List.count_pos_iff, ← List.count_pos_iff]
  omega

/-- Two workers, one of them in a task and one asleep. -/
def oneTask : List LifeStep :=
  [.start .normal, .enqueue 0, .notifyOne 1, .test 0, .dequeue 0, .test 1, .dequeue 1, .wait 1]

theorem attended_of_running_oneTask :
    ((after 2 oneTask).Sleeps → (after 2 oneTask).pool.queued.length ≤
        (after 2 oneTask).notifying + ((after 2 oneTask).workers.map awake).sum) ∧
      ((after 2 oneTask).starting = [] → (after 2 oneTask).notifying = 0 →
        (∀ label, ofWorker label = true → (after 2 oneTask).step label = after 2 oneTask) →
        ∀ task < (after 2 oneTask).submitted,
          task ∈ (after 2 oneTask).finished ∨ task ∈ (after 2 oneTask).delegated) :=
  attended_of_running 2 oneTask (by decide) (by decide)

/-! ### The end -/

theorem after_append (n : Nat) (labels more : List LifeStep) :
    after n (labels ++ more) = run step (after n labels) more :=
  run_append labels more

theorem Moves.source_ne {label : LifeStep} {worker : Nat} {source target : WorkerPlace}
    (hmoves : s.Moves label worker source target) : source ≠ .exited := by
  cases hmoves <;> decide

/-- When the joins are over no worker is left. -/
def Left (s : PoolLife) : Prop := s.mShutdown = .joined → ∀ place ∈ s.workers, place = .exited

theorem Left.not_at (hleft : s.Left) (hjoined : s.mShutdown = .joined) {worker : Nat} {place : WorkerPlace}
    (hplace : s.workers[worker]? = some place) : place = .exited :=
  hleft hjoined place (List.mem_of_getElem? hplace)

theorem Left.change (hleft : s.Left) {label : LifeStep} (hchange : s.Change label s') : s'.Left := by
  intro hjoined
  cases hchange with
  | notifyOne hplace => cases hleft.not_at hjoined hplace
  | move hmoves hplace => exact absurd (hleft.not_at hjoined hplace) hmoves.source_ne
  | takeTask hplace => cases hleft.not_at hjoined hplace
  | finish hplace => cases hleft.not_at hjoined hplace
  | store => cases hjoined
  | notifyAll => cases hjoined
  | takeWorkers => cases hjoined
  | join hplace hexited => exact hexited
  | _ => exact hleft hjoined

/-- The tasks that a pool whose joins are over has finished, and those that stand in its queues. -/
theorem Left.final (hleft : s.Left) (hjoined : s.mShutdown = .joined) {label : LifeStep}
    (hchange : s.Change label s') :
    s'.mShutdown = .joined ∧ s'.finished = s.finished ∧ ∀ task ∈ s.pool.queued, task ∈ s'.pool.queued := by
  cases hchange with
  | enqueue hcall hfree =>
      refine ⟨hjoined, rfl, fun task htask => ?_⟩
      rw [← List.count_pos_iff, ThreadPool.count_queued_start]
      exact Nat.lt_of_lt_of_le (List.count_pos_iff.mpr htask) (Nat.le_add_right _ _)
  | notifyOne hplace => cases hleft.not_at hjoined hplace
  | move hmoves hplace => exact absurd (hleft.not_at hjoined hplace) hmoves.source_ne
  | takeTask hplace => cases hleft.not_at hjoined hplace
  | finish hplace => cases hleft.not_at hjoined hplace
  | store hplace => cases hjoined.symm.trans hplace
  | notifyAll hplace => cases hjoined.symm.trans hplace
  | takeWorkers hplace => cases hjoined.symm.trans hplace
  | join hplace hexited => cases hjoined.symm.trans hplace
  | _ => exact ⟨hjoined, rfl, fun task htask => htask⟩

theorem left_after (n : Nat) (labels : List LifeStep) : (after n labels).Left :=
  run_induction (fun hjoined => by cases hjoined)
    (fun state label hleft => hleft.change (change_step state label)) labels

/-- In a cycle of `init` and `shutdown` each task submitted stands at every moment in one place, and no other
task in any. Once `shutdown` has returned no worker finishes a task any more: what stands in the queues then
is left there, with what calls of `start` that had found workers still put in, unless `init` is called
again. -/
theorem tasks_of_life (n : Nat) (labels : List LifeStep) :
    (∀ task, (after n labels).occurs task = if task < (after n labels).submitted then 1 else 0) ∧
      ((after n labels).mShutdown = .joined → ∀ more,
        (after n (labels ++ more)).finished = (after n labels).finished ∧
          ∀ task ∈ (after n labels).pool.queued, task ∈ (after n (labels ++ more)).pool.queued) := by
  refine ⟨tracked_after n labels, fun hjoined more => ?_⟩
  have hrun : (after n (labels ++ more)).mShutdown = .joined ∧
      (after n (labels ++ more)).finished = (after n labels).finished ∧
        ∀ task ∈ (after n labels).pool.queued, task ∈ (after n (labels ++ more)).pool.queued := by
    induction more using List.reverseRecOn with
    | nil =>
        rw [List.append_nil]
        exact ⟨hjoined, rfl, fun task htask => htask⟩
    | append_singleton more label ih =>
        obtain ⟨hstays, hfinished, hqueued⟩ := ih
        obtain ⟨hjoined', hfinished', hqueued'⟩ :=
          (left_after n (labels ++ more)).final hstays (change_step _ label)
        rw [← List.append_assoc, after_append n (labels ++ more), run_cons, run_nil]
        exact ⟨hjoined', hfinished'.trans hfinished, fun task htask => hqueued' task (hqueued task htask)⟩
  exact hrun.2

/-- Neither a later notification nor a spurious wakeup. -/
def quiet : LifeStep → Bool
  | .notifyOne _ | .wake _ => false
  | _ => true

/-- The notification of `shutdown` is over, and did not reach the worker. -/
structure Missed (s : PoolLife) (worker : Nat) : Prop where
  place : s.workers[worker]? = some .tested ∨ s.workers[worker]? = some .waiting
  called : s.mShutdown = .notified ∨ s.mShutdown = .joining

theorem Missed.ne_of_place {worker other : Nat} (hmissed : s.Missed worker) {place : WorkerPlace}
    (hplace : s.workers[other]? = some place) (htested : place ≠ .tested) (hwaiting : place ≠ .waiting) :
    other ≠ worker := by
  rintro rfl
  rcases hmissed.place with heq | heq
  · exact htested (Option.some.inj (hplace.symm.trans heq))
  · exact hwaiting (Option.some.inj (hplace.symm.trans heq))

theorem Missed.of_set {worker other : Nat} (hmissed : s.Missed worker) (hne : other ≠ worker)
    {target : WorkerPlace} (hworkers : s'.workers = s.workers.set other target)
    (hcalled : s'.mShutdown = s.mShutdown) : s'.Missed worker := by
  refine ⟨?_, hcalled ▸ hmissed.called⟩
  rw [hworkers, List.getElem?_set_ne hne]
  exact hmissed.place

theorem Missed.change {worker : Nat} (hmissed : s.Missed worker) {label : LifeStep}
    (hchange : s.Change label s') (hquiet : quiet label = true) : s'.Missed worker := by
  cases hchange with
  | notifyNone other hnone => cases hquiet
  | notifyOne hplace => cases hquiet
  | @move label other source target hmoves hplace =>
      rcases Decidable.em (other = worker) with rfl | hne
      · cases hmoves with
        | waits =>
            refine ⟨.inr ?_, hmissed.called⟩
            rw [List.getElem?_set_self (List.getElem?_eq_some_iff.mp hplace).1]
        | wakes => cases hquiet
        | _ => exact absurd rfl (hmissed.ne_of_place hplace (by decide) (by decide))
      · exact hmissed.of_set hne rfl rfl
  | takeTask hplace =>
      exact hmissed.of_set (hmissed.ne_of_place hplace (by decide) (by decide)) rfl rfl
  | finish hplace => exact hmissed.of_set (hmissed.ne_of_place hplace (by simp) (by simp)) rfl rfl
  | store hplace => rcases hmissed.called with hcalled | hcalled <;> cases hplace.symm.trans hcalled
  | notifyAll hplace => rcases hmissed.called with hcalled | hcalled <;> cases hplace.symm.trans hcalled
  | takeWorkers hplace => exact ⟨hmissed.place, .inr rfl⟩
  | join hplace hexited =>
      rcases hmissed.place with heq | heq <;> cases hexited _ (List.mem_of_getElem? heq)
  | _ => exact ⟨hmissed.place, hmissed.called⟩

theorem Missed.not_joined {worker : Nat} (hmissed : s.Missed worker) {more : List LifeStep}
    (hquiet : ∀ label ∈ more, quiet label = true) : (run step s more).mShutdown ≠ .joined := by
  induction more generalizing s with
  | nil =>
      intro hjoined
      rcases hmissed.called with hcalled | hcalled <;> cases hjoined.symm.trans hcalled
  | cons label rest ih =>
      obtain ⟨hlabel, hrest⟩ := List.forall_mem_cons.mp hquiet
      exact ih (hmissed.change (change_step s label) hlabel) hrest

/-- The pool is told to stop, and no worker waits or is about to. -/
structure Roused (s : PoolLife) : Prop where
  stopped : s.mRunning = false
  called : s.mShutdown = .notified ∨ s.mShutdown = .joining ∨ s.mShutdown = .joined
  places : ¬ s.Sleeps

/-- The steps that a worker has still to take. -/
def placeSteps : WorkerPlace → Nat
  | .running _ => 3
  | .entering => 2
  | .looping => 1
  | _ => 0

def shutdownSteps : ShutdownPlace → Nat
  | .notified => 2
  | .joining => 1
  | _ => 0

def stepsLeft (s : PoolLife) : Nat := (s.workers.map placeSteps).sum + shutdownSteps s.mShutdown

/-- The steps of a run in which a worker or `shutdown` goes on. -/
def busySteps (s : PoolLife) : List LifeStep → Nat
  | [] => 0
  | label :: rest =>
      (if (ofWorker label ∨ ofShutdown label) ∧ s.step label ≠ s then 1 else 0) +
        busySteps (s.step label) rest

/-- A step brings the end nearer if it is one of a worker or of `shutdown`. -/
def Nears (s s' : PoolLife) (label : LifeStep) : Prop :=
  s'.Roused ∧ s'.stepsLeft ≤ s.stepsLeft ∧
    (ofWorker label ∨ ofShutdown label → s' ≠ s → s'.stepsLeft < s.stepsLeft)

theorem Nears.of_lt {label : LifeStep} (hroused : s'.Roused) (hlt : s'.stepsLeft < s.stepsLeft) :
    Nears s s' label :=
  ⟨hroused, Nat.le_of_lt hlt, fun _ _ => hlt⟩

theorem Roused.set (hroused : s.Roused) {label : LifeStep} {worker : Nat} {source target : WorkerPlace}
    (hplace : s.workers[worker]? = some source) (hlt : placeSteps target < placeSteps source)
    (hwaiting : target ≠ .waiting) (htested : target ≠ .tested)
    (hworkers : s'.workers = s.workers.set worker target) (hrunning : s'.mRunning = s.mRunning)
    (hcalled : s'.mShutdown = s.mShutdown) : Nears s s' label := by
  refine .of_lt ⟨hrunning.trans hroused.stopped, hcalled ▸ hroused.called,
    fun hsleeps => hroused.places ?_⟩ ?_
  · rw [Sleeps, hworkers] at hsleeps
    exact hsleeps.imp (mem_of_mem_set hwaiting) (mem_of_mem_set htested)
  · have hsum := sum_map_set placeSteps hplace target
    rw [stepsLeft, stepsLeft, hworkers, hcalled]
    omega

theorem Roused.change (hroused : s.Roused) {label : LifeStep} (hchange : s.Change label s') :
    Nears s s' label := by
  obtain ⟨hstopped, hcalled, hplaces⟩ := hroused
  cases hchange with
  | same => exact ⟨⟨hstopped, hcalled, hplaces⟩, Nat.le_refl _, fun _ hne => absurd rfl hne⟩
  | notifyOne hplace => exact absurd (.inl (List.mem_of_getElem? hplace)) hplaces
  | @move label worker source target hmoves hplace =>
      have hsource := List.mem_of_getElem? hplace
      have hnearer : placeSteps target < placeSteps source ∧ target ≠ .waiting ∧ target ≠ .tested := by
        cases hmoves with
        | goesOn _ hrunning => cases hstopped.symm.trans hrunning
        | leaves => decide
        | returns => decide
        | findsNothing _ hrunning => cases hstopped.symm.trans hrunning
        | waits => exact absurd (.inr hsource) hplaces
        | wakes => exact absurd (.inl hsource) hplaces
      exact Roused.set ⟨hstopped, hcalled, hplaces⟩ hplace hnearer.1 hnearer.2.1 hnearer.2.2 rfl rfl rfl
  | takeTask _ _ hrunning => cases hstopped.symm.trans hrunning
  | finish hplace =>
      exact Roused.set ⟨hstopped, hcalled, hplaces⟩ hplace (by simp [placeSteps]) (by decide) (by decide)
        rfl rfl rfl
  | store hplace => rcases hcalled with hcalled | hcalled | hcalled <;> cases hplace.symm.trans hcalled
  | notifyAll hplace => rcases hcalled with hcalled | hcalled | hcalled <;> cases hplace.symm.trans hcalled
  | takeWorkers hplace =>
      refine .of_lt ⟨hstopped, .inr (.inl rfl), hplaces⟩ ?_
      rw [stepsLeft, stepsLeft, hplace]
      exact Nat.lt_succ_self _
  | join hplace hexited =>
      refine .of_lt ⟨hstopped, .inr (.inr rfl), hplaces⟩ ?_
      rw [stepsLeft, stepsLeft, hplace]
      exact Nat.lt_succ_self _
  | _ =>
      exact ⟨⟨hstopped, hcalled, hplaces⟩, Nat.le_refl _, fun hlabel => by cases hlabel <;> contradiction⟩

theorem Roused.run (hroused : s.Roused) (more : List LifeStep) :
    (run step s more).Roused ∧ busySteps s more + (run step s more).stepsLeft ≤ s.stepsLeft := by
  induction more generalizing s with
  | nil => exact ⟨hroused, Nat.le_of_eq (Nat.zero_add _)⟩
  | cons label rest ih =>
      obtain ⟨hnext, hle, hlt⟩ := hroused.change (change_step s label)
      obtain ⟨hfinal, hrest⟩ := ih hnext
      refine ⟨hfinal, ?_⟩
      rw [busySteps, run_cons]
      split_ifs with hbusy
      · have hless := hlt hbusy.1 hbusy.2
        omega
      · omega

/-- No worker and no step of `shutdown` can go on. -/
def Stuck (s : PoolLife) : Prop :=
  ∀ label, ofWorker label = true ∨ ofShutdown label = true → s.step label = s

theorem Roused.joined (hroused : s.Roused) (hstuck : s.Stuck) : s.mShutdown = .joined := by
  have hexited : ∀ place ∈ s.workers, place = .exited := by
    intro place hmem
    refine (waits_or_exited (fun label hlabel => hstuck label (.inl hlabel)) place hmem).resolve_left ?_
    exact fun hwaiting => hroused.places (.inl (hwaiting ▸ hmem))
  rcases hroused.called with hcalled | hcalled | hcalled
  · have htake := congrArg mShutdown (hstuck .takeWorkers (.inr rfl))
    have hfree := not_isLocked_iff.mpr fun hmem => hroused.places (.inr hmem)
    rw [step, if_pos ⟨hcalled, by simp [hfree]⟩, hcalled] at htake
    cases htake
  · have hjoin := congrArg mShutdown (hstuck .join (.inr rfl))
    rw [step, if_pos ⟨hcalled, by simpa using hexited⟩, hcalled] at hjoin
    cases hjoin
  · exact hcalled

theorem roused_notifyAll (hstopped : s.mRunning = false) (hstored : s.mShutdown = .stored)
    (hfree : .tested ∉ s.workers) : (s.step .notifyAll).Roused := by
  rw [step, if_pos hstored]
  refine ⟨hstopped, .inl rfl, ?_⟩
  rintro (hmem | hmem) <;> obtain ⟨place, hold, heq⟩ := List.mem_map.mp hmem
  · cases place <;> cases heq
  · cases place with
    | tested => exact hfree hold
    | _ => cases heq

theorem missed_notifyAll (hstored : s.mShutdown = .stored) (hmem : .tested ∈ s.workers) :
    ∃ worker, (s.step .notifyAll).Missed worker := by
  obtain ⟨worker, hplace⟩ := List.mem_iff_getElem?.mp hmem
  refine ⟨worker, ?_⟩
  rw [step, if_pos hstored]
  refine ⟨.inl ?_, .inl rfl⟩
  rw [List.getElem?_map, hplace]
  rfl

theorem sum_placeSteps_le (places : List WorkerPlace) : (places.map placeSteps).sum ≤ 3 * places.length := by
  induction places with
  | nil => exact Nat.le_refl _
  | cons place rest ih =>
      have hplace : placeSteps place ≤ 3 := by cases place <;> simp [placeSteps]
      rw [List.map_cons, List.sum_cons, List.length_cons]
      omega

theorem stepsLeft_le (s : PoolLife) : s.stepsLeft ≤ 3 * s.workers.length + 2 := by
  have hsum := sum_placeSteps_le s.workers
  have hcalled : shutdownSteps s.mShutdown ≤ 2 := by cases s.mShutdown <;> simp [shutdownSteps]
  rw [stepsLeft]
  omega

/-- Let `shutdown` have stored and be about to notify. If no worker is between its test and its wait, the
workers and `shutdown` take a bounded number of steps more, and where they can go no further `shutdown` has
returned. If one is, `shutdown` never returns, unless a call of `start` notifies once more or the worker wakes
by itself. -/
theorem shutdown_returns (n : Nat) (labels more : List LifeStep)
    (hstored : (after n labels).mShutdown = .stored) :
    (.tested ∉ (after n labels).workers →
        busySteps (after n (labels ++ [.notifyAll])) more ≤ 3 * n + 2 ∧
          ((after n (labels ++ .notifyAll :: more)).Stuck →
            (after n (labels ++ .notifyAll :: more)).mShutdown = .joined)) ∧
      (.tested ∈ (after n labels).workers → (∀ label ∈ more, quiet label = true) →
        (after n (labels ++ .notifyAll :: more)).mShutdown ≠ .joined) := by
  have hattended := attended_after n labels
  have hstopped := hattended.stopped (by rw [hstored]; decide)
  have hnotified : after n (labels ++ [.notifyAll]) = (after n labels).step .notifyAll := by
    rw [after_append, run_cons, run_nil]
  have hmore : after n (labels ++ .notifyAll :: more) = run step ((after n labels).step .notifyAll) more := by
    rw [after_append, run_cons]
  rw [hmore]
  refine ⟨fun hfree => ?_, fun hmem hquiet => ?_⟩
  · obtain ⟨hroused, hbusy⟩ := (roused_notifyAll hstopped hstored hfree).run more
    have hle := (after n (labels ++ [.notifyAll])).stepsLeft_le
    rw [length_workers_after] at hle
    refine ⟨?_, hroused.joined⟩
    rw [← hnotified] at hbusy
    omega
  · obtain ⟨worker, hmissed⟩ := missed_notifyAll hstored hmem
    exact hmissed.not_joined hquiet

/-- One worker has just found the queues empty. -/
def storedAfterTest : List LifeStep := [.test 0, .dequeue 0, .store]

theorem shutdown_returns_missed :
    (after 1 (storedAfterTest ++ [.notifyAll, .wait 0, .takeWorkers, .join])).mShutdown ≠ .joined :=
  (shutdown_returns 1 storedAfterTest [.wait 0, .takeWorkers, .join] (by decide)).2 (by decide) (by decide)

end SoulCoreKit.Async.PoolLife
