import Mathlib.Data.List.Basic
import SoulCoreKit.Async.ThreadPool

/-!
# Whether a task of low priority gets its turn

`dequeueTask` counts up at the front of the low queue only where it takes that task anyway, so the count
never lets one pass. A task of low priority is returned in time exactly where `dequeueTask` finds the other
queues empty in time. The order within a priority does not depend on that, nor does it that no task is lost
or returned twice.
-/

namespace SoulCoreKit.Async

namespace ThreadPool

variable {p : ThreadPool}

theorem queue_start (task : Task) (priority other : Priority) :
    (p.start task priority).queue other = p.queue other ++ if priority = other then [task] else [] := by
  cases priority <;> cases other <;> simp [start, queue]

/-- There is nothing of a higher priority than low. -/
def OnlyLow (p : ThreadPool) : Prop := p.mHighQueue = [] ∧ p.mNormalQueue = []

instance : Decidable p.OnlyLow := inferInstanceAs (Decidable (_ ∧ _))

/-- A task is taken off the front of one queue, of the low one only where the others are empty. -/
theorem dequeueTask_cases {task : Task} {p' : ThreadPool} (hdequeue : p.dequeueTask = some (task, p')) :
    ∃ priority, p.queue priority = task :: p'.queue priority ∧
      (∀ other, other ≠ priority → p'.queue other = p.queue other) ∧ (priority = .low ↔ p.OnlyLow) := by
  unfold dequeueTask at hdequeue
  split at hdequeue
  · rename_i hhigh
    obtain ⟨rfl, rfl⟩ := by simpa using hdequeue
    refine ⟨.high, hhigh, fun other hother => ?_, by simp [OnlyLow, hhigh]⟩
    cases other <;> first | contradiction | rfl
  · rename_i hhigh hnormal
    obtain ⟨rfl, rfl⟩ := by simpa using hdequeue
    refine ⟨.normal, hnormal, fun other hother => ?_, by simp [OnlyLow, hnormal]⟩
    cases other <;> first | contradiction | rfl
  · rename_i hhigh hnormal hlow
    obtain ⟨rfl, rfl⟩ := by simpa using hdequeue
    refine ⟨.low, by simp [queue, hlow], fun other hother => ?_, by simp [OnlyLow, hhigh, hnormal]⟩
    cases other <;> first | contradiction | rfl
  · contradiction

theorem queue_of_dequeueTask_none (hdequeue : p.dequeueTask = none) (priority : Priority) :
    p.queue priority = [] := by
  unfold dequeueTask at hdequeue
  split at hdequeue
  · contradiction
  · contradiction
  · simp at hdequeue
  · rename_i hhigh hnormal hlow
    cases priority <;> simp [queue, hhigh, hnormal, hlow]

end ThreadPool

/-- The tasks of a priority, in the order in which they were submitted. -/
def tasksOf (submitted : List Priority) (priority : Priority) : List Task :=
  (List.range submitted.length).filter fun task => submitted[task]? = some priority

theorem mem_tasksOf {submitted : List Priority} {priority : Priority} {task : Task} :
    task ∈ tasksOf submitted priority ↔ submitted[task]? = some priority := by
  rw [tasksOf, List.mem_filter, List.mem_range, decide_eq_true_eq]
  refine and_iff_right_of_imp fun htask => ?_
  exact (List.getElem?_eq_some_iff.mp htask).1

theorem tasksOf_concat (submitted : List Priority) (last priority : Priority) :
    tasksOf (submitted ++ [last]) priority =
      tasksOf submitted priority ++ if last = priority then [submitted.length] else [] := by
  have hold : ∀ task ∈ List.range submitted.length,
      decide ((submitted ++ [last])[task]? = some priority) = decide (submitted[task]? = some priority) := by
    intro task htask
    rw [List.getElem?_append_left (List.mem_range.mp htask)]
  rw [tasksOf, List.length_append, List.length_singleton, List.range_succ, List.filter_append,
    List.filter_congr hold, List.filter_cons, List.getElem?_concat_length]
  by_cases hlast : last = priority <;> simp [tasksOf, hlast]

theorem nodup_tasksOf (submitted : List Priority) (priority : Priority) :
    (tasksOf submitted priority).Nodup :=
  List.nodup_range.filter _

namespace QueueRun

variable {s : QueueRun}

/-- The returned tasks of a priority. -/
def returnedOf (s : QueueRun) (priority : Priority) : List Task :=
  s.returned.filter fun task => s.submitted[task]? = some priority

/-- The tasks of a priority are those that were returned and those that wait, in this order. -/
structure InOrder (s : QueueRun) : Prop where
  order : ∀ priority, s.returnedOf priority ++ s.pool.queue priority = tasksOf s.submitted priority
  bounded : ∀ task ∈ s.returned, task < s.submitted.length

theorem InOrder.mem_of_queue (horder : s.InOrder) {priority : Priority} {task : Task}
    (htask : task ∈ s.pool.queue priority) : s.submitted[task]? = some priority ∧ task ∉ s.returned := by
  have hmem : task ∈ tasksOf s.submitted priority := by
    rw [← horder.order]
    exact List.mem_append_right _ htask
  have hpriority := mem_tasksOf.mp hmem
  refine ⟨hpriority, fun hreturned => ?_⟩
  have hdisjoint := nodup_tasksOf s.submitted priority
  rw [← horder.order, List.nodup_append] at hdisjoint
  exact hdisjoint.2.2 task (List.mem_filter.mpr ⟨hreturned, decide_eq_true hpriority⟩) task htask rfl

theorem InOrder.step (horder : s.InOrder) (label : QueueStep) : (s.step label).InOrder := by
  cases label with
  | start priority =>
      have hsame : ∀ task ∈ s.returned, ∀ other,
          decide ((s.submitted ++ [priority])[task]? = some other) =
            decide (s.submitted[task]? = some other) := by
        intro task htask other
        rw [List.getElem?_append_left (horder.bounded task htask)]
      constructor
      · intro other
        have hreturned : (s.step (.start priority)).returnedOf other = s.returnedOf other :=
          List.filter_congr fun task htask => hsame task htask other
        change _ ++ (s.pool.start s.submitted.length priority).queue other =
          tasksOf (s.submitted ++ [priority]) other
        rw [hreturned, ThreadPool.queue_start, tasksOf_concat, ← List.append_assoc, horder.order]
      · intro task htask
        have hbound := horder.bounded task htask
        change task < (s.submitted ++ [priority]).length
        rw [List.length_append]
        exact Nat.lt_add_right _ hbound
  | dequeue =>
      rw [QueueRun.step]
      cases hdequeue : s.pool.dequeueTask with
      | none => exact horder
      | some taken =>
          obtain ⟨task, pool⟩ := taken
          obtain ⟨priority, hqueue, hothers, -⟩ := ThreadPool.dequeueTask_cases hdequeue
          obtain ⟨hpriority, -⟩ := horder.mem_of_queue (by rw [hqueue]; exact List.mem_cons_self)
          constructor
          · intro other
            change (s.returned ++ [task]).filter _ ++ pool.queue other = _
            rw [List.filter_append, List.filter_cons, hpriority, ← horder.order]
            by_cases hother : other = priority
            · subst hother
              simp [hqueue, returnedOf]
            · rw [hothers other hother]
              simp [returnedOf, Ne.symm hother]
          · intro other hother
            obtain hold | hnew := List.mem_append.mp hother
            · exact horder.bounded other hold
            · rw [List.mem_singleton.mp hnew]
              exact (List.getElem?_eq_some_iff.mp hpriority).1

theorem InOrder.run (labels : List QueueStep) : (run QueueRun.step {} labels).InOrder :=
  run_induction ⟨fun priority => by cases priority <;> rfl, by simp⟩ (fun _ label h => h.step label) labels

theorem count_tasksOf (submitted : List Priority) (priority : Priority) (task : Task) :
    (tasksOf submitted priority).count task = if submitted[task]? = some priority then 1 else 0 := by
  rw [(nodup_tasksOf submitted priority).count]
  simp only [mem_tasksOf]

theorem count_returnedOf (priority : Priority) (task : Task)
    (hpriority : s.submitted[task]? = some priority) :
    (s.returnedOf priority).count task = s.returned.count task :=
  List.count_filter (decide_eq_true hpriority)

/-- A task that was submitted was returned once or waits in one place. -/
theorem InOrder.once (horder : s.InOrder) {task : Task} (htask : task < s.submitted.length) :
    s.returned.count task + s.pool.queued.count task = 1 := by
  have hcount : ∀ priority, (s.returnedOf priority).count task + (s.pool.queue priority).count task =
      if s.submitted[task]? = some priority then 1 else 0 := by
    intro priority
    rw [← List.count_append, horder.order, count_tasksOf]
  have hqueued : s.pool.queued.count task = (s.pool.queue .high).count task +
      (s.pool.queue .normal).count task + (s.pool.queue .low).count task := by
    rw [ThreadPool.queued, List.count_append, List.count_append]
    rfl
  have hhigh := hcount .high
  have hnormal := hcount .normal
  have hlow := hcount .low
  have hpriority := List.getElem?_eq_getElem htask
  rw [hqueued, ← count_returnedOf _ _ hpriority]
  generalize s.submitted[task] = priority at hpriority ⊢
  cases priority <;> simp [hpriority] at hhigh hnormal hlow ⊢ <;> omega

/-- The task at the front of the low queue. -/
def frontLow (s : QueueRun) : Option Task := s.pool.mLowQueue.head?.map StarvationTask.task

/-- While a task is at the front of the low queue, at most `kStarvationThreshold` others are returned. -/
def Prompt (labels : List QueueStep) : Prop :=
  ∀ before during, before ++ during <+: labels → ∀ task, (run step {} before).frontLow = some task →
    task ∉ (run step {} (before ++ during)).returned →
      (run step {} (before ++ during)).returned.length ≤
        (run step {} before).returned.length + kStarvationThreshold

/-- What the pool is to do with its tasks. -/
structure Serves (labels : List QueueStep) : Prop where
  prompt : Prompt labels
  order : ∀ priority, (run step {} labels).returnedOf priority <+:
    tasksOf (run step {} labels).submitted priority
  once : ∀ task < (run step {} labels).submitted.length,
    (run step {} labels).returned.count task + (run step {} labels).pool.queued.count task = 1

/-- A call of `dequeueTask` finds nothing but tasks of low priority. -/
def LetsLow (before during : List QueueStep) : Prop :=
  ∃ front rest, during = front ++ .dequeue :: rest ∧ (run step {} (before ++ front)).pool.OnlyLow

/-- Of more than `kStarvationThreshold` calls of `dequeueTask` while a task of low priority waits, one
finds the other queues empty. -/
def Yields (labels : List QueueStep) : Prop :=
  ∀ before during, before ++ during <+: labels → (run step {} before).pool.mLowQueue ≠ [] →
    kStarvationThreshold < during.count .dequeue → LetsLow before during

theorem LetsLow.concat {before during : List QueueStep} (hlets : LetsLow before during)
    (label : QueueStep) : LetsLow before (during ++ [label]) := by
  obtain ⟨front, rest, rfl, honly⟩ := hlets
  exact ⟨front, rest ++ [label], by simp, honly⟩

theorem LetsLow.of_concat {before during : List QueueStep} {label : QueueStep}
    (hlets : LetsLow before (during ++ [label])) :
    LetsLow before during ∨ label = .dequeue ∧ (run step {} (before ++ during)).pool.OnlyLow := by
  obtain ⟨front, rest, hparts, honly⟩ := hlets
  obtain rfl | ⟨rest, last, rfl⟩ := List.eq_nil_or_concat' rest
  · obtain ⟨rfl, hlabel⟩ := List.append_inj' hparts rfl
    exact .inr ⟨List.singleton_inj.mp hlabel, honly⟩
  · rw [← List.cons_append, ← List.append_assoc] at hparts
    obtain ⟨rfl, -⟩ := List.append_inj' hparts rfl
    exact .inl ⟨front, rest, rfl, honly⟩

theorem mem_returned_step {task : Task} (htask : task ∈ s.returned) (label : QueueStep) :
    task ∈ (s.step label).returned := by
  cases label with
  | start priority => exact htask
  | dequeue =>
      rw [QueueRun.step]
      split
      · exact List.mem_append_left _ htask
      · exact htask

theorem frontLow_eq (s : QueueRun) : s.frontLow = (s.pool.queue .low).head? := List.head?_map.symm

/-- The task at the front of the low queue is returned where the other queues are empty, and stays at the
front otherwise. -/
theorem frontLow_step {task : Task} (hfront : s.frontLow = some task) (label : QueueStep) :
    (label = .dequeue ∧ s.pool.OnlyLow) ∧ task ∈ (s.step label).returned ∨
      ¬(label = .dequeue ∧ s.pool.OnlyLow) ∧ (s.step label).frontLow = some task ∧
        (s.step label).returned.length = s.returned.length + [label].count .dequeue := by
  rw [frontLow_eq] at hfront
  obtain ⟨rest, hlow⟩ := List.head?_eq_some_iff.mp hfront
  cases label with
  | start priority =>
      refine .inr ⟨by simp, ?_, rfl⟩
      change frontLow { s with pool := s.pool.start s.submitted.length priority, submitted := _ } = _
      rw [frontLow_eq, ThreadPool.queue_start, hlow, List.cons_append, List.head?_cons]
  | dequeue =>
      rw [QueueRun.step]
      cases hdequeue : s.pool.dequeueTask with
      | none => simp [ThreadPool.queue_of_dequeueTask_none hdequeue] at hlow
      | some taken =>
          obtain ⟨other, pool⟩ := taken
          obtain ⟨priority, hqueue, hothers, honly⟩ := ThreadPool.dequeueTask_cases hdequeue
          by_cases hpriority : priority = .low
          · have hsame : other = task := by
              rw [hpriority, hlow] at hqueue
              exact (List.cons.inj hqueue).1.symm
            exact .inl ⟨⟨rfl, honly.mp hpriority⟩, hsame ▸ List.mem_append_right _ List.mem_cons_self⟩
          · refine .inr ⟨fun h => hpriority (honly.mpr h.2), ?_, by simp⟩
            rw [frontLow_eq, hothers .low (Ne.symm hpriority), hfront]

/-- From a moment at which a task is at the front of the low queue, every call of `dequeueTask` returns
another one until a call finds the other queues empty. -/
theorem passed {before : List QueueStep} {task : Task} (hfront : (run step {} before).frontLow = some task)
    (during : List QueueStep) :
    LetsLow before during ∧ task ∈ (run step {} (before ++ during)).returned ∨
      ¬LetsLow before during ∧ (run step {} (before ++ during)).frontLow = some task ∧
        (run step {} (before ++ during)).returned.length =
          (run step {} before).returned.length + during.count .dequeue := by
  induction during using List.reverseRecOn with
  | nil => exact .inr ⟨by simp [LetsLow], by rwa [List.append_nil], by simp⟩
  | append_singleton during label ih =>
      rw [← List.append_assoc, run_concat]
      obtain ⟨hlets, htask⟩ | ⟨hkeeps, hstays, hlength⟩ := ih
      · exact .inl ⟨hlets.concat label, mem_returned_step htask label⟩
      · obtain ⟨⟨rfl, honly⟩, htask⟩ | ⟨hother, hstays', hlength'⟩ := frontLow_step hstays label
        · exact .inl ⟨⟨during, [], rfl, honly⟩, htask⟩
        · refine .inr ⟨fun hlets => ?_, hstays', ?_⟩
          · exact hlets.of_concat.elim hkeeps hother
          · rw [hlength', hlength, List.count_append, Nat.add_assoc]

theorem prompt_iff_yields (labels : List QueueStep) : Prompt labels ↔ Yields labels := by
  constructor
  · intro hprompt before during hrun hlow hmany
    obtain ⟨st, rest, hqueue⟩ := List.exists_cons_of_ne_nil hlow
    have hfront : (run step {} before).frontLow = some st.task := by rw [frontLow, hqueue]; rfl
    obtain ⟨hlets, -⟩ | ⟨-, hstays, hlength⟩ := passed hfront during
    · exact hlets
    · have hmem : st.task ∈ (run step {} (before ++ during)).pool.queue .low :=
        List.mem_of_mem_head? (frontLow_eq _ ▸ hstays)
      have hwaits := ((InOrder.run (before ++ during)).mem_of_queue hmem).2
      have hle := hprompt before during hrun st.task hfront hwaits
      omega
  · intro hyields before during hrun task hfront hwaits
    obtain ⟨-, htask⟩ | ⟨hkeeps, -, hlength⟩ := passed hfront during
    · exact absurd htask hwaits
    · have hlow : (run step {} before).pool.mLowQueue ≠ [] := by
        intro hempty
        rw [frontLow, hempty] at hfront
        contradiction
      have hfew := mt (hyields before during hrun hlow) hkeeps
      omega

/-- The tasks of each priority are returned in order, each once, in every run. A task of low priority
gets its turn in time exactly where the calls of `dequeueTask` leave it one. -/
theorem serves_iff_yields (labels : List QueueStep) : Serves labels ↔ Yields labels := by
  rw [← prompt_iff_yields]
  refine ⟨Serves.prompt, fun hprompt => ⟨hprompt, fun priority => ?_, fun task => ?_⟩⟩
  · exact ⟨_, (InOrder.run labels).order priority⟩
  · exact (InOrder.run labels).once

/-- One task of low priority behind eleven of high priority. -/
theorem not_serves_starved :
    ¬Serves (.start .low :: List.replicate 11 (.start .high) ++ List.replicate 11 .dequeue) := by
  intro hserves
  have hle := hserves.prompt (.start .low :: List.replicate 11 (.start .high)) (List.replicate 11 .dequeue)
    (List.prefix_refl _) 0 (by decide) (by decide)
  exact absurd hle (by decide)

end QueueRun

end SoulCoreKit.Async
