import SoulCoreKit.Scheduler.TaskRun

/-!
# What a scheduler does to its tasks

All that is done with a scheduler comes to each of its tasks as calls and ticks of its own. So a task lives
as it would alone, and one that runs is in the scheduler or was started by another who has not stopped it
since.
-/

namespace SoulCoreKit.Scheduler

section

set_option linter.dupNamespace false

namespace Scheduler

variable {accepts : Int → Bool} {name : Nat → String} {task : Nat → ScheduledTask} {s : Scheduler} {id : Nat}

/-! ### Each task lives as it would alone -/

/-- The second state comes of calls on the task in the first one. -/
def Follows (accepts : Int → Bool) (task : ScheduledTask) (before later : TaskRun) : Prop :=
  ∃ calls, later = TaskRun.execAll accepts task before calls

theorem Follows.refl (t : TaskRun) : Follows accepts (task id) t t := ⟨[], rfl⟩

theorem execAll_append (t : TaskRun) (first second : List Call) :
    TaskRun.execAll accepts (task id) t (first ++ second) =
      TaskRun.execAll accepts (task id) (TaskRun.execAll accepts (task id) t first) second := by
  induction first generalizing t with
  | nil => rfl
  | cons call rest ih =>
      rw [List.cons_append, TaskRun.execAll, TaskRun.execAll]
      exact ih _

theorem Follows.trans {first second third : TaskRun} (hfirst : Follows accepts (task id) first second)
    (hsecond : Follows accepts (task id) second third) : Follows accepts (task id) first third := by
  obtain ⟨calls, rfl⟩ := hfirst
  obtain ⟨more, rfl⟩ := hsecond
  exact ⟨calls ++ more, (execAll_append ..).symm⟩

theorem tasks_update (other : Nat) (t : TaskRun) :
    (s.update other t).tasks id = if id = other then t else s.tasks id :=
  Function.update_apply ..

theorem follows_startOne (other : Nat) (now : QDateTime) :
    Follows accepts (task id) (s.tasks id) ((s.startOne accepts task other now).1.tasks id) := by
  rw [startOne, tasks_update]
  split_ifs with hid
  · exact hid ▸ ⟨[.start now], rfl⟩
  · exact Follows.refl _

theorem follows_stopOne (other : Nat) :
    Follows accepts (task id) (s.tasks id) ((s.stopOne other).tasks id) := by
  change Follows _ _ _ ((s.update other _).tasks id)
  rw [tasks_update]
  split_ifs with hid
  · exact hid ▸ ⟨[.stop], rfl⟩
  · exact Follows.refl _

theorem follows_startEach (now : Nat → QDateTime) (ids : List Nat) :
    Follows accepts (task id) (s.tasks id) ((s.startEach accepts task now ids).1.tasks id) := by
  induction ids generalizing s with
  | nil => exact Follows.refl _
  | cons first rest ih =>
      have hfirst : Follows accepts (task id) (s.tasks id)
          ((s.startOne accepts task first (now first)).1.tasks id) := follows_startOne first (now first)
      rw [startEach]
      rcases hstart : s.startOne accepts task first (now first) with ⟨started, threw⟩
      rw [hstart] at hfirst
      cases threw with
      | true => exact hfirst
      | false => exact hfirst.trans ih

theorem follows_stopAll (ids : List Nat) :
    Follows accepts (task id) (s.tasks id) ((ids.foldl stopOne s).tasks id) := by
  induction ids generalizing s with
  | nil => exact Follows.refl _
  | cons first rest ih => exact (follows_stopOne first).trans ih

theorem follows_addTask (other : Nat) :
    Follows accepts (task id) (s.tasks id) ((s.addTask name other).tasks id) := by
  rw [addTask]
  split
  · exact follows_stopOne _
  · exact Follows.refl _

theorem follows_removeTask (wanted : String) :
    Follows accepts (task id) (s.tasks id) ((s.removeTask name wanted).tasks id) := by
  rw [removeTask]
  split
  · exact follows_stopOne _
  · exact Follows.refl _

theorem follows_startTask (wanted : String) (now : QDateTime) :
    Follows accepts (task id) (s.tasks id) ((s.startTask accepts name task wanted now).1.tasks id) := by
  rw [startTask]
  split
  · exact follows_startOne _ _
  · exact Follows.refl _

theorem follows_stopTask (wanted : String) :
    Follows accepts (task id) (s.tasks id) ((s.stopTask name wanted).tasks id) := by
  rw [stopTask]
  split
  · exact follows_stopOne _
  · exact Follows.refl _

/-- What a callback does to its own task, the task may have been called to do within its own callback. -/
theorem follows_triggerNow {s called : Scheduler} {other : Nat} (hidle : (s.tasks other).mExecuting = false)
    (hcalled : Follows accepts (task id)
      ((s.update other { s.tasks other with mExecuting := true }).tasks id) (called.tasks id))
    (returned : Option QDateTime) :
    Follows accepts (task id) (s.tasks id)
      ((called.update other ((called.tasks other).executed returned)).tasks id) := by
  rw [tasks_update] at hcalled ⊢
  split_ifs at hcalled ⊢ with hid
  · subst hid
    obtain ⟨calls, hcalls⟩ := hcalled
    refine ⟨[.triggerNow calls returned], ?_⟩
    rw [TaskRun.execAll, TaskRun.execAll, TaskRun.exec, if_neg (by rw [hidle]; decide), hcalls]
  · exact hcalled

mutual

theorem follows_exec (s : Scheduler) : ∀ call : SchedulerCall,
    Follows accepts (task id) (s.tasks id) ((exec accepts name task s call).1.tasks id)
  | .addTask none => Follows.refl _
  | .addTask (some other) => follows_addTask other
  | .removeTask wanted => follows_removeTask wanted
  | .startAll now => follows_startEach now s.mTasks
  | .stopAll => follows_stopAll s.mTasks
  | .startTask wanted now => follows_startTask wanted now
  | .stopTask wanted => follows_stopTask wanted
  | .start other now => follows_startOne other now
  | .stop other => follows_stopOne other
  | .triggerNow other callback returned => by
      rw [exec]
      split_ifs with hexecuting
      · exact Follows.refl _
      · rw [Bool.not_eq_true] at hexecuting
        exact follows_triggerNow hexecuting (follows_execAll _ callback) returned

theorem follows_execAll (s : Scheduler) : ∀ calls : List SchedulerCall,
    Follows accepts (task id) (s.tasks id) ((execAll accepts name task s calls).tasks id)
  | [] => Follows.refl _
  | call :: rest => (follows_exec s call).trans (follows_execAll (exec accepts name task s call).1 rest)

end

theorem tasks_update_self (t : TaskRun) : (s.update id t).tasks id = t :=
  Function.update_self ..

theorem tasks_update_of_ne {other : Nat} (hother : id ≠ other) (t : TaskRun) :
    (s.update other t).tasks id = s.tasks id :=
  Function.update_of_ne hother ..

/-- A tick of the task is one of it alone, with a callback that makes the calls that concern it. -/
theorem exists_onTimerTick (callback : List SchedulerCall) (returned : Option QDateTime) (now : QDateTime) :
    ∃ calls, (s.onTimerTick accepts name task id callback returned now).tasks id =
      (s.tasks id).onTimerTick accepts (task id) calls returned now := by
  obtain ⟨ticking, hticking⟩ : ∃ ticking : TaskRun, ticking = { s.tasks id with armed := false } := ⟨_, rfl⟩
  obtain ⟨calls, hcalls⟩ : Follows accepts (task id)
      (((s.update id ticking).update id { ticking with mExecuting := true }).tasks id)
      ((execAll accepts name task ((s.update id ticking).update id { ticking with mExecuting := true })
        callback).tasks id) := follows_execAll _ callback
  rw [tasks_update_self] at hcalls
  refine ⟨calls, ?_⟩
  rw [onTimerTick, TaskRun.onTimerTick, ← hticking, exec, TaskRun.exec, tasks_update_self]
  by_cases hrunning : ticking.mRunning = true
  · rw [if_pos hrunning, if_pos hrunning]
    by_cases hexecuting : ticking.mExecuting = true
    · rw [if_pos hexecuting, if_pos hexecuting]
      dsimp only
      rw [tasks_update_self, if_pos hrunning, if_pos hrunning, tasks_update_self]
    · rw [if_neg hexecuting, if_neg hexecuting]
      cases returned with
      | none =>
          dsimp only [Option.isNone_none]
          rw [tasks_update_self, hcalls]
      | some time =>
          dsimp only [Option.isNone_some]
          rw [tasks_update_self, hcalls]
          split_ifs
          · rw [tasks_update_self]
          · rw [tasks_update_self]
  · rw [if_neg hrunning, if_neg hrunning, tasks_update_self]

theorem follows_onTimerTick {other : Nat} (hother : id ≠ other) (callback : List SchedulerCall)
    (returned : Option QDateTime) (now : QDateTime) :
    Follows accepts (task id) (s.tasks id)
      ((s.onTimerTick accepts name task other callback returned now).tasks id) := by
  obtain ⟨ticking, hticking⟩ : ∃ ticking : TaskRun, ticking = { s.tasks other with armed := false } :=
    ⟨_, rfl⟩
  have hexec : Follows accepts (task id) (s.tasks id)
      ((exec accepts name task (s.update other ticking)
        (.triggerNow other callback returned)).1.tasks id) := by
    rw [← tasks_update_of_ne hother ticking]
    exact follows_exec _ _
  rw [onTimerTick, ← hticking]
  rcases hcall : exec accepts name task (s.update other ticking) (.triggerNow other callback returned) with
    ⟨called, threw⟩
  rw [hcall] at hexec
  split_ifs
  · cases threw with
    | true => exact hexec
    | false =>
        dsimp only
        split_ifs
        · rw [tasks_update_of_ne hother]
          exact hexec
        · exact hexec
  · rw [tasks_update_of_ne hother]
    exact Follows.refl _

theorem run_call (t : TaskRun) (calls : List Call) :
    run (TaskRun.step accepts (task id)) t (calls.map .call) = TaskRun.execAll accepts (task id) t calls := by
  induction calls generalizing t with
  | nil => rfl
  | cons call rest ih =>
      rw [List.map_cons, run_cons, TaskRun.execAll]
      exact ih _

theorem exists_step (event : SchedulerEvent) : ∃ events, (step accepts name task s event).tasks id =
    run (TaskRun.step accepts (task id)) (s.tasks id) events := by
  have hfollows : ∀ later : Scheduler, Follows accepts (task id) (s.tasks id) (later.tasks id) →
      ∃ events, later.tasks id = run (TaskRun.step accepts (task id)) (s.tasks id) events := by
    rintro later ⟨calls, hcalls⟩
    exact ⟨calls.map .call, by rw [hcalls, run_call]⟩
  cases event with
  | call call => exact hfollows _ (follows_exec s call)
  | timerTick other callback returned now =>
      rw [step]
      split_ifs with harmed
      · by_cases hid : id = other
        · subst hid
          obtain ⟨calls, hcalls⟩ := exists_onTimerTick (s := s) callback returned now
          refine ⟨[.timerTick calls returned now], ?_⟩
          rw [hcalls, run_cons, run_nil, TaskRun.step, if_pos harmed]
        · exact hfollows _ (follows_onTimerTick hid callback returned now)
      · exact ⟨[], rfl⟩

/-- Whatever is done with a scheduler and its tasks, each task is in a state that it can come to alone. -/
theorem alone_of_run (events : List SchedulerEvent) (id : Nat) :
    ∃ alone, (after accepts name task events).tasks id = run (TaskRun.step accepts (task id)) {} alone := by
  refine run_induction
    (P := fun s : Scheduler => ∃ alone, s.tasks id = run (TaskRun.step accepts (task id)) {} alone)
    ⟨[], rfl⟩ ?_ events
  rintro s event ⟨alone, halone⟩
  obtain ⟨more, hmore⟩ : ∃ more, (step accepts name task s event).tasks id =
      run (TaskRun.step accepts (task id)) (s.tasks id) more := exists_step event
  exact ⟨alone ++ more, by rw [run_append, ← halone, hmore]⟩

/-! ### A task that runs has someone to stop it -/

/-- No two tasks have the same name, and each that runs is in the scheduler or was started by another. -/
structure Owned (name : Nat → String) (s : Scheduler) : Prop where
  distinct : (s.mTasks.map name).Nodup
  running : ∀ id, (s.tasks id).mRunning = true → id ∈ s.mTasks ∨ id ∈ s.held
  armed : ∀ id, (s.tasks id).armed = true → (s.tasks id).mRunning = true

theorem Owned.update (howned : s.Owned name) {t : TaskRun}
    (hrunning : t.mRunning = true → (s.tasks id).mRunning = true ∨ id ∈ s.mTasks ∨ id ∈ s.held)
    (harmed : t.armed = true → t.mRunning = true) : (s.update id t).Owned name where
  distinct := howned.distinct
  running := by
    intro other hother
    rw [tasks_update] at hother
    split_ifs at hother with hsame
    · rw [hsame]
      exact (hrunning hother).elim (howned.running id) fun hin => hin
    · exact howned.running other hother
  armed := by
    intro other hother
    rw [tasks_update] at hother ⊢
    split_ifs at hother ⊢ with hsame
    · exact harmed hother
    · exact howned.armed other hother

/-- A stopped task may leave the list. -/
theorem Owned.stopOne (howned : s.Owned name) {mTasks : List Nat} (hdistinct : (mTasks.map name).Nodup)
    (hkept : ∀ other ∈ s.mTasks, other ≠ id → other ∈ mTasks) :
    Owned name { s.stopOne id with mTasks := mTasks } where
  distinct := hdistinct
  running := by
    intro other hother
    change ((s.update id _).tasks other).mRunning = true at hother
    rw [tasks_update] at hother
    split_ifs at hother with hsame
    · cases hother
    · refine (howned.running other hother).imp (fun hin => hkept other hin hsame) fun hheld => ?_
      exact List.mem_filter.mpr ⟨hheld, decide_eq_true hsame⟩
  armed := by
    intro other hother
    change ((s.update id _).tasks other).armed = true at hother
    change ((s.update id _).tasks other).mRunning = true
    rw [tasks_update] at hother ⊢
    split_ifs at hother ⊢ with hsame
    · cases hother
    · exact howned.armed other hother

theorem mRunning_start (t : TaskRun) (now : QDateTime) : (t.start accepts (task id) now).mRunning = true := by
  rw [TaskRun.start]
  split_ifs with hrunning
  · exact hrunning
  · rw [TaskRun.scheduleNext]
    split <;> rfl

theorem Owned.startOne (howned : s.Owned name) (hin : id ∈ s.mTasks ∨ id ∈ s.held) (now : QDateTime) :
    (s.startOne accepts task id now).1.Owned name :=
  howned.update (fun _ => .inr hin) fun _ => mRunning_start _ now

theorem find_eq_some {wanted : String} {place : Nat} (hfind : s.find name wanted = some place) :
    ∃ hplace : place < s.mTasks.length, s.mTasks.getD place 0 = s.mTasks[place] ∧
      name s.mTasks[place] = wanted := by
  obtain ⟨hplace, hname, -⟩ := List.findIdx?_eq_some_iff_getElem.mp hfind
  exact ⟨hplace, by simp [hplace], of_decide_eq_true hname⟩

theorem Owned.addTask (howned : s.Owned name) (id : Nat) : (s.addTask name id).Owned name := by
  rw [Scheduler.addTask]
  cases hfind : s.find name (name id) with
  | none =>
      refine ⟨?_, fun other hother => ?_, howned.armed⟩
      · rw [List.map_append, List.nodup_append]
        refine ⟨howned.distinct, List.pairwise_singleton .., ?_⟩
        intro first hfirst second hsecond
        obtain ⟨other, hother, rfl⟩ := List.mem_map.mp hfirst
        rw [List.mem_singleton.mp hsecond]
        exact of_decide_eq_false (List.findIdx?_eq_none_iff.mp hfind other hother)
      · exact (howned.running other hother).imp (fun hin => List.mem_append_left _ hin) fun hheld => hheld
  | some place =>
      obtain ⟨hplace, hget, hname⟩ := find_eq_some hfind
      dsimp only
      rw [hget]
      refine howned.stopOne ?_ fun other hin hother => ?_
      · have hlength : place < (s.mTasks.map name).length := by rwa [List.length_map]
        rw [List.map_set, ← hname, ← List.getElem_map name (h := hlength), List.set_getElem_self]
        exact howned.distinct
      · obtain ⟨i, hi, rfl⟩ := List.mem_iff_getElem.mp hin
        have hne : place ≠ i := by
          rintro rfl
          exact hother rfl
        exact List.mem_iff_getElem.mpr ⟨i, by rwa [List.length_set], List.getElem_set_ne hne _⟩

theorem Owned.removeTask (howned : s.Owned name) (wanted : String) :
    (s.removeTask name wanted).Owned name := by
  rw [Scheduler.removeTask]
  cases hfind : s.find name wanted with
  | none => exact howned
  | some place =>
      obtain ⟨hplace, hget, -⟩ := find_eq_some hfind
      dsimp only
      rw [hget]
      refine howned.stopOne ?_ fun other hin hother => ?_
      · exact howned.distinct.sublist ((List.eraseIdx_sublist ..).map name)
      · obtain ⟨i, hi, rfl⟩ := List.mem_iff_getElem.mp hin
        have hne : i ≠ place := by
          rintro rfl
          exact hother rfl
        exact List.mem_eraseIdx_iff_getElem.mpr ⟨i, hi, hne, rfl⟩

theorem Owned.startEach (howned : s.Owned name) (now : Nat → QDateTime) {ids : List Nat}
    (hin : ∀ id ∈ ids, id ∈ s.mTasks) : (s.startEach accepts task now ids).1.Owned name := by
  induction ids generalizing s with
  | nil => exact howned
  | cons first rest ih =>
      obtain ⟨hfirst, hrest⟩ := List.forall_mem_cons.mp hin
      have hstarted : (s.startOne accepts task first (now first)).1.Owned name :=
        howned.startOne (.inl hfirst) (now first)
      rw [Scheduler.startEach]
      split
      · next started heq => exact heq ▸ hstarted
      · next started heq =>
          have hsame : started = (s.startOne accepts task first (now first)).1 := by rw [heq]
          exact ih (hsame ▸ hstarted) (hsame ▸ hrest)

theorem Owned.stopAll (howned : s.Owned name) (ids : List Nat) :
    (ids.foldl Scheduler.stopOne s).Owned name := by
  induction ids generalizing s with
  | nil => exact howned
  | cons first rest ih => exact ih (howned.stopOne howned.distinct fun _ hin _ => hin)

theorem Owned.startTask (howned : s.Owned name) (wanted : String) (now : QDateTime) :
    (s.startTask accepts name task wanted now).1.Owned name := by
  rw [Scheduler.startTask]
  cases hfind : s.find name wanted with
  | none => exact howned
  | some place =>
      obtain ⟨hplace, hget, -⟩ := find_eq_some hfind
      exact howned.startOne (.inl (hget ▸ List.getElem_mem hplace)) now

theorem Owned.stopTask (howned : s.Owned name) (wanted : String) : (s.stopTask name wanted).Owned name := by
  rw [Scheduler.stopTask]
  split
  · exact howned.stopOne howned.distinct fun _ hin _ => hin
  · exact howned

/-- What a task notes of an execution. -/
theorem Owned.note (howned : s.Owned name) {t : TaskRun} (hrunning : t.mRunning = (s.tasks id).mRunning)
    (harmed : t.armed = (s.tasks id).armed) : (s.update id t).Owned name :=
  howned.update (fun hnote => .inl (hrunning ▸ hnote)) fun hnote => by
    rw [hrunning]
    exact howned.armed id (harmed ▸ hnote)

theorem Owned.executed (howned : s.Owned name) (returned : Option QDateTime) :
    (s.update id ((s.tasks id).executed returned)).Owned name := by
  cases returned with
  | none => exact howned.note rfl rfl
  | some time => exact howned.note rfl rfl

mutual

theorem Owned.exec {s : Scheduler} (howned : s.Owned name) : ∀ call : SchedulerCall,
    (Scheduler.exec accepts name task s call).1.Owned name
  | .addTask none => howned
  | .addTask (some id) => howned.addTask id
  | .removeTask wanted => howned.removeTask wanted
  | .startAll now => howned.startEach now fun _ hin => hin
  | .stopAll => howned.stopAll s.mTasks
  | .startTask wanted now => howned.startTask wanted now
  | .stopTask wanted => howned.stopTask wanted
  | .start id now => by
      have hheld : Owned name { s with held := id :: s.held } :=
        ⟨howned.distinct,
          fun other hother => (howned.running other hother).imp_right (List.mem_cons_of_mem id),
          howned.armed⟩
      exact hheld.startOne (.inr List.mem_cons_self) now
  | .stop id => howned.stopOne howned.distinct fun _ hin _ => hin
  | .triggerNow id callback returned => by
      rw [Scheduler.exec]
      split_ifs
      · exact howned
      · have hexecuting : (s.update id { s.tasks id with mExecuting := true }).Owned name :=
          howned.note rfl rfl
        exact (hexecuting.execAll callback).executed returned

theorem Owned.execAll {s : Scheduler} (howned : s.Owned name) : ∀ calls : List SchedulerCall,
    (Scheduler.execAll accepts name task s calls).Owned name
  | [] => howned
  | call :: rest => (howned.exec call).execAll rest

end

theorem Owned.onTimerTick (howned : s.Owned name) (id : Nat) (callback : List SchedulerCall)
    (returned : Option QDateTime) (now : QDateTime) :
    (s.onTimerTick accepts name task id callback returned now).Owned name := by
  have hticking : (s.update id { s.tasks id with armed := false }).Owned name :=
    howned.update .inl fun harmed => by cases harmed
  have hexec : (Scheduler.exec accepts name task (s.update id { s.tasks id with armed := false })
      (.triggerNow id callback returned)).1.Owned name := hticking.exec _
  rw [Scheduler.onTimerTick]
  dsimp only
  split_ifs
  · split
    · next called heq =>
        rw [heq] at hexec
        exact hexec
    · next called heq =>
        rw [heq] at hexec
        split_ifs with hrunning
        · refine Owned.update hexec (fun _ => .inl hrunning) fun _ => ?_
          rw [TaskRun.scheduleNext]
          split <;> exact hrunning
        · exact hexec
  · exact hticking

theorem owned_start : Owned name {} where
  distinct := List.nodup_nil
  running := fun _ hrunning => absurd hrunning Bool.false_ne_true
  armed := fun _ harmed => absurd harmed Bool.false_ne_true

theorem owned_of_run (events : List SchedulerEvent) : (after accepts name task events).Owned name := by
  refine run_induction (P := Owned name) owned_start ?_ events
  intro s event howned
  cases event with
  | call call => exact howned.exec call
  | timerTick id callback returned now =>
      rw [step]
      split_ifs
      · exact howned.onTimerTick id callback returned now
      · exact howned

/-- A task that still runs after `stopAll` was not in the scheduler. -/
theorem running_stopAll (ids : List Nat) (hrunning : ((ids.foldl stopOne s).tasks id).mRunning = true) :
    id ∉ ids ∧ (s.tasks id).mRunning = true := by
  induction ids generalizing s with
  | nil => exact ⟨List.not_mem_nil, hrunning⟩
  | cons first rest ih =>
      obtain ⟨hrest, hstopped⟩ := ih hrunning
      change ((s.update first _).tasks id).mRunning = true at hstopped
      rw [tasks_update] at hstopped
      split_ifs at hstopped with hfirst
      · cases hstopped
      · exact ⟨fun hin => (List.mem_cons.mp hin).elim hfirst hrest, hstopped⟩

/-- At every moment the names differ, and a task that runs or whose timer does is in the scheduler or was
started by another and not stopped since. So one that left the scheduler does not tick again, and after
`stopAll` none of those in it does. -/
theorem owners_of_run (events : List SchedulerEvent) :
    (after accepts name task events).Owned name ∧
      ∀ id, ((after accepts name task (events ++ [.call .stopAll])).tasks id).mRunning = true →
        id ∉ (after accepts name task events).mTasks ∧ id ∈ (after accepts name task events).held := by
  have howned : (after accepts name task events).Owned name := owned_of_run events
  refine ⟨howned, fun id hrunning => ?_⟩
  rw [after, run_concat] at hrunning
  obtain ⟨hout, hbefore⟩ := running_stopAll _ hrunning
  exact ⟨hout, (howned.running id hbefore).resolve_left hout⟩

end Scheduler

end

end SoulCoreKit.Scheduler
