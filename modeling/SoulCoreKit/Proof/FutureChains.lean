import Mathlib.Algebra.Order.BigOperators.Group.Finset
import Mathlib.Data.List.Nodup
import SoulCoreKit.Async.Future

/-!
# Chains of futures

A future made by `then` ends as its parent does, with the function applied to the value. A task of a pool
waits on its thread for the parent, which may need a task of the same pool. The threads are not used up by
such waiting: a pool takes its tasks in the order in which they were left, a parent is older than what is
chained to it, so the oldest task left is never kept off the threads by a younger one.
-/

namespace SoulCoreKit.Async.Chains

variable {V E : Type} {c c' : Chains V E}

def origin? (c : Chains V E) (future : Nat) : Option (Origin V E) :=
  c.futures[future]?.map ChainedFuture.origin

theorem origin?_of_getElem? {i : Nat} {f : ChainedFuture V E} (hf : c.futures[i]? = some f) :
    c.origin? i = some f.origin := by
  rw [origin?, hf]
  rfl

theorem outcome?_of_getElem? {i : Nat} {f : ChainedFuture V E} (hf : c.futures[i]? = some f) :
    c.outcome? i = f.outcome := by
  rw [outcome?, hf]
  rfl

theorem origin?_eq_none_iff {i : Nat} : c.origin? i = none ↔ c.futures.length ≤ i := by
  rw [origin?, Option.map_eq_none_iff, List.getElem?_eq_none_iff]

theorem outcome?_of_length_le {i : Nat} (hle : c.futures.length ≤ i) : c.outcome? i = none := by
  rw [outcome?, List.getElem?_eq_none_iff.mpr hle]
  rfl

theorem lt_of_outcome? {i : Nat} {outcome : Except E V} (houtcome : c.outcome? i = some outcome) :
    i < c.futures.length := by
  by_contra hle
  rw [outcome?_of_length_le (Nat.le_of_not_lt hle)] at houtcome
  cases houtcome

/-- Each step leaves everything as it is, or makes a future, or ends one, or puts a task on a thread. -/
inductive Change (c : Chains V E) : ChainsLabel V E → Chains V E → Prop where
  | same (label : ChainsLabel V E) : Change c label c
  | async : Change c .async { c with futures := c.futures ++ [⟨.async, none⟩] }
  | finish {future : Nat} (outcome : Except E V) (hfuture : c.futures[future]? = some ⟨.async, none⟩) :
      Change c (.finish future outcome) (c.settle future outcome)
  | chainNow (F : Nat) {parent : Nat} (func : V → Except E V) {outcome : Except E V}
      (hparent : c.outcome? parent = some outcome) :
      Change c (.chain F parent func) { c.call c.futures.length outcome with
        futures := c.futures ++ [⟨.chained F parent func, some (outcome.bind func)⟩] }
  | chainLater (F : Nat) {parent : Nat} (func : V → Except E V) (hlt : parent < c.futures.length) :
      Change c (.chain F parent func) { c with
        futures := c.futures ++ [⟨.chained F parent func, none⟩]
        thenPool := Function.update c.thenPool F
          { c.thenPool F with queue := (c.thenPool F).queue ++ [c.futures.length] } }
  | startTask {F task : Nat} {rest : List Nat} (hqueue : (c.thenPool F).queue = task :: rest) :
      Change c (.startTask F) { c with
        thenPool := Function.update c.thenPool F
          { queue := rest, running := (c.thenPool F).running ++ [task] } }
  | endTask {F task G parent : Nat} {func : V → Except E V} {outcome : Except E V}
      (hrunning : task ∈ (c.thenPool F).running)
      (htask : c.futures[task]? = some ⟨.chained G parent func, none⟩)
      (hparent : c.outcome? parent = some outcome) :
      Change c (.endTask F task) { (c.call task outcome).settle task (outcome.bind func) with
        thenPool := Function.update c.thenPool F
          { c.thenPool F with running := (c.thenPool F).running.erase task } }

theorem change_step (c : Chains V E) (label : ChainsLabel V E) : c.Change label (c.step label) := by
  cases label with
  | async => exact .async
  | finish future outcome =>
      simp only [step, finish]
      split
      next hfuture => exact .finish outcome hfuture
      next => exact .same _
  | chain F parent func =>
      simp only [step, chain]
      split
      next => exact .same _
      next hparent => exact .chainNow F func (outcome?_of_getElem? hparent)
      next hparent => exact .chainLater F func (List.getElem?_eq_some_iff.mp hparent).1
  | startTask F =>
      simp only [step, startTask]
      split
      next => exact .same _
      next hqueue =>
          split_ifs
          · exact .startTask hqueue
          · exact .same _
  | endTask F task =>
      simp only [step, endTask]
      split_ifs with hrunning
      · split
        next htask =>
            split
            next hparent => exact .endTask hrunning htask hparent
            next => exact .same _
        next => exact .same _
      · exact .same _

/-! ### Outcomes -/

/-- The function for the future has a value to be called with, and the call is over. -/
def Fires (c : Chains V E) (future : Nat) : Prop :=
  ∃ F parent func value, c.origin? future = some (.chained F parent func) ∧
    (c.outcome? future).isSome = true ∧ c.outcome? parent = some (.ok value)

structure Composed (c : Chains V E) : Prop where
  earlier : ∀ i F parent func, c.origin? i = some (.chained F parent func) → parent < i
  composed : ∀ i F parent func, c.origin? i = some (.chained F parent func) →
    ∀ outcome, c.outcome? i = some outcome →
      ∃ before, c.outcome? parent = some before ∧ outcome = before.bind func
  called : ∀ i, i ∈ c.called ↔ c.Fires i
  once : c.called.Nodup

/-- The future `k`, which is new or has no outcome yet, becomes `f`. -/
structure Sets (c c' : Chains V E) (k : Nat) (f : ChainedFuture V E) : Prop where
  unset : c.futures[k]? = none ∨ c.futures[k]? = some ⟨f.origin, none⟩
  getElem?_eq : ∀ i, c'.futures[i]? = if i = k then some f else c.futures[i]?

namespace Sets

variable {k : Nat} {f : ChainedFuture V E}

theorem of_concat (hfutures : c'.futures = c.futures ++ [f]) : c.Sets c' c.futures.length f where
  unset := .inl (List.getElem?_eq_none_iff.mpr (Nat.le_refl _))
  getElem?_eq i := by
    rw [hfutures]
    rcases Nat.lt_trichotomy i c.futures.length with hlt | heq | hgt
    · rw [List.getElem?_append_left hlt, if_neg (Nat.ne_of_lt hlt)]
    · rw [heq, List.getElem?_concat_length, if_pos rfl]
    · rw [if_neg (Nat.ne_of_gt hgt), List.getElem?_eq_none_iff.mpr (Nat.le_of_lt hgt),
        List.getElem?_eq_none_iff, List.length_append]
      exact hgt

theorem of_modify {origin : Origin V E} {outcome : Except E V}
    (hk : c.futures[k]? = some ⟨origin, none⟩)
    (hfutures : c'.futures = c.futures.modify k fun f => { f with outcome := some outcome }) :
    c.Sets c' k ⟨origin, some outcome⟩ where
  unset := .inr hk
  getElem?_eq i := by
    rw [hfutures, List.getElem?_modify]
    by_cases heq : k = i
    · subst heq
      simp [hk]
    · simp [heq, Ne.symm heq]

variable (hsets : c.Sets c' k f)
include hsets

theorem unfinished : c.outcome? k = none := by
  rw [outcome?]
  rcases hsets.unset with hnone | hsome
  · rw [hnone]
    rfl
  · rw [hsome]
    rfl

theorem origin?_eq (i : Nat) : c'.origin? i = if i = k then some f.origin else c.origin? i := by
  rw [origin?, hsets.getElem?_eq]
  split_ifs <;> rfl

theorem outcome?_eq (i : Nat) : c'.outcome? i = if i = k then f.outcome else c.outcome? i := by
  rw [outcome?, hsets.getElem?_eq]
  split_ifs <;> rfl

theorem ne_of_outcome? {i : Nat} {before : Except E V} (hbefore : c.outcome? i = some before) :
    i ≠ k := by
  rintro rfl
  rw [hsets.unfinished] at hbefore
  cases hbefore

theorem outcome?_of_some {i : Nat} {before : Except E V} (hbefore : c.outcome? i = some before) :
    c'.outcome? i = some before := by
  rw [hsets.outcome?_eq, if_neg (hsets.ne_of_outcome? hbefore), hbefore]

end Sets

theorem Composed.sets {k : Nat} {f : ChainedFuture V E} (hcomposed : c.Composed) (hsets : c.Sets c' k f)
    (hearlier : ∀ F parent func, f.origin = .chained F parent func → parent < k)
    (hderived : ∀ F parent func outcome, f.origin = .chained F parent func → f.outcome = some outcome →
      ∃ before, c.outcome? parent = some before ∧ outcome = before.bind func)
    (hcalled : c'.called = c.called ∧ ¬ c'.Fires k ∨ c'.called = c.called ++ [k] ∧ c'.Fires k) :
    c'.Composed := by
  have hnew : ∀ i, i ≠ k → (c'.Fires i ↔ c.Fires i) := by
    intro i hne
    simp only [Fires, hsets.origin?_eq i, hsets.outcome?_eq i, if_neg hne]
    refine exists_congr fun F => exists_congr fun parent => exists_congr fun func =>
      exists_congr fun value => and_congr_right fun horigin => and_congr_right fun hsome => ?_
    obtain ⟨outcome, houtcome⟩ := Option.isSome_iff_exists.mp hsome
    obtain ⟨before, hbefore, -⟩ := hcomposed.composed i F parent func horigin outcome houtcome
    rw [hsets.outcome?_of_some hbefore, hbefore]
  have hk : k ∉ c.called := by
    rw [hcomposed.called]
    rintro ⟨-, -, -, -, -, hsome, -⟩
    rw [hsets.unfinished] at hsome
    cases hsome
  refine ⟨fun i F parent func horigin => ?_, fun i F parent func horigin outcome houtcome => ?_,
    fun i => ?_, ?_⟩
  · rw [hsets.origin?_eq] at horigin
    split_ifs at horigin with heq
    · exact heq ▸ hearlier F parent func (Option.some.inj horigin)
    · exact hcomposed.earlier i F parent func horigin
  · rw [hsets.origin?_eq] at horigin
    rw [hsets.outcome?_eq] at houtcome
    have hbefore : ∃ before, c.outcome? parent = some before ∧ outcome = before.bind func := by
      split_ifs at horigin houtcome
      · exact hderived F parent func outcome (Option.some.inj horigin) houtcome
      · exact hcomposed.composed i F parent func horigin outcome houtcome
    obtain ⟨before, hbefore, heq⟩ := hbefore
    exact ⟨before, hsets.outcome?_of_some hbefore, heq⟩
  · rcases Decidable.em (i = k) with rfl | hne
    · rcases hcalled with ⟨hcalled, hfires⟩ | ⟨hcalled, hfires⟩
      · simp [hcalled, hk, hfires]
      · simp [hcalled, hfires]
    · rw [hnew i hne, ← hcomposed.called]
      rcases hcalled with ⟨hcalled, -⟩ | ⟨hcalled, -⟩
      · rw [hcalled]
      · simp [hcalled, hne]
  · rcases hcalled with ⟨hcalled, -⟩ | ⟨hcalled, -⟩
    · exact hcalled ▸ hcomposed.once
    · rw [hcalled, ← List.concat_eq_append]
      exact hcomposed.once.concat hk

/-- A chained future gets its outcome. -/
theorem Composed.setsChained {k F parent : Nat} {func : V → Except E V} {outcome : Except E V}
    (hcomposed : c.Composed) (hsets : c.Sets c' k ⟨.chained F parent func, some (outcome.bind func)⟩)
    (hearlier : parent < k) (hparent : c.outcome? parent = some outcome)
    (hcalled : c'.called = (c.call k outcome).called) : c'.Composed := by
  refine hcomposed.sets hsets ?_ ?_ ?_
  · rintro _ _ _ ⟨⟩
    exact hearlier
  · rintro _ _ _ _ ⟨⟩ ⟨⟩
    exact ⟨outcome, hparent, rfl⟩
  · have horigin : c'.origin? k = some (.chained F parent func) := by
      rw [hsets.origin?_eq, if_pos rfl]
    have hafter : c'.outcome? parent = some outcome := hsets.outcome?_of_some hparent
    cases outcome with
    | error error =>
        refine .inl ⟨hcalled, ?_⟩
        rintro ⟨G, other, func', value, horigin', -, hvalue⟩
        rw [horigin] at horigin'
        cases horigin'
        rw [hafter] at hvalue
        cases hvalue
    | ok value =>
        refine .inr ⟨hcalled, F, parent, func, value, horigin, ?_, hafter⟩
        rw [hsets.outcome?_eq, if_pos rfl]
        rfl

/-- A future that is not finished, or was not made by `then`, has no function that was called. -/
theorem not_fires {k : Nat} {f : ChainedFuture V E} (hsets : c.Sets c' k f)
    (hf : f.outcome = none ∨ f.origin = .async) : ¬ c'.Fires k := by
  rintro ⟨F, parent, func, value, horigin, hsome, -⟩
  rw [hsets.origin?_eq, if_pos rfl] at horigin
  rw [hsets.outcome?_eq, if_pos rfl] at hsome
  rcases hf with hnone | hasync
  · rw [hnone] at hsome
    cases hsome
  · rw [hasync] at horigin
    cases horigin

theorem settle_call_futures (k : Nat) (outcome after : Except E V) :
    ((c.call k outcome).settle k after).futures =
      c.futures.modify k fun f => { f with outcome := some after } := by
  cases outcome <;> rfl

theorem Composed.change (hcomposed : c.Composed) {label : ChainsLabel V E}
    (hchange : c.Change label c') : c'.Composed := by
  cases hchange with
  | same label => exact hcomposed
  | async =>
      exact hcomposed.sets (.of_concat rfl) (fun _ _ _ h => by cases h) (fun _ _ _ _ h => by cases h)
        (.inl ⟨rfl, not_fires (.of_concat rfl) (.inl rfl)⟩)
  | finish outcome hfuture =>
      exact hcomposed.sets (.of_modify hfuture rfl) (fun _ _ _ h => by cases h)
        (fun _ _ _ _ h => by cases h) (.inl ⟨rfl, not_fires (.of_modify hfuture rfl) (.inr rfl)⟩)
  | chainNow F func hparent =>
      exact hcomposed.setsChained (.of_concat rfl) (lt_of_outcome? hparent) hparent rfl
  | chainLater F func hlt =>
      refine hcomposed.sets (.of_concat rfl) ?_ (fun _ _ _ _ _ h => by cases h)
        (.inl ⟨rfl, not_fires (.of_concat rfl) (.inl rfl)⟩)
      rintro _ _ _ ⟨⟩
      exact hlt
  | startTask hqueue =>
      exact ⟨hcomposed.earlier, hcomposed.composed, hcomposed.called, hcomposed.once⟩
  | endTask hrunning htask hparent =>
      exact hcomposed.setsChained (.of_modify htask (settle_call_futures _ _ _))
        (hcomposed.earlier _ _ _ _ (origin?_of_getElem? htask)) hparent rfl

theorem Change.futures {label : ChainsLabel V E} (hchange : c.Change label c') :
    c'.futures = c.futures ∨ ∃ k f, c.Sets c' k f := by
  cases hchange with
  | same label => exact .inl rfl
  | async => exact .inr ⟨_, _, .of_concat rfl⟩
  | finish outcome hfuture => exact .inr ⟨_, _, .of_modify hfuture rfl⟩
  | chainNow F func hparent => exact .inr ⟨_, _, .of_concat rfl⟩
  | chainLater F func hlt => exact .inr ⟨_, _, .of_concat rfl⟩
  | startTask hqueue => exact .inl rfl
  | endTask hrunning htask hparent =>
      exact .inr ⟨_, _, .of_modify htask (settle_call_futures _ _ _)⟩

/-- The source of a future, and the functions in the order of the calls to `then`. -/
inductive Descends (c : Chains V E) (source : Nat) : List (V → Except E V) → Nat → Prop where
  | source (horigin : c.origin? source = some .async) : Descends c source [] source
  | chained {F parent future : Nat} {func : V → Except E V} {funcs : List (V → Except E V)}
      (horigin : c.origin? future = some (.chained F parent func))
      (hparent : Descends c source funcs parent) : Descends c source (funcs ++ [func]) future

theorem Composed.exists_descends (hcomposed : c.Composed) {i : Nat} (hlt : i < c.futures.length) :
    ∃ source funcs, c.Descends source funcs i := by
  induction i using Nat.strong_induction_on with
  | _ i ih =>
      obtain ⟨origin, horigin⟩ := Option.ne_none_iff_exists'.mp fun hnone =>
        absurd (origin?_eq_none_iff.mp hnone) (Nat.not_le_of_lt hlt)
      cases origin with
      | async => exact ⟨i, [], .source horigin⟩
      | chained F parent func =>
          have hearlier := hcomposed.earlier i F parent func horigin
          obtain ⟨source, funcs, hparent⟩ := ih parent hearlier (Nat.lt_trans hearlier hlt)
          exact ⟨source, funcs ++ [func], .chained horigin hparent⟩

theorem Composed.outcome_of_descends (hcomposed : c.Composed) {source i : Nat}
    {funcs : List (V → Except E V)} (hdescends : c.Descends source funcs i) {outcome : Except E V}
    (houtcome : c.outcome? i = some outcome) :
    ∃ before, c.outcome? source = some before ∧ outcome = funcs.foldl Except.bind before := by
  induction hdescends generalizing outcome with
  | source horigin => exact ⟨outcome, houtcome, rfl⟩
  | chained horigin hparent ih =>
      obtain ⟨before, hbefore, heq⟩ := hcomposed.composed _ _ _ _ horigin outcome houtcome
      obtain ⟨first, hfirst, hfold⟩ := ih hbefore
      refine ⟨first, hfirst, ?_⟩
      rw [List.foldl_append, ← hfold, heq]
      rfl

/-- The state after some steps, with pools of so many threads. -/
def after (maxThreadCount : Nat) (labels : List (ChainsLabel V E)) : Chains V E :=
  run step { maxThreadCount } labels

theorem composed_after (n : Nat) (labels : List (ChainsLabel V E)) : (after n labels).Composed := by
  refine run_induction ⟨?_, ?_, ?_, List.nodup_nil⟩
    (fun state label hcomposed => hcomposed.change (change_step state label)) labels
  · intro i F parent func horigin
    cases horigin
  · intro i F parent func horigin
    cases horigin
  · rintro i
    refine ⟨fun hmem => absurd hmem List.not_mem_nil, ?_⟩
    rintro ⟨F, parent, func, value, horigin, -⟩
    cases horigin

theorem outcome?_run {i : Nat} {outcome : Except E V} (houtcome : c.outcome? i = some outcome)
    (labels : List (ChainsLabel V E)) : (run step c labels).outcome? i = some outcome := by
  refine run_induction (P := fun state : Chains V E => state.outcome? i = some outcome) houtcome
    (fun state label hstate => ?_) labels
  rcases (change_step state label).futures with hsame | ⟨k, f, hsets⟩
  · rw [outcome?, hsame]
    exact hstate
  · exact hsets.outcome?_of_some hstate

/-- In every run each future comes from a source by the functions given to `then`, and its outcome is what
they make of that of the source, up to the first exception. Each function is called once if there is a value
for it, and never otherwise. No outcome is changed. -/
theorem composition_of_run (n : Nat) (labels : List (ChainsLabel V E)) :
    (∀ i < (after n labels).futures.length, ∃ source funcs, (after n labels).Descends source funcs i) ∧
      (∀ source funcs i outcome, (after n labels).Descends source funcs i →
        (after n labels).outcome? i = some outcome → ∃ before,
          (after n labels).outcome? source = some before ∧ outcome = funcs.foldl Except.bind before) ∧
      (after n labels).called.Nodup ∧
      (∀ i, i ∈ (after n labels).called ↔ (after n labels).Fires i) ∧
      ∀ more i outcome, (after n labels).outcome? i = some outcome →
        (after n (labels ++ more)).outcome? i = some outcome := by
  have hcomposed := composed_after n labels
  refine ⟨fun i hlt => hcomposed.exists_descends hlt,
    fun source funcs i outcome hdescends houtcome => hcomposed.outcome_of_descends hdescends houtcome,
    hcomposed.once, hcomposed.called, fun more i outcome houtcome => ?_⟩
  rw [after, run_append]
  exact outcome?_run houtcome more

/-! ### Threads -/

/-- The tasks of a pool in the order in which they were left. -/
def tasks (c : Chains V E) (F : Nat) : List Nat := (c.thenPool F).running ++ (c.thenPool F).queue

/-- A future made by `then` with a function of the type `F` is to be ended. -/
def Waits (c : Chains V E) (F i : Nat) : Prop :=
  ∃ parent func, c.futures[i]? = some ⟨.chained F parent func, none⟩

structure Waiting (c : Chains V E) : Prop where
  sorted : ∀ F, (c.tasks F).Pairwise (· < ·)
  mem_iff : ∀ F i, i ∈ c.tasks F ↔ c.Waits F i

theorem Waits.lt {F i : Nat} (hwaits : c.Waits F i) : i < c.futures.length := by
  obtain ⟨parent, func, hfuture⟩ := hwaits
  exact (List.getElem?_eq_some_iff.mp hfuture).1

theorem Sets.waits_of_ne {k : Nat} {f : ChainedFuture V E} (hsets : c.Sets c' k f) (F : Nat) {i : Nat}
    (hne : i ≠ k) : c'.Waits F i ↔ c.Waits F i := by
  simp only [Waits, hsets.getElem?_eq, if_neg hne]

theorem Sets.waits_self {k : Nat} {f : ChainedFuture V E} (hsets : c.Sets c' k f) (F : Nat) :
    c'.Waits F k ↔ f.outcome = none ∧ ∃ parent func, f.origin = .chained F parent func := by
  obtain ⟨origin, outcome⟩ := f
  simp only [Waits, hsets.getElem?_eq, if_pos, Option.some.injEq, ChainedFuture.mk.injEq]
  constructor
  · rintro ⟨parent, func, horigin, hnone⟩
    exact ⟨hnone, parent, func, horigin⟩
  · rintro ⟨hnone, parent, func, horigin⟩
    exact ⟨parent, func, horigin, hnone⟩

theorem Waiting.congr (hwaiting : c.Waiting) (htasks : ∀ F, c'.tasks F = c.tasks F)
    (hwaits : ∀ F i, c'.Waits F i ↔ c.Waits F i) : c'.Waiting :=
  ⟨fun F => htasks F ▸ hwaiting.sorted F,
    fun F i => by rw [htasks, hwaits, hwaiting.mem_iff]⟩

theorem tasks_update {F : Nat} {pool : ThenPool} (hpool : c'.thenPool = Function.update c.thenPool F pool) :
    c'.tasks = Function.update c.tasks F (pool.running ++ pool.queue) := by
  funext G
  rw [tasks, hpool]
  rcases Decidable.em (G = F) with rfl | hne
  · rw [Function.update_self, Function.update_self]
  · rw [Function.update_of_ne hne, Function.update_of_ne hne]
    rfl

/-- The tasks of one pool change. -/
theorem Waiting.update {F : Nat} {l : List Nat} (hwaiting : c.Waiting)
    (htasks : c'.tasks = Function.update c.tasks F l) (hsorted : l.Pairwise (· < ·))
    (hmem : ∀ i, i ∈ l ↔ c'.Waits F i) (hother : ∀ G i, G ≠ F → (c'.Waits G i ↔ c.Waits G i)) :
    c'.Waiting := by
  refine ⟨fun G => ?_, fun G i => ?_⟩ <;> rcases Decidable.em (G = F) with rfl | hne
  · rw [htasks, Function.update_self]
    exact hsorted
  · rw [htasks, Function.update_of_ne hne]
    exact hwaiting.sorted G
  · rw [htasks, Function.update_self]
    exact hmem i
  · rw [htasks, Function.update_of_ne hne, hother G i hne]
    exact hwaiting.mem_iff G i

/-- A future is made, or ended, without a task. -/
theorem Waiting.sets {k : Nat} {f : ChainedFuture V E} (hwaiting : c.Waiting) (hsets : c.Sets c' k f)
    (hbefore : ∀ F, ¬ c.Waits F k) (hafter : f.outcome = none → f.origin = .async)
    (hpool : c'.thenPool = c.thenPool) : c'.Waiting := by
  refine hwaiting.congr (fun F => by rw [tasks, hpool, tasks]) fun F i => ?_
  rcases Decidable.em (i = k) with rfl | hne
  · refine iff_of_false ?_ (hbefore F)
    rw [hsets.waits_self]
    rintro ⟨hnone, parent, func, horigin⟩
    rw [hafter hnone] at horigin
    cases horigin
  · exact hsets.waits_of_ne F hne

theorem not_waits_length (c : Chains V E) (F : Nat) : ¬ c.Waits F c.futures.length :=
  fun hwaits => Nat.lt_irrefl _ hwaits.lt

/-- `then` leaves a task. -/
theorem Waiting.setsTask {F parent : Nat} {func : V → Except E V} (hwaiting : c.Waiting)
    (hsets : c.Sets c' c.futures.length ⟨.chained F parent func, none⟩)
    (htasks : c'.tasks = Function.update c.tasks F (c.tasks F ++ [c.futures.length])) : c'.Waiting := by
  refine hwaiting.update htasks ?_ (fun i => ?_) fun G i hne => ?_
  · rw [List.pairwise_append]
    refine ⟨hwaiting.sorted F, List.pairwise_singleton _ _, fun i hi task htask => ?_⟩
    rw [List.mem_singleton.mp htask]
    exact ((hwaiting.mem_iff F i).mp hi).lt
  · rw [List.mem_append, List.mem_singleton, hwaiting.mem_iff]
    rcases Decidable.em (i = c.futures.length) with rfl | hne
    · exact iff_of_true (.inr rfl) ((hsets.waits_self F).mpr ⟨rfl, parent, func, rfl⟩)
    · rw [hsets.waits_of_ne F hne, or_iff_left hne]
  · rcases Decidable.em (i = c.futures.length) with rfl | hlength
    · refine iff_of_false ?_ (c.not_waits_length G)
      rw [hsets.waits_self]
      rintro ⟨-, other, func', horigin⟩
      cases horigin
      exact hne rfl
    · exact hsets.waits_of_ne G hlength

/-- A task ends. -/
theorem Waiting.endsTask {F task parent : Nat} {func : V → Except E V} {outcome : Except E V}
    (hwaiting : c.Waiting) (hmem : task ∈ c.tasks F)
    (hsets : c.Sets c' task ⟨.chained F parent func, some outcome⟩)
    (htasks : c'.tasks = Function.update c.tasks F ((c.tasks F).erase task)) : c'.Waiting := by
  have hnodup : (c.tasks F).Nodup := (hwaiting.sorted F).imp Nat.ne_of_lt
  have hended : ∀ G, ¬ c'.Waits G task := by
    intro G hwaits
    cases ((hsets.waits_self G).mp hwaits).1
  refine hwaiting.update htasks ((hwaiting.sorted F).sublist List.erase_sublist) (fun i => ?_)
    fun G i hne => ?_
  · rw [hnodup.mem_erase_iff, hwaiting.mem_iff]
    rcases Decidable.em (i = task) with rfl | hne
    · exact iff_of_false (fun h => h.1 rfl) (hended F)
    · rw [hsets.waits_of_ne F hne, and_iff_right hne]
  · rcases Decidable.em (i = task) with rfl | htask
    · refine iff_of_false (hended G) ?_
      obtain ⟨other, func', hbefore⟩ := (hwaiting.mem_iff F i).mp hmem
      rintro ⟨other', func'', hbefore'⟩
      rw [hbefore] at hbefore'
      cases hbefore'
      exact hne rfl
    · exact hsets.waits_of_ne G htask

theorem Waiting.change (hwaiting : c.Waiting) {label : ChainsLabel V E}
    (hchange : c.Change label c') : c'.Waiting := by
  cases hchange with
  | same label => exact hwaiting
  | async => exact hwaiting.sets (.of_concat rfl) c.not_waits_length (fun _ => rfl) rfl
  | finish outcome hfuture =>
      refine hwaiting.sets (.of_modify hfuture rfl) ?_ (fun h => by cases h) rfl
      rintro F ⟨parent, func, hwaits⟩
      rw [hfuture] at hwaits
      cases hwaits
  | @chainNow F parent func outcome hparent =>
      refine hwaiting.sets (.of_concat rfl) c.not_waits_length (fun h => by cases h) ?_
      cases outcome <;> rfl
  | chainLater F func hlt =>
      refine hwaiting.setsTask (.of_concat rfl) ((tasks_update rfl).trans ?_)
      rw [tasks, List.append_assoc]
  | @startTask F task rest hqueue =>
      refine hwaiting.congr (fun G => ?_) fun G i => Iff.rfl
      rw [tasks_update rfl, List.append_assoc, List.singleton_append, ← hqueue]
      exact congrFun (Function.update_eq_self F c.tasks) G
  | @endTask F task G parent func outcome hrunning htask hparent =>
      have hmem : task ∈ c.tasks F := List.mem_append_left _ hrunning
      obtain ⟨other, func', hwaits⟩ := (hwaiting.mem_iff F task).mp hmem
      rw [htask] at hwaits
      cases hwaits
      refine hwaiting.endsTask hmem (.of_modify htask (settle_call_futures _ _ _))
        ((tasks_update (c := c) rfl).trans ?_)
      rw [tasks, List.erase_append_left _ hrunning]

theorem waiting_after (n : Nat) (labels : List (ChainsLabel V E)) : (after n labels).Waiting := by
  refine run_induction ⟨fun F => List.Pairwise.nil, fun F i => ?_⟩
    (fun state label hwaiting => hwaiting.change (change_step state label)) labels
  refine ⟨fun hmem => absurd hmem List.not_mem_nil, ?_⟩
  rintro ⟨parent, func, hfuture⟩
  cases hfuture

/-- The steps that a future has still to go in its pool. -/
def stepsLeft (c : Chains V E) (i : Nat) : Nat :=
  match c.futures[i]? with
  | some ⟨.chained F _ _, none⟩ => if i ∈ (c.thenPool F).running then 1 else 2
  | _ => 0

def totalLeft (c : Chains V E) : Nat := ∑ i ∈ Finset.range c.futures.length, c.stepsLeft i

theorem stepsLeft_le (c : Chains V E) (i : Nat) : c.stepsLeft i ≤ 2 := by
  rw [stepsLeft]
  split
  · split_ifs <;> decide
  · decide

theorem totalLeft_le (c : Chains V E) : c.totalLeft ≤ 2 * c.futures.length := by
  calc c.totalLeft ≤ (Finset.range c.futures.length).card * 2 :=
        Finset.sum_le_card_nsmul _ _ 2 fun i _ => c.stepsLeft_le i
    _ = 2 * c.futures.length := by rw [Finset.card_range, Nat.mul_comm]

theorem stepsLeft_of_waits {F i : Nat} (hwaits : c.Waits F i) :
    c.stepsLeft i = if i ∈ (c.thenPool F).running then 1 else 2 := by
  obtain ⟨parent, func, hfuture⟩ := hwaits
  rw [stepsLeft, hfuture]

theorem stepsLeft_of_not_waits {i : Nat} (hwaits : ∀ F, ¬ c.Waits F i) : c.stepsLeft i = 0 := by
  rw [stepsLeft]
  split
  next F parent func hfuture => exact absurd ⟨parent, func, hfuture⟩ (hwaits F)
  next => rfl

theorem stepsLeft_congr {i : Nat} (hwaits : ∀ F, c'.Waits F i ↔ c.Waits F i)
    (hrunning : ∀ F, i ∈ (c'.thenPool F).running ↔ i ∈ (c.thenPool F).running) :
    c'.stepsLeft i = c.stepsLeft i := by
  rcases Classical.em (∃ F, c.Waits F i) with ⟨F, hold⟩ | hnone
  · rw [stepsLeft_of_waits hold, stepsLeft_of_waits ((hwaits F).mpr hold)]
    exact if_congr (hrunning F) rfl rfl
  · rw [not_exists] at hnone
    rw [stepsLeft_of_not_waits hnone, stepsLeft_of_not_waits fun F hnew => hnone F ((hwaits F).mp hnew)]

theorem totalLeft_lt_of_stepsLeft {k : Nat} (hk : k < c.futures.length)
    (hlength : c'.futures.length = c.futures.length)
    (hother : ∀ i, i ≠ k → c'.stepsLeft i = c.stepsLeft i) (hlt : c'.stepsLeft k < c.stepsLeft k) :
    c'.totalLeft < c.totalLeft := by
  rw [totalLeft, totalLeft, hlength]
  refine Finset.sum_lt_sum (fun i _ => ?_) ⟨k, Finset.mem_range.mpr hk, hlt⟩
  rcases Decidable.em (i = k) with rfl | hne
  · exact Nat.le_of_lt hlt
  · exact Nat.le_of_eq (hother i hne)

theorem running_update {F : Nat} {pool : ThenPool} {i : Nat}
    (hpool : c'.thenPool = Function.update c.thenPool F pool)
    (hmem : i ∈ pool.running ↔ i ∈ (c.thenPool F).running) (G : Nat) :
    i ∈ (c'.thenPool G).running ↔ i ∈ (c.thenPool G).running := by
  rw [hpool]
  rcases Decidable.em (G = F) with rfl | hne
  · rw [Function.update_self]
    exact hmem
  · rw [Function.update_of_ne hne]

/-- A step of the pools. -/
def ofPool : ChainsLabel V E → Bool
  | .startTask _ | .endTask _ _ => true
  | _ => false

theorem Waiting.totalLeft_lt (hwaiting : c.Waiting) {label : ChainsLabel V E}
    (hchange : c.Change label c') (hpool : ofPool label = true) (hne : c' ≠ c) :
    c'.totalLeft < c.totalLeft := by
  cases hchange with
  | same => exact absurd rfl hne
  | async => cases hpool
  | finish outcome hfuture => cases hpool
  | chainNow F func hparent => cases hpool
  | chainLater F func hlt => cases hpool
  | @startTask F task rest hqueue =>
      have hqueued : task ∈ (c.thenPool F).queue := hqueue ▸ List.mem_cons_self
      have hwaits : c.Waits F task := (hwaiting.mem_iff F task).mp (List.mem_append_right _ hqueued)
      have hstopped : task ∉ (c.thenPool F).running := fun hrunning =>
        Nat.lt_irrefl task ((List.pairwise_append.mp (hwaiting.sorted F)).2.2 task hrunning task hqueued)
      refine totalLeft_lt_of_stepsLeft hwaits.lt rfl (fun i hother => ?_) ?_
      · refine stepsLeft_congr (fun _ => Iff.rfl) (running_update rfl ?_)
        simp [hother]
      · rw [stepsLeft_of_waits hwaits, if_neg hstopped]
        obtain ⟨parent, func, hfuture⟩ := hwaits
        simp [stepsLeft, hfuture]
  | @endTask F task G parent func outcome hrunning htask hparent =>
      have hsets : c.Sets ((c.call task outcome).settle task (outcome.bind func)) task
          ⟨.chained G parent func, some (outcome.bind func)⟩ :=
        .of_modify htask (settle_call_futures _ _ _)
      have hwaits : c.Waits F task := (hwaiting.mem_iff F task).mp (List.mem_append_left _ hrunning)
      refine totalLeft_lt_of_stepsLeft hwaits.lt ?_ (fun i hother => ?_) ?_
      · simp [settle_call_futures]
      · exact stepsLeft_congr (fun H => hsets.waits_of_ne H hother)
          (running_update rfl (List.mem_erase_of_ne hother))
      · rw [stepsLeft_of_waits hwaits, if_pos hrunning, stepsLeft_of_not_waits]
        · decide
        · intro H hnew
          cases ((hsets.waits_self H).mp hnew).1

theorem Change.maxThreadCount {label : ChainsLabel V E} (hchange : c.Change label c') :
    c'.maxThreadCount = c.maxThreadCount := by
  cases hchange with
  | @chainNow F parent func outcome hparent => cases outcome <;> rfl
  | @endTask F task G parent func outcome hrunning htask hparent => cases outcome <;> rfl
  | _ => rfl

theorem maxThreadCount_after (n : Nat) (labels : List (ChainsLabel V E)) :
    (after n labels).maxThreadCount = n :=
  run_induction (P := fun state : Chains V E => state.maxThreadCount = n) rfl
    (fun state label hstate => (change_step state label).maxThreadCount.trans hstate) labels

/-- The work that is not left to the pools is over. -/
def SourcesFinished (c : Chains V E) : Prop :=
  ∀ i, c.origin? i = some .async → (c.outcome? i).isSome = true

def AllFinished (c : Chains V E) : Prop := ∀ f ∈ c.futures, f.outcome.isSome = true

/-- If a task for the future is on a thread and its parent is finished, the task can end. -/
theorem endTask_ne {F i : Nat} (hwaits : c.Waits F i) (hrunning : i ∈ (c.thenPool F).running)
    (hparent : ∀ parent func, c.futures[i]? = some ⟨.chained F parent func, none⟩ →
      (c.outcome? parent).isSome = true) : c.endTask F i ≠ c := by
  obtain ⟨parent, func, hfuture⟩ := hwaits
  obtain ⟨outcome, houtcome⟩ := Option.isSome_iff_exists.mp (hparent parent func hfuture)
  intro heq
  simp only [endTask, if_pos hrunning, hfuture, houtcome] at heq
  have hsets : c.Sets ((c.call i outcome).settle i (outcome.bind func)) i
      ⟨.chained F parent func, some (outcome.bind func)⟩ :=
    .of_modify hfuture (settle_call_futures _ _ _)
  have hafter : c.outcome? i = some (outcome.bind func) := by
    rw [← heq]
    exact (hsets.outcome?_eq i).trans (if_pos rfl)
  rw [outcome?_of_getElem? hfuture] at hafter
  cases hafter

theorem startTask_ne {F i : Nat} (hqueued : i ∈ (c.thenPool F).queue)
    (hrunning : (c.thenPool F).running.length < c.maxThreadCount) : c.startTask F ≠ c := by
  intro heq
  have hpool := congrArg (fun state => (state.thenPool F).running.length) heq
  cases hqueue : (c.thenPool F).queue with
  | nil =>
      rw [hqueue] at hqueued
      cases hqueued
  | cons task rest =>
      simp [startTask, hqueue, if_pos hrunning] at hpool

/-- If the pools cannot go on, every future is finished: the first that is not would have its task on a
thread or at the head of the queue with no task before it, and its parent is finished. -/
theorem Waiting.allFinished (hwaiting : c.Waiting) (hcomposed : c.Composed) (hthreads : 0 < c.maxThreadCount)
    (hsources : c.SourcesFinished) (hstuck : ∀ label, ofPool label = true → c.step label = c) :
    c.AllFinished := by
  have hall : ∀ (i : Nat) (f : ChainedFuture V E), c.futures[i]? = some f → f.outcome.isSome = true := by
    intro i
    induction i using Nat.strong_induction_on with
    | _ i ih =>
        intro f hf
        by_contra hunfinished
        obtain ⟨origin, outcome⟩ := f
        obtain rfl : outcome = none := Option.not_isSome_iff_eq_none.mp hunfinished
        cases origin with
        | async =>
            have hsome := hsources i (origin?_of_getElem? hf)
            rw [outcome?_of_getElem? hf] at hsome
            exact hunfinished hsome
        | chained F parent func =>
            have hwaits : c.Waits F i := ⟨parent, func, hf⟩
            rcases List.mem_append.mp ((hwaiting.mem_iff F i).mpr hwaits) with hrunning | hqueued
            · refine endTask_ne hwaits hrunning (fun other func' hother => ?_) (hstuck (.endTask F i) rfl)
              have hearlier := hcomposed.earlier i F other func' (origin?_of_getElem? hother)
              have hlt := Nat.lt_trans hearlier hwaits.lt
              rw [outcome?_of_getElem? (List.getElem?_eq_getElem hlt)]
              exact ih other hearlier _ (List.getElem?_eq_getElem hlt)
            · refine startTask_ne hqueued ?_ (hstuck (.startTask F) rfl)
              have hnone : (c.thenPool F).running = [] := by
                refine List.eq_nil_iff_forall_not_mem.mpr fun before hbefore => ?_
                have hlt := (List.pairwise_append.mp (hwaiting.sorted F)).2.2 before hbefore i hqueued
                obtain ⟨other, func', hother⟩ :=
                  (hwaiting.mem_iff F before).mp (List.mem_append_left _ hbefore)
                cases ih before hlt _ hother
              rw [hnone]
              exact hthreads
  intro f hf
  obtain ⟨i, hi⟩ := List.mem_iff_getElem?.mp hf
  exact hall i f hi

theorem SourcesFinished.change {label : ChainsLabel V E} (hsources : c.SourcesFinished)
    (hchange : c.Change label c') (hpool : ofPool label = true) : c'.SourcesFinished := by
  cases hchange with
  | same => exact hsources
  | async => cases hpool
  | finish outcome hfuture => cases hpool
  | chainNow F func hparent => cases hpool
  | chainLater F func hlt => cases hpool
  | startTask hqueue => exact hsources
  | @endTask F task G parent func outcome hrunning htask hparent =>
      have hsets : c.Sets ((c.call task outcome).settle task (outcome.bind func)) task
          ⟨.chained G parent func, some (outcome.bind func)⟩ :=
        .of_modify htask (settle_call_futures _ _ _)
      intro i horigin
      have hold : c.origin? i = some .async := by
        have horigin' := (hsets.origin?_eq i).symm.trans horigin
        split_ifs at horigin' with heq
        · cases horigin'
        · exact horigin'
      obtain ⟨before, hbefore⟩ := Option.isSome_iff_exists.mp (hsources i hold)
      exact Option.isSome_iff_exists.mpr ⟨before, hsets.outcome?_of_some hbefore⟩

theorem Waiting.run_pools {more : List (ChainsLabel V E)} (hwaiting : c.Waiting)
    (hsources : c.SourcesFinished) (hpool : ∀ label ∈ more, ofPool label = true)
    (hchanges : Along step (fun c label => c.step label ≠ c) c more) :
    more.length + (run step c more).totalLeft ≤ c.totalLeft ∧ (run step c more).SourcesFinished := by
  induction more generalizing c with
  | nil => exact ⟨Nat.le_of_eq (Nat.zero_add _), hsources⟩
  | cons label rest ih =>
      obtain ⟨hlabel, hrest⟩ := List.forall_mem_cons.mp hpool
      have hchange := change_step c label
      have hlt := hwaiting.totalLeft_lt hchange hlabel hchanges.1
      obtain ⟨hle, hfinished⟩ :=
        ih (hwaiting.change hchange) (hsources.change hchange hlabel) hrest hchanges.2
      refine ⟨?_, hfinished⟩
      rw [run_cons, List.length_cons]
      omega

/-- Once the other work is over, the pools take at most two steps for each future, in whatever order they
act, and when they have nothing left to do every future is finished, however few threads they have. -/
theorem allFinished_of_run (n : Nat) (labels more : List (ChainsLabel V E)) (hthreads : 0 < n)
    (hsources : (after n labels).SourcesFinished) (hpool : ∀ label ∈ more, ofPool label = true)
    (hchanges : Along step (fun c label => c.step label ≠ c) (after n labels) more) :
    more.length ≤ 2 * (after n labels).futures.length ∧
      ((∀ label, ofPool label = true →
          (after n (labels ++ more)).step label = after n (labels ++ more)) →
        (after n (labels ++ more)).AllFinished) := by
  obtain ⟨hlength, hfinished⟩ := (waiting_after n labels).run_pools hsources hpool hchanges
  refine ⟨?_, fun hstuck => ?_⟩
  · have hle := (after n labels).totalLeft_le
    omega
  · refine (waiting_after n (labels ++ more)).allFinished (composed_after n (labels ++ more)) ?_ ?_ hstuck
    · rw [maxThreadCount_after]
      exact hthreads
    · rw [after, run_append]
      exact hfinished

/-- Two calls to `then` made before the source ends, and one thread. -/
def twoTasks : List (ChainsLabel Nat Unit) :=
  [.async, .chain 0 0 fun n => .ok (n + 1), .chain 0 1 fun n => .ok (2 * n), .finish 0 (.ok 3)]

def oneThread : List (ChainsLabel Nat Unit) :=
  [.startTask 0, .endTask 0 1, .startTask 0, .endTask 0 2]

theorem allFinished_of_run_oneThread : oneThread.length ≤ 2 * (after 1 twoTasks).futures.length ∧
    ((∀ label, ofPool label = true →
        (after 1 (twoTasks ++ oneThread)).step label = after 1 (twoTasks ++ oneThread)) →
      (after 1 (twoTasks ++ oneThread)).AllFinished) := by
  refine allFinished_of_run 1 twoTasks oneThread (by decide) ?_ (by decide) ?_
  · intro i horigin
    rcases i with _ | _ | _ | i
    · rfl
    all_goals cases horigin
  · refine ⟨?_, ?_, ?_, ?_, trivial⟩ <;> intro heq
    · exact absurd (congrArg (fun c => (c.thenPool 0).running) heq) (by decide)
    · exact absurd (congrArg (fun c => (c.thenPool 0).running) heq) (by decide)
    · exact absurd (congrArg (fun c => (c.thenPool 0).running) heq) (by decide)
    · exact absurd (congrArg (fun c => (c.thenPool 0).running) heq) (by decide)

end SoulCoreKit.Async.Chains
