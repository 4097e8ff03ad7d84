import SoulCoreKit.Lib.Run
import SoulCoreKit.Observability.ResourcePoolMonitor

/-!
# The threads of the metrics collector

The mutex keeps the workers apart in every interleaving. It does not keep `m_running` and `m_stopFlag`
together: where a `stop` comes between the exchange of `m_running` in a `start` and the store to
`m_stopFlag` that follows it, the order of the two stores is turned round, and the worker is left with a
flag that no one will raise.
-/

namespace SoulCoreKit.Observability

namespace ResourcePoolMetricsCollector

/-! ### One worker -/

/-- The points at which a call holds the mutex. -/
def holds : CollectorPoint → Bool
  | .joinLast | .spawn | .join => true
  | .clearFlag | .lockToStart | .raiseFlag | .lockToStop => false

/-- The worker that is alive is the one in `m_thread`, which changes hands under the mutex. -/
structure Inv (c : ResourcePoolMetricsCollector) : Prop where
  owned : ∀ worker ∈ c.alive, c.mThread = some worker
  nodup : c.alive.Nodup
  held : ∀ thread point, c.calls.lookup thread = some point → holds point = true →
    c.mThreadMutex = some thread
  joined : ∀ thread, c.calls.lookup thread = some .spawn → c.mThread = none

variable {c : ResourcePoolMetricsCollector} {thread : Nat} {point : CollectorPoint}

theorem lookup_goTo (other : Nat) :
    (c.goTo thread point).calls.lookup other =
      if other = thread then some point else c.calls.lookup other :=
  UnorderedMap.lookup_insert_ite c.calls thread point other

theorem Inv.goTo (hinv : c.Inv) (hholds : holds point = true → c.mThreadMutex = some thread)
    (hspawn : point = .spawn → c.mThread = none) : (c.goTo thread point).Inv := by
  refine ⟨hinv.owned, hinv.nodup, fun other at' hlookup hat => ?_, fun other hlookup => ?_⟩
  · rw [lookup_goTo] at hlookup
    split_ifs at hlookup with heq
    · obtain rfl : point = at' := Option.some.inj hlookup
      rw [heq]
      exact hholds hat
    · exact hinv.held other at' hlookup hat
  · rw [lookup_goTo] at hlookup
    split_ifs at hlookup with heq
    · exact hspawn (Option.some.inj hlookup)
    · exact hinv.joined other hlookup

theorem Inv.goOn (hinv : c.Inv) (hpoint : holds point = false) : (c.goTo thread point).Inv := by
  refine hinv.goTo (fun hholds => ?_) ?_
  · rw [hpoint] at hholds
    cases hholds
  · rintro rfl
    cases hpoint

theorem Inv.not_holds_of_free (hinv : c.Inv) (hfree : c.mThreadMutex = none) {other : Nat}
    (hlookup : c.calls.lookup other = some point) : holds point = false := by
  by_contra hholds
  have hheld := hinv.held other point hlookup (Bool.eq_true_of_not_eq_false hholds)
  rw [hfree] at hheld
  cases hheld

theorem Inv.lock (hinv : c.Inv) (hspawn : point ≠ .spawn) : (c.lock thread point).Inv := by
  unfold ResourcePoolMetricsCollector.lock
  split_ifs with hfree
  · refine Inv.goTo ⟨hinv.owned, hinv.nodup, fun other at' hlookup hat => ?_, hinv.joined⟩ (fun _ => rfl)
      fun heq => absurd heq hspawn
    rw [hinv.not_holds_of_free hfree hlookup] at hat
    cases hat
  · exact hinv

/-- A call that holds the mutex leaves no other behind that does. -/
theorem Inv.finish {c' : ResourcePoolMetricsCollector} (hinv : c.Inv)
    (hlookup : c.calls.lookup thread = some point) (hholds : holds point = true) (hcalls : c'.calls = c.calls)
    (howned : ∀ worker ∈ c'.alive, c'.mThread = some worker) (hnodup : c'.alive.Nodup) :
    (c'.finish thread).Inv := by
  have hnone {other : Nat} {at' : CollectorPoint}
      (hother : (c'.finish thread).calls.lookup other = some at') : holds at' = false := by
    have hne : other ≠ thread := by
      rintro rfl
      rw [ResourcePoolMetricsCollector.finish, Finmap.lookup_erase] at hother
      exact absurd hother (by simp)
    replace hother := UnorderedMap.lookup_of_lookup_erase hother
    rw [hcalls] at hother
    by_contra hat
    have hheld := hinv.held other at' hother (Bool.eq_true_of_not_eq_false hat)
    rw [hinv.held thread point hlookup hholds] at hheld
    exact hne (Option.some.inj hheld).symm
  refine ⟨howned, hnodup, fun other at' hother hat => ?_, fun other hother => ?_⟩
  · rw [hnone hother] at hat
    cases hat
  · exact absurd (hnone hother) (by decide)

theorem Inv.alive_eq_nil (hinv : c.Inv) (hjoin : ¬ c.joinBlocks = true) : c.alive = [] := by
  apply List.eq_nil_iff_forall_not_mem.mpr
  intro worker hmem
  apply hjoin
  rw [joinBlocks, hinv.owned worker hmem]
  exact decide_eq_true hmem

theorem Inv.advance (hinv : c.Inv) (hlookup : c.calls.lookup thread = some point) :
    (c.advance thread point).Inv := by
  cases point with
  | clearFlag => exact Inv.goOn ⟨hinv.owned, hinv.nodup, hinv.held, hinv.joined⟩ rfl
  | raiseFlag => exact Inv.goOn ⟨hinv.owned, hinv.nodup, hinv.held, hinv.joined⟩ rfl
  | lockToStart => exact hinv.lock (by decide)
  | lockToStop => exact hinv.lock (by decide)
  | joinLast =>
      rw [ResourcePoolMetricsCollector.advance]
      split_ifs with hjoin
      · exact hinv
      · have hnone := hinv.alive_eq_nil hjoin
        refine Inv.goTo ⟨fun worker hmem => ?_, hinv.nodup, hinv.held, fun _ _ => rfl⟩
          (fun _ => hinv.held thread _ hlookup rfl) fun _ => rfl
        rw [hnone] at hmem
        cases hmem
  | spawn =>
      have hnone : c.alive = [] := by
        apply hinv.alive_eq_nil
        rw [joinBlocks, hinv.joined thread hlookup]
        exact Bool.false_ne_true
      rw [ResourcePoolMetricsCollector.advance, hnone]
      refine hinv.finish hlookup rfl rfl (fun worker hmem => ?_) (List.nodup_singleton _)
      rw [List.mem_singleton.mp hmem]
  | join =>
      rw [ResourcePoolMetricsCollector.advance]
      split_ifs with hjoin
      · exact hinv
      · have hnone := hinv.alive_eq_nil hjoin
        refine hinv.finish hlookup rfl rfl (fun worker hmem => ?_) hinv.nodup
        rw [hnone] at hmem
        cases hmem

theorem Inv.step (hinv : c.Inv) (label : CollectorLabel) : (c.step label).Inv := by
  cases label with
  | start thread =>
      rw [ResourcePoolMetricsCollector.step, ResourcePoolMetricsCollector.start]
      split_ifs
      · exact Inv.goOn ⟨hinv.owned, hinv.nodup, hinv.held, hinv.joined⟩ rfl
      · exact hinv
      · exact hinv
  | stop thread =>
      rw [ResourcePoolMetricsCollector.step, ResourcePoolMetricsCollector.stop]
      split_ifs
      · exact Inv.goOn ⟨hinv.owned, hinv.nodup, hinv.held, hinv.joined⟩ rfl
      · exact hinv
      · exact hinv
  | advance thread =>
      rw [ResourcePoolMetricsCollector.step]
      split
      case h_1 => exact hinv
      case h_2 point hlookup => exact hinv.advance hlookup
  | check worker =>
      rw [ResourcePoolMetricsCollector.step, check]
      split_ifs
      · refine ⟨fun other hmem => ?_, hinv.nodup.erase worker, hinv.held, hinv.joined⟩
        exact hinv.owned other (List.mem_of_mem_erase hmem)
      · exact hinv

/-- In every interleaving there is at most one worker, and a call of `stop` that has waited for the worker
returns when there is none. -/
theorem one_worker (labels : List CollectorLabel) :
    let c := run ResourcePoolMetricsCollector.step {} labels
    (c.alive = [] ∨ ∃ worker, c.alive = [worker] ∧ c.mThread = some worker) ∧
      ∀ thread, c.calls.lookup thread = some .join →
        (c.step (.advance thread)).calls.lookup thread = none → (c.step (.advance thread)).alive = [] := by
  have hinv : Inv (run ResourcePoolMetricsCollector.step {} labels) :=
    run_induction ⟨by simp, List.nodup_nil, by simp, by simp⟩ (fun _ label hinv => hinv.step label) labels
  generalize run ResourcePoolMetricsCollector.step {} labels = c at hinv
  refine ⟨?_, fun thread hlookup hreturned => ?_⟩
  · have hnodup := hinv.nodup
    cases halive : c.alive with
    | nil => exact .inl rfl
    | cons worker rest =>
        have howned := hinv.owned
        rw [halive] at hnodup howned
        refine .inr ⟨worker, ?_, howned worker List.mem_cons_self⟩
        cases rest with
        | nil => rfl
        | cons other rest =>
            have hsame := (howned worker List.mem_cons_self).symm.trans (howned other (by simp))
            rw [Option.some.inj hsame] at hnodup
            exact absurd List.mem_cons_self (List.nodup_cons.mp hnodup).1
  · have hstep : c.step (.advance thread) = c.advance thread .join := by
      rw [ResourcePoolMetricsCollector.step, hlookup]
    rw [hstep, ResourcePoolMetricsCollector.advance] at hreturned ⊢
    split_ifs at hreturned ⊢ with hjoin
    · rw [hlookup] at hreturned
      cases hreturned
    · exact hinv.alive_eq_nil hjoin

/-! ### Calls in turn -/

/-- A call begins when no other is under way. -/
def InTurn (c : ResourcePoolMetricsCollector) : CollectorLabel → Prop
  | .start _ | .stop _ => c.calls = ∅
  | .advance _ | .check _ => True

instance (c : ResourcePoolMetricsCollector) (label : CollectorLabel) : Decidable (c.InTurn label) :=
  match label with
  | .start _ | .stop _ => inferInstanceAs (Decidable (c.calls = ∅))
  | .advance _ | .check _ => inferInstanceAs (Decidable True)

/-- No call is under way: the collector runs and has a worker, or neither. -/
structure Settled (c : ResourcePoolMetricsCollector) : Prop where
  free : c.mThreadMutex = none
  agrees :
    c.mRunning = true ∧ c.mStopFlag = false ∧ (∃ worker, c.alive = [worker] ∧ c.mThread = some worker) ∨
      c.mRunning = false ∧ c.alive = [] ∧ c.mThread = none

/-- What holds where the only call under way stands at a point. -/
def Expects (c : ResourcePoolMetricsCollector) (thread : Nat) : CollectorPoint → Prop
  | .clearFlag => c.mRunning = true ∧ c.mThreadMutex = none ∧ c.alive = [] ∧ c.mThread = none
  | .lockToStart =>
      c.mRunning = true ∧ c.mStopFlag = false ∧ c.mThreadMutex = none ∧ c.alive = [] ∧ c.mThread = none
  | .joinLast | .spawn =>
      c.mRunning = true ∧ c.mStopFlag = false ∧ c.mThreadMutex = some thread ∧ c.alive = [] ∧ c.mThread = none
  | .raiseFlag =>
      c.mRunning = false ∧ c.mStopFlag = false ∧ c.mThreadMutex = none ∧
        ∃ worker, c.alive = [worker] ∧ c.mThread = some worker
  | .lockToStop =>
      c.mRunning = false ∧ c.mStopFlag = true ∧ c.mThreadMutex = none ∧
        ∃ worker, (c.alive = [worker] ∨ c.alive = []) ∧ c.mThread = some worker
  | .join =>
      c.mRunning = false ∧ c.mStopFlag = true ∧ c.mThreadMutex = some thread ∧
        ∃ worker, (c.alive = [worker] ∨ c.alive = []) ∧ c.mThread = some worker

/-- One call under way. -/
def only (thread : Nat) (point : CollectorPoint) : UnorderedMap Nat CollectorPoint :=
  (∅ : UnorderedMap Nat CollectorPoint).insert thread point

theorem lookup_only (other : Nat) :
    (only thread point).lookup other = if other = thread then some point else none := by
  rw [only, UnorderedMap.lookup_insert_ite, Finmap.lookup_empty]

theorem only_ne_empty : only thread point ≠ ∅ := by
  intro hempty
  have hlookup := @lookup_only thread point thread
  rw [hempty, Finmap.lookup_empty, if_pos rfl] at hlookup
  cases hlookup

theorem erase_only : (only thread point).erase thread = ∅ := by
  apply Finmap.ext_lookup
  intro other
  by_cases heq : other = thread
  · rw [heq, Finmap.lookup_erase, Finmap.lookup_empty]
  · rw [Finmap.lookup_erase_ne heq, lookup_only, if_neg heq, Finmap.lookup_empty]

theorem step_advance_idle (hidle : c.calls = ∅) (other : Nat) : c.step (.advance other) = c := by
  rw [ResourcePoolMetricsCollector.step, hidle, Finmap.lookup_empty]

theorem step_advance_only (honly : c.calls = only thread point) (other : Nat) :
    c.step (.advance other) = if other = thread then c.advance thread point else c := by
  rw [ResourcePoolMetricsCollector.step, honly, lookup_only]
  split_ifs with heq
  · rw [heq]
  · rfl

/-- There is one call under way, or none. -/
def Orderly (c : ResourcePoolMetricsCollector) : Prop :=
  c.calls = ∅ ∧ c.Settled ∨ ∃ thread point, c.calls = only thread point ∧ c.Expects thread point

/-- Between two calls the collector is settled. -/
theorem Orderly.settled (horderly : c.Orderly) (hcalls : c.calls = ∅) : c.Settled := by
  rcases horderly with ⟨-, hsettled⟩ | ⟨_, _, honly, -⟩
  · exact hsettled
  · exact absurd (honly.symm.trans hcalls) only_ne_empty

theorem calls_goTo (hcalls : c.calls = only thread point) (next : CollectorPoint) :
    (c.goTo thread next).calls = only thread next := by
  rw [goTo, hcalls, only, Finmap.insert_insert, only]

theorem Orderly.advance (hcalls : c.calls = only thread point) (hexpects : c.Expects thread point) :
    (c.advance thread point).Orderly := by
  have hgoTo (c' : ResourcePoolMetricsCollector) (hsame : c'.calls = c.calls) (next : CollectorPoint)
      (hnext : (c'.goTo thread next).Expects thread next) : (c'.goTo thread next).Orderly :=
    .inr ⟨thread, next, calls_goTo (hsame.trans hcalls) next, hnext⟩
  have hfinish (c' : ResourcePoolMetricsCollector) (hsame : c'.calls = c.calls)
      (hsettled : (c'.finish thread).Settled) : (c'.finish thread).Orderly := by
    refine .inl ⟨?_, hsettled⟩
    rw [finish, hsame, hcalls, erase_only]
  cases point with
  | clearFlag =>
      obtain ⟨hrunning, hfree, halive, hthread⟩ := hexpects
      exact hgoTo { c with mStopFlag := false } rfl .lockToStart ⟨hrunning, rfl, hfree, halive, hthread⟩
  | raiseFlag =>
      obtain ⟨hrunning, -, hfree, worker, halive, hthread⟩ := hexpects
      exact hgoTo { c with mStopFlag := true } rfl .lockToStop
        ⟨hrunning, rfl, hfree, worker, .inl halive, hthread⟩
  | lockToStart =>
      obtain ⟨hrunning, hflag, hfree, halive, hthread⟩ := hexpects
      rw [ResourcePoolMetricsCollector.advance, lock, if_pos hfree]
      exact hgoTo { c with mThreadMutex := some thread } rfl .joinLast ⟨hrunning, hflag, rfl, halive, hthread⟩
  | lockToStop =>
      obtain ⟨hrunning, hflag, hfree, hworker⟩ := hexpects
      rw [ResourcePoolMetricsCollector.advance, lock, if_pos hfree]
      exact hgoTo { c with mThreadMutex := some thread } rfl .join ⟨hrunning, hflag, rfl, hworker⟩
  | joinLast =>
      obtain ⟨hrunning, hflag, hheld, halive, hthread⟩ := hexpects
      have hjoin : ¬ c.joinBlocks = true := by
        rw [joinBlocks, hthread]
        exact Bool.false_ne_true
      rw [ResourcePoolMetricsCollector.advance, if_neg hjoin]
      exact hgoTo { c with mThread := none } rfl .spawn ⟨hrunning, hflag, hheld, halive, rfl⟩
  | spawn =>
      obtain ⟨hrunning, hflag, -, halive, -⟩ := hexpects
      refine hfinish _ rfl ⟨rfl, .inl ⟨hrunning, hflag, c.started, ?_, rfl⟩⟩
      rw [finish, halive]
  | join =>
      rw [ResourcePoolMetricsCollector.advance]
      split_ifs with hjoin
      · exact .inr ⟨thread, .join, hcalls, hexpects⟩
      · obtain ⟨hrunning, -, -, worker, halive, hthread⟩ := hexpects
        have hnone : c.alive = [] := by
          refine halive.resolve_left fun hone => hjoin ?_
          rw [joinBlocks, hthread, hone]
          exact decide_eq_true (List.mem_singleton.mpr rfl)
        exact hfinish { c with mThread := none } rfl ⟨rfl, .inr ⟨hrunning, hnone, rfl⟩⟩

theorem erase_alive {worker : Nat} (halive : c.alive = [worker] ∨ c.alive = []) (other : Nat) :
    c.alive.erase other = [worker] ∨ c.alive.erase other = [] := by
  rcases halive with hone | hnone
  · rw [hone, List.erase_cons]
    split_ifs
    · exact .inr rfl
    · exact .inl rfl
  · rw [hnone]
    exact .inr rfl

/-- A worker leaves only where it has been told to stop. -/
theorem Expects.check (hexpects : c.Expects thread point) (worker : Nat) :
    (c.check worker).Expects thread point := by
  unfold ResourcePoolMetricsCollector.check
  split_ifs with hflag
  case neg => exact hexpects
  have hnotTold {P : Prop} (hlow : c.mStopFlag = false) : P := by
    rw [hflag] at hlow
    cases hlow
  cases point with
  | clearFlag =>
      obtain ⟨hrunning, hfree, halive, hthread⟩ := hexpects
      refine ⟨hrunning, hfree, ?_, hthread⟩
      rw [halive]
      rfl
  | lockToStart | joinLast | spawn => exact hnotTold hexpects.2.1
  | raiseFlag => exact hnotTold hexpects.2.1
  | lockToStop | join =>
      obtain ⟨hrunning, hraised, hmutex, other, halive, hthread⟩ := hexpects
      exact ⟨hrunning, hraised, hmutex, other, erase_alive halive worker, hthread⟩

theorem calls_check (worker : Nat) : (c.check worker).calls = c.calls := by
  unfold ResourcePoolMetricsCollector.check
  split_ifs <;> rfl

/-- The worker of a settled collector is not told to stop. -/
theorem Settled.check (hsettled : c.Settled) (worker : Nat) : (c.check worker).Settled := by
  unfold ResourcePoolMetricsCollector.check
  split_ifs with hflag
  case neg => exact hsettled
  refine ⟨hsettled.free, ?_⟩
  rcases hsettled.agrees with ⟨-, hlow, -⟩ | ⟨hoff, halive, hthread⟩
  · rw [hflag] at hlow
    cases hlow
  · refine .inr ⟨hoff, ?_, hthread⟩
    dsimp only
    rw [halive]
    rfl

theorem Orderly.step (horderly : c.Orderly) {label : CollectorLabel} (hturn : c.InTurn label) :
    (c.step label).Orderly := by
  have hlookup {thread : Nat} (hcalls : c.calls = ∅) : c.calls.lookup thread = none := by
    rw [hcalls, Finmap.lookup_empty]
  have hbegin {c' : ResourcePoolMetricsCollector} {thread : Nat} (hcalls : c'.calls = ∅)
      {point : CollectorPoint} (hexpects : (c'.goTo thread point).Expects thread point) :
      (c'.goTo thread point).Orderly :=
    .inr ⟨thread, point, by rw [goTo, hcalls, only], hexpects⟩
  cases label with
  | start thread =>
      have hcalls : c.calls = ∅ := hturn
      rw [ResourcePoolMetricsCollector.step, if_pos (hlookup hcalls), ResourcePoolMetricsCollector.start]
      split_ifs with hrunning
      case neg => exact horderly
      have hsettled := horderly.settled hcalls
      rcases hsettled.agrees with ⟨hon, -⟩ | ⟨-, halive, hthread⟩
      case inl =>
        rw [hrunning] at hon
        cases hon
      exact @hbegin { c with mRunning := true } thread hcalls .clearFlag ⟨rfl, hsettled.free, halive, hthread⟩
  | stop thread =>
      have hcalls : c.calls = ∅ := hturn
      rw [ResourcePoolMetricsCollector.step, if_pos (hlookup hcalls), ResourcePoolMetricsCollector.stop]
      split_ifs with hrunning
      case neg => exact horderly
      have hsettled := horderly.settled hcalls
      rcases hsettled.agrees with ⟨-, hflag, hworker⟩ | ⟨hoff, -⟩
      case inr =>
        rw [hrunning] at hoff
        cases hoff
      exact @hbegin { c with mRunning := false } thread hcalls .raiseFlag ⟨rfl, hflag, hsettled.free, hworker⟩
  | advance thread =>
      rcases id horderly with ⟨hcalls, -⟩ | ⟨other, point, honly, hexpects⟩
      · rwa [step_advance_idle hcalls]
      · rw [step_advance_only honly]
        split_ifs
        · exact Orderly.advance honly hexpects
        · exact horderly
  | check worker =>
      rcases horderly with ⟨hcalls, hsettled⟩ | ⟨thread, point, honly, hexpects⟩
      · exact .inl ⟨(calls_check worker).trans hcalls, hsettled.check worker⟩
      · exact .inr ⟨thread, point, (calls_check worker).trans honly, hexpects.check worker⟩

/-- A call that is not going on waits for a worker that has been told to stop. -/
theorem Expects.waits (hcalls : c.calls = only thread point) (hexpects : c.Expects thread point)
    (hsame : c.advance thread point = c) :
    c.mStopFlag = true ∧ ∃ worker, c.alive = [worker] ∧ (c.check worker).alive = [] := by
  have hpoint : (c.advance thread point).calls.lookup thread = some point := by
    rw [hsame, hcalls, lookup_only, if_pos rfl]
  have hstill {c' : ResourcePoolMetricsCollector} {next : CollectorPoint}
      (hnext : (c'.goTo thread next).calls.lookup thread = some point) : next = point := by
    rw [lookup_goTo, if_pos rfl] at hnext
    exact Option.some.inj hnext
  have hgone {P : Prop} {c' : ResourcePoolMetricsCollector}
      (hreturned : (c'.finish thread).calls.lookup thread = some point) : P := by
    rw [finish, Finmap.lookup_erase] at hreturned
    cases hreturned
  cases point with
  | clearFlag => cases hstill hpoint
  | raiseFlag => cases hstill hpoint
  | lockToStart =>
      rw [ResourcePoolMetricsCollector.advance, lock, if_pos hexpects.2.2.1] at hpoint
      cases hstill hpoint
  | lockToStop =>
      rw [ResourcePoolMetricsCollector.advance, lock, if_pos hexpects.2.2.1] at hpoint
      cases hstill hpoint
  | joinLast =>
      have hjoin : ¬ c.joinBlocks = true := by
        rw [joinBlocks, hexpects.2.2.2.2]
        exact Bool.false_ne_true
      rw [ResourcePoolMetricsCollector.advance, if_neg hjoin] at hpoint
      cases hstill hpoint
  | spawn => exact hgone hpoint
  | join =>
      obtain ⟨-, hflag, -, worker, halive, -⟩ := hexpects
      rw [ResourcePoolMetricsCollector.advance] at hpoint
      split_ifs at hpoint with hjoin
      · have hone : c.alive = [worker] := by
          refine halive.resolve_right fun hnone => ?_
          rw [joinBlocks, hnone, Option.any_eq_true] at hjoin
          obtain ⟨_, -, hmem⟩ := hjoin
          exact absurd (of_decide_eq_true hmem) List.not_mem_nil
        refine ⟨hflag, worker, hone, ?_⟩
        rw [ResourcePoolMetricsCollector.check, if_pos hflag]
        dsimp only
        rw [hone, List.erase_cons_head]
      · exact hgone hpoint

/-- With calls in turn: between two calls the collector runs and has a worker, or neither, and nothing is left
to be joined. A call waits for nothing but a worker that has been told to stop and leaves when it looks. -/
theorem settled_of_inTurn {labels : List CollectorLabel}
    (hturn : Along ResourcePoolMetricsCollector.step InTurn {} labels) :
    let c := run ResourcePoolMetricsCollector.step {} labels
    (c.calls = ∅ → c.Settled) ∧
      ∀ thread, c.calls.lookup thread ≠ none → c.step (.advance thread) = c →
        c.mStopFlag = true ∧ ∃ worker, c.alive = [worker] ∧ (c.step (.check worker)).alive = [] := by
  have horderly : Orderly (run ResourcePoolMetricsCollector.step {} labels) :=
    hturn.induction (.inl ⟨rfl, rfl, .inr ⟨rfl, rfl, rfl⟩⟩) fun _ _ horderly => horderly.step
  generalize run ResourcePoolMetricsCollector.step {} labels = c at horderly
  refine ⟨horderly.settled, fun thread hunder hsame => ?_⟩
  rcases horderly with ⟨hcalls, -⟩ | ⟨other, point, honly, hexpects⟩
  · exact absurd (by rw [hcalls, Finmap.lookup_empty]) hunder
  · have heq : thread = other := by
      by_contra hne
      exact hunder (by rw [honly, lookup_only, if_neg hne])
    rw [step_advance_only honly, if_pos heq] at hsame
    exact hexpects.waits honly hsame

/-- Started, stopped and started again; the last worker looks at the flag once. -/
def twoRounds : List CollectorLabel :=
  [.start 0, .advance 0, .advance 0, .advance 0, .advance 0, .stop 1, .advance 1, .advance 1, .check 0,
    .advance 1, .start 0, .advance 0, .advance 0, .advance 0, .advance 0, .check 1]

theorem settled_of_inTurn_twoRounds :
    (run ResourcePoolMetricsCollector.step {} twoRounds).alive = [1] ∧
      Settled (run ResourcePoolMetricsCollector.step {} twoRounds) := by
  have hturn : Along ResourcePoolMetricsCollector.step InTurn {} twoRounds := by decide
  exact ⟨by decide, (settled_of_inTurn hturn).1 (by decide)⟩

/-! ### Calls that overlap -/

/-- A worker is left alone: nothing is under way, or a `start` that will not get past its `join`. -/
structure Abandoned (c : ResourcePoolMetricsCollector) (worker : Nat) : Prop where
  flag : c.mStopFlag = false
  alive : c.alive = [worker]
  handle : c.mThread = some worker
  calls : c.calls = ∅ ∧ c.mRunning = false ∨
    ∃ thread point, c.calls = only thread point ∧ c.mRunning = true ∧
      point ∈ [CollectorPoint.clearFlag, .lockToStart, .joinLast]

theorem Abandoned.goTo {c' : ResourcePoolMetricsCollector} {worker : Nat} (hflag : c'.mStopFlag = false)
    (halive : c'.alive = [worker]) (hthread : c'.mThread = some worker)
    (hcalls : (c'.goTo thread point).calls = only thread point) (hrunning : c'.mRunning = true)
    (hpoint : point ∈ [CollectorPoint.clearFlag, .lockToStart, .joinLast]) :
    (c'.goTo thread point).Abandoned worker :=
  ⟨hflag, halive, hthread, .inr ⟨thread, point, hcalls, hrunning, hpoint⟩⟩

/-- A `start` gets as far as its `join`. -/
theorem Abandoned.advance {worker : Nat} (habandoned : c.Abandoned worker)
    (honly : c.calls = only thread point) : (c.advance thread point).Abandoned worker := by
  obtain ⟨hflag, halive, hthread, hcalls⟩ := id habandoned
  rcases hcalls with ⟨hidle, -⟩ | ⟨other, next, honly', hrunning, hpoint⟩
  · exact absurd (honly.symm.trans hidle) only_ne_empty
  have hplace : (only other next).lookup thread = some point := by
    rw [← honly', honly, lookup_only, if_pos rfl]
  rw [lookup_only] at hplace
  split_ifs at hplace with heq
  obtain rfl : next = point := Option.some.inj hplace
  simp only [List.mem_cons, List.not_mem_nil, or_false] at hpoint
  rcases hpoint with rfl | rfl | rfl
  · exact @Abandoned.goTo thread .lockToStart { c with mStopFlag := false } worker rfl halive hthread
      (calls_goTo honly _) hrunning (by simp)
  · rw [ResourcePoolMetricsCollector.advance, lock]
    split_ifs
    · exact @Abandoned.goTo thread .joinLast { c with mThreadMutex := some thread } worker hflag halive
        hthread (calls_goTo honly _) hrunning (by simp)
    · exact habandoned
  · have hjoin : c.joinBlocks = true := by
      rw [joinBlocks, hthread, halive]
      exact decide_eq_true (List.mem_singleton.mpr rfl)
    rw [ResourcePoolMetricsCollector.advance, if_pos hjoin]
    exact habandoned

theorem Abandoned.step {worker : Nat} (habandoned : c.Abandoned worker) {label : CollectorLabel}
    (hturn : c.InTurn label) : (c.step label).Abandoned worker := by
  obtain ⟨hflag, halive, hthread, hcalls⟩ := habandoned
  have hsame : c.Abandoned worker := ⟨hflag, halive, hthread, hcalls⟩
  cases label with
  | start thread =>
      have hidle : c.calls = ∅ := hturn
      rw [ResourcePoolMetricsCollector.step, hidle, Finmap.lookup_empty, if_pos rfl,
        ResourcePoolMetricsCollector.start]
      split_ifs with hrunning
      · have hcalls : ({ c with mRunning := true }.goTo thread .clearFlag).calls =
            only thread .clearFlag := by
          rw [ResourcePoolMetricsCollector.goTo, hidle, only]
        exact .goTo hflag halive hthread hcalls rfl (by simp)
      · exact hsame
  | stop thread =>
      have hidle : c.calls = ∅ := hturn
      rcases hcalls with ⟨-, hrunning⟩ | ⟨_, _, honly, -⟩
      · rw [ResourcePoolMetricsCollector.step, hidle, Finmap.lookup_empty, if_pos rfl,
          ResourcePoolMetricsCollector.stop, hrunning, if_neg (by decide)]
        exact hsame
      · exact absurd (honly.symm.trans hidle) only_ne_empty
  | check other =>
      rw [ResourcePoolMetricsCollector.step, ResourcePoolMetricsCollector.check, hflag, if_neg (by decide)]
      exact hsame
  | advance other =>
      rcases hcalls with ⟨hidle, -⟩ | ⟨thread, point, honly, -⟩
      · rwa [step_advance_idle hidle]
      · rw [step_advance_only honly]
        split_ifs
        · exact hsame.advance honly
        · exact hsame

/-- A step of a `stop`. -/
structure Stops (c c' : ResourcePoolMetricsCollector) (thread : Nat) : Prop where
  running : c'.mRunning = c.mRunning
  alive : c'.alive = c.alive
  started : c'.started = c.started
  handle : c'.mThread = c.mThread ∨ c'.mThread = none ∧ ¬ c.joinBlocks = true
  others : ∀ other, other ≠ thread → c'.calls.lookup other = c.calls.lookup other
  next : ∀ point, c'.calls.lookup thread = some point → point ∈ [CollectorPoint.lockToStop, .join]

theorem Stops.goTo {c' : ResourcePoolMetricsCollector} (hrunning : c'.mRunning = c.mRunning)
    (halive : c'.alive = c.alive) (hstarted : c'.started = c.started) (hthread : c'.mThread = c.mThread)
    (hcalls : c'.calls = c.calls) (hpoint : point ∈ [CollectorPoint.lockToStop, .join]) :
    Stops c (c'.goTo thread point) thread := by
  refine ⟨hrunning, halive, hstarted, .inl hthread, fun other hne => ?_, fun next hnext => ?_⟩
  · rw [lookup_goTo, if_neg hne, hcalls]
  · rw [lookup_goTo, if_pos rfl] at hnext
    exact Option.some.inj hnext ▸ hpoint

theorem stops_advance (hlookup : c.calls.lookup thread = some point)
    (hpoint : point ∈ [CollectorPoint.raiseFlag, .lockToStop, .join]) :
    Stops c (c.advance thread point) thread := by
  have hwaits (hhere : point ∈ [CollectorPoint.lockToStop, .join]) : Stops c c thread := by
    refine ⟨rfl, rfl, rfl, .inl rfl, fun _ _ => rfl, fun next hnext => ?_⟩
    rw [hlookup] at hnext
    exact Option.some.inj hnext ▸ hhere
  simp only [List.mem_cons, List.not_mem_nil, or_false] at hpoint
  rcases hpoint with rfl | rfl | rfl
  · exact @Stops.goTo c thread .lockToStop { c with mStopFlag := true } rfl rfl rfl rfl rfl (by simp)
  · rw [ResourcePoolMetricsCollector.advance, lock]
    split_ifs
    · exact @Stops.goTo c thread .join { c with mThreadMutex := some thread } rfl rfl rfl rfl rfl (by simp)
    · exact hwaits (by simp)
  · rw [ResourcePoolMetricsCollector.advance]
    split_ifs with hjoin
    · exact hwaits (by simp)
    · refine ⟨rfl, rfl, rfl, .inr ⟨rfl, hjoin⟩, fun other hne => Finmap.lookup_erase_ne hne,
        fun next hnext => ?_⟩
      rw [finish, Finmap.lookup_erase] at hnext
      cases hnext

theorem flag_advance (hpoint : point ∈ [CollectorPoint.lockToStop, .join]) :
    (c.advance thread point).mStopFlag = c.mStopFlag := by
  simp only [List.mem_cons, List.not_mem_nil, or_false] at hpoint
  rcases hpoint with rfl | rfl
  · rw [ResourcePoolMetricsCollector.advance, lock]
    split_ifs <;> rfl
  · rw [ResourcePoolMetricsCollector.advance]
    split_ifs <;> rfl

/-- The only calls under way are a `start` and a `stop` that has seen it. -/
structure Overlap (c : ResourcePoolMetricsCollector) (starter stopper : Nat)
    (stopping : List CollectorPoint) : Prop where
  running : c.mRunning = false
  ofStop : ∀ point, c.calls.lookup stopper = some point → point ∈ stopping
  others : ∀ thread, thread ≠ starter → thread ≠ stopper → c.calls.lookup thread = none

theorem Overlap.of_stops {c' : ResourcePoolMetricsCollector} {starter stopper : Nat}
    {stopping : List CollectorPoint} (hoverlap : c.Overlap starter stopper stopping)
    (hstops : Stops c c' stopper) : c'.Overlap starter stopper [.lockToStop, .join] where
  running := hstops.running.trans hoverlap.running
  ofStop := hstops.next
  others thread hstarter hstopper :=
    (hstops.others thread hstopper).trans (hoverlap.others thread hstarter hstopper)

/-- The call is one of the two. -/
theorem Overlap.eq_or_eq {starter stopper : Nat} {stopping : List CollectorPoint}
    (hoverlap : c.Overlap starter stopper stopping) (hlookup : c.calls.lookup thread = some point) :
    thread = starter ∨ thread = stopper := by
  by_contra hneither
  rw [not_or] at hneither
  rw [hoverlap.others thread hneither.1 hneither.2] at hlookup
  cases hlookup

/-- The `start` has yet to store its flag, and there is no worker. -/
structure Overtaking (c : ResourcePoolMetricsCollector) (starter stopper worker : Nat)
    (stopping : List CollectorPoint) : Prop extends c.Overlap starter stopper stopping where
  ofStart : c.calls.lookup starter = some .clearFlag
  next : c.started = worker
  alive : c.alive = []
  handle : c.mThread = none

/-- Both flags are stored, that of the `start` last. Its worker comes or is there, and where it is there the
`stop` waits for it in vain. -/
structure Overtaken (c : ResourcePoolMetricsCollector) (starter stopper worker : Nat) : Prop
    extends c.Overlap starter stopper [.lockToStop, .join] where
  flag : c.mStopFlag = false
  ofStart :
    (∃ point ∈ [CollectorPoint.lockToStart, .joinLast, .spawn], c.calls.lookup starter = some point) ∧
        c.started = worker ∧ c.alive = [] ∧ c.mThread = none ∨
      c.calls.lookup starter = none ∧ c.alive = [worker] ∧ c.mThread = some worker

section

variable {starter stopper worker : Nat} {stopping : List CollectorPoint}

/-- A step of the `stop` stores its flag, if that is still to be done. -/
theorem Overtaking.step (hovertaking : c.Overtaking starter stopper worker stopping) (hne : starter ≠ stopper)
    (hstopping : stopping ⊆ [.raiseFlag, .lockToStop, .join]) {label : CollectorLabel}
    (hturn : c.InTurn label) (hlabel : label ≠ .advance starter) :
    (c.step label).Overtaking starter stopper worker
      (if label = .advance stopper then [.lockToStop, .join] else stopping) := by
  have hbusy : c.calls ≠ ∅ := by
    intro hidle
    have hstarter := hovertaking.ofStart
    rw [hidle, Finmap.lookup_empty] at hstarter
    cases hstarter
  cases label with
  | start thread => exact absurd hturn hbusy
  | stop thread => exact absurd hturn hbusy
  | check other =>
      rw [if_neg (by simp), ResourcePoolMetricsCollector.step, ResourcePoolMetricsCollector.check]
      split_ifs
      · have halive : c.alive.erase other = [] := by
          rw [hovertaking.alive]
          rfl
        exact ⟨⟨hovertaking.running, hovertaking.ofStop, hovertaking.others⟩, hovertaking.ofStart,
          hovertaking.next, halive, hovertaking.handle⟩
      · exact hovertaking
  | advance thread =>
      rw [ResourcePoolMetricsCollector.step]
      cases hlookup : c.calls.lookup thread with
      | none =>
          split_ifs with heq
          · obtain rfl : thread = stopper := CollectorLabel.advance.inj heq
            refine ⟨⟨hovertaking.running, fun point hpoint => ?_, hovertaking.others⟩, hovertaking.ofStart,
              hovertaking.next, hovertaking.alive, hovertaking.handle⟩
            rw [hlookup] at hpoint
            cases hpoint
          · exact hovertaking
      | some point =>
          obtain rfl : thread = stopper := by
            refine (hovertaking.eq_or_eq hlookup).resolve_left fun heq => ?_
            exact hlabel (congrArg _ heq)
          have hstops := stops_advance hlookup (hstopping (hovertaking.ofStop point hlookup))
          rw [if_pos rfl]
          refine ⟨hovertaking.toOverlap.of_stops hstops,
            (hstops.others starter hne).trans hovertaking.ofStart,
            hstops.started.trans hovertaking.next, hstops.alive.trans hovertaking.alive, ?_⟩
          rcases hstops.handle with hsame | ⟨hnone, -⟩
          · exact hsame.trans hovertaking.handle
          · exact hnone

theorem Overtaking.run (hovertaking : c.Overtaking starter stopper worker stopping) (hne : starter ≠ stopper)
    (hstopping : stopping ⊆ [.raiseFlag, .lockToStop, .join]) {labels : List CollectorLabel}
    (hturn : Along ResourcePoolMetricsCollector.step InTurn c labels)
    (hlabels : .advance starter ∉ labels)
    (hraised : stopping ⊆ [.lockToStop, .join] ∨ .advance stopper ∈ labels) :
    (SoulCoreKit.run ResourcePoolMetricsCollector.step c labels).Overtaking starter stopper worker
      [.lockToStop, .join] := by
  induction labels generalizing c stopping with
  | nil =>
      have hsubset := hraised.resolve_right List.not_mem_nil
      exact ⟨⟨hovertaking.running, fun point hpoint => hsubset (hovertaking.ofStop point hpoint),
        hovertaking.others⟩, hovertaking.ofStart, hovertaking.next, hovertaking.alive, hovertaking.handle⟩
  | cons label rest ih =>
      rw [List.mem_cons, not_or] at hlabels
      have hnext := hovertaking.step hne hstopping hturn.1 (Ne.symm hlabels.1)
      rw [run_cons]
      split_ifs at hnext with hstop
      · exact ih hnext (by simp) hturn.2 hlabels.2 (.inl (List.Subset.refl _))
      · refine ih hnext hstopping hturn.2 hlabels.2 (hraised.imp_right fun hmem => ?_)
        exact (List.mem_cons.mp hmem).resolve_left (Ne.symm hstop)

theorem Overtaking.clear (hovertaking : c.Overtaking starter stopper worker [.lockToStop, .join])
    (hne : starter ≠ stopper) : (c.step (.advance starter)).Overtaken starter stopper worker := by
  have hstep : c.step (.advance starter) = c.advance starter .clearFlag := by
    rw [ResourcePoolMetricsCollector.step, hovertaking.ofStart]
  rw [hstep, ResourcePoolMetricsCollector.advance]
  refine ⟨⟨hovertaking.running, fun point hpoint => ?_, fun thread hstarter hstopper => ?_⟩, rfl, .inl ⟨?_,
    hovertaking.next, hovertaking.alive, hovertaking.handle⟩⟩
  · rw [lookup_goTo, if_neg (Ne.symm hne)] at hpoint
    exact hovertaking.ofStop point hpoint
  · rw [lookup_goTo, if_neg hstarter]
    exact hovertaking.others thread hstarter hstopper
  · exact ⟨.lockToStart, by simp, by rw [lookup_goTo, if_pos rfl]⟩

/-- The `start` goes on: it takes the mutex, finds nothing to join and starts its worker. -/
theorem Overtaken.advance_starter (hovertaken : c.Overtaken starter stopper worker) (hne : starter ≠ stopper)
    (hlookup : c.calls.lookup starter = some point) :
    (c.advance starter point).Overtaken starter stopper worker := by
  obtain ⟨⟨hrunning, hstopper, hothers⟩, hflag, hstarter⟩ := hovertaken
  rcases hstarter with ⟨⟨at', hat, hlookup'⟩, hnext, halive, hthread⟩ | ⟨hnone, -⟩
  case inr =>
    rw [hnone] at hlookup
    cases hlookup
  obtain rfl : at' = point := Option.some.inj (hlookup'.symm.trans hlookup)
  have hgoTo (c' : ResourcePoolMetricsCollector) (hcalls : c'.calls = c.calls) (next : CollectorPoint)
      (hnext : next ∈ [CollectorPoint.lockToStart, .joinLast, .spawn]) (hrunning : c'.mRunning = false)
      (hflag : c'.mStopFlag = false)
      (hrest : c'.started = worker ∧ c'.alive = [] ∧ c'.mThread = none) :
      (c'.goTo starter next).Overtaken starter stopper worker := by
    refine ⟨⟨hrunning, fun point hpoint => ?_, fun thread hone htwo => ?_⟩, hflag, .inl ⟨?_, hrest⟩⟩
    · rw [lookup_goTo, if_neg (Ne.symm hne), hcalls] at hpoint
      exact hstopper point hpoint
    · rw [lookup_goTo, if_neg hone, hcalls]
      exact hothers thread hone htwo
    · exact ⟨next, hnext, by rw [lookup_goTo, if_pos rfl]⟩
  simp only [List.mem_cons, List.not_mem_nil, or_false] at hat
  rcases hat with rfl | rfl | rfl
  · rw [ResourcePoolMetricsCollector.advance, lock]
    split_ifs
    · exact hgoTo { c with mThreadMutex := some starter } rfl .joinLast (by simp) hrunning hflag
        ⟨hnext, halive, hthread⟩
    · exact ⟨⟨hrunning, hstopper, hothers⟩, hflag, .inl ⟨⟨_, by simp, hlookup⟩, hnext, halive, hthread⟩⟩
  · have hjoin : ¬ c.joinBlocks = true := by
      rw [joinBlocks, hthread]
      exact Bool.false_ne_true
    rw [ResourcePoolMetricsCollector.advance, if_neg hjoin]
    exact hgoTo { c with mThread := none } rfl .spawn (by simp) hrunning hflag ⟨hnext, halive, rfl⟩
  · rw [ResourcePoolMetricsCollector.advance, hnext, halive]
    refine ⟨⟨hrunning, fun point hpoint => ?_, fun thread hone htwo => ?_⟩, hflag, .inr ⟨?_, rfl, rfl⟩⟩
    · rw [finish, Finmap.lookup_erase_ne (Ne.symm hne)] at hpoint
      exact hstopper point hpoint
    · rw [finish, Finmap.lookup_erase_ne hone]
      exact hothers thread hone htwo
    · rw [finish, Finmap.lookup_erase]

/-- The `stop` goes on, or waits for the worker with the mutex in its hands. -/
theorem Overtaken.advance_stopper (hovertaken : c.Overtaken starter stopper worker) (hne : starter ≠ stopper)
    (hlookup : c.calls.lookup stopper = some point) :
    (c.advance stopper point).Overtaken starter stopper worker := by
  have hpoint := hovertaken.ofStop point hlookup
  have hstops := stops_advance hlookup (List.mem_cons_of_mem _ hpoint)
  refine ⟨hovertaken.toOverlap.of_stops hstops, (flag_advance hpoint).trans hovertaken.flag, ?_⟩
  rw [hstops.others starter hne, hstops.started, hstops.alive]
  rcases hovertaken.ofStart with ⟨hstarter, hnext, halive, hthread⟩ | ⟨hstarter, halive, hthread⟩
  · refine .inl ⟨hstarter, hnext, halive, ?_⟩
    rcases hstops.handle with hsame | ⟨hnone, -⟩
    · exact hsame.trans hthread
    · exact hnone
  · refine .inr ⟨hstarter, halive, ?_⟩
    rcases hstops.handle with hsame | ⟨-, hjoin⟩
    · exact hsame.trans hthread
    · refine absurd ?_ hjoin
      rw [joinBlocks, hthread, halive]
      exact decide_eq_true (List.mem_singleton.mpr rfl)

theorem Overtaken.abandoned (hovertaken : c.Overtaken starter stopper worker) (hidle : c.calls = ∅) :
    c.Abandoned worker := by
  rcases hovertaken.ofStart with ⟨⟨point, -, hlookup⟩, -⟩ | ⟨-, halive, hthread⟩
  · rw [hidle, Finmap.lookup_empty] at hlookup
    cases hlookup
  · exact ⟨hovertaken.flag, halive, hthread, .inl ⟨hidle, hovertaken.running⟩⟩

theorem Overtaken.step (hovertaken : c.Overtaken starter stopper worker) (hne : starter ≠ stopper)
    {label : CollectorLabel} (hturn : c.InTurn label) :
    (c.step label).Overtaken starter stopper worker ∨ (c.step label).Abandoned worker := by
  cases label with
  | start thread => exact .inr ((hovertaken.abandoned hturn).step hturn)
  | stop thread => exact .inr ((hovertaken.abandoned hturn).step hturn)
  | check other =>
      rw [ResourcePoolMetricsCollector.step, ResourcePoolMetricsCollector.check, hovertaken.flag,
        if_neg (by decide)]
      exact .inl hovertaken
  | advance thread =>
      rw [ResourcePoolMetricsCollector.step]
      split
      case h_1 => exact .inl hovertaken
      case h_2 point hlookup =>
        rcases hovertaken.eq_or_eq hlookup with rfl | rfl
        · exact .inl (hovertaken.advance_starter hne hlookup)
        · exact .inl (hovertaken.advance_stopper hne hlookup)

theorem step_start (hfree : c.calls.lookup thread = none) (hrunning : c.mRunning = false) :
    c.step (.start thread) = { c with mRunning := true }.goTo thread .clearFlag := by
  rw [ResourcePoolMetricsCollector.step, if_pos hfree, ResourcePoolMetricsCollector.start, if_pos hrunning]

theorem step_stop (hfree : c.calls.lookup thread = none) (hrunning : c.mRunning = true) :
    c.step (.stop thread) = { c with mRunning := false }.goTo thread .raiseFlag := by
  rw [ResourcePoolMetricsCollector.step, if_pos hfree, ResourcePoolMetricsCollector.stop, if_pos hrunning]

/-- A `start` and a `stop` that begin one after the other, while nothing else is under way. -/
theorem Settled.overtaking (hsettled : c.Settled) (hidle : c.calls = ∅) (hrunning : c.mRunning = false)
    (hne : starter ≠ stopper) :
    (run ResourcePoolMetricsCollector.step c [.start starter, .stop stopper]).Overtaking starter stopper
      c.started [.raiseFlag] := by
  obtain ⟨halive, hthread⟩ : c.alive = [] ∧ c.mThread = none := by
    rcases hsettled.agrees with ⟨hon, -⟩ | ⟨-, hnone⟩
    · rw [hrunning] at hon
      cases hon
    · exact hnone
  have hfree (thread : Nat) : c.calls.lookup thread = none := by
    rw [hidle, Finmap.lookup_empty]
  have hother (thread : Nat) (hthread : thread ≠ starter) :
      (({ c with mRunning := true } : ResourcePoolMetricsCollector).goTo starter .clearFlag).calls.lookup
        thread = none := by
    rw [lookup_goTo, if_neg hthread]
    exact hfree thread
  rw [run_cons, run_cons, run_nil, step_start (hfree starter) hrunning,
    step_stop (hother stopper hne.symm) rfl]
  refine ⟨⟨rfl, fun point hpoint => ?_, fun thread hone htwo => ?_⟩, ?_, rfl, halive, hthread⟩
  · rw [lookup_goTo, if_pos rfl] at hpoint
    exact List.mem_singleton.mpr (Option.some.inj hpoint).symm
  · rw [lookup_goTo, if_neg htwo]
    exact hother thread hone
  · rw [lookup_goTo, if_neg hne]
    exact (lookup_goTo starter).trans (if_pos rfl)

end

/-- With calls in turn up to a `start`, a `stop` that begins after the exchange of that `start` and stores
its flag before the `start` does, and calls in turn again: the worker of the `start` is never told to stop.
Once it is there it stays. No `stop` does anything, and no `start` returns. -/
theorem abandoned_of_overtaken {before between later : List CollectorLabel} {starter stopper : Nat}
    (hbefore : Along ResourcePoolMetricsCollector.step InTurn {} before)
    (hidle : (run ResourcePoolMetricsCollector.step {} before).calls = ∅)
    (hrunning : (run ResourcePoolMetricsCollector.step {} before).mRunning = false)
    (hne : starter ≠ stopper)
    (hturn : Along ResourcePoolMetricsCollector.step InTurn
      (run ResourcePoolMetricsCollector.step {} (before ++ [.start starter, .stop stopper]))
      (between ++ .advance starter :: later))
    (hstarter : .advance starter ∉ between) (hstopper : .advance stopper ∈ between) :
    let worker := (run ResourcePoolMetricsCollector.step {} before).started
    let c := run ResourcePoolMetricsCollector.step {}
      (before ++ [.start starter, .stop stopper] ++ (between ++ .advance starter :: later))
    c.mStopFlag = false ∧ (c.started = worker ∧ c.alive = [] ∨ c.alive = [worker]) ∧
      (c.mRunning = true → c.calls ≠ ∅) := by
  intro worker c
  have hsettled := (settled_of_inTurn hbefore).1 hidle
  have hovertaking := hsettled.overtaking hidle hrunning hne
  rw [← run_append] at hovertaking
  obtain ⟨hbetween, -, hlater⟩ := (along_append _ _).mp hturn
  have hcleared := (hovertaking.run hne (by simp) hbetween hstarter (.inr hstopper)).clear hne
  have hend : c.Overtaken starter stopper worker ∨ c.Abandoned worker := by
    rw [show c = run ResourcePoolMetricsCollector.step {} _ from rfl, run_append, run_append, run_cons]
    refine hlater.induction (P := fun c => c.Overtaken starter stopper worker ∨ c.Abandoned worker)
      (.inl hcleared) fun _ _ hkept hlabel => ?_
    rcases hkept with hovertaken | habandoned
    · exact hovertaken.step hne hlabel
    · exact .inr (habandoned.step hlabel)
  rcases hend with hovertaken | ⟨hflag, halive, -, hcalls⟩
  · refine ⟨hovertaken.flag, ?_, fun hon => ?_⟩
    · rcases hovertaken.ofStart with ⟨-, hnext, halive, -⟩ | ⟨-, halive, -⟩
      · exact .inl ⟨hnext, halive⟩
      · exact .inr halive
    · rw [hovertaken.running] at hon
      cases hon
  · refine ⟨hflag, .inr halive, fun hon => ?_⟩
    rcases hcalls with ⟨-, hoff⟩ | ⟨_, _, honly, -⟩
    · rw [hon] at hoff
      cases hoff
    · rw [honly]
      exact only_ne_empty

/-- The `stop` comes and goes between the exchange of `m_running` in `start` and the store to `m_stopFlag`. -/
def stopBetween : List CollectorLabel := [.advance 1, .advance 1, .advance 1]

/-- The `start` goes on and returns; a further `stop` returns, and a further `start` does not. -/
def laterCalls : List CollectorLabel :=
  [.advance 0, .advance 0, .advance 0, .stop 1, .check 0, .start 0, .advance 0, .advance 0, .advance 0,
    .check 0, .advance 0]

theorem abandoned_of_overtaken_stopBetween :
    let c := run ResourcePoolMetricsCollector.step {}
      ([] ++ [.start 0, .stop 1] ++ (stopBetween ++ .advance 0 :: laterCalls))
    c.alive = [0] ∧ c.mRunning = true ∧ c.mStopFlag = false ∧ c.calls ≠ ∅ := by
  have hturn : Along ResourcePoolMetricsCollector.step InTurn
      (run ResourcePoolMetricsCollector.step {} ([] ++ [.start 0, .stop 1]))
      (stopBetween ++ .advance 0 :: laterCalls) := by decide
  obtain ⟨hflag, -, hcalls⟩ :=
    @abandoned_of_overtaken [] stopBetween laterCalls 0 1 trivial rfl rfl (by decide) hturn (by decide)
      (by decide)
  exact ⟨by decide, by decide, hflag, hcalls (by decide)⟩

end ResourcePoolMetricsCollector

end SoulCoreKit.Observability
