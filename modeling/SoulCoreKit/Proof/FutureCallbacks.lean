import Mathlib.Data.List.Nodup
import SoulCoreKit.Async.Future

/-!
# Callbacks run exactly once

A callback that was registered in time is held: in one of the lists, or in the batch that some thread
works off. It leaves when it is invoked, or when the future ended in the other way. The lists are
emptied once more as long as a watcher is still to notify, so nothing stays behind if no registration
enqueues after the notification; and nothing is dropped if a callback that throws is the last of its
batch.
-/

namespace SoulCoreKit.Async.Future

variable {Id : Type} {callbacks : Callbacks Id} {future : Future Id}

/-- All steps have run: the future is finished, no registration is under way, the watcher has notified
and the batches are worked off. -/
structure AllRun (future : Future Id) : Prop where
  finished : future.isFinished = true
  registered : ∀ callback, future.registration callback = .notCalled ∨
    future.registration callback = .returned
  notified : future.mWatcher ≠ .watching
  workedOff : ∀ batch ∈ future.batches, batch = []

/-- Every callback that was registered has been invoked once if the future ended as it wanted, and not
at all otherwise. -/
def ExactlyOnce (callbacks : Callbacks Id) (future : Future Id) : Prop :=
  ∃ outcome, future.outcome = some outcome ∧ ∀ callback, future.invoked callback =
    if future.registration callback = .returned ∧ wanted callbacks callback outcome = true then 1 else 0

/-- A callback is enqueued before the watcher has notified, and one that throws is the last of its
batch. -/
def Proper (callbacks : Callbacks Id) (future : Future Id) : FutureStep Id → Prop
  | .enqueue callback => future.registration callback = .checked → future.mWatcher ≠ .notified
  | .invoke batch => ∀ callback rest, future.batches[batch]? = some (callback :: rest) →
      callbacks.throws callback = true → rest = []
  | _ => True

/-- The callbacks that are still to be invoked or dropped. -/
def held (future : Future Id) : List Id :=
  future.successCallbacks ++ future.failureCallbacks ++ future.batches.flatten

/-- The callback is enqueued or has returned. -/
def Late (future : Future Id) (callback : Id) : Prop :=
  future.registration callback = .enqueued ∨ future.registration callback = .returned

/-- Where a callback stands: held and not invoked yet, or not registered yet, or done. -/
structure Consistent (callbacks : Callbacks Id) (future : Future Id) (callback : Id) : Prop where
  late : callback ∈ future.held → future.Late callback
  waiting : callback ∈ future.held → future.invoked callback = 0
  early : ¬ future.Late callback → future.invoked callback = 0
  served : future.Late callback → callback ∉ future.held → ∃ outcome,
    future.outcome = some outcome ∧
      future.invoked callback = if wanted callbacks callback outcome = true then 1 else 0

structure Inv (callbacks : Callbacks Id) (future : Future Id) : Prop where
  nodup : future.held.Nodup
  each : ∀ callback, Consistent callbacks future callback
  success : ∀ callback ∈ future.successCallbacks, callbacks.kind callback = .success
  failure : ∀ callback ∈ future.failureCallbacks, callbacks.kind callback = .failure
  batches : ∀ batch ∈ future.batches, ∃ outcome, future.outcome = some outcome ∧
    ∀ callback ∈ batch, wanted callbacks callback outcome = true
  watched : future.successCallbacks ++ future.failureCallbacks ≠ [] →
    future.mWatcher = .watching ∨
      future.mWatcher = .absent ∧ ∃ callback, future.registration callback = .enqueued

theorem inv_start : Inv callbacks ({} : Future Id) where
  nodup := List.nodup_nil
  each callback := by
    refine ⟨fun hmem => absurd hmem List.not_mem_nil, fun _ => rfl, fun _ => rfl, fun hlate _ => ?_⟩
    rcases hlate with hlate | hlate <;> cases hlate
  success _ hmem := absurd hmem List.not_mem_nil
  failure _ hmem := absurd hmem List.not_mem_nil
  batches _ hmem := absurd hmem List.not_mem_nil
  watched hne := absurd rfl hne

theorem Consistent.congr {next : Future Id} {callback : Id} (hold : Consistent callbacks future callback)
    (hregistration : next.registration callback = future.registration callback)
    (hinvoked : next.invoked callback = future.invoked callback)
    (hheld : callback ∈ next.held ↔ callback ∈ future.held) (houtcome : next.outcome = future.outcome) :
    Consistent callbacks next callback := by
  have hlate : next.Late callback ↔ future.Late callback := by rw [Late, Late, hregistration]
  refine ⟨?_, ?_, ?_, ?_⟩
  · rw [hheld, hlate]
    exact hold.late
  · rw [hheld, hinvoked]
    exact hold.waiting
  · rw [hlate, hinvoked]
    exact hold.early
  · rw [hlate, hheld, hinvoked, houtcome]
    exact hold.served

theorem Inv.exactlyOnce (hinv : Inv callbacks future) (hrun : AllRun future) :
    ExactlyOnce callbacks future := by
  have hlists : future.successCallbacks ++ future.failureCallbacks = [] := by
    by_contra hne
    rcases hinv.watched hne with hwatching | ⟨-, callback, henqueued⟩
    · exact hrun.notified hwatching
    · rcases hrun.registered callback with hcase | hcase <;> rw [henqueued] at hcase <;> cases hcase
  have hheld : future.held = [] := by
    rw [held, hlists, List.nil_append, List.flatten_eq_nil_iff]
    exact hrun.workedOff
  obtain ⟨outcome, houtcome⟩ := Option.isSome_iff_exists.mp hrun.finished
  refine ⟨outcome, houtcome, fun callback => ?_⟩
  rcases hrun.registered callback with hnot | hreturned
  · rw [(hinv.each callback).early (by rw [Late, hnot]; simp), hnot]
    simp
  · obtain ⟨served, hserved, hinvoked⟩ :=
      (hinv.each callback).served (.inr hreturned) (by rw [hheld]; simp)
    rw [houtcome, Option.some.injEq] at hserved
    rw [hinvoked, ← hserved]
    simp only [hreturned, true_and]

theorem Inv.finish (hinv : Inv callbacks future) (hunfinished : future.outcome = none)
    (outcome : FutureOutcome) : Inv callbacks { future with outcome := some outcome } where
  nodup := hinv.nodup
  each callback := by
    have hold := hinv.each callback
    refine ⟨hold.late, hold.waiting, hold.early, fun hlate hmem => ?_⟩
    obtain ⟨served, hserved, -⟩ := hold.served hlate hmem
    rw [hunfinished] at hserved
    cases hserved
  success := hinv.success
  failure := hinv.failure
  batches batch hmem := by
    obtain ⟨served, hserved, -⟩ := hinv.batches batch hmem
    rw [hunfinished] at hserved
    cases hserved
  watched := hinv.watched

/-- The list whose loop runs after a swap. -/
def runList (future : Future Id) (outcome : FutureOutcome) : List Id :=
  if outcome.failed then future.failureCallbacks else future.successCallbacks

theorem runList_sublist (future : Future Id) (outcome : FutureOutcome) :
    (future.runList outcome).Sublist (future.successCallbacks ++ future.failureCallbacks) := by
  rw [runList]
  split_ifs
  · exact List.sublist_append_right _ _
  · exact List.sublist_append_left _ _

theorem Inv.wanted_iff_mem_runList (hinv : Inv callbacks future) (outcome : FutureOutcome) {callback : Id}
    (hlists : callback ∈ future.successCallbacks ++ future.failureCallbacks) :
    wanted callbacks callback outcome = true ↔ callback ∈ future.runList outcome := by
  have hone : callback ∈ future.successCallbacks → callback ∉ future.failureCallbacks :=
    fun hsuccess hfailure => absurd
      ((hinv.success callback hsuccess).symm.trans (hinv.failure callback hfailure)) (by decide)
  rw [List.mem_append] at hlists
  rcases hlists with hsuccess | hfailure
  · cases hfailed : outcome.failed with
    | false => simp [wanted, runList, hinv.success callback hsuccess, hfailed, hsuccess]
    | true => simp [wanted, runList, hinv.success callback hsuccess, hfailed, hone hsuccess]
  · have hnot : callback ∉ future.successCallbacks := fun hsuccess => hone hsuccess hfailure
    cases hfailed : outcome.failed with
    | false => simp [wanted, runList, hinv.failure callback hfailure, hfailed, hnot]
    | true => simp [wanted, runList, hinv.failure callback hfailure, hfailed, hfailure]

theorem Inv.execute (hinv : Inv callbacks future) {outcome : FutureOutcome}
    (houtcome : future.outcome = some outcome) (watcher : Watcher) :
    Inv callbacks { future.executeCallbacksStatic outcome with mWatcher := watcher } := by
  have hsub := future.runList_sublist outcome
  have hheld : { future.executeCallbacksStatic outcome with mWatcher := watcher }.held =
      future.batches.flatten ++ future.runList outcome := by
    simp [held, executeCallbacksStatic, runList]
  have hmem : ∀ callback ∈ future.batches.flatten ++ future.runList outcome,
      callback ∈ future.held := by
    intro callback hmem
    rw [List.mem_append] at hmem
    rcases hmem with hold | hnew
    · exact List.mem_append_right _ hold
    · exact List.mem_append_left _ (hsub.subset hnew)
  have hnodup : (future.batches.flatten ++ future.runList outcome).Nodup := by
    rw [List.nodup_append_comm]
    exact (hsub.append_right _).nodup hinv.nodup
  refine ⟨?_, ?_, ?_, ?_, ?_, fun hne => absurd rfl hne⟩
  · rw [hheld]
    exact hnodup
  · intro callback
    have hold := hinv.each callback
    refine ⟨?_, ?_, hold.early, ?_⟩ <;> rw [hheld]
    · exact fun hin => hold.late (hmem callback hin)
    · exact fun hin => hold.waiting (hmem callback hin)
    · intro hlate hout
      by_cases hin : callback ∈ future.held
      · -- the future ended in the other way
        rw [List.mem_append, not_or] at hout
        have hlists := (List.mem_append.mp hin).resolve_right hout.1
        refine ⟨outcome, houtcome, ?_⟩
        rw [if_neg (fun hwant => hout.2 ((hinv.wanted_iff_mem_runList outcome hlists).mp hwant))]
        exact hold.waiting hin
      · exact hold.served hlate hin
  · exact fun callback hnil => absurd hnil List.not_mem_nil
  · exact fun callback hnil => absurd hnil List.not_mem_nil
  · intro other hother
    rw [executeCallbacksStatic, List.mem_append, List.mem_singleton] at hother
    rcases hother with hold | rfl
    · exact hinv.batches other hold
    · refine ⟨outcome, houtcome, fun callback hin => ?_⟩
      exact (hinv.wanted_iff_mem_runList outcome (hsub.subset hin)).mpr hin

variable [DecidableEq Id]

/-- A watcher will still notify after a registration has gone on, unless it was this one that had to
bring it. -/
theorem Inv.watched_update (hinv : Inv callbacks future) {callback : Id}
    (hother : future.registration callback ≠ .enqueued) (stage : Registration)
    (hne : future.successCallbacks ++ future.failureCallbacks ≠ []) :
    future.mWatcher = .watching ∨ future.mWatcher = .absent ∧
      ∃ other, Function.update future.registration callback stage other = .enqueued := by
  rcases hinv.watched hne with hwatching | ⟨habsent, other, henqueued⟩
  · exact .inl hwatching
  · refine .inr ⟨habsent, other, ?_⟩
    rwa [Function.update_of_ne]
    rintro rfl
    exact hother henqueued

theorem check_of_unfinished (houtcome : future.outcome = none) (callback : Id) :
    future.check callbacks callback =
      { future with registration := Function.update future.registration callback .checked } := by
  simp only [Future.check, houtcome]

theorem check_of_finished {outcome : FutureOutcome} (houtcome : future.outcome = some outcome)
    (callback : Id) :
    future.check callbacks callback = { future with
      registration := Function.update future.registration callback .returned
      invoked := Function.update future.invoked callback
        (future.invoked callback + if wanted callbacks callback outcome = true then 1 else 0) } := by
  simp only [Future.check, houtcome]
  by_cases hwanted : wanted callbacks callback outcome = true
  · rw [if_pos hwanted, if_pos hwanted]
    simp only [call, houtcome]
  · rw [if_neg hwanted, if_neg hwanted, Nat.add_zero, Function.update_eq_self]
    simp only [houtcome]

theorem Inv.check (hinv : Inv callbacks future) {callback : Id}
    (hnot : future.registration callback = .notCalled) :
    Inv callbacks (future.check callbacks callback) := by
  have hearly : ¬ future.Late callback := by
    rw [Late, hnot]
    simp
  have hheld : callback ∉ future.held := fun hin => hearly ((hinv.each callback).late hin)
  have hzero := (hinv.each callback).early hearly
  have hwatched := hinv.watched_update (by rw [hnot]; decide)
  cases houtcome : future.outcome with
  | none =>
    rw [check_of_unfinished houtcome]
    refine ⟨hinv.nodup, fun other => ?_, hinv.success, hinv.failure, hinv.batches, hwatched .checked⟩
    by_cases hsame : other = callback
    · subst hsame
      refine ⟨fun hin => absurd hin hheld, fun _ => hzero, fun _ => hzero, fun hlate => ?_⟩
      simp [Late] at hlate
    · exact (hinv.each other).congr (Function.update_of_ne hsame _ _) rfl Iff.rfl rfl
  | some outcome =>
    rw [check_of_finished houtcome]
    refine ⟨hinv.nodup, fun other => ?_, hinv.success, hinv.failure, hinv.batches, hwatched .returned⟩
    by_cases hsame : other = callback
    · subst hsame
      refine ⟨fun hin => absurd hin hheld, fun hin => absurd hin hheld, fun hnever => ?_, fun _ _ => ?_⟩
      · simp [Late] at hnever
      · refine ⟨outcome, houtcome, ?_⟩
        simp only [Function.update_self, hzero, Nat.zero_add]
    · exact (hinv.each other).congr (Function.update_of_ne hsame _ _) (Function.update_of_ne hsame _ _)
        Iff.rfl rfl

section Enqueue

variable (callbacks) in
theorem held_enqueue (future : Future Id) (callback : Id) :
    (future.enqueue callbacks callback).held.Perm (callback :: future.held) := by
  rw [Future.enqueue]
  cases callbacks.kind callback with
  | success =>
    change ((future.successCallbacks ++ [callback] ++ future.failureCallbacks) ++ _).Perm _
    rw [held]
    simp only [List.append_assoc, List.singleton_append]
    exact List.perm_middle
  | failure =>
    change ((future.successCallbacks ++ (future.failureCallbacks ++ [callback])) ++ _).Perm _
    rw [held, ← List.append_assoc, List.append_assoc _ [callback], List.singleton_append]
    exact List.perm_middle

theorem enqueue_fields (future : Future Id) (callback : Id) :
    (future.enqueue callbacks callback).registration =
        Function.update future.registration callback .enqueued ∧
      (future.enqueue callbacks callback).invoked = future.invoked ∧
      (future.enqueue callbacks callback).outcome = future.outcome ∧
      (future.enqueue callbacks callback).batches = future.batches ∧
      (future.enqueue callbacks callback).mWatcher = future.mWatcher := by
  rw [Future.enqueue]
  cases callbacks.kind callback <;> exact ⟨rfl, rfl, rfl, rfl, rfl⟩

theorem enqueue_success
    (hsuccess : ∀ callback ∈ future.successCallbacks, callbacks.kind callback = .success)
    (callback : Id) :
    ∀ other ∈ (future.enqueue callbacks callback).successCallbacks,
      callbacks.kind other = .success := by
  rw [Future.enqueue]
  cases hkind : callbacks.kind callback with
  | success =>
    intro other hother
    rcases List.mem_append.mp hother with hold | hnew
    · exact hsuccess other hold
    · rwa [List.mem_singleton.mp hnew]
  | failure => exact hsuccess

theorem enqueue_failure
    (hfailure : ∀ callback ∈ future.failureCallbacks, callbacks.kind callback = .failure)
    (callback : Id) :
    ∀ other ∈ (future.enqueue callbacks callback).failureCallbacks,
      callbacks.kind other = .failure := by
  rw [Future.enqueue]
  cases hkind : callbacks.kind callback with
  | success => exact hfailure
  | failure =>
    intro other hother
    rcases List.mem_append.mp hother with hold | hnew
    · exact hfailure other hold
    · rwa [List.mem_singleton.mp hnew]

end Enqueue

theorem Inv.enqueue (hinv : Inv callbacks future) {callback : Id}
    (hchecked : future.registration callback = .checked) (hproper : future.mWatcher ≠ .notified) :
    Inv callbacks (future.enqueue callbacks callback) := by
  have hearly : ¬ future.Late callback := by
    rw [Late, hchecked]
    simp
  have hzero := (hinv.each callback).early hearly
  have hheld : callback ∉ future.held := fun hin => hearly ((hinv.each callback).late hin)
  obtain ⟨hregistration, hinvoked, houtcome, hbatches, hwatcher⟩ := enqueue_fields future callback
  have hperm := held_enqueue callbacks future callback
  have hlate : (future.enqueue callbacks callback).Late callback := by
    rw [Late, hregistration, Function.update_self]
    exact .inl rfl
  refine ⟨hperm.nodup_iff.mpr (List.nodup_cons.mpr ⟨hheld, hinv.nodup⟩), fun other => ?_, ?_, ?_, ?_, ?_⟩
  · by_cases hsame : other = callback
    · subst hsame
      refine ⟨fun _ => hlate, fun _ => ?_, fun hnever => absurd hlate hnever, fun _ hout => ?_⟩
      · rw [hinvoked]
        exact hzero
      · exact absurd (hperm.mem_iff.mpr List.mem_cons_self) hout
    · apply (hinv.each other).congr _ (by rw [hinvoked]) _ houtcome
      · rw [hregistration, Function.update_of_ne hsame]
      · rw [hperm.mem_iff, List.mem_cons, or_iff_right hsame]
  · exact enqueue_success hinv.success callback
  · exact enqueue_failure hinv.failure callback
  · rw [hbatches, houtcome]
    exact hinv.batches
  · intro _
    rw [hwatcher, hregistration]
    cases hstate : future.mWatcher with
    | absent => exact .inr ⟨rfl, callback, Function.update_self _ _ _⟩
    | watching => exact .inl rfl
    | notified => exact absurd hstate hproper

theorem Inv.ensureWatcher (hinv : Inv callbacks future) {callback : Id}
    (henqueued : future.registration callback = .enqueued) :
    Inv callbacks (future.ensureWatcher callback) := by
  refine ⟨hinv.nodup, fun other => ?_, hinv.success, hinv.failure, hinv.batches, ?_⟩
  · by_cases hsame : other = callback
    · subst hsame
      have hold := hinv.each other
      have hlate : (future.ensureWatcher other).Late other := .inr (Function.update_self _ _ _)
      refine ⟨fun _ => hlate, hold.waiting, fun hnever => absurd hlate hnever, fun _ => ?_⟩
      exact hold.served (.inl henqueued)
    · exact (hinv.each other).congr (Function.update_of_ne hsame _ _) rfl Iff.rfl rfl
  · intro hne
    left
    rcases hinv.watched hne with hwatching | ⟨habsent, -⟩
    · simp [Future.ensureWatcher, hwatching]
    · simp [Future.ensureWatcher, habsent]

omit [DecidableEq Id] in
theorem flatten_set_perm {batches : List (List Id)} {i : Nat} {callback : Id} {rest : List Id}
    (hfound : batches[i]? = some (callback :: rest)) :
    batches.flatten.Perm (callback :: (batches.set i rest).flatten) := by
  induction batches generalizing i with
  | nil => cases hfound
  | cons first others ih =>
    cases i with
    | zero =>
      rw [List.getElem?_cons_zero, Option.some.injEq] at hfound
      rw [hfound]
      exact List.Perm.refl _
    | succ i =>
      rw [List.getElem?_cons_succ] at hfound
      rw [List.set_cons_succ, List.flatten_cons, List.flatten_cons]
      exact ((ih hfound).append_left first).trans List.perm_middle

theorem Inv.invoke_head (hinv : Inv callbacks future) {batch : Nat} {callback : Id} {rest : List Id}
    (hfound : future.batches[batch]? = some (callback :: rest)) :
    Inv callbacks { future.call callback with batches := future.batches.set batch rest } := by
  set next := { future.call callback with batches := future.batches.set batch rest } with hnext
  have hperm : future.held.Perm (callback :: next.held) := by
    refine ((flatten_set_perm hfound).append_left _).trans ?_
    exact List.perm_middle
  have hnodup := List.nodup_cons.mp (hperm.nodup_iff.mp hinv.nodup)
  obtain ⟨outcome, houtcome, hwanted⟩ := hinv.batches _ (List.mem_of_getElem? hfound)
  have hin : callback ∈ future.held := hperm.mem_iff.mpr List.mem_cons_self
  refine ⟨hnodup.2, fun other => ?_, hinv.success, hinv.failure, ?_, hinv.watched⟩
  · by_cases hsame : other = callback
    · subst hsame
      have hold := hinv.each other
      refine ⟨fun hmem => absurd hmem hnodup.1, fun hmem => absurd hmem hnodup.1,
        fun hnever => absurd (hold.late hin) hnever, fun _ _ => ⟨outcome, houtcome, ?_⟩⟩
      rw [if_pos (hwanted other List.mem_cons_self)]
      exact (Function.update_self _ _ _).trans (congrArg (· + 1) (hold.waiting hin))
    · have hinvoked : next.invoked other = future.invoked other := Function.update_of_ne hsame _ _
      refine (hinv.each other).congr ?_ hinvoked ?_ rfl
      · rfl
      · rw [hperm.mem_iff, List.mem_cons, or_iff_right hsame]
  · intro other hother
    rcases List.mem_or_eq_of_mem_set hother with hold | rfl
    · exact hinv.batches other hold
    · exact ⟨outcome, houtcome, fun callback hmem => hwanted callback (List.mem_cons_of_mem _ hmem)⟩

theorem Inv.invoke (hinv : Inv callbacks future) {batch : Nat}
    (hproper : ∀ callback rest, future.batches[batch]? = some (callback :: rest) →
      callbacks.throws callback = true → rest = []) :
    Inv callbacks (future.invoke callbacks batch) := by
  cases hfound : future.batches[batch]? with
  | none =>
    simp only [Future.invoke, hfound]
    exact hinv
  | some callbackList =>
    cases callbackList with
    | nil =>
      simp only [Future.invoke, hfound]
      exact hinv
    | cons callback rest =>
      have hrest : (if callbacks.throws callback then [] else rest) = rest := by
        split_ifs with hthrows
        · exact (hproper callback rest hfound hthrows).symm
        · rfl
      simp only [Future.invoke, hfound, hrest]
      exact hinv.invoke_head hfound

theorem Inv.step (hinv : Inv callbacks future) {step : FutureStep Id}
    (hproper : Proper callbacks future step) : Inv callbacks (future.step callbacks step) := by
  cases step with
  | finish outcome =>
    rw [Future.step]
    split_ifs with hfinished
    · exact hinv
    · exact hinv.finish (by simpa [isFinished] using hfinished) outcome
  | check callback =>
    rw [Future.step]
    split_ifs with hnot
    · exact hinv.check hnot
    · exact hinv
  | enqueue callback =>
    rw [Future.step]
    split_ifs with hchecked
    · exact hinv.enqueue hchecked (hproper hchecked)
    · exact hinv
  | ensureWatcher callback =>
    rw [Future.step]
    split_ifs with henqueued
    · exact hinv.ensureWatcher henqueued
    · exact hinv
  | notify =>
    cases houtcome : future.outcome with
    | none =>
      simp only [Future.step, houtcome]
      exact hinv
    | some outcome =>
      cases hwatcher : future.mWatcher with
      | absent | notified =>
        simp only [Future.step, houtcome, hwatcher]
        exact hinv
      | watching =>
        simp only [Future.step, houtcome, hwatcher]
        exact hinv.execute houtcome .notified
  | waitForFinished =>
    cases houtcome : future.outcome with
    | none =>
      simp only [Future.step, houtcome]
      exact hinv
    | some outcome =>
      simp only [Future.step, houtcome]
      exact hinv.execute houtcome future.mWatcher
  | result =>
    cases houtcome : future.outcome with
    | none =>
      simp only [Future.step, houtcome]
      exact hinv
    | some outcome =>
      cases outcome with
      | value =>
        simp only [Future.step, houtcome]
        exact hinv.execute houtcome future.mWatcher
      | exception | unknownException =>
        simp only [Future.step, houtcome]
        exact hinv
  | invoke batch => exact hinv.invoke hproper

/-- Along every run of proper steps: when all steps have run, every callback has been invoked exactly
once if the future ended as it wanted, and never otherwise. -/
theorem exactlyOnce_of_proper {steps : List (FutureStep Id)}
    (hproper : Along (Future.step callbacks) (Proper callbacks) {} steps) (n : Nat)
    (hrun : AllRun (run (Future.step callbacks) {} (steps.take n))) :
    ExactlyOnce callbacks (run (Future.step callbacks) {} (steps.take n)) := by
  have hinv : Inv callbacks (run (Future.step callbacks) {} (steps.take n)) := by
    apply hproper.always inv_start
    intro future step hinv hstep
    exact hinv.step hstep
  exact hinv.exactlyOnce hrun

/-- Two success callbacks, the first of which throws. -/
def firstThrows : Callbacks Bool where
  kind _ := .success
  throws callback := !callback

/-- The second callback is registered when the future is finished. -/
def registeredApart : List (FutureStep Bool) :=
  [.check false, .enqueue false, .ensureWatcher false, .finish .value, .notify, .invoke 0, .check true]

theorem exactlyOnce_registeredApart :
    AllRun (run (Future.step firstThrows) {} registeredApart) ∧
      ExactlyOnce firstThrows (run (Future.step firstThrows) {} registeredApart) := by
  have hrun : AllRun (run (Future.step firstThrows) {} registeredApart) := by
    refine ⟨by decide, by decide, by decide, ?_⟩
    decide
  have hproper : Along (Future.step firstThrows) (Proper firstThrows) {} registeredApart := by
    refine ⟨trivial, fun _ => by decide, trivial, trivial, trivial, ?_, trivial, trivial⟩
    intro callback rest hfound _
    cases hfound
    rfl
  exact ⟨hrun, exactlyOnce_of_proper hproper 7 hrun⟩

/-- Both callbacks are registered before the future is finished. -/
def registeredTogether : List (FutureStep Bool) :=
  [.check false, .enqueue false, .ensureWatcher false, .check true, .enqueue true, .ensureWatcher true,
    .finish .value, .notify, .invoke 0]

theorem not_exactlyOnce_registeredTogether :
    AllRun (run (Future.step firstThrows) {} registeredTogether) ∧
      (run (Future.step firstThrows) {} registeredTogether).invoked true = 0 ∧
      ¬ ExactlyOnce firstThrows (run (Future.step firstThrows) {} registeredTogether) := by
  have hnever : (run (Future.step firstThrows) {} registeredTogether).invoked true = 0 := by decide
  refine ⟨⟨by decide, by decide, by decide, by decide⟩, hnever, ?_⟩
  rintro ⟨outcome, houtcome, hexact⟩
  obtain rfl : FutureOutcome.value = outcome := by
    have hvalue : (run (Future.step firstThrows) {} registeredTogether).outcome = some .value := rfl
    rw [hvalue, Option.some.injEq] at houtcome
    exact houtcome
  have htrue := hexact true
  rw [hnever, if_pos (by decide)] at htrue
  cases htrue

end SoulCoreKit.Async.Future
