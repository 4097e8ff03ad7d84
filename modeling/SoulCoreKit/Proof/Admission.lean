import SoulCoreKit.Lib.Run
import SoulCoreKit.Network.CircuitBreaker

/-!
# Admission by the circuit breaker under threads

The open branch acts on a state that was read before the lock was taken, and the counter moves without
the lock. As long as the branch runs while the breaker is still open, no exchange falls between the two
accesses of a locked section that begins or ends an episode, and successes in an episode are of its own
calls, the counter is never below the number of calls that are out, and the breaker changes its state as
it should.
-/

namespace SoulCoreKit.Network

/-- The changes of state that are meant to happen. -/
def legalChanges : List (CircuitBreakerState × CircuitBreakerState) :=
  [(.closed, .opened), (.opened, .halfOpen), (.halfOpen, .closed), (.halfOpen, .opened)]

namespace Threads

/-- No more calls of the half-open episode are out than configured, and the state has changed in legal
ways only. -/
structure Sound (s : Threads) : Prop where
  bounded : s.breaker.mState = .halfOpen →
    (s.outstanding.length : Int) ≤ s.breaker.mConfig.halfOpenMaxCalls
  legal : ∀ change ∈ s.breaker.changes, change ∈ legalChanges

/-- What the owner of the lock has done. -/
def doing (s : Threads) : Option Section := s.lock.map Prod.snd

/-- The open branch goes on only while the breaker is open; and no exchange succeeds in an episode
between the change to half-open and the count of the first call, nor between the reset of the counter
and the change to open. -/
def DisciplinedAt (s : Threads) : Place → Prop
  | .openTimed now =>
      s.lock = none → elapsedMs now s.breaker.mOpenedAt ≥ s.breaker.mConfig.resetTimeoutMs →
        s.breaker.mState = .opened
  | .halfOpenLoaded expected =>
      s.breaker.mHalfOpenCalls = expected → s.breaker.mState = .halfOpen →
        s.doing ≠ some .openMoved ∧ s.doing ≠ some .failureCleared
  | .idle => True
  | .openSeen => True
  | .halfOpenSeen => True

/-- Besides, a success in an episode is of one of its calls. -/
def Disciplined (s : Threads) : Label → Prop
  | .proceed thread => s.DisciplinedAt (s.places thread)
  | .onSuccess _ call => s.lock = none → s.breaker.mState = .halfOpen → call ∈ s.outstanding
  | .allowRequest _ => True
  | .spurious _ => True
  | .onFailure _ _ => True
  | .advance _ => True

instance (s : Threads) : ∀ place, Decidable (s.DisciplinedAt place)
  | .openTimed _ => inferInstanceAs (Decidable (_ → _ → _))
  | .halfOpenLoaded _ => inferInstanceAs (Decidable (_ → _ → _ ∧ _))
  | .idle | .openSeen | .halfOpenSeen => isTrue trivial

instance (s : Threads) : ∀ label, Decidable (s.Disciplined label)
  | .proceed thread => inferInstanceAs (Decidable (s.DisciplinedAt (s.places thread)))
  | .onSuccess _ _ => inferInstanceAs (Decidable (_ → _ → _))
  | .allowRequest _ | .spurious _ | .onFailure _ _ | .advance _ => isTrue trivial

/-- What the sections and the counter say. -/
structure Inv (s : Threads) : Prop where
  positive : 1 ≤ s.breaker.mConfig.halfOpenMaxCalls
  cleared : s.doing = some .openCleared → s.breaker.mState = .opened ∧ 0 ≤ s.breaker.mHalfOpenCalls
  moved : s.doing = some .openMoved →
    s.breaker.mState = .halfOpen ∧ s.outstanding = [] ∧ 0 ≤ s.breaker.mHalfOpenCalls
  lowered : s.doing = some .successLowered → s.breaker.mState = .halfOpen
  failing : s.doing = some .failureCleared → s.breaker.mState = .halfOpen
  counted : s.breaker.mState = .halfOpen → s.doing ≠ some .openMoved → s.doing ≠ some .failureCleared →
    (s.outstanding.length : Int) ≤ s.breaker.mHalfOpenCalls
  sound : Sound s

variable {s : Threads} {thread : Nat}

theorem inv_start {config : CircuitBreakerConfig} (hpositive : 1 ≤ config.halfOpenMaxCalls) (now : Int) :
    Inv (start config now) where
  positive := hpositive
  cleared hdoing := by simp [doing, start] at hdoing
  moved hdoing := by simp [doing, start] at hdoing
  lowered hdoing := by simp [doing, start] at hdoing
  failing hdoing := by simp [doing, start] at hdoing
  counted hhalf := by simp [start] at hhalf
  sound := ⟨fun hhalf => by simp [start] at hhalf, fun change hchange => by simp [start] at hchange⟩

theorem Inv.moveTo (hinv : Inv s) (thread : Nat) (place : Place) : Inv (s.moveTo thread place) :=
  ⟨hinv.positive, hinv.cleared, hinv.moved, hinv.lowered, hinv.failing, hinv.counted,
    hinv.sound.bounded, hinv.sound.legal⟩

/-- Outside the lock, the breaker not half-open, nothing is asked but the legality of the changes. -/
theorem inv_of_not_halfOpen (hpositive : 1 ≤ s.breaker.mConfig.halfOpenMaxCalls) (hlock : s.lock = none)
    (hnot : s.breaker.mState ≠ .halfOpen)
    (hlegal : ∀ change ∈ s.breaker.changes, change ∈ legalChanges) : Inv s where
  positive := hpositive
  cleared hdoing := by simp [doing, hlock] at hdoing
  moved hdoing := by simp [doing, hlock] at hdoing
  lowered hdoing := by simp [doing, hlock] at hdoing
  failing hdoing := by simp [doing, hlock] at hdoing
  counted hhalf := absurd hhalf hnot
  sound := ⟨fun hhalf => absurd hhalf hnot, hlegal⟩

theorem legal_transitionTo {b : CircuitBreaker} {now : Int} {newState : CircuitBreakerState}
    (hlegal : ∀ change ∈ b.changes, change ∈ legalChanges)
    (hchange : b.mState ≠ newState → (b.mState, newState) ∈ legalChanges) :
    ∀ change ∈ (b.transitionTo now newState).changes, change ∈ legalChanges := by
  unfold CircuitBreaker.transitionTo
  split
  · exact hlegal
  · rename_i hne
    intro change hmem
    obtain hmem | hmem := List.mem_append.mp hmem
    · exact hlegal change hmem
    · rw [List.mem_singleton.mp hmem]
      exact hchange hne

/-! ### Steps outside the lock -/

theorem inv_allowRequest (hinv : Inv s) (thread : Nat) : Inv (s.allowRequest thread) := by
  unfold allowRequest
  split
  · rename_i hclosed
    have hnot : s.breaker.mState ≠ .halfOpen := by
      rw [hclosed]
      decide
    have hsame : s.admitted = { s with calls := s.calls + 1 } := by
      unfold admitted
      rw [if_neg hnot]
    rw [hsame]
    exact ⟨hinv.positive, hinv.cleared, hinv.moved, hinv.lowered, hinv.failing, hinv.counted,
      hinv.sound.bounded, hinv.sound.legal⟩
  · exact hinv.moveTo thread _
  · exact hinv.moveTo thread _

theorem inv_enterOpen (hinv : Inv s) {now : Int}
    (hopened : elapsedMs now s.breaker.mOpenedAt ≥ s.breaker.mConfig.resetTimeoutMs →
      s.breaker.mState = .opened) : Inv (s.enterOpen thread now) := by
  unfold enterOpen
  simp only
  split
  · rename_i helapsed
    have hstate : s.breaker.mState = .opened := hopened helapsed
    have hnot : s.breaker.mState ≠ .halfOpen := by
      rw [hstate]
      decide
    exact
      { positive := hinv.positive
        cleared := fun _ => ⟨hstate, le_rfl⟩
        moved := fun hdoing => by simp [doing] at hdoing
        lowered := fun hdoing => by simp [doing] at hdoing
        failing := fun hdoing => by simp [doing] at hdoing
        counted := fun hhalf => absurd hhalf hnot
        sound := ⟨fun hhalf => absurd hhalf hnot, hinv.sound.legal⟩ }
  · exact hinv.moveTo thread .idle

/-- An exchange in an episode adds one to the counter and to the calls that are out. -/
theorem inv_count (hinv : Inv s) (hroom : s.breaker.mHalfOpenCalls < s.breaker.mConfig.halfOpenMaxCalls)
    (hquiet : s.breaker.mState = .halfOpen →
      s.doing ≠ some .openMoved ∧ s.doing ≠ some .failureCleared) :
    Inv ({ s with breaker.mHalfOpenCalls := s.breaker.mHalfOpenCalls + 1 }.admitted) := by
  unfold admitted
  simp only
  split
  · rename_i hhalf
    obtain ⟨hmoved, hfailing⟩ := hquiet hhalf
    have hcounted := hinv.counted hhalf hmoved hfailing
    exact
      { positive := hinv.positive
        cleared := fun hdoing => by
          have hstate := (hinv.cleared hdoing).1
          exact absurd (hhalf.symm.trans hstate) (by decide)
        moved := fun hdoing => absurd hdoing hmoved
        lowered := fun _ => hhalf
        failing := fun _ => hhalf
        counted := fun _ _ _ => by
          simp only [List.length_append, List.length_singleton]
          omega
        sound := ⟨fun _ => by
          simp only [List.length_append, List.length_singleton]
          omega, hinv.sound.legal⟩ }
  · rename_i hnot
    exact
      { positive := hinv.positive
        cleared := fun hdoing => by
          obtain ⟨hstate, hcounter⟩ := hinv.cleared hdoing
          exact ⟨hstate, by simp only; omega⟩
        moved := fun hdoing => absurd (hinv.moved hdoing).1 hnot
        lowered := hinv.lowered
        failing := hinv.failing
        counted := fun hhalf => absurd hhalf hnot
        sound := ⟨hinv.sound.bounded, hinv.sound.legal⟩ }

theorem inv_exchange (hinv : Inv s) {expected : Int}
    (hdisciplined : s.DisciplinedAt (.halfOpenLoaded expected)) : Inv (s.exchange thread expected) := by
  unfold exchange
  split
  · rename_i hroom
    split
    · rename_i hexpected
      apply Inv.moveTo
      rw [← hexpected]
      exact inv_count hinv (by rw [hexpected]; exact hroom) (hdisciplined hexpected)
    · exact hinv.moveTo thread _
  · exact hinv.moveTo thread .idle

theorem inv_proceedOutside (hinv : Inv s) (hdisciplined : s.DisciplinedAt (s.places thread)) :
    Inv (s.proceedOutside thread) := by
  unfold proceedOutside
  split
  · exact hinv
  · exact hinv.moveTo thread _
  · rename_i now hplace
    rw [hplace] at hdisciplined
    split
    · exact hinv
    · rename_i hlock
      have hnone : s.lock = none := by simpa using hlock
      exact inv_enterOpen hinv (hdisciplined hnone)
  · exact hinv.moveTo thread _
  · rename_i expected hplace
    rw [hplace] at hdisciplined
    exact inv_exchange hinv hdisciplined

theorem inv_spurious (hinv : Inv s) (thread : Nat) : Inv (s.spurious thread) := by
  unfold spurious
  split
  · split
    · exact hinv.moveTo thread _
    · exact hinv
  · exact hinv

/-! ### Steps under the lock -/

/-- The open branch moves an open breaker to half-open, and an episode begins. -/
theorem inv_openCleared (hinv : Inv s) (hdoing : s.doing = some .openCleared) (owner : Nat) :
    Inv (s.proceedInside owner .openCleared) := by
  obtain ⟨hstate, hcounter⟩ := hinv.cleared hdoing
  have hnot : s.breaker.mState ≠ .halfOpen := by
    rw [hstate]
    decide
  have hpositive := hinv.positive
  unfold proceedInside
  rw [if_neg hnot]
  exact
    { positive := by simpa using hpositive
      cleared := fun hdone => by simp [doing] at hdone
      moved := fun _ => ⟨by simp, rfl, by simpa using hcounter⟩
      lowered := fun _ => by simp
      failing := fun _ => by simp
      counted := fun _ hmoved => absurd rfl hmoved
      sound := ⟨fun _ => by simp; omega,
        legal_transitionTo hinv.sound.legal fun _ => by rw [hstate]; decide⟩ }

theorem inv_openMoved (hinv : Inv s) (hdoing : s.doing = some .openMoved) (owner : Nat) :
    Inv (s.proceedInside owner .openMoved) := by
  obtain ⟨hhalf, hnone, hcounter⟩ := hinv.moved hdoing
  have hpositive := hinv.positive
  unfold proceedInside admitted
  simp only
  rw [if_pos hhalf, hnone]
  exact
    { positive := hpositive
      cleared := fun hdone => by simp [doing] at hdone
      moved := fun hdone => by simp [doing] at hdone
      lowered := fun _ => hhalf
      failing := fun _ => hhalf
      counted := fun _ _ _ => by simp; omega
      sound := ⟨fun _ => by simpa using hpositive, hinv.sound.legal⟩ }

theorem inv_successLowered (hinv : Inv s) (hdoing : s.doing = some .successLowered) (owner : Nat) :
    Inv (s.proceedInside owner .successLowered) := by
  have hhalf := hinv.lowered hdoing
  apply inv_of_not_halfOpen
  · simpa [proceedInside, CircuitBreaker.clearFailures] using hinv.positive
  · rfl
  · simp [proceedInside]
  · exact legal_transitionTo hinv.sound.legal fun _ => by
      simp only [CircuitBreaker.clearFailures, hhalf]
      decide

theorem inv_failureCleared (hinv : Inv s) (hdoing : s.doing = some .failureCleared) (owner : Nat) :
    Inv (s.proceedInside owner .failureCleared) := by
  have hhalf := hinv.failing hdoing
  apply inv_of_not_halfOpen
  · simpa [proceedInside] using hinv.positive
  · rfl
  · simp [proceedInside]
  · exact legal_transitionTo hinv.sound.legal fun _ => by
      rw [hhalf]
      decide

theorem inv_proceed (hinv : Inv s) (hdisciplined : s.DisciplinedAt (s.places thread)) :
    Inv (s.proceed thread) := by
  unfold proceed
  split
  · exact inv_proceedOutside hinv hdisciplined
  · rename_i owner done hlock
    have hdoing : s.doing = some done := by simp [doing, hlock]
    split
    · cases done with
      | openCleared => exact inv_openCleared hinv hdoing owner
      | openMoved => exact inv_openMoved hinv hdoing owner
      | successLowered => exact inv_successLowered hinv hdoing owner
      | failureCleared => exact inv_failureCleared hinv hdoing owner
    · exact inv_proceedOutside hinv hdisciplined

/-! ### Reports -/

theorem inv_onSuccess (hinv : Inv s) (hlock : s.lock = none) {call : Nat}
    (hown : s.breaker.mState = .halfOpen → call ∈ s.outstanding) : Inv (s.onSuccess thread call) := by
  have hquiet (done : Section) : s.doing ≠ some done := by simp [doing, hlock]
  unfold onSuccess complete
  simp only
  split
  · rename_i hhalf
    have hcounted := hinv.counted hhalf (hquiet _) (hquiet _)
    have hbounded := hinv.sound.bounded hhalf
    have hlength := List.length_erase_of_mem (hown hhalf)
    have hpos := List.length_pos_of_mem (hown hhalf)
    split
    · exact
        { positive := hinv.positive
          cleared := fun hdone => by simp [doing] at hdone
          moved := fun hdone => by simp [doing] at hdone
          lowered := fun _ => hhalf
          failing := fun _ => hhalf
          counted := fun _ _ _ => by simp only [hlength]; omega
          sound := ⟨fun _ => by simp only [hlength]; omega, hinv.sound.legal⟩ }
    · exact
        { positive := hinv.positive
          cleared := fun hdone => absurd hdone (hquiet _)
          moved := fun hdone => absurd hdone (hquiet _)
          lowered := fun _ => hhalf
          failing := fun _ => hhalf
          counted := fun _ _ _ => by simp only [hlength]; omega
          sound := ⟨fun _ => by simp only [hlength]; omega, hinv.sound.legal⟩ }
  · rename_i hclosed
    exact inv_of_not_halfOpen hinv.positive hlock (by simp [CircuitBreaker.clearFailures, hclosed])
      hinv.sound.legal
  · rename_i hopened
    exact inv_of_not_halfOpen hinv.positive hlock (by simp [hopened]) hinv.sound.legal

theorem inv_onFailure (hinv : Inv s) (hlock : s.lock = none) (call : Nat) :
    Inv (s.onFailure thread call) := by
  unfold onFailure complete
  simp only
  split
  · rename_i hclosed
    split
    · refine inv_of_not_halfOpen ?_ hlock (by simp) ?_
      · simpa [CircuitBreaker.recordFailure, CircuitBreaker.pruneExpiredFailures] using hinv.positive
      · exact legal_transitionTo hinv.sound.legal fun _ => by
          rw [hclosed]
          decide
    · exact inv_of_not_halfOpen hinv.positive hlock (by simp [hclosed]) hinv.sound.legal
  · rename_i hhalf
    have hbounded := hinv.sound.bounded hhalf
    exact
      { positive := hinv.positive
        cleared := fun hdone => by simp [doing] at hdone
        moved := fun hdone => by simp [doing] at hdone
        lowered := fun _ => hhalf
        failing := fun _ => hhalf
        counted := fun _ _ hfailing => absurd rfl hfailing
        sound := ⟨fun _ => le_trans (Int.ofNat_le.mpr List.length_erase_le) hbounded,
          hinv.sound.legal⟩ }
  · rename_i hopened
    exact inv_of_not_halfOpen hinv.positive hlock (by simp [hopened]) hinv.sound.legal

theorem inv_step (s : Threads) (label : Label) (hinv : Inv s) (hdisciplined : s.Disciplined label) :
    Inv (s.step label) := by
  cases label with
  | allowRequest thread =>
      rw [step]
      split
      · exact inv_allowRequest hinv thread
      · exact hinv
  | proceed thread => exact inv_proceed hinv hdisciplined
  | spurious thread => exact inv_spurious hinv thread
  | onSuccess thread call =>
      rw [step]
      split
      · rename_i hfree
        exact inv_onSuccess hinv hfree.2 (hdisciplined hfree.2)
      · exact hinv
  | onFailure thread call =>
      rw [step]
      split
      · rename_i hfree
        exact inv_onFailure hinv hfree.2 call
      · exact hinv
  | advance time =>
      exact ⟨hinv.positive, hinv.cleared, hinv.moved, hinv.lowered, hinv.failing, hinv.counted,
        hinv.sound.bounded, hinv.sound.legal⟩

/-! ### One thread alone -/

/-- The labels of a method that one thread runs without interruption. -/
def alone (thread : Nat) (first : Label) (more : Nat) : List Label :=
  first :: List.replicate more (.proceed thread)

theorem breaker_allowRequest_alone (hfree : s.isFree thread) (hlock : s.lock = none) :
    (run step s (alone thread (.allowRequest thread) 4)).breaker = (s.breaker.allowRequest s.now).2 := by
  cases hstate : s.breaker.mState with
  | closed =>
      simp [alone, List.replicate, step, hfree, allowRequest, hstate, admitted, proceed, hlock,
        proceedOutside, hfree.1, CircuitBreaker.allowRequest]
  | opened =>
      by_cases helapsed : elapsedMs s.now s.breaker.mOpenedAt ≥ s.breaker.mConfig.resetTimeoutMs
      · simp [alone, List.replicate, step, hfree, allowRequest, hstate, admitted, proceed, hlock,
          proceedOutside, proceedInside, moveTo, enterOpen, CircuitBreaker.allowRequest, helapsed]
      · simp [alone, List.replicate, step, hfree, allowRequest, hstate, proceed, hlock,
          proceedOutside, moveTo, enterOpen, CircuitBreaker.allowRequest, helapsed]
  | halfOpen =>
      by_cases hroom : s.breaker.mHalfOpenCalls < s.breaker.mConfig.halfOpenMaxCalls
      · simp [alone, List.replicate, step, hfree, allowRequest, hstate, admitted, proceed, hlock,
          proceedOutside, moveTo, exchange, CircuitBreaker.allowRequest, hroom]
      · simp [alone, List.replicate, step, hfree, allowRequest, hstate, proceed, hlock,
          proceedOutside, moveTo, exchange, CircuitBreaker.allowRequest, hroom]

theorem breaker_onSuccess_alone (hfree : s.isFree thread) (hlock : s.lock = none) (call : Nat) :
    (run step s (alone thread (.onSuccess thread call) 1)).breaker = s.breaker.onSuccess s.now := by
  cases hstate : s.breaker.mState with
  | closed =>
      simp [alone, step, hfree, hlock, onSuccess, complete, hstate, proceed, proceedOutside, hfree.1,
        CircuitBreaker.onSuccess]
  | opened =>
      simp [alone, step, hfree, hlock, onSuccess, complete, hstate, proceed, proceedOutside, hfree.1,
        CircuitBreaker.onSuccess]
  | halfOpen =>
      by_cases hlast : s.breaker.mHalfOpenCalls - 1 ≤ 0
      · simp [alone, step, hfree, hlock, onSuccess, complete, hstate, proceed, proceedInside,
          CircuitBreaker.onSuccess, hlast]
      · simp [alone, step, hfree, hlock, onSuccess, complete, hstate, proceed, proceedOutside, hfree.1,
          CircuitBreaker.onSuccess, hlast]

theorem breaker_onFailure_alone (hfree : s.isFree thread) (hlock : s.lock = none) (call : Nat) :
    (run step s (alone thread (.onFailure thread call) 1)).breaker = s.breaker.onFailure s.now := by
  cases hstate : (s.breaker.recordFailure s.now).mState with
  | closed =>
      by_cases hcount : (s.breaker.recordFailure s.now).mFailureCount ≥
          (s.breaker.recordFailure s.now).mConfig.failureThreshold
      · simp [alone, step, hfree, hlock, onFailure, complete, hstate, proceed, proceedOutside, hfree.1,
          CircuitBreaker.onFailure, hcount]
      · simp [alone, step, hfree, hlock, onFailure, complete, hstate, proceed, proceedOutside, hfree.1,
          CircuitBreaker.onFailure, hcount]
  | opened =>
      simp [alone, step, hfree, hlock, onFailure, complete, hstate, proceed, proceedOutside, hfree.1,
        CircuitBreaker.onFailure]
  | halfOpen =>
      simp [alone, step, hfree, hlock, onFailure, complete, hstate, proceed, proceedInside,
        CircuitBreaker.onFailure]

end Threads

/-- In every run of disciplined steps, of any number of threads, admission is bounded and the state
changes in legal ways only. -/
theorem admission_of_disciplined_run (config : CircuitBreakerConfig)
    (hpositive : 1 ≤ config.halfOpenMaxCalls) (now : Int) (labels : List Label)
    (hdisciplined : Along Threads.step Threads.Disciplined (Threads.start config now) labels) :
    Threads.Sound (run Threads.step (Threads.start config now) labels) :=
  (hdisciplined.induction (Threads.inv_start hpositive now) Threads.inv_step).sound

/-- Five calls fail, and the reset timeout passes. -/
def opening : List Label :=
  List.replicate 5 (.allowRequest 0) ++
    [.onFailure 0 0, .onFailure 0 1, .onFailure 0 2, .onFailure 0 3, .onFailure 0 4,
      .advance 30000000000]

/-- Two probes of two threads, the second admitted by an exchange, and the breaker closes. -/
def twoProbes : List Label :=
  opening ++ [.allowRequest 1, .proceed 1, .proceed 1, .proceed 1, .proceed 1, .allowRequest 2,
    .proceed 2, .spurious 2, .proceed 2, .onSuccess 1 5, .onSuccess 2 6, .proceed 2]

theorem admission_of_disciplined_run_twoProbes :
    Threads.Sound (run Threads.step (Threads.start {} 0) twoProbes) ∧
      (run Threads.step (Threads.start {} 0) twoProbes).breaker.changes =
        [(.closed, .opened), (.opened, .halfOpen), (.halfOpen, .closed)] :=
  ⟨admission_of_disciplined_run {} (by decide) 0 twoProbes (by decide), by decide⟩

/-- The first thread reads that the breaker is open; the second makes a probe and closes it; then the
first goes on. -/
def staleRun : List Label :=
  opening ++ [.allowRequest 1, .allowRequest 2, .proceed 2, .proceed 2, .proceed 2, .proceed 2,
    .onSuccess 2 5, .proceed 2, .proceed 1, .proceed 1, .proceed 1]

/-- A closed breaker is moved to half-open. -/
theorem staleRun_not_sound : ¬ Threads.Sound (run Threads.step (Threads.start {} 0) staleRun) := by
  intro hsound
  have hchange : (CircuitBreakerState.closed, CircuitBreakerState.halfOpen) ∈
      (run Threads.step (Threads.start {} 0) staleRun).breaker.changes := by decide
  exact absurd (hsound.legal _ hchange) (by decide)

end SoulCoreKit.Network
