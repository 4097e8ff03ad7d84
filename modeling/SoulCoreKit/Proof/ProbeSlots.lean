import SoulCoreKit.Proof.Recovery

/-!
# The probe slots of a half-open breaker

Every way in which a probe can end gives its slot back or leaves the half-open state, except an exception
of the function: the wrapper does not catch it and reports nothing. Between calls the breaker stays able
to admit one exactly if no function throws while it holds the last slot.
-/

namespace SoulCoreKit.Network

/-- What a caller does, one call after the other. -/
inductive CallerOp (T : Type) where
  | call (func : CallEnding T) (duration : Nat)
  | forceOpen
  | reset
  | advance (time : Nat)

/-- A breaker between calls, and the clock. -/
structure Caller where
  name : String
  breaker : CircuitBreaker
  now : Int

namespace CircuitBreaker

theorem allowRequest_of_halfOpen {b : CircuitBreaker} (hhalf : b.mState = .halfOpen) (now : Int) :
    (b.allowRequest now).1 = true ↔ b.mHalfOpenCalls < b.mConfig.halfOpenMaxCalls := by
  unfold allowRequest
  rw [hhalf]
  simp only
  split
  · rename_i hroom
    exact iff_of_true rfl hroom
  · rename_i hfull
    exact iff_of_false Bool.false_ne_true hfull

/-- There is a slot for the next probe. -/
def HasSlot (b : CircuitBreaker) : Prop :=
  b.mState = .halfOpen → b.mHalfOpenCalls < b.mConfig.halfOpenMaxCalls

/-! ### What a call does -/

variable (b : CircuitBreaker) (now : Int) {T : Type} (name : String) (duration : Nat)

theorem call_threw :
    (b.call name now (.threw : CallEnding T) duration).2 = (b.allowRequest now).2 := by
  unfold call
  split <;> simp [*]

theorem call_ok (value : T) :
    (b.call name now (.returned (.ok value)) duration).2 =
      if (b.allowRequest now).1 then (b.allowRequest now).2.onSuccess (now + duration)
      else (b.allowRequest now).2 := by
  unfold call
  split <;> simp [*]

theorem call_error (e : Error) :
    (b.call name now (.returned (.error e : Result T)) duration).2 =
      if (b.allowRequest now).1 then (b.allowRequest now).2.onFailure (now + duration)
      else (b.allowRequest now).2 := by
  unfold call
  split <;> simp [*]

theorem mConfig_call (func : CallEnding T) : (b.call name now func duration).2.mConfig = b.mConfig := by
  match func with
  | .threw => rw [call_threw, mConfig_allowRequest]
  | .returned (.ok value) =>
      rw [call_ok]
      split <;> simp
  | .returned (.error e) =>
      rw [call_error]
      split <;> simp

variable {b now}

theorem allowRequest_of_refused (hrefused : (b.allowRequest now).1 = false) :
    (b.allowRequest now).2 = b := by
  obtain hsame | ⟨_, hclosed⟩ | ⟨_, hadmitted, _⟩ | ⟨_, _, hhalf⟩ := b.allowRequest_cases now
  · rw [hsame]
  · rw [hclosed]
  · rw [hadmitted] at hrefused
    contradiction
  · rw [hhalf] at hrefused
    contradiction

/-- A call that succeeds gives its slot back. -/
theorem hasSlot_onSuccess (hpositive : 1 ≤ b.mConfig.halfOpenMaxCalls)
    (hadmitted : (b.allowRequest now).1 = true) (later : Int) :
    ((b.allowRequest now).2.onSuccess later).HasSlot := by
  intro hhalf
  rw [mConfig_onSuccess, mConfig_allowRequest]
  obtain hrefused | ⟨hclosed, hsame⟩ | ⟨_, _, hprobe, hcalls⟩ | ⟨hprobe, hroom, hsame⟩ :=
    b.allowRequest_cases now
  · rw [hrefused] at hadmitted
    contradiction
  · have hnot : b.mState ≠ .halfOpen := by
      rw [hclosed]
      decide
    rw [hsame, onSuccess_of_not_halfOpen b later hnot] at hhalf
    exact absurd hhalf hnot
  · rw [(onSuccess_of_halfOpen _ later hprobe).1, hcalls]
    omega
  · rw [hsame]
    have hreturned :=
      (onSuccess_of_halfOpen { b with mHalfOpenCalls := b.mHalfOpenCalls + 1 } later hprobe).1
    simp only [hreturned]
    omega

theorem HasSlot.call_returned (hslot : b.HasSlot) (hpositive : 1 ≤ b.mConfig.halfOpenMaxCalls)
    (result : Result T) : (b.call name now (.returned result) duration).2.HasSlot := by
  cases hallowed : (b.allowRequest now).1 with
  | false =>
      have hsame := allowRequest_of_refused hallowed
      cases result with
      | ok value =>
          rw [call_ok, hallowed, if_neg Bool.false_ne_true, hsame]
          exact hslot
      | error e =>
          rw [call_error, hallowed, if_neg Bool.false_ne_true, hsame]
          exact hslot
  | true =>
      cases result with
      | ok value =>
          rw [call_ok, hallowed, if_pos rfl]
          exact hasSlot_onSuccess hpositive hallowed _
      | error e =>
          rw [call_error, hallowed, if_pos rfl]
          intro hhalf
          exact absurd hhalf (mState_onFailure_ne _ _)

/-- A function that throws keeps its slot. -/
theorem HasSlot.call_threw_iff (hslot : b.HasSlot) :
    (b.call name now (.threw : CallEnding T) duration).2.HasSlot ↔
      (b.mState = .halfOpen → b.mHalfOpenCalls + 1 < b.mConfig.halfOpenMaxCalls) ∧
        (b.mState = .opened → elapsedMs now b.mOpenedAt ≥ b.mConfig.resetTimeoutMs →
          1 < b.mConfig.halfOpenMaxCalls) := by
  rw [call_threw]
  unfold HasSlot
  rw [mConfig_allowRequest]
  unfold allowRequest
  cases hstate : b.mState with
  | closed => simp [hstate]
  | opened =>
      by_cases helapsed : elapsedMs now b.mOpenedAt ≥ b.mConfig.resetTimeoutMs
      · simp [helapsed]
      · simp [helapsed, hstate]
  | halfOpen => simp [hslot hstate]

end CircuitBreaker

namespace Caller

variable {T : Type}

def step (s : Caller) : CallerOp T → Caller
  | .call func duration =>
      { s with breaker := (s.breaker.call s.name s.now func duration).2, now := s.now + duration }
  | .forceOpen => { s with breaker := s.breaker.forceOpen s.now }
  | .reset => { s with breaker := s.breaker.reset s.now }
  | .advance time => { s with now := s.now + time }

def start (name : String) (config : CircuitBreakerConfig) (now : Int) : Caller :=
  { name, breaker := { mConfig := config }, now }

/-- A half-open breaker admits the next request, whenever it comes. -/
def Admitting (s : Caller) : Prop :=
  s.breaker.mState = .halfOpen → ∀ later, (s.breaker.allowRequest later).1 = true

/-- A function that throws as a probe leaves a slot free beside its own. -/
def LeavesSlot (s : Caller) : CallerOp T → Prop
  | .call .threw _ =>
      (s.breaker.mState = .halfOpen → s.breaker.mHalfOpenCalls + 1 < s.breaker.mConfig.halfOpenMaxCalls) ∧
        (s.breaker.mState = .opened →
          elapsedMs s.now s.breaker.mOpenedAt ≥ s.breaker.mConfig.resetTimeoutMs →
            1 < s.breaker.mConfig.halfOpenMaxCalls)
  | _ => True

instance (s : Caller) : ∀ op : CallerOp T, Decidable (s.LeavesSlot op)
  | .call .threw _ => inferInstanceAs (Decidable (_ ∧ _))
  | .call (.returned _) _ => isTrue trivial
  | .forceOpen => isTrue trivial
  | .reset => isTrue trivial
  | .advance _ => isTrue trivial

/-! ### Steps -/

theorem admitting_iff (s : Caller) : s.Admitting ↔ s.breaker.HasSlot := by
  constructor
  · intro hadmitting hhalf
    exact (CircuitBreaker.allowRequest_of_halfOpen hhalf s.now).mp (hadmitting hhalf s.now)
  · intro hslot hhalf later
    exact (CircuitBreaker.allowRequest_of_halfOpen hhalf later).mpr (hslot hhalf)

theorem mConfig_step (s : Caller) (op : CallerOp T) : (s.step op).breaker.mConfig = s.breaker.mConfig := by
  cases op with
  | call func duration => exact CircuitBreaker.mConfig_call _ _ _ _ func
  | forceOpen => exact CircuitBreaker.mConfig_transitionTo _ _ _
  | reset => exact CircuitBreaker.mConfig_transitionTo _ _ _
  | advance time => rfl

theorem admitting_step {s : Caller} (hpositive : 1 ≤ s.breaker.mConfig.halfOpenMaxCalls)
    (hadmitting : s.Admitting) (op : CallerOp T) : (s.step op).Admitting ↔ s.LeavesSlot op := by
  rw [admitting_iff] at hadmitting ⊢
  match op with
  | .call .threw duration => exact hadmitting.call_threw_iff _ _
  | .call (.returned result) duration =>
      exact iff_of_true (hadmitting.call_returned _ _ hpositive result) trivial
  | .forceOpen =>
      apply iff_of_true _ trivial
      intro hhalf
      exact absurd ((CircuitBreaker.mState_transitionTo _ _ _).symm.trans hhalf) (by decide)
  | .reset =>
      apply iff_of_true _ trivial
      intro hhalf
      exact absurd ((CircuitBreaker.mState_transitionTo _ _ _).symm.trans hhalf) (by decide)
  | .advance time => exact iff_of_true hadmitting trivial

end Caller

/-- Between the calls of a run, a half-open breaker always admits the next request, exactly if no
function throws as a probe that holds the last slot. -/
theorem admitting_iff_leavesSlot {T : Type} (name : String) (config : CircuitBreakerConfig)
    (hpositive : 1 ≤ config.halfOpenMaxCalls) (now : Int) (ops : List (CallerOp T)) :
    (∀ n, Caller.Admitting (run Caller.step (Caller.start name config now) (ops.take n))) ↔
      Along Caller.step Caller.LeavesSlot (Caller.start name config now) ops := by
  have hany : Along Caller.step (fun _ _ => True) (Caller.start name config now) ops :=
    Along.of_forall (fun _ _ => trivial) ops
  refine always_iff_along (I := fun s => 1 ≤ s.breaker.mConfig.halfOpenMaxCalls) hany hpositive ?_ ?_ ?_
  · intro hhalf
    exact absurd hhalf CircuitBreakerState.noConfusion
  · intro s op hstate _
    rw [Caller.mConfig_step]
    exact hstate
  · intro s op hstate _ hadmitting
    exact Caller.admitting_step hstate hadmitting op

/-- Five calls fail and the reset timeout passes. -/
def openedRun : List (CallerOp Unit) :=
  List.replicate 5 (.call (.returned (.error ⟨.networkError, "unreachable"⟩)) 0) ++ [.advance 30000000000]

/-- Two probes throw, and the third succeeds. -/
def twoThrown : List (CallerOp Unit) :=
  openedRun ++ [.call .threw 0, .call .threw 0, .call (.returned (.ok ())) 0]

theorem admitting_iff_leavesSlot_twoThrown :
    Along Caller.step Caller.LeavesSlot (Caller.start "api" {} 0) twoThrown ∧
      ∀ n, Caller.Admitting (run Caller.step (Caller.start "api" {} 0) (twoThrown.take n)) := by
  have hleaves : Along Caller.step Caller.LeavesSlot (Caller.start "api" {} 0) twoThrown := by decide
  exact ⟨hleaves, (admitting_iff_leavesSlot "api" {} (by decide) 0 twoThrown).mpr hleaves⟩

def threeThrown : List (CallerOp Unit) :=
  openedRun ++ [.call .threw 0, .call .threw 0, .call .threw 0]

/-- The breaker is half-open, and refuses from then on. -/
theorem threeThrown_not_admitting :
    ¬ Caller.Admitting (run Caller.step (Caller.start "api" {} 0) threeThrown) := by
  intro hadmitting
  exact absurd (hadmitting (by decide) 1000000000000) (by decide)

end SoulCoreKit.Network
