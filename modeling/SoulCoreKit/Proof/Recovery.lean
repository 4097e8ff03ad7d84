import SoulCoreKit.Lib.Run
import SoulCoreKit.Network.CircuitBreaker

/-!
# Recovery of the circuit breaker

One counter says how many probes are admitted and how many are still out. A success that arrives while
no other probe is out closes the breaker, however few were admitted; and a late success of an earlier
call counts like one of a probe. A ledger of the half-open episode tells the calls apart. Where every
success reported in the episode is of one of its probes, and the last one out comes back only after all
probes were admitted, the counter is what the ledger says and the breaker recovers as documented.
-/

namespace SoulCoreKit.Network

/-- The calls on a breaker. A call that `allowRequest` admits is named by the number of calls of
`allowRequest` before it, and reports under that name. -/
inductive BreakerOp where
  | allowRequest
  | onSuccess (call : Nat)
  | onFailure (call : Nat)
  | reset
  | forceOpen
  | advance (time : Nat)
  deriving DecidableEq, Repr

/-- The breaker, the clock, and what happened in the current half-open episode: the calls admitted, those
of them that reported success, and the failures. -/
structure Ledger where
  breaker : CircuitBreaker
  now : Int
  calls : Nat := 0
  probes : List Nat := []
  successes : List Nat := []
  failures : Nat := 0
  deriving DecidableEq, Repr

/-! ### What the methods do -/

namespace CircuitBreaker

variable (b : CircuitBreaker) (now : Int)

/-- A refusal, an admission in the closed state, the first admission of an episode, or a later one. -/
theorem allowRequest_cases :
    b.allowRequest now = (false, b) ∨
    (b.mState = .closed ∧ b.allowRequest now = (true, b)) ∨
    (b.mState = .opened ∧ (b.allowRequest now).1 = true ∧
      (b.allowRequest now).2.mState = .halfOpen ∧ (b.allowRequest now).2.mHalfOpenCalls = 1) ∨
    (b.mState = .halfOpen ∧ b.mHalfOpenCalls < b.mConfig.halfOpenMaxCalls ∧
      b.allowRequest now = (true, { b with mHalfOpenCalls := b.mHalfOpenCalls + 1 })) := by
  unfold allowRequest
  split
  · rename_i hclosed
    exact Or.inr (Or.inl ⟨hclosed, rfl⟩)
  · rename_i hopened
    split
    · exact Or.inr (Or.inr (Or.inl ⟨hopened, rfl, by simp, by simp⟩))
    · exact Or.inl rfl
  · rename_i hhalf
    split
    · rename_i hroom
      exact Or.inr (Or.inr (Or.inr ⟨hhalf, hroom, rfl⟩))
    · exact Or.inl rfl

theorem mState_onFailure_ne : (b.onFailure now).mState ≠ .halfOpen := by
  unfold onFailure
  simp only
  split
  · rename_i hclosed
    split
    · simp
    · simp [hclosed]
  · simp
  · rename_i hopened
    simp [hopened]

theorem mState_onFailure_of_halfOpen (hhalf : b.mState = .halfOpen) :
    (b.onFailure now).mState = .opened := by
  simp only [onFailure, recordFailure, pruneExpiredFailures, hhalf]
  simp

/-- Asking does not close a breaker. -/
theorem mState_of_allowRequest_closed (hclosed : (b.allowRequest now).2.mState = .closed) :
    b.mState = .closed := by
  obtain hrefused | ⟨hstate, _⟩ | ⟨_, _, hstate, _⟩ | ⟨_, _, hadmitted⟩ := b.allowRequest_cases now
  · rwa [hrefused] at hclosed
  · exact hstate
  · rw [hstate] at hclosed
    contradiction
  · rwa [hadmitted] at hclosed

theorem onSuccess_of_halfOpen (hhalf : b.mState = .halfOpen) :
    (b.onSuccess now).mHalfOpenCalls = b.mHalfOpenCalls - 1 ∧
      ((b.onSuccess now).mState = .halfOpen ∨
        (b.onSuccess now).mState = .closed ∧ b.mHalfOpenCalls ≤ 1) := by
  unfold onSuccess
  rw [hhalf]
  simp only
  split
  · exact ⟨by simp [clearFailures], Or.inr ⟨by simp, by omega⟩⟩
  · exact ⟨rfl, Or.inl rfl⟩

theorem onSuccess_of_not_halfOpen (hhalf : b.mState ≠ .halfOpen) :
    (b.onSuccess now).mState = b.mState := by
  unfold onSuccess
  split
  · contradiction
  · simp [clearFailures]
  · rfl

end CircuitBreaker

/-! ### The ledger -/

namespace Ledger

variable (m : Ledger)

def isHalfOpen : Prop := m.breaker.mState = .halfOpen

instance : Decidable m.isHalfOpen := inferInstanceAs (Decidable (_ = _))

/-- An admission in the open state begins an episode; one in the half-open state is a probe of it. -/
def admitted : Ledger :=
  let called := m.breaker.allowRequest m.now
  let m' := { m with breaker := called.2, calls := m.calls + 1 }
  if m.breaker.mState = .opened ∧ called.2.mState = .halfOpen then
    { m' with probes := [m.calls], successes := [], failures := 0 }
  else if m.isHalfOpen ∧ called.1 then
    { m' with probes := m.probes ++ [m.calls] }
  else
    m'

def succeed (call : Nat) : Ledger :=
  let m' := { m with breaker := m.breaker.onSuccess m.now }
  if m.isHalfOpen ∧ call ∈ m.probes ∧ call ∉ m.successes then
    { m' with successes := m.successes ++ [call] }
  else
    m'

def fail : Ledger :=
  { m with
    breaker := m.breaker.onFailure m.now
    failures := if m.isHalfOpen then m.failures + 1 else m.failures }

def step (m : Ledger) : BreakerOp → Ledger
  | .allowRequest => m.admitted
  | .onSuccess call => m.succeed call
  | .onFailure _ => m.fail
  | .reset => { m with breaker := m.breaker.reset m.now }
  | .forceOpen => { m with breaker := m.breaker.forceOpen m.now }
  | .advance time => { m with now := m.now + time }

/-- A breaker as it is constructed. -/
def start (config : CircuitBreakerConfig) (now : Int) : Ledger := { breaker := { mConfig := config }, now }

/-- A half-open breaker closes, other than by `reset`, only once as many probes of the episode as are
configured have reported success, and no failure was reported. -/
def Recovers (m : Ledger) (op : BreakerOp) : Prop :=
  m.isHalfOpen → (m.step op).breaker.mState = .closed → op ≠ .reset →
    m.breaker.mConfig.halfOpenMaxCalls ≤ ((m.step op).successes.length : Int) ∧
      (m.step op).failures = 0

instance (op : BreakerOp) : Decidable (m.Recovers op) := inferInstanceAs (Decidable (_ → _ → _ → _ ∧ _))

/-- A success in the half-open state is the first report of a probe of the episode; if no other probe is
out, all probes have been admitted. -/
def Orderly (m : Ledger) : BreakerOp → Prop
  | .onSuccess call =>
      m.isHalfOpen → call ∈ m.probes ∧ call ∉ m.successes ∧
        (m.breaker.mHalfOpenCalls ≤ 1 → m.breaker.mConfig.halfOpenMaxCalls ≤ (m.probes.length : Int))
  | _ => True

instance : ∀ op, Decidable (m.Orderly op)
  | .onSuccess _ => inferInstanceAs (Decidable (_ → _ ∧ _ ∧ (_ → _)))
  | .allowRequest | .onFailure _ | .reset | .forceOpen | .advance _ => isTrue trivial

/-- The counter is the number of probes that have not reported. -/
structure Balanced (m : Ledger) : Prop where
  counter : m.isHalfOpen → m.breaker.mHalfOpenCalls + m.successes.length = m.probes.length
  failures : m.isHalfOpen → m.failures = 0

variable {m}

theorem balanced_start (config : CircuitBreakerConfig) (now : Int) : Balanced (start config now) where
  counter hhalf := by simp [isHalfOpen, start] at hhalf
  failures hhalf := by simp [isHalfOpen, start] at hhalf

theorem balanced_of_not_halfOpen (hnot : ¬ m.isHalfOpen) : Balanced m :=
  ⟨fun hhalf => absurd hhalf hnot, fun hhalf => absurd hhalf hnot⟩

theorem breaker_admitted (m : Ledger) : m.admitted.breaker = (m.breaker.allowRequest m.now).2 := by
  unfold admitted
  simp only
  split
  · rfl
  · split <;> rfl

theorem balanced_admitted (hbalanced : Balanced m) : Balanced m.admitted := by
  unfold admitted
  obtain hrefused | ⟨hclosed, hadmitted⟩ | ⟨hopened, _, hstate, hcounter⟩ |
    ⟨hhalf, _, hadmitted⟩ := m.breaker.allowRequest_cases m.now
  · have hnew : ¬ (m.breaker.mState = .opened ∧ m.breaker.mState = .halfOpen) := by
      rintro ⟨hopened, hhalf⟩
      exact absurd (hopened.symm.trans hhalf) (by decide)
    simp only [hrefused, Bool.false_eq_true, and_false, if_false]
    rw [if_neg hnew]
    exact ⟨hbalanced.counter, hbalanced.failures⟩
  · have hnot : ¬ m.isHalfOpen := by
      intro hhalf
      exact absurd (hclosed.symm.trans hhalf) (by decide)
    simp only [hadmitted]
    rw [if_neg (by simp [hclosed]), if_neg (fun hand => hnot hand.1)]
    exact balanced_of_not_halfOpen hnot
  · simp only
    rw [if_pos ⟨hopened, hstate⟩]
    exact ⟨fun _ => by simp [hcounter], fun _ => rfl⟩
  · have hnew : ¬ m.breaker.mState = .opened := by
      rw [hhalf]
      decide
    simp only [hadmitted]
    rw [if_neg (fun hand => hnew hand.1), if_pos ⟨hhalf, trivial⟩]
    refine ⟨fun _ => ?_, fun _ => hbalanced.failures hhalf⟩
    have hcounter := hbalanced.counter hhalf
    simp only [List.length_append, List.length_singleton]
    omega

theorem succeed_of_orderly {call : Nat} (horderly : m.Orderly (.onSuccess call)) (hhalf : m.isHalfOpen) :
    m.succeed call =
      { m with breaker := m.breaker.onSuccess m.now, successes := m.successes ++ [call] } := by
  obtain ⟨hprobe, hfirst, _⟩ := horderly hhalf
  unfold succeed
  rw [if_pos ⟨hhalf, hprobe, hfirst⟩]

theorem balanced_succeed {call : Nat} (hbalanced : Balanced m) (horderly : m.Orderly (.onSuccess call)) :
    Balanced (m.succeed call) := by
  by_cases hhalf : m.isHalfOpen
  · rw [succeed_of_orderly horderly hhalf]
    refine ⟨fun _ => ?_, fun _ => hbalanced.failures hhalf⟩
    have hcounter := hbalanced.counter hhalf
    have hlower := (m.breaker.onSuccess_of_halfOpen m.now hhalf).1
    simp only [List.length_append, List.length_singleton]
    omega
  · have hsame : m.succeed call = { m with breaker := m.breaker.onSuccess m.now } := by
      unfold succeed
      rw [if_neg (fun hand => hhalf hand.1)]
    rw [hsame]
    apply balanced_of_not_halfOpen
    unfold isHalfOpen
    rw [m.breaker.onSuccess_of_not_halfOpen m.now hhalf]
    exact hhalf

theorem balanced_step (m : Ledger) (op : BreakerOp) (hbalanced : Balanced m) (horderly : m.Orderly op) :
    Balanced (m.step op) := by
  cases op with
  | allowRequest => exact balanced_admitted hbalanced
  | onSuccess call => exact balanced_succeed hbalanced horderly
  | onFailure call => exact balanced_of_not_halfOpen (m.breaker.mState_onFailure_ne m.now)
  | reset => exact balanced_of_not_halfOpen (by simp [isHalfOpen, step, CircuitBreaker.reset])
  | forceOpen => exact balanced_of_not_halfOpen (by simp [isHalfOpen, step, CircuitBreaker.forceOpen])
  | advance time => exact ⟨hbalanced.counter, hbalanced.failures⟩

/-- A step that closes a half-open breaker is a success or `reset`. -/
theorem closes_cases {op : BreakerOp} (hhalf : m.isHalfOpen)
    (hclosed : (m.step op).breaker.mState = .closed) : op = .reset ∨ ∃ call, op = .onSuccess call := by
  cases op with
  | allowRequest =>
      rw [step, breaker_admitted] at hclosed
      exact absurd (m.breaker.mState_of_allowRequest_closed m.now hclosed) (by rw [hhalf]; decide)
  | onSuccess call => exact Or.inr ⟨call, rfl⟩
  | onFailure call =>
      rw [step, fail, m.breaker.mState_onFailure_of_halfOpen m.now hhalf] at hclosed
      contradiction
  | reset => exact Or.inl rfl
  | forceOpen => simp [step, CircuitBreaker.forceOpen] at hclosed
  | advance time => exact absurd (hhalf.symm.trans hclosed) (by decide)

theorem recovers_of_orderly (m : Ledger) (op : BreakerOp) (hbalanced : Balanced m)
    (horderly : m.Orderly op) : m.Recovers op := by
  intro hhalf hclosed hreset
  obtain rfl | ⟨call, rfl⟩ := closes_cases hhalf hclosed
  · exact absurd rfl hreset
  · have hcounter := hbalanced.counter hhalf
    have hlast : m.breaker.mHalfOpenCalls ≤ 1 := by
      obtain hstays | ⟨_, hle⟩ := (m.breaker.onSuccess_of_halfOpen m.now hhalf).2
      · rw [step, succeed_of_orderly horderly hhalf] at hclosed
        exact absurd (hstays.symm.trans hclosed) (by decide)
      · exact hle
    have hadmitted := (horderly hhalf).2.2 hlast
    rw [step, succeed_of_orderly horderly hhalf]
    refine ⟨?_, hbalanced.failures hhalf⟩
    simp only [List.length_append, List.length_singleton]
    omega

end Ledger

/-- In every run in which successes are reported in order, a half-open breaker closes only after as many
probes of the episode as are configured have reported success. -/
theorem recovery_of_orderly_run (config : CircuitBreakerConfig) (now : Int) (ops : List BreakerOp)
    (horderly : Along Ledger.step Ledger.Orderly (Ledger.start config now) ops) :
    Along Ledger.step Ledger.Recovers (Ledger.start config now) ops :=
  horderly.of_invariant (Ledger.balanced_start config now) Ledger.balanced_step
    Ledger.recovers_of_orderly

/-- Three probes are admitted before the first of them reports. -/
def threeProbes : List BreakerOp :=
  [.forceOpen, .advance 30000000000, .allowRequest, .allowRequest, .allowRequest, .onSuccess 0,
    .onSuccess 2, .onSuccess 1]

theorem recovery_of_orderly_run_threeProbes :
    Along Ledger.step Ledger.Recovers (Ledger.start {} 0) threeProbes ∧
      (run Ledger.step (Ledger.start {} 0) threeProbes).breaker.mState = .closed :=
  ⟨recovery_of_orderly_run {} 0 threeProbes (by decide), by decide⟩

/-- The first probe of three reports before another one is admitted, and the breaker closes. -/
theorem closed_after_one_probe :
    ¬ Along Ledger.step Ledger.Recovers (Ledger.start {} 0)
      [.forceOpen, .advance 30000000000, .allowRequest, .onSuccess 0] := by
  decide

end SoulCoreKit.Network
