import Mathlib.Algebra.Order.Floor.Ring
import Mathlib.Logic.Function.Basic

/-!
# The rate limiter

`network::RateLimiter`, its two algorithms as a call runs them alone. `double` is an ordered field whose
numbers have a whole part, and a time is a reading of the steady clock in milliseconds of that field, so
that a reading lies anywhere between two whole milliseconds. A refill of the token bucket counts the
whole milliseconds since the last one and moves the reference to the reading itself.
-/

namespace SoulCoreKit.Network

inductive RateLimiterAlgorithm where
  | tokenBucket
  | slidingWindow
  deriving DecidableEq, Repr

structure RateLimiter (K : Type) where
  mAlgorithm : RateLimiterAlgorithm
  mPermitsPerSec : K
  mBurstSize : Int
  mTokens : K
  mLastRefillTime : K
  mWindowStartMs : Int := 0
  mWindowCount : Int := 0
  mRejected : UInt64 := 0
  mAccepted : UInt64 := 0

namespace RateLimiter

variable {K : Type} [Field K] [LinearOrder K] [FloorRing K]

/-- The conversion to an integer, which rounds towards zero. -/
def truncate (x : K) : Int := if 0 ≤ x then ⌊x⌋ else ⌈x⌉

/-- The constructor, at a reading of the clock. -/
def create (algorithm : RateLimiterAlgorithm) (permitsPerSec : K) (burstSize : Int) (now : K) :
    RateLimiter K :=
  let rate := if permitsPerSec > 0 then permitsPerSec else 1
  let burst := if burstSize > 0 then burstSize else truncate rate
  { mAlgorithm := algorithm
    mPermitsPerSec := rate
    mBurstSize := burst
    mTokens := burst
    mLastRefillTime := now }

theorem truncate_of_nonneg {x : K} (hx : 0 ≤ x) : truncate x = ⌊x⌋ := if_pos hx

/-- The rate of a limiter that was constructed is positive. -/
theorem rate_pos_create [IsStrictOrderedRing K] (algorithm : RateLimiterAlgorithm) (permitsPerSec : K)
    (burstSize : Int) (now : K) : 0 < (create algorithm permitsPerSec burstSize now).mPermitsPerSec := by
  unfold create
  dsimp only
  split
  · assumption
  · exact one_pos

variable (l : RateLimiter K) (now : K)

/-! ### The token bucket -/

def refillTokens : RateLimiter K :=
  let elapsed := truncate (now - l.mLastRefillTime)
  if elapsed ≤ 0 then
    l
  else
    { l with
      mTokens := min (l.mTokens + elapsed / 1000 * l.mPermitsPerSec) l.mBurstSize
      mLastRefillTime := now }

def tryAcquireTokenBucket (permits : Int) : Bool × RateLimiter K :=
  let l := l.refillTokens now
  if l.mTokens ≥ permits then
    (true, { l with mTokens := l.mTokens - permits, mAccepted := l.mAccepted + 1 })
  else
    (false, { l with mRejected := l.mRejected + 1 })

/-! ### The sliding window -/

/-- `maxPermits` of the sliding window. -/
def maxPermits : Int := truncate l.mPermitsPerSec

/-- The window of `windowMs` milliseconds has run out. -/
def windowExpired (nowMs : Int) : Bool := nowMs - l.mWindowStartMs ≥ 1000

def restartWindow (nowMs : Int) : RateLimiter K :=
  { l with mWindowStartMs := nowMs, mWindowCount := 0 }

/-- Run alone, the loop restarts a window that has run out and then decides on the count. -/
def tryAcquireSlidingWindow (permits : Int) : Bool × RateLimiter K :=
  let nowMs := truncate now
  let l := if l.windowExpired nowMs then l.restartWindow nowMs else l
  if l.mWindowCount + permits ≤ l.maxPermits then
    (true, { l with mWindowCount := l.mWindowCount + permits, mAccepted := l.mAccepted + 1 })
  else
    (false, { l with mRejected := l.mRejected + 1 })

/-! ### The calls -/

def tryAcquire (permits : Int) : Bool × RateLimiter K :=
  if permits ≤ 0 then
    (true, l)
  else
    match l.mAlgorithm with
    | .tokenBucket => l.tryAcquireTokenBucket now permits
    | .slidingWindow => l.tryAcquireSlidingWindow now permits

def availablePermits : K × RateLimiter K :=
  match l.mAlgorithm with
  | .slidingWindow => ((max 0 (l.maxPermits - l.mWindowCount) : Int), l)
  | .tokenBucket =>
      let l := l.refillTokens now
      (l.mTokens, l)

/-- `setPermitsPerSec`, which also refuses what is not a finite number. -/
def setPermitsPerSec (permitsPerSec : K) : RateLimiter K :=
  if permitsPerSec ≤ 0 then
    l
  else
    let burst := truncate permitsPerSec
    { l with
      mPermitsPerSec := permitsPerSec
      mBurstSize := burst
      mTokens := min l.mTokens burst }

end RateLimiter

/-! ### A limiter in use -/

inductive LimiterOp (K : Type) where
  | tryAcquire (permits : Int) (now : K)
  | availablePermits (now : K)
  deriving DecidableEq, Repr

/-- The call looks at the limiter: it is not one for no permits. -/
def LimiterOp.Asks {K : Type} : LimiterOp K → Prop
  | .tryAcquire permits _ => 0 < permits
  | .availablePermits _ => True

/-- A call that was let through, and the permits it took. -/
structure Grant (K : Type) where
  time : K
  permits : Nat
  deriving DecidableEq, Repr

/-- The grants are kept beside the limiter. -/
structure LimiterRun (K : Type) where
  limiter : RateLimiter K
  grants : List (Grant K) := []

def LimiterOp.now {K : Type} : LimiterOp K → K
  | .tryAcquire _ now => now
  | .availablePermits now => now

namespace RateLimiter

variable {K : Type} [Field K] [LinearOrder K] [FloorRing K]

/-- Whether the call is let through, and the limiter afterwards. -/
def call (l : RateLimiter K) : LimiterOp K → Bool × RateLimiter K
  | .tryAcquire permits now => l.tryAcquire now permits
  | .availablePermits now => (true, (l.availablePermits now).2)

/-- What a call that is let through takes. A call for no permits takes none. -/
def granted (l : RateLimiter K) : LimiterOp K → List (Grant K)
  | .tryAcquire permits now => if (l.tryAcquire now permits).1 then [⟨now, permits.toNat⟩] else []
  | .availablePermits _ => []

theorem granted_tryAcquire (l : RateLimiter K) (permits : Int) (now : K) :
    l.granted (.tryAcquire permits now) =
      if (l.tryAcquire now permits).1 then [⟨now, permits.toNat⟩] else [] := rfl

end RateLimiter

/-- The permits granted at the times that pass the test. -/
def permitsWhere {K : Type} (within : K → Prop) [DecidablePred within] (grants : List (Grant K)) : Nat :=
  ((grants.filter fun grant => within grant.time).map Grant.permits).sum

section Grants

variable {K : Type} {within : K → Prop} [DecidablePred within]

@[simp]
theorem permitsWhere_nil : permitsWhere within ([] : List (Grant K)) = 0 := rfl

@[simp]
theorem permitsWhere_append (first second : List (Grant K)) :
    permitsWhere within (first ++ second) = permitsWhere within first + permitsWhere within second := by
  unfold permitsWhere
  rw [List.filter_append, List.map_append, List.sum_append]

@[simp]
theorem permitsWhere_singleton (grant : Grant K) :
    permitsWhere within [grant] = if within grant.time then grant.permits else 0 := by
  unfold permitsWhere
  split_ifs with hwithin <;> simp [hwithin]

theorem permitsWhere_cons (grant : Grant K) (grants : List (Grant K)) :
    permitsWhere within (grant :: grants) =
      (if within grant.time then grant.permits else 0) + permitsWhere within grants := by
  rw [← List.singleton_append, permitsWhere_append, permitsWhere_singleton]

theorem permitsWhere_mono {wider : K → Prop} [DecidablePred wider] {grants : List (Grant K)}
    (himp : ∀ grant ∈ grants, within grant.time → wider grant.time) :
    permitsWhere within grants ≤ permitsWhere wider grants := by
  induction grants with
  | nil => exact le_rfl
  | cons grant rest ih =>
      rw [permitsWhere_cons, permitsWhere_cons]
      have hrest := ih fun other hother => himp other (List.mem_cons_of_mem _ hother)
      have hhead := himp grant List.mem_cons_self
      split_ifs with hwithin hwider
      · omega
      · exact absurd (hhead hwithin) hwider
      · omega
      · omega

end Grants

/-- A second on the clock of the limiter. -/
def secondMs {K : Type} [Field K] : K := 1000

namespace LimiterRun

variable {K : Type} [Field K] [LinearOrder K] [FloorRing K]

def step (s : LimiterRun K) (op : LimiterOp K) : LimiterRun K where
  limiter := (s.limiter.call op).2
  grants := s.grants ++ s.limiter.granted op

/-- The limiter as it is constructed, with nothing granted. -/
def start (algorithm : RateLimiterAlgorithm) (permitsPerSec : K) (burstSize : Int) (now : K) :
    LimiterRun K :=
  { limiter := RateLimiter.create algorithm permitsPerSec burstSize now }

end LimiterRun

end SoulCoreKit.Network

/-!
### The sliding window under threads

`tryAcquireSlidingWindow` as its atomic accesses, interleaved: the load of the window start, its
exchange, the store of zero to the counter, the load of the counter and its exchange. The comparisons
between two accesses are local to the thread and belong to the step of the next one. The rate does not
change, so reading it is no step.
-/

namespace SoulCoreKit.Network

/-- Where a thread is in the method, with the permits it asks for and its reading of the clock: it has
still to load the window start, is at the head of the loop with what it expects there, has changed the
window start and not stored zero yet, or has loaded the counter. -/
inductive LimiterPlace where
  | idle
  | entered (permits : Nat) (nowMs : Int)
  | looped (permits : Nat) (nowMs expected : Int)
  | changed (permits : Nat) (nowMs expected : Int)
  | counted (permits : Nat) (nowMs expected current : Int)
  deriving DecidableEq, Repr

/-- A step of a thread, or the clock. `spurious` is a weak exchange that fails although the value is as
expected. -/
inductive LimiterLabel where
  | tryAcquire (thread : Nat) (permits : Int)
  | proceed (thread : Nat)
  | spurious (thread : Nat)
  | advance (time : Nat)
  deriving DecidableEq, Repr

/-- `granted` is the sum of the permits granted since the window start was last changed. -/
structure LimiterThreads (K : Type) where
  limiter : RateLimiter K
  nowMs : Int
  places : Nat → LimiterPlace := fun _ => .idle
  granted : Nat := 0

namespace LimiterThreads

variable {K : Type} [Field K] [LinearOrder K] [FloorRing K] (s : LimiterThreads K) (thread : Nat)

def moveTo (place : LimiterPlace) : LimiterThreads K :=
  { s with places := Function.update s.places thread place }

/-- A call for no permits returns at once. -/
def tryAcquire (permits : Int) : LimiterThreads K :=
  if permits ≤ 0 then s else s.moveTo thread (.entered permits.toNat s.nowMs)

/-- The window has run out for a thread with this reading and expectation. -/
def runOut (nowMs expected : Int) : Bool := nowMs - expected ≥ 1000

/-- The exchange of the window start. The expectation of a thread that succeeds stays the old one. -/
def exchangeStart (permits : Nat) (nowMs expected : Int) : LimiterThreads K :=
  if s.limiter.mWindowStartMs = expected then
    { s with limiter.mWindowStartMs := nowMs, granted := 0 }.moveTo thread
      (.changed permits nowMs expected)
  else
    s.moveTo thread (.looped permits nowMs s.limiter.mWindowStartMs)

/-- The exchange of the counter. A thread that fails begins the loop again. -/
def exchangeCount (permits : Nat) (nowMs expected current : Int) : LimiterThreads K :=
  if s.limiter.mWindowCount = current then
    { s with
      limiter.mWindowCount := current + permits
      limiter.mAccepted := s.limiter.mAccepted + 1
      granted := s.granted + permits }.moveTo thread .idle
  else
    s.moveTo thread (.looped permits nowMs expected)

/-- The next access of a thread. -/
def proceed : LimiterThreads K :=
  match s.places thread with
  | .idle => s
  | .entered permits nowMs => s.moveTo thread (.looped permits nowMs s.limiter.mWindowStartMs)
  | .looped permits nowMs expected =>
      if runOut nowMs expected then
        s.exchangeStart thread permits nowMs expected
      else
        s.moveTo thread (.counted permits nowMs expected s.limiter.mWindowCount)
  | .changed permits nowMs expected =>
      { s with limiter.mWindowCount := 0 }.moveTo thread (.looped permits nowMs expected)
  | .counted permits nowMs expected current =>
      if current + permits ≤ s.limiter.maxPermits then
        s.exchangeCount thread permits nowMs expected current
      else
        { s with limiter.mRejected := s.limiter.mRejected + 1 }.moveTo thread .idle

def spurious : LimiterThreads K :=
  match s.places thread with
  | .looped permits nowMs expected =>
      if runOut nowMs expected then
        s.moveTo thread (.looped permits nowMs s.limiter.mWindowStartMs)
      else
        s
  | .counted permits nowMs expected current =>
      if current + permits ≤ s.limiter.maxPermits then
        s.moveTo thread (.looped permits nowMs expected)
      else
        s
  | _ => s

def step (s : LimiterThreads K) : LimiterLabel → LimiterThreads K
  | .tryAcquire thread permits => if s.places thread = .idle then s.tryAcquire thread permits else s
  | .proceed thread => s.proceed thread
  | .spurious thread => s.spurious thread
  | .advance time => { s with nowMs := s.nowMs + time }

/-- A limiter as it is constructed, with all threads idle. -/
def start (permitsPerSec : K) (burstSize : Int) (nowMs : Int) : LimiterThreads K :=
  { limiter := RateLimiter.create .slidingWindow permitsPerSec burstSize nowMs, nowMs }

end LimiterThreads

end SoulCoreKit.Network
