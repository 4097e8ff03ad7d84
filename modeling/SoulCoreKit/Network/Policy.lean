import Mathlib.Data.List.Basic
import SoulCoreKit.Network.HttpClient

/-!
# The policies of a connection

`network::ReconnectPolicy` and `network::HeartbeatPolicy`: when a connection that was lost is made again, and
how a silent one is found.
-/

namespace SoulCoreKit.Network

/-! ### The reconnect policy

The intervals are counts of milliseconds of 64 bits and the retries an `int`; an expression that overflows,
or a shift by the width of its type or more, has no value. -/

structure ReconnectPolicy where
  mEnabled : Bool := true
  mBaseInterval : Int64 := 1000
  mMaxInterval : Int64 := 60000
  mMaxRetries : Int := 0
  mCurrentRetry : Int := 0

namespace ReconnectPolicy

variable (policy : ReconnectPolicy)

def baseInterval : Int := policy.mBaseInterval.toInt

def maxInterval : Int := policy.mMaxInterval.toInt

def shouldReconnect : Bool :=
  if policy.mEnabled = false then false
  else if policy.mMaxRetries ≤ 0 then true
  else policy.mCurrentRetry < policy.mMaxRetries

def resetRetry : ReconnectPolicy := { policy with mCurrentRetry := 0 }

def incrementRetry : Option ReconnectPolicy :=
  (RetryPolicy.intValue (policy.mCurrentRetry + 1)).map fun count =>
    { policy with mCurrentRetry := count }

/-- The value of a `long long` expression, unless it overflows. -/
def longValue (value : Int) : Option Int := if -2 ^ 63 ≤ value ∧ value < 2 ^ 63 then some value else none

/-- `1LL << count`: the shift into the sign bit gives the least `long long`. -/
def oneShifted (count : Int) : Option Int :=
  if count < 0 ∨ 63 < count then none
  else if count = 63 then some (-2 ^ 63)
  else some (2 ^ count.toNat)

def nextRetryInterval : Option Int :=
  if policy.mCurrentRetry ≤ 0 then
    some policy.baseInterval
  else do
    let factor ← oneShifted policy.mCurrentRetry
    let interval ← longValue (policy.baseInterval * factor)
    return min interval policy.maxInterval

end ReconnectPolicy

end SoulCoreKit.Network

/-! ### The heartbeat policy

A `QTimer` that runs is the time at which it goes off next, on a clock that counts milliseconds; it repeats,
and time does not pass a timer that is due. The network answers each message that was sent once, at any time
after. -/

namespace SoulCoreKit.Network

/-- `network` says whether `m_network` can be locked, `api` is that of the heartbeat message. -/
structure HeartbeatPolicy where
  mInterval : Nat := 30000
  mTimeout : Nat := 10000
  mTimer : Option Nat := none
  mTimeoutTimer : Option Nat := none
  api : String := ""
  network : Bool := false
  deriving DecidableEq, Repr

namespace HeartbeatPolicy

variable (policy : HeartbeatPolicy) (now : Nat)

def start (network : Bool) : HeartbeatPolicy :=
  { policy with network, mTimer := some (now + policy.mInterval) }

def stop : HeartbeatPolicy := { policy with mTimer := none, mTimeoutTimer := none }

/-- Whether a message is sent, and the policy. -/
def sendHeartbeat : Bool × HeartbeatPolicy :=
  if policy.network = false then
    (false, policy)
  else
    let policy := { policy with mTimeoutTimer := some (now + policy.mTimeout) }
    (!policy.api.isEmpty, policy)

def onResponse : HeartbeatPolicy := { policy with mTimeoutTimer := none }

end HeartbeatPolicy

/-- A timer that is due. -/
def isDue (timer : Option Nat) (now : Nat) : Bool := timer.any fun time => time ≤ now

inductive HeartbeatEvent where
  | sent (time : Nat)
  | responded
  | timedOut (time : Nat)
  | stopped
  deriving DecidableEq, Repr

inductive HeartbeatLabel where
  | start (network : Bool)
  | stop
  | tick
  | timerFires
  | timeoutFires
  | responds
  | networkLost
  deriving DecidableEq, Repr

/-- `pending` is the number of messages that the network has not answered, and `events` is what happened,
the latest first. -/
structure Heartbeat where
  policy : HeartbeatPolicy
  now : Nat := 0
  pending : Nat := 0
  events : List HeartbeatEvent := []
  deriving DecidableEq, Repr

namespace Heartbeat

variable (s : Heartbeat)

def beat : Heartbeat :=
  let policy := { s.policy with mTimer := s.policy.mTimer.map (· + s.policy.mInterval) }
  if (policy.sendHeartbeat s.now).1 then
    { s with
      policy := (policy.sendHeartbeat s.now).2
      pending := s.pending + 1
      events := .sent s.now :: s.events }
  else
    { s with policy := (policy.sendHeartbeat s.now).2 }

def step : HeartbeatLabel → Heartbeat
  | .start network => { s with policy := s.policy.start s.now network }
  | .stop => { s with policy := s.policy.stop, events := .stopped :: s.events }
  | .tick =>
      if isDue s.policy.mTimer s.now || isDue s.policy.mTimeoutTimer s.now then s
      else { s with now := s.now + 1 }
  | .timerFires => if isDue s.policy.mTimer s.now then s.beat else s
  | .timeoutFires =>
      if isDue s.policy.mTimeoutTimer s.now then
        { s with
          policy.mTimeoutTimer := s.policy.mTimeoutTimer.map (· + s.policy.mTimeout)
          events := .timedOut s.now :: s.events }
      else
        s
  | .responds =>
      if 0 < s.pending then
        { s with
          policy := s.policy.onResponse
          pending := s.pending - 1
          events := .responded :: s.events }
      else
        s
  | .networkLost => { s with policy.network := false }

end Heartbeat

end SoulCoreKit.Network
