import Mathlib.Algebra.Group.Nat.Defs
import SoulCoreKit.Core.Result

/-!
# Reconnecting to the broker

`mq::RabbitMQConnection` on a clock that counts milliseconds. One timer looks at the connection at the
interval of the heartbeat, the other waits for the next attempt; a look that finds the connection lost
starts the second again, with a delay that doubles. A timer that runs has the time at which it goes off
next, and time does not pass a timer that is due.

The source has both the interval in milliseconds and the count of looks in an `int`. The results leave out
intervals that do not fit, and the model counts on where `2 ^ 31` looks without an attempt would overflow.
-/

namespace SoulCoreKit.Mq

structure QTimer where
  interval : Nat
  due : Nat
  deriving DecidableEq, Repr

def QTimer.isDue (timer : QTimer) (now : Nat) : Bool := timer.due ≤ now

/-- The heartbeat interval in seconds. The other fields are handed on to the backend. -/
structure ConnectionConfig where
  heartbeatInterval : Nat := 60
  deriving DecidableEq, Repr

/-- What is recorded: a look of the heartbeat that finds the connection lost and is to be followed by an
attempt, an attempt of the timer, a call of `disconnect`. -/
inductive ConnectionEvent where
  | lost (time : Nat)
  | attempted (time : Nat)
  | closed
  deriving DecidableEq, Repr

/-- What `createBackend` and the `connect` of the backend come to. -/
inductive ConnectOutcome where
  | noBackend
  | failed (error : Error)
  | established
  deriving DecidableEq, Repr

/-- `mBackend` tells whether the backend is connected. The latest event is the first. -/
structure RabbitMQConnection where
  mBackend : Option Bool := none
  mConfig : ConnectionConfig := {}
  mHeartbeatTimer : Option QTimer := none
  mReconnectTimer : Option QTimer := none
  mReconnectEnabled : Bool := true
  mReconnectAttempts : Nat := 0
  now : Nat := 0
  events : List ConnectionEvent := []
  deriving DecidableEq, Repr

inductive ConnectionLabel where
  | connect (config : ConnectionConfig) (outcome : ConnectOutcome)
  | disconnect
  | setReconnectEnabled (enabled : Bool)
  | backendLost
  | elapse (time : Nat)
  | heartbeatTimeout
  | reconnectTimeout (outcome : ConnectOutcome)
  deriving DecidableEq, Repr

namespace RabbitMQConnection

variable (c : RabbitMQConnection)

def isConnected : Bool := c.mBackend = some true

def startHeartbeat : RabbitMQConnection :=
  let interval := c.mConfig.heartbeatInterval * 1000
  { c with mHeartbeatTimer := some ⟨interval, c.now + interval⟩ }

def notCompiled : Error :=
  ⟨.notImplemented,
    "RabbitMQConnection: AmqpCpp backend not compiled (rebuild with -DENABLE_RABBITMQ=ON)"⟩

def connect (config : ConnectionConfig) (outcome : ConnectOutcome) : Result Unit × RabbitMQConnection :=
  let c := { c with mConfig := config, mReconnectAttempts := 0 }
  match outcome with
  | .noBackend => (.error notCompiled, { c with mBackend := none })
  | .failed error => (.error error, { c with mBackend := some false })
  | .established => (.ok (), { c with mBackend := some true }.startHeartbeat)

def disconnect : RabbitMQConnection :=
  { c with
    mBackend := c.mBackend.map fun _ => false
    mHeartbeatTimer := none
    mReconnectTimer := none
    events := .closed :: c.events }

def reconnectDelay (attempts : Nat) : Nat := min 30000 (1000 * 2 ^ min attempts 10)

def scheduleReconnect : RabbitMQConnection :=
  if ¬ c.mReconnectEnabled then
    c
  else
    let attempts := c.mReconnectAttempts + 1
    let delay := reconnectDelay attempts
    { c with
      mReconnectAttempts := attempts
      mReconnectTimer := some ⟨delay, c.now + delay⟩
      events := .lost c.now :: c.events }

def onHeartbeat : RabbitMQConnection := if ¬ c.isConnected then c.scheduleReconnect else c

def onReconnectTimer (outcome : ConnectOutcome) : RabbitMQConnection :=
  let c := { c with mReconnectTimer := none }
  if c.mReconnectEnabled then
    { c with events := .attempted c.now :: c.events }.connect c.mConfig outcome |>.2
  else
    c

/-- No timer is due before the time. -/
def quietUntil (time : Nat) : Bool :=
  (c.mHeartbeatTimer.all fun timer => time ≤ timer.due) &&
    (c.mReconnectTimer.all fun timer => time ≤ timer.due)

/-- Both timers repeat. -/
def step (c : RabbitMQConnection) : ConnectionLabel → RabbitMQConnection
  | .connect config outcome => (c.connect config outcome).2
  | .disconnect => c.disconnect
  | .setReconnectEnabled enabled => { c with mReconnectEnabled := enabled }
  | .backendLost => { c with mBackend := c.mBackend.map fun _ => false }
  | .elapse time => if c.quietUntil (c.now + time) then { c with now := c.now + time } else c
  | .heartbeatTimeout =>
      match c.mHeartbeatTimer with
      | none => c
      | some timer =>
          if timer.isDue c.now then
            { c with mHeartbeatTimer := some { timer with due := c.now + timer.interval } }.onHeartbeat
          else
            c
  | .reconnectTimeout outcome =>
      match c.mReconnectTimer with
      | none => c
      | some timer => if timer.isDue c.now then c.onReconnectTimer outcome else c

end RabbitMQConnection

end SoulCoreKit.Mq
