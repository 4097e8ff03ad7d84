import Mathlib.Logic.Function.Basic
import SoulCoreKit.Lib.Run

/-!
# The connection manager

`network::ConnectionManager` as a machine driven by calls, timers and the network. Connections do not
interact: under each name stands a slot with the connection registered there, if any, and with the
single-shot timers that will call `tryReconnect` with the name, which survive the connection. Callbacks
run in the thread of the event loop, as calls do, so each event is one step. An event whose source is
gone does not occur: a poll tick after the timer was stopped, a timeout of a heartbeat that was
destroyed, a timer that is not pending, the outcome of an attempt that was not made.

The network is arbitrary: every poll tick brings what `isConnected` answers, and an attempt may turn out
to have failed at any later time. Recorded beside the fields of the source, and read by no branch: the
attempt in progress, whether the last one failed, the reconnect attempts that failed since the
connection was last `Connected`, and the calls of `connectTo` under the name. `retryCount` is exact: it
would overflow after 2^31 reconnects in a row.
-/

namespace SoulCoreKit.Network

inductive ManagedConnectionState where
  | disconnected
  | connecting
  | connected
  | reconnecting
  | error
  deriving DecidableEq, Repr

structure ConnectionConfig where
  autoReconnect : Bool := true
  maxRetries : Int := 0
  enableHeartbeat : Bool := false
  deriving DecidableEq, Repr

/-- Where a call of `connectTo` came from. -/
inductive Attempt where
  | first
  | reconnect
  deriving DecidableEq, Repr

structure ManagedConnection where
  config : ConnectionConfig := {}
  state : ManagedConnectionState := .disconnected
  retryCount : Int := 0
  pollTimer : Bool := false
  heartbeat : Bool := false
  attempt : Option Attempt := none
  lastFailed : Bool := false
  failures : Nat := 0
  deriving DecidableEq, Repr

/-- What stands under a name. -/
structure Slot where
  connection : Option ManagedConnection := none
  timers : Nat := 0
  connectTos : Nat := 0
  deriving DecidableEq, Repr

namespace ManagedConnection

variable (mc : ManagedConnection)

def setState (newState : ManagedConnectionState) : ManagedConnection := { mc with state := newState }

/-- `Connected` starts the count of failed attempts anew and ends the attempt. -/
def setConnected : ManagedConnection :=
  { mc.setState .connected with
    attempt := none
    failures := 0
    heartbeat := mc.heartbeat || mc.config.enableHeartbeat }

def stopPolling : ManagedConnection := { mc with pollTimer := false, heartbeat := false }

def startPolling : ManagedConnection := { mc with pollTimer := true }

def connectTo (attempt : Attempt) : ManagedConnection :=
  { mc with attempt := some attempt, lastFailed := false }

def exhausted : Bool := mc.config.maxRetries > 0 ∧ mc.retryCount ≥ mc.config.maxRetries

end ManagedConnection

namespace Slot

variable (slot : Slot)

/-- The part of `connect` and of the loop of `connectAll` that connects. -/
def connectWith (mc : ManagedConnection) : Slot :=
  { slot with
    connection := some ((({ mc with retryCount := 0 }.setState .connecting).connectTo .first).startPolling)
    connectTos := slot.connectTos + 1 }

def scheduleReconnect (mc : ManagedConnection) : Slot :=
  if mc.exhausted then
    { slot with connection := some (mc.setState .error) }
  else
    let mc := mc.setState .reconnecting
    { slot with
      connection := some { mc with retryCount := mc.retryCount + 1 }
      timers := slot.timers + 1 }

def lose (mc : ManagedConnection) : Slot :=
  let mc := mc.setState .disconnected
  if mc.config.autoReconnect then
    slot.scheduleReconnect mc
  else
    { slot with connection := some mc }

def registerConnection (hasNetwork : Bool) (config : ConnectionConfig) : Slot :=
  if ¬ hasNetwork then slot else { slot with connection := some { config } }

def unregisterConnection : Slot := { slot with connection := none }

def connect : Slot :=
  match slot.connection with
  | none => slot
  | some mc =>
      if mc.state = .connected ∨ mc.state = .connecting then slot else slot.connectWith mc

def disconnect : Slot :=
  match slot.connection with
  | none => slot
  | some mc =>
      { slot with connection := some ({ mc.stopPolling with retryCount := 0 }.setState .disconnected) }

/-- `state` of a name, also of one without a connection. -/
def state : ManagedConnectionState :=
  match slot.connection with
  | none => .disconnected
  | some mc => mc.state

def checkConnection (connected : Bool) : Slot :=
  match slot.connection with
  | none => slot
  | some mc =>
      if ¬ mc.pollTimer then
        slot
      else
        match mc.state with
        | .connecting => if connected then { slot with connection := some mc.setConnected } else slot
        | .connected => if ¬ connected then slot.lose mc else slot
        | .reconnecting => if connected then { slot with connection := some mc.setConnected } else slot
        | _ => slot

def onHeartbeatTimeout : Slot :=
  match slot.connection with
  | none => slot
  | some mc => if ¬ mc.heartbeat then slot else slot.lose { mc with heartbeat := false }

/-- A pending timer fires. -/
def tryReconnect : Slot :=
  if slot.timers = 0 then
    slot
  else
    let slot := { slot with timers := slot.timers - 1 }
    match slot.connection with
    | none => slot
    | some mc =>
        if mc.state ≠ .reconnecting then
          slot
        else
          { slot with
            connection := some (mc.connectTo .reconnect)
            connectTos := slot.connectTos + 1 }

def attemptFailed : Slot :=
  match slot.connection with
  | none => slot
  | some mc =>
      match mc.attempt with
      | none => slot
      | some attempt =>
          { slot with
            connection := some
              { mc with
                attempt := none
                lastFailed := true
                failures := if attempt = .reconnect then mc.failures + 1 else mc.failures } }

end Slot

namespace ConnectionManager

variable {Name : Type} [DecidableEq Name]

inductive Event where
  | registerConnection (hasNetwork : Bool) (config : ConnectionConfig)
  | unregisterConnection
  | connect
  | disconnect
  | pollTick (connected : Bool)
  | heartbeatTimeout
  | reconnectTimer
  | attemptFailed
  deriving DecidableEq, Repr

/-- An event under a name, or `connectAll`, which connects under one lock. `disconnectAll` is a sequence
of disconnects. -/
inductive ManagerEvent (Name : Type) where
  | under (name : Name) (event : Event)
  | connectAll

def react (slot : Slot) : Event → Slot
  | .registerConnection hasNetwork config => slot.registerConnection hasNetwork config
  | .unregisterConnection => slot.unregisterConnection
  | .connect => slot.connect
  | .disconnect => slot.disconnect
  | .pollTick connected => slot.checkConnection connected
  | .heartbeatTimeout => slot.onHeartbeatTimeout
  | .reconnectTimer => slot.tryReconnect
  | .attemptFailed => slot.attemptFailed

def step (slots : Name → Slot) : ManagerEvent Name → Name → Slot
  | .under name event => Function.update slots name (react (slots name) event)
  | .connectAll => fun name => (slots name).connect

def start : Name → Slot := fun _ => {}

/-- The event a label is for a name. -/
def eventFor (name : Name) : ManagerEvent Name → Option Event
  | .under other event => if name = other then some event else none
  | .connectAll => some .connect

theorem step_apply (slots : Name → Slot) (label : ManagerEvent Name) (name : Name) :
    step slots label name =
      match eventFor name label with
      | none => slots name
      | some event => react (slots name) event := by
  cases label with
  | under other event =>
      unfold step eventFor
      by_cases heq : name = other
      · subst heq
        simp
      · simp [heq]
  | connectAll => rfl

end ConnectionManager

end SoulCoreKit.Network
