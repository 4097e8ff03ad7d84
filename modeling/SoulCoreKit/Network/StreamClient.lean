import SoulCoreKit.Network.ConnectionStateMachine
import SoulCoreKit.Network.Policy

/-!
# The clients of a stream

`TcpClient` and `WebSocket`, which differ in the socket and in what they connect to. An event is a call on
the client, a signal of its socket or the end of a timer, with what happens before the call or the slot
returns: the signals that the socket gives within a call, and the calls that a callback makes. Recorded
beside the fields: whether the socket was told to connect since its last `disconnected`, whether since then
an error was signalled or a call to disconnect was under way, and for each `disconnected` what came of it.
-/

namespace SoulCoreKit.Network

/-- A `disconnected` signal: whether the socket was told to connect since the one before, whether the end was
announced, whether the policy lets the client reconnect, whether the client starts a timer. -/
structure Ending where
  opened : Bool
  announced : Bool
  allowed : Bool
  started : Bool
  deriving DecidableEq, Repr

/-- `timers` are the intervals of the timers that run, `none` where computing one overflows. -/
structure StreamClient (Target : Type) where
  mStateMachine : ConnectionStateMachine := {}
  mTarget : Option Target := none
  mReconnectPolicy : ReconnectPolicy := {}
  timers : List (Option Int) := []
  fired : Nat := 0
  opened : Bool := false
  announced : Bool := false
  endings : List Ending := []

/-- A host and a port. -/
abbrev TcpClient := StreamClient (String × UInt16)

/-- A URL. -/
abbrev WebSocket := StreamClient String

inductive ClientEvent (Target : Type) where
  | connectToHost (target : Target) (meanwhile : List (ClientEvent Target))
  | disconnectFromHost (meanwhile : List (ClientEvent Target))
  | setReconnectPolicy (policy : ReconnectPolicy)
  | connected (meanwhile : List (ClientEvent Target))
  | disconnected (meanwhile : List (ClientEvent Target))
  | errorOccurred (meanwhile : List (ClientEvent Target))
  | reconnectTimeout (timer : Nat) (meanwhile : List (ClientEvent Target))

namespace StreamClient

variable {Target : Type} (c : StreamClient Target)

def perform (operation : Operation) : StreamClient Target :=
  { c with mStateMachine := (c.mStateMachine.perform operation).2 }

def announce : StreamClient Target := { c with announced := true }

/-- `transitionToConnecting` and the call of the socket. -/
def connectSocket : StreamClient Target :=
  { c.perform .toConnecting with opened := true, announced := false }

def startTimer : StreamClient Target :=
  let interval := do (← c.mReconnectPolicy.incrementRetry).nextRetryInterval
  { c with
    mReconnectPolicy := c.mReconnectPolicy.incrementRetry.getD c.mReconnectPolicy
    timers := c.timers ++ [interval] }

/-- The end of `onDisconnected`, after the callback. -/
def reconnectAfter (wasConnected opened announced : Bool) : StreamClient Target :=
  let allowed := c.mReconnectPolicy.shouldReconnect
  let ended := { c with endings := c.endings ++ [⟨opened, announced, allowed, wasConnected && allowed⟩] }
  if wasConnected && allowed then ended.startTimer else ended

mutual

def exec (c : StreamClient Target) : ClientEvent Target → StreamClient Target
  | .connectToHost target meanwhile =>
      if ¬ c.mStateMachine.canConnect then c
      else execAll { c.connectSocket with mTarget := some target } meanwhile
  | .disconnectFromHost meanwhile =>
      if ¬ c.mStateMachine.canDisconnect then c
      else ((execAll (c.perform .toDisconnecting).announce meanwhile).perform .toDisconnected).announce
  | .setReconnectPolicy policy => { c with mReconnectPolicy := policy }
  | .connected meanwhile =>
      let c := { c with mReconnectPolicy := c.mReconnectPolicy.resetRetry }
      execAll (c.perform .toConnected) meanwhile
  | .disconnected meanwhile =>
      let wasConnected := c.mStateMachine.isConnected || c.mStateMachine.isConnecting
      let called := execAll { c.perform .toDisconnected with opened := false } meanwhile
      called.reconnectAfter wasConnected c.opened c.announced
  | .errorOccurred meanwhile => execAll (c.perform .toError).announce meanwhile
  | .reconnectTimeout timer meanwhile =>
      if timer < c.timers.length then
        let c := { c with timers := c.timers.eraseIdx timer, fired := c.fired + 1 }
        if c.mStateMachine.canConnect then execAll c.connectSocket meanwhile else c
      else
        c

def execAll (c : StreamClient Target) : List (ClientEvent Target) → StreamClient Target
  | [] => c
  | event :: rest => execAll (exec c event) rest

end

end StreamClient

end SoulCoreKit.Network
