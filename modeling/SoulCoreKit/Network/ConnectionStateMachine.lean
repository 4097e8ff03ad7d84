import Mathlib.Logic.Function.Basic

/-!
# The connection state machine

`network::ConnectionStateMachine`, used by any number of threads. One `transition` is a section under the
lock; `transitionToConnecting` and the others try several of them in turn, and other threads come in
between.

A callback is named by a number, and does not itself call the machine. Recorded beside the fields of the
source: what the callbacks were told, and for each call the states of the machine since it began.
-/

namespace SoulCoreKit.Network

inductive ConnectionState where
  | disconnected
  | connecting
  | connected
  | disconnecting
  | error
  deriving DecidableEq, Repr

abbrev Change := ConnectionState × ConnectionState

structure ConnectionStateMachine where
  mState : ConnectionState := .disconnected
  mCallback : Option Nat := none
  notified : List (Nat × Change) := []

/-- The calls that change the state. -/
inductive Operation where
  | toConnecting
  | toConnected
  | toDisconnecting
  | toDisconnected
  | toError
  deriving DecidableEq, Repr

/-- The transitions a call tries, joined by `||`. -/
def Operation.attempts : Operation → List Change
  | .toConnecting => [(.disconnected, .connecting), (.error, .connecting)]
  | .toConnected => [(.connecting, .connected)]
  | .toDisconnecting => [(.connected, .disconnecting), (.connecting, .disconnecting)]
  | .toDisconnected =>
      [(.connecting, .disconnected), (.connected, .disconnected), (.disconnecting, .disconnected)]
  | .toError => [(.connecting, .error), (.connected, .error)]

/-- The states a call can start from. -/
def Operation.sources (operation : Operation) : List ConnectionState := operation.attempts.map Prod.fst

namespace ConnectionStateMachine

variable (m : ConnectionStateMachine)

def canConnect : Bool := m.mState = .disconnected || m.mState = .error

def canDisconnect : Bool := m.mState = .connected || m.mState = .connecting

def canSend : Bool := m.mState = .connected

def isConnected : Bool := m.mState = .connected

def isConnecting : Bool := m.mState = .connecting

def setStateChangedCallback (callback : Option Nat) : ConnectionStateMachine :=
  { m with mCallback := callback }

def transition (expected next : ConnectionState) : Bool × ConnectionStateMachine :=
  if m.mState ≠ expected then
    (false, m)
  else
    (true, { m with
      mState := next
      notified := m.notified ++ (m.mCallback.map fun callback => (callback, m.mState, next)).toList })

/-- The attempts in turn, up to the first that succeeds. -/
def transitionAny (m : ConnectionStateMachine) : List Change → Bool × ConnectionStateMachine
  | [] => (false, m)
  | (expected, next) :: rest =>
      match m.transition expected next with
      | (true, m) => (true, m)
      | (false, m) => transitionAny m rest

/-- A call that no other thread disturbs. -/
def perform (operation : Operation) : Bool × ConnectionStateMachine := m.transitionAny operation.attempts

def transitionToConnecting : Bool × ConnectionStateMachine := m.perform .toConnecting

def transitionToConnected : Bool × ConnectionStateMachine := m.perform .toConnected

def transitionToDisconnecting : Bool × ConnectionStateMachine := m.perform .toDisconnecting

def transitionToDisconnected : Bool × ConnectionStateMachine := m.perform .toDisconnected

def transitionToError : Bool × ConnectionStateMachine := m.perform .toError

end ConnectionStateMachine

/-! ### Threads -/

/-- A call under way: the attempts it still has to make, and the states since it began. -/
structure PendingCall where
  operation : Operation
  remaining : List Change
  seen : List ConnectionState
  deriving DecidableEq, Repr

/-- A call that has returned: the change it made, or `none` where it returned false. -/
structure ReturnedCall where
  operation : Operation
  change : Option Change
  seen : List ConnectionState
  deriving DecidableEq, Repr

inductive MachineLabel where
  | setStateChangedCallback (callback : Option Nat)
  | call (thread : Nat) (operation : Operation)
  | attempt (thread : Nat)
  deriving DecidableEq, Repr

structure MachineThreads where
  machine : ConnectionStateMachine := {}
  pending : Nat → Option PendingCall := fun _ => none
  returned : List ReturnedCall := []

namespace MachineThreads

variable (s : MachineThreads)

/-- The changes of the state, in order. -/
def changes : List Change := s.returned.filterMap ReturnedCall.change

def setPending (thread : Nat) (call : Option PendingCall) : MachineThreads :=
  { s with pending := Function.update s.pending thread call }

def returns (thread : Nat) (call : PendingCall) (change : Option Change) : MachineThreads :=
  { s.setPending thread none with
    returned := s.returned ++ [⟨call.operation, change, call.seen⟩] }

/-- The calls under way see the new state. -/
def observe (state : ConnectionState) : MachineThreads :=
  { s with pending := fun thread =>
      (s.pending thread).map fun call => { call with seen := call.seen ++ [state] } }

/-- The next attempt of a call. -/
def attempt (thread : Nat) (call : PendingCall) : MachineThreads :=
  match call.remaining with
  | [] => s.returns thread call none
  | (expected, next) :: rest =>
      match s.machine.transition expected next with
      | (true, machine) =>
          { s.returns thread call (some (expected, next)) with machine := machine }.observe next
      | (false, _) =>
          if rest.isEmpty then
            s.returns thread call none
          else
            s.setPending thread (some { call with remaining := rest })

def step (s : MachineThreads) : MachineLabel → MachineThreads
  | .setStateChangedCallback callback =>
      { s with machine := s.machine.setStateChangedCallback callback }
  | .call thread operation =>
      if s.pending thread = none then
        s.setPending thread (some ⟨operation, operation.attempts, [s.machine.mState]⟩)
      else
        s
  | .attempt thread =>
      match s.pending thread with
      | none => s
      | some call => s.attempt thread call

/-- A machine as it is constructed, and the callback that is set before it is used. -/
def start (callback : Option Nat) : MachineThreads := { machine := { mCallback := callback } }

end MachineThreads

end SoulCoreKit.Network
