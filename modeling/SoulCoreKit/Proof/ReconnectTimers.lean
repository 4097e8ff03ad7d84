import Mathlib.Tactic.SplitIfs
import SoulCoreKit.Network.StreamClient

/-!
# When a client reconnects

A client that gets `disconnected` reconnects if its state machine is still active then, and the machine is
active exactly as long as the socket was told to connect and no end was announced, by an error or by a call
to disconnect. A socket that announces every end with an error is never connected again.
-/

namespace SoulCoreKit.Network

namespace StreamClient

variable {Target : Type} (c : StreamClient Target)

/-- The machine is connected, or on the way to it. -/
def isActive (c : StreamClient Target) : Bool := c.mStateMachine.isConnected || c.mStateMachine.isConnecting

theorem isActive_perform {operation : Operation}
    (hoperation : operation ≠ .toConnecting ∧ operation ≠ .toConnected) :
    (c.perform operation).isActive = false := by
  obtain ⟨⟨state, callback, notified⟩, target, policy, timers, fired, opened, announced, endings⟩ := c
  cases operation with
  | toConnecting => exact absurd rfl hoperation.1
  | toConnected => exact absurd rfl hoperation.2
  | _ => cases state <;> rfl

theorem isActive_toConnected : (c.perform .toConnected).isActive = c.isActive := by
  obtain ⟨⟨state, callback, notified⟩, target, policy, timers, fired, opened, announced, endings⟩ := c
  cases state <;> rfl

theorem isActive_toConnecting (hcan : c.mStateMachine.canConnect = true) :
    (c.perform .toConnecting).isActive = true := by
  obtain ⟨⟨state, callback, notified⟩, target, policy, timers, fired, opened, announced, endings⟩ := c
  cases state <;> first | rfl | cases hcan

/-- The machine is active as long as the socket was told to connect and no end announced, and what came of
each `disconnected` goes by that. -/
structure Tracks (c : StreamClient Target) : Prop where
  active : c.isActive = (c.opened && !c.announced)
  endings : ∀ ending ∈ c.endings, ending.started = (ending.opened && !ending.announced && ending.allowed)
  counted : c.timers.length + c.fired = c.endings.countP Ending.started

variable {c} {c' : StreamClient Target}

theorem Tracks.of_active (htracks : c.Tracks) (hactive : c'.isActive = (c'.opened && !c'.announced))
    (hendings : c'.endings = c.endings) (htimers : c'.timers.length + c'.fired = c.timers.length + c.fired) :
    c'.Tracks :=
  ⟨hactive, hendings ▸ htracks.endings, by rw [htimers, hendings, htracks.counted]⟩

theorem Tracks.connectSocket (htracks : c.Tracks) (hcan : c.mStateMachine.canConnect = true) :
    c.connectSocket.Tracks :=
  htracks.of_active (c.isActive_toConnecting hcan) rfl rfl

/-- After a step that ends the connection. -/
theorem Tracks.inactive (htracks : c.Tracks) {operation : Operation}
    (hoperation : operation ≠ .toConnecting ∧ operation ≠ .toConnected) :
    (c.perform operation).announce.Tracks := by
  refine htracks.of_active ((c.isActive_perform hoperation).trans ?_) rfl rfl
  simp [announce]

theorem Tracks.reconnectAfter (htracks : c.Tracks) {wasConnected opened announced : Bool}
    (hwas : wasConnected = (opened && !announced)) :
    (c.reconnectAfter wasConnected opened announced).Tracks := by
  obtain ⟨started, hstarted⟩ :
      ∃ started, started = (wasConnected && c.mReconnectPolicy.shouldReconnect) := ⟨_, rfl⟩
  have hendings : ∀ ending ∈ c.endings ++ [⟨opened, announced, c.mReconnectPolicy.shouldReconnect, started⟩],
      ending.started = (ending.opened && !ending.announced && ending.allowed) := by
    intro ending hending
    rcases List.mem_append.mp hending with hold | hnew
    · exact htracks.endings ending hold
    · rw [List.mem_singleton.mp hnew, hstarted, hwas]
  have hcounted :
      (c.endings ++ [Ending.mk opened announced c.mReconnectPolicy.shouldReconnect started]).countP
        Ending.started = c.timers.length + c.fired + started.toNat := by
    rw [List.countP_append, ← htracks.counted, List.countP_singleton]
    cases started <;> rfl
  rw [StreamClient.reconnectAfter, ← hstarted]
  cases started with
  | true =>
      refine ⟨htracks.active, hendings, Eq.trans ?_ hcounted.symm⟩
      simp only [if_true, startTimer, List.length_append, List.length_singleton, Bool.toNat_true]
      omega
  | false => exact ⟨htracks.active, hendings, hcounted.symm⟩

theorem Tracks.fire (htracks : c.Tracks) {timer : Nat} (htimer : timer < c.timers.length) :
    Tracks { c with timers := c.timers.eraseIdx timer, fired := c.fired + 1 } := by
  refine htracks.of_active htracks.active rfl ?_
  simp only [List.length_eraseIdx_of_lt htimer]
  omega

mutual

theorem Tracks.exec {s : StreamClient Target} (htracks : s.Tracks) : ∀ event, (s.exec event).Tracks
  | .connectToHost target meanwhile => by
      rw [StreamClient.exec]
      split_ifs with hcan
      · refine Tracks.execAll ?_ meanwhile
        exact (htracks.connectSocket hcan).of_active (htracks.connectSocket hcan).active rfl rfl
      · exact htracks
  | .disconnectFromHost meanwhile => by
      rw [StreamClient.exec]
      split_ifs with hcan
      · exact (Tracks.execAll (htracks.inactive (by decide)) meanwhile).inactive (by decide)
      · exact htracks
  | .setReconnectPolicy policy => by
      rw [StreamClient.exec]
      exact htracks.of_active htracks.active rfl rfl
  | .connected meanwhile => by
      rw [StreamClient.exec]
      refine Tracks.execAll ?_ meanwhile
      exact htracks.of_active ((isActive_toConnected _).trans htracks.active) rfl rfl
  | .disconnected meanwhile => by
      rw [StreamClient.exec]
      refine Tracks.reconnectAfter (Tracks.execAll ?_ meanwhile) htracks.active
      exact htracks.of_active (isActive_perform s (by decide)) rfl rfl
  | .errorOccurred meanwhile => by
      rw [StreamClient.exec]
      exact Tracks.execAll (htracks.inactive (by decide)) meanwhile
  | .reconnectTimeout timer meanwhile => by
      rw [StreamClient.exec]
      split_ifs with htimer
      · have hfired := htracks.fire htimer
        dsimp only
        split_ifs with hcan
        · exact Tracks.execAll (hfired.connectSocket hcan) meanwhile
        · exact hfired
      · exact htracks

theorem Tracks.execAll {s : StreamClient Target} (htracks : s.Tracks) : ∀ events, (s.execAll events).Tracks
  | [] => htracks
  | event :: rest => Tracks.execAll (htracks.exec event) rest

end

theorem tracks_run (events : List (ClientEvent Target)) : (execAll {} events).Tracks :=
  Tracks.execAll ⟨rfl, fun _ hmem => absurd hmem List.not_mem_nil, rfl⟩ events

/-- Whatever happens within calls and callbacks, a `disconnected` starts a timer exactly if the socket was
told to connect, no error was signalled since and no call to disconnect was under way, and the policy
allows it. -/
theorem reconnects_iff (events : List (ClientEvent Target)) : ∀ ending ∈ (execAll {} events).endings,
    ending.started = true ↔ ending.opened = true ∧ ending.announced = false ∧ ending.allowed = true := by
  intro ending hending
  rw [(tracks_run events).endings ending hending]
  simp [and_assoc]

/-- The server closes a web socket with a close frame, which is no error. -/
def cleanClose : List (ClientEvent String) :=
  [.connectToHost "ws://broker" [], .connected [], .disconnected []]

theorem reconnects_iff_cleanClose :
    Ending.mk true false true true ∈ (execAll {} cleanClose).endings ∧
      (true = true ↔ true = true ∧ false = false ∧ true = true) :=
  ⟨by decide, reconnects_iff cleanClose ⟨true, false, true, true⟩ (by decide)⟩

/-- A socket that, each time it was told to connect, signals an error before a `disconnected` that it was not
asked for, as `QTcpSocket` does, is never connected again: no timer is started, whatever the policy. -/
theorem never_reconnects (events : List (ClientEvent Target))
    (hannounced : ∀ ending ∈ (execAll {} events).endings,
      ending.opened = true → ending.announced = true) :
    (execAll {} events).timers = [] ∧ (execAll {} events).fired = 0 := by
  have htracks := tracks_run events
  have hnone : (execAll {} events).endings.countP Ending.started = 0 := by
    rw [List.countP_eq_zero]
    intro ending hending hstarted
    rw [htracks.endings ending hending, Bool.and_eq_true, Bool.and_eq_true] at hstarted
    obtain ⟨⟨hopened, hunannounced⟩, -⟩ := hstarted
    rw [hannounced ending hending hopened] at hunannounced
    cases hunannounced
  have hcounted := htracks.counted
  rw [hnone] at hcounted
  exact ⟨List.length_eq_zero_iff.mp (by omega), by omega⟩

/-- The server closes an established connection, and the socket says twice that it is disconnected. -/
def remoteClose : List (ClientEvent (String × UInt16)) :=
  [.connectToHost ("broker", 5000) [], .connected [], .errorOccurred [], .disconnected [], .disconnected []]

theorem never_reconnects_remoteClose :
    (execAll {} remoteClose).timers = [] ∧ (execAll {} remoteClose).fired = 0 :=
  never_reconnects remoteClose (by decide)

end StreamClient

end SoulCoreKit.Network
