import SoulCoreKit.Network.ConnectionManager

/-!
# An explicit disconnect is final

A single-shot timer cannot be taken back, so after `disconnect` the timers of every earlier loss may
still be pending, and fire in any order with poll ticks. What stops them is the state alone: a timer
asks for `Reconnecting`, a poll tick does nothing in `Disconnected`, and the one callback that asks for
no state, the heartbeat's, went with its heartbeat.
-/

namespace SoulCoreKit.Network

open ConnectionManager

/-- The connection under the name, if any, is disconnected and has no heartbeat. -/
def Slot.Quiet (slot : Slot) : Prop :=
  ∀ mc, slot.connection = some mc → mc.state = .disconnected ∧ mc.heartbeat = false

variable {slot : Slot}

theorem Slot.Quiet.state_eq (hquiet : slot.Quiet) : slot.state = .disconnected := by
  unfold Slot.state
  split
  · rfl
  case h_2 mc hconnection => exact (hquiet mc hconnection).1

theorem Slot.quiet_disconnect (slot : Slot) : slot.disconnect.Quiet := by
  unfold Slot.disconnect
  split
  case h_1 hnone =>
    intro mc hmc
    exact nomatch hnone.symm.trans hmc
  case h_2 mc hconnection =>
    intro found hfound
    obtain rfl := Option.some.inj hfound
    exact ⟨rfl, rfl⟩

theorem Slot.connectTos_disconnect (slot : Slot) : slot.disconnect.connectTos = slot.connectTos := by
  unfold Slot.disconnect
  split
  · rfl
  · rfl

/-! ### The callbacks that are left -/

theorem checkConnection_of_quiet (hquiet : slot.Quiet) (connected : Bool) :
    slot.checkConnection connected = slot := by
  unfold Slot.checkConnection
  split
  · rfl
  case h_2 mc hconnection =>
    rw [(hquiet mc hconnection).1]
    simp

theorem onHeartbeatTimeout_of_quiet (hquiet : slot.Quiet) : slot.onHeartbeatTimeout = slot := by
  unfold Slot.onHeartbeatTimeout
  split
  · rfl
  case h_2 mc hconnection =>
    rw [(hquiet mc hconnection).2]
    simp

theorem tryReconnect_of_quiet (hquiet : slot.Quiet) :
    slot.tryReconnect = { slot with timers := slot.timers - 1 } := by
  unfold Slot.tryReconnect
  split
  case isTrue hzero =>
    rw [hzero]
    exact congrArg (Slot.mk slot.connection · slot.connectTos) hzero
  · dsimp only
    split
    · rfl
    case h_2 mc hconnection =>
      have hstate : mc.state ≠ .reconnecting := by
        rw [(hquiet mc hconnection).1]
        nofun
      rw [if_pos hstate]

/-- The outcome of an attempt made before changes neither the state nor the heartbeat. -/
theorem quiet_attemptFailed (hquiet : slot.Quiet) :
    slot.attemptFailed.Quiet ∧ slot.attemptFailed.connectTos = slot.connectTos := by
  unfold Slot.attemptFailed
  split
  · exact ⟨hquiet, rfl⟩
  case h_2 mc hconnection =>
    split
    · exact ⟨hquiet, rfl⟩
    · refine ⟨?_, rfl⟩
      intro found hfound
      obtain rfl := Option.some.inj hfound
      exact hquiet mc hconnection

/-! ### Until the next connect -/

/-- The calls that may end what a disconnect brought about. -/
def Reopens : Event → Prop
  | .registerConnection _ _ => True
  | .connect => True
  | _ => False

theorem quiet_react (hquiet : slot.Quiet) {event : Event} (hevent : ¬ Reopens event) :
    (react slot event).Quiet ∧ (react slot event).connectTos = slot.connectTos := by
  cases event with
  | registerConnection hasNetwork config => exact absurd trivial hevent
  | unregisterConnection =>
      refine ⟨?_, rfl⟩
      intro mc hmc
      have hnone : none = some mc := hmc
      exact nomatch hnone
  | connect => exact absurd trivial hevent
  | disconnect => exact ⟨slot.quiet_disconnect, slot.connectTos_disconnect⟩
  | pollTick connected =>
      change (slot.checkConnection connected).Quiet ∧ (slot.checkConnection connected).connectTos = _
      rw [checkConnection_of_quiet hquiet]
      exact ⟨hquiet, rfl⟩
  | heartbeatTimeout =>
      change slot.onHeartbeatTimeout.Quiet ∧ slot.onHeartbeatTimeout.connectTos = _
      rw [onHeartbeatTimeout_of_quiet hquiet]
      exact ⟨hquiet, rfl⟩
  | reconnectTimer =>
      change slot.tryReconnect.Quiet ∧ slot.tryReconnect.connectTos = _
      rw [tryReconnect_of_quiet hquiet]
      exact ⟨hquiet, rfl⟩
  | attemptFailed => exact quiet_attemptFailed hquiet

section Runs

variable {Name : Type} [DecidableEq Name]

/-- `connect` or `registerConnection` for the name, or `connectAll`. -/
def ReopensName (name : Name) (label : ManagerEvent Name) : Prop :=
  ∃ event, eventFor name label = some event ∧ Reopens event

theorem quiet_run {slots : Name → Slot} {name : Name} (hquiet : (slots name).Quiet)
    {labels : List (ManagerEvent Name)} (hlabels : ∀ label ∈ labels, ¬ ReopensName name label) :
    (run step slots labels name).Quiet ∧
      (run step slots labels name).connectTos = (slots name).connectTos := by
  induction labels generalizing slots with
  | nil => exact ⟨hquiet, rfl⟩
  | cons label rest ih =>
      obtain ⟨hlabel, hrest⟩ := List.forall_mem_cons.mp hlabels
      have hnext : (step slots label name).Quiet ∧
          (step slots label name).connectTos = (slots name).connectTos := by
        rw [step_apply]
        cases heq : eventFor name label with
        | none => exact ⟨hquiet, rfl⟩
        | some event => exact quiet_react hquiet (fun hreopens => hlabel ⟨event, heq, hreopens⟩)
      obtain ⟨hend, hcalls⟩ := ih hnext.1 hrest
      exact ⟨hend, hcalls.trans hnext.2⟩

/-- From any state on, after a disconnect and until the next connect, the connection stays disconnected
and `connectTo` is not called, whatever happens under this name and under the others. -/
theorem disconnect_final (slots : Name → Slot) (name : Name) (labels : List (ManagerEvent Name))
    (hlabels : ∀ label ∈ labels, ¬ ReopensName name label) :
    (run step (step slots (.under name .disconnect)) labels name).state = .disconnected ∧
      (run step (step slots (.under name .disconnect)) labels name).connectTos =
        (slots name).connectTos := by
  have hstep : step slots (.under name .disconnect) name = (slots name).disconnect :=
    Function.update_self ..
  have hquiet : (step slots (.under name .disconnect) name).Quiet := by
    rw [hstep]
    exact (slots name).quiet_disconnect
  obtain ⟨hend, hcalls⟩ := quiet_run hquiet hlabels
  refine ⟨hend.state_eq, hcalls.trans ?_⟩
  rw [hstep, Slot.connectTos_disconnect]

end Runs

/-- Two connections lost, with the timers of both losses pending. -/
def lostTwice : List (ManagerEvent Unit) :=
  [.registerConnection true { enableHeartbeat := true }, .connect, .pollTick true, .pollTick false,
    .heartbeatTimeout].map (.under ())

/-- What is left over: both timers, a poll tick, a timeout, the failure of the attempt. -/
def leftovers : List (ManagerEvent Unit) :=
  [.reconnectTimer, .pollTick true, .heartbeatTimeout, .attemptFailed, .reconnectTimer].map (.under ())

theorem disconnect_final_leftovers :
    (run step start lostTwice ()).timers = 2 ∧
      (run step (step (run step start lostTwice) (.under () .disconnect)) leftovers ()).state =
        .disconnected ∧
      (run step (step (run step start lostTwice) (.under () .disconnect)) leftovers ()).connectTos =
        (run step start lostTwice ()).connectTos := by
  refine ⟨rfl, disconnect_final _ () leftovers ?_⟩
  intro label hlabel
  obtain ⟨event, hevent, rfl⟩ := List.mem_map.mp hlabel
  rintro ⟨found, hfound, hreopens⟩
  obtain rfl : event = found := Option.some.inj hfound
  simp only [List.mem_cons, List.not_mem_nil, or_false] at hevent
  obtain rfl | rfl | rfl | rfl | rfl := hevent <;> exact hreopens

end SoulCoreKit.Network
