import Mathlib.Algebra.Order.Ring.Int
import SoulCoreKit.Network.ConnectionManager

/-!
# Whether the connection manager keeps trying

Only a poll tick that finds a connection lost and a heartbeat timeout schedule a reconnect, and both
ask for a state or for a heartbeat that a failed attempt does not bring about; and nothing resets the
count of retries when a reconnect succeeds. The runs in which the manager keeps trying are therefore
those without a successful reconnect, without a failed one while no other timer is pending, and without
a heartbeat timeout that finds the budget spent by anything but failed attempts.
-/

namespace SoulCoreKit.Network

variable {slot : Slot} {mc : ManagedConnection}

/-- What the manager promises of one connection. -/
structure KeepsTrying (slot : Slot) (mc : ManagedConnection) : Prop where
  reconnecting : mc.state = .reconnecting → 0 < slot.timers ∨ mc.lastFailed = false
  error : mc.state = .error → 0 < mc.config.maxRetries ∧ mc.config.maxRetries ≤ mc.failures
  connected : mc.state = .connected → mc.retryCount = 0

def Slot.KeepsTrying (slot : Slot) : Prop :=
  ∀ mc, slot.connection = some mc → Network.KeepsTrying slot mc

/-- What the count of retries says in the two states without a connection. -/
structure CountsRetries (mc : ManagedConnection) : Prop where
  connecting : mc.state = .connecting → mc.retryCount = 0
  reconnecting : mc.state = .reconnecting → 0 < mc.retryCount
  nonneg : 0 ≤ mc.retryCount

def Slot.CountsRetries (slot : Slot) : Prop :=
  ∀ mc, slot.connection = some mc → Network.CountsRetries mc

/-! ### Losing a connection -/

theorem Slot.lose_cases (slot : Slot) (mc : ManagedConnection) :
    (mc.config.autoReconnect = false ∧
        slot.lose mc = { slot with connection := some (mc.setState .disconnected) }) ∨
      (mc.config.autoReconnect = true ∧ mc.exhausted = true ∧
        slot.lose mc = { slot with connection := some (mc.setState .error) }) ∨
      (mc.config.autoReconnect = true ∧ mc.exhausted = false ∧
        slot.lose mc =
          { slot with
            connection := some { mc.setState .reconnecting with retryCount := mc.retryCount + 1 }
            timers := slot.timers + 1 }) := by
  have hstate : (mc.setState .disconnected).exhausted = mc.exhausted := rfl
  unfold Slot.lose Slot.scheduleReconnect
  dsimp only
  rw [hstate]
  cases hauto : mc.config.autoReconnect with
  | false => exact Or.inl ⟨rfl, by simp [ManagedConnection.setState, hauto]⟩
  | true =>
      right
      cases hexhausted : mc.exhausted with
      | true => exact Or.inl ⟨rfl, rfl, by simp [ManagedConnection.setState, hauto]⟩
      | false => exact Or.inr ⟨rfl, rfl, by simp [ManagedConnection.setState, hauto]⟩

theorem exhausted_iff :
    mc.exhausted = true ↔ 0 < mc.config.maxRetries ∧ mc.config.maxRetries ≤ mc.retryCount := by
  unfold ManagedConnection.exhausted
  simp

theorem not_exhausted_of_zero (hzero : mc.retryCount = 0) : mc.exhausted = false := by
  rw [← Bool.not_eq_true, exhausted_iff]
  omega

theorem Slot.countsRetries_some {connection : ManagedConnection} (hcounts : Network.CountsRetries connection)
    (timers connectTos : Nat) : Slot.CountsRetries ⟨some connection, timers, connectTos⟩ := by
  intro mc hmc
  rwa [← Option.some.inj hmc]

theorem Slot.keepsTrying_some_iff {connection : ManagedConnection} {timers connectTos : Nat} :
    Slot.KeepsTrying ⟨some connection, timers, connectTos⟩ ↔
      Network.KeepsTrying ⟨some connection, timers, connectTos⟩ connection := by
  constructor
  · intro hkeeps
    exact hkeeps connection rfl
  · intro hkeeps mc hmc
    rwa [← Option.some.inj hmc]

/-- The budget is used up only by failed attempts. -/
def BudgetFailed (mc : ManagedConnection) : Prop :=
  mc.config.autoReconnect = true → mc.exhausted = true → mc.config.maxRetries ≤ mc.failures

theorem countsRetries_lose (hcounts : CountsRetries mc) : (slot.lose mc).CountsRetries := by
  have hnonneg := hcounts.nonneg
  obtain ⟨-, heq⟩ | ⟨-, -, heq⟩ | ⟨-, -, heq⟩ := slot.lose_cases mc
  · rw [heq]
    apply Slot.countsRetries_some
    exact ⟨nofun, nofun, hnonneg⟩
  · rw [heq]
    apply Slot.countsRetries_some
    exact ⟨nofun, nofun, hnonneg⟩
  · rw [heq]
    apply Slot.countsRetries_some
    refine ⟨nofun, fun _ => ?_, ?_⟩
    · change 0 < mc.retryCount + 1
      omega
    · change 0 ≤ mc.retryCount + 1
      omega

/-- A lost connection is tried again, unless the budget was used up by something else than failed
attempts. -/
theorem keepsTrying_lose_iff : (slot.lose mc).KeepsTrying ↔ BudgetFailed mc := by
  unfold BudgetFailed
  obtain ⟨hauto, heq⟩ | ⟨hauto, hexhausted, heq⟩ | ⟨hauto, hexhausted, heq⟩ := slot.lose_cases mc
  · rw [heq, Slot.keepsTrying_some_iff]
    exact iff_of_true ⟨nofun, nofun, nofun⟩
      (fun h => absurd (hauto.symm.trans h) (by simp))
  · rw [heq, Slot.keepsTrying_some_iff]
    constructor
    · intro hkeeps _ _
      exact (hkeeps.error rfl).2
    · intro hbudget
      exact ⟨nofun, fun _ => ⟨(exhausted_iff.mp hexhausted).1, hbudget hauto hexhausted⟩,
        nofun⟩
  · rw [heq, Slot.keepsTrying_some_iff]
    refine iff_of_true ⟨fun _ => Or.inl (Nat.succ_pos _), nofun, nofun⟩ ?_
    intro _ h
    exact absurd (hexhausted.symm.trans h) (by simp)

/-! ### One event -/

open ConnectionManager

theorem countsRetries_checkConnection (hcounts : slot.CountsRetries) (connected : Bool) :
    (slot.checkConnection connected).CountsRetries := by
  unfold Slot.checkConnection
  split
  · exact hcounts
  case h_2 mc hconnection =>
    have hmc := hcounts mc hconnection
    have hconnected : Network.CountsRetries mc.setConnected := ⟨nofun, nofun, hmc.nonneg⟩
    split
    · exact hcounts
    · split
      · split
        · exact Slot.countsRetries_some hconnected _ _
        · exact hcounts
      · split
        · exact countsRetries_lose hmc
        · exact hcounts
      · split
        · exact Slot.countsRetries_some hconnected _ _
        · exact hcounts
      · exact hcounts

theorem countsRetries_tryReconnect (hcounts : slot.CountsRetries) : slot.tryReconnect.CountsRetries := by
  unfold Slot.tryReconnect
  split
  · exact hcounts
  · dsimp only
    split
    · exact hcounts
    case h_2 mc hconnection =>
      have hmc := hcounts mc hconnection
      split
      · exact hcounts
      · apply Slot.countsRetries_some
        exact ⟨hmc.connecting, hmc.reconnecting, hmc.nonneg⟩

theorem countsRetries_react (hcounts : slot.CountsRetries) (event : Event) :
    (react slot event).CountsRetries := by
  cases event with
  | registerConnection hasNetwork config =>
      cases hasNetwork with
      | false => exact hcounts
      | true =>
          apply Slot.countsRetries_some
          exact ⟨nofun, nofun, le_rfl⟩
  | unregisterConnection =>
      intro mc hmc
      have hnone : none = some mc := hmc
      exact nomatch hnone
  | connect =>
      change slot.connect.CountsRetries
      unfold Slot.connect
      split
      · exact hcounts
      · split
        · exact hcounts
        · apply Slot.countsRetries_some
          exact ⟨fun _ => rfl, nofun, le_rfl⟩
  | disconnect =>
      change slot.disconnect.CountsRetries
      unfold Slot.disconnect
      split
      · exact hcounts
      · apply Slot.countsRetries_some
        exact ⟨nofun, nofun, le_rfl⟩
  | pollTick connected => exact countsRetries_checkConnection hcounts connected
  | heartbeatTimeout =>
      change slot.onHeartbeatTimeout.CountsRetries
      unfold Slot.onHeartbeatTimeout
      split
      · exact hcounts
      case h_2 mc hconnection =>
        have hmc := hcounts mc hconnection
        split
        · exact hcounts
        · exact countsRetries_lose ⟨hmc.connecting, hmc.reconnecting, hmc.nonneg⟩
  | reconnectTimer => exact countsRetries_tryReconnect hcounts
  | attemptFailed =>
      change slot.attemptFailed.CountsRetries
      unfold Slot.attemptFailed
      split
      · exact hcounts
      case h_2 mc hconnection =>
        have hmc := hcounts mc hconnection
        split
        · exact hcounts
        · apply Slot.countsRetries_some
          exact ⟨hmc.connecting, hmc.reconnecting, hmc.nonneg⟩

/-- The events that keep the promise: no poll tick finds a connection connected that is `Reconnecting`,
no heartbeat timeout finds the budget used up by anything but failed attempts, and no attempt fails in
`Reconnecting` while no timer is pending. -/
def Proper (slot : Slot) : Event → Prop
  | .pollTick connected => ∀ mc, slot.connection = some mc → mc.pollTimer = true →
      mc.state = .reconnecting → connected = false
  | .heartbeatTimeout => ∀ mc, slot.connection = some mc → mc.heartbeat = true → BudgetFailed mc
  | .attemptFailed => ∀ mc, slot.connection = some mc → mc.attempt ≠ none →
      mc.state = .reconnecting → 0 < slot.timers
  | _ => True

theorem forall_connection_iff (hconnection : slot.connection = some mc) {P : ManagedConnection → Prop} :
    (∀ found, slot.connection = some found → P found) ↔ P mc := by
  rw [hconnection]
  simp

theorem keepsTrying_pollTick_iff (hcounts : slot.CountsRetries) (hkeeps : slot.KeepsTrying)
    (connected : Bool) :
    (slot.checkConnection connected).KeepsTrying ↔ Proper slot (.pollTick connected) := by
  unfold Proper Slot.checkConnection
  split
  case h_1 hconnection => exact iff_of_true hkeeps (fun mc hmc => nomatch hconnection.symm.trans hmc)
  case h_2 mc hconnection =>
    have hmc := hkeeps mc hconnection
    have hretries := hcounts mc hconnection
    refine Iff.trans ?_ (forall_connection_iff hconnection).symm
    split
    case isTrue hstopped =>
      exact iff_of_true hkeeps (fun hpolling => absurd hpolling hstopped)
    case isFalse hpolling =>
      rw [not_not] at hpolling
      split
      case h_1 hstate =>
        have hzero := hretries.connecting hstate
        refine iff_of_true ?_ (fun _ h => nomatch hstate.symm.trans h)
        split
        · rw [Slot.keepsTrying_some_iff]
          exact ⟨nofun, nofun, fun _ => hzero⟩
        · exact hkeeps
      case h_2 hstate =>
        have hzero := not_exhausted_of_zero (hmc.connected hstate)
        refine iff_of_true ?_ (fun _ h => nomatch hstate.symm.trans h)
        split
        · rw [keepsTrying_lose_iff]
          exact fun _ h => nomatch hzero.symm.trans h
        · exact hkeeps
      case h_3 hstate =>
        have hpositive := hretries.reconnecting hstate
        cases connected with
        | false => exact iff_of_true hkeeps (fun _ _ => rfl)
        | true =>
            rw [if_pos rfl, Slot.keepsTrying_some_iff]
            refine iff_of_false ?_ (fun h => nomatch h hpolling hstate)
            intro hafter
            have hzero : mc.retryCount = 0 := hafter.connected rfl
            omega
      case h_4 hother =>
        exact iff_of_true hkeeps (fun _ h => absurd h hother)

theorem keepsTrying_heartbeatTimeout_iff (hkeeps : slot.KeepsTrying) :
    slot.onHeartbeatTimeout.KeepsTrying ↔ Proper slot .heartbeatTimeout := by
  unfold Proper Slot.onHeartbeatTimeout
  split
  case h_1 hconnection => exact iff_of_true hkeeps (fun mc hmc => nomatch hconnection.symm.trans hmc)
  case h_2 mc hconnection =>
    refine Iff.trans ?_ (forall_connection_iff hconnection).symm
    split
    case isTrue hstopped => exact iff_of_true hkeeps (fun hbeating => absurd hbeating hstopped)
    case isFalse hbeating =>
      rw [not_not] at hbeating
      rw [keepsTrying_lose_iff]
      constructor
      · intro hbudget _
        exact hbudget
      · intro hbudget
        exact hbudget hbeating

theorem keepsTrying_attemptFailed_iff (hkeeps : slot.KeepsTrying) :
    slot.attemptFailed.KeepsTrying ↔ Proper slot .attemptFailed := by
  unfold Proper Slot.attemptFailed
  split
  case h_1 hconnection => exact iff_of_true hkeeps (fun mc hmc => nomatch hconnection.symm.trans hmc)
  case h_2 mc hconnection =>
    have hmc := hkeeps mc hconnection
    refine Iff.trans ?_ (forall_connection_iff hconnection).symm
    split
    case h_1 hnone => exact iff_of_true hkeeps (fun hsome => absurd hnone hsome)
    case h_2 attempt hsome =>
      rw [Slot.keepsTrying_some_iff]
      constructor
      · intro hafter _ hstate
        exact (hafter.reconnecting hstate).resolve_right nofun
      · intro hpending
        refine ⟨?_, ?_, hmc.connected⟩
        · intro hstate
          exact Or.inl (hpending (by rw [hsome]; nofun) hstate)
        · intro hstate
          obtain ⟨hpositive, hfailures⟩ := hmc.error hstate
          refine ⟨hpositive, ?_⟩
          dsimp only
          split
          · push_cast
            omega
          · exact hfailures

theorem keepsTrying_tryReconnect (hkeeps : slot.KeepsTrying) : slot.tryReconnect.KeepsTrying := by
  unfold Slot.tryReconnect
  split
  · exact hkeeps
  · dsimp only
    split
    case h_1 hconnection => exact fun mc hmc => nomatch hconnection.symm.trans hmc
    case h_2 mc hconnection =>
      have hmc := hkeeps mc hconnection
      split
      case isTrue hstate =>
        intro found hfound
        obtain rfl := Option.some.inj (hconnection.symm.trans hfound)
        exact ⟨fun h => absurd h hstate, hmc.error, hmc.connected⟩
      case isFalse hstate =>
        rw [Slot.keepsTrying_some_iff]
        exact ⟨fun _ => Or.inr rfl, hmc.error, hmc.connected⟩

theorem keepsTrying_react_iff (hcounts : slot.CountsRetries) (hkeeps : slot.KeepsTrying) (event : Event) :
    (react slot event).KeepsTrying ↔ Proper slot event := by
  cases event with
  | registerConnection hasNetwork config =>
      refine iff_of_true ?_ trivial
      cases hasNetwork with
      | false => exact hkeeps
      | true => exact Slot.keepsTrying_some_iff.mpr ⟨nofun, nofun, nofun⟩
  | unregisterConnection =>
      refine iff_of_true ?_ trivial
      intro mc hmc
      have hnone : none = some mc := hmc
      exact nomatch hnone
  | connect =>
      refine iff_of_true ?_ trivial
      change slot.connect.KeepsTrying
      unfold Slot.connect
      split
      · exact hkeeps
      · split
        · exact hkeeps
        · exact Slot.keepsTrying_some_iff.mpr ⟨nofun, nofun, nofun⟩
  | disconnect =>
      refine iff_of_true ?_ trivial
      change slot.disconnect.KeepsTrying
      unfold Slot.disconnect
      split
      · exact hkeeps
      · exact Slot.keepsTrying_some_iff.mpr ⟨nofun, nofun, nofun⟩
  | pollTick connected => exact keepsTrying_pollTick_iff hcounts hkeeps connected
  | heartbeatTimeout => exact keepsTrying_heartbeatTimeout_iff hkeeps
  | reconnectTimer => exact iff_of_true (keepsTrying_tryReconnect hkeeps) trivial
  | attemptFailed => exact keepsTrying_attemptFailed_iff hkeeps

/-! ### Whole runs -/

section Runs

variable {Name : Type} [DecidableEq Name] {slots : Name → Slot}

theorem countsRetries_step (hcounts : ∀ name, (slots name).CountsRetries) (label : ManagerEvent Name) :
    ∀ name, (step slots label name).CountsRetries := by
  intro name
  rw [step_apply]
  cases eventFor name label with
  | none => exact hcounts name
  | some event => exact countsRetries_react (hcounts name) event

def ProperStep (slots : Name → Slot) (label : ManagerEvent Name) : Prop :=
  ∀ name event, eventFor name label = some event → Proper (slots name) event

theorem keepsTrying_step_iff (hcounts : ∀ name, (slots name).CountsRetries)
    (hkeeps : ∀ name, (slots name).KeepsTrying) (label : ManagerEvent Name) :
    (∀ name, (step slots label name).KeepsTrying) ↔ ProperStep slots label := by
  apply forall_congr'
  intro name
  rw [step_apply]
  cases heq : eventFor name label with
  | none => exact iff_of_true (hkeeps name) nofun
  | some event =>
      refine (keepsTrying_react_iff (hcounts name) (hkeeps name) event).trans ?_
      constructor
      · intro hproper other hother
        exact Option.some.inj hother ▸ hproper
      · intro hproper
        exact hproper event rfl

/-- The manager keeps trying under every name all along a run exactly if every event of the run is
proper. -/
theorem keepsTrying_always_iff_proper (labels : List (ManagerEvent Name)) :
    (∀ n name, (run step start (labels.take n) name).KeepsTrying) ↔
      Along step ProperStep start labels := by
  have hany : Along step (fun _ _ => True) (start : Name → Slot) labels :=
    Along.of_forall (fun _ _ => trivial) labels
  refine always_iff_along (I := fun slots => ∀ name, (slots name).CountsRetries)
    (P := fun slots => ∀ name, (slots name).KeepsTrying) hany ?_ ?_ ?_ ?_
  · intro name mc hnone
    exact nomatch hnone
  · intro name mc hnone
    exact nomatch hnone
  · intro slots label hcounts _
    exact countsRetries_step hcounts label
  · intro slots label hcounts _ hkeeps
    exact keepsTrying_step_iff hcounts hkeeps label

/-- A connection that is established, lost, and not established again by the one attempt that
follows. -/
def abandonedRun : List (ManagerEvent Unit) :=
  [.registerConnection true {}, .connect, .pollTick true, .pollTick false, .reconnectTimer,
    .attemptFailed].map (.under ())

/-- The connection is `Reconnecting`, its last attempt failed, and nothing will start another. -/
theorem failed_reconnect_abandoned :
    ¬ ∀ n name, (run step start (abandonedRun.take n) name).KeepsTrying := by
  intro hkeeps
  have hlast := (hkeeps 6 () _ rfl).reconnecting rfl
  exact hlast.elim (fun hpending => nomatch hpending) (fun hopen => nomatch hopen)

end Runs

end SoulCoreKit.Network
