import Mathlib.Algebra.Group.Nat.Defs
import SoulCoreKit.Lib.Run
import SoulCoreKit.Mq.RabbitMQConnection

/-!
# The pace of the attempts to reconnect

An attempt sets the count of looks back to zero. So where the interval is more than two seconds the
attempt comes two seconds after the look, every time, and the delay never doubles. Where it is less, each
look finds the attempt still waiting and puts it off, and there is never one.
-/

namespace SoulCoreKit.Mq

namespace RabbitMQConnection

/-! ### Slow heartbeats -/

/-- Every attempt comes two seconds after a look that found the connection lost, and there is an attempt,
or the application closes the connection, before the next such look. -/
def Paced : List ConnectionEvent → Prop
  | [] => True
  | .attempted time :: rest => (∃ seen ∈ rest.head?, ∃ lost, seen = .lost lost ∧ time = lost + 2000) ∧
      Paced rest
  | .lost _ :: rest => (∀ seen ∈ rest.head?, ∀ lost, seen ≠ .lost lost) ∧ Paced rest
  | .closed :: rest => Paced rest

/-- The application does not turn reconnecting off, and connects with heartbeat intervals above two
seconds whose milliseconds fit an `int`. -/
def Steady (_ : RabbitMQConnection) : ConnectionLabel → Prop
  | .connect config _ => 3 ≤ config.heartbeatInterval ∧ config.heartbeatInterval * 1000 < 2 ^ 31
  | .setReconnectEnabled enabled => enabled = true
  | _ => True

instance (c : RabbitMQConnection) : ∀ label, Decidable (c.Steady label)
  | .connect _ _ => inferInstanceAs (Decidable (_ ∧ _))
  | .setReconnectEnabled _ => inferInstanceAs (Decidable (_ = true))
  | .disconnect | .backendLost | .elapse _ | .heartbeatTimeout | .reconnectTimeout _ =>
      inferInstanceAs (Decidable True)

/-- An attempt waits for two seconds since the last look, and goes off before the next. -/
structure Waiting (c : RabbitMQConnection) (timer : QTimer) : Prop where
  ahead : c.now ≤ timer.due
  soon : timer.due ≤ c.now + 2000
  since : ∃ lost, c.events.head? = some (.lost lost) ∧ timer.due = lost + 2000
  before : ∃ heartbeat, c.mHeartbeatTimer = some heartbeat ∧ timer.due < heartbeat.due

/-- What holds in the middle of an attempt, too. -/
structure Base (c : RabbitMQConnection) : Prop where
  enabled : c.mReconnectEnabled = true
  config : 3 ≤ c.mConfig.heartbeatInterval
  heartbeat : ∀ timer ∈ c.mHeartbeatTimer, 3000 ≤ timer.interval ∧ c.now ≤ timer.due
  waiting : ∀ timer ∈ c.mReconnectTimer, c.Waiting timer
  answered : c.mReconnectTimer = none → ∀ lost, c.events.head? ≠ some (.lost lost)
  paced : Paced c.events

/-- Where no attempt waits, the next look will be the first. -/
structure Inv (c : RabbitMQConnection) : Prop extends c.Base where
  first : c.mReconnectTimer = none → c.mHeartbeatTimer.isSome = true → c.mReconnectAttempts = 0

variable {c : RabbitMQConnection}

/-- A heartbeat that is started again is later than any attempt that waits. -/
theorem Base.connect (hbase : c.Base) {config : ConnectionConfig} (hconfig : 3 ≤ config.heartbeatInterval)
    (outcome : ConnectOutcome) : (c.connect config outcome).2.Inv := by
  cases outcome with
  | noBackend | failed =>
      refine ⟨⟨hbase.enabled, hconfig, hbase.heartbeat, fun timer htimer => ?_, hbase.answered,
        hbase.paced⟩, fun _ _ => rfl⟩
      obtain ⟨hahead, hsoon, hsince, hbefore⟩ := hbase.waiting timer htimer
      exact ⟨hahead, hsoon, hsince, hbefore⟩
  | established =>
      have hinterval : 3000 ≤ config.heartbeatInterval * 1000 := by omega
      refine ⟨⟨hbase.enabled, hconfig, ?_, fun timer htimer => ?_, hbase.answered, hbase.paced⟩,
        fun _ _ => rfl⟩
      · intro timer htimer
        obtain rfl : _ = timer := Option.some.inj htimer
        exact ⟨hinterval, Nat.le_add_right _ _⟩
      · obtain ⟨hahead, hsoon, hsince, -⟩ := hbase.waiting timer htimer
        refine ⟨hahead, hsoon, hsince, _, rfl, ?_⟩
        exact Nat.lt_of_le_of_lt hsoon (Nat.add_lt_add_left (Nat.lt_of_lt_of_le (by decide) hinterval) _)

theorem Inv.disconnect (hinv : c.Inv) : c.disconnect.Inv where
  enabled := hinv.enabled
  config := hinv.config
  heartbeat timer htimer := by cases htimer
  waiting timer htimer := by cases htimer
  answered _ := by simp [RabbitMQConnection.disconnect]
  paced := hinv.paced
  first _ hsome := by cases hsome

theorem le_due_of_quietUntil {time : Nat} (hquiet : c.quietUntil time = true) {timer : QTimer}
    (htimer : timer ∈ c.mHeartbeatTimer ∨ timer ∈ c.mReconnectTimer) : time ≤ timer.due := by
  simp only [quietUntil, Bool.and_eq_true, Option.all_eq_true, decide_eq_true_eq] at hquiet
  rcases htimer with hheartbeat | hreconnect
  · exact hquiet.1 timer hheartbeat
  · exact hquiet.2 timer hreconnect

theorem Inv.elapse (hinv : c.Inv) {time : Nat} (hquiet : c.quietUntil (c.now + time) = true) :
    Inv { c with now := c.now + time } := by
  refine ⟨⟨hinv.enabled, hinv.config, fun timer htimer => ?_, fun timer htimer => ?_, hinv.answered,
    hinv.paced⟩, hinv.first⟩
  · exact ⟨(hinv.heartbeat timer htimer).1, le_due_of_quietUntil hquiet (Or.inl htimer)⟩
  · obtain ⟨-, hsoon, hsince, hbefore⟩ := hinv.waiting timer htimer
    refine ⟨le_due_of_quietUntil hquiet (Or.inr htimer), ?_, hsince, hbefore⟩
    exact Nat.le_trans hsoon (Nat.add_le_add_right (Nat.le_add_right _ _) _)

/-- When the heartbeat is due no attempt is waiting. -/
theorem Inv.not_waiting (hinv : c.Inv) {timer : QTimer} (htimer : c.mHeartbeatTimer = some timer)
    (hdue : timer.isDue c.now = true) : c.mReconnectTimer = none := by
  by_contra hsome
  obtain ⟨reconnect, hreconnect⟩ := Option.ne_none_iff_exists'.mp hsome
  obtain ⟨hahead, -, -, heartbeat, hheartbeat, hbefore⟩ := hinv.waiting reconnect hreconnect
  rw [htimer, Option.some.injEq] at hheartbeat
  subst hheartbeat
  simp only [QTimer.isDue, decide_eq_true_eq] at hdue
  omega

/-- The count of looks is zero, so the delay is two seconds. -/
theorem Inv.scheduleReconnect (hinv : c.Inv) {timer : QTimer} (htimer : c.mHeartbeatTimer = some timer)
    (hnone : c.mReconnectTimer = none) (hdue : c.now + 3000 ≤ timer.due) : c.scheduleReconnect.Inv := by
  have hdelay : reconnectDelay (c.mReconnectAttempts + 1) = 2000 := by
    rw [hinv.first hnone (by rw [htimer]; rfl)]
    rfl
  rw [RabbitMQConnection.scheduleReconnect, if_neg (not_not_intro hinv.enabled)]
  refine ⟨⟨hinv.enabled, hinv.config, hinv.heartbeat, fun reconnect hreconnect => ?_, ?_, ?_⟩, ?_⟩
  · obtain rfl : _ = reconnect := Option.some.inj hreconnect
    simp only [hdelay]
    refine ⟨Nat.le_add_right _ _, Nat.le_refl _, ⟨c.now, rfl, rfl⟩, timer, htimer, ?_⟩
    exact Nat.lt_of_lt_of_le (Nat.add_lt_add_left (by decide) _) hdue
  · intro hnever
    cases hnever
  · refine ⟨fun seen hseen lost heq => ?_, hinv.paced⟩
    exact hinv.answered hnone lost (heq ▸ hseen)
  · intro hnever
    cases hnever

theorem Inv.onHeartbeat (hinv : c.Inv) {timer : QTimer} (htimer : c.mHeartbeatTimer = some timer)
    (hnone : c.mReconnectTimer = none) (hdue : c.now + 3000 ≤ timer.due) : c.onHeartbeat.Inv := by
  rw [RabbitMQConnection.onHeartbeat]
  by_cases hconnected : c.isConnected = true
  · rw [if_neg (not_not_intro hconnected)]
    exact hinv
  · rw [if_pos hconnected]
    exact hinv.scheduleReconnect htimer hnone hdue

theorem Inv.heartbeatTimeout (hinv : c.Inv) {timer : QTimer} (htimer : c.mHeartbeatTimer = some timer)
    (hdue : timer.isDue c.now = true) :
    Inv { c with mHeartbeatTimer := some { timer with due := c.now + timer.interval } }.onHeartbeat := by
  have hinterval := (hinv.heartbeat timer htimer).1
  have hnone := hinv.not_waiting htimer hdue
  have hnext : Inv { c with mHeartbeatTimer := some { timer with due := c.now + timer.interval } } := by
    refine ⟨⟨hinv.enabled, hinv.config, ?_, fun reconnect hreconnect => ?_, hinv.answered, hinv.paced⟩, ?_⟩
    · rintro heartbeat ⟨⟩
      exact ⟨hinterval, Nat.le_add_right _ _⟩
    · rw [Option.mem_def, hnone] at hreconnect
      cases hreconnect
    · exact fun _ _ => hinv.first hnone (by rw [htimer]; rfl)
  exact hnext.onHeartbeat rfl hnone (Nat.add_le_add_left hinterval _)

theorem Inv.reconnectTimeout (hinv : c.Inv) {timer : QTimer} (htimer : c.mReconnectTimer = some timer)
    (hdue : timer.isDue c.now = true) (outcome : ConnectOutcome) : (c.onReconnectTimer outcome).Inv := by
  obtain ⟨hahead, -, ⟨lost, hlost, hsince⟩, -⟩ := hinv.waiting timer htimer
  simp only [QTimer.isDue, decide_eq_true_eq] at hdue
  rw [onReconnectTimer]
  dsimp only
  rw [if_pos hinv.enabled]
  refine Base.connect ?_ hinv.config outcome
  refine ⟨hinv.enabled, hinv.config, hinv.heartbeat, fun reconnect hreconnect => ?_, ?_, ?_⟩
  · cases hreconnect
  · simp
  · exact ⟨⟨_, hlost, lost, rfl, by omega⟩, hinv.paced⟩

theorem Inv.step (hinv : c.Inv) {label : ConnectionLabel} (hsteady : c.Steady label) :
    (c.step label).Inv := by
  cases label with
  | connect config outcome => exact hinv.toBase.connect hsteady.1 outcome
  | disconnect => exact hinv.disconnect
  | setReconnectEnabled enabled =>
      obtain rfl : enabled = true := hsteady
      refine ⟨⟨rfl, hinv.config, hinv.heartbeat, fun timer htimer => ?_, hinv.answered, hinv.paced⟩,
        hinv.first⟩
      obtain ⟨hahead, hsoon, hsince, hbefore⟩ := hinv.waiting timer htimer
      exact ⟨hahead, hsoon, hsince, hbefore⟩
  | backendLost =>
      refine ⟨⟨hinv.enabled, hinv.config, hinv.heartbeat, fun timer htimer => ?_, hinv.answered,
        hinv.paced⟩, hinv.first⟩
      obtain ⟨hahead, hsoon, hsince, hbefore⟩ := hinv.waiting timer htimer
      exact ⟨hahead, hsoon, hsince, hbefore⟩
  | elapse time =>
      rw [RabbitMQConnection.step]
      split_ifs with hquiet
      · exact hinv.elapse hquiet
      · exact hinv
  | heartbeatTimeout =>
      rw [RabbitMQConnection.step]
      cases htimer : c.mHeartbeatTimer with
      | none => exact hinv
      | some timer =>
          dsimp only
          split_ifs with hdue
          · exact hinv.heartbeatTimeout htimer hdue
          · exact hinv
  | reconnectTimeout outcome =>
      rw [RabbitMQConnection.step]
      cases htimer : c.mReconnectTimer with
      | none => exact hinv
      | some timer =>
          dsimp only
          split_ifs with hdue
          · exact hinv.reconnectTimeout htimer hdue outcome
          · exact hinv

/-- A look that nothing has followed yet is at most two seconds ago. -/
theorem Inv.le_of_lost (hinv : c.Inv) {lost : Nat} (hlost : c.events.head? = some (.lost lost)) :
    c.now ≤ lost + 2000 := by
  have hsome : c.mReconnectTimer ≠ none := fun hnone => hinv.answered hnone lost hlost
  obtain ⟨timer, htimer⟩ := Option.ne_none_iff_exists'.mp hsome
  obtain ⟨hahead, -, ⟨seen, hseen, hdue⟩, -⟩ := hinv.waiting timer htimer
  obtain rfl : seen = lost := by
    rw [hlost, Option.some.injEq, ConnectionEvent.lost.injEq] at hseen
    exact hseen.symm
  exact hdue ▸ hahead

/-- The connection is lost at once, and found lost after three seconds. -/
def threeSeconds : List ConnectionLabel :=
  [.connect ⟨3⟩ .established, .backendLost, .elapse 3000, .heartbeatTimeout, .elapse 2000,
    .reconnectTimeout .established]

/-- The application has no part in the step. -/
def Internal : ConnectionLabel → Bool
  | .connect _ _ | .disconnect | .setReconnectEnabled _ => false
  | .backendLost | .elapse _ | .heartbeatTimeout | .reconnectTimeout _ => true

/-- The next look comes before any attempt that waits; and none waits while there is a connection. -/
structure Starved (c : RabbitMQConnection) : Prop where
  enabled : c.mReconnectEnabled = true
  heartbeat : ∃ timer, c.mHeartbeatTimer = some timer ∧ timer.interval ≤ 1000 ∧ c.now ≤ timer.due ∧
    ∀ reconnect ∈ c.mReconnectTimer, timer.due < reconnect.due
  connected : c.isConnected = true → c.mReconnectTimer = none
  never : ∀ time, .attempted time ∉ c.events

theorem two_thousand_le_reconnectDelay (attempts : Nat) : 2000 ≤ reconnectDelay (attempts + 1) := by
  have hpow : 2 ^ 1 ≤ 2 ^ min (attempts + 1) 10 := Nat.pow_le_pow_right (by decide) (by omega)
  rw [reconnectDelay]
  omega

theorem Starved.connect {config : ConnectionConfig} (hconfig : config.heartbeatInterval ≤ 1) :
    (connect {} config .established).2.Starved where
  enabled := rfl
  heartbeat := by
    refine ⟨_, rfl, ?_, Nat.le_add_right _ _, by rintro reconnect ⟨⟩⟩
    exact Nat.mul_le_mul_right 1000 hconfig
  connected _ := rfl
  never time hmem := by cases hmem

theorem Starved.backendLost (hstarved : c.Starved) :
    Starved { c with mBackend := c.mBackend.map fun _ => false } := by
  refine ⟨hstarved.enabled, hstarved.heartbeat, fun hconnected => ?_, hstarved.never⟩
  simp [isConnected] at hconnected

theorem Starved.elapse (hstarved : c.Starved) {time : Nat} (hquiet : c.quietUntil (c.now + time) = true) :
    Starved { c with now := c.now + time } := by
  obtain ⟨timer, htimer, hinterval, -, hbefore⟩ := hstarved.heartbeat
  refine ⟨hstarved.enabled, ⟨timer, htimer, hinterval, ?_, hbefore⟩, hstarved.connected, hstarved.never⟩
  exact le_due_of_quietUntil hquiet (Or.inl htimer)

/-- Each look that finds the connection lost starts the wait again, and the delay is longer than the
interval. -/
theorem Starved.heartbeatTimeout (hstarved : c.Starved) {timer : QTimer}
    (htimer : c.mHeartbeatTimer = some timer) :
    Starved { c with mHeartbeatTimer := some { timer with due := c.now + timer.interval } }.onHeartbeat := by
  obtain ⟨heartbeat, hheartbeat, hinterval, -, -⟩ := hstarved.heartbeat
  obtain rfl : timer = heartbeat := Option.some.inj (htimer.symm.trans hheartbeat)
  by_cases hconnected : c.isConnected = true
  · have hnone := hstarved.connected hconnected
    have hkept : ¬ isConnected { c with
        mHeartbeatTimer := some { timer with due := c.now + timer.interval } } ≠ true :=
      not_not_intro hconnected
    rw [onHeartbeat, if_neg hkept]
    refine ⟨hstarved.enabled, ⟨_, rfl, hinterval, Nat.le_add_right _ _, ?_⟩, fun _ => hnone,
      hstarved.never⟩
    intro reconnect hreconnect
    rw [Option.mem_def, hnone] at hreconnect
    cases hreconnect
  · have hlost : isConnected { c with
        mHeartbeatTimer := some { timer with due := c.now + timer.interval } } ≠ true := hconnected
    rw [onHeartbeat, if_pos hlost, scheduleReconnect, if_neg (not_not_intro hstarved.enabled)]
    refine ⟨hstarved.enabled, ⟨_, rfl, hinterval, Nat.le_add_right _ _, ?_⟩,
      fun hagain => absurd hagain hconnected, ?_⟩
    · rintro reconnect ⟨⟩
      have hshort : timer.interval < 2000 := Nat.lt_of_le_of_lt hinterval (by decide)
      exact Nat.add_lt_add_left (Nat.lt_of_lt_of_le hshort (two_thousand_le_reconnectDelay _)) _
    · intro time hmem
      rcases List.mem_cons.mp hmem with hnew | hold
      · cases hnew
      · exact hstarved.never time hold

theorem Starved.step (hstarved : c.Starved) {label : ConnectionLabel} (hinternal : Internal label = true) :
    (c.step label).Starved := by
  cases label with
  | connect | disconnect | setReconnectEnabled => cases hinternal
  | backendLost => exact hstarved.backendLost
  | elapse time =>
      rw [RabbitMQConnection.step]
      split_ifs with hquiet
      · exact hstarved.elapse hquiet
      · exact hstarved
  | heartbeatTimeout =>
      rw [RabbitMQConnection.step]
      cases htimer : c.mHeartbeatTimer with
      | none => exact hstarved
      | some timer =>
          dsimp only
          split_ifs with hdue
          · exact hstarved.heartbeatTimeout htimer
          · exact hstarved
  | reconnectTimeout outcome =>
      rw [RabbitMQConnection.step]
      cases hreconnect : c.mReconnectTimer with
      | none => exact hstarved
      | some reconnect =>
          obtain ⟨timer, -, -, hnow, hbefore⟩ := hstarved.heartbeat
          have hlater := hbefore reconnect hreconnect
          have hnotdue : ¬ reconnect.isDue c.now = true := by
            rw [QTimer.isDue, decide_eq_true_eq]
            omega
          dsimp only
          rw [if_neg hnotdue]
          exact hstarved

/-- Three looks at a connection that is lost, a second apart. -/
def threeLooks : List ConnectionLabel :=
  .backendLost :: (List.replicate 3 [.elapse 1000, .heartbeatTimeout, .reconnectTimeout .established]).flatten

end RabbitMQConnection

end SoulCoreKit.Mq
