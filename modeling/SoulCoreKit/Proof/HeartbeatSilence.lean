import SoulCoreKit.Lib.Run
import SoulCoreKit.Network.Policy

/-!
# What the heartbeat detects

One timer waits for the answer to the latest message, and sending starts it again. If it is not shorter
than the interval it never goes off while messages are sent; and it is started also where no message
goes out. Where it is shorter and there is a message, the timer is stopped or has gone off before the
next message, and it waits for one.
-/

namespace SoulCoreKit.Network

/-- When the messages were sent after which there was no response and no stop. -/
def unanswered : List HeartbeatEvent → List Nat
  | [] => []
  | .sent time :: rest => time :: unanswered rest
  | .timedOut _ :: rest => unanswered rest
  | .responded :: _ => []
  | .stopped :: _ => []

/-- When the messages were sent after which there was no timeout either. -/
def unreported : List HeartbeatEvent → List Nat
  | [] => []
  | .sent time :: rest => time :: unreported rest
  | .timedOut _ :: _ => []
  | .responded :: _ => []
  | .stopped :: _ => []

/-- Every timeout comes at least `timeout` after a message that is not answered. -/
def Justified (timeout : Nat) : List HeartbeatEvent → Prop
  | [] => True
  | .timedOut time :: rest =>
      (∃ sent ∈ unanswered rest, sent + timeout ≤ time) ∧ Justified timeout rest
  | .sent _ :: rest => Justified timeout rest
  | .responded :: rest => Justified timeout rest
  | .stopped :: rest => Justified timeout rest

namespace Heartbeat

/-- While the policy is started, a message sent more than the timeout ago is answered or reported; and
nothing else is reported. -/
structure Detects (s : Heartbeat) : Prop where
  reported : s.policy.mTimer.isSome → ∀ sent ∈ unreported s.events, s.now ≤ sent + s.policy.mTimeout
  justified : Justified s.policy.mTimeout s.events

/-- The timers are not overdue. The timeout timer waits for the earliest message that is not reported
and for some message that is not answered, and the next message is sent an interval after those. -/
structure Waiting (interval timeout : Nat) (s : Heartbeat) : Prop where
  interval_eq : s.policy.mInterval = interval
  timeout_eq : s.policy.mTimeout = timeout
  api : s.policy.api.isEmpty = false
  past : ∀ sent ∈ unreported s.events, sent ≤ s.now
  timer : ∀ time ∈ s.policy.mTimer, s.now ≤ time ∧ ∀ sent ∈ unreported s.events, sent + interval ≤ time
  running : unreported s.events ≠ [] → s.policy.mTimeoutTimer.isSome
  timeoutTimer : ∀ time ∈ s.policy.mTimeoutTimer, s.now ≤ time ∧
    (∀ sent ∈ unreported s.events, time ≤ sent + timeout) ∧
      ∃ sent ∈ unanswered s.events, sent + timeout ≤ time
  justified : Justified timeout s.events

variable {interval timeout : Nat} {s : Heartbeat}

theorem Waiting.detects (hwaiting : Waiting interval timeout s) : Detects s := by
  refine ⟨?_, hwaiting.timeout_eq ▸ hwaiting.justified⟩
  intro _ sent hsent
  obtain ⟨time, htime⟩ := Option.isSome_iff_exists.mp
    (hwaiting.running (List.ne_nil_of_mem hsent))
  obtain ⟨hnow, hearliest, -⟩ := hwaiting.timeoutTimer time htime
  rw [hwaiting.timeout_eq]
  exact Nat.le_trans hnow (hearliest sent hsent)

theorem isDue_iff {timer : Option Nat} {now : Nat} :
    isDue timer now = true ↔ ∃ time ∈ timer, time ≤ now := by
  simp [isDue, Option.any_eq_true]

/-! ### What a beat does -/

theorem beat_of_lost (hnetwork : s.policy.network = false) :
    s.beat = { s with policy.mTimer := s.policy.mTimer.map (· + s.policy.mInterval) } := by
  unfold beat HeartbeatPolicy.sendHeartbeat
  simp [hnetwork]

theorem beat_of_live (hnetwork : s.policy.network = true) (hapi : s.policy.api.isEmpty = false) :
    s.beat =
      { s with
        policy.mTimer := s.policy.mTimer.map (· + s.policy.mInterval)
        policy.mTimeoutTimer := some (s.now + s.policy.mTimeout)
        pending := s.pending + 1
        events := .sent s.now :: s.events } := by
  unfold beat HeartbeatPolicy.sendHeartbeat
  simp [hnetwork, hapi]

/-- Without a message the timeout timer is started all the same. -/
theorem beat_of_silent (hnetwork : s.policy.network = true) (hapi : s.policy.api.isEmpty = true) :
    s.beat =
      { s with
        policy.mTimer := s.policy.mTimer.map (· + s.policy.mInterval)
        policy.mTimeoutTimer := some (s.now + s.policy.mTimeout) } := by
  unfold beat HeartbeatPolicy.sendHeartbeat
  simp [hnetwork, hapi]

/-! ### Steps -/

/-- When a message is sent, every earlier one is answered or reported. -/
theorem Waiting.unreported_of_due (hwaiting : Waiting interval timeout s) (hlt : timeout < interval)
    (hdue : isDue s.policy.mTimer s.now = true) : unreported s.events = [] := by
  by_contra hsome
  obtain ⟨sent, hsent⟩ := List.exists_mem_of_ne_nil _ hsome
  obtain ⟨time, htime, hle⟩ := isDue_iff.mp hdue
  obtain ⟨waits, hwaits⟩ := Option.isSome_iff_exists.mp (hwaiting.running hsome)
  have hnext := (hwaiting.timer time htime).2 sent hsent
  have hnow := (hwaiting.timeoutTimer waits hwaits).1
  have hearliest := (hwaiting.timeoutTimer waits hwaits).2.1 sent hsent
  omega

theorem Waiting.beat (hwaiting : Waiting interval timeout s) (hlt : timeout < interval)
    (hdue : isDue s.policy.mTimer s.now = true) : Waiting interval timeout s.beat := by
  have hnone := hwaiting.unreported_of_due hlt hdue
  obtain ⟨time, htime, hle⟩ := isDue_iff.mp hdue
  have hnow : s.now ≤ time := (hwaiting.timer time htime).1
  have hmoved {next : Nat} (hnext : next ∈ s.policy.mTimer.map (· + s.policy.mInterval)) :
      next = s.now + interval := by
    rw [Option.mem_def.mp htime, Option.map_some, hwaiting.interval_eq] at hnext
    have hsum := Option.some.inj hnext
    omega
  cases hnetwork : s.policy.network with
  | false =>
      rw [beat_of_lost hnetwork]
      refine { hwaiting with timer := ?_ }
      intro next hnext
      obtain rfl := hmoved hnext
      refine ⟨Nat.le_add_right _ _, ?_⟩
      intro sent hsent
      change sent ∈ unreported s.events at hsent
      rw [hnone] at hsent
      exact absurd hsent List.not_mem_nil
  | true =>
      rw [beat_of_live hnetwork hwaiting.api]
      have honly {sent : Nat} (hsent : sent ∈ unreported (.sent s.now :: s.events)) : sent = s.now := by
        rwa [unreported, hnone, List.mem_singleton] at hsent
      refine { hwaiting with
        past := fun sent hsent => Nat.le_of_eq (honly hsent)
        timer := ?_
        running := fun _ => rfl
        timeoutTimer := ?_ }
      · intro next hnext
        obtain rfl := hmoved hnext
        refine ⟨Nat.le_add_right _ _, ?_⟩
        intro sent hsent
        exact Nat.le_of_eq (congrArg (· + interval) (honly hsent))
      · intro waits hwaits
        obtain rfl := Option.some.inj hwaits
        rw [hwaiting.timeout_eq]
        refine ⟨Nat.le_add_right _ _, ?_, s.now, List.mem_cons_self, Nat.le_refl _⟩
        intro sent hsent
        exact Nat.le_of_eq (congrArg (· + timeout) (honly hsent).symm)

theorem Waiting.timeoutFires (hwaiting : Waiting interval timeout s)
    (hdue : isDue s.policy.mTimeoutTimer s.now = true) :
    Waiting interval timeout (s.step .timeoutFires) := by
  obtain ⟨time, htime, hle⟩ := isDue_iff.mp hdue
  obtain ⟨hnow, -, sent, hsent, hlate⟩ := hwaiting.timeoutTimer time htime
  rw [step, if_pos hdue]
  refine { hwaiting with
    past := fun _ hsent => absurd hsent List.not_mem_nil
    timer := ?_
    running := fun hsome => absurd rfl hsome
    timeoutTimer := ?_
    justified := ⟨⟨sent, hsent, by omega⟩, hwaiting.justified⟩ }
  · intro next hnext
    exact ⟨(hwaiting.timer next hnext).1, fun other hother => absurd hother List.not_mem_nil⟩
  · intro next hnext
    have hmoved : time + s.policy.mTimeout = next := by
      have hmap : s.policy.mTimeoutTimer.map (· + s.policy.mTimeout) = some next := hnext
      rw [Option.mem_def.mp htime, Option.map_some] at hmap
      exact Option.some.inj hmap
    exact ⟨by simp only; omega, fun other hother => absurd hother List.not_mem_nil, sent, hsent, by omega⟩

theorem Waiting.tick (hwaiting : Waiting interval timeout s) :
    Waiting interval timeout (s.step .tick) := by
  rw [step]
  split
  · exact hwaiting
  · rename_i hnone
    rw [Bool.or_eq_true, not_or, isDue_iff, isDue_iff] at hnone
    refine { hwaiting with
      past := fun sent hsent => Nat.le_succ_of_le (hwaiting.past sent hsent)
      timer := ?_
      timeoutTimer := ?_ }
    · intro next hnext
      have hlater : ¬ next ≤ s.now := fun hle => hnone.1 ⟨next, hnext, hle⟩
      exact ⟨by simp only; omega, (hwaiting.timer next hnext).2⟩
    · intro waits hwaits
      have hlater : ¬ waits ≤ s.now := fun hle => hnone.2 ⟨waits, hwaits, hle⟩
      exact ⟨by simp only; omega, (hwaiting.timeoutTimer waits hwaits).2⟩

theorem waiting_step (hlt : timeout < interval) (s : Heartbeat) (label : HeartbeatLabel)
    (hwaiting : Waiting interval timeout s) : Waiting interval timeout (s.step label) := by
  cases label with
  | start network =>
      refine { hwaiting with timer := ?_ }
      intro next hnext
      have hstarted : s.now + s.policy.mInterval = next := Option.some.inj hnext
      rw [hwaiting.interval_eq] at hstarted
      refine ⟨by simp only [step]; omega, ?_⟩
      intro sent hsent
      have hpast := hwaiting.past sent hsent
      omega
  | stop =>
      exact { hwaiting with
        past := fun _ hsent => absurd hsent List.not_mem_nil
        timer := fun time hnone => absurd hnone (Option.not_mem_none time)
        running := fun hsome => absurd rfl hsome
        timeoutTimer := fun time hnone => absurd hnone (Option.not_mem_none time) }
  | tick => exact hwaiting.tick
  | timerFires =>
      rw [step]
      split
      · rename_i hdue
        exact hwaiting.beat hlt hdue
      · exact hwaiting
  | timeoutFires =>
      by_cases hdue : isDue s.policy.mTimeoutTimer s.now = true
      · exact hwaiting.timeoutFires hdue
      · rw [step, if_neg hdue]
        exact hwaiting
  | responds =>
      rw [step]
      split
      · refine { hwaiting with
          past := fun _ hsent => absurd hsent List.not_mem_nil
          timer := ?_
          running := fun hsome => absurd rfl hsome
          timeoutTimer := fun time hnone => absurd hnone (Option.not_mem_none time) }
        intro next hnext
        exact ⟨(hwaiting.timer next hnext).1, fun other hother => absurd hother List.not_mem_nil⟩
      · exact hwaiting
  | networkLost =>
      exact { hwaiting with }

/-! ### Runs -/

/-- A policy as it is constructed and given a message. -/
def start (interval timeout : Nat) (api : String) : Heartbeat :=
  { policy := { mInterval := interval, mTimeout := timeout, api } }

theorem waiting_start {api : String} (hapi : api.isEmpty = false) :
    Waiting interval timeout (start interval timeout api) :=
  ⟨rfl, rfl, hapi, fun _ hsent => absurd hsent List.not_mem_nil,
    fun time hnone => absurd hnone (Option.not_mem_none time), fun hsome => absurd rfl hsome,
    fun time hnone => absurd hnone (Option.not_mem_none time), trivial⟩

/-- So many milliseconds, at each of which the interval timer goes off if it is due. -/
def clockwork : Nat → List HeartbeatLabel
  | 0 => []
  | n + 1 => clockwork n ++ [.timerFires, .tick]

theorem clockwork_induction {P : Nat → Heartbeat → Prop} {n : Nat} (hstart : P 0 s)
    (hstep : ∀ k < n, ∀ state, P k state → P (k + 1) ((state.step .timerFires).step .tick)) :
    P n (run step s (clockwork n)) := by
  induction n with
  | zero => exact hstart
  | succ n ih =>
      rw [clockwork, run_append]
      exact hstep n (Nat.lt_succ_self n) _ (ih fun k hk => hstep k (Nat.lt_succ_of_lt hk))

theorem isDue_some (time now : Nat) : isDue (some time) now = decide (time ≤ now) := rfl

theorem tick_of_not_due (htimer : isDue s.policy.mTimer s.now = false)
    (htimeoutTimer : isDue s.policy.mTimeoutTimer s.now = false) :
    s.step .tick = { s with now := s.now + 1 } := by
  rw [step, htimer, htimeoutTimer]
  rfl

/-- The policy has been started, and the first message is due. -/
def firstDue (interval timeout : Nat) (api : String) : Heartbeat :=
  { policy := { mInterval := interval, mTimeout := timeout, api, network := true, mTimer := some interval }
    now := interval }

theorem run_firstDue (interval timeout : Nat) (api : String) :
    run step (start interval timeout api) (.start true :: clockwork interval) =
      firstDue interval timeout api := by
  rw [run_cons]
  refine clockwork_induction (P := fun k state => state = { firstDue interval timeout api with now := k })
    ?_ ?_
  · simp [start, step, firstDue, HeartbeatPolicy.start]
  · rintro k hk state rfl
    have hlater : isDue (firstDue interval timeout api).policy.mTimer k = false := by
      simp [firstDue, isDue_some]
      omega
    have hsame : step { firstDue interval timeout api with now := k } .timerFires =
        { firstDue interval timeout api with now := k } := by
      rw [step, hlater]
      rfl
    rw [hsame, tick_of_not_due hlater rfl]

/-! ### Without a message -/

/-- The timeout timer runs although nothing was sent, and the network is gone. -/
structure Silent (interval timeout k : Nat) (s : Heartbeat) : Prop where
  interval_eq : s.policy.mInterval = interval
  timeout_eq : s.policy.mTimeout = timeout
  network : s.policy.network = false
  now_eq : s.now = interval + k
  timer : ∃ time, s.policy.mTimer = some time ∧ s.now ≤ time
  timeoutTimer : s.policy.mTimeoutTimer = some (interval + timeout)
  events : s.events = []

/-- A timer that is not overdue goes off if it is due, and is then later than now. -/
theorem timerFires_cases {time : Nat} (htimer : s.policy.mTimer = some time) (hnow : s.now ≤ time) :
    time = s.now ∧ s.step .timerFires = s.beat ∨ s.now < time ∧ s.step .timerFires = s := by
  rw [step, htimer, isDue_some]
  rcases Nat.eq_or_lt_of_le hnow with heq | hlt
  · exact Or.inl ⟨heq.symm, if_pos (decide_eq_true (Nat.le_of_eq heq.symm))⟩
  · exact Or.inr ⟨hlt, by rw [decide_eq_false (Nat.not_le.mpr hlt), if_neg Bool.false_ne_true]⟩

theorem Silent.step (hinterval : 0 < interval) {k : Nat} (hsilent : Silent interval timeout k s)
    (hk : k < timeout) : Silent interval timeout (k + 1) ((s.step .timerFires).step .tick) := by
  obtain ⟨time, htimer, hnow⟩ := hsilent.timer
  have hnowEq := hsilent.now_eq
  obtain ⟨next, hlater, hfired⟩ : ∃ next, s.now < next ∧
      s.step .timerFires = { s with policy.mTimer := some next } := by
    obtain ⟨rfl, hfired⟩ | ⟨hlt, hfired⟩ := timerFires_cases htimer hnow
    · refine ⟨s.now + interval, by omega, ?_⟩
      rw [hfired, beat_of_lost hsilent.network, htimer, hsilent.interval_eq]
      rfl
    · refine ⟨time, hlt, ?_⟩
      rw [hfired, ← htimer]
  rw [hfired, tick_of_not_due]
  · exact ⟨hsilent.interval_eq, hsilent.timeout_eq, hsilent.network, by simp only; omega,
      ⟨next, rfl, hlater⟩, hsilent.timeoutTimer, hsilent.events⟩
  · rw [isDue_some]
    exact decide_eq_false (Nat.not_le.mpr hlater)
  · simp only [hsilent.timeoutTimer, isDue_some]
    exact decide_eq_false (by omega)

/-- The network is lost after the first beat, and a timeout is reported. -/
def silentRun (interval timeout : Nat) : List HeartbeatLabel :=
  .start true :: clockwork interval ++ [.timerFires, .networkLost] ++ clockwork timeout ++ [.timeoutFires]

theorem silent_firstDue {api : String} (hapi : api.isEmpty = true) :
    Silent interval timeout 0
      (run Heartbeat.step (firstDue interval timeout api) [.timerFires, .networkLost]) := by
  obtain ⟨-, hfired⟩ | ⟨hlt, -⟩ := timerFires_cases (s := firstDue interval timeout api) rfl (Nat.le_refl _)
  · rw [run_cons, hfired, beat_of_silent rfl hapi]
    exact ⟨rfl, rfl, rfl, rfl, ⟨interval + interval, rfl, Nat.le_add_right _ _⟩, rfl, rfl⟩
  · exact absurd hlt (Nat.lt_irrefl _)

theorem not_detects_silentRun (hinterval : 0 < interval) {api : String} (hapi : api.isEmpty = true) :
    ¬ Detects (run Heartbeat.step (start interval timeout api) (silentRun interval timeout)) := by
  intro hdetects
  have hsilent := clockwork_induction (n := timeout) (silent_firstDue hapi)
    fun k hk state hstate => Silent.step hinterval hstate hk
  have hdue : isDue (run Heartbeat.step (run Heartbeat.step (firstDue interval timeout api)
      [.timerFires, .networkLost]) (clockwork timeout)).policy.mTimeoutTimer
      (run Heartbeat.step (run Heartbeat.step (firstDue interval timeout api)
        [.timerFires, .networkLost]) (clockwork timeout)).now = true := by
    rw [hsilent.timeoutTimer, hsilent.now_eq, isDue_some]
    exact decide_eq_true (Nat.le_refl _)
  have hjustified := hdetects.justified
  rw [silentRun, run_append, run_append, run_append, run_firstDue, run_cons, run_nil, Heartbeat.step,
    if_pos hdue] at hjustified
  obtain ⟨⟨sent, hsent, -⟩, -⟩ := hjustified
  rw [hsilent.events] at hsent
  exact absurd hsent List.not_mem_nil

/-! ### With a timeout that is not shorter than the interval -/

/-- The timeout timer is started again with every message before it is due, and the first message is
neither answered nor reported. -/
structure Slow (interval timeout k : Nat) (s : Heartbeat) : Prop where
  interval_eq : s.policy.mInterval = interval
  timeout_eq : s.policy.mTimeout = timeout
  api : s.policy.api.isEmpty = false
  network : s.policy.network = true
  now_eq : s.now = interval + k
  timers : ∃ last, s.policy.mTimer = some (last + interval) ∧
    s.policy.mTimeoutTimer = some (last + timeout) ∧ s.now ≤ last + interval
  first : interval ∈ unreported s.events

theorem Slow.step (hinterval : 0 < interval) (hle : interval ≤ timeout) {k : Nat}
    (hslow : Slow interval timeout k s) :
    Slow interval timeout (k + 1) ((s.step .timerFires).step .tick) := by
  obtain ⟨last, htimer, htimeoutTimer, hnow⟩ := hslow.timers
  have hnowEq := hslow.now_eq
  have hfired : Slow interval timeout k (s.step .timerFires) ∧
      ∃ last, (s.step .timerFires).policy.mTimer = some (last + interval) ∧
        (s.step .timerFires).policy.mTimeoutTimer = some (last + timeout) ∧
          (s.step .timerFires).now < last + interval := by
    obtain ⟨hdue, hfired⟩ | ⟨hlt, hfired⟩ := timerFires_cases htimer hnow
    · rw [hfired, beat_of_live hslow.network hslow.api, htimer, hdue, hslow.interval_eq,
        hslow.timeout_eq]
      have htimers : some (s.now + interval) = some (s.now + interval) ∧
          some (s.now + timeout) = some (s.now + timeout) ∧ s.now ≤ s.now + interval :=
        ⟨rfl, rfl, Nat.le_add_right _ _⟩
      exact ⟨⟨hslow.interval_eq, hslow.timeout_eq, hslow.api, hslow.network, hslow.now_eq,
        ⟨s.now, htimers⟩, List.mem_cons_of_mem _ hslow.first⟩, s.now, rfl, rfl, by simp only; omega⟩
    · rw [hfired]
      exact ⟨hslow, last, htimer, htimeoutTimer, hlt⟩
  obtain ⟨hslow', last', htimer', htimeoutTimer', hlt⟩ := hfired
  have hnow' := hslow'.now_eq
  rw [tick_of_not_due]
  · exact ⟨hslow'.interval_eq, hslow'.timeout_eq, hslow'.api, hslow'.network, by simp only; omega,
      ⟨last', htimer', htimeoutTimer', hlt⟩, hslow'.first⟩
  · rw [htimer', isDue_some]
    exact decide_eq_false (by omega)
  · rw [htimeoutTimer', isDue_some]
    exact decide_eq_false (by omega)

/-- The network never answers, and nothing is reported. -/
def slowRun (interval timeout : Nat) : List HeartbeatLabel :=
  .start true :: clockwork interval ++ [.timerFires] ++ clockwork (timeout + 1)

theorem slow_firstDue {api : String} (hapi : api.isEmpty = false) :
    Slow interval timeout 0 (run Heartbeat.step (firstDue interval timeout api) [.timerFires]) := by
  obtain ⟨-, hfired⟩ | ⟨hlt, -⟩ := timerFires_cases (s := firstDue interval timeout api) rfl (Nat.le_refl _)
  · rw [run_cons, hfired, beat_of_live rfl hapi]
    exact ⟨rfl, rfl, hapi, rfl, rfl, ⟨interval, rfl, rfl, Nat.le_add_right _ _⟩, List.mem_cons_self⟩
  · exact absurd hlt (Nat.lt_irrefl _)

theorem not_detects_slowRun (hinterval : 0 < interval) (hle : interval ≤ timeout) {api : String}
    (hapi : api.isEmpty = false) :
    ¬ Detects (run Heartbeat.step (start interval timeout api) (slowRun interval timeout)) := by
  intro hdetects
  have hslow := clockwork_induction (n := timeout + 1) (slow_firstDue hapi)
    fun k _ state hstate => Slow.step hinterval hle hstate
  rw [slowRun, run_append, run_append, run_firstDue] at hdetects
  obtain ⟨last, htimer, -, -⟩ := hslow.timers
  have hreported := hdetects.reported (by rw [htimer]; rfl) interval hslow.first
  rw [hslow.now_eq, hslow.timeout_eq] at hreported
  omega

/-- Whatever the responses and the lifetimes of the network, the policy detects silence and nothing else,
exactly if there is a message to send and the timeout is shorter than the interval. -/
theorem detects_iff {interval timeout : Nat} (hinterval : 0 < interval) (api : String) :
    (∀ labels, Detects (run Heartbeat.step (start interval timeout api) labels)) ↔
      api.isEmpty = false ∧ timeout < interval := by
  constructor
  · intro hdetects
    have hapi : api.isEmpty = false := by
      cases hempty : api.isEmpty with
      | false => rfl
      | true => exact absurd (hdetects _) (not_detects_silentRun hinterval hempty)
    refine ⟨hapi, ?_⟩
    by_contra hslow
    exact not_detects_slowRun hinterval (Nat.not_lt.mp hslow) hapi (hdetects _)
  · rintro ⟨hapi, hlt⟩ labels
    exact (run_induction (waiting_start hapi) (waiting_step hlt) labels).detects

theorem detects_iff_ping :
    Detects (run Heartbeat.step (start 30000 10000 "ping") (silentRun 30000 10000)) :=
  (detects_iff (by decide) "ping").mpr (by decide) (silentRun 30000 10000)

/-- As the connection manager starts it, with no message, the policy reports a timeout in a run in which
nothing was sent; and with a timeout of three intervals it does not report a network that never answers. -/
theorem not_detects_defaults :
    ¬ Detects (run Heartbeat.step (start 30000 10000 "") (silentRun 30000 10000)) ∧
      ¬ Detects (run Heartbeat.step (start 10000 30000 "ping") (slowRun 10000 30000)) :=
  ⟨not_detects_silentRun (by decide) (by decide), not_detects_slowRun (by decide) (by decide) (by decide)⟩

end Heartbeat

end SoulCoreKit.Network
