import Mathlib.Data.Rat.Floor
import Mathlib.Tactic.Linarith
import SoulCoreKit.Lib.Run
import SoulCoreKit.Network.RateLimiter

/-!
# What the sliding window lets through

The window is a fixed one: a call that finds it run out begins a new one, and with it the count begins
at zero, however little time has passed since the last permits of the old one. So a second around the
change counts permits of both. What is granted in every second stays within the limit exactly if each
call that the count admits leaves room for the permits of the earlier windows that are less than a
second old.
-/

namespace SoulCoreKit.Network

open RateLimiter

/-- A limiter with the reading of the last call, and what it granted in the earlier windows and in the
present one. -/
structure WindowRun (K : Type) where
  limiter : RateLimiter K
  clock : K
  past : List (Grant K) := []
  current : List (Grant K) := []

namespace WindowRun

variable {K : Type} [Field K] [LinearOrder K] [FloorRing K] (s : WindowRun K)

def grants : List (Grant K) := s.past ++ s.current

/-- The call begins a new window. -/
def turns : LimiterOp K → Bool
  | .tryAcquire permits now => 0 < permits && s.limiter.windowExpired (truncate now)
  | .availablePermits _ => false

/-- The limiter and the grants once the call has found its window. -/
def turned (op : LimiterOp K) : WindowRun K :=
  if s.turns op then
    { s with limiter := s.limiter.restartWindow (truncate op.now), past := s.grants, current := [] }
  else
    s

def step (op : LimiterOp K) : WindowRun K where
  limiter := (s.limiter.call op).2
  clock := op.now
  past := (s.turned op).past
  current := (s.turned op).current ++ s.limiter.granted op

/-- The limiter as it is constructed, with nothing granted. -/
def start (permitsPerSec : K) (burstSize : Int) (now : K) : WindowRun K where
  limiter := create .slidingWindow permitsPerSec burstSize now
  clock := now

/-- No second, wherever it begins, has more permits than the limit. -/
def Limited : Prop :=
  ∀ since : K, (permitsWhere (fun time => since ≤ time ∧ time < since + secondMs) s.grants : Int) ≤
    ⌊s.limiter.mPermitsPerSec⌋

/-- The count admits the permits. -/
def Admits (permits : Int) : Prop := s.limiter.mWindowCount + permits ≤ s.limiter.maxPermits

/-- There is room for the permits beside the count and what the earlier windows granted less than a
second ago. -/
def HasRoom (now : K) (permits : Int) : Prop :=
  permitsWhere (fun time => now - secondMs < time) s.past + s.limiter.mWindowCount + permits ≤
    s.limiter.maxPermits

instance (permits : Int) : Decidable (s.Admits permits) := inferInstanceAs (Decidable (_ ≤ _))

instance (now : K) (permits : Int) : Decidable (s.HasRoom now permits) :=
  inferInstanceAs (Decidable (_ ≤ _))

/-- If the count admits the call, there is also room for the permits of the earlier windows. -/
def LeavesRoom : LimiterOp K → Prop
  | .availablePermits _ => True
  | .tryAcquire permits now =>
      0 < permits → (s.turned (.tryAcquire permits now)).Admits permits →
        (s.turned (.tryAcquire permits now)).HasRoom now permits

instance : ∀ op, Decidable (s.LeavesRoom op)
  | .availablePermits _ => isTrue trivial
  | .tryAcquire _ _ => inferInstanceAs (Decidable (_ → _ → _))

end WindowRun

namespace WindowRun

/-! ### What a call does -/

section Counts

variable {K : Type} {s t : WindowRun K} {now : K}

/-- `s` is `t` after a call that has found its window and takes the amount. -/
structure Counts (t s : WindowRun K) (now : K) (amount : Nat) : Prop where
  algorithm : s.limiter.mAlgorithm = t.limiter.mAlgorithm
  rate_eq : s.limiter.mPermitsPerSec = t.limiter.mPermitsPerSec
  start_eq : s.limiter.mWindowStartMs = t.limiter.mWindowStartMs
  count_eq : s.limiter.mWindowCount = t.limiter.mWindowCount + amount
  clock_eq : s.clock = now
  past_eq : s.past = t.past
  current_eq : s.current = t.current ∧ amount = 0 ∨ s.current = t.current ++ [⟨now, amount⟩]

/-- What a window of time has after a call: what it had before, and the amount if the call is in it. -/
theorem Counts.permitsWhere_current {amount : Nat} (hcounts : Counts t s now amount)
    (within : K → Prop) [DecidablePred within] :
    permitsWhere within s.current =
      permitsWhere within t.current + if within now then amount else 0 := by
  rcases hcounts.current_eq with ⟨hsame, hamount⟩ | hmore
  · rw [hsame, hamount, ite_self, add_zero]
  · rw [hmore, permitsWhere_append, permitsWhere_singleton]

theorem Counts.permitsWhere_grants {amount : Nat} (hcounts : Counts t s now amount)
    (within : K → Prop) [DecidablePred within] :
    permitsWhere within s.grants =
      permitsWhere within t.past + permitsWhere within t.current + if within now then amount else 0 := by
  unfold grants
  rw [permitsWhere_append, hcounts.past_eq, hcounts.permitsWhere_current, add_assoc]

end Counts

variable {K : Type} [Field K] [LinearOrder K] [FloorRing K] {s t : WindowRun K} {now : K}

theorem turns_tryAcquire (permits : Int) :
    s.turns (.tryAcquire permits now) =
      (decide (0 < permits) && s.limiter.windowExpired (truncate now)) := rfl

theorem limiter_turned {permits : Int} (hpos : 0 < permits) :
    (s.turned (.tryAcquire permits now)).limiter =
      if s.limiter.windowExpired (truncate now) then s.limiter.restartWindow (truncate now)
      else s.limiter := by
  have hturns : s.turns (.tryAcquire permits now) = s.limiter.windowExpired (truncate now) := by
    rw [turns_tryAcquire, decide_eq_true hpos, Bool.true_and]
  unfold turned
  rw [hturns]
  split <;> rfl

theorem tryAcquire_of_admits {permits : Int} (hsliding : s.limiter.mAlgorithm = .slidingWindow)
    (hpos : 0 < permits) (hadmits : (s.turned (.tryAcquire permits now)).Admits permits) :
    let l := (s.turned (.tryAcquire permits now)).limiter
    s.limiter.tryAcquire now permits =
      (true, { l with mWindowCount := l.mWindowCount + permits, mAccepted := l.mAccepted + 1 }) := by
  unfold Admits at hadmits
  rw [limiter_turned hpos] at hadmits ⊢
  unfold tryAcquire
  rw [if_neg (not_le.mpr hpos), hsliding]
  exact if_pos hadmits

theorem tryAcquire_of_not_admits {permits : Int} (hsliding : s.limiter.mAlgorithm = .slidingWindow)
    (hpos : 0 < permits) (hfull : ¬ (s.turned (.tryAcquire permits now)).Admits permits) :
    let l := (s.turned (.tryAcquire permits now)).limiter
    s.limiter.tryAcquire now permits = (false, { l with mRejected := l.mRejected + 1 }) := by
  unfold Admits at hfull
  rw [limiter_turned hpos] at hfull ⊢
  unfold tryAcquire
  rw [if_neg (not_le.mpr hpos), hsliding]
  exact if_neg hfull

/-- What the call takes. -/
def amount (s : WindowRun K) : LimiterOp K → Nat
  | .availablePermits _ => 0
  | .tryAcquire permits now =>
      if 0 < permits ∧ (s.turned (.tryAcquire permits now)).Admits permits then permits.toNat else 0

theorem turned_of_nonpos {permits : Int} (hnone : permits ≤ 0) :
    s.turned (.tryAcquire permits now) = s := by
  have hturns : s.turns (.tryAcquire permits now) = false := by
    rw [turns_tryAcquire, decide_eq_false (not_lt.mpr hnone), Bool.false_and]
  unfold turned
  rw [hturns]
  exact if_neg Bool.false_ne_true

theorem counts_of_call {op : LimiterOp K} {amount : Nat} {rejected accepted : UInt64}
    (hlimiter : (s.limiter.call op).2 =
      { (s.turned op).limiter with
        mWindowCount := (s.turned op).limiter.mWindowCount + amount
        mRejected := rejected
        mAccepted := accepted })
    (hgranted : s.limiter.granted op = [] ∧ amount = 0 ∨ s.limiter.granted op = [⟨op.now, amount⟩]) :
    Counts (s.turned op) (s.step op) op.now amount := by
  have hstep : (s.step op).limiter = _ := hlimiter
  refine ⟨?_, ?_, ?_, ?_, rfl, rfl, ?_⟩
  · rw [hstep]
  · rw [hstep]
  · rw [hstep]
  · rw [hstep]
  · change (s.turned op).current ++ s.limiter.granted op = _ ∧ _ ∨
      (s.turned op).current ++ s.limiter.granted op = _
    rcases hgranted with ⟨hnone, hamount⟩ | hsome
    · exact Or.inl ⟨by rw [hnone, List.append_nil], hamount⟩
    · exact Or.inr (by rw [hsome])

theorem counts_step (hsliding : s.limiter.mAlgorithm = .slidingWindow) (op : LimiterOp K) :
    Counts (s.turned op) (s.step op) op.now (s.amount op) := by
  cases op with
  | availablePermits now =>
      apply counts_of_call
      · change (s.limiter.availablePermits now).2 = _
        unfold availablePermits
        rw [hsliding]
        exact congrArg (fun count => { s.limiter with mWindowCount := count }) (add_zero _).symm
      · exact Or.inl ⟨rfl, rfl⟩
  | tryAcquire permits now =>
      rcases le_or_gt permits 0 with hnone | hpos
      · have hcall : s.limiter.tryAcquire now permits = (true, s.limiter) := if_pos hnone
        have hamount : s.amount (.tryAcquire permits now) = 0 := if_neg fun hasks => by omega
        rw [hamount]
        apply counts_of_call
        · rw [turned_of_nonpos hnone]
          apply (congrArg Prod.snd hcall).trans
          exact congrArg (fun count => { s.limiter with mWindowCount := count }) (add_zero _).symm
        · right
          rw [granted_tryAcquire, hcall, Int.toNat_of_nonpos hnone]
          rfl
      · by_cases hadmits : (s.turned (.tryAcquire permits now)).Admits permits
        · have hcall := tryAcquire_of_admits hsliding hpos hadmits
          have hamount : s.amount (.tryAcquire permits now) = permits.toNat := if_pos ⟨hpos, hadmits⟩
          have hcast : ((permits.toNat : Nat) : Int) = permits := Int.toNat_of_nonneg hpos.le
          rw [hamount]
          apply counts_of_call
          · rw [hcast]
            exact congrArg Prod.snd hcall
          · right
            rw [granted_tryAcquire, hcall]
            rfl
        · have hcall := tryAcquire_of_not_admits hsliding hpos hadmits
          have hamount : s.amount (.tryAcquire permits now) = 0 := if_neg fun hasks => hadmits hasks.2
          rw [hamount]
          apply counts_of_call
          · rw [Nat.cast_zero, add_zero]
            exact congrArg Prod.snd hcall
          · left
            rw [granted_tryAcquire, hcall]
            exact ⟨rfl, rfl⟩

/-! ### The count -/

/-- A sliding window whose counter is what the present window granted. -/
structure Windowed (s : WindowRun K) : Prop where
  sliding : s.limiter.mAlgorithm = .slidingWindow
  rate_pos : 0 < s.limiter.mPermitsPerSec
  counted : s.limiter.mWindowCount = permitsWhere (fun _ => True) s.current

theorem Windowed.maxPermits_eq (hwindowed : Windowed s) :
    s.limiter.maxPermits = ⌊s.limiter.mPermitsPerSec⌋ :=
  if_pos hwindowed.rate_pos.le

theorem Windowed.turned (hwindowed : Windowed s) (op : LimiterOp K) : Windowed (s.turned op) := by
  unfold WindowRun.turned
  split
  · exact ⟨hwindowed.sliding, hwindowed.rate_pos, rfl⟩
  · exact hwindowed

omit [FloorRing K] in
theorem Windowed.counts (hwindowed : Windowed t) {amount : Nat} (hcounts : Counts t s now amount) :
    Windowed s := by
  refine ⟨hcounts.algorithm.trans hwindowed.sliding, ?_, ?_⟩
  · rw [hcounts.rate_eq]
    exact hwindowed.rate_pos
  · rw [hcounts.count_eq, hcounts.permitsWhere_current, hwindowed.counted, if_pos trivial]
    exact (Nat.cast_add _ _).symm

theorem Windowed.step (hwindowed : Windowed s) (op : LimiterOp K) : Windowed (s.step op) :=
  (hwindowed.turned op).counts (counts_step hwindowed.sliding op)

theorem limited_turned (op : LimiterOp K) : (s.turned op).Limited ↔ s.Limited := by
  unfold turned
  split
  · unfold Limited grants
    rw [List.append_nil]
    rfl
  · exact Iff.rfl

/-- The condition, by the amount the call takes. -/
theorem leavesRoom_iff (op : LimiterOp K) :
    s.LeavesRoom op ↔ s.amount op = 0 ∨ (s.turned op).HasRoom op.now (s.amount op) := by
  cases op with
  | availablePermits now => exact iff_of_true trivial (Or.inl rfl)
  | tryAcquire permits now =>
      by_cases hgranted : 0 < permits ∧ (s.turned (.tryAcquire permits now)).Admits permits
      · have hamount : s.amount (.tryAcquire permits now) = permits.toNat := if_pos hgranted
        have hcast : ((permits.toNat : Nat) : Int) = permits := Int.toNat_of_nonneg hgranted.1.le
        rw [hamount, hcast, or_iff_right (by omega)]
        exact ⟨fun hleaves => hleaves hgranted.1 hgranted.2, fun hroom _ _ => hroom⟩
      · exact iff_of_true (fun hpos hadmits => absurd ⟨hpos, hadmits⟩ hgranted) (Or.inl (if_neg hgranted))

variable [IsStrictOrderedRing K]

theorem Limited.counts (hwindowed : Windowed t) (hlimited : t.Limited) {amount : Nat}
    (hcounts : Counts t s now amount) (hroom : amount = 0 ∨ t.HasRoom now amount) : s.Limited := by
  intro since
  have hbefore := hlimited since
  unfold grants at hbefore
  rw [permitsWhere_append] at hbefore
  rw [hcounts.permitsWhere_grants, hcounts.rate_eq]
  rcases hroom with hamount | hroom
  · rw [hamount, ite_self, add_zero]
    exact hbefore
  · split
    · rename_i hin
      have hpast : permitsWhere (fun time => since ≤ time ∧ time < since + secondMs) t.past ≤
          permitsWhere (fun time => now - secondMs < time) t.past := by
        apply permitsWhere_mono
        intro grant _ hwithin
        have hupTo := hin.2
        unfold secondMs at hupTo ⊢
        linarith [hwithin.1]
      have hcurrent : permitsWhere (fun time => since ≤ time ∧ time < since + secondMs) t.current ≤
          permitsWhere (fun _ => True) t.current :=
        permitsWhere_mono fun _ _ _ => trivial
      unfold HasRoom at hroom
      rw [hwindowed.maxPermits_eq, hwindowed.counted] at hroom
      omega
    · rw [add_zero]
      exact hbefore

/-! ### Where the window lies -/

/-- The clock is not before the grants, and the present window began before its own. -/
structure Ordered (s : WindowRun K) : Prop where
  start_nonneg : 0 ≤ s.limiter.mWindowStartMs
  start_le : (s.limiter.mWindowStartMs : K) ≤ s.clock
  started : ∀ grant ∈ s.current, (s.limiter.mWindowStartMs : K) ≤ grant.time
  ordered : ∀ grant ∈ s.grants, grant.time ≤ s.clock

theorem Ordered.clock_nonneg (hordered : Ordered s) : 0 ≤ s.clock := by
  have hcast : (0 : K) ≤ s.limiter.mWindowStartMs := by exact_mod_cast hordered.start_nonneg
  exact hcast.trans hordered.start_le

omit [IsStrictOrderedRing K] [FloorRing K] in
theorem Ordered.counts (hordered : Ordered { t with clock := now }) {amount : Nat}
    (hcounts : Counts t s now amount) : Ordered s := by
  have hcurrent : ∀ grant ∈ s.current, grant ∈ t.current ∨ grant.time = now := by
    intro grant hgrant
    rcases hcounts.current_eq with ⟨hsame, -⟩ | hmore
    · exact Or.inl (hsame ▸ hgrant)
    · rw [hmore, List.mem_append, List.mem_singleton] at hgrant
      exact hgrant.imp_right fun hnew => by rw [hnew]
  refine ⟨?_, ?_, ?_, ?_⟩
  · rw [hcounts.start_eq]
    exact hordered.start_nonneg
  · rw [hcounts.start_eq, hcounts.clock_eq]
    exact hordered.start_le
  · intro grant hgrant
    rw [hcounts.start_eq]
    rcases hcurrent grant hgrant with hold | hnew
    · exact hordered.started grant hold
    · rw [hnew]
      exact hordered.start_le
  · intro grant hgrant
    rw [hcounts.clock_eq]
    rcases List.mem_append.mp hgrant with hpast | hpresent
    · rw [hcounts.past_eq] at hpast
      exact hordered.ordered grant (List.mem_append_left _ hpast)
    · rcases hcurrent grant hpresent with hold | hnew
      · exact hordered.ordered grant (List.mem_append_right _ hold)
      · exact hnew.le

theorem Ordered.turned (hordered : Ordered s) {op : LimiterOp K} (hnow : s.clock ≤ op.now) :
    Ordered { s.turned op with clock := op.now } := by
  have hnonneg : 0 ≤ op.now := hordered.clock_nonneg.trans hnow
  unfold WindowRun.turned
  split
  · have hwhole : truncate op.now = ⌊op.now⌋ := if_pos hnonneg
    refine ⟨?_, ?_, fun grant hgrant => absurd hgrant List.not_mem_nil, ?_⟩
    · change 0 ≤ truncate op.now
      rw [hwhole]
      exact Int.floor_nonneg.mpr hnonneg
    · change ((truncate op.now : Int) : K) ≤ op.now
      rw [hwhole]
      exact Int.floor_le _
    · intro grant hgrant
      have hold : grant ∈ s.grants := by
        have happend : grant ∈ s.grants ++ [] := hgrant
        rwa [List.append_nil] at happend
      exact (hordered.ordered grant hold).trans hnow
  · exact ⟨hordered.start_nonneg, hordered.start_le.trans hnow, hordered.started,
      fun grant hgrant => (hordered.ordered grant hgrant).trans hnow⟩

/-- A window of one second that ends just after the reading and has all that lies less than a second
back. -/
theorem exists_second (grants : List (Grant K)) (now : K) :
    ∃ since, since ≤ now ∧ now < since + secondMs ∧
      ∀ grant ∈ grants, now - secondMs < grant.time → since ≤ grant.time := by
  unfold secondMs
  induction grants with
  | nil => exact ⟨now, le_rfl, by linarith, fun grant hgrant => absurd hgrant List.not_mem_nil⟩
  | cons first rest ih =>
      obtain ⟨since, hle, hlt, hrest⟩ := ih
      by_cases hrecent : now - 1000 < first.time
      · refine ⟨min first.time since, (min_le_right _ _).trans hle, ?_, ?_⟩
        · rw [← min_add_add_right]
          exact lt_min (by linarith) hlt
        · intro grant hgrant hlater
          rcases List.mem_cons.mp hgrant with rfl | hmem
          · exact min_le_left _ _
          · exact (min_le_right _ _).trans (hrest grant hmem hlater)
      · refine ⟨since, hle, hlt, ?_⟩
        intro grant hgrant hlater
        rcases List.mem_cons.mp hgrant with rfl | hmem
        · exact absurd hlater hrecent
        · exact hrest grant hmem hlater

theorem hasRoom_of_limited (hwindowed : Windowed t) (hordered : Ordered { t with clock := now })
    (hrunning : t.limiter.windowExpired (truncate now) = false) {amount : Nat}
    (hcounts : Counts t s now amount) (hlimited : s.Limited) : t.HasRoom now amount := by
  obtain ⟨since, hle, hlt, hrecent⟩ := exists_second t.grants now
  have hsecond := hlimited since
  rw [hcounts.permitsWhere_grants, hcounts.rate_eq, if_pos ⟨hle, hlt⟩,
    ← hwindowed.maxPermits_eq] at hsecond
  have hpast : permitsWhere (fun time => now - secondMs < time) t.past ≤
      permitsWhere (fun time => since ≤ time ∧ time < since + secondMs) t.past := by
    apply permitsWhere_mono
    intro grant hgrant hlater
    have hmem : grant ∈ t.grants := List.mem_append_left _ hgrant
    exact ⟨hrecent grant hmem hlater, (hordered.ordered grant hmem).trans_lt hlt⟩
  have hcurrent : permitsWhere (fun _ => True) t.current ≤
      permitsWhere (fun time => since ≤ time ∧ time < since + secondMs) t.current := by
    apply permitsWhere_mono
    intro grant hgrant _
    have hmem : grant ∈ t.grants := List.mem_append_right _ hgrant
    refine ⟨hrecent grant hmem ?_, (hordered.ordered grant hmem).trans_lt hlt⟩
    have hmillis : (truncate now : Int) - t.limiter.mWindowStartMs < 1000 := by
      simpa [windowExpired] using hrunning
    rw [truncate, if_pos hordered.clock_nonneg, sub_lt_iff_lt_add, Int.floor_lt] at hmillis
    push_cast at hmillis
    have hstarted := hordered.started grant hgrant
    unfold secondMs
    linarith
  unfold HasRoom
  rw [hwindowed.counted]
  omega

/-! ### Runs -/

theorem windowed_start (permitsPerSec : K) (burstSize : Int) (now : K) :
    Windowed (start permitsPerSec burstSize now) :=
  ⟨rfl, rate_pos_create .slidingWindow permitsPerSec burstSize now, rfl⟩

theorem limited_start (permitsPerSec : K) (burstSize : Int) (now : K) :
    Limited (start permitsPerSec burstSize now) := fun _ =>
  Int.floor_nonneg.mpr (windowed_start permitsPerSec burstSize now).rate_pos.le

omit [IsStrictOrderedRing K] in
theorem windowExpired_turned {permits : Int} (hpos : 0 < permits) :
    (s.turned (.tryAcquire permits now)).limiter.windowExpired (truncate now) = false := by
  rw [limiter_turned hpos]
  split
  · simp [windowExpired, restartWindow]
  · rename_i hrunning
    simpa using hrunning

theorem leavesRoom_of_limited (hwindowed : Windowed s) (hordered : Ordered s) {op : LimiterOp K}
    (hnow : s.clock ≤ op.now) (hlimited : (s.step op).Limited) : s.LeavesRoom op := by
  cases op with
  | availablePermits now => trivial
  | tryAcquire permits now =>
      intro hpos hadmits
      have hamount : s.amount (.tryAcquire permits now) = permits.toNat := if_pos ⟨hpos, hadmits⟩
      have hcast : ((permits.toNat : Nat) : Int) = permits := Int.toNat_of_nonneg hpos.le
      have hroom := hasRoom_of_limited (hwindowed.turned _) (hordered.turned hnow)
        (windowExpired_turned hpos) (counts_step hwindowed.sliding _) hlimited
      rwa [hamount, hcast] at hroom

theorem limited_step (hwindowed : Windowed s) (hlimited : s.Limited) {op : LimiterOp K}
    (hleaves : s.LeavesRoom op) : (s.step op).Limited :=
  ((limited_turned op).mpr hlimited).counts (hwindowed.turned op) (counts_step hwindowed.sliding op)
    ((leavesRoom_iff op).mp hleaves)

/-- Where every call that the count admits leaves room for the permits of the earlier windows, no second
has more permits than the limit; and on a clock that starts at zero, only there. -/
theorem limited_of_leavesRoom (permitsPerSec : K) (burstSize : Int) {constructed : K}
    {ops : List (LimiterOp K)} (hclock : (constructed :: ops.map LimiterOp.now).Pairwise (· ≤ ·)) :
    (Along step LeavesRoom (start permitsPerSec burstSize constructed) ops →
        ∀ n, Limited (run step (start permitsPerSec burstSize constructed) (ops.take n))) ∧
      (0 ≤ constructed →
        (∀ n, Limited (run step (start permitsPerSec burstSize constructed) (ops.take n))) →
          Along step LeavesRoom (start permitsPerSec burstSize constructed) ops) := by
  have hwindowed := windowed_start permitsPerSec burstSize constructed
  have hlimited := limited_start permitsPerSec burstSize constructed
  constructor
  · intro hleaves n
    apply (hleaves.always (P := fun s => Windowed s ∧ Limited s) ⟨hwindowed, hlimited⟩ _ n).2
    intro s op hstate hroom
    exact ⟨hstate.1.step op, limited_step hstate.1 hstate.2 hroom⟩
  · intro hnonneg halways
    have hordered : Ordered (start permitsPerSec burstSize constructed) :=
      ⟨le_rfl, by simpa [start, create] using hnonneg, by simp [start], by simp [start, grants]⟩
    have hkept : ∀ (s : WindowRun K) op, (s.step op).clock = op.now := fun _ _ => rfl
    have hreadings : Along step (fun s op => s.clock ≤ op.now)
        (start permitsPerSec burstSize constructed) ops :=
      Along.of_pairwise hkept hclock
    refine (always_iff_along_of_invariant (Q := fun s => Windowed s ∧ Ordered s ∧ Limited s) hreadings
      ⟨hwindowed, hordered, hlimited⟩ (fun s hstate => hstate.2.2) ?_ ?_).mp halways
    · intro s op hstate hnow hnext
      exact leavesRoom_of_limited hstate.1 hstate.2.1 hnow hnext
    · intro s op hstate hnow hroom
      exact ⟨hstate.1.step op, (hstate.2.1.turned hnow).counts (counts_step hstate.1.sliding op),
        limited_step hstate.1 hstate.2.2 hroom⟩

/-- Three calls in one window, and one in the next. -/
def apartRun : List (LimiterOp ℚ) :=
  [.tryAcquire 4 1000, .tryAcquire 1 1200, .tryAcquire 2 1500, .tryAcquire 5 (4401 / 2)]

theorem limited_of_leavesRoom_apartRun :
    Along step LeavesRoom (start 5 0 0) apartRun ∧
      ∀ n, Limited (run step (start 5 0 0) (apartRun.take n)) := by
  have hleaves : Along step LeavesRoom (start 5 0 0) apartRun := by decide +kernel
  exact ⟨hleaves, (limited_of_leavesRoom 5 0 (by decide +kernel)).1 hleaves⟩

/-- Five permits to the end of one window, and five at the beginning of the next. -/
def edgeRun : List (LimiterOp ℚ) := [.tryAcquire 1 1000, .tryAcquire 4 1999, .tryAcquire 5 2000]

theorem edgeRun_not_limited : ¬ Limited (run step (start 5 0 0) edgeRun) := by
  intro hlimited
  have hsecond := hlimited 1500
  exact absurd hsecond (by decide +kernel)

end WindowRun

end SoulCoreKit.Network

/-! ### What one window grants under threads

A new window takes two accesses, the change of its start and the store of zero, and other threads may count
into it in between. What they were granted is then forgotten. As long as every store of zero finds that
nothing was granted since the last change, the counter is never below what the present window granted, and
so the window grants no more than the limit. -/

namespace SoulCoreKit.Network

open RateLimiter

namespace LimiterThreads

variable {K : Type} [Field K] [LinearOrder K] [FloorRing K] {s : LimiterThreads K} {rate : K}
  {thread : Nat}

/-- The next access of the thread is the store of zero. -/
def storesZero (s : LimiterThreads K) (thread : Nat) : Bool :=
  match s.places thread with
  | .changed _ _ _ => true
  | _ => false

/-- A thread that stores zero finds that nothing was granted since the last change of the window. -/
def StoresInTime (s : LimiterThreads K) : LimiterLabel → Prop
  | .proceed thread => s.storesZero thread → s.granted = 0
  | _ => True

instance (s : LimiterThreads K) : ∀ label, Decidable (s.StoresInTime label)
  | .proceed _ => inferInstanceAs (Decidable (_ → _))
  | .tryAcquire _ _ => isTrue trivial
  | .spurious _ => isTrue trivial
  | .advance _ => isTrue trivial

/-- The counter covers what the present window granted, which is within the limit. -/
structure Covered (rate : K) (s : LimiterThreads K) : Prop where
  rate_eq : s.limiter.mPermitsPerSec = rate
  covered : s.granted ≤ s.limiter.mWindowCount
  limited : s.granted ≤ s.limiter.maxPermits

/-! ### Steps -/

theorem Covered.moveTo (hcovered : Covered rate s) (place : LimiterPlace) :
    Covered rate (s.moveTo thread place) :=
  ⟨hcovered.rate_eq, hcovered.covered, hcovered.limited⟩

theorem Covered.exchangeStart (hcovered : Covered rate s) (permits : Nat) (nowMs expected : Int) :
    Covered rate (s.exchangeStart thread permits nowMs expected) := by
  have hcount : 0 ≤ s.limiter.mWindowCount := (Int.natCast_nonneg _).trans hcovered.covered
  have hlimit : 0 ≤ s.limiter.maxPermits := (Int.natCast_nonneg _).trans hcovered.limited
  unfold LimiterThreads.exchangeStart
  split
  · exact ⟨hcovered.rate_eq, hcount, hlimit⟩
  · exact hcovered.moveTo _

theorem Covered.exchangeCount (hcovered : Covered rate s) {permits : Nat} {current : Int}
    (hfits : current + permits ≤ s.limiter.maxPermits) (nowMs expected : Int) :
    Covered rate (s.exchangeCount thread permits nowMs expected current) := by
  unfold LimiterThreads.exchangeCount
  split
  · rename_i hcurrent
    have hcount : ((s.granted + permits : Nat) : Int) ≤ current + permits := by
      have hbefore := hcovered.covered
      push_cast
      omega
    exact ⟨hcovered.rate_eq, hcount, hcount.trans hfits⟩
  · exact hcovered.moveTo _

theorem Covered.proceed (hcovered : Covered rate s) (hintime : s.StoresInTime (.proceed thread)) :
    Covered rate (s.proceed thread) := by
  unfold LimiterThreads.proceed
  split
  · exact hcovered
  · exact hcovered.moveTo _
  · split
    · exact hcovered.exchangeStart _ _ _
    · exact hcovered.moveTo _
  · rename_i permits nowMs expected hplace
    have hstores : s.storesZero thread = true := by rw [storesZero, hplace]
    have hnone : (s.granted : Int) = 0 := by exact_mod_cast hintime hstores
    exact ⟨hcovered.rate_eq, hnone.le, hcovered.limited⟩
  · split
    · rename_i hfits
      exact hcovered.exchangeCount hfits _ _
    · exact ⟨hcovered.rate_eq, hcovered.covered, hcovered.limited⟩

theorem Covered.spurious (hcovered : Covered rate s) (thread : Nat) : Covered rate (s.spurious thread) := by
  unfold LimiterThreads.spurious
  split
  · split
    · exact hcovered.moveTo _
    · exact hcovered
  · split
    · exact hcovered.moveTo _
    · exact hcovered
  · exact hcovered

theorem covered_step (s : LimiterThreads K) (label : LimiterLabel) (hcovered : Covered rate s)
    (hintime : s.StoresInTime label) : Covered rate (s.step label) := by
  cases label with
  | tryAcquire thread permits =>
      rw [step]
      unfold LimiterThreads.tryAcquire
      split
      · split
        · exact hcovered
        · exact hcovered.moveTo _
      · exact hcovered
  | proceed thread => exact hcovered.proceed hintime
  | spurious thread => exact hcovered.spurious thread
  | advance time => exact ⟨hcovered.rate_eq, hcovered.covered, hcovered.limited⟩

/-! ### One thread alone -/

theorem truncate_intCast [IsStrictOrderedRing K] (n : Int) : truncate (n : K) = n := by
  unfold truncate
  rw [Int.floor_intCast, Int.ceil_intCast, ite_self]

/-- A call that one thread runs without interruption does to the limiter what the method does alone. -/
theorem limiter_tryAcquire_alone [IsStrictOrderedRing K] (hidle : s.places thread = .idle)
    {permits : Int} (hpos : 0 < permits) :
    (run step s (.tryAcquire thread permits :: List.replicate 6 (.proceed thread))).limiter =
      (s.limiter.tryAcquireSlidingWindow (s.nowMs : K) permits).2 := by
  have hcast : ((permits.toNat : Nat) : Int) = permits := Int.toNat_of_nonneg hpos.le
  have hnone : ¬ permits ≤ 0 := by omega
  unfold tryAcquireSlidingWindow
  rw [truncate_intCast]
  by_cases hrunOut : s.nowMs - s.limiter.mWindowStartMs ≥ 1000
  · have hmoved : s.nowMs ≠ s.limiter.mWindowStartMs := by omega
    -- the first exchange of the loop after the store fails, since it expects the old start
    simp [List.replicate, step, hidle, LimiterThreads.tryAcquire, hnone, LimiterThreads.proceed, moveTo,
      runOut, hrunOut, LimiterThreads.exchangeStart, hmoved, LimiterThreads.exchangeCount, hcast,
      windowExpired, restartWindow, maxPermits]
    split <;> rfl
  · by_cases hfits : s.limiter.mWindowCount + permits ≤ truncate s.limiter.mPermitsPerSec
    · simp [List.replicate, step, hidle, LimiterThreads.tryAcquire, hnone, LimiterThreads.proceed, moveTo,
        runOut, hrunOut, LimiterThreads.exchangeCount, hcast, windowExpired, maxPermits, hfits]
    · simp [List.replicate, step, hidle, LimiterThreads.tryAcquire, hnone, LimiterThreads.proceed, moveTo,
        runOut, hrunOut, hcast, windowExpired, maxPermits, hfits]

/-! ### Runs -/

variable [IsStrictOrderedRing K]

theorem covered_start (permitsPerSec : K) (burstSize nowMs : Int) :
    Covered (create .slidingWindow permitsPerSec burstSize (nowMs : K)).mPermitsPerSec
      (start permitsPerSec burstSize nowMs) := by
  have hrate := (rate_pos_create .slidingWindow permitsPerSec burstSize (nowMs : K)).le
  refine ⟨rfl, le_rfl, ?_⟩
  change 0 ≤ truncate (create .slidingWindow permitsPerSec burstSize (nowMs : K)).mPermitsPerSec
  rw [truncate_of_nonneg hrate]
  exact Int.floor_nonneg.mpr hrate

/-- However the threads are interleaved, where no thread stores zero after something was granted in its
window, no window grants more than the limit. -/
theorem granted_le_of_storesInTime (permitsPerSec : K) (burstSize nowMs : Int)
    (labels : List LimiterLabel)
    (hintime : Along step StoresInTime (start permitsPerSec burstSize nowMs) labels) (n : Nat) :
    ((run step (start permitsPerSec burstSize nowMs) (labels.take n)).granted : Int) ≤
      ⌊(create .slidingWindow permitsPerSec burstSize (nowMs : K)).mPermitsPerSec⌋ := by
  have hcovered := hintime.always (covered_start permitsPerSec burstSize nowMs) covered_step n
  have hrate := (rate_pos_create .slidingWindow permitsPerSec burstSize (nowMs : K)).le
  calc
    _ ≤ (run step (start permitsPerSec burstSize nowMs) (labels.take n)).limiter.maxPermits :=
        hcovered.limited
    _ = truncate (create .slidingWindow permitsPerSec burstSize (nowMs : K)).mPermitsPerSec :=
        congrArg truncate hcovered.rate_eq
    _ = _ := truncate_of_nonneg hrate

/-- The first thread begins a window and grants one permit in it, and the second grants the other. -/
def turnRun : List LimiterLabel :=
  [.advance 1000, .tryAcquire 1 1, .proceed 1, .tryAcquire 2 1, .proceed 2, .spurious 1, .proceed 1,
    .proceed 2, .proceed 1, .proceed 1, .proceed 1, .proceed 1, .proceed 2, .proceed 2, .proceed 2]

theorem granted_le_of_storesInTime_turnRun :
    ((run step (start (2 : ℚ) 0 0) (turnRun.take 15)).granted : Int) ≤
      ⌊(create .slidingWindow (2 : ℚ) 0 ((0 : Int) : ℚ)).mPermitsPerSec⌋ :=
  granted_le_of_storesInTime 2 0 0 turnRun (by decide +kernel) 15

/-- The first thread begins a window, the second takes its one permit, the first stores zero and takes
it again; then the window is changed. -/
def lateStoreRun : List LimiterLabel :=
  [.advance 1000, .tryAcquire 1 1, .proceed 1, .proceed 1, .tryAcquire 2 1, .proceed 2, .proceed 2,
    .proceed 2, .proceed 1, .proceed 1, .proceed 1, .proceed 1, .advance 1000, .tryAcquire 1 1,
    .proceed 1, .proceed 1]

theorem lateStoreRun_granted :
    ¬ ∀ n, ((run step (start (1 : ℚ) 0 0) (lateStoreRun.take n)).granted : Int) ≤
      ⌊(create .slidingWindow (1 : ℚ) 0 ((0 : Int) : ℚ)).mPermitsPerSec⌋ := by
  intro hbounded
  exact absurd (hbounded 12) (by decide +kernel)

end LimiterThreads

end SoulCoreKit.Network
