import SoulCoreKit.Proof.TokenBucket

/-!
# Whether polling slows a token bucket down

Two runs of one limiter, of which one has extra calls that take nothing. A refill moves the reference to
the reading, so it drops the part of a millisecond by which the reading is past the last whole one, and
every extra call that refills may drop such a part. Where none of them does, the run with the extra
calls is never more than one millisecond's worth of tokens behind: that much the two references can
differ when both buckets are full.
-/

namespace SoulCoreKit.Network

open RateLimiter

/-- A call of both runs, or an extra one of the polled run. -/
inductive PolledOp (K : Type) where
  | shared (op : LimiterOp K)
  | extra (op : LimiterOp K)
  deriving DecidableEq, Repr

def PolledOp.now {K : Type} : PolledOp K → K
  | .shared op => op.now
  | .extra op => op.now

/-- The limiter in the run without and in the run with the extra calls. -/
structure PolledPair (K : Type) where
  quiet : RateLimiter K
  polled : RateLimiter K

namespace PolledPair

variable {K : Type} [Field K] [LinearOrder K] [FloorRing K]

def step (s : PolledPair K) : PolledOp K → PolledPair K
  | .shared op => { quiet := (s.quiet.call op).2, polled := (s.polled.call op).2 }
  | .extra op => { s with polled := (s.polled.call op).2 }

/-- The two limiters as they are constructed. -/
def start (permitsPerSec : K) (burstSize : Int) (now : K) : PolledPair K :=
  let limiter := create .tokenBucket permitsPerSec burstSize now
  { quiet := limiter, polled := limiter }

/-- An extra call asks for the tokens or is rejected; and what the polled run lets through, the quiet
one does too. -/
def Comparable (s : PolledPair K) : PolledOp K → Prop
  | .shared op => (s.polled.call op).1 = true → (s.quiet.call op).1 = true
  | .extra (.availablePermits _) => True
  | .extra (.tryAcquire permits now) => (s.polled.tryAcquire now permits).1 = false

/-- An extra call comes less than a millisecond after the last refill, or a whole number of milliseconds
after it. -/
def DropsNothing (s : PolledPair K) : PolledOp K → Prop
  | .shared _ => True
  | .extra op =>
      op.now < s.polled.mLastRefillTime + 1 ∨
        (⌊op.now - s.polled.mLastRefillTime⌋ : K) = op.now - s.polled.mLastRefillTime

instance (s : PolledPair K) : ∀ label, Decidable (s.Comparable label)
  | .shared op => inferInstanceAs (Decidable ((s.polled.call op).1 = true → (s.quiet.call op).1 = true))
  | .extra (.availablePermits _) => isTrue trivial
  | .extra (.tryAcquire permits now) =>
      inferInstanceAs (Decidable ((s.polled.tryAcquire now permits).1 = false))

instance (s : PolledPair K) : ∀ label, Decidable (s.DropsNothing label)
  | .shared _ => isTrue trivial
  | .extra op => inferInstanceAs (Decidable (op.now < _ ∨ (⌊op.now - _⌋ : K) = _))

end PolledPair

/-! ### The tokens after a refill -/

section Refill

variable {K : Type} [Field K] [LinearOrder K] [IsStrictOrderedRing K] [FloorRing K]
  {l : RateLimiter K} {rate clock now : K} {burst : Int}

theorem tokens_refillTokens (hbucket : IsBucket rate burst clock l) (hnow : clock ≤ now) :
    (l.refillTokens now).mTokens =
      min (l.mTokens + ⌊now - l.mLastRefillTime⌋ * (rate / 1000)) burst := by
  have hpast : l.mLastRefillTime ≤ now := hbucket.reference_le.trans hnow
  rcases lt_or_ge now (l.mLastRefillTime + 1) with hlt | hle
  · have hzero : ⌊now - l.mLastRefillTime⌋ = 0 := by
      rw [Int.floor_eq_zero_iff]
      exact ⟨sub_nonneg.mpr hpast, by linarith⟩
    rw [refillTokens_of_lt hpast hlt, hzero, Int.cast_zero, zero_mul, add_zero]
    exact (min_eq_left hbucket.tokens_le).symm
  · rw [refillTokens_of_le hle, hbucket.rate_eq, hbucket.burst_eq]
    ring_nf

theorem floor_add_le (x y : K) : ⌊x + y⌋ ≤ ⌊x⌋ + ⌈y⌉ := by
  rw [Int.floor_le_iff]
  have hx := Int.lt_floor_add_one x
  have hy := Int.le_ceil y
  push_cast
  linarith

end Refill

namespace PolledPair

variable {K : Type} [Field K] [LinearOrder K] [IsStrictOrderedRing K] [FloorRing K]
  {rate clock now : K} {burst : Int} {s : PolledPair K}

/-- By how many whole milliseconds the reference of the polled run may be ahead. -/
def lead (s : PolledPair K) : Int := ⌈s.polled.mLastRefillTime - s.quiet.mLastRefillTime⌉

/-- The polled run is at most a millisecond's worth of tokens behind, whenever both are refilled. -/
structure KeepsUp (rate : K) (burst : Int) (s : PolledPair K) (clock : K) : Prop where
  quiet : IsBucket rate burst clock s.quiet
  polled : IsBucket rate burst clock s.polled
  near : s.quiet.mLastRefillTime - 1 < s.polled.mLastRefillTime
  behind : s.quiet.mTokens + s.lead * (rate / 1000) ≤ s.polled.mTokens + rate / 1000 ∨
    s.polled.mTokens = burst

theorem KeepsUp.lead_nonneg (hkeeps : KeepsUp rate burst s clock) : 0 ≤ s.lead := by
  apply Int.ceil_nonneg_of_neg_one_lt
  linarith [hkeeps.near]

theorem lead_le {millis : Int}
    (hle : s.polled.mLastRefillTime ≤ s.quiet.mLastRefillTime + millis) : (s.lead : K) ≤ millis := by
  have hlead : s.lead ≤ millis := by
    unfold lead
    rw [Int.ceil_le]
    linarith
  exact_mod_cast hlead

/-- The tokens of the two runs after a refill at the same reading. -/
theorem KeepsUp.tokens_le (hkeeps : KeepsUp rate burst s clock) (hrate : 0 < rate) (hnow : clock ≤ now) :
    (s.quiet.refillTokens now).mTokens ≤ (s.polled.refillTokens now).mTokens + rate / 1000 := by
  have hworth : 0 < rate / 1000 := by positivity
  have hpast : s.polled.mLastRefillTime ≤ now := hkeeps.polled.reference_le.trans hnow
  have hwhole : (0 : K) ≤ (⌊now - s.polled.mLastRefillTime⌋ : K) := by
    exact_mod_cast Int.floor_nonneg.mpr (sub_nonneg.mpr hpast)
  have hsum : now - s.quiet.mLastRefillTime =
      (now - s.polled.mLastRefillTime) + (s.polled.mLastRefillTime - s.quiet.mLastRefillTime) := by
    ring
  have hcounted : (⌊now - s.quiet.mLastRefillTime⌋ : K) ≤ ⌊now - s.polled.mLastRefillTime⌋ + s.lead := by
    rw [hsum]
    exact_mod_cast floor_add_le _ _
  rw [tokens_refillTokens hkeeps.quiet hnow, tokens_refillTokens hkeeps.polled hnow]
  rcases hkeeps.behind with hbehind | hfull
  · have hgrown : s.quiet.mTokens + ⌊now - s.quiet.mLastRefillTime⌋ * (rate / 1000) ≤
        s.polled.mTokens + ⌊now - s.polled.mLastRefillTime⌋ * (rate / 1000) + rate / 1000 := by
      have hscaled := mul_le_mul_of_nonneg_right hcounted hworth.le
      linarith
    rw [← min_add_add_right]
    apply min_le_min hgrown
    exact le_add_of_nonneg_right hworth.le
  · have hcap : (burst : K) ≤ s.polled.mTokens + ⌊now - s.polled.mLastRefillTime⌋ * (rate / 1000) := by
      rw [hfull]
      exact le_add_of_nonneg_right (mul_nonneg hwhole hworth.le)
    rw [min_eq_right hcap]
    exact (min_le_right _ _).trans (le_add_of_nonneg_right hworth.le)

/-- After both runs have been refilled at the same reading, the references are within a millisecond and
the full bucket needs no case of its own. -/
structure Level (rate : K) (burst : Int) (s : PolledPair K) (clock : K) : Prop where
  quiet : IsBucket rate burst clock s.quiet
  polled : IsBucket rate burst clock s.polled
  near : s.quiet.mLastRefillTime - 1 < s.polled.mLastRefillTime
  behind : s.quiet.mTokens + s.lead * (rate / 1000) ≤ s.polled.mTokens + rate / 1000

def refilled (s : PolledPair K) (now : K) : PolledPair K :=
  { quiet := s.quiet.refillTokens now, polled := s.polled.refillTokens now }

/-- The polled run has refilled and the quiet one waits for its next millisecond. -/
theorem KeepsUp.tokens_le_of_waiting (hkeeps : KeepsUp rate burst s clock) (hrate : 0 < rate)
    (hnow : clock ≤ now) (hrefills : s.polled.mLastRefillTime + 1 ≤ now) :
    s.quiet.mTokens ≤ (s.polled.refillTokens now).mTokens := by
  have hworth : 0 < rate / 1000 := by positivity
  have hone : (1 : K) ≤ (⌊now - s.polled.mLastRefillTime⌋ : K) := by
    exact_mod_cast Int.le_floor.mpr (by push_cast; linarith : ((1 : Int) : K) ≤ _)
  have hgrown := mul_le_mul_of_nonneg_right hone hworth.le
  rw [tokens_refillTokens hkeeps.polled hnow]
  apply le_min _ hkeeps.quiet.tokens_le
  rcases hkeeps.behind with hbehind | hfull
  · have hlead : (0 : K) ≤ s.lead := by exact_mod_cast hkeeps.lead_nonneg
    have hscaled := mul_nonneg hlead hworth.le
    linarith
  · have hquiet := hkeeps.quiet.tokens_le
    linarith

theorem KeepsUp.refilled (hkeeps : KeepsUp rate burst s clock) (hrate : 0 < rate) (hburst : 0 ≤ burst)
    (hnow : clock ≤ now) : Level rate burst (s.refilled now) now := by
  have hworth : 0 < rate / 1000 := by positivity
  obtain ⟨hquiet, -⟩ := hkeeps.quiet.refillTokens hrate hburst hnow
  obtain ⟨hpolled, hpolledRefilled⟩ := hkeeps.polled.refillTokens hrate hburst hnow
  have hquietPast := hkeeps.quiet.reference_le.trans hnow
  have hpolledPast := hkeeps.polled.reference_le.trans hnow
  have hnear : (s.refilled now).quiet.mLastRefillTime - 1 < (s.refilled now).polled.mLastRefillTime := by
    have hquietLe := hquiet.reference_le
    have hpolledLt := hpolledRefilled.reference_lt
    change (s.quiet.refillTokens now).mLastRefillTime - 1 < (s.polled.refillTokens now).mLastRefillTime
    linarith
  refine ⟨hquiet, hpolled, hnear, ?_⟩
  rcases lt_or_ge now (s.quiet.mLastRefillTime + 1) with hwaits | hrefills
  · have hquietSame : (s.refilled now).quiet = s.quiet := refillTokens_of_lt hquietPast hwaits
    have hlead : ((s.refilled now).lead : K) ≤ (1 : Int) := by
      apply lead_le
      rw [hquietSame]
      push_cast
      exact hpolled.reference_le.trans hwaits.le
    rw [Int.cast_one] at hlead
    have hscaled := mul_le_mul_of_nonneg_right hlead hworth.le
    rcases lt_or_ge now (s.polled.mLastRefillTime + 1) with hpolledWaits | hpolledRefills
    · have hpolledSame : (s.refilled now).polled = s.polled := refillTokens_of_lt hpolledPast hpolledWaits
      rcases hkeeps.behind with hbehind | hfull
      · have hsame : (s.refilled now).lead = s.lead := by
          unfold lead
          rw [hquietSame, hpolledSame]
        rwa [hsame, hquietSame, hpolledSame]
      · have hquietLe := hkeeps.quiet.tokens_le
        rw [hquietSame, hpolledSame, hfull]
        linarith
    · have htokens := hkeeps.tokens_le_of_waiting hrate hnow hpolledRefills
      rw [hquietSame]
      change s.quiet.mTokens + _ ≤ (s.polled.refillTokens now).mTokens + _
      linarith
  · have htokens := hkeeps.tokens_le hrate hnow
    have hreference : (s.refilled now).quiet.mLastRefillTime = now := by
      change (s.quiet.refillTokens now).mLastRefillTime = now
      rw [refillTokens_of_le hrefills]
    have hlead : ((s.refilled now).lead : K) ≤ (0 : Int) := by
      apply lead_le
      rw [hreference, Int.cast_zero, add_zero]
      exact hpolled.reference_le
    rw [Int.cast_zero] at hlead
    have hscaled := mul_nonpos_of_nonpos_of_nonneg hlead hworth.le
    change (s.quiet.refillTokens now).mTokens + _ ≤ (s.polled.refillTokens now).mTokens + _
    linarith

/-! ### Steps -/

omit [IsStrictOrderedRing K] in
/-- A call that is rejected refills the bucket and takes nothing. -/
theorem takes_of_rejected {l : RateLimiter K} {permits : Int} (halgorithm : l.mAlgorithm = .tokenBucket)
    (hrejected : (l.tryAcquire now permits).1 = false) :
    Takes (l.refillTokens now) (l.tryAcquire now permits).2 0 := by
  rcases le_or_gt permits 0 with hnone | hpos
  · rw [tryAcquire_of_nonpos hnone] at hrejected
    exact absurd hrejected Bool.true_eq_false_eq_False
  · rw [tryAcquire_of_pos hpos halgorithm] at hrejected ⊢
    unfold tryAcquireTokenBucket at hrejected ⊢
    by_cases hthere : (l.refillTokens now).mTokens ≥ permits
    · rw [if_pos hthere] at hrejected
      exact absurd hrejected Bool.true_eq_false_eq_False
    · rw [if_neg hthere]
      exact takes_zero _ _

omit [IsStrictOrderedRing K] in
/-- What the one limiter lets through is let through by the other. -/
theorem permitsWhere_granted_le {l l' : RateLimiter K} {op : LimiterOp K}
    (himp : (l.call op).1 = true → (l'.call op).1 = true) (within : K → Prop) [DecidablePred within] :
    permitsWhere within (l.granted op) ≤ permitsWhere within (l'.granted op) := by
  cases op with
  | availablePermits now => exact le_rfl
  | tryAcquire permits now =>
      change (l.tryAcquire now permits).1 = true → (l'.tryAcquire now permits).1 = true at himp
      rw [granted_tryAcquire, granted_tryAcquire]
      cases hcall : (l.tryAcquire now permits).1 with
      | false => exact Nat.zero_le _
      | true => rw [himp hcall]

theorem Level.taken {s' : PolledPair K} {taken more : Nat} (hlevel : Level rate burst s clock)
    (hquiet : Takes s.quiet s'.quiet more) (hpolled : Takes s.polled s'.polled taken)
    (hquietThere : (more : K) ≤ s.quiet.mTokens) (hpolledThere : (taken : K) ≤ s.polled.mTokens)
    (hle : taken ≤ more) : KeepsUp rate burst s' clock := by
  have hlead : s'.lead = s.lead := by
    unfold lead
    rw [hquiet.reference_eq, hpolled.reference_eq]
  refine ⟨hlevel.quiet.takes hquietThere hquiet, hlevel.polled.takes hpolledThere hpolled, ?_, Or.inl ?_⟩
  · rw [hquiet.reference_eq, hpolled.reference_eq]
    exact hlevel.near
  · have hcast : (taken : K) ≤ more := by exact_mod_cast hle
    have hbehind := hlevel.behind
    rw [hlead, hquiet.tokens_eq, hpolled.tokens_eq]
    linarith

omit [IsStrictOrderedRing K] in
theorem KeepsUp.mono (hkeeps : KeepsUp rate burst s clock) (hnow : clock ≤ now) :
    KeepsUp rate burst s now :=
  { hkeeps with
    quiet := { hkeeps.quiet with reference_le := hkeeps.quiet.reference_le.trans hnow }
    polled := { hkeeps.polled with reference_le := hkeeps.polled.reference_le.trans hnow } }

theorem KeepsUp.shared (hkeeps : KeepsUp rate burst s clock) (hrate : 0 < rate) (hburst : 0 ≤ burst)
    {op : LimiterOp K} (hnow : clock ≤ op.now) (hcomparable : s.Comparable (.shared op)) :
    KeepsUp rate burst (s.step (.shared op)) op.now := by
  by_cases hasks : op.Asks
  · have hlevel := hkeeps.refilled hrate hburst hnow
    obtain ⟨more, hquietThere, hquiet, hmore⟩ :=
      call_of_asks hkeeps.quiet.algorithm hasks hlevel.quiet.tokens_nonneg
    obtain ⟨taken, hpolledThere, hpolled, htaken⟩ :=
      call_of_asks hkeeps.polled.algorithm hasks hlevel.polled.tokens_nonneg
    have hle : taken ≤ more := by
      have hgranted := permitsWhere_granted_le hcomparable fun _ => True
      rwa [hmore, htaken, if_pos trivial, if_pos trivial] at hgranted
    exact hlevel.taken hquiet hpolled hquietThere hpolledThere hle
  · have hsame : s.step (.shared op) = s := by
      change PolledPair.mk (s.quiet.call op).2 (s.polled.call op).2 = s
      rw [(s.quiet.call_of_not_asks hasks).1, (s.polled.call_of_not_asks hasks).1]
    rw [hsame]
    exact hkeeps.mono hnow

/-- A refill of the polled bucket alone, which drops nothing. -/
theorem KeepsUp.polledRefilled (hkeeps : KeepsUp rate burst s clock) (hrate : 0 < rate)
    (hburst : 0 ≤ burst) (hnow : clock ≤ now)
    (hdrops : now < s.polled.mLastRefillTime + 1 ∨
      (⌊now - s.polled.mLastRefillTime⌋ : K) = now - s.polled.mLastRefillTime) :
    KeepsUp rate burst { s with polled := s.polled.refillTokens now } now := by
  have hpast := hkeeps.polled.reference_le.trans hnow
  rcases lt_or_ge now (s.polled.mLastRefillTime + 1) with hwaits | hrefills
  · rw [refillTokens_of_lt hpast hwaits]
    exact hkeeps.mono hnow
  · have hwhole := hdrops.resolve_left (not_lt.mpr hrefills)
    have htokens := tokens_refillTokens hkeeps.polled hnow
    have hreference : (s.polled.refillTokens now).mLastRefillTime = now := by
      rw [refillTokens_of_le hrefills]
    have hquietPast := hkeeps.quiet.reference_le.trans hnow
    refine ⟨(hkeeps.mono hnow).quiet, (hkeeps.polled.refillTokens hrate hburst hnow).1, ?_, ?_⟩
    · change s.quiet.mLastRefillTime - 1 < (s.polled.refillTokens now).mLastRefillTime
      rw [hreference]
      linarith
    · change s.quiet.mTokens + (⌈(s.polled.refillTokens now).mLastRefillTime - _⌉ : K) * (rate / 1000) ≤
        (s.polled.refillTokens now).mTokens + rate / 1000 ∨ (s.polled.refillTokens now).mTokens = burst
      have hlead : ⌈now - s.quiet.mLastRefillTime⌉ = s.lead + ⌊now - s.polled.mLastRefillTime⌋ := by
        have hsum : now - s.quiet.mLastRefillTime =
            (s.polled.mLastRefillTime - s.quiet.mLastRefillTime) +
              (⌊now - s.polled.mLastRefillTime⌋ : K) := by
          rw [hwhole]
          ring
        rw [hsum, Int.ceil_add_intCast]
        rfl
      rw [htokens, hreference, hlead]
      push_cast
      rcases le_total (s.polled.mTokens + ⌊now - s.polled.mLastRefillTime⌋ * (rate / 1000)) burst with
        hbelow | hfull
      · rw [min_eq_left hbelow]
        apply hkeeps.behind.imp
        · intro hbehind
          linarith
        · intro hfull
          apply hbelow.antisymm
          have hcount : (0 : K) ≤ (⌊now - s.polled.mLastRefillTime⌋ : K) := by
            rw [hwhole]
            linarith
          have hgrown : 0 ≤ (⌊now - s.polled.mLastRefillTime⌋ : K) * (rate / 1000) := by positivity
          linarith
      · exact Or.inr (min_eq_right hfull)

theorem KeepsUp.extra (hkeeps : KeepsUp rate burst s clock) (hrate : 0 < rate) (hburst : 0 ≤ burst)
    {op : LimiterOp K} (hnow : clock ≤ op.now) (hcomparable : s.Comparable (.extra op))
    (hdrops : s.DropsNothing (.extra op)) : KeepsUp rate burst (s.step (.extra op)) op.now := by
  have hrefilled := hkeeps.polledRefilled hrate hburst hnow hdrops
  have htakes : Takes (s.polled.refillTokens op.now) (s.polled.call op).2 0 := by
    cases op with
    | availablePermits now =>
        change Takes _ (s.polled.availablePermits now).2 0
        rw [availablePermits_of_tokenBucket hkeeps.polled.algorithm]
        exact takes_zero _ _
    | tryAcquire permits now =>
        change (s.polled.tryAcquire now permits).1 = false at hcomparable
        change Takes _ (s.polled.tryAcquire now permits).2 0
        exact takes_of_rejected hkeeps.polled.algorithm hcomparable
  refine ⟨hrefilled.quiet, hrefilled.polled.takes ?_ htakes, ?_, ?_⟩
  · rw [Nat.cast_zero]
    exact hrefilled.polled.tokens_nonneg
  · change s.quiet.mLastRefillTime - 1 < (s.polled.call op).2.mLastRefillTime
    rw [htakes.reference_eq]
    exact hrefilled.near
  · change s.quiet.mTokens + (⌈(s.polled.call op).2.mLastRefillTime - _⌉ : K) * (rate / 1000) ≤
      (s.polled.call op).2.mTokens + rate / 1000 ∨ (s.polled.call op).2.mTokens = burst
    rw [htakes.reference_eq, htakes.tokens_eq, Nat.cast_zero, sub_zero]
    exact hrefilled.behind

omit [IsStrictOrderedRing K] in
/-- The burst that the constructor settles on, which is the whole part of the rate where none is given. -/
theorem burst_create_nonneg (hrate : 0 < rate) (burst : Int) (now : K) :
    0 ≤ (create .tokenBucket rate burst now).mBurstSize := by
  unfold create
  dsimp only
  split_ifs with hburst
  · exact hburst.le
  · rw [truncate_of_nonneg hrate.le]
    exact Int.floor_nonneg.mpr hrate.le

theorem keepsUp_start (hrate : 0 < rate) (burst : Int) (now : K) :
    KeepsUp rate (create .tokenBucket rate burst now).mBurstSize (start rate burst now) now := by
  have htokens : (0 : K) ≤ (create .tokenBucket rate burst now).mBurstSize := by
    exact_mod_cast burst_create_nonneg hrate burst now
  have hbucket : IsBucket rate (create .tokenBucket rate burst now).mBurstSize now
      (create .tokenBucket rate burst now) := ⟨rfl, if_pos hrate, rfl, htokens, le_rfl, le_rfl⟩
  refine ⟨hbucket, hbucket, sub_one_lt _, Or.inl ?_⟩
  have hlead : (start rate burst now).lead = 0 := by
    unfold lead
    exact (congrArg Int.ceil (sub_self _)).trans Int.ceil_zero
  rw [hlead, Int.cast_zero, zero_mul, add_zero]
  have hworth : 0 < rate / 1000 := by positivity
  exact le_add_of_nonneg_right hworth.le

/-- Where the extra calls of the one run drop no part of a millisecond, it is at no later time more than
one millisecond's worth of tokens behind the other. -/
theorem polled_keeps_up {permitsPerSec : K} (hrate : 0 < permitsPerSec) {burstSize : Int}
    {constructed : K} {labels : List (PolledOp K)}
    (hclock : (constructed :: labels.map PolledOp.now).Pairwise (· ≤ ·))
    (hcomparable : Along step Comparable (start permitsPerSec burstSize constructed) labels)
    (hdrops : Along step DropsNothing (start permitsPerSec burstSize constructed) labels) {later : K}
    (hlater : ∀ reading ∈ constructed :: labels.map PolledOp.now, reading ≤ later) :
    let s := run step (start permitsPerSec burstSize constructed) labels
    (s.quiet.availablePermits later).1 - permitsPerSec / 1000 ≤ (s.polled.availablePermits later).1 := by
  intro s
  obtain ⟨last, hlast, hkeeps⟩ : ∃ last ∈ constructed :: labels.map PolledOp.now,
      KeepsUp permitsPerSec (create .tokenBucket permitsPerSec burstSize constructed).mBurstSize s last := by
    have hburst := burst_create_nonneg hrate burstSize constructed
    apply (hcomparable.and hdrops).clocked_induction hclock (keepsUp_start hrate burstSize constructed)
    intro state clock label hstate hnow hcond
    cases label with
    | shared op => exact hstate.shared hrate hburst hnow hcond.1
    | extra op => exact hstate.extra hrate hburst hnow hcond.1 hcond.2
  have htokens := hkeeps.tokens_le hrate (hlater last hlast)
  rw [availablePermits_of_tokenBucket hkeeps.quiet.algorithm,
    availablePermits_of_tokenBucket hkeeps.polled.algorithm]
  exact sub_le_iff_le_add.mpr htokens

/-- The extra calls come half a millisecond and two milliseconds after the last refill. -/
def wholeRun : List (PolledOp ℚ) :=
  [.shared (.tryAcquire 10 0), .extra (.availablePermits (1 / 2)), .extra (.tryAcquire 5 2),
    .shared (.tryAcquire 2 (5 / 2))]

theorem polled_keeps_up_wholeRun :
    let s := run step (start 1000 10 0) wholeRun
    (s.quiet.availablePermits 4).1 - 1000 / 1000 ≤ (s.polled.availablePermits 4).1 :=
  polled_keeps_up (K := ℚ) (by norm_num) (by decide +kernel) (by decide +kernel) (by decide +kernel)
    (by decide +kernel)

/-- Polled every 1.9 milliseconds, a bucket that takes in one token a millisecond gets one token from
each of the first three. -/
def pollingRun : List (PolledOp ℚ) :=
  [.shared (.tryAcquire 10 0), .extra (.availablePermits (19 / 10)), .extra (.availablePermits (38 / 10)),
    .extra (.availablePermits (57 / 10))]

theorem polled_keeps_up_fails_pollingRun :
    ((0 : ℚ) :: pollingRun.map PolledOp.now).Pairwise (· ≤ ·) ∧
      Along step Comparable (start 1000 10 0) pollingRun ∧
      ¬ ((run step (start 1000 10 0) pollingRun).quiet.availablePermits (57 / 10)).1 - 1000 / 1000 ≤
        ((run step (start 1000 10 0) pollingRun).polled.availablePermits (57 / 10)).1 := by
  decide +kernel

end PolledPair

end SoulCoreKit.Network
