import Mathlib.Tactic.Linarith
import Mathlib.Tactic.Positivity
import Mathlib.Data.Rat.Floor
import SoulCoreKit.Lib.Run
import SoulCoreKit.Network.RateLimiter

/-!
# What a token bucket lets through

A refill counts whole milliseconds and, when there is none, leaves its reference alone, so after every
call the reference lies less than a millisecond back. The permits granted from some time on and the
tokens that are left are together at most the burst and what the reference has moved past that
millisecond.
-/

namespace SoulCoreKit.Network

namespace RateLimiter

variable {K : Type} [Field K] [LinearOrder K] [IsStrictOrderedRing K] [FloorRing K]
  {l : RateLimiter K} {now : K}

/-! ### Refills -/

theorem refillTokens_of_lt (hpast : l.mLastRefillTime ≤ now) (hlt : now < l.mLastRefillTime + 1) :
    l.refillTokens now = l := by
  have hfloor : ⌊now - l.mLastRefillTime⌋ ≤ 0 := by
    rw [Int.floor_le_iff]
    push_cast
    linarith
  unfold refillTokens
  rw [truncate_of_nonneg (sub_nonneg.mpr hpast)]
  exact if_pos hfloor

theorem refillTokens_of_le (hle : l.mLastRefillTime + 1 ≤ now) :
    l.refillTokens now =
      { l with
        mTokens :=
          min (l.mTokens + ⌊now - l.mLastRefillTime⌋ / 1000 * l.mPermitsPerSec) l.mBurstSize
        mLastRefillTime := now } := by
  have hgap : (1 : K) ≤ now - l.mLastRefillTime := by linarith
  have hfloor : ¬ ⌊now - l.mLastRefillTime⌋ ≤ 0 := by
    have hone : (1 : Int) ≤ ⌊now - l.mLastRefillTime⌋ := Int.le_floor.mpr (by push_cast; exact hgap)
    omega
  unfold refillTokens
  rw [truncate_of_nonneg (by linarith)]
  exact if_neg hfloor

/-- A token bucket of the rate and the burst, whose last refill is not after the reading. -/
structure IsBucket (rate : K) (burst : Int) (clock : K) (l : RateLimiter K) : Prop where
  algorithm : l.mAlgorithm = .tokenBucket
  rate_eq : l.mPermitsPerSec = rate
  burst_eq : l.mBurstSize = burst
  tokens_nonneg : 0 ≤ l.mTokens
  tokens_le : l.mTokens ≤ burst
  reference_le : l.mLastRefillTime ≤ clock

variable {rate clock : K} {burst : Int}

/-- After a refill the reference is less than a millisecond back, and the tokens have grown by no more
than what came in since it was there before. -/
structure Refilled (rate : K) (now : K) (l l' : RateLimiter K) : Prop where
  reference_lt : now - 1 < l'.mLastRefillTime
  tokens_le_add :
    l'.mTokens ≤ l.mTokens + rate * (l'.mLastRefillTime - l.mLastRefillTime) / 1000

theorem IsBucket.refillTokens (hbucket : IsBucket rate burst clock l) (hrate : 0 < rate)
    (hburst : 0 ≤ burst) (hnow : clock ≤ now) :
    IsBucket rate burst now (l.refillTokens now) ∧ Refilled rate now l (l.refillTokens now) := by
  have hpast : l.mLastRefillTime ≤ now := hbucket.reference_le.trans hnow
  rcases lt_or_ge now (l.mLastRefillTime + 1) with hlt | hle
  · rw [refillTokens_of_lt hpast hlt]
    refine ⟨{ hbucket with reference_le := hpast }, ?_, ?_⟩
    · linarith
    · rw [sub_self, mul_zero, zero_div, add_zero]
  · have hgap : (0 : K) ≤ now - l.mLastRefillTime := sub_nonneg.mpr hpast
    have hfloor : (0 : K) ≤ (⌊now - l.mLastRefillTime⌋ : K) := by
      exact_mod_cast Int.floor_nonneg.mpr hgap
    have hnew : 0 ≤ (⌊now - l.mLastRefillTime⌋ : K) / 1000 * rate := by positivity
    rw [refillTokens_of_le hle, hbucket.rate_eq, hbucket.burst_eq]
    refine ⟨⟨hbucket.algorithm, rfl, rfl, ?_, min_le_right _ _, le_rfl⟩, ?_, ?_⟩
    · apply le_min
      · exact add_nonneg hbucket.tokens_nonneg hnew
      · exact_mod_cast hburst
    · exact sub_one_lt now
    · apply (min_le_left _ _).trans
      dsimp only
      have hwhole : (⌊now - l.mLastRefillTime⌋ : K) ≤ now - l.mLastRefillTime := Int.floor_le _
      have hscaled := mul_le_mul_of_nonneg_left hwhole hrate.le
      linarith

/-- A change of the rate makes a bucket of that rate, with no more tokens than before. -/
theorem IsBucket.setPermitsPerSec (hbucket : IsBucket rate burst clock l) {permitsPerSec : K}
    (hrate : 0 < permitsPerSec) :
    IsBucket permitsPerSec (truncate permitsPerSec) clock (l.setPermitsPerSec permitsPerSec) := by
  have hwhole : 0 ≤ truncate permitsPerSec := by
    rw [truncate_of_nonneg hrate.le]
    exact Int.floor_nonneg.mpr hrate.le
  unfold RateLimiter.setPermitsPerSec
  rw [if_neg (not_le.mpr hrate)]
  exact ⟨hbucket.algorithm, rfl, rfl, le_min hbucket.tokens_nonneg (by exact_mod_cast hwhole),
    min_le_right _ _, hbucket.reference_le⟩

/-! ### Calls -/

/-- `l'` is `l` less some tokens, as far as the bucket goes. -/
structure Takes (l l' : RateLimiter K) (amount : Nat) : Prop where
  algorithm : l'.mAlgorithm = l.mAlgorithm
  rate_eq : l'.mPermitsPerSec = l.mPermitsPerSec
  burst_eq : l'.mBurstSize = l.mBurstSize
  reference_eq : l'.mLastRefillTime = l.mLastRefillTime
  tokens_eq : l'.mTokens = l.mTokens - amount

omit [IsStrictOrderedRing K] [LinearOrder K] [FloorRing K] in
theorem takes_zero (l : RateLimiter K) (rejected : UInt64) :
    Takes l { l with mRejected := rejected } 0 :=
  ⟨rfl, rfl, rfl, rfl, by rw [Nat.cast_zero, sub_zero]⟩

omit [IsStrictOrderedRing K] in
theorem tryAcquire_of_nonpos {permits : Int} (hnone : permits ≤ 0) :
    l.tryAcquire now permits = (true, l) :=
  if_pos hnone

omit [IsStrictOrderedRing K] in
theorem tryAcquire_of_pos {permits : Int} (hpos : 0 < permits) (halgorithm : l.mAlgorithm = .tokenBucket) :
    l.tryAcquire now permits = l.tryAcquireTokenBucket now permits := by
  unfold tryAcquire
  rw [if_neg (not_le.mpr hpos), halgorithm]

omit [IsStrictOrderedRing K] in
theorem availablePermits_of_tokenBucket (halgorithm : l.mAlgorithm = .tokenBucket) :
    l.availablePermits now = ((l.refillTokens now).mTokens, l.refillTokens now) := by
  unfold availablePermits
  rw [halgorithm]

omit [IsStrictOrderedRing K] in
/-- A call for no permits leaves the bucket alone. -/
theorem call_of_not_asks {op : LimiterOp K} (hnone : ¬ op.Asks) :
    (l.call op).2 = l ∧ ∀ (within : K → Prop) [DecidablePred within],
      permitsWhere within (l.granted op) = 0 := by
  cases op with
  | availablePermits now => exact absurd trivial hnone
  | tryAcquire permits now =>
      have hcall : l.tryAcquire now permits = (true, l) := tryAcquire_of_nonpos (not_lt.mp hnone)
      refine ⟨congrArg Prod.snd hcall, ?_⟩
      intro within _
      simp [granted, hcall, Int.toNat_of_nonpos (not_lt.mp hnone)]

omit [IsStrictOrderedRing K] in
/-- Any other call refills it and takes an amount that is there. -/
theorem call_of_asks (halgorithm : l.mAlgorithm = .tokenBucket) {op : LimiterOp K} (hasks : op.Asks)
    (htokens : 0 ≤ (l.refillTokens op.now).mTokens) :
    ∃ amount : Nat, (amount : K) ≤ (l.refillTokens op.now).mTokens ∧
      Takes (l.refillTokens op.now) (l.call op).2 amount ∧
      ∀ (within : K → Prop) [DecidablePred within],
        permitsWhere within (l.granted op) = if within op.now then amount else 0 := by
  cases op with
  | availablePermits now =>
      refine ⟨0, by rwa [Nat.cast_zero], ?_, ?_⟩
      · change Takes (l.refillTokens now) (l.availablePermits now).2 0
        rw [availablePermits_of_tokenBucket halgorithm]
        exact takes_zero _ _
      · intro within _
        exact (ite_self 0).symm
  | tryAcquire permits now =>
      have hcall : l.tryAcquire now permits = l.tryAcquireTokenBucket now permits :=
        tryAcquire_of_pos hasks halgorithm
      by_cases hthere : (l.refillTokens now).mTokens ≥ permits
      · have hcast : ((permits.toNat : Nat) : K) = permits := by
          rw [← Int.cast_natCast, Int.toNat_of_nonneg (le_of_lt hasks)]
        have hgranted := hcall.trans (if_pos hthere)
        refine ⟨permits.toNat, hcast.trans_le hthere, ?_, ?_⟩
        · change Takes (l.refillTokens now) (l.tryAcquire now permits).2 permits.toNat
          rw [hgranted]
          exact ⟨rfl, rfl, rfl, rfl, by rw [hcast]⟩
        · intro within _
          rw [granted_tryAcquire, hgranted]
          exact permitsWhere_singleton _
      · have hrejected := hcall.trans (if_neg hthere)
        refine ⟨0, by rwa [Nat.cast_zero], ?_, ?_⟩
        · change Takes (l.refillTokens now) (l.tryAcquire now permits).2 0
          rw [hrejected]
          exact takes_zero _ _
        · intro within _
          simp [granted, hrejected]

omit [FloorRing K] in
theorem IsBucket.takes {l' : RateLimiter K} {amount : Nat} (hbucket : IsBucket rate burst clock l)
    (hthere : (amount : K) ≤ l.mTokens) (htakes : Takes l l' amount) : IsBucket rate burst clock l' where
  algorithm := htakes.algorithm.trans hbucket.algorithm
  rate_eq := htakes.rate_eq.trans hbucket.rate_eq
  burst_eq := htakes.burst_eq.trans hbucket.burst_eq
  tokens_nonneg := by
    rw [htakes.tokens_eq]
    exact sub_nonneg.mpr hthere
  tokens_le := by
    rw [htakes.tokens_eq]
    exact (sub_le_self _ (Nat.cast_nonneg amount)).trans hbucket.tokens_le
  reference_le := htakes.reference_eq.trans_le hbucket.reference_le

end RateLimiter

namespace LimiterRun

open RateLimiter

variable {K : Type} [Field K] [LinearOrder K] [IsStrictOrderedRing K] [FloorRing K]
  {rate since clock : K} {burst : Int} {s : LimiterRun K}

/-- What the permits granted from the time `since` on and the tokens that are left come to at most. -/
def Within (rate : K) (burst : Int) (since : K) (granted : Nat) (l : RateLimiter K) : Prop :=
  granted + l.mTokens ≤ burst + rate * (l.mLastRefillTime - since + 1) / secondMs

/-- Nothing was granted from the time on, or no more than what came in. -/
def Accounted (rate : K) (burst : Int) (since : K) (grants : List (Grant K)) (l : RateLimiter K) :
    Prop :=
  permitsWhere (since ≤ ·) grants = 0 ∨ Within rate burst since (permitsWhere (since ≤ ·) grants) l

/-- The bucket and the grants, as seen from the time `since`. -/
structure Metered (rate : K) (burst : Int) (since : K) (s : LimiterRun K) (clock : K) : Prop where
  bucket : IsBucket rate burst clock s.limiter
  accounted : Accounted rate burst since s.grants s.limiter
  bounded : ∀ upTo, since ≤ upTo →
    (permitsWhere (fun time => since ≤ time ∧ time ≤ upTo) s.grants : K) ≤
      burst + rate * (upTo - since + 1) / 1000

/-- Nothing was granted from the time on, and the first refill after it comes. -/
theorem within_zero {l l' : RateLimiter K} {now : K} (hrate : 0 < rate) (hsince : since ≤ now)
    (hfull : l'.mTokens ≤ burst) (hrefilled : Refilled rate now l l') :
    Within rate burst since 0 l' := by
  have hreference := hrefilled.reference_lt
  have hpast : (0 : K) ≤ l'.mLastRefillTime - since + 1 := by linarith
  have hcome : 0 ≤ rate * (l'.mLastRefillTime - since + 1) / 1000 := by positivity
  unfold Within secondMs
  rw [Nat.cast_zero, zero_add]
  linarith

omit [FloorRing K] in
theorem Within.refilled {l l' : RateLimiter K} {now : K} {granted : Nat}
    (hwithin : Within rate burst since granted l) (hrefilled : Refilled rate now l l') :
    Within rate burst since granted l' := by
  have hadded := hrefilled.tokens_le_add
  unfold Within secondMs at hwithin ⊢
  calc (granted : K) + l'.mTokens
      ≤ granted + (l.mTokens + rate * (l'.mLastRefillTime - l.mLastRefillTime) / 1000) := by gcongr
    _ ≤ burst + rate * (l.mLastRefillTime - since + 1) / 1000
        + rate * (l'.mLastRefillTime - l.mLastRefillTime) / 1000 := by linarith
    _ = burst + rate * (l'.mLastRefillTime - since + 1) / 1000 := by ring

omit [FloorRing K] in
/-- Taking tokens turns them into granted permits. -/
theorem Within.takes {l l' : RateLimiter K} {granted amount : Nat}
    (hwithin : Within rate burst since granted l) (htakes : Takes l l' amount) :
    Within rate burst since (granted + amount) l' := by
  unfold Within secondMs at hwithin ⊢
  rw [htakes.tokens_eq, htakes.reference_eq]
  push_cast
  linarith

omit [FloorRing K] in
theorem Within.mono {l : RateLimiter K} {granted fewer : Nat}
    (hwithin : Within rate burst since granted l) (hle : fewer ≤ granted) :
    Within rate burst since fewer l := by
  have hcast : (fewer : K) ≤ granted := by exact_mod_cast hle
  unfold Within secondMs at hwithin ⊢
  linarith

/-- A call that refills the bucket and takes an amount. -/
theorem Accounted.taken {l l' : RateLimiter K} {now : K} {grants added : List (Grant K)} {amount : Nat}
    (haccounted : Accounted rate burst since grants l) (hrate : 0 < rate)
    (hfull : (l.refillTokens now).mTokens ≤ burst) (hrefilled : Refilled rate now l (l.refillTokens now))
    (htakes : Takes (l.refillTokens now) l' amount)
    (hamount : permitsWhere (since ≤ ·) added = if since ≤ now then amount else 0) :
    Accounted rate burst since (grants ++ added) l' := by
  unfold Accounted
  rw [permitsWhere_append, hamount]
  rcases le_or_gt since now with hsince | hbefore
  · have hwithin : Within rate burst since (permitsWhere (since ≤ ·) grants) (l.refillTokens now) := by
      rcases haccounted with hzero | hwithin
      · rw [hzero]
        exact within_zero hrate hsince hfull hrefilled
      · exact hwithin.refilled hrefilled
    rw [if_pos hsince]
    exact Or.inr (hwithin.takes htakes)
  · rw [if_neg (not_le.mpr hbefore), add_zero]
    apply haccounted.imp_right
    intro hwithin
    exact ((hwithin.refilled hrefilled).takes htakes).mono (Nat.le_add_right _ _)

omit [FloorRing K] in
/-- What is granted up to a time that is not before the reading. -/
theorem Accounted.bounded {l : RateLimiter K} {now upTo : K} {grants : List (Grant K)}
    (haccounted : Accounted rate burst since grants l) (hrate : 0 < rate) (hburst : 0 ≤ burst)
    (hbucket : IsBucket rate burst now l) (hsince : since ≤ upTo) (hnow : now ≤ upTo) :
    (permitsWhere (fun time => since ≤ time ∧ time ≤ upTo) grants : K) ≤
      burst + rate * (upTo - since + 1) / 1000 := by
  have hfewer : (permitsWhere (fun time => since ≤ time ∧ time ≤ upTo) grants : K) ≤
      permitsWhere (since ≤ ·) grants := by
    rw [Nat.cast_le]
    apply permitsWhere_mono
    intro grant _ hin
    exact hin.1
  have hspan : (0 : K) ≤ upTo - since + 1 := by linarith
  rcases haccounted with hzero | hwithin
  · have hpos : (0 : K) ≤ burst := by exact_mod_cast hburst
    rw [hzero, Nat.cast_zero] at hfewer
    exact hfewer.trans (by positivity)
  · have hreference := hbucket.reference_le.trans hnow
    have htokens := hbucket.tokens_nonneg
    unfold Within secondMs at hwithin
    calc (permitsWhere (fun time => since ≤ time ∧ time ≤ upTo) grants : K)
        ≤ burst + rate * (l.mLastRefillTime - since + 1) / 1000 := by linarith
      _ ≤ burst + rate * (upTo - since + 1) / 1000 := by gcongr

theorem Metered.step (hmetered : Metered rate burst since s clock) (hrate : 0 < rate)
    (hburst : 0 ≤ burst) {op : LimiterOp K} (hnow : clock ≤ op.now) :
    Metered rate burst since (s.step op) op.now := by
  have hstep : s.step op = ⟨(s.limiter.call op).2, s.grants ++ s.limiter.granted op⟩ := rfl
  rw [hstep]
  by_cases hasks : op.Asks
  · obtain ⟨hbucket, hrefilled⟩ := hmetered.bucket.refillTokens hrate hburst hnow
    obtain ⟨amount, hthere, htakes, hamount⟩ :=
      call_of_asks hmetered.bucket.algorithm hasks hbucket.tokens_nonneg
    have hafter := hbucket.takes hthere htakes
    have haccounted := hmetered.accounted.taken hrate hbucket.tokens_le hrefilled htakes (hamount _)
    refine ⟨hafter, haccounted, ?_⟩
    intro upTo hsince
    rcases lt_or_ge upTo op.now with hlater | hcovered
    · have houtside : ¬ (since ≤ op.now ∧ op.now ≤ upTo) := fun hin =>
        absurd hin.2 (not_le.mpr hlater)
      rw [permitsWhere_append, hamount, if_neg houtside, add_zero]
      exact hmetered.bounded upTo hsince
    · exact haccounted.bounded hrate hburst hafter hsince hcovered
  · obtain ⟨hsame, hnothing⟩ := s.limiter.call_of_not_asks hasks
    rw [hsame]
    refine ⟨{ hmetered.bucket with reference_le := hmetered.bucket.reference_le.trans hnow }, ?_, ?_⟩
    · unfold Accounted
      rw [permitsWhere_append, hnothing, add_zero]
      exact hmetered.accounted
    · intro upTo hsince
      rw [permitsWhere_append, hnothing, add_zero]
      exact hmetered.bounded upTo hsince

theorem metered_start (hrate : 0 < rate) (hburst : 1 ≤ burst) (since now : K) :
    Metered rate burst since (start .tokenBucket rate burst now) now := by
  have hlimiter : (start .tokenBucket rate burst now).limiter =
      { mAlgorithm := .tokenBucket, mPermitsPerSec := rate, mBurstSize := burst, mTokens := burst,
        mLastRefillTime := now } := by
    unfold start create
    dsimp only
    rw [if_pos hrate, if_pos (by omega)]
  have hpos : (0 : K) ≤ burst := by exact_mod_cast (by omega : (0 : Int) ≤ burst)
  refine ⟨?_, Or.inl rfl, ?_⟩
  · rw [hlimiter]
    exact ⟨rfl, rfl, rfl, hpos, le_rfl, le_rfl⟩
  · intro upTo hupTo
    have hspan : (0 : K) ≤ upTo - since + 1 := by linarith
    change ((0 : Nat) : K) ≤ _
    rw [Nat.cast_zero]
    positivity

/-- However a token bucket is called, its tokens stay between zero and the burst, and no more permits
are granted between two times than the burst and what comes in meanwhile, counted a millisecond too
long. -/
theorem permits_bounded {permitsPerSec : K} (hrate : 0 < permitsPerSec) {burstSize : Int}
    (hburst : 1 ≤ burstSize) {constructed : K} {ops : List (LimiterOp K)}
    (hclock : (constructed :: ops.map LimiterOp.now).Pairwise (· ≤ ·)) :
    let s := run step (start .tokenBucket permitsPerSec burstSize constructed) ops
    (0 ≤ s.limiter.mTokens ∧ s.limiter.mTokens ≤ burstSize) ∧
      ∀ since upTo, since ≤ upTo →
        (permitsWhere (fun time => since ≤ time ∧ time ≤ upTo) s.grants : K) ≤
          burstSize + permitsPerSec * (upTo - since + 1) / 1000 := by
  intro s
  have hany : Along step (fun _ _ => True) (start .tokenBucket permitsPerSec burstSize constructed) ops :=
    Along.of_forall (fun _ _ => trivial) ops
  have hmetered : ∀ since, ∃ last ∈ constructed :: ops.map LimiterOp.now,
      Metered permitsPerSec burstSize since s last := by
    intro since
    apply hany.clocked_induction hclock (metered_start hrate hburst since constructed)
    intro state clock op hstate hnow _
    exact hstate.step hrate (by omega) hnow
  constructor
  · obtain ⟨_, _, hlast⟩ := hmetered constructed
    exact ⟨hlast.bucket.tokens_nonneg, hlast.bucket.tokens_le⟩
  · intro since upTo hupTo
    obtain ⟨_, _, hlast⟩ := hmetered since
    exact hlast.bounded upTo hupTo

/-- A burst, and two calls while half a millisecond has come in. -/
def burstRun : List (LimiterOp ℚ) :=
  [.tryAcquire 10 0, .tryAcquire 1 (1 / 2), .availablePermits (1 / 2), .tryAcquire 1 (3 / 2)]

theorem permits_bounded_burstRun :
    (permitsWhere (fun time => 0 ≤ time ∧ time ≤ 3 / 2)
        (run step (start .tokenBucket 1000 10 0) burstRun).grants : ℚ) ≤
      10 + 1000 * (3 / 2 - 0 + 1) / 1000 :=
  (permits_bounded (by norm_num) (by decide) (by simp [burstRun, LimiterOp.now]; norm_num)).2 0 (3 / 2)
    (by norm_num)

example :
    permitsWhere (fun _ => True) (run step (start .tokenBucket 1000 10 0) burstRun).grants = 11 := by
  decide +kernel

end LimiterRun

end SoulCoreKit.Network
