import Mathlib.Algebra.Order.Ring.Int
import Mathlib.Tactic.Linarith
import SoulCoreKit.Network.Policy
import SoulCoreKit.Proof.RetryContract

/-!
# Delays that double

Both policies double by a shift in a fixed width. The retry policy has no cap, and the reconnect policy
caps the product after it was computed, so where the product no longer fits there is nothing to cap. A
count of retries that nothing bounds gets there.
-/

namespace SoulCoreKit.Network

namespace RetryPolicy

/-- The delay of the strategy. -/
def delayOf (policy : RetryPolicy) (attempt : Nat) : Int :=
  match policy.mStrategy with
  | .fixedInterval => policy.baseDelay
  | .exponentialBackoff => policy.baseDelay * 2 ^ attempt
  | .linearBackoff => policy.baseDelay * (attempt + 1)

/-- The delay can be computed, is not negative, and is that of the strategy. -/
def Delays (policy : RetryPolicy) (attempt : Nat) : Prop :=
  ∃ delay, policy.nextDelay attempt = some delay ∧ 0 ≤ delay ∧ delay = policy.delayOf attempt

theorem eq_of_intValue {value delay : Int} (hvalue : intValue value = some delay) : delay = value := by
  unfold intValue at hvalue
  split_ifs at hvalue
  exact (Option.some.inj hvalue).symm

/-- A delay that is computed and not negative is that of the strategy. -/
theorem eq_delayOf {policy : RetryPolicy} {attempt : Nat}
    (hattempt : (attempt : Int) < policy.maxRetries) (hbase : 0 ≤ policy.baseDelay) {delay : Int}
    (hdelay : policy.nextDelay attempt = some delay) (hnonneg : 0 ≤ delay) :
    delay = policy.delayOf attempt := by
  rw [nextDelay, if_neg (not_le.mpr hattempt)] at hdelay
  unfold delayOf
  cases hstrategy : policy.mStrategy with
  | fixedInterval =>
      rw [hstrategy] at hdelay
      exact (Option.some.inj hdelay).symm
  | exponentialBackoff =>
      rw [hstrategy] at hdelay
      obtain ⟨factor, hfactor, hproduct⟩ := Option.bind_eq_some_iff.mp hdelay
      have hcomputed := eq_of_intValue hproduct
      unfold oneShifted at hfactor
      split_ifs at hfactor with hlarge hsign
      · -- the sign bit: only a base of zero gives a delay that is not negative
        have hleast := Option.some.inj hfactor
        have hzero : policy.baseDelay = 0 := by
          rw [hcomputed, ← hleast] at hnonneg
          omega
        rw [hcomputed, hzero, zero_mul]
        exact (zero_mul _).symm
      · have hshifted := Option.some.inj hfactor
        rw [hcomputed, ← hshifted, Int.toNat_natCast]
  | linearBackoff =>
      rw [hstrategy] at hdelay
      obtain ⟨factor, hfactor, hproduct⟩ := Option.bind_eq_some_iff.mp hdelay
      rw [eq_of_intValue hproduct, eq_of_intValue hfactor]

theorem delays_iff {policy : RetryPolicy} (hbase : 0 ≤ policy.baseDelay) {attempt : Nat}
    (hattempt : (attempt : Int) < policy.maxRetries) : policy.Delays attempt ↔ policy.Fits attempt := by
  rw [← nextDelay_nonneg_iff hbase hattempt]
  constructor
  · rintro ⟨delay, hdelay, hnonneg, -⟩
    exact ⟨delay, hdelay, hnonneg⟩
  · rintro ⟨delay, hdelay, hnonneg⟩
    exact ⟨delay, hdelay, hnonneg, eq_delayOf hattempt hbase hdelay hnonneg⟩

end RetryPolicy

namespace ReconnectPolicy

variable {policy : ReconnectPolicy}

/-- The policy after so many retries since the last reset. -/
def after (policy : ReconnectPolicy) : Nat → Option ReconnectPolicy
  | 0 => some policy.resetRetry
  | n + 1 => (policy.after n).bind incrementRetry

/-- The interval after so many retries. -/
def intervalAfter (policy : ReconnectPolicy) (n : Nat) : Option Int :=
  (policy.after n).bind nextRetryInterval

/-- As far as this retry, every interval can be computed, lies between the base (or the maximum, if that
is less) and the maximum, and is not less than those before. -/
def BacksOff (policy : ReconnectPolicy) (n : Nat) : Prop :=
  ∀ m ≤ n, ∃ interval, policy.intervalAfter m = some interval ∧
    min policy.baseInterval policy.maxInterval ≤ interval ∧ interval ≤ policy.maxInterval ∧
      ∀ k ≤ m, ∀ earlier, policy.intervalAfter k = some earlier → earlier ≤ interval

/-- The product that the cap is applied to can be computed. -/
def Fits (policy : ReconnectPolicy) (n : Nat) : Prop :=
  n = 0 ∨ n ≤ 63 ∧ policy.baseInterval * 2 ^ n < 2 ^ 63

instance (n : Nat) : Decidable (policy.Fits n) := inferInstanceAs (Decidable (_ ∨ _))

theorem Fits.mono {m n : Nat} (hbase : 0 ≤ policy.baseInterval) (hfits : policy.Fits n) (hle : m ≤ n) :
    policy.Fits m := by
  rcases hfits with hzero | ⟨hcount, hproduct⟩
  · exact Or.inl (by omega)
  · refine Or.inr ⟨hle.trans hcount, ?_⟩
    have hpow : (2 : Int) ^ m ≤ 2 ^ n := pow_le_pow_right₀ (by decide) hle
    exact (mul_le_mul_of_nonneg_left hpow hbase).trans_lt hproduct

theorem after_eq {n : Nat} (hn : n ≤ 64) : policy.after n = some { policy with mCurrentRetry := n } := by
  induction n with
  | zero => rfl
  | succ n ih =>
      have hvalue : RetryPolicy.intValue ((n : Int) + 1) = some ((n : Int) + 1) := by
        unfold RetryPolicy.intValue
        rw [if_pos (by omega)]
      rw [after, ih (by omega), Option.bind_some, incrementRetry, hvalue]
      rfl

theorem oneShifted_of_lt {n : Nat} (hn : n < 63) : oneShifted n = some (2 ^ n) := by
  unfold oneShifted
  rw [if_neg (by omega), if_neg (by omega), Int.toNat_natCast]

theorem intervalAfter_zero : policy.intervalAfter 0 = some policy.baseInterval := rfl

theorem intervalAfter_eq {n : Nat} (hpos : 0 < n) (hn : n ≤ 64) :
    policy.intervalAfter n =
      (oneShifted n).bind fun factor => (longValue (policy.baseInterval * factor)).bind fun interval =>
        some (min interval policy.maxInterval) := by
  unfold intervalAfter
  rw [after_eq hn, Option.bind_some]
  exact if_neg (by simp; omega)

theorem intervalAfter_of_fits {n : Nat} (hbase : 0 ≤ policy.baseInterval)
    (hmax : policy.baseInterval ≤ policy.maxInterval) (hfits : policy.Fits n) :
    policy.intervalAfter n = some (min (policy.baseInterval * 2 ^ n) policy.maxInterval) := by
  rcases hfits with rfl | ⟨hcount, hproduct⟩
  · rw [intervalAfter_zero, pow_zero, mul_one, min_eq_left hmax]
  · rcases Nat.eq_zero_or_pos n with rfl | hpos
    · rw [intervalAfter_zero, pow_zero, mul_one, min_eq_left hmax]
    · rw [intervalAfter_eq hpos (by omega)]
      rcases Nat.lt_or_eq_of_le hcount with hlt | rfl
      · have hvalue : longValue (policy.baseInterval * 2 ^ n) = some (policy.baseInterval * 2 ^ n) := by
          have hnonneg : 0 ≤ policy.baseInterval * 2 ^ n := by positivity
          exact if_pos ⟨by omega, hproduct⟩
        rw [oneShifted_of_lt hlt, Option.bind_some, hvalue]
        rfl
      · have hzero : policy.baseInterval = 0 := by omega
        rw [hzero]
        rfl

theorem lt_of_not_fits {n : Nat} (hbase : 0 ≤ policy.baseInterval) (hmax : 0 ≤ policy.maxInterval)
    (hn : n ≤ 64) (hfits : ¬ policy.Fits n) {interval : Int}
    (hinterval : policy.intervalAfter n = some interval) :
    interval < min policy.baseInterval policy.maxInterval := by
  have hpos : 0 < n := by
    by_contra hzero
    exact hfits (Or.inl (by omega))
  rw [intervalAfter_eq hpos hn] at hinterval
  obtain ⟨factor, hfactor, hrest⟩ := Option.bind_eq_some_iff.mp hinterval
  obtain ⟨product, hproduct, hmin⟩ := Option.bind_eq_some_iff.mp hrest
  unfold longValue at hproduct
  split_ifs at hproduct with hrange
  rcases Nat.lt_or_ge n 63 with hlt | hge
  · rw [oneShifted_of_lt hlt, Option.some.injEq] at hfactor
    rw [← hfactor] at hrange
    exact absurd (Or.inr ⟨hlt.le, hrange.2⟩) hfits
  · unfold oneShifted at hfactor
    split_ifs at hfactor with hwidth hsign
    · have hleast := Option.some.inj hfactor
      have hcount : n = 63 := by omega
      have hone : 1 ≤ policy.baseInterval := by
        by_contra hsmall
        have hzero : policy.baseInterval = 0 := by omega
        exact hfits (Or.inr ⟨by omega, by rw [hzero, zero_mul]; decide⟩)
      have hnegative : product < 0 := by
        rw [← Option.some.inj hproduct, ← hleast]
        omega
      have hinterval : interval ≤ product := by
        rw [← Option.some.inj hmin]
        exact min_le_left _ _
      exact (hinterval.trans_lt hnegative).trans_le (le_min hbase hmax)
    · omega

theorem backsOff_of_fits {n : Nat} (hbase : 0 ≤ policy.baseInterval)
    (hmax : policy.baseInterval ≤ policy.maxInterval) (hfits : policy.Fits n) : policy.BacksOff n := by
  intro m hm
  have hfitsM := hfits.mono hbase hm
  refine ⟨_, intervalAfter_of_fits hbase hmax hfitsM, ?_, min_le_right _ _, ?_⟩
  · have hgrown : policy.baseInterval ≤ policy.baseInterval * 2 ^ m :=
      le_mul_of_one_le_right hbase (one_le_pow₀ (by decide))
    exact min_le_min_right _ hgrown
  · intro k hk earlier hearlier
    rw [intervalAfter_of_fits hbase hmax (hfitsM.mono hbase hk), Option.some.injEq] at hearlier
    rw [← hearlier]
    have hpow : (2 : Int) ^ k ≤ 2 ^ m := pow_le_pow_right₀ (by decide) hk
    exact min_le_min_right _ (mul_le_mul_of_nonneg_left hpow hbase)

theorem backsOff_iff (hbase : 0 ≤ policy.baseInterval) (hmax : 0 ≤ policy.maxInterval) (n : Nat) :
    policy.BacksOff n ↔ policy.baseInterval ≤ policy.maxInterval ∧ policy.Fits n := by
  constructor
  · intro hbacks
    constructor
    · obtain ⟨interval, hinterval, -, hcapped, -⟩ := hbacks 0 (Nat.zero_le n)
      rwa [← Option.some.inj hinterval] at hcapped
    · by_contra hfits
      -- the first count of retries that goes wrong is at most 64
      have hfitsM : ¬ policy.Fits (min n 64) := by
        rcases le_total n 64 with hsmall | hlarge
        · rwa [min_eq_left hsmall]
        · rw [min_eq_right hlarge]
          rintro (hzero | ⟨hcount, -⟩) <;> omega
      obtain ⟨interval, hinterval, hleast, -, -⟩ := hbacks (min n 64) (min_le_left _ _)
      exact absurd hleast
        (not_le.mpr (lt_of_not_fits hbase hmax (min_le_right _ _) hfitsM hinterval))
  · rintro ⟨hle, hfits⟩
    exact backsOff_of_fits hbase hle hfits

end ReconnectPolicy

/-- The delays of the retry policy, and the intervals of the reconnect policy after any number of
retries, are computed and what they should be exactly as long as the products fit, and for the intervals
if the base is at most the maximum. -/
theorem backoff_iff_fits {retry : RetryPolicy} (hdelay : 0 ≤ retry.baseDelay) {attempt : Nat}
    (hattempt : (attempt : Int) < retry.maxRetries) {reconnect : ReconnectPolicy}
    (hbase : 0 ≤ reconnect.baseInterval) (hmax : 0 ≤ reconnect.maxInterval) (n : Nat) :
    (retry.Delays attempt ↔ retry.Fits attempt) ∧
      (reconnect.BacksOff n ↔ reconnect.baseInterval ≤ reconnect.maxInterval ∧ reconnect.Fits n) :=
  ⟨RetryPolicy.delays_iff hdelay hattempt, ReconnectPolicy.backsOff_iff hbase hmax n⟩

theorem backoff_iff_fits_default :
    RetryPolicy.Delays {} 2 ∧ ReconnectPolicy.BacksOff {} 53 := by
  obtain ⟨hdelays, hbacks⟩ := @backoff_iff_fits {} (by decide) 2 (by decide) {} (by decide) (by decide) 53
  exact ⟨hdelays.mpr ⟨by decide, by decide⟩, hbacks.mpr (by decide)⟩

/-- Attempt 22 of forty, and retry 54 of the policy as it is constructed: neither can be computed. -/
theorem backoff_overflows :
    ¬ RetryPolicy.Delays { mMaxRetries := 40 } 22 ∧ ¬ ReconnectPolicy.BacksOff {} 54 := by
  constructor
  · rintro ⟨delay, hdelay, -⟩
    have hnone : RetryPolicy.nextDelay { mMaxRetries := 40 } ((22 : Nat) : Int) = none := by decide
    rw [hnone] at hdelay
    cases hdelay
  · intro hbacks
    obtain ⟨interval, hinterval, -⟩ := hbacks 54 le_rfl
    have hnone : ReconnectPolicy.intervalAfter {} 54 = none := by decide
    rw [hnone] at hinterval
    cases hinterval

end SoulCoreKit.Network
