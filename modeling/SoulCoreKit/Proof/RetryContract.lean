import SoulCoreKit.Network.HttpClient

/-!
# The retry contract

The policy counts the retries it allows from zero and answers `-1` from its limit on; the client asks it
with the number of the retry, counted from one. The last retry that the client makes is therefore
one that the policy refuses. A course is what either variant of the call makes of the outcomes: it
stops, or it goes on after a delay, or, in the asynchronous variant, its timer never goes off.
-/

namespace SoulCoreKit.Network

/-- The outcomes after which a call may go on. -/
def Outcome.retryable : Outcome → Bool
  | .timedOut => shouldRetry .timeoutError
  | .finished reply => shouldRetry reply.error

theorem error_of_retryable {reply : Reply} (hretryable : (Outcome.finished reply).retryable = true) :
    reply.error ≠ .noError := by
  intro hnone
  rw [Outcome.retryable, hnone] at hretryable
  exact absurd hretryable (by decide)

namespace RetryPolicy

/-- The delay before the retry can be computed. -/
def Fits (policy : RetryPolicy) (retry : Nat) : Prop :=
  match policy.mStrategy with
  | .fixedInterval => True
  | .exponentialBackoff => retry ≤ 31 ∧ policy.baseDelay * 2 ^ retry < 2 ^ 31
  | .linearBackoff => policy.baseDelay * (retry + 1) < 2 ^ 31

/-- A delay that the policy defines for a retry that it allows. -/
def Allowed (policy : RetryPolicy) (wait : Option Int) : Prop :=
  ∃ (attempt : Nat) (delay : Int), (attempt : Int) < policy.maxRetries ∧
    policy.nextDelay attempt = wait ∧ wait = some delay ∧ 0 ≤ delay

theorem maxRetries_lt (policy : RetryPolicy) : policy.maxRetries < 2 ^ 31 :=
  Int32.toInt_lt policy.mMaxRetries

theorem intValue_of_nonneg {value : Int} (hvalue : 0 ≤ value) :
    intValue value = if value < 2 ^ 31 then some value else none := by
  rw [intValue]
  congr 1
  simp only [eq_iff_iff, and_iff_right_iff_imp]
  intro _
  omega

theorem intValue_nonneg_iff {value : Int} (hvalue : 0 ≤ value) :
    (∃ delay, intValue value = some delay ∧ 0 ≤ delay) ↔ value < 2 ^ 31 := by
  rw [intValue_of_nonneg hvalue]
  split_ifs with hlt
  · exact ⟨fun _ => hlt, fun _ => ⟨value, rfl, hvalue⟩⟩
  · constructor
    · rintro ⟨delay, hdelay, -⟩
      cases hdelay
    · intro hfits
      exact absurd hfits hlt

/-- Into the sign bit only a delay of zero can be shifted. -/
theorem intValue_signBit_iff {base : Int} (hbase : 0 ≤ base) :
    (∃ delay, intValue (base * -2 ^ 31) = some delay ∧ 0 ≤ delay) ↔ base * 2 ^ 31 < 2 ^ 31 := by
  by_cases hzero : base = 0
  · subst hzero
    exact ⟨fun _ => by decide, fun _ => ⟨0, by decide, le_rfl⟩⟩
  · have hpos : 1 ≤ base := by omega
    constructor
    · rintro ⟨delay, hdelay, hnonneg⟩
      rw [intValue] at hdelay
      split_ifs at hdelay
      rw [Option.some.injEq] at hdelay
      omega
    · intro hlt
      omega

theorem nextDelay_nonneg_iff {policy : RetryPolicy} (hbase : 0 ≤ policy.baseDelay) {retry : Nat}
    (hretry : (retry : Int) < policy.maxRetries) :
    (∃ delay, policy.nextDelay retry = some delay ∧ 0 ≤ delay) ↔ policy.Fits retry := by
  have hlimit : ¬ (retry : Int) ≥ policy.maxRetries := not_le.mpr hretry
  rw [nextDelay, if_neg hlimit, Fits]
  cases policy.mStrategy with
  | fixedInterval => exact ⟨fun _ => trivial, fun _ => ⟨policy.baseDelay, rfl, hbase⟩⟩
  | exponentialBackoff =>
    dsimp only
    rw [oneShifted]
    by_cases hlarge : 31 < retry
    · rw [if_pos (.inr (by omega))]
      constructor
      · rintro ⟨delay, hdelay, -⟩
        cases hdelay
      · intro hfits
        omega
    · rw [if_neg (by omega)]
      by_cases hsign : retry = 31
      · rw [if_pos (by omega), hsign]
        exact (intValue_signBit_iff hbase).trans ⟨fun hlt => ⟨le_rfl, hlt⟩, fun hfits => hfits.2⟩
      · rw [if_neg (by omega), Option.bind_some, Int.toNat_natCast,
          intValue_nonneg_iff (Int.mul_nonneg hbase (Int.pow_nonneg (by decide)))]
        exact ⟨fun hlt => ⟨not_lt.mp hlarge, hlt⟩, fun hfits => hfits.2⟩
  | linearBackoff =>
    have hfactor : intValue ((retry : Int) + 1) = some ((retry : Int) + 1) := by
      have hlt := policy.maxRetries_lt
      rw [intValue_of_nonneg (by omega), if_pos (by omega)]
    dsimp only
    rw [hfactor, Option.bind_some, intValue_nonneg_iff (Int.mul_nonneg hbase (by omega))]

theorem allowed_nextDelay_iff {policy : RetryPolicy} (hbase : 0 ≤ policy.baseDelay) (retry : Nat) :
    policy.Allowed (policy.nextDelay retry) ↔
      (retry : Int) < policy.maxRetries ∧ policy.Fits retry := by
  constructor
  · rintro ⟨attempt, delay, -, -, hdelay, hnonneg⟩
    have hretry : (retry : Int) < policy.maxRetries := by
      by_contra hlimit
      rw [nextDelay, if_pos (not_lt.mp hlimit), Option.some.injEq] at hdelay
      omega
    exact ⟨hretry, (nextDelay_nonneg_iff hbase hretry).mp ⟨delay, hdelay, hnonneg⟩⟩
  · rintro ⟨hretry, hfits⟩
    obtain ⟨delay, hdelay, hnonneg⟩ := (nextDelay_nonneg_iff hbase hretry).mpr hfits
    exact ⟨retry, delay, hretry, rfl, hdelay, hnonneg⟩

end RetryPolicy

/-! ### Courses -/

section Contract

variable {Url : Type} (qt : Qt Url) (client : HttpClient Url) (network : Nat → Outcome)

/-- What an outcome comes to for the caller. -/
def HttpClient.delivered : Outcome → Result HttpResponse
  | .timedOut => .error ⟨.timeout, "Request timed out"⟩
  | .finished reply =>
      if reply.error ≠ .noError then .error ⟨.networkError, reply.errorString⟩
      else .ok (client.interceptedResponse (buildResponse reply))

/-- The outcome of this attempt is followed by another one. -/
def HttpClient.GoesOn (retryCount : Nat) : Prop :=
  (retryCount : Int) < client.mRetryPolicy.maxRetries ∧ (network retryCount).retryable = true

/-- The number of attempts from one on, the delays and what the caller is given. -/
inductive Course : Nat → Nat → List (Option Int) → List (Result HttpResponse) → Prop
  | stop {retryCount : Nat} (hstop : ¬ client.GoesOn network retryCount) :
      Course retryCount 1 [] [client.delivered (network retryCount)]
  | stuck {retryCount : Nat} (hgoes : client.GoesOn network retryCount)
      (hstuck : qt.fires (client.mRetryPolicy.nextDelay (retryCount + 1)) = false) :
      Course retryCount 1 [client.mRetryPolicy.nextDelay (retryCount + 1)] []
  | retry {retryCount attempts : Nat} {waits : List (Option Int)} {results : List (Result HttpResponse)}
      (hgoes : client.GoesOn network retryCount) (hrest : Course (retryCount + 1) attempts waits results) :
      Course retryCount (attempts + 1) (client.mRetryPolicy.nextDelay (retryCount + 1) :: waits) results

variable {qt client network}

theorem sendLoop_of_goesOn (mutableRequest : HttpRequest Url) {retryCount : Nat}
    (hgoes : client.GoesOn network retryCount) :
    client.sendLoop qt network mutableRequest retryCount =
      (client.sendLoop qt network mutableRequest (retryCount + 1)).after
        (client.wireRequest qt mutableRequest) (client.mRetryPolicy.nextDelay (retryCount + 1)) := by
  rw [HttpClient.GoesOn] at hgoes
  rw [HttpClient.sendLoop]
  cases houtcome : network retryCount with
  | timedOut =>
    rw [houtcome] at hgoes
    exact dif_pos hgoes
  | finished reply =>
    rw [houtcome] at hgoes
    exact (if_pos (error_of_retryable hgoes.2)).trans (dif_pos hgoes)

theorem sendLoop_of_not_goesOn (mutableRequest : HttpRequest Url) {retryCount : Nat}
    (hstop : ¬ client.GoesOn network retryCount) :
    client.sendLoop qt network mutableRequest retryCount =
      ⟨[client.wireRequest qt mutableRequest], [], client.delivered (network retryCount)⟩ := by
  rw [HttpClient.GoesOn] at hstop
  rw [HttpClient.sendLoop]
  cases houtcome : network retryCount with
  | timedOut =>
    rw [houtcome] at hstop
    exact dif_neg hstop
  | finished reply =>
    rw [houtcome] at hstop
    by_cases herror : reply.error ≠ .noError
    · simp only [HttpClient.delivered, if_pos herror]
      exact dif_neg hstop
    · simp only [HttpClient.delivered, if_neg herror]

theorem sendAsyncFrom_of_goesOn (request : HttpRequest Url) {retryCount : Nat}
    (hgoes : client.GoesOn network retryCount) :
    client.sendAsyncFrom qt network request retryCount =
      if qt.fires (client.mRetryPolicy.nextDelay (retryCount + 1)) then
        (client.sendAsyncFrom qt network (client.intercepted request) (retryCount + 1)).after
          (client.wireRequest qt (client.intercepted request))
          (client.mRetryPolicy.nextDelay (retryCount + 1))
      else
        ⟨[client.wireRequest qt (client.intercepted request)],
          [client.mRetryPolicy.nextDelay (retryCount + 1)], []⟩ := by
  rw [HttpClient.GoesOn] at hgoes
  rw [HttpClient.sendAsyncFrom]
  cases houtcome : network retryCount with
  | timedOut =>
    rw [houtcome] at hgoes
    exact dif_pos hgoes
  | finished reply =>
    rw [houtcome] at hgoes
    exact (if_pos (error_of_retryable hgoes.2)).trans (dif_pos hgoes)

theorem sendAsyncFrom_of_not_goesOn (request : HttpRequest Url) {retryCount : Nat}
    (hstop : ¬ client.GoesOn network retryCount) :
    client.sendAsyncFrom qt network request retryCount =
      ⟨[client.wireRequest qt (client.intercepted request)], [],
        [client.delivered (network retryCount)]⟩ := by
  rw [HttpClient.GoesOn] at hstop
  rw [HttpClient.sendAsyncFrom]
  cases houtcome : network retryCount with
  | timedOut =>
    rw [houtcome] at hstop
    exact dif_neg hstop
  | finished reply =>
    rw [houtcome] at hstop
    by_cases herror : reply.error ≠ .noError
    · simp only [HttpClient.delivered, if_pos herror]
      exact dif_neg hstop
    · simp only [HttpClient.delivered, if_neg herror]

variable (client network) in
/-- Induction over the attempts of a call: from an attempt that is followed by another one the claim may
be taken of that other one. -/
theorem attempt_induction {P : Nat → Prop}
    (step : ∀ retryCount, (client.GoesOn network retryCount → P (retryCount + 1)) → P retryCount)
    (retryCount : Nat) : P retryCount := by
  induction hleft : (client.mRetryPolicy.maxRetries - retryCount).toNat generalizing retryCount with
  | zero =>
    apply step
    rintro ⟨hlt, -⟩
    omega
  | succ left ih =>
    apply step
    intro hgoes
    apply ih
    omega

theorem course_sendLoop (mutableRequest : HttpRequest Url) (retryCount : Nat) :
    Course qt client network retryCount
      (client.sendLoop qt network mutableRequest retryCount).requests.length
      (client.sendLoop qt network mutableRequest retryCount).waits
      [(client.sendLoop qt network mutableRequest retryCount).outcome] := by
  induction retryCount using attempt_induction client network with
  | step retryCount ih =>
    by_cases hgoes : client.GoesOn network retryCount
    · rw [sendLoop_of_goesOn mutableRequest hgoes]
      exact .retry hgoes (ih hgoes)
    · rw [sendLoop_of_not_goesOn mutableRequest hgoes]
      exact .stop hgoes

theorem course_sendAsyncFrom (request : HttpRequest Url) (retryCount : Nat) :
    Course qt client network retryCount
      (client.sendAsyncFrom qt network request retryCount).requests.length
      (client.sendAsyncFrom qt network request retryCount).waits
      (client.sendAsyncFrom qt network request retryCount).outcome := by
  induction retryCount using attempt_induction client network generalizing request with
  | step retryCount ih =>
    by_cases hgoes : client.GoesOn network retryCount
    · rw [sendAsyncFrom_of_goesOn request hgoes]
      cases hfires : qt.fires (client.mRetryPolicy.nextDelay (retryCount + 1)) with
      | true => exact .retry hgoes (ih hgoes (client.intercepted request))
      | false => exact .stuck hgoes hfires
    · rw [sendAsyncFrom_of_not_goesOn request hgoes]
      exact .stop hgoes

/-! ### The contract -/

/-- What a call promises about its attempts, its delays and what it delivers. -/
structure Honours (client : HttpClient Url) (network : Nat → Outcome) (attempts : Nat)
    (waits : List (Option Int)) (results : List (Result HttpResponse)) : Prop where
  bounded : (attempts : Int) ≤ 1 + client.mRetryPolicy.maxRetries
  stops : ∀ i, i + 1 < attempts → (network i).retryable = true
  allowed : ∀ wait ∈ waits, client.mRetryPolicy.Allowed wait
  once : results = [client.delivered (network (attempts - 1))]

/-- No attempt from this one on needs the last retry, and the delays before the others can be
computed. -/
def EndsEarly (client : HttpClient Url) (network : Nat → Outcome) (retryCount : Nat) : Prop :=
  client.mRetryPolicy.maxRetries ≤ retryCount ∨
    ∃ i, retryCount ≤ i ∧ (i : Int) < client.mRetryPolicy.maxRetries ∧
      (network i).retryable = false ∧ ∀ k, retryCount < k → k ≤ i → client.mRetryPolicy.Fits k

variable {retryCount attempts : Nat} {waits : List (Option Int)} {results : List (Result HttpResponse)}

theorem Course.attempts_spec (hcourse : Course qt client network retryCount attempts waits results) :
    0 < attempts ∧
      (attempts = 1 ∨ (retryCount + attempts : Int) ≤ 1 + client.mRetryPolicy.maxRetries) ∧
      ∀ i, i + 1 < attempts → (network (retryCount + i)).retryable = true := by
  induction hcourse with
  | stop _ => exact ⟨Nat.one_pos, .inl rfl, fun i hi => by omega⟩
  | stuck _ _ => exact ⟨Nat.one_pos, .inl rfl, fun i hi => by omega⟩
  | @retry retryCount attempts waits results hgoes _ ih =>
    obtain ⟨hpos, hbound, hretryable⟩ := ih
    refine ⟨Nat.succ_pos _, .inr ?_, ?_⟩
    · have hlt := hgoes.1
      push_cast at hbound ⊢
      omega
    · intro i hi
      cases i with
      | zero => exact hgoes.2
      | succ i =>
        have hnext := hretryable i (by omega)
        rwa [show retryCount + 1 + i = retryCount + (i + 1) by omega] at hnext

theorem Course.results_spec (hcourse : Course qt client network retryCount attempts waits results) :
    results = [] ∨ results = [client.delivered (network (retryCount + attempts - 1))] := by
  induction hcourse with
  | stop _ => exact .inr rfl
  | stuck _ _ => exact .inl rfl
  | @retry retryCount attempts waits results _ hrest ih =>
    rwa [show retryCount + (attempts + 1) - 1 = retryCount + 1 + attempts - 1 by omega]

theorem endsEarly_succ_iff (hgoes : client.GoesOn network retryCount) :
    EndsEarly client network retryCount ↔
      ((retryCount + 1 : Nat) : Int) < client.mRetryPolicy.maxRetries ∧
        client.mRetryPolicy.Fits (retryCount + 1) ∧ EndsEarly client network (retryCount + 1) := by
  constructor
  · rintro (hlimit | ⟨i, hle, hlt, hfinal, hfits⟩)
    · exact absurd hgoes.1 (not_lt.mpr hlimit)
    · have hne : retryCount ≠ i := by
        rintro rfl
        rw [hgoes.2] at hfinal
        contradiction
      have hnext : retryCount + 1 ≤ i := by omega
      refine ⟨by omega, hfits _ (by omega) hnext, .inr ⟨i, hnext, hlt, hfinal, ?_⟩⟩
      exact fun k hk hki => hfits k (by omega) hki
  · rintro ⟨hlt, hfits, hlimit | ⟨i, hle, hi, hfinal, hrest⟩⟩
    · exact absurd hlt (not_lt.mpr hlimit)
    · refine .inr ⟨i, by omega, hi, hfinal, ?_⟩
      intro k hk hki
      by_cases hnext : k = retryCount + 1
      · rw [hnext]
        exact hfits
      · exact hrest k (by omega) hki

/-- The delays are allowed and something is delivered exactly if the course ends early. -/
theorem Course.endsEarly_iff (hbase : 0 ≤ client.mRetryPolicy.baseDelay)
    (hcourse : Course qt client network retryCount attempts waits results) :
    ((∀ wait ∈ waits, client.mRetryPolicy.Allowed wait) ∧ results ≠ []) ↔
      EndsEarly client network retryCount := by
  induction hcourse with
  | @stop retryCount hstop =>
    refine ⟨fun _ => ?_, fun _ => ⟨by simp, by simp⟩⟩
    by_cases hlimit : client.mRetryPolicy.maxRetries ≤ retryCount
    · exact .inl hlimit
    · right
      refine ⟨retryCount, le_rfl, not_le.mp hlimit, ?_, fun k hk hki => by omega⟩
      rw [← Bool.not_eq_true]
      exact fun hretryable => hstop ⟨not_le.mp hlimit, hretryable⟩
  | @stuck retryCount hgoes hstuck =>
    refine ⟨fun hboth => absurd rfl hboth.2, fun hends => ?_⟩
    obtain ⟨hlt, hfits, -⟩ := (endsEarly_succ_iff hgoes).mp hends
    obtain ⟨delay, hdelay, hnonneg⟩ := (RetryPolicy.nextDelay_nonneg_iff hbase hlt).mpr hfits
    push_cast at hdelay
    rw [hdelay, qt.fires_of_nonneg delay hnonneg] at hstuck
    contradiction
  | @retry retryCount attempts waits results hgoes _ ih =>
    have hallowed := RetryPolicy.allowed_nextDelay_iff hbase (retryCount + 1)
    push_cast at hallowed
    rw [endsEarly_succ_iff hgoes, ← ih, List.forall_mem_cons, hallowed]
    push_cast
    tauto

theorem Course.honours_iff (hmax : 0 ≤ client.mRetryPolicy.maxRetries)
    (hbase : 0 ≤ client.mRetryPolicy.baseDelay)
    (hcourse : Course qt client network 0 attempts waits results) :
    Honours client network attempts waits results ↔ EndsEarly client network 0 := by
  obtain ⟨hpos, hbound, hretryable⟩ := hcourse.attempts_spec
  rw [← hcourse.endsEarly_iff hbase]
  constructor
  · intro hhonours
    refine ⟨hhonours.allowed, ?_⟩
    rw [hhonours.once]
    exact List.cons_ne_nil _ _
  · rintro ⟨hallowed, hdelivered⟩
    refine ⟨by omega, ?_, hallowed, ?_⟩
    · simpa only [Nat.zero_add] using hretryable
    · simpa only [Nat.zero_add] using hcourse.results_spec.resolve_left hdelivered

/-- Both variants honour the contract exactly if there is nothing to retry, or an attempt before the
last retry is final and the delays before it can be computed. -/
theorem calls_honour_iff (request : HttpRequest Url) (hmax : 0 ≤ client.mRetryPolicy.maxRetries)
    (hbase : 0 ≤ client.mRetryPolicy.baseDelay) :
    (Honours client network (client.send qt network request).requests.length
        (client.send qt network request).waits [(client.send qt network request).outcome] ↔
      EndsEarly client network 0) ∧
    (Honours client network (client.sendAsync qt network request).requests.length
        (client.sendAsync qt network request).waits (client.sendAsync qt network request).outcome ↔
      EndsEarly client network 0) :=
  ⟨(course_sendLoop _ 0).honours_iff hmax hbase, (course_sendAsyncFrom _ 0).honours_iff hmax hbase⟩

end Contract

/-! ### Two retries -/

section TwoRetries

def refused : Outcome := .finished { error := .connectionRefusedError, errorString := "refused" }

/-- Plain texts as addresses; no timer goes off after a negative delay. -/
def textQt : Qt String where
  setQuery url params := url ++ String.join (params.map fun param => param.1 ++ "=" ++ param.2)
  fires delay := delay.any (0 ≤ ·)
  fires_of_nonneg delay hnonneg := by simpa using hnonneg

def twoRetries : HttpClient String := { mRetryPolicy := { mMaxRetries := 2 } }

/-- The first attempt is refused and the second one succeeds. -/
def recovers : Nat → Outcome
  | 0 => refused
  | _ => .finished {}

theorem calls_honour_recovers :
    0 ≤ twoRetries.mRetryPolicy.maxRetries ∧ 0 ≤ twoRetries.mRetryPolicy.baseDelay ∧
      Honours twoRetries recovers (twoRetries.sendAsync textQt recovers { mUrl := "a" }).requests.length
        (twoRetries.sendAsync textQt recovers { mUrl := "a" }).waits
        (twoRetries.sendAsync textQt recovers { mUrl := "a" }).outcome := by
  have hends : EndsEarly twoRetries recovers 0 := by
    refine .inr ⟨1, by decide, by decide, by decide, ?_⟩
    intro k hpos hk
    obtain rfl : k = 1 := by omega
    exact ⟨by decide, by decide⟩
  have hmax : 0 ≤ twoRetries.mRetryPolicy.maxRetries := by decide
  have hbase : 0 ≤ twoRetries.mRetryPolicy.baseDelay := by decide
  exact ⟨hmax, hbase, (calls_honour_iff _ hmax hbase).2.mpr hends⟩

/-- Every attempt is refused: before the last retry stands a negative delay, and the callback of the
asynchronous call is never invoked. -/
theorem calls_refused_twice :
    (twoRetries.send textQt (fun _ => refused) { mUrl := "a" }).waits = [some 2000, some (-1)] ∧
      (twoRetries.sendAsync textQt (fun _ => refused) { mUrl := "a" }).waits =
        [some 2000, some (-1)] ∧
      (twoRetries.sendAsync textQt (fun _ => refused) { mUrl := "a" }).outcome = [] ∧
      ¬ Honours twoRetries (fun _ => refused)
        (twoRetries.send textQt (fun _ => refused) { mUrl := "a" }).requests.length
        (twoRetries.send textQt (fun _ => refused) { mUrl := "a" }).waits
        [(twoRetries.send textQt (fun _ => refused) { mUrl := "a" }).outcome] ∧
      ¬ Honours twoRetries (fun _ => refused)
        (twoRetries.sendAsync textQt (fun _ => refused) { mUrl := "a" }).requests.length
        (twoRetries.sendAsync textQt (fun _ => refused) { mUrl := "a" }).waits
        (twoRetries.sendAsync textQt (fun _ => refused) { mUrl := "a" }).outcome := by
  have hzero : twoRetries.GoesOn (fun _ => refused) 0 := ⟨by decide, by decide⟩
  have hone : twoRetries.GoesOn (fun _ => refused) 1 := ⟨by decide, by decide⟩
  have htwo : ¬ twoRetries.GoesOn (fun _ => refused) 2 := fun hgoes => absurd hgoes.1 (by decide)
  have hsend : (twoRetries.send textQt (fun _ => refused) { mUrl := "a" }).waits =
      [some 2000, some (-1)] := by
    rw [HttpClient.send, sendLoop_of_goesOn _ hzero, sendLoop_of_goesOn _ hone,
      sendLoop_of_not_goesOn _ htwo]
    decide
  have hasync : twoRetries.sendAsync textQt (fun _ => refused) { mUrl := "a" } =
      ⟨List.replicate 2 (twoRetries.wireRequest textQt { mUrl := "a" }), [some 2000, some (-1)], []⟩ := by
    rw [HttpClient.sendAsync, sendAsyncFrom_of_goesOn _ hzero, if_pos (by decide),
      sendAsyncFrom_of_goesOn _ hone, if_neg (by decide)]
    rfl
  have hnegative : ¬ twoRetries.mRetryPolicy.Allowed (some (-1)) := by
    rintro ⟨attempt, delay, -, -, hdelay, hnonneg⟩
    rw [Option.some.injEq] at hdelay
    omega
  rw [hasync]
  refine ⟨hsend, rfl, rfl, ?_, ?_⟩
  · intro hhonours
    apply hnegative
    apply hhonours.allowed
    rw [hsend]
    decide
  · intro hhonours
    apply hnegative
    apply hhonours.allowed
    decide

end TwoRetries

end SoulCoreKit.Network
