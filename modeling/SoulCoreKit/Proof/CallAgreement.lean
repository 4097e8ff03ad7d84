import Mathlib.Logic.Function.Iterate
import SoulCoreKit.Proof.RetryContract

/-!
# The two variants of a call

`send` prepares its request once and sends it with every attempt. `sendAsync` hands the prepared request
to itself, which prepares it again: its attempts are the request after one, two, three rounds of the
interceptors. The two agree exactly as far as these rounds look the same on the wire and the timers
before the retries go off.
-/

namespace SoulCoreKit.Network

variable {Url : Type} {qt : Qt Url} {client : HttpClient Url} {network : Nat → Outcome}

/-- The two calls send the same requests, each the request of the caller after one round of the
interceptors, and deliver the same result. -/
structure Agree (qt : Qt Url) (client : HttpClient Url) (network : Nat → Outcome)
    (request : HttpRequest Url) : Prop where
  requests : (client.sendAsync qt network request).requests = (client.send qt network request).requests
  prepared : ∀ wire ∈ (client.send qt network request).requests,
    wire = client.wireRequest qt (client.intercepted request)
  results : (client.sendAsync qt network request).outcome = [(client.send qt network request).outcome]

/-- A retry that is made goes off and sends what the first attempt sent. -/
def SameRetries (qt : Qt Url) (client : HttpClient Url) (network : Nat → Outcome)
    (request : HttpRequest Url) : Prop :=
  ∀ k : Nat, 0 < k → (k : Int) ≤ client.mRetryPolicy.maxRetries →
    (∀ j, j < k → (network j).retryable = true) →
      qt.fires (client.mRetryPolicy.nextDelay k) = true ∧
        client.wireRequest qt (client.intercepted^[k + 1] request) =
          client.wireRequest qt (client.intercepted request)

/-- Two exchanges that look the same. -/
def Exchange.Matches (async : Exchange Url (List (Result HttpResponse)))
    (sync : Exchange Url (Result HttpResponse)) : Prop :=
  async.requests = sync.requests ∧ async.outcome = [sync.outcome]

theorem Exchange.matches_after_iff {async : Exchange Url (List (Result HttpResponse))}
    {sync : Exchange Url (Result HttpResponse)} {first second : WireRequest Url} {wait : Option Int} :
    (async.after first wait).Matches (sync.after second wait) ↔
      first = second ∧ async.Matches sync := by
  simp only [Exchange.Matches, Exchange.after, List.cons.injEq, and_assoc]

/-- The condition for the attempts from one on: `request` is what `sendAsync` is given there. -/
def SameFrom (qt : Qt Url) (client : HttpClient Url) (network : Nat → Outcome) (wire : WireRequest Url)
    (request : HttpRequest Url) (retryCount : Nat) : Prop :=
  client.wireRequest qt (client.intercepted request) = wire ∧
    ∀ k : Nat, retryCount < k → (k : Int) ≤ client.mRetryPolicy.maxRetries →
      (∀ j, retryCount ≤ j → j < k → (network j).retryable = true) →
        qt.fires (client.mRetryPolicy.nextDelay k) = true ∧
          client.wireRequest qt (client.intercepted^[k - retryCount + 1] request) = wire

theorem sameFrom_of_not_goesOn {wire : WireRequest Url} {request : HttpRequest Url} {retryCount : Nat}
    (hstop : ¬ client.GoesOn network retryCount) :
    SameFrom qt client network wire request retryCount ↔
      client.wireRequest qt (client.intercepted request) = wire := by
  refine ⟨fun hsame => hsame.1, fun hwire => ⟨hwire, ?_⟩⟩
  intro k hk hmax hretryable
  exact absurd ⟨by omega, hretryable retryCount le_rfl hk⟩ hstop

theorem sameFrom_of_goesOn {wire : WireRequest Url} {request : HttpRequest Url} {retryCount : Nat}
    (hgoes : client.GoesOn network retryCount) :
    SameFrom qt client network wire request retryCount ↔
      client.wireRequest qt (client.intercepted request) = wire ∧
        qt.fires (client.mRetryPolicy.nextDelay (retryCount + 1)) = true ∧
        SameFrom qt client network wire (client.intercepted request) (retryCount + 1) := by
  have hrounds (k : Nat) (hk : retryCount + 1 < k) :
      client.intercepted^[k - retryCount + 1] request =
        client.intercepted^[k - (retryCount + 1) + 1] (client.intercepted request) := by
    rw [show k - retryCount + 1 = k - (retryCount + 1) + 1 + 1 by omega, Function.iterate_succ_apply]
  constructor
  · rintro ⟨hwire, hlater⟩
    obtain ⟨hfires, hnext⟩ := hlater (retryCount + 1) (by omega) (by have := hgoes.1; omega) (by
      intro j hj hlt
      rw [show j = retryCount by omega]
      exact hgoes.2)
    refine ⟨hwire, hfires, ?_, ?_⟩
    · rwa [show retryCount + 1 - retryCount + 1 = 2 by omega] at hnext
    · intro k hk hmax hretryable
      rw [← hrounds k hk]
      apply hlater k (by omega) hmax
      intro j hj hlt
      by_cases hfirst : j = retryCount
      · rw [hfirst]
        exact hgoes.2
      · exact hretryable j (by omega) hlt
  · rintro ⟨hwire, hfires, hnext, hlater⟩
    refine ⟨hwire, ?_⟩
    intro k hk hmax hretryable
    by_cases hfirst : k = retryCount + 1
    · rw [hfirst, show retryCount + 1 - retryCount + 1 = 2 by omega]
      exact ⟨hfires, hnext⟩
    · rw [hrounds k (by omega)]
      exact hlater k (by omega) hmax fun j hj => hretryable j (by omega)

theorem sendAsyncFrom_matches_iff (prepared request : HttpRequest Url) (retryCount : Nat) :
    (client.sendAsyncFrom qt network request retryCount).Matches
        (client.sendLoop qt network prepared retryCount) ↔
      SameFrom qt client network (client.wireRequest qt prepared) request retryCount := by
  induction retryCount using attempt_induction client network generalizing request with
  | step retryCount ih =>
    by_cases hgoes : client.GoesOn network retryCount
    · rw [sameFrom_of_goesOn hgoes, sendLoop_of_goesOn prepared hgoes,
        sendAsyncFrom_of_goesOn request hgoes]
      cases hfires : qt.fires (client.mRetryPolicy.nextDelay (retryCount + 1)) with
      | true =>
        rw [if_pos rfl, Exchange.matches_after_iff, ih hgoes]
        simp only [true_and]
      | false =>
        rw [if_neg Bool.false_ne_true]
        refine ⟨fun hmatches => ?_, fun hsame => absurd hsame.2.1 Bool.false_ne_true⟩
        cases hmatches.2
    · rw [sameFrom_of_not_goesOn hgoes, sendLoop_of_not_goesOn prepared hgoes,
        sendAsyncFrom_of_not_goesOn request hgoes]
      simp only [Exchange.Matches, List.cons.injEq, and_true]

/-- `send` repeats the request it has prepared. -/
theorem requests_sendLoop (prepared : HttpRequest Url) (retryCount : Nat) :
    ∀ wire ∈ (client.sendLoop qt network prepared retryCount).requests,
      wire = client.wireRequest qt prepared := by
  induction retryCount using attempt_induction client network with
  | step retryCount ih =>
    by_cases hgoes : client.GoesOn network retryCount
    · rw [sendLoop_of_goesOn prepared hgoes, Exchange.after, List.forall_mem_cons]
      exact ⟨rfl, ih hgoes⟩
    · rw [sendLoop_of_not_goesOn prepared hgoes, List.forall_mem_singleton]

/-- The two variants agree exactly if every retry that is made goes off and the interceptors, applied
again, leave the request as it looks on the wire. -/
theorem calls_agree_iff (request : HttpRequest Url) :
    Agree qt client network request ↔ SameRetries qt client network request := by
  have hsame : SameFrom qt client network (client.wireRequest qt (client.intercepted request)) request 0 ↔
      SameRetries qt client network request := by
    refine ⟨fun hsame k hk hmax hretryable => ?_, fun hsame => ⟨rfl, fun k hk hmax hretryable => ?_⟩⟩
    · exact hsame.2 k hk hmax fun j _ => hretryable j
    · exact hsame k hk hmax fun j => hretryable j (Nat.zero_le j)
  rw [← hsame, ← sendAsyncFrom_matches_iff]
  constructor
  · intro hagree
    exact ⟨hagree.requests, hagree.results⟩
  · rintro ⟨hrequests, hresults⟩
    exact ⟨hrequests, requests_sendLoop _ 0, hresults⟩

/-- An interceptor that signs the body by a byte behind it. -/
def signing : HttpClient String where
  mInterceptors := [{ onRequest := fun request => { request with mBody := request.mBody ++ [1] } }]
  mRetryPolicy := { mMaxRetries := 2 }

/-- An attempt is refused, and the asynchronous call signs its request once more. -/
theorem calls_disagree_signing :
    ((signing.send textQt recovers { mUrl := "a", mMethod := .post }).requests.map WireRequest.body) =
        [some [1], some [1]] ∧
      ((signing.sendAsync textQt recovers { mUrl := "a", mMethod := .post }).requests.map
        WireRequest.body) = [some [1], some [1, 1]] ∧
      ¬ Agree textQt signing recovers { mUrl := "a", mMethod := .post } := by
  have hzero : signing.GoesOn recovers 0 := ⟨by decide, by decide⟩
  have hone : ¬ signing.GoesOn recovers 1 := fun hgoes => absurd hgoes.2 (by decide)
  have hsend : (signing.send textQt recovers { mUrl := "a", mMethod := .post }).requests.map
      WireRequest.body = [some [1], some [1]] := by
    rw [HttpClient.send, sendLoop_of_goesOn _ hzero, sendLoop_of_not_goesOn _ hone]
    decide
  have hasync : (signing.sendAsync textQt recovers { mUrl := "a", mMethod := .post }).requests.map
      WireRequest.body = [some [1], some [1, 1]] := by
    rw [HttpClient.sendAsync, sendAsyncFrom_of_goesOn _ hzero, if_pos (by decide),
      sendAsyncFrom_of_not_goesOn _ hone]
    decide
  refine ⟨hsend, hasync, fun hagree => ?_⟩
  rw [hagree.requests, hsend] at hasync
  exact absurd hasync (by decide)

end SoulCoreKit.Network
