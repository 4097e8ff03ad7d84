import SoulCoreKit.Core.Result

/-!
# The HTTP client

`network::HttpClient::send` and `sendAsync` with their `RetryPolicy`. The network answers each attempt
of a call in turn. A `QMap` of strings is the list of its pairs in the order of the keys, as the loops
over it see them. `int` is 32 bits wide; a delay whose computation overflows has no value. `msleep`
takes an unsigned number and sleeps for it, however long that is; whether a single-shot timer goes off
when its delay is negative depends on the runtime.
-/

namespace SoulCoreKit.Network

/-! ### The retry policy -/

inductive RetryStrategy where
  | fixedInterval
  | exponentialBackoff
  | linearBackoff
  deriving DecidableEq, Repr

structure RetryPolicy where
  mMaxRetries : Int32 := 3
  mStrategy : RetryStrategy := .exponentialBackoff
  mBaseDelay : Int32 := 1000

namespace RetryPolicy

def maxRetries (policy : RetryPolicy) : Int := policy.mMaxRetries.toInt

def baseDelay (policy : RetryPolicy) : Int := policy.mBaseDelay.toInt

/-- The value of an `int` expression, unless it overflows. -/
def intValue (value : Int) : Option Int := if -2 ^ 31 ≤ value ∧ value < 2 ^ 31 then some value else none

/-- `1 << attempt`: the shift into the sign bit gives the least `int`. -/
def oneShifted (attempt : Int) : Option Int :=
  if attempt < 0 ∨ 31 < attempt then none
  else if attempt = 31 then some (-2 ^ 31)
  else some (2 ^ attempt.toNat)

def nextDelay (policy : RetryPolicy) (attempt : Int) : Option Int :=
  if attempt ≥ policy.maxRetries then some (-1)
  else
    match policy.mStrategy with
    | .fixedInterval => some policy.baseDelay
    | .exponentialBackoff => (oneShifted attempt).bind fun factor => intValue (policy.baseDelay * factor)
    | .linearBackoff => (intValue (attempt + 1)).bind fun factor => intValue (policy.baseDelay * factor)

end RetryPolicy

/-! ### Requests and replies -/

inductive HttpMethod where
  | get
  | post
  | put
  | delete
  | patch
  | head
  | options
  deriving DecidableEq, Repr

structure HttpRequest (Url : Type) where
  mMethod : HttpMethod := .get
  mUrl : Url
  mHeaders : List (String × String) := []
  mParams : List (String × String) := []
  mBody : List UInt8 := []
  mTimeout : Int32 := 30000

structure HttpResponse where
  statusCode : Int32
  body : List UInt8
  headers : String → Option String

/-- `QNetworkReply::NetworkError`, with the values that the source names. -/
inductive NetworkError where
  | noError
  | connectionRefusedError
  | remoteHostClosedError
  | timeoutError
  | sslHandshakeFailedError
  | temporaryNetworkFailureError
  | networkSessionFailedError
  | operationCanceledError
  | otherError (code : Nat)
  deriving DecidableEq, Repr

def shouldRetry (error : NetworkError) : Bool :=
  error = .connectionRefusedError || error = .remoteHostClosedError || error = .timeoutError ||
    error = .sslHandshakeFailedError || error = .temporaryNetworkFailureError ||
    error = .networkSessionFailedError

structure Reply where
  error : NetworkError := .noError
  errorString : String := ""
  statusCode : Int32 := 0
  body : List UInt8 := []
  rawHeaderPairs : List (String × String) := []

def buildResponse (reply : Reply) : HttpResponse where
  statusCode := reply.statusCode
  body := reply.body
  headers := reply.rawHeaderPairs.foldl (fun headers pair => Function.update headers pair.1 (some pair.2))
    fun _ => none

/-- How an attempt ends: the timer aborts it, or the reply finishes. -/
inductive Outcome where
  | timedOut
  | finished (reply : Reply)

/-- `IInterceptor<HttpRequest, HttpResponse>`. -/
structure HttpInterceptor (Url : Type) where
  onRequest : HttpRequest Url → HttpRequest Url := id
  onResponse : HttpResponse → HttpResponse := id

structure HttpClient.ConnectionPoolConfig where
  enableHttp2 : Bool := true
  enableServerPush : Bool := false
  deriving DecidableEq

/-- What the network manager is given: the methods without a body do not take one. -/
structure WireRequest (Url : Type) where
  url : Url
  rawHeaders : List (String × String)
  http2Allowed : Bool
  serverPush : Option Bool
  method : HttpMethod
  body : Option (List UInt8)
  deriving DecidableEq

/-- What is taken from Qt: `QUrl::setQuery`, and which single-shot timers go off. -/
structure Qt (Url : Type) where
  setQuery : Url → List (String × String) → Url
  fires : Option Int → Bool
  fires_of_nonneg : ∀ delay, 0 ≤ delay → fires (some delay) = true

/-- What a call sends, the delays it waits for in between, and what it leaves to its caller. -/
structure Exchange (Url R : Type) where
  requests : List (WireRequest Url)
  waits : List (Option Int)
  outcome : R

/-- An attempt and a delay before the others. -/
def Exchange.after {Url R : Type} (request : WireRequest Url) (wait : Option Int)
    (rest : Exchange Url R) : Exchange Url R where
  requests := request :: rest.requests
  waits := wait :: rest.waits
  outcome := rest.outcome

structure HttpClient (Url : Type) where
  mInterceptors : List (HttpInterceptor Url) := []
  mRetryPolicy : RetryPolicy := {}
  mPoolConfig : HttpClient.ConnectionPoolConfig := {}

namespace HttpClient

variable {Url : Type} (qt : Qt Url) (client : HttpClient Url)

def buildUrl (request : HttpRequest Url) : Url := qt.setQuery request.mUrl request.mParams

def sentBody (request : HttpRequest Url) : Option (List UInt8) :=
  match request.mMethod with
  | .post | .put | .patch => some request.mBody
  | .get | .delete | .head | .options => none

/-- The request with its headers and `applyHttp2Config`, given to `sendRequest`. -/
def wireRequest (request : HttpRequest Url) : WireRequest Url where
  url := buildUrl qt request
  rawHeaders := request.mHeaders
  http2Allowed := client.mPoolConfig.enableHttp2
  serverPush :=
    if client.mPoolConfig.enableHttp2 then some client.mPoolConfig.enableServerPush else none
  method := request.mMethod
  body := sentBody request

/-- The loop over the interceptors before the request is sent. -/
def intercepted (request : HttpRequest Url) : HttpRequest Url :=
  client.mInterceptors.foldl (fun request interceptor => interceptor.onRequest request) request

def interceptedResponse (response : HttpResponse) : HttpResponse :=
  client.mInterceptors.foldl (fun response interceptor => interceptor.onResponse response) response

/-- The loop of `send`. -/
def sendLoop (network : Nat → Outcome) (mutableRequest : HttpRequest Url) (retryCount : Nat) :
    Exchange Url (Result HttpResponse) :=
  let request := client.wireRequest qt mutableRequest
  match network retryCount with
  | .timedOut =>
      if h : (retryCount : Int) < client.mRetryPolicy.maxRetries ∧ shouldRetry .timeoutError then
        (sendLoop network mutableRequest (retryCount + 1)).after request
          (client.mRetryPolicy.nextDelay (retryCount + 1))
      else
        ⟨[request], [], .error ⟨.timeout, "Request timed out"⟩⟩
  | .finished reply =>
      if reply.error ≠ .noError then
        if h : (retryCount : Int) < client.mRetryPolicy.maxRetries ∧ shouldRetry reply.error then
          (sendLoop network mutableRequest (retryCount + 1)).after request
            (client.mRetryPolicy.nextDelay (retryCount + 1))
        else
          ⟨[request], [], .error ⟨.networkError, reply.errorString⟩⟩
      else
        ⟨[request], [], .ok (client.interceptedResponse (buildResponse reply))⟩
termination_by (client.mRetryPolicy.maxRetries - retryCount).toNat
decreasing_by all_goals omega

def send (network : Nat → Outcome) (request : HttpRequest Url) : Exchange Url (Result HttpResponse) :=
  client.sendLoop qt network (client.intercepted request) 0

/-- `sendAsync` with its counter, and what it gives to its callback. The lambda of the timer calls the
function again, with the request that the interceptors have changed. -/
def sendAsyncFrom (network : Nat → Outcome) (request : HttpRequest Url) (retryCount : Nat) :
    Exchange Url (List (Result HttpResponse)) :=
  let mutableRequest := client.intercepted request
  let wire := client.wireRequest qt mutableRequest
  match network retryCount with
  | .timedOut =>
      if h : (retryCount : Int) < client.mRetryPolicy.maxRetries ∧ shouldRetry .timeoutError then
        let delay := client.mRetryPolicy.nextDelay (retryCount + 1)
        if qt.fires delay then
          (sendAsyncFrom network mutableRequest (retryCount + 1)).after wire delay
        else
          ⟨[wire], [delay], []⟩
      else
        ⟨[wire], [], [.error ⟨.timeout, "Request timed out"⟩]⟩
  | .finished reply =>
      if reply.error ≠ .noError then
        if h : (retryCount : Int) < client.mRetryPolicy.maxRetries ∧ shouldRetry reply.error then
          let delay := client.mRetryPolicy.nextDelay (retryCount + 1)
          if qt.fires delay then
            (sendAsyncFrom network mutableRequest (retryCount + 1)).after wire delay
          else
            ⟨[wire], [delay], []⟩
        else
          ⟨[wire], [], [.error ⟨.networkError, reply.errorString⟩]⟩
      else
        ⟨[wire], [], [.ok (client.interceptedResponse (buildResponse reply))]⟩
termination_by (client.mRetryPolicy.maxRetries - retryCount).toNat
decreasing_by all_goals omega

def sendAsync (network : Nat → Outcome) (request : HttpRequest Url) :
    Exchange Url (List (Result HttpResponse)) :=
  client.sendAsyncFrom qt network request 0

end HttpClient

end SoulCoreKit.Network
