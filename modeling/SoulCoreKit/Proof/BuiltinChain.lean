import SoulCoreKit.Proof.Pipeline
import SoulCoreKit.Proof.Segmentation
import SoulCoreKit.Server.Middleware

/-!
# Requests through the built-in middlewares

A request is judged by its method, its path and its `Authorization` header, which none of the middlewares
changes, so the first that refuses it decides. The after chain is run in every case, from the last to the
first: the cross-origin headers are on every response, and they are those of the first `CorsMiddleware`. The
header for credentials is set by each that allows them and removed by none.
-/

namespace SoulCoreKit.Server

variable (qt : Qt)

/-! ### Whether a request goes through -/

/-- The path is excluded, or the request carries a bearer token that the validator accepts. -/
def AuthMiddleware.Admits (a : AuthMiddleware) (req : HttpRequest) : Prop :=
  req.mPath ∈ a.mExcludePaths ∨
    req.header qt "Authorization" ≠ "" ∧ ∃ token, token ≠ "" ∧
      qt.trimmed (req.header qt "Authorization") = "Bearer " ++ token ∧ a.mValidator token = .ok true

theorem AuthMiddleware.before_eq_true_iff (a : AuthMiddleware) (req : HttpRequest) (resp : HttpResponse) :
    (a.before qt req resp).1 = .ok true ↔ a.Admits qt req := by
  have hexcluded : a.mExcludePaths.any (req.mPath = ·) = true ↔ req.mPath ∈ a.mExcludePaths := by
    simp
  unfold AuthMiddleware.before AuthMiddleware.Admits
  by_cases hpath : req.mPath ∈ a.mExcludePaths
  · rw [if_pos (hexcluded.mpr hpath)]
    simp [hpath]
  rw [if_neg (hexcluded.not.mpr hpath)]
  dsimp only
  by_cases hempty : req.header qt "Authorization" = ""
  · simp [hempty, hpath]
  rw [if_neg (by simpa using hempty)]
  by_cases hbearer : "Bearer ".toList.isPrefixOf (qt.trimmed (req.header qt "Authorization")).toList = true
  case neg =>
    rw [if_pos hbearer]
    refine iff_of_false (by simp) ?_
    rintro (hmem | ⟨-, token, -, htoken, -⟩)
    · exact hpath hmem
    · apply hbearer
      rw [htoken, String.toList_append, List.isPrefixOf_iff_prefix]
      exact List.prefix_append _ _
  obtain ⟨token, htoken⟩ := List.isPrefixOf_iff_prefix.mp hbearer
  have hdrop : (qt.trimmed (req.header qt "Authorization")).toList.drop 7 = token := by
    rw [← htoken]
    rfl
  have hsplit (other : String) : qt.trimmed (req.header qt "Authorization") = "Bearer " ++ other ↔
      other = String.ofList token := by
    rw [← String.toList_inj, ← htoken, String.toList_append, List.append_cancel_left_eq, ← String.toList_inj,
      String.toList_ofList, eq_comm]
  rw [if_neg (not_not_intro hbearer), hdrop]
  simp only [hpath, false_or, ne_eq, hempty, not_false_eq_true, true_and, hsplit]
  by_cases hnone : String.ofList token = ""
  · simp [hnone]
  · rw [if_neg (by simpa using hnone)]
    cases hvalid : a.mValidator (String.ofList token) with
    | error thrown => simp [hvalid]
    | ok accepted => cases accepted <;> simp [hvalid, hnone]

namespace Exchange

theorem beforeChain_append (place : Nat) (front rest : List IMiddleware) (x : Exchange) :
    beforeChain place (front ++ rest) x =
      if (beforeChain place front x).1 then
        beforeChain (place + front.length) rest (beforeChain place front x).2
      else
        (false, (beforeChain place front x).2) := by
  induction front generalizing place x with
  | nil => simp [beforeChain]
  | cons mw front ih =>
      rw [List.cons_append, beforeChain, beforeChain]
      cases (mw.before x.req x.response).1 with
      | error thrown => simp
      | ok more =>
          cases more with
          | false => simp
          | true =>
              dsimp only
              rw [ih, List.length_cons, Nat.add_assoc, Nat.add_comm 1]

theorem before_of_beforeChain {place : Nat} {mw : IMiddleware} {rest : List IMiddleware} {x : Exchange}
    (hthrough : (beforeChain place (mw :: rest) x).1 = true) :
    (mw.before x.req x.response).1 = .ok true := by
  rw [beforeChain] at hthrough
  cases hcalled : (mw.before x.req x.response).1 with
  | error thrown =>
      rw [hcalled] at hthrough
      cases hthrough
  | ok more =>
      cases more with
      | true => rfl
      | false =>
          rw [hcalled] at hthrough
          cases hthrough

end Exchange

/-- A handler is called exactly if the request goes through the before chain and there is a handler for what
the chain has made of it. -/
theorem HttpServer.invoked_iff {Socket : Type} (s : HttpServer Socket) (unconnected : Bool) (duration : Int)
    (req : HttpRequest) :
    Invoked (s.respond unconnected duration req).2.trace ↔
      (Exchange.beforeChain 0 s.mMiddlewares { req }).1 = true ∧
        s.HasHandler (Exchange.beforeChain 0 s.mMiddlewares { req }).2.req := by
  obtain ⟨later, htrace, hlater, -⟩ := s.respond_spec unconnected duration req
  obtain ⟨first, hfirst, -⟩ := Exchange.beforeChain_spec 0 s.mMiddlewares { req }
  have hnone {event : Event} (hevent : event ∈ first) : event.kind ≠ .handling :=
    hfirst.kind_ne hevent (by decide)
  have hhandled : Invoked (s.respond unconnected duration req).2.trace ↔ Invoked (s.handled req).2.trace := by
    rw [htrace]
    constructor
    · rintro ⟨event, hevent, hkind⟩
      rcases List.mem_append.mp hevent with hevent | hevent
      · exact ⟨event, hevent, hkind⟩
      · rcases hlater event hevent with hother | hother | hother <;> rw [hother] at hkind <;> cases hkind
    · rintro ⟨event, hevent, hkind⟩
      exact ⟨event, List.mem_append_left later hevent, hkind⟩
  rw [hhandled, HttpServer.handled]
  by_cases hthrough : (Exchange.beforeChain 0 s.mMiddlewares { req }).1 = true
  · obtain ⟨second, hsecond, hinvoked, -⟩ := s.handle_spec (Exchange.beforeChain 0 s.mMiddlewares { req }).2
    rw [if_pos hthrough, hsecond.trace, hfirst.trace, ← hinvoked, List.nil_append]
    constructor
    · rintro ⟨event, hevent, hkind⟩
      rcases List.mem_append.mp hevent with hevent | hevent
      · exact absurd hkind (hnone hevent)
      · exact ⟨hthrough, event, hevent, hkind⟩
    · rintro ⟨-, event, hevent, hkind⟩
      exact ⟨event, List.mem_append_right first hevent, hkind⟩
  · rw [if_neg hthrough, hfirst.trace, List.nil_append]
    refine iff_of_false ?_ (fun hboth => hthrough hboth.1)
    rintro ⟨event, hevent, hkind⟩
    exact hnone hevent hkind

/-- Whatever the other middlewares do: a handler is called only where the authentication admits the request as
it was when it got there. -/
theorem AuthMiddleware.admits_of_invoked {Socket : Type} [DecidableEq Socket] (peerAddress : Socket → String)
    {s : HttpServer Socket} {a : AuthMiddleware} {front rest : List IMiddleware}
    (hchain : s.mMiddlewares = front ++ (Builtin.auth a).toMiddleware qt :: rest) {unconnected : Bool}
    {duration : Int} {socket : Socket} {chunk : Bytes}
    (hinvoked : Invoked (s.onReadyRead qt peerAddress unconnected duration socket chunk).1.2) :
    ∃ req, (s.takeRequest qt peerAddress socket chunk).1 = .ok req ∧
      a.Admits qt (Exchange.beforeChain 0 front { req }).2.req := by
  have hsame : (s.takeRequest qt peerAddress socket chunk).2.mMiddlewares = s.mMiddlewares := by
    unfold HttpServer.takeRequest
    dsimp only
    split_ifs
    · rfl
    · split <;> rfl
  have hanswer (response : HttpResponse) : ¬ Invoked (if unconnected then [] else [.written response]) := by
    cases unconnected <;> simp [Invoked, Event.kind]
  unfold HttpServer.onReadyRead at hinvoked
  generalize s.takeRequest qt peerAddress socket chunk = taken at hsame hinvoked ⊢
  obtain ⟨outcome, s'⟩ := taken
  cases outcome with
  | tooLarge => exact absurd hinvoked (hanswer _)
  | badRequest => exact absurd hinvoked (hanswer _)
  | incomplete => exact absurd hinvoked (by simp [Invoked])
  | ok req =>
      refine ⟨req, rfl, ?_⟩
      have hthrough := ((s'.invoked_iff unconnected duration req).mp hinvoked).1
      rw [show s'.mMiddlewares = _ from hsame.trans hchain, Exchange.beforeChain_append] at hthrough
      generalize Exchange.beforeChain 0 front { req } = y at hthrough ⊢
      by_cases hfront : y.1 = true
      · rw [if_pos hfront] at hthrough
        exact (a.before_eq_true_iff qt y.2.req y.2.response).mp (Exchange.before_of_beforeChain hthrough)
      · rw [if_neg hfront] at hthrough
        exact absurd hthrough Bool.false_ne_true

/-- One token is valid. -/
def tokenAuth : AuthMiddleware where
  mValidator token := .ok (token = "t")
  mExcludePaths := ["/health"]

/-- Every path leads to the not-found handler, behind the authentication. -/
def tokenServer : HttpServer Bool where
  mNotFoundHandler := some fun _ response => (.ok (), response)
  mMiddlewares := [(Builtin.auth tokenAuth).toMiddleware asciiQt]

def tokenRequest : Bytes := ascii "GET /a HTTP/1.1\r\nAuthorization: Bearer t\r\n\r\n"

theorem admits_of_invoked_tokenRequest :
    ∃ req, (tokenServer.takeRequest asciiQt (fun _ => "::1") true tokenRequest).1 = .ok req ∧
      tokenAuth.Admits asciiQt (Exchange.beforeChain 0 [] { req }).2.req := by
  have hinvoked : Invoked (tokenServer.onReadyRead asciiQt (fun _ => "::1") false 3 true tokenRequest).1.2 :=
    ⟨.notFoundHandler (.ok ()), List.mem_of_getElem? (i := 1) rfl, rfl⟩
  have hchain : tokenServer.mMiddlewares = [] ++ (Builtin.auth tokenAuth).toMiddleware asciiQt :: [] := rfl
  exact AuthMiddleware.admits_of_invoked asciiQt (fun _ => "::1") hchain hinvoked

/-! ### What is answered -/

/-- What the built-in middlewares judge a request by. -/
structure Alike (req req' : HttpRequest) : Prop where
  method : req.mMethod = req'.mMethod
  path : req.mPath = req'.mPath
  authorization : req.header qt "Authorization" = req'.header qt "Authorization"

variable {qt}

theorem Alike.refl (req : HttpRequest) : Alike qt req req := ⟨rfl, rfl, rfl⟩

theorem Alike.trans {req req' req'' : HttpRequest} (hfirst : Alike qt req req')
    (hsecond : Alike qt req' req'') : Alike qt req req'' :=
  ⟨hfirst.method.trans hsecond.method, hfirst.path.trans hsecond.path,
    hfirst.authorization.trans hsecond.authorization⟩

namespace Builtin

/-- The response of a middleware that refuses a request. -/
def refuse : Builtin → HttpResponse → HttpResponse
  | .logging _, resp => resp
  | .auth a, resp => a.refuse resp
  | .cors c, resp => c.preflight resp

/-- A call came to a verdict: a refusal alone changes the response. -/
structure Judged (qt : Qt) (b : Builtin) (verdict : Except Thrown Bool) (req : HttpRequest)
    (resp : HttpResponse) (called : Except Thrown Bool × HttpRequest × HttpResponse) : Prop where
  verdict_eq : called.1 = verdict
  alike : Alike qt called.2.1 req
  refused : verdict = .ok false → called.2.2 = b.refuse resp
  kept : verdict ≠ .ok false → called.2.2 = resp

theorem Judged.refusal (b : Builtin) (req : HttpRequest) (resp : HttpResponse) :
    Judged qt b (.ok false) req resp (.ok false, req, b.refuse resp) :=
  ⟨rfl, .refl req, fun _ => rfl, fun hne => absurd rfl hne⟩

theorem Judged.keep (b : Builtin) {verdict : Except Thrown Bool} (hne : verdict ≠ .ok false)
    {req req' : HttpRequest} (halike : Alike qt req' req) (resp : HttpResponse) :
    Judged qt b verdict req resp (verdict, req', resp) :=
  ⟨rfl, halike, fun heq => absurd heq hne, fun _ => rfl⟩

theorem Judged.pass (b : Builtin) {req req' : HttpRequest} (halike : Alike qt req' req)
    (resp : HttpResponse) : Judged qt b (.ok true) req resp (.ok true, req', resp) :=
  .keep b (by simp) halike resp

theorem auth_judged (a : AuthMiddleware) (req : HttpRequest) :
    ∃ verdict, ∀ req', Alike qt req' req → ∀ resp,
      Judged qt (.auth a) verdict req' resp (a.before qt req' resp) := by
  have hrefused (req' : HttpRequest) (resp : HttpResponse) :
      Judged qt (.auth a) (.ok false) req' resp (.ok false, req', a.refuse resp) :=
    .refusal (.auth a) req' resp
  have hkept {verdict : Except Thrown Bool} (hne : verdict ≠ .ok false) (req' : HttpRequest)
      (resp : HttpResponse) : Judged qt (.auth a) verdict req' resp (verdict, req', resp) :=
    .keep (.auth a) hne (.refl req') resp
  unfold AuthMiddleware.before
  by_cases hpath : a.mExcludePaths.any (req.mPath = ·) = true
  · refine ⟨.ok true, fun req' halike resp => ?_⟩
    rw [halike.path, if_pos hpath]
    exact hkept (by simp) req' resp
  by_cases hempty : (req.header qt "Authorization").isEmpty = true
  · refine ⟨.ok false, fun req' halike resp => ?_⟩
    rw [halike.path, halike.authorization, if_neg hpath, if_pos hempty]
    exact hrefused req' resp
  by_cases hbearer : "Bearer ".toList.isPrefixOf (qt.trimmed (req.header qt "Authorization")).toList = true
  case neg =>
    refine ⟨.ok false, fun req' halike resp => ?_⟩
    rw [halike.path, halike.authorization, if_neg hpath, if_neg hempty, if_pos hbearer]
    exact hrefused req' resp
  by_cases htoken :
      (String.ofList ((qt.trimmed (req.header qt "Authorization")).toList.drop 7)).isEmpty = true
  · refine ⟨.ok false, fun req' halike resp => ?_⟩
    rw [halike.path, halike.authorization, if_neg hpath, if_neg hempty, if_neg (not_not_intro hbearer),
      if_pos htoken]
    exact hrefused req' resp
  refine ⟨a.mValidator (String.ofList ((qt.trimmed (req.header qt "Authorization")).toList.drop 7)),
    fun req' halike resp => ?_⟩
  rw [halike.path, halike.authorization, if_neg hpath, if_neg hempty, if_neg (not_not_intro hbearer),
    if_neg htoken]
  split <;> rename_i hvalid <;> rw [hvalid]
  · exact hkept (by simp) req' resp
  · exact hrefused req' resp
  · exact hkept (by simp) req' resp

/-- All requests that are alike get one verdict. -/
theorem exists_judged (hname : qt.toLower "X-Middleware-StartTime" ≠ qt.toLower "Authorization")
    (b : Builtin) (req : HttpRequest) :
    ∃ verdict, ∀ req', Alike qt req' req → ∀ resp, Judged qt b verdict req' resp (b.before qt req' resp) := by
  cases b with
  | auth a => exact auth_judged a req
  | logging startTime =>
      have halike (req' : HttpRequest) :
          Alike qt (req'.setHeader qt "X-Middleware-StartTime" startTime) req' := by
        refine ⟨rfl, rfl, ?_⟩
        rw [HttpRequest.header, HttpRequest.setHeader, Finmap.lookup_insert_of_ne _ (Ne.symm hname),
          HttpRequest.header]
      exact ⟨.ok true, fun req' _ resp => .pass (.logging startTime) (halike req') resp⟩
  | cors c =>
      by_cases hmethod : req.mMethod = .options
      · refine ⟨.ok false, fun req' halike resp => ?_⟩
        rw [before, CorsMiddleware.before, if_pos (halike.method.trans hmethod)]
        exact .refusal (.cors c) req' resp
      · refine ⟨.ok true, fun req' halike resp => ?_⟩
        rw [before, CorsMiddleware.before, if_neg (halike.method ▸ hmethod)]
        exact .pass (.cors c) (.refl req') resp

/-- What `before` comes to. -/
def verdict (qt : Qt) (b : Builtin) (req : HttpRequest) : Except Thrown Bool := (b.before qt req {}).1

theorem judged (hname : qt.toLower "X-Middleware-StartTime" ≠ qt.toLower "Authorization") (b : Builtin)
    {req req' : HttpRequest} (halike : Alike qt req' req) (resp : HttpResponse) :
    Judged qt b (b.verdict qt req) req' resp (b.before qt req' resp) := by
  obtain ⟨verdict, hjudged⟩ := b.exists_judged hname req
  rw [Builtin.verdict, (hjudged req (.refl req) {}).verdict_eq]
  exact hjudged req' halike resp

end Builtin

/-! ### A chain of built-in middlewares -/

variable (hname : qt.toLower "X-Middleware-StartTime" ≠ qt.toLower "Authorization")

include hname

/-- The middlewares that let a request through leave the response as it is. -/
theorem beforeChain_pass {chain : List Builtin} {req : HttpRequest}
    (hpass : ∀ b ∈ chain, b.verdict qt req = .ok true) (place : Nat) (x : Exchange)
    (halike : Alike qt x.req req) :
    (Exchange.beforeChain place (chain.map (Builtin.toMiddleware qt)) x).1 = true ∧
      (Exchange.beforeChain place (chain.map (Builtin.toMiddleware qt)) x).2.response = x.response ∧
      Alike qt (Exchange.beforeChain place (chain.map (Builtin.toMiddleware qt)) x).2.req req := by
  induction chain generalizing place x with
  | nil => exact ⟨rfl, rfl, halike⟩
  | cons b chain ih =>
      obtain ⟨hb, hchain⟩ := List.forall_mem_cons.mp hpass
      have hjudged : Builtin.Judged qt b (.ok true) x.req x.response
          ((b.toMiddleware qt).before x.req x.response) :=
        hb ▸ b.judged hname halike x.response
      rw [List.map_cons, Exchange.beforeChain, hjudged.verdict_eq]
      generalize (b.toMiddleware qt).before x.req x.response = called at hjudged ⊢
      dsimp only
      obtain ⟨hthrough, hresponse, hsame⟩ := ih hchain (place + 1)
        (Exchange.record { x with req := called.2.1, response := called.2.2 } (.before place (.ok true)))
        (hjudged.alike.trans halike)
      exact ⟨hthrough, hresponse.trans (hjudged.kept (by simp)), hsame⟩

/-- The response of a middleware that stops a request: its refusal, or the internal error of its exception. -/
def Builtin.refusal (qt : Qt) (b : Builtin) (req : HttpRequest) : HttpResponse :=
  match b.verdict qt req with
  | .error _ => { mStatus := 500, mBody := ascii "Internal Server Error" }
  | .ok _ => b.refuse {}

theorem beforeChain_refuse {front rest : List Builtin} {b : Builtin} {req : HttpRequest}
    (hpass : ∀ first ∈ front, first.verdict qt req = .ok true) (hstop : b.verdict qt req ≠ .ok true) :
    let stopped := Exchange.beforeChain 0 ((front ++ b :: rest).map (Builtin.toMiddleware qt)) { req }
    stopped.1 = false ∧ stopped.2.response = b.refusal qt req := by
  obtain ⟨hthrough, hresponse, halike⟩ := beforeChain_pass hname hpass 0 { req } (.refl req)
  rw [List.map_append, List.map_cons, Exchange.beforeChain_append, if_pos hthrough]
  generalize (Exchange.beforeChain 0 (front.map (Builtin.toMiddleware qt)) { req }).2 = y at hresponse halike
  have hjudged : Builtin.Judged qt b (b.verdict qt req) y.req y.response
      ((b.toMiddleware qt).before y.req y.response) := b.judged hname halike y.response
  rw [Exchange.beforeChain, hjudged.verdict_eq, Builtin.refusal]
  generalize (b.toMiddleware qt).before y.req y.response = called at hjudged ⊢
  revert hjudged hstop
  cases b.verdict qt req with
  | error thrown =>
      intro _ hjudged
      have hkept := (hjudged.kept (by simp)).trans hresponse
      refine ⟨rfl, ?_⟩
      simp only [Exchange.internalError, Exchange.record, hkept]
  | ok more =>
      cases more with
      | true => exact fun hstop => absurd rfl hstop
      | false =>
          intro _ hjudged
          refine ⟨rfl, ?_⟩
          have hrefused := hjudged.refused rfl
          rw [hresponse] at hrefused
          exact hrefused

omit hname

theorem afterResponse_eq (duration : Int) (chain : List Builtin) (req : HttpRequest) (resp : HttpResponse) :
    Exchange.afterResponse duration (chain.map (Builtin.toMiddleware qt)) req resp =
      chain.foldr Builtin.after resp := by
  rw [Exchange.afterResponse, List.foldl_reverse, List.foldr_map]
  rfl

theorem HttpServer.responses_of_none {Socket : Type} {s : HttpServer Socket} {unconnected : Bool}
    {duration : Int} {req : HttpRequest} (hescaped : (s.handled req).1 = none) :
    responses (s.respond unconnected duration req).2.trace =
      if unconnected then [] else [Exchange.afterResponse duration s.mMiddlewares (s.handled req).2.req
        (s.handled req).2.response] := by
  obtain ⟨later, htrace, -, hfinished⟩ := s.respond_spec unconnected duration req
  have hnone : (s.handled req).2.trace.filterMap Event.written? = [] :=
    filterMap_eq_nil written?_of_kind fun event hevent => ((s.handled_spec req).kinds event hevent).2
  rw [← (hfinished hescaped).2, htrace, responses, List.filterMap_append, hnone, List.nil_append, responses]

/-- A response that is sent is what the after chain makes of the one that the request was handled with. -/
theorem HttpServer.eq_of_mem_responses {Socket : Type} {s : HttpServer Socket} {unconnected : Bool}
    {duration : Int} {req : HttpRequest} {resp : HttpResponse}
    (hresp : resp ∈ responses (s.respond unconnected duration req).2.trace) :
    resp = Exchange.afterResponse duration s.mMiddlewares (s.handled req).2.req
      (s.handled req).2.response := by
  cases hescaped : (s.handled req).1 with
  | none =>
      rw [responses_of_none hescaped] at hresp
      cases unconnected with
      | true => cases hresp
      | false => exact List.mem_singleton.mp hresp
  | some thrown =>
      have hsame : (s.respond unconnected duration req).2 = (s.handled req).2 := by
        rw [HttpServer.respond]
        generalize s.handled req = done at hescaped ⊢
        obtain ⟨escaped, x⟩ := done
        obtain rfl : escaped = some thrown := hescaped
        rfl
      have hnone : responses (s.handled req).2.trace = [] :=
        filterMap_eq_nil written?_of_kind fun event hevent => ((s.handled_spec req).kinds event hevent).2
      rw [hsame, hnone] at hresp
      cases hresp

/-- A `CorsMiddleware` of the chain allows credentials. -/
def Credentialed (chain : List Builtin) : Prop := ∃ c, .cors c ∈ chain ∧ c.mAllowCredentials = true

/-- The cross-origin headers of a response that is sent for the one that the request was handled with:
those of the first `CorsMiddleware`, and credentials if any allows them. If none does, a header that the
handler set itself stays. -/
structure CrossOrigin (chain : List Builtin) (handled resp : HttpResponse) : Prop where
  first : ∀ front c rest, chain = front ++ .cors c :: rest → (∀ c', .cors c' ∉ front) →
    resp.mHeaders.lookup "Access-Control-Allow-Origin" = some c.mAllowedOrigin ∧
      resp.mHeaders.lookup "Access-Control-Allow-Methods" = some c.mAllowedMethods ∧
        resp.mHeaders.lookup "Access-Control-Allow-Headers" = some c.mAllowedHeaders
  credentials : Credentialed chain → resp.mHeaders.lookup "Access-Control-Allow-Credentials" = some "true"
  own : ¬ Credentialed chain → resp.mHeaders.lookup "Access-Control-Allow-Credentials" =
    handled.mHeaders.lookup "Access-Control-Allow-Credentials"

theorem lookup_setHeader (resp : HttpResponse) (key value other : String) :
    (resp.setHeader key value).mHeaders.lookup other =
      if other = key then some value else resp.mHeaders.lookup other :=
  UnorderedMap.lookup_insert_ite resp.mHeaders key value other

theorem lookup_setHeaders (c : CorsMiddleware) (resp : HttpResponse) (key : String) :
    (c.setHeaders resp).mHeaders.lookup key =
      if key = "Access-Control-Allow-Credentials" ∧ c.mAllowCredentials = true then some "true"
      else if key = "Access-Control-Allow-Headers" then some c.mAllowedHeaders
      else if key = "Access-Control-Allow-Methods" then some c.mAllowedMethods
      else if key = "Access-Control-Allow-Origin" then some c.mAllowedOrigin
      else resp.mHeaders.lookup key := by
  unfold CorsMiddleware.setHeaders
  cases c.mAllowCredentials <;> simp [lookup_setHeader]

theorem foldr_after_of_not_mem {chain : List Builtin} (hnone : ∀ c, .cors c ∉ chain) (resp : HttpResponse) :
    chain.foldr Builtin.after resp = resp := by
  induction chain with
  | nil => rfl
  | cons b chain ih =>
      rw [List.foldr_cons, ih fun c hmem => hnone c (List.mem_cons_of_mem b hmem)]
      cases b with
      | logging | auth => rfl
      | cors c => exact absurd List.mem_cons_self (hnone c)

theorem credentials_foldr {chain : List Builtin} (hcredentialed : Credentialed chain) (resp : HttpResponse) :
    (chain.foldr Builtin.after resp).mHeaders.lookup "Access-Control-Allow-Credentials" = some "true" := by
  obtain ⟨c, hmem, hallow⟩ := hcredentialed
  induction chain with
  | nil => cases hmem
  | cons b chain ih =>
      rw [List.foldr_cons]
      rcases List.mem_cons.mp hmem with rfl | hrest
      · rw [Builtin.after, CorsMiddleware.after, lookup_setHeaders, if_pos ⟨rfl, hallow⟩]
      · have hlater := ih hrest
        cases b with
        | logging | auth => exact hlater
        | cors first =>
            rw [Builtin.after, CorsMiddleware.after, lookup_setHeaders, hlater]
            simp

theorem not_credentialed_cons {b : Builtin} {chain : List Builtin} (hnone : ¬ Credentialed (b :: chain)) :
    ¬ Credentialed chain := by
  rintro ⟨c, hmem, hallow⟩
  exact hnone ⟨c, List.mem_cons_of_mem b hmem, hallow⟩

theorem own_foldr {chain : List Builtin} (hnone : ¬ Credentialed chain) (resp : HttpResponse) :
    (chain.foldr Builtin.after resp).mHeaders.lookup "Access-Control-Allow-Credentials" =
      resp.mHeaders.lookup "Access-Control-Allow-Credentials" := by
  induction chain with
  | nil => rfl
  | cons b chain ih =>
      have hlater := ih (not_credentialed_cons hnone)
      cases b with
      | logging | auth => exact hlater
      | cors c =>
          have hdeny : ¬ c.mAllowCredentials = true := fun hallow => hnone ⟨c, List.mem_cons_self, hallow⟩
          rw [List.foldr_cons, Builtin.after, CorsMiddleware.after, lookup_setHeaders, ← hlater]
          simp [hdeny]

theorem crossOrigin_foldr (chain : List Builtin) (resp : HttpResponse) :
    CrossOrigin chain resp (chain.foldr Builtin.after resp) := by
  refine ⟨?_, fun hcredentialed => credentials_foldr hcredentialed resp, fun hnone => own_foldr hnone resp⟩
  rintro front c rest rfl hnone
  rw [List.foldr_append, foldr_after_of_not_mem hnone, List.foldr_cons, Builtin.after, CorsMiddleware.after]
  simp [lookup_setHeaders]

/-- The first middleware that stops a request, if there is one. -/
theorem pass_or_stop (qt : Qt) (chain : List Builtin) (req : HttpRequest) :
    (∀ b ∈ chain, b.verdict qt req = .ok true) ∨
      ∃ front b rest, chain = front ++ b :: rest ∧ (∀ first ∈ front, first.verdict qt req = .ok true) ∧
        b.verdict qt req ≠ .ok true := by
  induction chain with
  | nil => exact .inl (by simp)
  | cons b chain ih =>
      by_cases hb : b.verdict qt req = .ok true
      · rcases ih with hpass | ⟨front, stop, rest, rfl, hfront, hstop⟩
        · exact .inl (List.forall_mem_cons.mpr ⟨hb, hpass⟩)
        · exact .inr ⟨b :: front, stop, rest, rfl, List.forall_mem_cons.mpr ⟨hb, hfront⟩, hstop⟩
      · exact .inr ⟨[], b, chain, rfl, by simp, hb⟩

theorem HttpServer.hasHandler_congr {Socket : Type} (s : HttpServer Socket) {req req' : HttpRequest}
    (halike : Alike qt req req') : s.HasHandler req ↔ s.HasHandler req' := by
  rw [HttpServer.HasHandler, HttpServer.HasHandler, halike.method, halike.path]

/-- A middleware that refuses a request sets no header for credentials, unless it allows them. -/
theorem lookup_refusal {chain : List Builtin} (hnone : ¬ Credentialed chain) {b : Builtin} (hmem : b ∈ chain)
    (req : HttpRequest) :
    (b.refusal qt req).mHeaders.lookup "Access-Control-Allow-Credentials" = none := by
  have hempty : ({} : HttpResponse).mHeaders.lookup "Access-Control-Allow-Credentials" = none := rfl
  unfold Builtin.refusal
  split
  case h_1 => exact hempty
  case h_2 =>
    cases b with
    | logging startTime => exact hempty
    | auth a =>
        have hheaders : (a.refuse {}).mHeaders =
            ((({} : HttpResponse).setStatus 401).setHeader "WWW-Authenticate" "Bearer").mHeaders := rfl
        rw [Builtin.refuse, hheaders, lookup_setHeader, if_neg (by decide)]
        exact hempty
    | cors c =>
        have hdeny : ¬ c.mAllowCredentials = true := fun hallow => hnone ⟨c, hmem, hallow⟩
        rw [Builtin.refuse, CorsMiddleware.preflight, lookup_setHeader, lookup_setHeaders]
        simp only [hdeny, if_false, String.reduceEq]
        exact hempty

/-- Without a handler the server answers that nothing was found, and leaves the headers. -/
theorem HttpServer.headers_handle {Socket : Type} {s : HttpServer Socket} {x : Exchange}
    (hnone : ¬ s.HasHandler x.req) : (s.handle x).2.response.mHeaders = x.response.mHeaders := by
  rw [HttpServer.HasHandler, not_or, Option.not_isSome_iff_eq_none, Option.not_isSome_iff_eq_none] at hnone
  rw [HttpServer.handle, hnone.1, hnone.2]

include hname

theorem lookup_handled {Socket : Type} {s : HttpServer Socket} {chain : List Builtin}
    (hchain : s.mMiddlewares = chain.map (Builtin.toMiddleware qt)) (hnone : ¬ Credentialed chain)
    {req : HttpRequest}
    (huncalled : ¬ ((∀ b ∈ chain, b.verdict qt req = .ok true) ∧ s.HasHandler req)) :
    (s.handled req).2.response.mHeaders.lookup "Access-Control-Allow-Credentials" = none := by
  rw [HttpServer.handled, hchain]
  rcases pass_or_stop qt chain req with hpass | ⟨front, b, rest, rfl, hfront, hstop⟩
  · obtain ⟨hthrough, hresponse, halike⟩ := beforeChain_pass hname hpass 0 { req } (.refl req)
    have hunhandled := huncalled ∘ And.intro hpass
    rw [← s.hasHandler_congr halike] at hunhandled
    rw [if_pos hthrough, s.headers_handle hunhandled, hresponse]
    rfl
  · obtain ⟨hstopped, hresponse⟩ := @beforeChain_refuse qt hname front rest b req hfront hstop
    rw [hstopped, if_neg (by decide), hresponse]
    exact lookup_refusal hnone (by simp) req

/-- A chain of built-in middlewares. A handler is called exactly where all of them let the request through and
there is one. Otherwise the first that does not decides what is answered. Every response that is sent, also
one of the server itself, has the cross-origin headers, and where no handler was called it allows credentials
exactly if a middleware does. -/
theorem answer_of_builtins {Socket : Type} {s : HttpServer Socket} {chain : List Builtin}
    (hchain : s.mMiddlewares = chain.map (Builtin.toMiddleware qt)) (unconnected : Bool) (duration : Int)
    (req : HttpRequest) :
    let trace := (s.respond unconnected duration req).2.trace
    (Invoked trace ↔ (∀ b ∈ chain, b.verdict qt req = .ok true) ∧ s.HasHandler req) ∧
      (∀ front b rest, chain = front ++ b :: rest → (∀ first ∈ front, first.verdict qt req = .ok true) →
        b.verdict qt req ≠ .ok true →
          responses trace = if unconnected then [] else [chain.foldr Builtin.after (b.refusal qt req)]) ∧
        ∀ resp ∈ responses trace, CrossOrigin chain (s.handled req).2.response resp ∧
          (¬ Invoked trace →
            (resp.mHeaders.lookup "Access-Control-Allow-Credentials" ≠ none ↔ Credentialed chain)) := by
  have hinvoked : Invoked (s.respond unconnected duration req).2.trace ↔
      (∀ b ∈ chain, b.verdict qt req = .ok true) ∧ s.HasHandler req := by
    rw [s.invoked_iff, hchain]
    rcases pass_or_stop qt chain req with hpass | ⟨front, b, rest, rfl, hfront, hstop⟩
    · obtain ⟨hthrough, -, halike⟩ := beforeChain_pass hname hpass 0 { req } (.refl req)
      rw [s.hasHandler_congr halike]
      exact and_congr_left fun _ => iff_of_true hthrough hpass
    · obtain ⟨hstopped, -⟩ := @beforeChain_refuse qt hname front rest b req hfront hstop
      refine iff_of_false (fun hboth => ?_) fun hboth => hstop (hboth.1 b (by simp))
      rw [hstopped] at hboth
      exact absurd hboth.1 (by decide)
  refine ⟨hinvoked, ?_, ?_⟩
  · rintro front b rest rfl hfront hstop
    obtain ⟨hstopped, hresponse⟩ := @beforeChain_refuse qt hname front rest b req hfront hstop
    have hhandled : s.handled req = (none, (Exchange.beforeChain 0 s.mMiddlewares { req }).2) := by
      rw [HttpServer.handled, hchain, hstopped, if_neg (by decide)]
    rw [s.responses_of_none (congrArg Prod.fst hhandled), hhandled, hchain, hresponse, afterResponse_eq]
  · intro resp hresp
    have hsent : resp = chain.foldr Builtin.after (s.handled req).2.response := by
      rw [HttpServer.eq_of_mem_responses hresp, hchain, afterResponse_eq]
    have hheaders := hsent ▸ crossOrigin_foldr chain (s.handled req).2.response
    refine ⟨hheaders, fun huncalled => ⟨fun hsome => ?_, fun hcredentialed => ?_⟩⟩
    · by_contra hnone
      rw [hheaders.own hnone, lookup_handled hname hchain hnone (huncalled ∘ hinvoked.mpr)] at hsome
      exact hsome rfl
    · rw [hheaders.credentials hcredentialed]
      exact Option.some_ne_none _

omit hname

def builtinChain : List Builtin := [.logging "1", .auth tokenAuth, .cors {}]

def builtinServer : HttpServer Bool where
  mNotFoundHandler := some fun _ response => (.ok (), response)
  mMiddlewares := builtinChain.map (Builtin.toMiddleware asciiQt)

/-- A preflight request, which the authentication refuses before the cross-origin middleware gets it. -/
def preflightRequest : HttpRequest := { mMethod := .options, mPath := "/a" }

theorem answer_of_builtins_preflightRequest :
    responses (builtinServer.respond false 3 preflightRequest).2.trace =
      [builtinChain.foldr Builtin.after (tokenAuth.refuse {})] := by
  have hname : asciiQt.toLower "X-Middleware-StartTime" ≠ asciiQt.toLower "Authorization" := by decide
  have hchain : builtinServer.mMiddlewares = builtinChain.map (Builtin.toMiddleware asciiQt) := rfl
  have hstop : (Builtin.auth tokenAuth).verdict asciiQt preflightRequest = .ok false := rfl
  exact (answer_of_builtins hname hchain false 3 preflightRequest).2.1 [.logging "1"] (.auth tokenAuth)
    [.cors {}] rfl (List.forall_mem_singleton.mpr rfl) (by simp [hstop])

end SoulCoreKit.Server
