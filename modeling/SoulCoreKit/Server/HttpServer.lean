import Mathlib.Data.Finset.Sort
import Mathlib.Data.List.Lex
import SoulCoreKit.Lib.Unicode
import SoulCoreKit.Server.HttpRequest

/-!
# The HTTP server

`server::HttpServer::onReadyRead`. Its first half collects the bytes of a connection and parses them
again at every arrival. Its second half takes a parsed request through the middlewares and the handlers.
Middlewares and handlers return or throw, and whatever they changed before that stays. The calls that
are made and what they came to are recorded in the order they are made.
-/

namespace SoulCoreKit.Server

/-! ### Responses, handlers and middlewares -/

structure HttpResponse where
  mStatus : Int := 200
  mHeaders : UnorderedMap String String := ∅
  mBody : Bytes := []
  deriving DecidableEq

/-- What a handler or a middleware throws: a `std::exception` with its `what()`, or anything else. -/
inductive Thrown where
  | exception (what : String)
  | unknown
  deriving DecidableEq, Repr

/-- The text that is logged for it. -/
def Thrown.describe (subject : String) : Thrown → String
  | .exception what => subject ++ " exception: " ++ what
  | .unknown => subject ++ " unknown exception"

abbrev RouteHandler := HttpRequest → HttpResponse → Except Thrown Unit × HttpResponse

structure IMiddleware where
  name : String
  before : HttpRequest → HttpResponse → Except Thrown Bool × HttpRequest × HttpResponse
  after : HttpRequest → HttpResponse → Int → Except Thrown Unit × HttpResponse

/-- Middlewares are named by their place in the chain. -/
inductive Event where
  | before (place : Nat) (result : Except Thrown Bool)
  | handler (result : Except Thrown Unit)
  | notFoundHandler (result : Except Thrown Unit)
  | after (place : Nat) (result : Except Thrown Unit)
  | logged (message : String)
  | written (response : HttpResponse)
  | requestHandled (method path : String) (status : Int)

def Event.written? : Event → Option HttpResponse
  | .written response => some response
  | _ => none

/-- The responses that are sent. -/
def responses (trace : List Event) : List HttpResponse := trace.filterMap Event.written?

/-- A request on its way through the server. -/
structure Exchange where
  req : HttpRequest
  response : HttpResponse := {}
  trace : List Event := []

namespace Exchange

def record (x : Exchange) (event : Event) : Exchange := { x with trace := x.trace ++ [event] }

/-- `SC_ERROR`, then the status and the body of an internal error. -/
def internalError (x : Exchange) (message : String) : Exchange :=
  let x := x.record (.logged message)
  { x with response := { x.response with mStatus := 500, mBody := ascii "Internal Server Error" } }

/-- The before chain; whether the request goes on to a handler. -/
def beforeChain : Nat → List IMiddleware → Exchange → Bool × Exchange
  | _, [], x => (true, x)
  | place, mw :: rest, x =>
      let called := mw.before x.req x.response
      let x := { x with req := called.2.1, response := called.2.2 }.record (.before place called.1)
      match called.1 with
      | .ok true => beforeChain (place + 1) rest x
      | .ok false => (false, x)
      | .error thrown =>
          (false, x.internalError (thrown.describe ("HttpServer: middleware " ++ mw.name ++ " before()")))

/-- One pass of the after chain. -/
def callAfter (duration : Int) (x : Exchange) (mw : IMiddleware × Nat) : Exchange :=
  let called := mw.1.after x.req x.response duration
  let x := { x with response := called.2 }.record (.after mw.2 called.1)
  match called.1 with
  | .ok () => x
  | .error thrown =>
      x.record (.logged (thrown.describe ("HttpServer: middleware " ++ mw.1.name ++ " after()")))

/-- The after chain, from the last middleware to the first. -/
def afterChain (duration : Int) (middlewares : List IMiddleware) (x : Exchange) : Exchange :=
  middlewares.zipIdx.reverse.foldl (callAfter duration) x

/-- Nothing is written to a socket that is no longer connected. -/
def sendResponse (unconnected : Bool) (x : Exchange) : Exchange :=
  if unconnected then x else x.record (.written x.response)

end Exchange

/-! ### The server -/

/-- A route may hold an empty handler. -/
structure HttpServer (Socket : Type) where
  mRoutes : UnorderedMap (HttpMethod × String) (Option RouteHandler) := ∅
  mNotFoundHandler : Option RouteHandler := none
  mMiddlewares : List IMiddleware := []
  mBuffers : UnorderedMap Socket Bytes := ∅

/-- What came of the bytes of a connection. -/
inductive Outcome where
  | tooLarge
  | incomplete
  | badRequest
  | ok (req : HttpRequest)
  deriving DecidableEq

namespace HttpServer

variable {Socket : Type}

def findRoute (s : HttpServer Socket) (method : HttpMethod) (path : String) : Option RouteHandler :=
  (s.mRoutes.lookup (method, path)).join

/-- The handler of the route, the not-found handler, or the built-in answer. An exception of the
not-found handler is not caught. -/
def handle (s : HttpServer Socket) (x : Exchange) : Option Thrown × Exchange :=
  match s.findRoute x.req.mMethod x.req.mPath with
  | some handler =>
      let called := handler x.req x.response
      let x := { x with response := called.2 }.record (.handler called.1)
      match called.1 with
      | .ok () => (none, x)
      | .error thrown => (none, x.internalError (thrown.describe "HttpServer: handler"))
  | none =>
      match s.mNotFoundHandler with
      | some notFoundHandler =>
          let called := notFoundHandler x.req x.response
          let x := { x with response := called.2 }.record (.notFoundHandler called.1)
          match called.1 with
          | .ok () => (none, x)
          | .error thrown => (some thrown, x)
      | none =>
          (none, { x with response := { x.response with mStatus := 404, mBody := ascii "Not Found" } })

/-- The before chain, and the handlers if it went through. -/
def handled (s : HttpServer Socket) (req : HttpRequest) : Option Thrown × Exchange :=
  let chain := Exchange.beforeChain 0 s.mMiddlewares { req }
  if chain.1 then s.handle chain.2 else (none, chain.2)

/-- The after chain and the response, unless an exception leaves `onReadyRead` before. -/
def finish (s : HttpServer Socket) (unconnected : Bool) (duration : Int) :
    Option Thrown × Exchange → Option Thrown × Exchange
  | (some thrown, x) => (some thrown, x)
  | (none, x) =>
      let x := (x.afterChain duration s.mMiddlewares).sendResponse unconnected
      (none, x.record (.requestHandled x.req.mMethod.toString x.req.mPath x.response.mStatus))

/-- From the parsed request to the response. -/
def respond (s : HttpServer Socket) (unconnected : Bool) (duration : Int) (req : HttpRequest) :
    Option Thrown × Exchange :=
  s.finish unconnected duration (s.handled req)

section Receive

variable [DecidableEq Socket] (qt : Qt) (peerAddress : Socket → String)

/-- From the arrival of bytes to the outcome of the parser. The buffer goes unless the request is
incomplete. -/
def takeRequest (s : HttpServer Socket) (socket : Socket) (chunk : Bytes) :
    Outcome × HttpServer Socket :=
  let data := (s.mBuffers.lookup socket).getD [] ++ chunk
  let s := { s with mBuffers := s.mBuffers.insert socket data }
  let erased := { s with mBuffers := s.mBuffers.erase socket }
  if data.length > 1024 * 1024 then
    (.tooLarge, erased)
  else
    match parseRequest qt (peerAddress socket) {} data with
    | (.incomplete, _) => (.incomplete, s)
    | (.badRequest, _) => (.badRequest, erased)
    | (.ok, req) => (.ok req, erased)

/-- An answer of the server itself. -/
def plainResponse (status : Int) (body : String) : HttpResponse :=
  { mStatus := status, mBody := ascii body }

/-- What leaves `onReadyRead` and what is recorded, besides the server afterwards. -/
def onReadyRead (s : HttpServer Socket) (unconnected : Bool) (duration : Int) (socket : Socket)
    (chunk : Bytes) : (Option Thrown × List Event) × HttpServer Socket :=
  let answer (response : HttpResponse) : Option Thrown × List Event :=
    (none, if unconnected then [] else [.written response])
  match s.takeRequest qt peerAddress socket chunk with
  | (.tooLarge, s) => (answer (plainResponse 413 "Request Entity Too Large"), s)
  | (.incomplete, s) => ((none, []), s)
  | (.badRequest, s) => (answer (plainResponse 400 "Bad Request"), s)
  | (.ok req, s) =>
      let responded := s.respond unconnected duration req
      ((responded.1, responded.2.trace), s)

def onDisconnected (s : HttpServer Socket) (socket : Socket) : HttpServer Socket :=
  { s with mBuffers := s.mBuffers.erase socket }

end Receive

end HttpServer

end SoulCoreKit.Server

/-! ### Serialisation of responses

`HttpResponse::serialize`. A `QMap` is walked through in the order of its keys, and two keys are in the
order of their code units. -/

namespace SoulCoreKit.Server

open Unicode

/-- The code units of a `QString`. -/
def codeUnits (text : String) : List Nat := (utf16 text.toList).map UInt16.toNat

theorem codeUnits_injective : Function.Injective codeUnits := by
  intro text text' heq
  have hutf16 := List.map_injective_iff.mpr (fun _ _ => UInt16.toNat_inj.mp) heq
  have hlist := congrArg (ofUtf16 '?') hutf16
  rw [ofUtf16_utf16, ofUtf16_utf16] at hlist
  exact String.toList_inj.mp hlist

/-- `operator<=` of `QString`. -/
def KeyLe (key key' : String) : Prop := codeUnits key ≤ codeUnits key'

instance : DecidableRel KeyLe := fun _ _ => inferInstanceAs (Decidable (_ ≤ _))

instance : IsTrans String KeyLe := ⟨fun _ _ _ => le_trans⟩

instance : Std.Antisymm KeyLe := ⟨fun _ _ hle hge => codeUnits_injective (le_antisymm hle hge)⟩

instance : Std.Total KeyLe := ⟨fun key key' => le_total (codeUnits key) (codeUnits key')⟩

/-- The entries of a `QMap` from `begin()` to `end()`. -/
def mapEntries (m : UnorderedMap String String) : List (String × String) :=
  (m.keys.sort KeyLe).filterMap fun key => (m.lookup key).map fun value => (key, value)

/-- `compare` with `Qt::CaseInsensitive`, for a literal without an S or a K. No letter outside ASCII is the
upper case of one of the others. -/
def sameName (key literal : String) : Bool :=
  key.toList.map Char.toLower = literal.toList.map Char.toLower

def toUtf8 (text : String) : Bytes := utf8 text.toList

/-- `QByteArray::number`. -/
def number (n : Int) : Bytes := ascii (toString n)

namespace HttpResponse

def statusText (code : Int) : String :=
  match code with
  | 200 => "OK"
  | 201 => "Created"
  | 204 => "No Content"
  | 301 => "Moved Permanently"
  | 302 => "Found"
  | 304 => "Not Modified"
  | 400 => "Bad Request"
  | 401 => "Unauthorized"
  | 403 => "Forbidden"
  | 404 => "Not Found"
  | 405 => "Method Not Allowed"
  | 409 => "Conflict"
  | 413 => "Payload Too Large"
  | 500 => "Internal Server Error"
  | 501 => "Not Implemented"
  | 502 => "Bad Gateway"
  | 503 => "Service Unavailable"
  | _ => "Unknown"

def setStatus (r : HttpResponse) (code : Int) : HttpResponse := { r with mStatus := code }

def setHeader (r : HttpResponse) (key value : String) : HttpResponse :=
  { r with mHeaders := r.mHeaders.insert key value }

def setBody (r : HttpResponse) (b : Bytes) : HttpResponse := { r with mBody := b }

/-- The header loop: the buffer, and whether there is a content length. -/
def appendHeaders (headers : List (String × String)) (buf : Bytes) : Bytes × Bool :=
  headers.foldl (fun acc it =>
    (acc.1 ++ toUtf8 it.1 ++ ascii ": " ++ toUtf8 it.2 ++ crlf,
      acc.2 || sameName it.1 "Content-Length")) (buf, false)

def serialize (r : HttpResponse) : Bytes :=
  let headers := mapEntries r.mHeaders
  let buf := ascii "HTTP/1.1 " ++ number r.mStatus ++ ascii " " ++ ascii (statusText r.mStatus) ++ crlf
  let (buf, hasContentLength) := appendHeaders headers buf
  let buf := if hasContentLength then buf
    else buf ++ ascii "Content-Length: " ++ number r.mBody.length ++ crlf
  let hasConnection := headers.any fun it => sameName it.1 "Connection"
  let buf := if hasConnection then buf else buf ++ ascii "Connection: close\r\n"
  buf ++ crlf ++ r.mBody

end HttpResponse

end SoulCoreKit.Server
