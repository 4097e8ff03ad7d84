import SoulCoreKit.Server.HttpServer

/-!
# The built-in middlewares

`LoggingMiddleware`, `AuthMiddleware` and `CorsMiddleware` in the chain of an `HttpServer`.

The settings are the texts that `QString::fromStdString` makes of them, and the reading of the clock is a
text. The line that `LoggingMiddleware` logs afterwards is left out.
-/

namespace SoulCoreKit.Server

variable (qt : Qt)

/-! ### Logging -/

def LoggingMiddleware.before (startTime : String) (req : HttpRequest) (resp : HttpResponse) :
    Except Thrown Bool × HttpRequest × HttpResponse :=
  (.ok true, req.setHeader qt "X-Middleware-StartTime" startTime, resp)

/-! ### Authentication -/

/-- An empty validator throws when it is called. -/
structure AuthMiddleware where
  mValidator : String → Except Thrown Bool
  mExcludePaths : List String := []
  mUnauthorizedMsg : String := "Unauthorized"

namespace AuthMiddleware

variable (a : AuthMiddleware)

def addExcludePath (path : String) : AuthMiddleware := { a with mExcludePaths := a.mExcludePaths ++ [path] }

def setUnauthorizedMessage (msg : String) : AuthMiddleware := { a with mUnauthorizedMsg := msg }

/-- `QByteArray(m_unauthorizedMsg.c_str())`, up to the first NUL. -/
def unauthorizedBody : Bytes := toUtf8 (String.ofList (a.mUnauthorizedMsg.toList.takeWhile (· ≠ '\x00')))

def refuse (resp : HttpResponse) : HttpResponse :=
  ((resp.setStatus 401).setHeader "WWW-Authenticate" "Bearer").setBody a.unauthorizedBody

def before (req : HttpRequest) (resp : HttpResponse) : Except Thrown Bool × HttpRequest × HttpResponse :=
  if a.mExcludePaths.any (req.mPath = ·) then
    (.ok true, req, resp)
  else
    let authHeader := req.header qt "Authorization"
    if authHeader.isEmpty then
      (.ok false, req, a.refuse resp)
    else
      let authStr := (qt.trimmed authHeader).toList
      if ¬ "Bearer ".toList.isPrefixOf authStr then
        (.ok false, req, a.refuse resp)
      else
        let token := String.ofList (authStr.drop 7)
        if token.isEmpty then
          (.ok false, req, a.refuse resp)
        else
          match a.mValidator token with
          | .error thrown => (.error thrown, req, resp)
          | .ok false => (.ok false, req, a.refuse resp)
          | .ok true => (.ok true, req, resp)

end AuthMiddleware

/-! ### Cross-origin requests -/

structure CorsMiddleware where
  mAllowedOrigin : String := "*"
  mAllowedMethods : String := "GET,POST,PUT,DELETE,OPTIONS"
  mAllowedHeaders : String := "Content-Type,Authorization"
  mAllowCredentials : Bool := true

namespace CorsMiddleware

variable (c : CorsMiddleware)

/-- The headers that both `before` and `after` set. -/
def setHeaders (resp : HttpResponse) : HttpResponse :=
  let resp := resp.setHeader "Access-Control-Allow-Origin" c.mAllowedOrigin
  let resp := resp.setHeader "Access-Control-Allow-Methods" c.mAllowedMethods
  let resp := resp.setHeader "Access-Control-Allow-Headers" c.mAllowedHeaders
  if c.mAllowCredentials then resp.setHeader "Access-Control-Allow-Credentials" "true" else resp

/-- The answer to a preflight request. -/
def preflight (resp : HttpResponse) : HttpResponse :=
  (c.setHeaders (resp.setStatus 204)).setHeader "Access-Control-Max-Age" "86400"

def before (req : HttpRequest) (resp : HttpResponse) : Except Thrown Bool × HttpRequest × HttpResponse :=
  if req.mMethod = .options then
    (.ok false, req, c.preflight resp)
  else
    (.ok true, req, resp)

def after (resp : HttpResponse) : HttpResponse := c.setHeaders resp

end CorsMiddleware

/-! ### A chain of them -/

inductive Builtin where
  | logging (startTime : String)
  | auth (a : AuthMiddleware)
  | cors (c : CorsMiddleware)

namespace Builtin

def before : Builtin → HttpRequest → HttpResponse → Except Thrown Bool × HttpRequest × HttpResponse
  | .logging startTime => LoggingMiddleware.before qt startTime
  | .auth a => a.before qt
  | .cors c => c.before

def after : Builtin → HttpResponse → HttpResponse
  | .logging _, resp => resp
  | .auth _, resp => resp
  | .cors c, resp => c.after resp

def name : Builtin → String
  | .logging _ => "LoggingMiddleware"
  | .auth _ => "AuthMiddleware"
  | .cors _ => "CorsMiddleware"

def toMiddleware (b : Builtin) : IMiddleware where
  name := b.name
  before := b.before qt
  after _ resp _ := (.ok (), b.after resp)

end Builtin

end SoulCoreKit.Server
