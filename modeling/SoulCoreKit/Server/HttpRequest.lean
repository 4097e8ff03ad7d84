import Mathlib.Algebra.Group.Nat.Defs
import Mathlib.Algebra.Order.Ring.Int
import Mathlib.Data.List.Basic
import SoulCoreKit.Lib.Occurrence
import SoulCoreKit.Lib.UnorderedMap

/-!
# HTTP requests

`server::HttpRequest` and `HttpServer::parseRequest`. The request is an output parameter of the source,
so it is threaded through the parser and keeps what was set before an early return. What the parser uses
of `QString`, `QUrl` and `QUrlQuery` is a parameter: functions of a text and nothing else.
-/

namespace SoulCoreKit.Server

/-! ### Byte arrays

The operations of `QByteArray` that the servers use. A search that finds nothing gives -1 there and
nothing here. -/

abbrev Bytes := List UInt8

/-- `static_cast<int>`. -/
def toInt (n : Nat) : Int := Int.bmod n (2 ^ 32)

/-- A negative length means everything from the position on. -/
def mid (bytes : Bytes) (position length : Int) : Bytes :=
  if position < 0 then
    if length < 0 ∨ length + position ≥ bytes.length then bytes
    else bytes.take (length + position).toNat
  else if length < 0 then
    bytes.drop position.toNat
  else
    (bytes.drop position.toNat).take length.toNat

/-- Nothing is removed where the length is not positive. -/
def remove (bytes : Bytes) (position length : Int) : Bytes :=
  if length ≤ 0 ∨ position < 0 ∨ position ≥ bytes.length then bytes
  else bytes.take position.toNat ++ bytes.drop (position + length).toNat

/-- A negative length means no bytes. -/
def left (bytes : Bytes) (length : Int) : Bytes := bytes.take length.toNat

/-- The first occurrence from a position on. -/
def indexOf (bytes pattern : Bytes) (position : Nat) : Option Nat :=
  (Occurrence.firstIndex pattern (bytes.drop position)).map (· + position)

/-- The bytes of a literal. -/
def ascii (text : String) : Bytes := text.toList.map fun c => UInt8.ofNat c.toNat

/-! ### Requests -/

/-- The functions of Qt on texts. -/
structure Qt where
  fromUtf8 : Bytes → String
  toLower : String → String
  trimmed : String → String
  toInt : String → Int
  /-- `QUrl(uri).path()`. -/
  urlPath : String → String
  /-- `QUrlQuery(QUrl(uri)).queryItems()`. -/
  urlQueryItems : String → List (String × String)

inductive HttpMethod where
  | get
  | post
  | put
  | delete
  | head
  | options
  | patch
  deriving DecidableEq, Repr

namespace HttpMethod

def toString : HttpMethod → String
  | .get => "GET"
  | .post => "POST"
  | .put => "PUT"
  | .delete => "DELETE"
  | .head => "HEAD"
  | .options => "OPTIONS"
  | .patch => "PATCH"

def fromString (method : Bytes) : Option HttpMethod :=
  if method = ascii "GET" then some .get
  else if method = ascii "POST" then some .post
  else if method = ascii "PUT" then some .put
  else if method = ascii "DELETE" then some .delete
  else if method = ascii "HEAD" then some .head
  else if method = ascii "OPTIONS" then some .options
  else if method = ascii "PATCH" then some .patch
  else none

end HttpMethod

/-- The address is the text of a `QHostAddress`, empty for the null address. -/
structure HttpRequest where
  mMethod : HttpMethod := .get
  mPath : String := ""
  mUri : String := ""
  mQueryParams : UnorderedMap String String := ∅
  mHeaders : UnorderedMap String String := ∅
  mBody : Bytes := []
  mPeer : String := ""
  deriving DecidableEq

namespace HttpRequest

variable (qt : Qt)

def setHeader (req : HttpRequest) (key value : String) : HttpRequest :=
  { req with mHeaders := req.mHeaders.insert (qt.toLower key) value }

/-- Empty where there is no such header. -/
def header (req : HttpRequest) (key : String) : String :=
  (req.mHeaders.lookup (qt.toLower key)).getD ""

end HttpRequest

inductive ParseStatus where
  | ok
  | incomplete
  | badRequest
  deriving DecidableEq, Repr

section ParseRequest

variable (qt : Qt)

def crlf : Bytes := ascii "\r\n"

/-- The method and the target; `false` where the line has fewer than three parts or the method is
unknown. -/
def parseRequestLine (req : HttpRequest) (requestLine : Bytes) : Bool × HttpRequest :=
  match requestLine.splitOn 32 with
  | first :: second :: _ :: _ =>
      match HttpMethod.fromString first with
      | none => (false, req)
      | some method =>
          let uri := qt.fromUtf8 second
          let queryParams := (qt.urlQueryItems uri).foldl (fun params item => params.insert item.1 item.2)
            (∅ : UnorderedMap String String)
          (true, { req with
            mMethod := method
            mUri := uri
            mPath := qt.urlPath uri
            mQueryParams := queryParams })
  | _ => (false, req)

/-- The body of the header loop, for one line. -/
def parseHeaderLine (req : HttpRequest) (line : Bytes) : HttpRequest :=
  match indexOf line (ascii ":") 0 with
  | none => req
  | some colon =>
      if colon > 0 then
        req.setHeader qt (qt.trimmed (qt.fromUtf8 (line.take colon)))
          (qt.trimmed (qt.fromUtf8 (line.drop (colon + 1))))
      else
        req

/-- `while (pos < headerLines.size())`. Every pass moves the position by two at least, so as many passes
as there are bytes are enough. -/
def parseHeaderLines (headerLines : Bytes) : Nat → Nat → HttpRequest → HttpRequest
  | 0, _, req => req
  | fuel + 1, pos, req =>
      if pos < headerLines.length then
        let lineEnd := (indexOf headerLines crlf pos).getD headerLines.length
        let line := (headerLines.drop pos).take (lineEnd - pos)
        let req := if line.isEmpty then req else parseHeaderLine qt req line
        parseHeaderLines headerLines fuel (lineEnd + 2) req
      else
        req

/-- The part of `parseRequest` after the headers. -/
def parseBody (peerAddress : String) (req : HttpRequest) (bodyPart : Bytes) :
    ParseStatus × HttpRequest :=
  let contentLengthStr := req.header qt "Content-Length"
  if ¬ contentLengthStr.isEmpty then
    let expected := qt.toInt contentLengthStr
    if (bodyPart.length : Int) < expected then
      (.incomplete, req)
    else
      (.ok, { req with mBody := left bodyPart expected, mPeer := peerAddress })
  else
    (.ok, { req with mBody := [], mPeer := peerAddress })

def parseRequest (peerAddress : String) (req : HttpRequest) (data : Bytes) :
    ParseStatus × HttpRequest :=
  match indexOf data (ascii "\r\n\r\n") 0 with
  | none => (.incomplete, req)
  | some headerEnd =>
      let headerPart := data.take headerEnd
      let bodyPart := data.drop (headerEnd + 4)
      match indexOf headerPart crlf 0 with
      | none => (.incomplete, req)
      | some firstLineEnd =>
          match parseRequestLine qt req (headerPart.take firstLineEnd) with
          | (false, req) => (.badRequest, req)
          | (true, req) =>
              let headerLines := headerPart.drop (firstLineEnd + 2)
              let req := parseHeaderLines qt headerLines headerLines.length 0 req
              parseBody qt peerAddress req bodyPart

end ParseRequest

end SoulCoreKit.Server
