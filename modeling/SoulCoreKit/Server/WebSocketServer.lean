import SoulCoreKit.Lib.Base64
import SoulCoreKit.Server.WebSocket

/-!
# The opening handshake

`server::WebSocketServer::onNewConnection` and `performUpgrade`, for one connection. The bytes that a
`readyRead` finds are the argument of its handler: the first one is read by the server, which takes it
for the request, the later ones by the session. The functions of `QString` that depend on Unicode and
the hash are arguments.
-/

namespace SoulCoreKit.Server

/-- The functions of Qt that the handshake uses. -/
structure UpgradeQt where
  fromUtf8 : Bytes → List Char
  toUtf8 : List Char → Bytes
  trimmed : List Char → List Char
  toCaseFolded : Char → Char
  sha1 : Bytes → Bytes

namespace UpgradeQt

variable (qt : UpgradeQt)

/-- `startsWith(…, Qt::CaseInsensitive)`. -/
def startsWith (text pattern : List Char) : Bool :=
  (text.take pattern.length).map qt.toCaseFolded = pattern.map qt.toCaseFolded

/-- `contains(…, Qt::CaseInsensitive)`. -/
def contains (text pattern : List Char) : Bool :=
  text.tails.any fun rest => qt.startsWith rest pattern

/-- `compare(…, Qt::CaseInsensitive) == 0`. -/
def sameText (first second : List Char) : Bool :=
  first.map qt.toCaseFolded = second.map qt.toCaseFolded

end UpgradeQt

/-- `split("\r\n")`. -/
def splitLines : List Char → List (List Char)
  | [] => [[]]
  | '\r' :: '\n' :: rest => [] :: splitLines rest
  | c :: rest =>
      match splitLines rest with
      | [] => [[c]]
      | line :: lines => (c :: line) :: lines

structure UpgradeHeaders where
  upgrade : List Char := []
  connection : List Char := []
  key : List Char := []
  version : List Char := []

section Upgrade

variable (qt : UpgradeQt)

/-- The body of the header loop, for one line. -/
def UpgradeHeaders.readLine (headers : UpgradeHeaders) (line : List Char) : UpgradeHeaders :=
  if qt.startsWith line "Upgrade:".toList then
    { headers with upgrade := qt.trimmed (line.drop 8) }
  else if qt.startsWith line "Connection:".toList then
    { headers with connection := qt.trimmed (line.drop 11) }
  else if qt.startsWith line "Sec-WebSocket-Key:".toList then
    { headers with key := qt.trimmed (line.drop 18) }
  else if qt.startsWith line "Sec-WebSocket-Version:".toList then
    { headers with version := qt.trimmed (line.drop 22) }
  else
    headers

def computeAcceptKey (clientKey : Bytes) : Bytes :=
  (Base64.encode (qt.sha1 (clientKey ++ ascii "258EAFA5-E914-47DA-95CA-C5AB0DC85B11"))).map
    fun c => UInt8.ofNat c.toNat

def badRequest : Bytes := ascii "HTTP/1.1 400 Bad Request\r\n\r\n"

def upgradeRequired : Bytes :=
  ascii "HTTP/1.1 426 Upgrade Required\r\nSec-WebSocket-Version: 13\r\n\r\n"

def switchingProtocols (acceptKey : Bytes) : Bytes :=
  ascii "HTTP/1.1 101 Switching Protocols\r\nUpgrade: websocket\r\nConnection: Upgrade\r\n" ++
    ascii "Sec-WebSocket-Accept: " ++ acceptKey ++ ascii "\r\n\r\n"

/-- Whether the connection is upgraded, and what was written to the socket. -/
def performUpgrade (request : Bytes) : Bool × Bytes :=
  let reqStr := qt.fromUtf8 request
  if ¬ reqStr.take 4 = "GET ".toList then
    (false, [])
  else
    let headers := (splitLines reqStr).foldl (UpgradeHeaders.readLine qt) {}
    if ¬ qt.sameText headers.upgrade "websocket".toList then
      (false, badRequest)
    else if ¬ qt.contains headers.connection "Upgrade".toList then
      (false, badRequest)
    else if headers.key.isEmpty then
      (false, badRequest)
    else if headers.version ≠ "13".toList then
      (false, upgradeRequired)
    else
      (true, switchingProtocols (computeAcceptKey qt (qt.toUtf8 headers.key)))

end Upgrade

/-- A connection of the server. `written` is what the handshake wrote; `received` are the bytes the
session was given, which nothing reads, and the session is absent when its loop does not end. -/
inductive Connection where
  | awaiting
  | refused (written : Bytes)
  | upgraded (written : Bytes) (session : Option WebSocketSession) (received : Bytes)

/-- The callbacks of the server; `onOpen` is what it calls on a new session. -/
structure ServerCallbacks extends Handlers where
  onOpen : List SessionCall := []

namespace Connection

variable (qt : UpgradeQt) (callbacks : ServerCallbacks) (fuel : Nat)

/-- The handlers of `readyRead`, with what `readAll` returns. -/
def readyRead (connection : Connection) (chunk : Bytes) : Connection :=
  match connection with
  | .awaiting =>
      match performUpgrade qt chunk with
      | (false, written) => .refused written
      | (true, written) =>
          let session : WebSocketSession := {}
          .upgraded written (some (session.calls callbacks.onOpen)) []
  | .refused written => .refused written
  | .upgraded written session received =>
      .upgraded written (session.bind fun session =>
        session.onReadyRead callbacks.toHandlers fuel chunk) (received ++ chunk)

/-- A connection on which these segments arrive. -/
def receive (segments : List Bytes) : Connection :=
  segments.foldl (readyRead qt callbacks fuel) .awaiting

end Connection

end SoulCoreKit.Server
