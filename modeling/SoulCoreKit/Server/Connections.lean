import SoulCoreKit.Lib.Run
import SoulCoreKit.Server.HttpServer

/-!
# The connections of the HTTP server

`HttpServer` from `onNewConnection` to `onDisconnected`: connections come, are refused at the limit or while
the server shuts down, bring bytes in any order, time out and go.

All slots run on the thread of the server, one after the other; a handler that runs an event loop of its own
is left out. `disconnectFromHost` switches the notifications of arriving bytes off.
-/

namespace SoulCoreKit.Server

/-- Where a socket stands. A `closing` one writes what it still has to, and reads no more. -/
inductive SocketState where
  | connected
  | closing
  | unconnected
  deriving DecidableEq

/-- A connection, with the bytes that arrived on it and what was written to it. -/
structure ServerConnection where
  accepted : Bool
  state : SocketState
  received : Bytes := []
  written : List HttpResponse := []

/-- A connection that was accepted and not disconnected yet. -/
def ServerConnection.isOpen (connection : ServerConnection) : Bool :=
  connection.accepted && connection.state ≠ .unconnected

/-- A server with its connections, which are named by the order in which they came. It has ended when an
exception left a slot. -/
structure ServerRun where
  server : HttpServer Nat
  mShuttingDown : Bool := false
  mMaxConnections : Int := 0
  mCurrentConnections : Int := 0
  connections : List ServerConnection := []
  ended : Bool := false

inductive ServerStep where
  | newConnection
  | readyRead (id : Nat) (chunk : Bytes) (duration : Int)
  | disconnected (id : Nat)
  | timeout (id : Nat)
  | setMaxConnections (max : Int)
  | close
  | shutdown

namespace ServerRun

/-- `socket->close()`. -/
def closed (connection : ServerConnection) : ServerConnection :=
  if connection.state = .connected then { connection with state := .closing } else connection

def shuttingDownResponse : HttpResponse :=
  { mStatus := 503, mBody := ascii "Service Unavailable - Server is shutting down",
    mHeaders := (∅ : UnorderedMap String String).insert "Connection" "close" |>.insert "Retry-After" "5" }

def limitResponse : HttpResponse :=
  { mStatus := 503, mBody := ascii "Service Unavailable - Connection limit reached",
    mHeaders := (∅ : UnorderedMap String String).insert "Retry-After" "5" }

def atLimit (s : ServerRun) : Prop := 0 < s.mMaxConnections ∧ s.mMaxConnections ≤ s.mCurrentConnections

instance (s : ServerRun) : Decidable s.atLimit := inferInstanceAs (Decidable (_ ∧ _))

/-- A refused connection is answered and closed; it is not counted. -/
def refuse (s : ServerRun) (response : HttpResponse) : ServerRun :=
  { s with connections :=
      s.connections ++ [{ accepted := false, state := .closing, written := [response] }] }

def onNewConnection (s : ServerRun) : ServerRun :=
  if s.mShuttingDown then s.refuse shuttingDownResponse
  else if s.atLimit then s.refuse limitResponse
  else
    { s with
      mCurrentConnections := s.mCurrentConnections + 1
      connections := s.connections ++ [{ accepted := true, state := .connected }] }

def closeAll (s : ServerRun) : ServerRun :=
  { s with
    connections := s.connections.map closed
    server := { s.server with mBuffers := ∅ } }

variable (qt : Qt) (peerAddress : Nat → String)

def readyRead (s : ServerRun) (id : Nat) (connection : ServerConnection) (chunk : Bytes) (duration : Int) :
    ServerRun :=
  let called := s.server.onReadyRead qt peerAddress false duration id chunk
  let written := responses called.1.2
  { s with
    server := called.2
    ended := called.1.1.isSome
    connections := s.connections.set id
      { connection with
        received := connection.received ++ chunk
        written := connection.written ++ written
        state := if written.isEmpty then .connected else .closing } }

/-- Only an accepted connection that is still connected has bytes to read. -/
def step (s : ServerRun) (label : ServerStep) : ServerRun :=
  if s.ended then s
  else
    match label with
    | .newConnection => s.onNewConnection
    | .setMaxConnections max => { s with mMaxConnections := max }
    | .close => s.closeAll
    | .shutdown => { s.closeAll with mShuttingDown := true }
    | .readyRead id chunk duration =>
        match s.connections[id]? with
        | some connection =>
            if connection.accepted = true ∧ connection.state = .connected then
              s.readyRead qt peerAddress id connection chunk duration
            else s
        | none => s
    | .timeout id =>
        match s.connections[id]? with
        | some connection =>
            if connection.accepted = true then
              { s with connections := s.connections.set id (closed connection) }
            else s
        | none => s
    | .disconnected id =>
        match s.connections[id]? with
        | some connection =>
            if connection.state = .unconnected then s
            else
              let connections := s.connections.set id { connection with state := .unconnected }
              if connection.accepted = true then
                { s with
                  server := s.server.onDisconnected id
                  mCurrentConnections := s.mCurrentConnections - 1
                  connections := connections }
              else { s with connections := connections }
        | none => s

/-- A server that listens, with all that happens to it. -/
def after (server : HttpServer Nat) (max : Int) (labels : List ServerStep) : ServerRun :=
  run (step qt peerAddress) { server := server, mMaxConnections := max } labels

end ServerRun

end SoulCoreKit.Server
