import SoulCoreKit.Lib.Run
import SoulCoreKit.Server.HttpRequest

/-!
# WebSocket sessions

`server::WebSocketSession` from the upgrade on: the frames it writes, and the loop that takes frames off
the front of its buffer. Byte masks and shifts are written as the arithmetic they do. The 64-bit sum and
the casts to `int` are those of the source. The socket is never null, and after `disconnectFromHost` it
is no longer connected.
-/

namespace SoulCoreKit.Server

/-! ### Frames -/

inductive WebSocketOpCode where
  | continuation
  | text
  | binary
  | close
  | ping
  | pong
  deriving DecidableEq, Repr

namespace WebSocketOpCode

def value : WebSocketOpCode → Nat
  | .continuation => 0x0
  | .text => 0x1
  | .binary => 0x2
  | .close => 0x8
  | .ping => 0x9
  | .pong => 0xA

def ofValue : Nat → Option WebSocketOpCode
  | 0x0 => some .continuation
  | 0x1 => some .text
  | 0x2 => some .binary
  | 0x8 => some .close
  | 0x9 => some .ping
  | 0xA => some .pong
  | _ => none

end WebSocketOpCode

/-- The `i`-th byte of a number, from the least significant one on. -/
def byteAt (n i : Nat) : UInt8 := UInt8.ofNat (n / 256 ^ i % 256)

/-- The second byte of a frame and the extended length. The mask bit is 0 in frames of the server. -/
def lengthBytes (maskBit size : Nat) : Bytes :=
  if size ≤ 125 then
    [UInt8.ofNat (maskBit + size)]
  else if size ≤ 65535 then
    [UInt8.ofNat (maskBit + 126), byteAt size 1, byteAt size 0]
  else
    UInt8.ofNat (maskBit + 127) ::
      [byteAt size 7, byteAt size 6, byteAt size 5, byteAt size 4, byteAt size 3, byteAt size 2,
        byteAt size 1, byteAt size 0]

/-- The frame that `sendFrame` writes. -/
def frameBytes (opCode : WebSocketOpCode) (payload : Bytes) : Bytes :=
  UInt8.ofNat (0x80 + opCode.value) :: lengthBytes 0 payload.length ++ payload

structure FrameHeader where
  opCode : Nat
  masked : Bool
  payloadLen : Nat
  maskOffset : Nat
  headerSize : Nat
  deriving DecidableEq, Repr

/-- `payloadLen = (payloadLen << 8) | data[2 + i]`, in 64 bits. -/
def bigEndian (bytes : Bytes) : Nat :=
  bytes.foldl (fun payloadLen byte => (payloadLen * 256 + byte.toNat) % 2 ^ 64) 0

/-- The header at the front of the buffer, with `headerSize` after the masking key was counted; nothing
while its length field is incomplete. -/
def parseHeader (buffer : Bytes) : Option FrameHeader :=
  match buffer with
  | first :: second :: rest =>
      let opCode := first.toNat % 16
      let masked := decide (second.toNat ≥ 128)
      let keySize := if masked then 4 else 0
      let payloadLen := second.toNat % 128
      if payloadLen = 126 then
        if buffer.length < 4 then none
        else some ⟨opCode, masked, bigEndian (rest.take 2), 4, 4 + keySize⟩
      else if payloadLen = 127 then
        if buffer.length < 10 then none
        else some ⟨opCode, masked, bigEndian (rest.take 8), 10, 10 + keySize⟩
      else
        some ⟨opCode, masked, payloadLen, 2, 2 + keySize⟩
  | _ => none

/-- `payload[i] ^ mask[i % 4]`. -/
def unmask (mask payload : Bytes) : Bytes :=
  payload.mapIdx fun i byte => byte ^^^ mask.getD (i % 4) 0

/-- The part of `parseFrame` before the switch: the opcode, the payload, and the buffer afterwards. -/
def takeFrame (buffer : Bytes) : Option (Nat × Bytes × Bytes) :=
  match parseHeader buffer with
  | none => none
  | some h =>
      if buffer.length < (h.headerSize + h.payloadLen) % 2 ^ 64 then
        none
      else
        let payload := mid buffer (toInt h.headerSize) (toInt h.payloadLen)
        let payload := if h.masked then unmask (buffer.drop h.maskOffset) payload else payload
        some (h.opCode, payload, remove buffer 0 (toInt ((h.headerSize + h.payloadLen) % 2 ^ 64)))

/-! ### Sessions -/

/-- A call that a handler makes on the session it is given. -/
inductive SessionCall where
  | send (data : Bytes) (isText : Bool)
  | close (code : Nat) (reason : Bytes)
  deriving DecidableEq, Repr

/-- A call of a handler. -/
inductive Callback where
  | message (payload : Bytes) (isText : Bool)
  | error (message : String)
  deriving DecidableEq, Repr

/-- What the handlers do; they are told how many callbacks came before. -/
structure Handlers where
  onMessage : Option (Nat → Bytes → Bool → List SessionCall) := none
  onError : Option (Nat → String → List SessionCall) := none

/-- `callbacks` and `written` are what a session has told its handlers and its peer. -/
structure WebSocketSession where
  mOpen : Bool := true
  mClosing : Bool := false
  connected : Bool := true
  mBuffer : Bytes := []
  callbacks : List Callback := []
  written : List Bytes := []
  deriving DecidableEq, Repr

namespace WebSocketSession

def sendFrame (s : WebSocketSession) (opCode : WebSocketOpCode) (payload : Bytes) :
    WebSocketSession :=
  if ¬ s.connected then s else { s with written := s.written ++ [frameBytes opCode payload] }

/-- The reason is given as UTF-8. -/
def sendCloseFrame (s : WebSocketSession) (code : Nat) (reason : Bytes) : WebSocketSession :=
  s.sendFrame .close ([byteAt code 1, byteAt code 0] ++ reason)

def send (s : WebSocketSession) (data : Bytes) (isText : Bool) : WebSocketSession :=
  if ¬ s.mOpen ∨ s.mClosing then s else s.sendFrame (if isText then .text else .binary) data

def close (s : WebSocketSession) (code : Nat) (reason : Bytes) : WebSocketSession :=
  if ¬ s.mOpen then
    s
  else if s.mClosing then
    s
  else
    let s := { s with mClosing := true }.sendCloseFrame code reason
    { s with mOpen := false, connected := false }

def call (s : WebSocketSession) : SessionCall → WebSocketSession
  | .send data isText => s.send data isText
  | .close code reason => s.close code reason

def calls (s : WebSocketSession) (list : List SessionCall) : WebSocketSession := list.foldl call s

/-- `m_onMessage(this, payload, isText)`. -/
def notifyMessage (h : Handlers) (s : WebSocketSession) (payload : Bytes) (isText : Bool) :
    WebSocketSession :=
  match h.onMessage with
  | none => s
  | some handler =>
      let told : WebSocketSession := { s with callbacks := s.callbacks ++ [.message payload isText] }
      told.calls (handler s.callbacks.length payload isText)

def notifyError (h : Handlers) (s : WebSocketSession) (message : String) : WebSocketSession :=
  match h.onError with
  | none => s
  | some handler =>
      let told : WebSocketSession := { s with callbacks := s.callbacks ++ [.error message] }
      told.calls (handler s.callbacks.length message)

/-- The switch of `parseFrame`. -/
def dispatch (h : Handlers) (s : WebSocketSession) (opCode : Nat) (payload : Bytes) :
    WebSocketSession :=
  match WebSocketOpCode.ofValue opCode with
  | some .text => s.notifyMessage h payload true
  | some .binary => s.notifyMessage h payload false
  | some .close =>
      let wasClosing := s.mClosing
      let s := { s with mOpen := false, mClosing := true }
      let s :=
        if wasClosing then s
        else
          match payload with
          | first :: second :: _ => s.sendCloseFrame (first.toNat * 256 + second.toNat) []
          | _ => s.sendCloseFrame 1000 []
      { s with connected := false }
  | some .ping => s.sendFrame .pong payload
  | some .pong => s
  | some .continuation => s
  | none => s.notifyError h ("Unknown WebSocket opcode: " ++ toString opCode)

def parseFrame (h : Handlers) (s : WebSocketSession) : Bool × WebSocketSession :=
  match takeFrame s.mBuffer with
  | none => (false, s)
  | some (opCode, payload, buffer) => (true, { s with mBuffer := buffer }.dispatch h opCode payload)

/-- `while (m_open && parseFrame())`: the session when the loop ends, if it ends within the fuel. -/
def receiveLoop (h : Handlers) : Nat → WebSocketSession → Option WebSocketSession
  | 0, _ => none
  | fuel + 1, s =>
      if s.mOpen then
        match s.parseFrame h with
        | (true, s) => receiveLoop h fuel s
        | (false, s) => some s
      else
        some s

/-- `chunk` is what the socket's `readAll` returns. -/
def onReadyRead (h : Handlers) (fuel : Nat) (s : WebSocketSession) (chunk : Bytes) :
    Option WebSocketSession :=
  receiveLoop h fuel { s with mBuffer := s.mBuffer ++ chunk }

/-- One `onReadyRead` for each chunk. -/
def receive (h : Handlers) (fuel : Nat) (s : WebSocketSession) : List Bytes → Option WebSocketSession
  | [] => some s
  | chunk :: rest =>
      match s.onReadyRead h fuel chunk with
      | none => none
      | some s => receive h fuel s rest

end WebSocketSession

end SoulCoreKit.Server

/-!
### Sessions with a record

What a session does in the order it does it: the frames it takes from its peer, the frames it writes and the
handlers it calls. The record is beside the session and nothing reads it, so a session with a record does what
the session does. The receive loop may run for ever, so a run looks at it after any number of passes.
-/

namespace SoulCoreKit.Server

inductive Act where
  | wrote (frame : Bytes)
  | received (opCode : Nat)
  | told (callback : Callback)
  deriving DecidableEq, Repr

structure RecordedSession where
  session : WebSocketSession := {}
  trace : List Act := []

namespace RecordedSession

/-- The session goes on to `s`; the frames it has written on the way are recorded. -/
def goOn (t : RecordedSession) (s : WebSocketSession) : RecordedSession where
  session := s
  trace := t.trace ++ (s.written.drop t.session.written.length).map .wrote

def call (t : RecordedSession) (c : SessionCall) : RecordedSession := t.goOn (t.session.call c)

def calls (t : RecordedSession) (list : List SessionCall) : RecordedSession := list.foldl call t

/-- A handler is called, and makes its calls. -/
def notify (t : RecordedSession) (callback : Callback) (list : List SessionCall) : RecordedSession :=
  calls { session := { t.session with callbacks := t.session.callbacks ++ [callback] }
          trace := t.trace ++ [.told callback] } list

def notifyMessage (h : Handlers) (t : RecordedSession) (payload : Bytes) (isText : Bool) :
    RecordedSession :=
  match h.onMessage with
  | none => t
  | some handler =>
      t.notify (.message payload isText) (handler t.session.callbacks.length payload isText)

def notifyError (h : Handlers) (t : RecordedSession) (message : String) : RecordedSession :=
  match h.onError with
  | none => t
  | some handler => t.notify (.error message) (handler t.session.callbacks.length message)

def dispatch (h : Handlers) (t : RecordedSession) (opCode : Nat) (payload : Bytes) : RecordedSession :=
  match WebSocketOpCode.ofValue opCode with
  | some .text => t.notifyMessage h payload true
  | some .binary => t.notifyMessage h payload false
  | none => t.notifyError h ("Unknown WebSocket opcode: " ++ toString opCode)
  | some _ => t.goOn (t.session.dispatch h opCode payload)

def parseFrame (h : Handlers) (t : RecordedSession) : Bool × RecordedSession :=
  match takeFrame t.session.mBuffer with
  | none => (false, t)
  | some (opCode, payload, buffer) =>
      (true, dispatch h
        { session := { t.session with mBuffer := buffer }, trace := t.trace ++ [.received opCode] }
        opCode payload)

/-- At most so many passes of `while (m_open && parseFrame())`. -/
def receiveLoop (h : Handlers) : Nat → RecordedSession → RecordedSession
  | 0, t => t
  | passes + 1, t =>
      if t.session.mOpen then
        match t.parseFrame h with
        | (true, t) => receiveLoop h passes t
        | (false, t) => t
      else
        t

/-- What happens to a session from outside. A socket may be lost before its signal arrives; the handler of
the signal is called when the session is no longer open. -/
inductive SessionEvent where
  | call (c : SessionCall)
  | readyRead (chunk : Bytes) (passes : Nat)
  | lost
  | disconnected (onClose : List SessionCall)

def step (h : Handlers) (t : RecordedSession) : SessionEvent → RecordedSession
  | .call c => t.call c
  | .readyRead chunk passes =>
      receiveLoop h passes { t with session := { t.session with mBuffer := t.session.mBuffer ++ chunk } }
  | .lost => { t with session := { t.session with connected := false } }
  | .disconnected onClose =>
      calls { t with session := { t.session with mOpen := false, connected := false } } onClose

end RecordedSession

end SoulCoreKit.Server
