import SoulCoreKit.Lib.Framing
import SoulCoreKit.Proof.ReceiveLoop

/-!
# Frames survive any segmentation

A peer's frame is one of `sendFrame`, or the same with the mask bit, a key and the payload under it.
The header of such a frame is read back from any buffer it starts, and a proper prefix of the frame is
never taken for a frame: either its length field is incomplete, or it is shorter than what the length
announces. The rest is the library's argument on streams, carried over to the session.
-/

namespace SoulCoreKit.Server

/-! ### The frames of a peer -/

structure MaskKey where
  first : UInt8
  second : UInt8
  third : UInt8
  fourth : UInt8
  deriving DecidableEq, Repr

def MaskKey.bytes (key : MaskKey) : Bytes := [key.first, key.second, key.third, key.fourth]

/-- A text or binary message, with the key it is masked with. -/
structure PeerFrame where
  isText : Bool
  payload : Bytes
  key : Option MaskKey := none
  deriving DecidableEq, Repr

namespace PeerFrame

def opCode (frame : PeerFrame) : WebSocketOpCode := if frame.isText then .text else .binary

def maskBit (frame : PeerFrame) : Nat := if frame.key.isSome then 128 else 0

def keyBytes (frame : PeerFrame) : Bytes := (frame.key.map MaskKey.bytes).getD []

def maskedPayload (frame : PeerFrame) : Bytes :=
  match frame.key with
  | none => frame.payload
  | some key => unmask key.bytes frame.payload

def encode (frame : PeerFrame) : Bytes :=
  UInt8.ofNat (0x80 + frame.opCode.value) :: lengthBytes frame.maskBit frame.payload.length ++
    frame.keyBytes ++ frame.maskedPayload

/-- The size of the header without the key. -/
def keyOffset (frame : PeerFrame) : Nat :=
  1 + (lengthBytes frame.maskBit frame.payload.length).length

def header (frame : PeerFrame) : FrameHeader where
  opCode := frame.opCode.value
  masked := frame.key.isSome
  payloadLen := frame.payload.length
  maskOffset := frame.keyOffset
  headerSize := frame.keyOffset + frame.keyBytes.length

theorem encode_of_unmasked (isText : Bool) (payload : Bytes) :
    encode { isText, payload } = frameBytes (if isText then .text else .binary) payload := by
  simp [encode, frameBytes, opCode, maskBit, keyBytes, maskedPayload]

end PeerFrame

/-! ### Numbers -/

theorem toNat_byteAt (n i : Nat) : (byteAt n i).toNat = n / 256 ^ i % 256 := by
  unfold byteAt
  rw [UInt8.toNat_ofNat_of_lt']
  exact Nat.mod_lt _ (by decide)

/-- The lower `k` bytes of a number, read behind what was read before. -/
theorem foldl_byteAt (n : Nat) {acc : Nat} (hacc : acc < 2 ^ 64) (k : Nat) :
    ((List.range k).reverse.map (byteAt n)).foldl
      (fun payloadLen byte => (payloadLen * 256 + byte.toNat) % 2 ^ 64) acc =
        (acc * 256 ^ k + n % 256 ^ k) % 2 ^ 64 := by
  induction k generalizing acc with
  | zero =>
      rw [Nat.pow_zero, Nat.mod_one, Nat.mul_one, Nat.add_zero, Nat.mod_eq_of_lt hacc]
      rfl
  | succ k ih =>
      rw [List.range_succ, List.reverse_append, List.map_append, List.foldl_append]
      simp only [List.reverse_singleton, List.map_singleton, List.foldl_cons, List.foldl_nil]
      rw [ih (Nat.mod_lt _ (by decide)), toNat_byteAt]
      calc
        ((acc * 256 + n / 256 ^ k % 256) % 2 ^ 64 * 256 ^ k + n % 256 ^ k) % 2 ^ 64
            = ((acc * 256 + n / 256 ^ k % 256) * 256 ^ k + n % 256 ^ k) % 2 ^ 64 := by
              rw [← Nat.mod_add_mod, Nat.mod_mul_mod, Nat.mod_add_mod]
        _ = (acc * 256 ^ (k + 1) + n % 256 ^ (k + 1)) % 2 ^ 64 := by
              have hpow : 256 ^ (k + 1) = 256 ^ k * 256 := Nat.pow_succ 256 k
              have hmod : n % 256 ^ (k + 1) = n % 256 ^ k + 256 ^ k * (n / 256 ^ k % 256) :=
                Nat.mod_pow_succ
              rw [hmod, hpow, Nat.add_mul, Nat.mul_assoc, Nat.mul_comm 256 (256 ^ k),
                Nat.mul_comm (n / 256 ^ k % 256) (256 ^ k), Nat.add_assoc,
                Nat.add_comm (256 ^ k * (n / 256 ^ k % 256))]

theorem bigEndian_two {n : Nat} (hlt : n < 2 ^ 16) : bigEndian [byteAt n 1, byteAt n 0] = n := by
  have hbytes : [byteAt n 1, byteAt n 0] = (List.range 2).reverse.map (byteAt n) := rfl
  rw [bigEndian, hbytes, foldl_byteAt n (by decide)]
  omega

theorem bigEndian_eight {n : Nat} (hlt : n < 2 ^ 64) :
    bigEndian [byteAt n 7, byteAt n 6, byteAt n 5, byteAt n 4, byteAt n 3, byteAt n 2, byteAt n 1,
      byteAt n 0] = n := by
  have hbytes : [byteAt n 7, byteAt n 6, byteAt n 5, byteAt n 4, byteAt n 3, byteAt n 2, byteAt n 1,
      byteAt n 0] = (List.range 8).reverse.map (byteAt n) := rfl
  rw [bigEndian, hbytes, foldl_byteAt n (by decide)]
  omega

/-! ### Masking -/

theorem unmask_unmask (mask payload : Bytes) : unmask mask (unmask mask payload) = payload := by
  unfold unmask
  apply List.ext_getElem
  · simp
  · intro i hleft hright
    rw [List.getElem_mapIdx, List.getElem_mapIdx, UInt8.xor_assoc, UInt8.xor_self, UInt8.xor_zero]

/-- Only the first four bytes of the buffer at the key matter. -/
theorem unmask_append (key : MaskKey) (more payload : Bytes) :
    unmask (key.bytes ++ more) payload = unmask key.bytes payload := by
  unfold unmask
  congr 1
  funext i byte
  have hlt : i % 4 < key.bytes.length := Nat.mod_lt i (by decide)
  rw [List.getD_eq_getElem?_getD, List.getElem?_append_left hlt, ← List.getD_eq_getElem?_getD]

/-! ### Headers -/

theorem parseHeader_append {front : Bytes} {h : FrameHeader} (hheader : parseHeader front = some h)
    (more : Bytes) : parseHeader (front ++ more) = some h := by
  cases front with
  | nil => simp [parseHeader] at hheader
  | cons first front =>
  cases front with
  | nil => simp [parseHeader] at hheader
  | cons second rest =>
      simp only [parseHeader, List.cons_append] at hheader ⊢
      split at hheader
      · rename_i hword
        rw [if_pos hword]
        split at hheader
        · contradiction
        · rename_i hlong
          simp only [List.length_cons] at hlong
          rw [if_neg (by simp only [List.length_cons, List.length_append]; omega),
            List.take_append_of_le_length (by omega)]
          exact hheader
      · rename_i hword
        rw [if_neg hword]
        split at hheader
        · rename_i hquad
          rw [if_pos hquad]
          split at hheader
          · contradiction
          · rename_i hlong
            simp only [List.length_cons] at hlong
            rw [if_neg (by simp only [List.length_cons, List.length_append]; omega),
              List.take_append_of_le_length (by omega)]
            exact hheader
        · rename_i hquad
          rw [if_neg hquad]
          exact hheader

namespace PeerFrame

variable (frame : PeerFrame)

theorem opCode_value_lt : frame.opCode.value < 16 := by
  unfold opCode
  split <;> decide

theorem length_keyBytes : frame.keyBytes.length = if frame.key.isSome then 4 else 0 := by
  unfold keyBytes
  cases frame.key <;> rfl

theorem length_maskedPayload : frame.maskedPayload.length = frame.payload.length := by
  unfold maskedPayload
  split
  · rfl
  · exact length_unmask _ _

theorem length_encode :
    frame.encode.length = frame.header.headerSize + frame.header.payloadLen := by
  simp only [encode, header, keyOffset, List.length_append, List.length_cons, length_maskedPayload]
  omega

/-- The mask bit and the length code share the second byte. -/
theorem second_byte {code : Nat} (hcode : code < 128) :
    (UInt8.ofNat (frame.maskBit + code)).toNat % 128 = code ∧
      (decide ((UInt8.ofNat (frame.maskBit + code)).toNat ≥ 128) = frame.key.isSome) := by
  unfold maskBit
  cases hkey : frame.key.isSome with
  | false =>
      rw [if_neg (by simp), UInt8.toNat_ofNat_of_lt' (by simp only [UInt8.size]; omega)]
      exact ⟨by omega, by simp; omega⟩
  | true =>
      rw [if_pos rfl, UInt8.toNat_ofNat_of_lt' (by simp only [UInt8.size]; omega)]
      exact ⟨by omega, by simp⟩

theorem parseHeader_lengthBytes (hlt : frame.payload.length < 2 ^ 64) :
    parseHeader (UInt8.ofNat (0x80 + frame.opCode.value) ::
      lengthBytes frame.maskBit frame.payload.length) = some frame.header := by
  have hopCode : (UInt8.ofNat (0x80 + frame.opCode.value)).toNat % 16 = frame.opCode.value := by
    have hlt := frame.opCode_value_lt
    rw [UInt8.toNat_ofNat_of_lt' (by simp only [UInt8.size]; omega)]
    omega
  unfold lengthBytes header keyOffset
  rw [length_keyBytes]
  unfold lengthBytes
  split
  · rename_i hsmall
    obtain ⟨hcode, hmask⟩ := frame.second_byte (show frame.payload.length < 128 by omega)
    simp only [parseHeader, hcode, hmask, hopCode]
    rw [if_neg (by omega), if_neg (by omega)]
    rfl
  · split
    · rename_i hlarge hword
      obtain ⟨hcode, hmask⟩ := frame.second_byte (show 126 < 128 by decide)
      simp only [parseHeader, hcode, hmask, hopCode]
      rw [if_pos trivial, if_neg (by simp), List.take_of_length_le (by simp),
        bigEndian_two (by omega)]
      rfl
    · obtain ⟨hcode, hmask⟩ := frame.second_byte (show 127 < 128 by decide)
      simp only [parseHeader, hcode, hmask, hopCode]
      rw [if_neg (by decide), if_pos trivial, if_neg (by simp), List.take_of_length_le (by simp),
        bigEndian_eight hlt]
      rfl

theorem parseHeader_encode_append (hlt : frame.payload.length < 2 ^ 64) (rest : Bytes) :
    parseHeader (frame.encode ++ rest) = some frame.header := by
  have hheader := parseHeader_append (frame.parseHeader_lengthBytes hlt)
    (frame.keyBytes ++ (frame.maskedPayload ++ rest))
  simpa [encode] using hheader

/-! ### Frames -/

/-- Header and payload together fit an `int`. -/
def Fits : Prop := frame.encode.length < 2 ^ 31

/-- The buffer behind the header's length field, and behind the header. -/
theorem drop_maskOffset (rest : Bytes) :
    (frame.encode ++ rest).drop frame.header.maskOffset =
      frame.keyBytes ++ (frame.maskedPayload ++ rest) := by
  have hsplit : frame.encode ++ rest =
      (UInt8.ofNat (0x80 + frame.opCode.value) ::
        lengthBytes frame.maskBit frame.payload.length) ++
        (frame.keyBytes ++ (frame.maskedPayload ++ rest)) := by
    simp [encode]
  rw [hsplit]
  apply List.drop_left'
  simp only [header, keyOffset, List.length_cons]
  omega

theorem drop_headerSize (rest : Bytes) :
    (frame.encode ++ rest).drop frame.header.headerSize = frame.maskedPayload ++ rest := by
  have hkey := frame.drop_maskOffset rest
  have hsize : frame.header.headerSize = frame.header.maskOffset + frame.keyBytes.length := rfl
  rw [hsize, ← List.drop_drop, hkey, List.drop_left]

theorem mid_encode_append (hfits : frame.Fits) (rest : Bytes) :
    mid (frame.encode ++ rest) (toInt frame.header.headerSize) (toInt frame.header.payloadLen) =
      frame.maskedPayload := by
  have hlength := frame.length_encode
  unfold Fits at hfits
  rw [toInt_of_lt (by omega), toInt_of_lt (by omega), mid, if_neg (by omega), if_neg (by omega),
    Int.toNat_natCast, Int.toNat_natCast, drop_headerSize]
  apply List.take_left'
  exact frame.length_maskedPayload

theorem unmask_maskedPayload (rest : Bytes) :
    (if frame.header.masked then
      unmask ((frame.encode ++ rest).drop frame.header.maskOffset) frame.maskedPayload
    else frame.maskedPayload) = frame.payload := by
  rw [drop_maskOffset]
  unfold header keyBytes maskedPayload
  cases frame.key with
  | none => rfl
  | some key =>
      simp only [Option.isSome_some, if_true, Option.map_some, Option.getD_some]
      rw [unmask_append, unmask_unmask]

theorem payload_lt_of_fits (hfits : frame.Fits) : frame.payload.length < 2 ^ 64 := by
  have hlength := frame.length_encode
  have hpayload : frame.header.payloadLen = frame.payload.length := rfl
  unfold Fits at hfits
  omega

theorem takeFrame_encode_append (hfits : frame.Fits) (rest : Bytes) :
    takeFrame (frame.encode ++ rest) = some (frame.opCode.value, frame.payload, rest) := by
  have hheader := frame.parseHeader_encode_append (frame.payload_lt_of_fits hfits) rest
  have hlength := frame.length_encode
  have hmid := frame.mid_encode_append hfits rest
  have hunmask := frame.unmask_maskedPayload rest
  unfold Fits at hfits
  have hsum : (frame.header.headerSize + frame.header.payloadLen) % 2 ^ 64 = frame.encode.length := by
    omega
  simp only [takeFrame, hheader]
  rw [hsum, if_neg (by simp), hmid, hunmask, toInt_of_lt hfits, remove_zero (by simp),
    List.drop_left]
  rfl

/-- What `sendFrame` writes for a message is read back. -/
theorem takeFrame_frameBytes {isText : Bool} {payload : Bytes} (hfits : Fits { isText, payload })
    (rest : Bytes) :
    takeFrame (frameBytes (if isText then .text else .binary) payload ++ rest) =
      some ((if isText then WebSocketOpCode.text else .binary).value, payload, rest) := by
  rw [← encode_of_unmasked]
  exact takeFrame_encode_append _ hfits rest

theorem takeFrame_of_front (hfits : frame.Fits) {front : Bytes} (hfront : front <+: frame.encode)
    (hne : front ≠ frame.encode) : takeFrame front = none := by
  obtain ⟨more, hmore⟩ := hfront
  unfold takeFrame
  cases hheader : parseHeader front with
  | none => rfl
  | some h =>
      have hwhole := frame.parseHeader_encode_append (frame.payload_lt_of_fits hfits) []
      rw [List.append_nil, ← hmore, parseHeader_append hheader more, Option.some_inj] at hwhole
      have hlength := frame.length_encode
      have hsplit := congrArg List.length hmore
      rw [List.length_append] at hsplit
      have hpos : 0 < more.length := by
        apply List.length_pos_of_ne_nil
        rintro rfl
        exact hne (by rw [← hmore, List.append_nil])
      unfold Fits at hfits
      rw [← hwhole] at hlength
      simp only
      rw [if_pos (by omega)]

/-- What the session takes off its buffer, as the library wants it. -/
def next (buffer : Bytes) : Option ((Nat × Bytes) × Bytes) :=
  (takeFrame buffer).map fun taken => ((taken.1, taken.2.1), taken.2.2)

omit frame in
theorem decodes : Framing.Decodes encode (fun frame => (frame.opCode.value, frame.payload)) next
    Fits where
  nil := rfl
  whole frame rest hfits := by
    simp only [next, frame.takeFrame_encode_append hfits rest, Option.map_some]
  short frame front hfits hfront hne := by
    simp only [next, frame.takeFrame_of_front hfits hfront hne, Option.map_none]

end PeerFrame

/-! ### The session -/

def SessionCall.isClose : SessionCall → Bool
  | .send _ _ => false
  | .close _ _ => true

/-- There is a message handler, and it does not close the session. -/
def Handlers.KeepsOpen (h : Handlers) : Prop :=
  ∃ handler, h.onMessage = some handler ∧
    ∀ n payload isText, ∀ made ∈ handler n payload isText, made.isClose = false

/-- The callback for a message with the opcode of a text or binary frame. -/
def callbackOf (message : Nat × Bytes) : Callback := .message message.2 (decide (message.1 = 1))

def IsData (message : Nat × Bytes) : Prop := message.1 = 1 ∨ message.1 = 2

namespace WebSocketSession

variable {h : Handlers} {s : WebSocketSession}

theorem calls_of_not_close {made : List SessionCall} (hmade : ∀ c ∈ made, c.isClose = false)
    (s : WebSocketSession) :
    (s.calls made).mOpen = s.mOpen ∧ (s.calls made).callbacks = s.callbacks := by
  induction made generalizing s with
  | nil => exact ⟨rfl, rfl⟩
  | cons first rest ih =>
      have hfirst : (s.call first).mOpen = s.mOpen ∧ (s.call first).callbacks = s.callbacks := by
        cases first with
        | send data isText =>
            simp only [call, send, sendFrame]
            split
            · exact ⟨rfl, rfl⟩
            · split <;> exact ⟨rfl, rfl⟩
        | close code reason => exact absurd (hmade _ List.mem_cons_self) (by simp [SessionCall.isClose])
      have hrest := ih (fun c hc => hmade c (List.mem_cons_of_mem first hc)) (s.call first)
      exact ⟨hrest.1.trans hfirst.1, hrest.2.trans hfirst.2⟩

theorem dispatch_data (hkeeps : h.KeepsOpen) (s : WebSocketSession) {message : Nat × Bytes}
    (hdata : IsData message) :
    (s.dispatch h message.1 message.2).mOpen = s.mOpen ∧
      (s.dispatch h message.1 message.2).callbacks = s.callbacks ++ [callbackOf message] := by
  obtain ⟨handler, hhandler, hopen⟩ := hkeeps
  obtain ⟨opCode, payload⟩ := message
  unfold callbackOf
  obtain hcode | hcode := hdata
  · simp only at hcode
    subst hcode
    simp only [dispatch, WebSocketOpCode.ofValue, notifyMessage, hhandler]
    exact calls_of_not_close (hopen _ _ _) _
  · simp only at hcode
    subst hcode
    simp only [dispatch, WebSocketOpCode.ofValue, notifyMessage, hhandler]
    exact calls_of_not_close (hopen _ _ _) _

/-- The session after it took some messages: open, with these callbacks made. -/
structure After (s : WebSocketSession) (messages : List (Nat × Bytes)) (left : Bytes)
    (s' : WebSocketSession) : Prop where
  mOpen : s'.mOpen = true
  mBuffer : s'.mBuffer = left
  callbacks : s'.callbacks = s.callbacks ++ messages.map callbackOf

theorem receiveLoop_drain (hkeeps : h.KeepsOpen) {fuel : Nat} {messages : List (Nat × Bytes)}
    {left : Bytes} (hopen : s.mOpen = true)
    (hdrain : Framing.drain PeerFrame.next fuel s.mBuffer = some (messages, left))
    (hdata : ∀ message ∈ messages, IsData message) :
    ∃ s', receiveLoop h fuel s = some s' ∧ After s messages left s' := by
  induction fuel generalizing s messages with
  | zero => simp [Framing.drain] at hdrain
  | succ fuel ih =>
      rw [receiveLoop, if_pos hopen, parseFrame]
      cases htake : takeFrame s.mBuffer with
      | none =>
          simp only [Framing.drain, PeerFrame.next, htake, Option.map_none, Option.some_inj,
            Prod.mk.injEq] at hdrain
          obtain ⟨rfl, rfl⟩ := hdrain
          exact ⟨s, rfl, hopen, rfl, by simp⟩
      | some taken =>
          obtain ⟨opCode, payload, rest⟩ := taken
          simp only [Framing.drain, PeerFrame.next, htake, Option.map_some] at hdrain
          obtain ⟨⟨done, last⟩, hrest, hmessages⟩ := Option.map_eq_some_iff.mp hdrain
          obtain ⟨rfl, rfl⟩ := Prod.mk.inj hmessages
          have hfirst := dispatch_data hkeeps { s with mBuffer := rest }
            (hdata (opCode, payload) List.mem_cons_self)
          have hbuffer := mBuffer_dispatch h { s with mBuffer := rest } opCode payload
          obtain ⟨s', hloop, hafter⟩ := ih (hfirst.1.trans hopen) (by rw [hbuffer]; exact hrest)
            (fun message hmessage => hdata message (List.mem_cons_of_mem _ hmessage))
          refine ⟨s', hloop, hafter.mOpen, hafter.mBuffer, ?_⟩
          rw [hafter.callbacks, hfirst.2, List.map_cons, List.append_assoc]
          rfl

theorem receive_feed (hkeeps : h.KeepsOpen) {fuel : Nat} {chunks : List Bytes}
    {messages : List (Nat × Bytes)} {left : Bytes} (hopen : s.mOpen = true)
    (hfeed : Framing.feed PeerFrame.next fuel s.mBuffer chunks = some (messages, left))
    (hdata : ∀ message ∈ messages, IsData message) :
    ∃ s', receive h fuel s chunks = some s' ∧ After s messages left s' := by
  induction chunks generalizing s messages with
  | nil =>
      simp only [Framing.feed, Option.some_inj, Prod.mk.injEq] at hfeed
      obtain ⟨rfl, rfl⟩ := hfeed
      exact ⟨s, rfl, hopen, rfl, by simp⟩
  | cons chunk chunks ih =>
      cases hdrain : Framing.drain PeerFrame.next fuel (s.mBuffer ++ chunk) with
      | none => simp [Framing.feed, hdrain] at hfeed
      | some first =>
          obtain ⟨done, last⟩ := first
          simp only [Framing.feed, hdrain] at hfeed
          obtain ⟨⟨later, final⟩, hlater, hmessages⟩ := Option.map_eq_some_iff.mp hfeed
          obtain ⟨rfl, rfl⟩ := Prod.mk.inj hmessages
          obtain ⟨middle, hloop, hmiddle⟩ :=
            receiveLoop_drain (s := { s with mBuffer := s.mBuffer ++ chunk }) hkeeps hopen hdrain
              (fun message hmessage => hdata message (List.mem_append_left _ hmessage))
          obtain ⟨s', hreceive, hafter⟩ := ih hmiddle.mOpen (by rw [hmiddle.mBuffer]; exact hlater)
            (fun message hmessage => hdata message (List.mem_append_right _ hmessage))
          refine ⟨s', ?_, hafter.mOpen, hafter.mBuffer, ?_⟩
          · rw [receive, onReadyRead, hloop]
            exact hreceive
          · rw [hafter.callbacks, hmiddle.callbacks, List.map_append, List.append_assoc]

end WebSocketSession

theorem PeerFrame.isData (frame : PeerFrame) : IsData (frame.opCode.value, frame.payload) := by
  unfold PeerFrame.opCode
  cases frame.isText with
  | false => exact Or.inr rfl
  | true => exact Or.inl rfl

theorem PeerFrame.callbackOf_eq (frame : PeerFrame) :
    callbackOf (frame.opCode.value, frame.payload) = .message frame.payload frame.isText := by
  unfold PeerFrame.opCode
  cases frame.isText <;> rfl

/-- However the frames of a peer are cut, the handler gets their payloads in order, and the buffer is
empty in the end. -/
theorem frames_survive_segmentation (h : Handlers) (s : WebSocketSession) (hkeeps : h.KeepsOpen)
    (hopen : s.mOpen = true) (hempty : s.mBuffer = []) (frames : List PeerFrame)
    (hfits : ∀ frame ∈ frames, frame.encode.length < 2 ^ 31) (chunks : List Bytes)
    (hchunks : chunks.flatten = (frames.map PeerFrame.encode).flatten) (fuel : Nat)
    (hfuel : frames.length < fuel) :
    ∃ s', s.receive h fuel chunks = some s' ∧
      s'.callbacks = s.callbacks ++
        frames.map (fun frame => Callback.message frame.payload frame.isText) ∧
      s'.mBuffer = [] ∧ s'.mOpen = true := by
  have hstream : s.mBuffer ++ chunks.flatten = Framing.stream PeerFrame.encode frames := by
    rw [hempty, List.nil_append]
    exact hchunks
  have hnone : PeerFrame.next s.mBuffer = none := by
    rw [hempty]
    rfl
  have hfeed := Framing.feed_stream PeerFrame.decodes hfits hfuel hstream hnone
  obtain ⟨s', hreceive, hafter⟩ := WebSocketSession.receive_feed hkeeps hopen hfeed (by
    intro message hmessage
    obtain ⟨frame, _, rfl⟩ := List.mem_map.mp hmessage
    exact frame.isData)
  refine ⟨s', hreceive, ?_, hafter.mBuffer, hafter.mOpen⟩
  rw [hafter.callbacks, List.map_map]
  congr 2
  funext frame
  exact frame.callbackOf_eq

/-- A handler that answers every message with its payload. -/
def echo : Handlers where
  onMessage := some fun _ payload isText => [.send payload isText]

theorem echo_keepsOpen : echo.KeepsOpen := by
  refine ⟨_, rfl, ?_⟩
  intro n payload isText made hmade
  rw [List.mem_singleton.mp hmade]
  rfl

/-- A masked text and an unmasked binary message. -/
def twoFrames : List PeerFrame :=
  [{ isText := true, payload := [72, 105], key := some ⟨1, 2, 3, 4⟩ },
    { isText := false, payload := [0, 255] }]

/-- Cut in the first header, in the key, and between the last two bytes. -/
def twoFramesChunks : List Bytes :=
  [[0x81], [0x82, 1, 2], [3, 4, 73, 107, 0x82, 2, 0], [255]]

theorem frames_survive_segmentation_echo :
    ∃ s', WebSocketSession.receive echo 3 {} twoFramesChunks = some s' ∧
      s'.callbacks = [.message [72, 105] true, .message [0, 255] false] ∧ s'.mBuffer = [] ∧
      s'.mOpen = true :=
  frames_survive_segmentation echo {} echo_keepsOpen rfl rfl twoFrames (by decide) twoFramesChunks
    (by decide) 3 (by decide)

end SoulCoreKit.Server
