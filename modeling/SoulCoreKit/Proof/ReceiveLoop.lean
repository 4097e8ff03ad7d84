import SoulCoreKit.Server.WebSocket
import Mathlib.Logic.Relation

/-!
# The receive loop takes whole frames

A peer chooses the extended length. The sum with the size of the header wraps at 64 bits, and the
lengths that are handed to `mid` and `remove` are cast to 32 bits, so a frame is taken whole exactly
when header and payload fit an `int`, unless the buffer is found too short before that. As long as every
frame the loop meets fits, each pass shortens the buffer and the loop ends.
-/

namespace SoulCoreKit.Server

/-! ### What taking a frame should do -/

/-- A call of `parseFrame` that returns true removes exactly the header and the payload, and hands on
the payload. -/
def WebSocketSession.ParsesWholeFrame (h : Handlers) (s : WebSocketSession) : Prop :=
  ∀ s', s.parseFrame h = (true, s') →
    ∃ header payload, parseHeader s.mBuffer = some header ∧ payload.length = header.payloadLen ∧
      s' = { s with mBuffer := s'.mBuffer }.dispatch h header.opCode payload ∧
      s'.mBuffer = s.mBuffer.drop (header.headerSize + header.payloadLen) ∧
      2 ≤ header.headerSize + header.payloadLen ∧
      header.headerSize + header.payloadLen ≤ s.mBuffer.length

/-- The header is incomplete, or the buffer is shorter than the wrapped sum, or the frame fits an
`int`. -/
def FrameFits (buffer : Bytes) : Prop :=
  ∀ h, parseHeader buffer = some h →
    buffer.length < (h.headerSize + h.payloadLen) % 2 ^ 64 ∨ h.headerSize + h.payloadLen < 2 ^ 31

/-! ### The casts -/

theorem toInt_of_lt {n : Nat} (hlt : n < 2 ^ 31) : toInt n = n := by
  unfold toInt
  rw [Int.bmod_def]
  omega

theorem toInt_lt (n : Nat) : toInt n < 2 ^ 31 := by
  unfold toInt
  rw [Int.bmod_def]
  omega

theorem length_unmask (mask payload : Bytes) : (unmask mask payload).length = payload.length := by
  simp [unmask]

theorem length_mid {bytes : Bytes} {position length : Nat} (hle : position + length ≤ bytes.length) :
    (mid bytes position length).length = length := by
  unfold mid
  rw [if_neg (by omega), if_neg (by omega), List.length_take, List.length_drop]
  omega

theorem remove_zero {bytes : Bytes} {length : Nat} (hle : length ≤ bytes.length) :
    remove bytes 0 length = bytes.drop length := by
  unfold remove
  split
  · have hzero : length = 0 ∨ bytes.length = 0 := by omega
    obtain rfl | hempty := hzero
    · rfl
    · have hnil : bytes = [] := List.length_eq_zero_iff.mp hempty
      rw [hnil, List.drop_nil]
  · simp

theorem length_le_length_remove (bytes : Bytes) (length : Int) :
    (bytes.length : Int) ≤ (remove bytes 0 length).length ∨
      (bytes.length : Int) ≤ (remove bytes 0 length).length + length := by
  unfold remove
  split
  · exact Or.inl le_rfl
  · right
    simp only [Int.toNat_zero, List.take_zero, List.nil_append, List.length_drop, Int.zero_add]
    omega

/-! ### One call -/

theorem two_le_headerSize {buffer : Bytes} {h : FrameHeader} (hheader : parseHeader buffer = some h) :
    2 ≤ h.headerSize := by
  unfold parseHeader at hheader
  split at hheader
  · simp only at hheader
    split at hheader
    · split at hheader
      · contradiction
      · rw [← Option.some_inj.mp hheader]
        simp only
        omega
    · split at hheader
      · split at hheader
        · contradiction
        · rw [← Option.some_inj.mp hheader]
          simp only
          omega
      · rw [← Option.some_inj.mp hheader]
        simp only
        omega
  · contradiction

theorem takeFrame_of_header {buffer : Bytes} {h : FrameHeader}
    (hheader : parseHeader buffer = some h)
    (hlong : ¬ buffer.length < (h.headerSize + h.payloadLen) % 2 ^ 64) :
    ∃ payload, takeFrame buffer = some (h.opCode, payload,
      remove buffer 0 (toInt ((h.headerSize + h.payloadLen) % 2 ^ 64))) ∧
      payload.length = (mid buffer (toInt h.headerSize) (toInt h.payloadLen)).length := by
  unfold takeFrame
  simp only [hheader, if_neg hlong]
  refine ⟨_, rfl, ?_⟩
  split
  · exact length_unmask _ _
  · rfl

theorem takeFrame_of_fits {buffer : Bytes} (hfits : FrameFits buffer) {opCode : Nat}
    {payload rest : Bytes} (htake : takeFrame buffer = some (opCode, payload, rest)) :
    ∃ h, parseHeader buffer = some h ∧ opCode = h.opCode ∧ payload.length = h.payloadLen ∧
      rest = buffer.drop (h.headerSize + h.payloadLen) ∧
      2 ≤ h.headerSize + h.payloadLen ∧ h.headerSize + h.payloadLen ≤ buffer.length := by
  cases hheader : parseHeader buffer with
  | none => simp [takeFrame, hheader] at htake
  | some h =>
      by_cases hshort : buffer.length < (h.headerSize + h.payloadLen) % 2 ^ 64
      · simp only [takeFrame, hheader, if_pos hshort] at htake
        contradiction
      · have hsmall : h.headerSize + h.payloadLen < 2 ^ 31 := (hfits h hheader).resolve_left hshort
        have hsum : (h.headerSize + h.payloadLen) % 2 ^ 64 = h.headerSize + h.payloadLen := by omega
        obtain ⟨taken, htaken, hlength⟩ := takeFrame_of_header hheader hshort
        rw [htaken, Option.some_inj, Prod.mk.injEq, Prod.mk.injEq] at htake
        obtain ⟨rfl, rfl, rfl⟩ := htake
        rw [hsum] at hshort
        have hle : h.headerSize + h.payloadLen ≤ buffer.length := by omega
        have htwo := two_le_headerSize hheader
        refine ⟨h, rfl, rfl, ?_, ?_, by omega, hle⟩
        · rw [hlength, toInt_of_lt (by omega), toInt_of_lt (by omega), length_mid hle]
        · rw [hsum, toInt_of_lt hsmall]
          exact remove_zero hle

/-! ### The loop -/

namespace WebSocketSession

variable {h : Handlers} {s s' : WebSocketSession}

/-- One pass of the loop. -/
def LoopStep (h : Handlers) (s s' : WebSocketSession) : Prop :=
  s.mOpen = true ∧ s.parseFrame h = (true, s')

/-- The sessions that the loop calls `parseFrame` on, and the last one. -/
def LoopReaches (h : Handlers) : WebSocketSession → WebSocketSession → Prop :=
  Relation.ReflTransGen (LoopStep h)

theorem mBuffer_sendFrame (s : WebSocketSession) (opCode : WebSocketOpCode) (payload : Bytes) :
    (s.sendFrame opCode payload).mBuffer = s.mBuffer := by
  unfold sendFrame
  split <;> rfl

theorem mBuffer_call (s : WebSocketSession) (made : SessionCall) :
    (s.call made).mBuffer = s.mBuffer := by
  cases made with
  | send data isText =>
      simp only [call, send]
      split
      · rfl
      · exact mBuffer_sendFrame s _ data
  | close code reason =>
      simp only [call, close, sendCloseFrame]
      split
      · rfl
      · split
        · rfl
        · exact mBuffer_sendFrame _ .close _

theorem mBuffer_calls (s : WebSocketSession) (made : List SessionCall) :
    (s.calls made).mBuffer = s.mBuffer := by
  induction made generalizing s with
  | nil => rfl
  | cons first rest ih =>
      calc
        (s.calls (first :: rest)).mBuffer = ((s.call first).calls rest).mBuffer := rfl
        _ = (s.call first).mBuffer := ih (s.call first)
        _ = s.mBuffer := mBuffer_call s first

theorem mBuffer_notifyMessage (h : Handlers) (s : WebSocketSession) (payload : Bytes)
    (isText : Bool) : (s.notifyMessage h payload isText).mBuffer = s.mBuffer := by
  unfold notifyMessage
  split
  · rfl
  · exact mBuffer_calls _ _

theorem mBuffer_dispatch (h : Handlers) (s : WebSocketSession) (opCode : Nat) (payload : Bytes) :
    (s.dispatch h opCode payload).mBuffer = s.mBuffer := by
  unfold dispatch
  split
  · exact mBuffer_notifyMessage h s payload true
  · exact mBuffer_notifyMessage h s payload false
  · simp only [sendCloseFrame]
    split
    · rfl
    · split
      · exact mBuffer_sendFrame _ .close _
      · exact mBuffer_sendFrame _ .close _
  · exact mBuffer_sendFrame s .pong payload
  · rfl
  · rfl
  · unfold notifyError
    split
    · rfl
    · exact mBuffer_calls _ _

theorem parseFrame_of_takeFrame {opCode : Nat} {payload rest : Bytes}
    (htake : takeFrame s.mBuffer = some (opCode, payload, rest)) :
    s.parseFrame h = (true, { s with mBuffer := rest }.dispatch h opCode payload) := by
  unfold parseFrame
  rw [htake]

theorem parsesWholeFrame_of_fits (hfits : FrameFits s.mBuffer) : s.ParsesWholeFrame h := by
  intro s' hparse
  cases htake : takeFrame s.mBuffer with
  | none => simp [parseFrame, htake] at hparse
  | some taken =>
      obtain ⟨opCode, payload, rest⟩ := taken
      rw [parseFrame_of_takeFrame htake, Prod.mk.injEq] at hparse
      obtain ⟨header, hheader, rfl, hpayload, hrest, htwo, hle⟩ := takeFrame_of_fits hfits htake
      have hbuffer : s'.mBuffer = rest := by
        rw [← hparse.2]
        exact mBuffer_dispatch h _ _ _
      refine ⟨header, payload, hheader, hpayload, ?_, hbuffer.trans hrest, htwo, hle⟩
      rw [hbuffer]
      exact hparse.2.symm

theorem fits_of_parsesWholeFrame (hwhole : s.ParsesWholeFrame h) : FrameFits s.mBuffer := by
  intro header hheader
  by_contra hnot
  rw [not_or] at hnot
  obtain ⟨hlong, hlarge⟩ := hnot
  obtain ⟨payload, htake, _⟩ := takeFrame_of_header hheader hlong
  obtain ⟨header', _, hheader', _, _, hrest, _, hle⟩ := hwhole _ (parseFrame_of_takeFrame htake)
  rw [hheader, Option.some_inj] at hheader'
  subst hheader'
  have hlength := congrArg List.length hrest
  rw [mBuffer_dispatch, List.length_drop] at hlength
  have hremoved := length_le_length_remove s.mBuffer
    (toInt ((header.headerSize + header.payloadLen) % 2 ^ 64))
  have hcast := toInt_lt ((header.headerSize + header.payloadLen) % 2 ^ 64)
  simp only at hlength
  omega

theorem length_mBuffer_of_step (hfits : FrameFits s.mBuffer) (hstep : LoopStep h s s') :
    s'.mBuffer.length + 2 ≤ s.mBuffer.length := by
  obtain ⟨header, _, _, _, _, hrest, htwo, hle⟩ := parsesWholeFrame_of_fits hfits s' hstep.2
  rw [hrest, List.length_drop]
  omega

theorem receiveLoop_terminates_of_length (n : Nat) (s : WebSocketSession)
    (hlength : s.mBuffer.length ≤ n)
    (hfits : ∀ s', LoopReaches h s s' → FrameFits s'.mBuffer) :
    (receiveLoop h (n + 1) s).isSome = true := by
  induction n generalizing s with
  | zero =>
      have hnil : s.mBuffer = [] := List.length_eq_zero_iff.mp (by omega)
      have hparse : s.parseFrame h = (false, s) := by
        simp [parseFrame, hnil, takeFrame, parseHeader]
      rw [receiveLoop, hparse]
      split <;> rfl
  | succ n ih =>
      rw [receiveLoop]
      split
      · rename_i hopen
        cases hparse : s.parseFrame h with
        | mk more next =>
        cases more with
        | false => rfl
        | true =>
            have hstep : LoopStep h s next := ⟨hopen, hparse⟩
            have hshorter := length_mBuffer_of_step (hfits s Relation.ReflTransGen.refl) hstep
            apply ih next (by omega)
            intro s' hreaches
            exact hfits s' (Relation.ReflTransGen.head hstep hreaches)
      · rfl

end WebSocketSession

/-- A call takes a whole frame exactly where the frame fits; and a loop that meets no other frame takes
whole frames only, and ends. -/
theorem receive_whole_frames (h : Handlers) (s : WebSocketSession) :
    (s.ParsesWholeFrame h ↔ FrameFits s.mBuffer) ∧
    ((∀ s', WebSocketSession.LoopReaches h s s' → FrameFits s'.mBuffer) →
      (∀ s', WebSocketSession.LoopReaches h s s' → s'.ParsesWholeFrame h) ∧
      ∃ fuel, (WebSocketSession.receiveLoop h fuel s).isSome = true) := by
  refine ⟨⟨WebSocketSession.fits_of_parsesWholeFrame, WebSocketSession.parsesWholeFrame_of_fits⟩, ?_⟩
  intro hfits
  refine ⟨?_, s.mBuffer.length + 1, ?_⟩
  · intro s' hreaches
    exact WebSocketSession.parsesWholeFrame_of_fits (hfits s' hreaches)
  · exact WebSocketSession.receiveLoop_terminates_of_length s.mBuffer.length s le_rfl hfits

/-- A text frame of two bytes. -/
def shortFrame : Bytes := [0x81, 2, 72, 105]

theorem loopReaches_shortFrame {s' : WebSocketSession}
    (hreaches : WebSocketSession.LoopReaches {} { mBuffer := shortFrame } s') :
    s' = { mBuffer := shortFrame } ∨ s' = { mBuffer := [] } := by
  induction hreaches with
  | refl => exact Or.inl rfl
  | tail _ hstep ih =>
      obtain ⟨_, hparse⟩ := hstep
      obtain rfl | rfl := ih
      · have hnext : WebSocketSession.parseFrame {} { mBuffer := shortFrame } =
            (true, { mBuffer := [] }) := by decide
        rw [hnext] at hparse
        exact Or.inr (Prod.mk.inj hparse).2.symm
      · have hend : WebSocketSession.parseFrame {} { mBuffer := [] } = (false, { mBuffer := [] }) := by
          decide
        rw [hend] at hparse
        simp at hparse

theorem fits_of_loopReaches_shortFrame (s' : WebSocketSession)
    (hreaches : WebSocketSession.LoopReaches {} { mBuffer := shortFrame } s') :
    FrameFits s'.mBuffer := by
  intro h hheader
  obtain rfl | rfl := loopReaches_shortFrame hreaches
  · have hshort : parseHeader shortFrame = some ⟨1, false, 2, 2, 2⟩ := by decide
    rw [hshort, Option.some_inj] at hheader
    rw [← hheader]
    decide
  · simp [parseHeader] at hheader

theorem receive_whole_frames_shortFrame :
    (∀ s', WebSocketSession.LoopReaches {} { mBuffer := shortFrame } s' → s'.ParsesWholeFrame {}) ∧
    ∃ fuel, (WebSocketSession.receiveLoop {} fuel { mBuffer := shortFrame }).isSome = true :=
  (receive_whole_frames {} { mBuffer := shortFrame }).2 fits_of_loopReaches_shortFrame

/-- A binary frame that announces `2 ^ 64 - 10` bytes: with its header of 10 bytes, none at all. -/
def hostileFrame : Bytes := [0x82, 127, 255, 255, 255, 255, 255, 255, 255, 246]

theorem receiveLoop_hostileFrame (fuel : Nat) :
    WebSocketSession.receiveLoop {} fuel { mBuffer := hostileFrame } = none := by
  induction fuel with
  | zero => rfl
  | succ fuel ih =>
      have hparse : WebSocketSession.parseFrame {} { mBuffer := hostileFrame } =
          (true, { mBuffer := hostileFrame }) := by decide
      rw [WebSocketSession.receiveLoop, hparse]
      exact ih

/-- The frame is taken again and again, and nothing is removed. -/
theorem hostileFrame_never_consumed :
    ¬ WebSocketSession.ParsesWholeFrame {} { mBuffer := hostileFrame } ∧
    ¬ ∃ fuel, (WebSocketSession.receiveLoop {} fuel { mBuffer := hostileFrame }).isSome = true := by
  constructor
  · intro hwhole
    have hfits := WebSocketSession.fits_of_parsesWholeFrame hwhole
    have hheader : parseHeader hostileFrame = some ⟨2, false, 2 ^ 64 - 10, 10, 10⟩ := by decide
    exact absurd (hfits _ hheader) (by decide)
  · rintro ⟨fuel, hsome⟩
    rw [receiveLoop_hostileFrame] at hsome
    contradiction

end SoulCoreKit.Server
