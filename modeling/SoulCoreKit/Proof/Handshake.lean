import SoulCoreKit.Server.WebSocketServer

/-!
# The handshake takes the first segment for the request

What the session is given is everything after the first segment. It is the bytes after the request
exactly when the first segment is the request: a shorter one is refused or leaves the rest of the
request to the session, a longer one takes the first frames with it.
-/

namespace SoulCoreKit.Server

namespace Connection

variable {qt : UpgradeQt} {callbacks : ServerCallbacks} {fuel : Nat}

theorem foldl_refused (written : Bytes) (segments : List Bytes) :
    segments.foldl (readyRead qt callbacks fuel) (.refused written) = .refused written := by
  induction segments with
  | nil => rfl
  | cons segment rest ih => exact ih

theorem foldl_upgraded (written : Bytes) (session : Option WebSocketSession) (received : Bytes)
    (segments : List Bytes) :
    ∃ session', segments.foldl (readyRead qt callbacks fuel) (.upgraded written session received) =
      .upgraded written session' (received ++ segments.flatten) := by
  induction segments generalizing session received with
  | nil => exact ⟨session, by simp⟩
  | cons segment rest ih =>
    obtain ⟨session', hrest⟩ := ih (session.bind fun session =>
      session.onReadyRead callbacks.toHandlers fuel segment) (received ++ segment)
    refine ⟨session', ?_⟩
    rw [List.foldl_cons, List.flatten_cons, ← List.append_assoc]
    exact hrest

/-- The first segment decides, and the session is given the others. -/
theorem receive_cons (first : Bytes) (rest : List Bytes) :
    receive qt callbacks fuel (first :: rest) = .refused (performUpgrade qt first).2 ∧
        (performUpgrade qt first).1 = false ∨
      (performUpgrade qt first).1 = true ∧ ∃ session,
        receive qt callbacks fuel (first :: rest) =
          .upgraded (performUpgrade qt first).2 session rest.flatten := by
  rw [receive, List.foldl_cons, readyRead]
  cases hupgrade : performUpgrade qt first with
  | mk accepted written =>
  cases accepted with
  | false => exact .inl ⟨foldl_refused written rest, rfl⟩
  | true =>
    obtain ⟨session, hrest⟩ := @foldl_upgraded qt callbacks fuel written
      (some (WebSocketSession.calls {} callbacks.onOpen)) [] rest
    exact .inr ⟨rfl, session, hrest⟩

variable (qt callbacks fuel) in
/-- The handshake is that of the whole request, and the session was given what follows it. -/
def Completes (request frames : Bytes) (segments : List Bytes) : Prop :=
  ∃ session, receive qt callbacks fuel segments =
    .upgraded (performUpgrade qt request).2 session frames

/-- However the stream is cut, the handshake completes with nothing lost exactly when the first segment
is the request. -/
theorem completes_iff {request frames : Bytes} {segments : List Bytes}
    (hvalid : (performUpgrade qt request).1 = true) (hcut : segments.flatten = request ++ frames) :
    Completes qt callbacks fuel request frames segments ↔ segments.head? = some request := by
  cases segments with
  | nil =>
    constructor
    · rintro ⟨session, hreceive⟩
      cases hreceive
    · intro hhead
      cases hhead
  | cons first rest =>
    rw [List.flatten_cons] at hcut
    rw [List.head?_cons, Option.some.injEq]
    constructor
    · rintro ⟨session, hreceive⟩
      obtain ⟨hrefused, _⟩ | ⟨_, session', hupgraded⟩ := @receive_cons qt callbacks fuel first rest
      · rw [hrefused] at hreceive
        cases hreceive
      · rw [hupgraded, upgraded.injEq] at hreceive
        rw [hreceive.2.2] at hcut
        exact List.append_cancel_right hcut
    · rintro rfl
      obtain ⟨_, hfailed⟩ | ⟨_, session, hupgraded⟩ := @receive_cons qt callbacks fuel first rest
      · rw [hfailed] at hvalid
        contradiction
      · rw [List.append_cancel_left hcut] at hupgraded
        exact ⟨session, hupgraded⟩

/-! ### The request of RFC 6455 -/

/-- Qt on plain ASCII texts, with the hash of the key below. -/
def asciiUpgradeQt : UpgradeQt where
  fromUtf8 bytes := bytes.map fun byte => Char.ofNat byte.toNat
  toUtf8 text := text.map fun c => UInt8.ofNat c.toNat
  trimmed text := ((text.dropWhile (· = ' ')).reverse.dropWhile (· = ' ')).reverse
  toCaseFolded := Char.toLower
  sha1 _ :=
    [0xB3, 0x7A, 0x4F, 0x2C, 0xC0, 0x62, 0x4F, 0x16, 0x90, 0xF6, 0x46, 0x06, 0xCF, 0x38, 0x59, 0x45,
      0xB2, 0xBE, 0xC4, 0xEA]

def sampleRequest : Bytes :=
  ascii "GET /chat HTTP/1.1\r\nUpgrade: websocket\r\nConnection: Upgrade\r\n" ++
    ascii "Sec-WebSocket-Key: dGhlIHNhbXBsZSBub25jZQ==\r\nSec-WebSocket-Version: 13\r\n\r\n"

/-- A masked ping without a payload. -/
def sampleFrame : Bytes := [0x89, 0x80, 0, 0, 0, 0]

theorem performUpgrade_sampleRequest :
    performUpgrade asciiUpgradeQt sampleRequest =
      (true, switchingProtocols (ascii "s3pPLMBiTxaQ9kYGzzhZRbK+xOo=")) := by
  decide +kernel

theorem completes_sampleRequest :
    Completes asciiUpgradeQt {} 8 sampleRequest sampleFrame [sampleRequest, sampleFrame] :=
  (completes_iff (by rw [performUpgrade_sampleRequest]) (by simp)).mpr rfl

/-- The first frame arrives with the request, and the session never sees it. -/
theorem not_completes_together :
    [sampleRequest ++ sampleFrame].flatten = sampleRequest ++ sampleFrame ∧
      (performUpgrade asciiUpgradeQt sampleRequest).1 = true ∧
      ¬ Completes asciiUpgradeQt {} 8 sampleRequest sampleFrame [sampleRequest ++ sampleFrame] := by
  refine ⟨by simp, by rw [performUpgrade_sampleRequest], ?_⟩
  rintro ⟨session, hreceive⟩
  obtain ⟨hrefused, _⟩ | ⟨_, session', hupgraded⟩ :=
    @receive_cons asciiUpgradeQt {} 8 (sampleRequest ++ sampleFrame) []
  · rw [hrefused] at hreceive
    cases hreceive
  · rw [hupgraded, upgraded.injEq] at hreceive
    cases hreceive.2.2

end Connection

end SoulCoreKit.Server
