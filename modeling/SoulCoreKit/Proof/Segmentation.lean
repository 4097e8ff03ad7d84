import SoulCoreKit.Lib.Framing
import SoulCoreKit.Server.HttpServer

/-!
# Requests survive any segmentation

The parser starts again from the first byte at every arrival. It is enough that what it has decided on
some bytes stands when more of them come: the blank line is found where it was found before, the header
block in front of it is the same, and a body that was long enough still is. The connections of a server
share nothing but the map of their buffers.
-/

namespace SoulCoreKit.Server

section Parser

variable (qt : Qt) (peerAddress : String)

theorem indexOf_append {front pattern : Bytes} {i : Nat} (hfound : indexOf front pattern 0 = some i)
    (more : Bytes) : indexOf (front ++ more) pattern 0 = some i := by
  simp only [indexOf, List.drop_zero, Nat.add_zero, Option.map_id_fun', id] at hfound ⊢
  exact Occurrence.firstIndex_append hfound more

theorem indexOf_add_length_le {bytes pattern : Bytes} {i : Nat}
    (hfound : indexOf bytes pattern 0 = some i) : i + pattern.length ≤ bytes.length := by
  simp only [indexOf, List.drop_zero, Nat.add_zero, Option.map_id_fun', id] at hfound
  exact Occurrence.firstIndex_add_length_le hfound

/-- Each pass of the header loop moves the position, so no more passes than bytes are made. -/
theorem parseHeaderLines_enough (headerLines : Bytes) {fuel pos : Nat}
    (hfuel : headerLines.length ≤ fuel + pos) (more : Nat) (req : HttpRequest) :
    parseHeaderLines qt headerLines (fuel + more) pos req =
      parseHeaderLines qt headerLines fuel pos req := by
  induction fuel generalizing pos req with
  | zero =>
      have hend : ¬ pos < headerLines.length := by omega
      cases more with
      | zero => rfl
      | succ more =>
          rw [Nat.zero_add]
          simp only [parseHeaderLines, if_neg hend]
  | succ fuel ih =>
      rw [Nat.add_right_comm, parseHeaderLines, parseHeaderLines]
      split
      · rename_i hpos
        apply ih
        have hline : pos ≤ (indexOf headerLines crlf pos).getD headerLines.length := by
          unfold indexOf
          cases Occurrence.firstIndex crlf (headerLines.drop pos) with
          | none => exact hpos.le
          | some i => exact Nat.le_add_left pos i
        omega
      · rfl

theorem parseBody_append {req : HttpRequest} {bodyPart : Bytes}
    (hdecided : (parseBody qt peerAddress req bodyPart).1 ≠ .incomplete) (more : Bytes) :
    parseBody qt peerAddress req (bodyPart ++ more) = parseBody qt peerAddress req bodyPart := by
  unfold parseBody at hdecided ⊢
  simp only at hdecided ⊢
  split
  · rename_i hgiven
    rw [if_pos hgiven] at hdecided
    by_cases hshort : (bodyPart.length : Int) < qt.toInt (req.header qt "Content-Length")
    · rw [if_pos hshort] at hdecided
      contradiction
    · have hlong : ¬ ((bodyPart ++ more).length : Int) < qt.toInt (req.header qt "Content-Length") := by
        rw [List.length_append]
        omega
      rw [if_neg hshort, if_neg hlong]
      unfold left
      rw [List.take_append_of_le_length (by omega)]
  · rfl

theorem parseRequest_append {req : HttpRequest} {front : Bytes}
    (hdecided : (parseRequest qt peerAddress req front).1 ≠ .incomplete) (more : Bytes) :
    parseRequest qt peerAddress req (front ++ more) = parseRequest qt peerAddress req front := by
  cases hblank : indexOf front (ascii "\r\n\r\n") 0 with
  | none =>
      simp only [parseRequest, hblank] at hdecided
      contradiction
  | some headerEnd =>
      have hle : headerEnd + 4 ≤ front.length := indexOf_add_length_le hblank
      have htake : (front ++ more).take headerEnd = front.take headerEnd :=
        List.take_append_of_le_length (by omega)
      have hdrop : (front ++ more).drop (headerEnd + 4) = front.drop (headerEnd + 4) ++ more :=
        List.drop_append_of_le_length hle
      simp only [parseRequest, hblank, indexOf_append hblank more, htake, hdrop] at hdecided ⊢
      cases hfirst : indexOf (front.take headerEnd) crlf 0 with
      | none => rfl
      | some firstLineEnd =>
          simp only [hfirst] at hdecided ⊢
          cases hline : parseRequestLine qt req ((front.take headerEnd).take firstLineEnd) with
          | mk accepted req =>
          cases accepted with
          | false => rfl
          | true =>
              simp only [hline] at hdecided ⊢
              exact parseBody_append qt peerAddress hdecided more

/-- What the parser decides on some bytes. -/
def decision (data : Bytes) : Option Outcome :=
  match parseRequest qt peerAddress {} data with
  | (.incomplete, _) => none
  | (.badRequest, _) => some .badRequest
  | (.ok, req) => some (.ok req)

theorem decision_stable : Framing.Stable (decision qt peerAddress) := by
  intro front more outcome hdecision
  have hdecided : (parseRequest qt peerAddress {} front).1 ≠ .incomplete := by
    intro hincomplete
    unfold decision at hdecision
    split at hdecision <;> simp_all
  unfold decision
  rw [parseRequest_append qt peerAddress hdecided more]
  exact hdecision

theorem decision_ne_incomplete {data : Bytes} {outcome : Outcome}
    (hdecision : decision qt peerAddress data = some outcome) : outcome ≠ .incomplete := by
  unfold decision at hdecision
  split at hdecision
  · contradiction
  · rw [← Option.some_inj.mp hdecision]
    simp
  · rw [← Option.some_inj.mp hdecision]
    simp

theorem decision_nil : decision qt peerAddress [] = none := rfl

end Parser

/-! ### Connections -/

/-- What the sockets of a server signal. -/
inductive Arrival (Socket : Type) where
  | readyRead (socket : Socket) (chunk : Bytes)
  | disconnected (socket : Socket)

section Connections

variable {Socket : Type} [DecidableEq Socket]

/-- The chunks that arrive on a socket. -/
def chunksFor (socket : Socket) : List (Arrival Socket) → List Bytes
  | [] => []
  | .readyRead other chunk :: rest =>
      if other = socket then chunk :: chunksFor socket rest else chunksFor socket rest
  | .disconnected _ :: rest => chunksFor socket rest

namespace HttpServer

variable (qt : Qt) (peerAddress : Socket → String)

/-- The outcomes on a socket, one for each chunk that arrives on it. -/
def outcomes (socket : Socket) : HttpServer Socket → List (Arrival Socket) → List Outcome
  | _, [] => []
  | s, .readyRead other chunk :: rest =>
      let taken := s.takeRequest qt peerAddress other chunk
      if other = socket then taken.1 :: outcomes socket taken.2 rest else outcomes socket taken.2 rest
  | s, .disconnected other :: rest => outcomes socket (s.onDisconnected other) rest

/-- The first outcome on a socket other than that the request is incomplete. -/
def firstOutcome (socket : Socket) (s : HttpServer Socket) (arrivals : List (Arrival Socket)) :
    Option Outcome :=
  (s.outcomes qt peerAddress socket arrivals).find? (· ≠ .incomplete)

/-- The bytes that wait on a socket. -/
def buffer (s : HttpServer Socket) (socket : Socket) : Bytes := (s.mBuffers.lookup socket).getD []

variable {qt peerAddress} {s : HttpServer Socket} {socket other : Socket} {chunk : Bytes}

theorem buffer_takeRequest_of_ne (hne : other ≠ socket) :
    (s.takeRequest qt peerAddress other chunk).2.buffer socket = s.buffer socket := by
  have hinsert (data : Bytes) : (s.mBuffers.insert other data).lookup socket =
      s.mBuffers.lookup socket := Finmap.lookup_insert_of_ne _ hne.symm
  have herase (data : Bytes) : ((s.mBuffers.insert other data).erase other).lookup socket =
      s.mBuffers.lookup socket := by
    rw [Finmap.lookup_erase_ne hne.symm, hinsert]
  unfold takeRequest buffer
  simp only
  split
  · simp only [herase]
  · split
    · simp only [hinsert]
    · simp only [herase]
    · simp only [herase]

theorem buffer_onDisconnected_of_ne (hne : other ≠ socket) :
    (s.onDisconnected other).buffer socket = s.buffer socket := by
  unfold onDisconnected buffer
  rw [Finmap.lookup_erase_ne hne.symm]

theorem takeRequest_of_decision {outcome : Outcome}
    (hsize : (s.buffer socket ++ chunk).length ≤ 1024 * 1024)
    (hdecision : decision qt (peerAddress socket) (s.buffer socket ++ chunk) = some outcome) :
    (s.takeRequest qt peerAddress socket chunk).1 = outcome := by
  unfold decision at hdecision
  unfold takeRequest
  unfold buffer at hsize hdecision
  simp only
  rw [if_neg (by omega)]
  generalize parseRequest qt (peerAddress socket) {}
    ((s.mBuffers.lookup socket).getD [] ++ chunk) = parsed at hdecision ⊢
  obtain ⟨status, req⟩ := parsed
  cases status with
  | ok => exact Option.some_inj.mp hdecision
  | incomplete => contradiction
  | badRequest => exact Option.some_inj.mp hdecision

theorem takeRequest_of_no_decision (hsize : (s.buffer socket ++ chunk).length ≤ 1024 * 1024)
    (hdecision : decision qt (peerAddress socket) (s.buffer socket ++ chunk) = none) :
    (s.takeRequest qt peerAddress socket chunk).1 = .incomplete ∧
      (s.takeRequest qt peerAddress socket chunk).2.buffer socket = s.buffer socket ++ chunk := by
  unfold decision at hdecision
  unfold takeRequest
  unfold buffer at hsize hdecision ⊢
  simp only
  rw [if_neg (by omega)]
  generalize parseRequest qt (peerAddress socket) {}
    ((s.mBuffers.lookup socket).getD [] ++ chunk) = parsed at hdecision ⊢
  obtain ⟨status, req⟩ := parsed
  cases status with
  | ok => contradiction
  | incomplete =>
      refine ⟨rfl, ?_⟩
      simp only [Finmap.lookup_insert, Option.getD_some]
  | badRequest => contradiction

/-- Among the arrivals of a whole server, a socket's first outcome is the first decision on its own
chunks. -/
theorem firstOutcome_eq_firstDecision {arrivals : List (Arrival Socket)}
    (hconnected : .disconnected socket ∉ arrivals)
    (hsize : (s.buffer socket ++ (chunksFor socket arrivals).flatten).length ≤ 1024 * 1024) :
    s.firstOutcome qt peerAddress socket arrivals =
      Framing.firstDecision (decision qt (peerAddress socket)) (s.buffer socket)
        (chunksFor socket arrivals) := by
  induction arrivals generalizing s with
  | nil => rfl
  | cons arrival rest ih =>
      have hrest : .disconnected socket ∉ rest := fun hmem => hconnected (List.mem_cons_of_mem _ hmem)
      cases arrival with
      | disconnected other =>
          have hne : other ≠ socket := by
            rintro rfl
            exact hconnected List.mem_cons_self
          rw [chunksFor] at hsize ⊢
          rw [← buffer_onDisconnected_of_ne hne] at hsize ⊢
          exact ih hrest hsize
      | readyRead other chunk =>
          by_cases heq : other = socket
          · subst heq
            rw [chunksFor, if_pos rfl, List.flatten_cons, ← List.append_assoc] at hsize
            have hnow : (s.buffer other ++ chunk).length ≤ 1024 * 1024 := by
              rw [List.length_append] at hsize
              omega
            rw [firstOutcome, outcomes, if_pos rfl, chunksFor, if_pos rfl, Framing.firstDecision]
            cases hdecision : decision qt (peerAddress other) (s.buffer other ++ chunk) with
            | some outcome =>
                have hne := decision_ne_incomplete qt (peerAddress other) hdecision
                simp only [takeRequest_of_decision hnow hdecision]
                rw [List.find?_cons_of_pos (by simpa using hne)]
            | none =>
                obtain ⟨hincomplete, hbuffer⟩ := takeRequest_of_no_decision hnow hdecision
                simp only [hincomplete]
                rw [List.find?_cons_of_neg (by simp), ← hbuffer]
                rw [← hbuffer] at hsize
                exact ih hrest hsize
          · rw [chunksFor, if_neg heq] at hsize ⊢
            rw [firstOutcome, outcomes, if_neg heq]
            have hbuffer : (s.takeRequest qt peerAddress other chunk).2.buffer socket =
                s.buffer socket := buffer_takeRequest_of_ne heq
            rw [← hbuffer] at hsize ⊢
            exact ih hrest hsize

theorem firstOutcome_eq_decision {arrivals : List (Arrival Socket)} {data : Bytes}
    (hnew : s.buffer socket = []) (hconnected : .disconnected socket ∉ arrivals)
    (hdata : (chunksFor socket arrivals).flatten = data) (hsize : data.length ≤ 1024 * 1024) :
    s.firstOutcome qt peerAddress socket arrivals = decision qt (peerAddress socket) data := by
  have hlength : (s.buffer socket ++ (chunksFor socket arrivals).flatten).length ≤ 1024 * 1024 := by
    rw [hnew, List.nil_append, hdata]
    exact hsize
  rw [firstOutcome_eq_firstDecision hconnected hlength, hnew,
    Framing.firstDecision_eq (decision_stable qt (peerAddress socket)) (decision_nil qt _), hdata]
  rfl

end HttpServer

end Connections

/-- The first outcome on a connection does not depend on how its bytes are cut, nor on what arrives on
the other connections; and a decision of the parser stands on every longer input. -/
theorem requests_survive_segmentation {Socket : Type} [DecidableEq Socket] (qt : Qt)
    (peerAddress : Socket → String) :
    (∀ (socket : Socket) (data : Bytes), data.length ≤ 1024 * 1024 →
      ∀ (s s' : HttpServer Socket) (arrivals arrivals' : List (Arrival Socket)),
      s.buffer socket = [] → s'.buffer socket = [] →
      .disconnected socket ∉ arrivals → .disconnected socket ∉ arrivals' →
      (chunksFor socket arrivals).flatten = data → (chunksFor socket arrivals').flatten = data →
      s.firstOutcome qt peerAddress socket arrivals = s'.firstOutcome qt peerAddress socket arrivals') ∧
    ∀ (address : String) (front more : Bytes), (parseRequest qt address {} front).1 ≠ .incomplete →
      parseRequest qt address {} (front ++ more) = parseRequest qt address {} front := by
  constructor
  · intro socket data hsize s s' arrivals arrivals' hnew hnew' hconnected hconnected' hdata hdata'
    rw [HttpServer.firstOutcome_eq_decision hnew hconnected hdata hsize,
      HttpServer.firstOutcome_eq_decision hnew' hconnected' hdata' hsize]
  · intro address front more hdecided
    exact parseRequest_append qt address hdecided more

/-- Qt on plain ASCII texts: digits for numbers, and targets without a query. -/
def asciiQt : Qt where
  fromUtf8 bytes := String.ofList (bytes.map fun byte => Char.ofNat byte.toNat)
  toLower text := String.ofList (text.toList.map Char.toLower)
  trimmed text :=
    String.ofList ((text.toList.dropWhile (· = ' ')).reverse.dropWhile (· = ' ')).reverse
  toInt text := text.toList.foldl (fun n digit => 10 * n + (digit.toNat - 48)) 0
  urlPath uri := uri
  urlQueryItems _ := []

/-- A request with a body of two bytes, cut in the request line, in the blank line and in the body. -/
def shortRequestChunks : List Bytes :=
  [ascii "PUT /a HT", ascii "TP/1.1\r\nContent-Length: 2\r\n\r", ascii "\nh", ascii "i"]

/-- The same bytes at once, with another connection before them. -/
def shortRequestArrivals : List (Arrival Bool) :=
  [.readyRead false (ascii "GET"), .readyRead true shortRequestChunks.flatten, .disconnected false]

theorem requests_survive_segmentation_shortRequest :
    HttpServer.firstOutcome asciiQt (fun _ => "::1") true {} (shortRequestChunks.map (.readyRead true)) =
      HttpServer.firstOutcome asciiQt (fun _ => "::1") true {} shortRequestArrivals ∧
    (parseRequest asciiQt "::1" {} shortRequestChunks.flatten).1 = .ok ∧
    parseRequest asciiQt "::1" {} (shortRequestChunks.flatten ++ ascii "GET") =
      parseRequest asciiQt "::1" {} shortRequestChunks.flatten :=
  ⟨(requests_survive_segmentation asciiQt (fun _ : Bool => "::1")).1 true shortRequestChunks.flatten
      (by decide) {} {} _ _ rfl rfl (by simp [shortRequestChunks]) (by simp [shortRequestArrivals])
      (by decide) (by decide), by decide,
    (requests_survive_segmentation asciiQt (fun _ : Bool => "::1")).2 "::1" _ _ (by decide)⟩

end SoulCoreKit.Server
