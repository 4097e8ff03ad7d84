import SoulCoreKit.Lib.HttpMessage
import SoulCoreKit.Proof.Segmentation

/-!
# Requests that more bytes complete

The parser asks for more bytes where it has no blank line, where the header block has no line break, and
where the body is short. More bytes help in the first and in the last case. They never help in the second,
since the first blank line stays where it is: a request line with no header line behind it waits for ever.
-/

namespace SoulCoreKit.Server

open HttpMessage

theorem crlf_eq : crlf = lineBreak := by decide

theorem ascii_blankLine : ascii "\r\n\r\n" = blankLine := by decide

theorem indexOf_zero (bytes pattern : Bytes) :
    indexOf bytes pattern 0 = Occurrence.firstIndex pattern bytes := by
  simp only [indexOf, List.drop_zero, Nat.add_zero, Option.map_id_fun', id]

/-- There is a blank line, and no line break in front of it. -/
def LoneRequestLine (data : Bytes) : Prop :=
  ∃ headerEnd, indexOf data blankLine 0 = some headerEnd ∧ indexOf (data.take headerEnd) crlf 0 = none

theorem LoneRequestLine.append {data : Bytes} (hlone : LoneRequestLine data) (more : Bytes) :
    LoneRequestLine (data ++ more) := by
  obtain ⟨headerEnd, hblank, hnone⟩ := hlone
  have hle : headerEnd + 4 ≤ data.length := indexOf_add_length_le hblank
  refine ⟨headerEnd, indexOf_append hblank more, ?_⟩
  rw [List.take_append_of_le_length (by omega)]
  exact hnone

section Parser

variable (qt : Qt) (peerAddress : String)

theorem LoneRequestLine.incomplete {data : Bytes} (hlone : LoneRequestLine data) (req : HttpRequest) :
    (parseRequest qt peerAddress req data).1 = .incomplete := by
  obtain ⟨headerEnd, hblank, hnone⟩ := hlone
  simp only [parseRequest, ascii_blankLine, hblank, hnone]

/-- A body is long enough when as many bytes as the header asks for are added. -/
theorem exists_parseBody (req : HttpRequest) (bodyPart : Bytes) :
    ∃ more, more ≠ [] ∧ (parseBody qt peerAddress req (bodyPart ++ more)).1 ≠ .incomplete := by
  let expected := qt.toInt (req.header qt "Content-Length")
  refine ⟨List.replicate (expected.toNat + 1) 0, by simp, ?_⟩
  have hlong : ¬ ((bodyPart ++ List.replicate (expected.toNat + 1) 0).length : Int) < expected := by
    rw [List.length_append, List.length_replicate]
    omega
  unfold parseBody
  simp only
  rw [if_neg hlong]
  split
  · simp
  · simp

theorem exists_parseRequest {data : Bytes} {headerEnd firstLineEnd : Nat}
    (hblank : indexOf data blankLine 0 = some headerEnd)
    (hfirst : indexOf (data.take headerEnd) crlf 0 = some firstLineEnd) (req : HttpRequest) :
    ∃ more, more ≠ [] ∧ (parseRequest qt peerAddress req (data ++ more)).1 ≠ .incomplete := by
  have hle : headerEnd + 4 ≤ data.length := indexOf_add_length_le hblank
  have htake (more : Bytes) : (data ++ more).take headerEnd = data.take headerEnd :=
    List.take_append_of_le_length (by omega)
  have hdrop (more : Bytes) : (data ++ more).drop (headerEnd + 4) = data.drop (headerEnd + 4) ++ more :=
    List.drop_append_of_le_length hle
  have hfound (more : Bytes) : indexOf (data ++ more) blankLine 0 = some headerEnd :=
    indexOf_append hblank more
  simp only [parseRequest, ascii_blankLine, hfound, htake, hdrop, hfirst]
  cases hline : parseRequestLine qt req ((data.take headerEnd).take firstLineEnd) with
  | mk accepted req =>
  cases accepted with
  | false => exact ⟨[0], by simp, by simp⟩
  | true => exact exists_parseBody qt peerAddress _ _

/-- Bytes with no blank line are completed by one more line and a blank line. -/
theorem exists_header {data : Bytes} (hblank : indexOf data blankLine 0 = none) :
    ∃ more headerEnd firstLineEnd, indexOf (data ++ more) blankLine 0 = some headerEnd ∧
      indexOf ((data ++ more).take headerEnd) crlf 0 = some firstLineEnd := by
  rw [indexOf_zero] at hblank
  let line : Bytes := ascii "x\r\nx"
  have hfound : indexOf (data ++ (line ++ blankLine)) blankLine 0 = some (data.length + 4) := by
    have hcons : line ++ blankLine = 120 :: ascii "\r\nx\r\n\r\n" := by decide
    have hrest : Occurrence.firstIndex blankLine (ascii "\r\nx\r\n\r\n") = some 3 := by decide
    rw [indexOf_zero, hcons, Occurrence.firstIndex_append_cons (by decide) hblank, hrest, Option.map_some,
      Nat.add_comm]
  have htake : (data ++ (line ++ blankLine)).take (data.length + 4) = data ++ line := by
    rw [← List.append_assoc]
    exact List.take_left' (by simp [line, ascii])
  have hbreak : indexOf (data ++ line) crlf 0 ≠ none := by
    rw [indexOf_zero, Ne, Occurrence.firstIndex_eq_none_iff, not_not]
    exact ⟨data ++ [120], [120], by simp [line, ascii, crlf]⟩
  obtain ⟨firstLineEnd, hfirst⟩ := Option.ne_none_iff_exists'.mp hbreak
  exact ⟨line ++ blankLine, data.length + 4, firstLineEnd, hfound, htake ▸ hfirst⟩

theorem exists_completion_iff (data : Bytes) :
    (∃ more, more ≠ [] ∧ (parseRequest qt peerAddress {} (data ++ more)).1 ≠ .incomplete) ↔
      ¬ LoneRequestLine data := by
  constructor
  · rintro ⟨more, -, hdecided⟩ hlone
    exact hdecided ((hlone.append more).incomplete qt peerAddress {})
  · intro hlone
    cases hblank : indexOf data blankLine 0 with
    | none =>
        obtain ⟨front, headerEnd, firstLineEnd, hfound, hfirst⟩ := exists_header hblank
        obtain ⟨more, hmore, hdecided⟩ := exists_parseRequest qt peerAddress hfound hfirst {}
        rw [List.append_assoc] at hdecided
        exact ⟨front ++ more, by simp [hmore], hdecided⟩
    | some headerEnd =>
        cases hfirst : indexOf (data.take headerEnd) crlf 0 with
        | none => exact absurd ⟨headerEnd, hblank, hfirst⟩ hlone
        | some firstLineEnd => exact exists_parseRequest qt peerAddress hblank hfirst {}

end Parser

/-! ### Requests of whole lines -/

/-- A request line, header lines and the blank line. -/
def requestBytes (line : Bytes) (headers : List Bytes) : Bytes := block line headers ++ blankLine

theorem blankLine_requestBytes {line : Bytes} {headers : List Bytes} (hline : ¬ lineBreak <:+: line)
    (hheaders : ∀ header ∈ headers, IsLine header) (rest : Bytes) :
    indexOf (requestBytes line headers ++ rest) blankLine 0 = some (block line headers).length := by
  rw [indexOf_zero, requestBytes, List.append_assoc]
  exact firstIndex_blankLine_block hline hheaders rest

theorem loneRequestLine_requestBytes {line : Bytes} {headers : List Bytes}
    (hline : ¬ lineBreak <:+: line) (hheaders : ∀ header ∈ headers, IsLine header) (rest : Bytes) :
    LoneRequestLine (requestBytes line headers ++ rest) ↔ headers = [] := by
  have hblank := blankLine_requestBytes hline hheaders rest
  have htake : (requestBytes line headers ++ rest).take (block line headers).length =
      block line headers := by
    rw [requestBytes, List.append_assoc, List.take_left]
  have hlone : LoneRequestLine (requestBytes line headers ++ rest) ↔
      ¬ lineBreak <:+: block line headers := by
    rw [← Occurrence.firstIndex_eq_none_iff, ← indexOf_zero, ← crlf_eq, ← htake]
    constructor
    · rintro ⟨headerEnd, hfound, hnone⟩
      rw [hblank, Option.some_inj] at hfound
      rwa [← hfound] at hnone
    · exact fun hnone => ⟨(block line headers).length, hblank, hnone⟩
  rw [hlone]
  cases headers with
  | nil => simpa [block] using hline
  | cons header rest =>
      rw [block_cons]
      exact iff_of_false (not_not.mpr ⟨line, block header rest, by simp⟩) (by simp)

section Answers

variable (qt : Qt) (peerAddress : String)

theorem header_of_incomplete {req : HttpRequest} {bodyPart : Bytes}
    (hincomplete : (parseBody qt peerAddress req bodyPart).1 = .incomplete) :
    (parseBody qt peerAddress req bodyPart).2.header qt "Content-Length" ≠ "" := by
  unfold parseBody at hincomplete ⊢
  simp only at hincomplete ⊢
  by_cases hgiven : (req.header qt "Content-Length").isEmpty = true
  · rw [if_neg (not_not.mpr hgiven)] at hincomplete
    contradiction
  · rw [if_pos hgiven] at hincomplete ⊢
    split at hincomplete
    · rename_i hshort
      rw [if_pos hshort]
      exact fun hempty => hgiven (by rw [hempty]; rfl)
    · contradiction

/-- With a blank line and a line break in front of it, the parser waits for a body only. -/
theorem header_of_waiting {data : Bytes} {headerEnd : Nat}
    (hblank : indexOf data blankLine 0 = some headerEnd) (hlone : ¬ LoneRequestLine data)
    (hincomplete : (parseRequest qt peerAddress {} data).1 = .incomplete) :
    (parseRequest qt peerAddress {} data).2.header qt "Content-Length" ≠ "" := by
  cases hfirst : indexOf (data.take headerEnd) crlf 0 with
  | none => exact absurd ⟨headerEnd, hblank, hfirst⟩ hlone
  | some firstLineEnd =>
      simp only [parseRequest, ascii_blankLine, hblank, hfirst] at hincomplete ⊢
      cases hline : parseRequestLine qt {} ((data.take headerEnd).take firstLineEnd) with
      | mk accepted req =>
      simp only [hline] at hincomplete ⊢
      cases accepted with
      | false => contradiction
      | true => exact header_of_incomplete qt peerAddress hincomplete

/-- A request of whole lines is answered, or waits for a body that a header announces, as soon as it has a
header line. -/
theorem answered_iff {line : Bytes} {headers : List Bytes} (hline : ¬ lineBreak <:+: line)
    (hheaders : ∀ header ∈ headers, IsLine header) :
    ((parseRequest qt peerAddress {} (requestBytes line headers)).1 = .incomplete →
      (parseRequest qt peerAddress {} (requestBytes line headers)).2.header qt "Content-Length" ≠ "") ↔
      headers ≠ [] := by
  have hblank := blankLine_requestBytes hline hheaders []
  have hiff := loneRequestLine_requestBytes hline hheaders []
  rw [List.append_nil] at hblank hiff
  rw [← not_iff_not, not_not, ← hiff]
  constructor
  · intro hwaiting
    by_contra hlone
    exact hwaiting (header_of_waiting qt peerAddress hblank hlone)
  · intro hlone hanswered
    refine hanswered (hlone.incomplete qt peerAddress {}) ?_
    obtain ⟨headerEnd, hblank, hnone⟩ := hlone
    simp only [parseRequest, ascii_blankLine, hblank, hnone]
    rfl

end Answers

/-- More bytes complete what the parser calls incomplete, except behind a request line that the blank line
follows at once: a request of a request line and header lines is answered, or waits for the body that a
header announces, exactly when it has a header line. -/
theorem incomplete_completable_iff (qt : Qt) (peerAddress : String) :
    (∀ data : Bytes, ((parseRequest qt peerAddress {} data).1 = .incomplete →
      ∃ more, more ≠ [] ∧ (parseRequest qt peerAddress {} (data ++ more)).1 ≠ .incomplete) ↔
        ¬ LoneRequestLine data) ∧
    ∀ (line : Bytes) (headers : List Bytes), ¬ lineBreak <:+: line →
      (∀ header ∈ headers, IsLine header) →
      (((parseRequest qt peerAddress {} (requestBytes line headers)).1 = .incomplete →
        (parseRequest qt peerAddress {} (requestBytes line headers)).2.header qt "Content-Length" ≠ "") ↔
          headers ≠ []) := by
  constructor
  · intro data
    rw [← exists_completion_iff qt peerAddress data]
    constructor
    · intro hcompletable
      by_cases hincomplete : (parseRequest qt peerAddress {} data).1 = .incomplete
      · exact hcompletable hincomplete
      · refine ⟨[0], by simp, ?_⟩
        rw [parseRequest_append qt peerAddress hincomplete]
        exact hincomplete
    · exact fun hexists _ => hexists
  · intro line headers hline hheaders
    exact answered_iff qt peerAddress hline hheaders

/-- A request with one header line. -/
def hostRequest : Bytes := requestBytes (ascii "GET / HTTP/1.1") [ascii "Host: a"]

theorem incomplete_completable_iff_hostRequest :
    (∃ more, more ≠ [] ∧ (parseRequest asciiQt "::1" {} (hostRequest.take 20 ++ more)).1 ≠ .incomplete) ∧
    ((parseRequest asciiQt "::1" {} hostRequest).1 = .incomplete →
      (parseRequest asciiQt "::1" {} hostRequest).2.header asciiQt "Content-Length" ≠ "") := by
  have hiff := incomplete_completable_iff asciiQt "::1"
  constructor
  · refine (hiff.1 (hostRequest.take 20)).mpr ?_ (by decide)
    rintro ⟨headerEnd, hblank, -⟩
    have hnone : indexOf (hostRequest.take 20) blankLine 0 = none := by decide
    rw [hnone] at hblank
    contradiction
  · refine (hiff.2 (ascii "GET / HTTP/1.1") [ascii "Host: a"] (by decide) ?_).mpr (by decide)
    intro header hheader
    rw [List.mem_singleton.mp hheader]
    exact ⟨by decide, by decide⟩

/-- A request line and a blank line, as a client without headers sends them. -/
def bareRequest : Bytes := requestBytes (ascii "GET / HTTP/1.1") []

/-- It is never answered. -/
theorem bareRequest_not_completable :
    (parseRequest asciiQt "::1" {} bareRequest).1 = .incomplete ∧
      ¬ ∃ more, more ≠ [] ∧ (parseRequest asciiQt "::1" {} (bareRequest ++ more)).1 ≠ .incomplete := by
  have hlone : LoneRequestLine bareRequest := ⟨14, by decide, by decide⟩
  exact ⟨hlone.incomplete asciiQt "::1" {},
    fun hexists => (exists_completion_iff asciiQt "::1" bareRequest).mp hexists hlone⟩

end SoulCoreKit.Server
