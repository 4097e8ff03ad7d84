import SoulCoreKit.Proof.Completable

/-!
# How long a request body is

A body is as long as the content length of the header block says. The parser takes the last of several
content lengths, and reads one that is no number as zero: it never refuses a header block for its content
lengths, so it frames bodies as it should exactly where they agree and are numbers.
-/

namespace SoulCoreKit.Server

open HttpMessage

section Fields

variable (qt : Qt)

/-- The name and the value in a header line. -/
def headerField (line : Bytes) : Option (String × String) :=
  (indexOf line (ascii ":") 0).bind fun colon =>
    if colon > 0 then
      some (qt.trimmed (qt.fromUtf8 (line.take colon)), qt.trimmed (qt.fromUtf8 (line.drop (colon + 1))))
    else none

/-- The values of the content length fields in some header lines. -/
def contentLengths (headers : List Bytes) : List String :=
  ((headers.filterMap (headerField qt)).filter fun field =>
    qt.toLower field.1 = qt.toLower "Content-Length").map (·.2)

theorem parseHeaderLine_eq (req : HttpRequest) (line : Bytes) :
    parseHeaderLine qt req line =
      (headerField qt line).elim req fun field => req.setHeader qt field.1 field.2 := by
  unfold parseHeaderLine headerField
  cases indexOf line (ascii ":") 0 with
  | none => rfl
  | some colon =>
      simp only [Option.bind_some]
      split <;> rfl

theorem header_setHeader (req : HttpRequest) (field : String × String) (key : String) :
    (req.setHeader qt field.1 field.2).header qt key =
      if qt.toLower field.1 = qt.toLower key then field.2 else req.header qt key := by
  unfold HttpRequest.setHeader HttpRequest.header
  rw [UnorderedMap.lookup_insert_ite]
  by_cases hsame : qt.toLower field.1 = qt.toLower key
  · rw [if_pos hsame.symm, if_pos hsame, Option.getD_some]
  · rw [if_neg fun heq => hsame heq.symm, if_neg hsame]

/-- The last content length stays. -/
theorem header_foldl (headers : List Bytes) (req : HttpRequest) :
    (headers.foldl (parseHeaderLine qt) req).header qt "Content-Length" =
      ((contentLengths qt headers).getLast?).getD (req.header qt "Content-Length") := by
  induction headers generalizing req with
  | nil => rfl
  | cons line headers ih =>
      rw [List.foldl_cons, ih, parseHeaderLine_eq]
      unfold contentLengths
      cases hfield : headerField qt line with
      | none => simp [hfield]
      | some field =>
          rw [Option.elim_some, header_setHeader, List.filterMap_cons_some hfield]
          by_cases hsame : qt.toLower field.1 = qt.toLower "Content-Length"
          · simp [hsame, List.getLast?_cons]
          · simp [hsame]

theorem parseHeaderLines_end {headerLines : Bytes} {pos : Nat} (hpos : headerLines.length ≤ pos)
    (fuel : Nat) (req : HttpRequest) : parseHeaderLines qt headerLines fuel pos req = req := by
  cases fuel with
  | zero => rfl
  | succ fuel => rw [parseHeaderLines, if_neg (by omega)]

theorem indexOf_front (front bytes : Bytes) : indexOf (front ++ bytes) crlf front.length =
    (Occurrence.firstIndex lineBreak bytes).map (· + front.length) := by
  rw [indexOf, List.drop_left, crlf_eq]

/-- One pass of the header loop. -/
theorem parseHeaderLines_line {front line rest : Bytes} (hline : line ≠ [])
    (hend : (indexOf (front ++ (line ++ rest)) crlf front.length).getD (front ++ (line ++ rest)).length =
      front.length + line.length) (fuel : Nat) (req : HttpRequest) :
    parseHeaderLines qt (front ++ (line ++ rest)) (fuel + 1) front.length req =
      parseHeaderLines qt (front ++ (line ++ rest)) fuel (front.length + line.length + 2)
        (parseHeaderLine qt req line) := by
  have hpositive := List.length_pos_iff.mpr hline
  have htake : ((front ++ (line ++ rest)).drop front.length).take
      (front.length + line.length - front.length) = line := by
    rw [List.drop_left, Nat.add_sub_cancel_left, List.take_left]
  have hnotEmpty : ¬ line.isEmpty = true := by simpa using hline
  rw [parseHeaderLines, if_pos (by simp only [List.length_append]; omega)]
  simp only [hend, htake, if_neg hnotEmpty]

/-- The header loop takes the lines of a block in turn. -/
theorem parseHeaderLines_block {line : Bytes} {others : List Bytes} (hline : IsLine line)
    (hothers : ∀ other ∈ others, IsLine other) {front : Bytes} {fuel : Nat}
    (hfuel : (block line others).length ≤ fuel) (req : HttpRequest) :
    parseHeaderLines qt (front ++ block line others) fuel front.length req =
      (line :: others).foldl (parseHeaderLine qt) req := by
  induction others generalizing line front fuel req with
  | nil =>
      have hpositive := List.length_pos_iff.mpr hline.1
      rw [block, List.flatMap_nil] at hfuel ⊢
      obtain ⟨fuel, rfl⟩ := Nat.exists_eq_succ_of_ne_zero (n := fuel) (by simp at hfuel; omega)
      have hend : (indexOf (front ++ (line ++ [])) crlf front.length).getD
          (front ++ (line ++ [])).length = front.length + line.length := by
        rw [indexOf_front, List.append_nil, Occurrence.firstIndex_eq_none_iff.mpr hline.2]
        exact List.length_append
      rw [parseHeaderLines_line qt hline.1 hend, parseHeaderLines_end qt (by simp)]
      rfl
  | cons next others ih =>
      obtain ⟨hnext, hothers⟩ := List.forall_mem_cons.mp hothers
      have htwo : lineBreak.length = 2 := rfl
      rw [block_cons] at hfuel ⊢
      rw [List.length_append, List.length_append] at hfuel
      obtain ⟨fuel, rfl⟩ := Nat.exists_eq_succ_of_ne_zero (n := fuel) (by omega)
      have hend : (indexOf (front ++ (line ++ (lineBreak ++ block next others))) crlf
          front.length).getD (front ++ (line ++ (lineBreak ++ block next others))).length =
            front.length + line.length := by
        rw [indexOf_front, firstIndex_lineBreak hline.2, Option.map_some, Option.getD_some, Nat.add_comm]
      have hfront : front ++ (line ++ (lineBreak ++ block next others)) =
          front ++ line ++ lineBreak ++ block next others := by
        simp only [List.append_assoc]
      have hposition : front.length + line.length + 2 = (front ++ line ++ lineBreak).length := by
        simp only [List.length_append, htwo]
      rw [parseHeaderLines_line qt hline.1 hend, hfront, hposition, ih hnext hothers (by omega)]
      rfl

/-- A request that starts with whole lines. -/
theorem parseRequest_requestBytes (peerAddress : String) {line header : Bytes} {headers : List Bytes}
    (hline : ¬ lineBreak <:+: line) (hheaders : ∀ other ∈ header :: headers, IsLine other)
    (rest : Bytes) (req : HttpRequest) :
    parseRequest qt peerAddress req (requestBytes line (header :: headers) ++ rest) =
      if (parseRequestLine qt req line).1 then
        parseBody qt peerAddress
          ((header :: headers).foldl (parseHeaderLine qt) (parseRequestLine qt req line).2) rest
      else (.badRequest, (parseRequestLine qt req line).2) := by
  have hblank := blankLine_requestBytes hline hheaders rest
  have htake : (requestBytes line (header :: headers) ++ rest).take
      (block line (header :: headers)).length = line ++ (lineBreak ++ block header headers) := by
    rw [requestBytes, List.append_assoc, List.take_left, block_cons]
  have hdrop : (requestBytes line (header :: headers) ++ rest).drop
      ((block line (header :: headers)).length + 4) = rest := by
    rw [requestBytes]
    exact List.drop_left' (by simp [blankLine])
  have hfirst : indexOf (line ++ (lineBreak ++ block header headers)) crlf 0 = some line.length := by
    rw [indexOf_zero, crlf_eq, firstIndex_lineBreak hline]
  have hlines : (line ++ (lineBreak ++ block header headers)).drop (line.length + 2) =
      block header headers := by
    rw [← List.append_assoc]
    exact List.drop_left' (by simp [lineBreak])
  obtain ⟨hheader, hothers⟩ := List.forall_mem_cons.mp hheaders
  have hloop (req : HttpRequest) := @parseHeaderLines_block qt _ _ hheader hothers [] _ le_rfl req
  simp only [List.nil_append, List.length_nil] at hloop
  simp only [parseRequest, ascii_blankLine, hblank, htake, hdrop, hfirst, List.take_left, hlines, hloop]
  cases hparsed : parseRequestLine qt req line with
  | mk accepted parsed => cases accepted <;> rfl

end Fields

/-! ### What the framing has to be -/

/-- A decimal number that fits an `int`. -/
def Denotes (value : String) (n : Nat) : Prop :=
  value ≠ "" ∧ (∀ c ∈ value.toList, c.isDigit = true) ∧ Nat.ofDigitChars 10 value.toList 0 = n ∧
    n < 2 ^ 31

/-- There is no content length, or they all are the same number. -/
def Consistent (values : List String) : Prop := ∃ n, ∀ value ∈ values, Denotes value n

def requestLine (data : Bytes) : Bytes := ((readLines [] data).bind fun read => read.1.head?).getD []

def headerBlock (data : Bytes) : List Bytes := ((readLines [] data).map fun read => read.1.tail).getD []

def afterBlankLine (data : Bytes) : Bytes := ((readLines [] data).map fun read => read.2).getD []

section Framing

variable (qt : Qt) (peerAddress : String)

/-- A request that is taken has the body its header block announces, and header blocks that announce no
length or several are refused. -/
structure FramedBody (data : Bytes) : Prop where
  body : ∀ req, parseRequest qt peerAddress {} data = (.ok, req) →
    contentLengths qt (headerBlock data) = [] ∧ req.mBody = [] ∨
    contentLengths qt (headerBlock data) ≠ [] ∧
      ∃ n, (∀ value ∈ contentLengths qt (headerBlock data), Denotes value n) ∧
        n ≤ (afterBlankLine data).length ∧ req.mBody = (afterBlankLine data).take n
  refused : ¬ Consistent (contentLengths qt (headerBlock data)) →
    (parseRequest qt peerAddress {} data).1 = .badRequest

theorem parseRequestLine_nil (req : HttpRequest) : parseRequestLine qt req [] = (false, req) := rfl

theorem header_parseRequestLine (req : HttpRequest) (line : Bytes) (key : String) :
    (parseRequestLine qt req line).2.header qt key = req.header qt key := by
  unfold parseRequestLine
  split
  · split <;> rfl
  · rfl

theorem readLines_lineBreak (rest : Bytes) : readLines [] (lineBreak ++ rest) = some ([], rest) := rfl

/-- Bytes start with a request line and header lines, or no request with header lines is in them. -/
theorem whole_or_not_ok (data : Bytes) :
    (headerBlock data = [] ∧ ∀ req, parseRequest qt peerAddress {} data ≠ (.ok, req)) ∨
      ∃ line header headers rest, data = requestBytes line (header :: headers) ++ rest ∧ IsLine line ∧
        ∀ other ∈ header :: headers, IsLine other := by
  by_cases hblank : blankLine <:+: data
  · obtain ⟨line, others, rest, hdata, hline, hothers⟩ := exists_head hblank
    have hrequest : data = requestBytes line others ++ rest := by
      rw [hdata, requestBytes, List.append_assoc]
    subst hrequest
    cases others with
    | nil =>
        refine Or.inl ⟨?_, fun req hok => ?_⟩
        · by_cases hempty : line = []
          · subst hempty
            rfl
          · rw [headerBlock, requestBytes, List.append_assoc, readLines_block ⟨hempty, hline⟩ hothers]
            rfl
        · have hlone := (loneRequestLine_requestBytes hline hothers rest).mpr rfl
          have hincomplete := hlone.incomplete qt peerAddress {}
          rw [hok] at hincomplete
          contradiction
    | cons header headers =>
        by_cases hempty : line = []
        · subst hempty
          refine Or.inl ⟨?_, fun req hok => ?_⟩
          · rw [headerBlock, requestBytes, List.append_assoc, block_cons, List.nil_append,
              List.append_assoc, readLines_lineBreak]
            rfl
          · rw [parseRequest_requestBytes qt peerAddress hline hothers, parseRequestLine_nil] at hok
            exact absurd hok (by simp)
        · exact Or.inr ⟨line, header, headers, rest, rfl, ⟨hempty, hline⟩, hothers⟩
  · refine Or.inl ⟨?_, fun req hok => ?_⟩
    · unfold headerBlock
      cases hread : readLines [] data with
      | none => rfl
      | some read =>
          obtain ⟨lines, rest⟩ := read
          cases lines with
          | nil => rfl
          | cons first others => exact absurd (blankLine_of_readLines hread) hblank
    · rw [← Occurrence.firstIndex_eq_none_iff, ← indexOf_zero] at hblank
      simp [parseRequest, ascii_blankLine, hblank] at hok

theorem parseBody_ne_badRequest (req : HttpRequest) (bodyPart : Bytes) :
    (parseBody qt peerAddress req bodyPart).1 ≠ .badRequest := by
  unfold parseBody
  simp only
  split
  · split <;> simp
  · simp

/-- With content lengths that agree, the body is what they say. -/
theorem body_of_consistent (hdecimal : ∀ value n, Denotes value n → qt.toInt value = n)
    {values : List String} (hvalues : Consistent values) {req taken : HttpRequest} {bodyPart : Bytes}
    (hheader : req.header qt "Content-Length" = values.getLast?.getD "")
    (hok : parseBody qt peerAddress req bodyPart = (.ok, taken)) :
    values = [] ∧ taken.mBody = [] ∨
      values ≠ [] ∧ ∃ n, (∀ value ∈ values, Denotes value n) ∧ n ≤ bodyPart.length ∧
        taken.mBody = bodyPart.take n := by
  obtain ⟨n, hn⟩ := hvalues
  unfold parseBody at hok
  simp only [hheader] at hok
  obtain rfl | ⟨front, last, rfl⟩ := List.eq_nil_or_concat' values
  · obtain ⟨-, rfl⟩ := Prod.mk.inj hok
    exact Or.inl ⟨rfl, rfl⟩
  · have hlast := hn last (by simp)
    have hgiven : ¬ last.isEmpty = true := by
      rw [String.isEmpty_iff]
      exact hlast.1
    rw [List.getLast?_concat, Option.getD_some, if_pos hgiven, hdecimal last n hlast] at hok
    refine Or.inr ⟨by simp, n, hn, ?_⟩
    by_cases hshort : (bodyPart.length : Int) < n
    · rw [if_pos hshort] at hok
      exact absurd (Prod.mk.inj hok).1 (by simp)
    · rw [if_neg hshort] at hok
      obtain ⟨-, rfl⟩ := Prod.mk.inj hok
      exact ⟨by omega, rfl⟩

/-- Bodies are framed as the header block says exactly where the content lengths agree on a number, or
where the request line is refused anyway. -/
theorem framedBody_iff (hdecimal : ∀ value n, Denotes value n → qt.toInt value = n) (data : Bytes) :
    FramedBody qt peerAddress data ↔
      Consistent (contentLengths qt (headerBlock data)) ∨
        (parseRequestLine qt {} (requestLine data)).1 = false := by
  obtain ⟨hheaders, hnotOk⟩ | ⟨line, header, headers, rest, rfl, hline, hheaders⟩ :=
    whole_or_not_ok qt peerAddress data
  · have hconsistent : Consistent (contentLengths qt (headerBlock data)) := by
      rw [hheaders]
      exact ⟨0, by simp [contentLengths]⟩
    refine iff_of_true ?_ (Or.inl hconsistent)
    exact ⟨fun req hok => absurd hok (hnotOk req), fun hnot => absurd hconsistent hnot⟩
  · have hread : readLines [] (requestBytes line (header :: headers) ++ rest) =
        some (line :: header :: headers, rest) := by
      rw [requestBytes, List.append_assoc, readLines_block hline hheaders]
    have hrequestLine : requestLine (requestBytes line (header :: headers) ++ rest) = line := by
      rw [requestLine, hread]
      rfl
    have hblock : headerBlock (requestBytes line (header :: headers) ++ rest) = header :: headers := by
      rw [headerBlock, hread]
      rfl
    have hafter : afterBlankLine (requestBytes line (header :: headers) ++ rest) = rest := by
      rw [afterBlankLine, hread]
      rfl
    have hparse := parseRequest_requestBytes qt peerAddress hline.2 hheaders rest {}
    rw [hrequestLine]
    cases haccepted : (parseRequestLine qt {} line).1 with
    | false =>
        rw [haccepted, if_neg (by simp)] at hparse
        refine iff_of_true ⟨fun req hok => ?_, fun _ => by rw [hparse]⟩ (Or.inr rfl)
        rw [hparse] at hok
        exact absurd (Prod.mk.inj hok).1 (by simp)
    | true =>
        rw [haccepted, if_pos rfl] at hparse
        rw [or_iff_left (by simp)]
        constructor
        · intro hframed
          by_contra hnot
          have hrefused := hframed.refused hnot
          rw [hparse] at hrefused
          exact parseBody_ne_badRequest qt peerAddress _ rest hrefused
        · intro hconsistent
          refine ⟨fun req hok => ?_, fun hnot => absurd hconsistent hnot⟩
          rw [hparse] at hok
          rw [hblock] at hconsistent ⊢
          rw [hafter]
          refine body_of_consistent qt peerAddress hdecimal hconsistent ?_ hok
          rw [header_foldl, header_parseRequestLine]
          rfl

end Framing

theorem asciiQt_toInt {value : String} {n : Nat} (hvalue : Denotes value n) : asciiQt.toInt value = n := by
  obtain ⟨-, hdigits, rfl, -⟩ := hvalue
  have hfold (digits : List Char) (start : Nat) (hdigits : ∀ c ∈ digits, c.isDigit = true) :
      digits.foldl (fun n digit => 10 * n + ((digit.toNat : Int) - 48)) (start : Int) =
        (Nat.ofDigitChars 10 digits start : Nat) := by
    induction digits generalizing start with
    | nil => simp
    | cons c digits ih =>
        obtain ⟨hc, hdigits⟩ := List.forall_mem_cons.mp hdigits
        have hzero : '0'.toNat = 48 := rfl
        have hlow : 48 ≤ c.toNat := by
          simp only [Char.isDigit, Bool.and_eq_true, decide_eq_true_eq, ge_iff_le,
            UInt32.le_iff_toNat_le] at hc
          exact hc.1
        have hstep : 10 * (start : Int) + ((c.toNat : Int) - 48) =
            ((10 * start + (c.toNat - '0'.toNat) : Nat) : Int) := by
          rw [hzero]
          omega
        rw [List.foldl_cons, hstep, ih _ hdigits, Nat.ofDigitChars_cons]
  exact hfold value.toList 0 hdigits

/-- A request with a body of two bytes. -/
def postRequest : Bytes := requestBytes (ascii "POST / HTTP/1.1") [ascii "Content-Length: 2"] ++ ascii "hi"

theorem framedBody_postRequest : FramedBody asciiQt "::1" postRequest := by
  refine (framedBody_iff asciiQt "::1" (fun _ _ hvalue => asciiQt_toInt hvalue) postRequest).mpr (Or.inl ?_)
  have hvalues : contentLengths asciiQt (headerBlock postRequest) = ["2"] := by decide
  rw [hvalues]
  refine ⟨2, fun value hvalue => ?_⟩
  rw [List.mem_singleton.mp hvalue]
  exact ⟨by decide, List.all_eq_true.mp (by decide), by decide, by decide⟩

/-- Two content lengths, of which the first announces the two bytes behind the blank line. -/
def twoLengths : Bytes :=
  requestBytes (ascii "POST / HTTP/1.1") [ascii "Content-Length: 2", ascii "Content-Length: 0"] ++ ascii "hi"

/-- The request is taken with no body. -/
theorem twoLengths_not_framed :
    (parseRequest asciiQt "::1" {} twoLengths).1 = .ok ∧
      (parseRequest asciiQt "::1" {} twoLengths).2.mBody = [] ∧ ¬ FramedBody asciiQt "::1" twoLengths := by
  have hok : (parseRequest asciiQt "::1" {} twoLengths).1 = .ok := by decide
  refine ⟨hok, by decide, fun hframed => ?_⟩
  have hvalues : contentLengths asciiQt (headerBlock twoLengths) = ["2", "0"] := by decide
  have hrefused := hframed.refused ?_
  · rw [hok] at hrefused
    contradiction
  · rw [hvalues]
    rintro ⟨n, hn⟩
    have htwo : Nat.ofDigitChars 10 "2".toList 0 = n := (hn "2" (by simp)).2.2.1
    have hzero : Nat.ofDigitChars 10 "0".toList 0 = n := (hn "0" (by simp)).2.2.1
    rw [← hzero] at htwo
    exact absurd htwo (by decide)

end SoulCoreKit.Server
