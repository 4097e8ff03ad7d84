import Mathlib.Algebra.Group.Nat.Defs
import SoulCoreKit.Lib.Run
import SoulCoreKit.Observability.Tracing
import SoulCoreKit.Proof.TextConversion

/-!
# A trace from service to service

Which headers are read and what is read from each, and what becomes of a trace along a chain of services. The
identifiers that are drawn are hexadecimal, so the header of a span reads as its context. A header that was
read has a trace identifier that can be handed on; a context without one makes a header that is too short,
and so the next service starts without a trace again.
-/

namespace SoulCoreKit.Observability

open SoulCoreKit.Lib
open JsonHelper Unicode

/-! ### Identifiers are hexadecimal -/

theorem mem_toDigits {n : Nat} {c : Char} (hc : c ∈ Nat.toDigits 16 n) :
    ∃ digit < 16, c = Nat.digitChar digit := by
  induction n using Nat.strongRecOn with
  | ind n ih =>
      rw [Nat.toDigits_eq_if (by decide)] at hc
      split_ifs at hc with hsmall
      · exact ⟨n, hsmall, List.mem_singleton.mp hc⟩
      · rcases List.mem_append.mp hc with hc | hc
        · exact ih (n / 16) (Nat.div_lt_self (by omega) (by decide)) hc
        · exact ⟨n % 16, Nat.mod_lt n (by decide), List.mem_singleton.mp hc⟩

theorem mem_hex {width n : Nat} {c : Char} (hc : c ∈ hex width n) :
    c.toNat < 128 ∧ c ≠ '-' := by
  have hdigit (digit : Nat) (hsmall : digit < 16) :
      (Nat.digitChar digit).toNat < 128 ∧ Nat.digitChar digit ≠ '-' := by
    revert digit
    decide
  rcases List.mem_append.mp hc with hc | hc
  · obtain rfl := List.eq_of_mem_replicate hc
    decide
  · obtain ⟨digit, hsmall, rfl⟩ := mem_toDigits hc
    exact hdigit digit hsmall

theorem length_hex {width n : Nat} (hwidth : 0 < width) (hn : n < 16 ^ width) :
    (hex width n).length = width := by
  rw [hex, List.length_leftpad, Nat.max_eq_left]
  exact (Nat.length_toDigits_le_iff (by decide) hwidth).mpr hn

/-- A text of a length, without a dash. -/
structure IsId (length : Nat) (id : QByteArray) : Prop where
  length_eq : id.length = length
  dashless : dash ∉ id
  isText : ∃ text, id = utf8 text

/-- An ASCII text without a dash has a byte for each character. -/
theorem IsId.of_ascii {text : List Char} (htext : ∀ c ∈ text, c.toNat < 128 ∧ c ≠ '-') :
    IsId text.length (utf8 text) := by
  have hbytes : utf8 text = text.map fun c => UInt8.ofNat c.toNat := by
    rw [utf8, ← List.flatMap_pure_eq_map]
    exact List.flatMap_congr fun c hc => utf8EncodeChar_of_ascii (htext c hc).1
  refine ⟨by rw [hbytes, List.length_map], fun hdash => ?_, text, rfl⟩
  rw [hbytes, List.mem_map] at hdash
  obtain ⟨c, hc, heq⟩ := hdash
  have hnat := congrArg UInt8.toNat heq
  simp only [UInt8.toNat_ofNat', dash, UInt8.reduceToNat] at hnat
  have hascii := (htext c hc).1
  exact (htext c hc).2 (Char.toNat_inj.mp (by change c.toNat = 45; omega))

theorem isId_generateSpanId (id : UInt64) : IsId 16 (generateSpanId id) := by
  have hlength : (hex 16 id.toNat).length = 16 := length_hex (by decide) id.toNat_lt
  exact hlength ▸ IsId.of_ascii fun c => mem_hex

theorem filter_toString (uuid : QUuid) :
    uuid.toString.filter (· ≠ '-') = hex 8 uuid.data1.toNat ++ hex 4 uuid.data2.toNat ++
      hex 4 uuid.data3.toNat ++ hex 16 uuid.data4.toNat := by
  have hkept {digits : List Char} {width n : Nat} (hsubset : digits ⊆ hex width n) :
      digits.filter (· ≠ '-') = digits :=
    List.filter_eq_self.mpr fun c hc => decide_eq_true (mem_hex (hsubset hc)).2
  have hdash (rest : List Char) : ('-' :: rest).filter (· ≠ '-') = rest.filter (· ≠ '-') :=
    List.filter_cons_of_neg (by decide)
  simp only [QUuid.toString, List.filter_append, hdash, hkept (List.Subset.refl _),
    hkept (List.take_subset 4 _), hkept (List.drop_subset 4 _), List.take_append_drop,
    List.append_assoc]

theorem isId_generateTraceId (uuid : QUuid) : IsId 32 (generateTraceId uuid) := by
  have hlength : (uuid.toString.filter (· ≠ '-')).length = 32 := by
    rw [filter_toString, List.length_append, List.length_append, List.length_append,
      length_hex (by decide) uuid.data1.toNat_lt, length_hex (by decide) uuid.data2.toNat_lt,
      length_hex (by decide) uuid.data3.toNat_lt, length_hex (by decide) uuid.data4.toNat_lt]
  have hid : IsId _ (utf8 (uuid.toString.filter (· ≠ '-'))) := .of_ascii fun c hc => by
    rw [filter_toString] at hc
    simp only [List.mem_append] at hc
    obtain ((hc | hc) | hc) | hc := hc <;> exact mem_hex hc
  exact hlength ▸ hid

/-! ### What is accepted -/

/-- The flags of a header and what follows them: nothing, or one dash. One character alone is too short. -/
structure EndsHeader (flags trailing : QByteArray) : Prop where
  dashless : dash ∉ flags
  nonempty : flags ≠ []
  trailing_eq : trailing = [] ∨ trailing = [dash]
  length_le : 2 ≤ flags.length + trailing.length

/-- The headers that are accepted, and what is read from each. -/
def Reads (header : QByteArray) (c : SpanContext) : Prop :=
  ∃ flags trailing,
    header = literal "00" ++ dash :: c.traceId ++ dash :: c.spanId ++ dash :: flags ++ trailing ∧
      (c.traceId.length = 32 ∧ dash ∉ c.traceId) ∧ (c.spanId.length = 16 ∧ dash ∉ c.spanId) ∧
        EndsHeader flags trailing ∧ c.parentSpanId = [] ∧ c.sampled = decide (flags = literal "01")

theorem wordsOf_eq_four_iff {header version traceId spanId flags : QByteArray} :
    wordsOf dash header = [version, traceId, spanId, flags] ↔
      dash ∉ version ∧ dash ∉ traceId ∧ dash ∉ spanId ∧ dash ∉ flags ∧ ∃ trailing,
        header = version ++ dash :: (traceId ++ dash :: (spanId ++ dash :: (flags ++ trailing))) ∧
          (trailing = [] ∧ flags ≠ [] ∨ trailing = [dash]) := by
  simp only [wordsOf_eq_cons_cons_iff, wordsOf_eq_singleton_iff]
  constructor
  · rintro ⟨hversion, _, rfl, htrace, _, rfl, hspan, _, rfl, hflags, trailing, rfl, htrailing⟩
    exact ⟨hversion, htrace, hspan, hflags, trailing, rfl, htrailing⟩
  · rintro ⟨hversion, htrace, hspan, hflags, trailing, rfl, htrailing⟩
    exact ⟨hversion, _, rfl, htrace, _, rfl, hspan, _, rfl, hflags, trailing, rfl, htrailing⟩

theorem Reads.parse {header : QByteArray} {c : SpanContext} (hreads : Reads header c) :
    parseTraceparent header = c := by
  obtain ⟨flags, trailing, rfl, ⟨htrace, htraceDash⟩, ⟨hspan, hspanDash⟩, hend, hparent, hsampled⟩ := hreads
  have hwords : wordsOf dash (literal "00" ++ dash :: c.traceId ++ dash :: c.spanId ++ dash :: flags ++
      trailing) = [literal "00", c.traceId, c.spanId, flags] := by
    rw [wordsOf_eq_four_iff]
    refine ⟨by decide, htraceDash, hspanDash, hend.dashless, trailing, by simp, ?_⟩
    exact hend.trailing_eq.imp_left fun hnone => ⟨hnone, hend.nonempty⟩
  have hlength := hend.length_le
  have htwo : (literal "00").length = 2 := by decide
  rw [parseTraceparent, if_neg (by simp [htrace, hspan, htwo]; omega), hwords]
  simp only [ne_eq, not_true_eq_false, if_false, htrace, hspan]
  cases c
  simp_all

theorem reads_of_parse {header : QByteArray} (hne : parseTraceparent header ≠ {}) :
    Reads header (parseTraceparent header) := by
  revert hne
  unfold parseTraceparent
  split_ifs with hshort
  · exact fun hne => absurd rfl hne
  split
  case h_2 => exact fun hne => absurd rfl hne
  case h_1 version traceId spanId flags hwords =>
    split_ifs with hversion htrace hspan
    case pos => exact fun hne => absurd rfl hne
    case pos => exact fun hne => absurd rfl hne
    case pos => exact fun hne => absurd rfl hne
    intro _
    rw [not_not] at hversion htrace hspan
    subst hversion
    obtain ⟨-, htraceDash, hspanDash, hflags, trailing, rfl, htrailing⟩ := wordsOf_eq_four_iff.mp hwords
    have hlength : 2 ≤ flags.length + trailing.length := by
      have htwo : (literal "00").length = 2 := by decide
      simp only [List.length_append, List.length_cons, htwo, htrace, hspan] at hshort
      omega
    refine ⟨flags, trailing, by simp, ⟨htrace, htraceDash⟩, ⟨hspan, hspanDash⟩, ⟨hflags, ?_, ?_, hlength⟩,
      rfl, rfl⟩
    · rintro rfl
      obtain ⟨-, hnone⟩ | rfl := htrailing
      · exact hnone rfl
      · exact absurd hlength (by decide)
    · exact htrailing.imp_left And.left

theorem Reads.ne {header : QByteArray} {c : SpanContext} (hreads : Reads header c) : c ≠ {} := by
  rintro rfl
  obtain ⟨_, _, _, ⟨hlength, -⟩, -⟩ := hreads
  cases hlength

/-- A header that is not of this form reads as the context that is not valid. -/
theorem parseTraceparent_eq_iff (header : QByteArray) (c : SpanContext) :
    parseTraceparent header = c ↔ Reads header c ∨ c = {} ∧ ∀ read, ¬ Reads header read := by
  constructor
  · rintro rfl
    by_cases hnone : parseTraceparent header = {}
    · exact .inr ⟨hnone, fun read hreads => hreads.ne (hreads.parse.symm.trans hnone)⟩
    · exact .inl (reads_of_parse hnone)
  · rintro (hreads | ⟨rfl, hnone⟩)
    · exact hreads.parse
    · by_contra hne
      exact hnone _ (reads_of_parse hne)

/-- Flags of one character are accepted where a dash follows them. -/
example :
    (parseTraceparent (literal "00-4bf92f3577b34da6a3ce929d0e0e4736-00f067aa0ba902b7-1-")).isValid := by
  decide

/-! ### Round trips -/

theorem formatTraceparent_eq (c : SpanContext) :
    formatTraceparent c = literal "00" ++ dash :: c.traceId ++ dash :: c.spanId ++
      dash :: literal (if c.sampled then "01" else "00") ++ [] := by
  have hstart : literal "00-" = literal "00" ++ [dash] := by decide
  have hdash : literal "-" = [dash] := by decide
  simp [formatTraceparent, hstart, hdash]

theorem parse_format {c : SpanContext} (htrace : IsId 32 c.traceId) (hspan : IsId 16 c.spanId) :
    parseTraceparent (formatTraceparent c) = { c with parentSpanId := [] } := by
  apply Reads.parse
  rw [formatTraceparent_eq]
  refine ⟨_, [], rfl, ⟨htrace.length_eq, htrace.dashless⟩, ⟨hspan.length_eq, hspan.dashless⟩, ?_, rfl, ?_⟩
  · cases c.sampled <;> exact ⟨by decide, by decide, .inl rfl, by decide⟩
  · cases c.sampled <;> decide

/-- A text in a header is what it was in a `std::string`, unless it begins with a mark. -/
theorem toUtf8_fromUtf8 {text : List Char} (hmark : text.head? ≠ some byteOrderMark) :
    toUtf8 (fromUtf8 (utf8 text)) = utf8 text := by
  rw [fromUtf8_eq, ofUtf8_utf8, dropMark_eq_self hmark, toUtf8, ofUtf16_utf16]

theorem extract_inject {span : Span} (headers : Headers) (htrace : ∃ text, span.mContext.traceId = utf8 text)
    (hspan : ∃ text, span.mContext.spanId = utf8 text) :
    extractFromHeaders (injectToHeaders (some span) headers) =
      parseTraceparent (formatTraceparent span.mContext) := by
  obtain ⟨traceText, htrace⟩ := htrace
  obtain ⟨spanText, hspan⟩ := hspan
  have htext : formatTraceparent span.mContext = utf8 ("00-".toList ++ traceText ++ "-".toList ++ spanText ++
      "-".toList ++ (if span.mContext.sampled then "01" else "00").toList) := by
    simp only [formatTraceparent, htrace, hspan, literal, utf8, List.flatMap_append]
  rw [extractFromHeaders, injectToHeaders, Finmap.lookup_insert]
  dsimp only
  rw [htext, toUtf8_fromUtf8]
  exact fun hmark => absurd (Option.some.inj hmark) (by decide)

theorem extract_inject_of_isId {span : Span} (headers : Headers) (htrace : IsId 32 span.mContext.traceId)
    (hspan : IsId 16 span.mContext.spanId) :
    extractFromHeaders (injectToHeaders (some span) headers) = { span.mContext with parentSpanId := [] } := by
  rw [extract_inject headers htrace.isText hspan.isText, parse_format htrace hspan]

/-- Without a trace identifier the header is too short. -/
theorem extract_inject_of_nil {span : Span} (headers : Headers) (htrace : span.mContext.traceId = [])
    (hspan : IsId 16 span.mContext.spanId) :
    extractFromHeaders (injectToHeaders (some span) headers) = {} := by
  rw [extract_inject headers ⟨[], htrace⟩ hspan.isText, parseTraceparent, if_pos]
  rw [formatTraceparent_eq, htrace]
  have hstart : (literal "00").length = 2 := by decide
  have hflags : (literal (if span.mContext.sampled then "01" else "00")).length = 2 := by
    cases span.mContext.sampled <;> decide
  simp only [List.length_append, List.length_cons, List.length_nil, hspan.length_eq, hstart, hflags]
  decide

/-- The identifiers in a header that is a text are texts. -/
theorem Reads.isText {text : List Char} {c : SpanContext} (hreads : Reads (utf8 text) c) :
    ∃ traceText, c.traceId = utf8 traceText := by
  obtain ⟨flags, trailing, hheader, -⟩ := hreads
  rw [List.append_assoc, List.append_assoc, List.cons_append] at hheader
  obtain ⟨start, -, -, hstart, -⟩ := @utf8_eq_append_cons '-' (by decide) _ _ _ hheader
  obtain ⟨-, traceText, -, -, htrace⟩ := @utf8_eq_append_cons '-' (by decide) _ _ _ hstart.symm
  exact ⟨traceText, htrace⟩

/-- What is read from a header that is accepted can be handed on. -/
theorem extract_cases (headers : Headers) :
    extractFromHeaders headers = {} ∨
      IsId 32 (extractFromHeaders headers).traceId ∧ (extractFromHeaders headers).isValid = true := by
  rw [extractFromHeaders]
  split
  case h_2 => exact .inl rfl
  case h_1 value _ =>
    refine Classical.or_iff_not_imp_left.mpr fun hne => ?_
    have hreads := reads_of_parse hne
    have htext := hreads.isText
    obtain ⟨-, -, -, ⟨htrace, htraceDash⟩, ⟨hspan, -⟩, -⟩ := hreads
    refine ⟨⟨htrace, htraceDash, htext⟩, ?_⟩
    rw [SpanContext.isValid, Bool.and_eq_true, List.isEmpty_eq_false_iff.mpr, List.isEmpty_eq_false_iff.mpr]
    · exact ⟨rfl, rfl⟩
    · exact List.ne_nil_of_length_pos (by omega)
    · exact List.ne_nil_of_length_pos (by omega)

/-! ### A call along the services -/

/-- The contexts of spans one inside the other. -/
def descend (c : SpanContext) : List QByteArray → List SpanContext
  | [] => []
  | id :: ids =>
      let child := { c with spanId := id, parentSpanId := c.spanId }
      child :: descend child ids

def SpanStart.spanId (start : SpanStart) : QByteArray := generateSpanId start.id

def Service.spanIds (service : Service) : List QByteArray := service.starts.map SpanStart.spanId

theorem descend_parentless (c : SpanContext) (ids : List QByteArray) :
    descend { c with parentSpanId := [] } ids = descend c ids := by
  cases ids <;> rfl

theorem contexts_nest (c : SpanContext) (starts : List SpanStart) :
    (nest c starts).map Span.mContext = descend c (starts.map SpanStart.spanId) := by
  induction starts generalizing c with
  | nil => rfl
  | cons start rest ih => exact congrArg (List.cons _) (ih _)

/-- What the innermost span is, from which all further ones descend. -/
structure Innermost (c : SpanContext) (starts : List SpanStart) (span : Span) : Prop where
  traceId : span.mContext.traceId = c.traceId
  spanId : IsId 16 span.mContext.spanId
  descends : ∀ ids, descend c (starts.map SpanStart.spanId ++ ids) =
    descend c (starts.map SpanStart.spanId) ++ descend span.mContext ids

theorem getLast?_nest (c : SpanContext) (start : SpanStart) (rest : List SpanStart) :
    ∃ span, (nest c (start :: rest)).getLast? = some span ∧ Innermost c (start :: rest) span := by
  induction rest generalizing c start with
  | nil => exact ⟨_, rfl, rfl, isId_generateSpanId start.id, fun ids => rfl⟩
  | cons second rest ih =>
      obtain ⟨span, hlast, htrace, hspan, hdescends⟩ :=
        ih (startSpanFrom start.id start.name c).mContext second
      refine ⟨span, ?_, htrace, hspan, fun ids => congrArg (List.cons _) (hdescends ids)⟩
      rw [nest, ← hlast]
      exact List.getLast?_cons_cons

theorem spans_serve (p : Propagation) (service : Service) :
    (serve p service).spans.map Span.mContext =
      p.spans.map Span.mContext ++ descend (extractFromHeaders p.headers) service.spanIds := by
  rw [serve, List.map_append, contexts_nest]
  rfl

theorem headers_serve (p : Propagation) (service : Service) :
    ∃ span, (serve p service).headers = injectToHeaders (some span) service.outgoing ∧
      Innermost (extractFromHeaders p.headers) service.starts span := by
  obtain ⟨span, hlast, hinnermost⟩ :=
    getLast?_nest (extractFromHeaders p.headers) service.outer service.inner
  exact ⟨span, by rw [serve, ← hlast]; rfl, hinnermost⟩

theorem spans_of_carried {c : SpanContext} (htrace : IsId 32 c.traceId) (services : List Service)
    (p : Propagation) (hc : extractFromHeaders p.headers = c) :
    (run serve p services).spans.map Span.mContext =
      p.spans.map Span.mContext ++ descend c (services.flatMap Service.spanIds) := by
  induction services generalizing p c with
  | nil => simp [descend]
  | cons service services ih =>
      obtain ⟨span, hheaders, hinnermost⟩ := headers_serve p service
      rw [hc] at hinnermost
      have htrace' : IsId 32 span.mContext.traceId := hinnermost.traceId ▸ htrace
      have hnext : extractFromHeaders (serve p service).headers =
          { span.mContext with parentSpanId := [] } := by
        rw [hheaders, extract_inject_of_isId service.outgoing htrace' hinnermost.spanId]
      calc (run serve p (service :: services)).spans.map Span.mContext
        _ = (serve p service).spans.map Span.mContext ++
              descend { span.mContext with parentSpanId := [] } (services.flatMap Service.spanIds) :=
            ih (c := { span.mContext with parentSpanId := [] }) htrace' _ hnext
        _ = p.spans.map Span.mContext ++ descend c service.spanIds ++
              descend span.mContext (services.flatMap Service.spanIds) := by
            rw [spans_serve, hc, descend_parentless]
        _ = p.spans.map Span.mContext ++ descend c ((service :: services).flatMap Service.spanIds) := by
            rw [List.flatMap_cons, Service.spanIds, hinnermost.descends, List.append_assoc]

theorem spans_of_untraced (services : List Service) (p : Propagation)
    (hnone : extractFromHeaders p.headers = {}) :
    (run serve p services).spans.map Span.mContext =
      p.spans.map Span.mContext ++ services.flatMap fun service => descend {} service.spanIds := by
  induction services generalizing p with
  | nil => simp
  | cons service services ih =>
      obtain ⟨span, hheaders, hinnermost⟩ := headers_serve p service
      rw [hnone] at hinnermost
      have hnext : extractFromHeaders (serve p service).headers = {} := by
        rw [hheaders, extract_inject_of_nil service.outgoing hinnermost.traceId hinnermost.spanId]
      rw [run_cons, ih _ hnext, spans_serve, hnone, List.flatMap_cons, List.append_assoc]

theorem contexts_of_entry (entry : Headers) (services : List Service) :
    let c := extractFromHeaders entry
    (run serve { headers := entry } services).spans.map Span.mContext =
      if c.isValid then descend c (services.flatMap Service.spanIds)
      else services.flatMap fun service => descend {} service.spanIds := by
  intro c
  obtain hnone | ⟨htrace, hvalid⟩ := extract_cases entry
  · have hinvalid : c.isValid = false := by
      rw [show c = {} from hnone]
      rfl
    rw [hinvalid, if_neg (by decide), spans_of_untraced services { headers := entry } hnone]
    rfl
  · rw [if_pos hvalid, spans_of_carried htrace services { headers := entry } rfl]
    rfl

/-- A service that is called with a valid header takes part in its trace, and each of those it calls in turn:
every span is the child of the one before, in its service or as the innermost of the service before. Where the
first is called without one there is no trace at all: no span has a trace identifier, and in each service the
outermost has no parent either. The header of a root span is valid. -/
theorem contexts_of_services (services : List Service) :
    (∀ entry,
        let c := extractFromHeaders entry
        (run serve { headers := entry } services).spans.map Span.mContext =
          if c.isValid then descend c (services.flatMap Service.spanIds)
          else services.flatMap fun service => descend {} service.spanIds) ∧
      ∀ uuid id name headers,
        let root := startSpan uuid id name
        (run serve { headers := injectToHeaders (some root) headers } services).spans.map Span.mContext =
          descend root.mContext (services.flatMap Service.spanIds) := by
  refine ⟨fun entry => contexts_of_entry entry services, fun uuid id name headers => ?_⟩
  have hroot : extractFromHeaders (injectToHeaders (some (startSpan uuid id name)) headers) =
      (startSpan uuid id name).mContext :=
    extract_inject_of_isId headers (isId_generateTraceId uuid) (isId_generateSpanId id)
  exact spans_of_carried (isId_generateTraceId uuid) services { headers := _ } hroot

end SoulCoreKit.Observability
