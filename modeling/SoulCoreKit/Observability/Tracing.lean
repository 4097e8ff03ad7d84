import SoulCoreKit.Lib.SeparatedText
import SoulCoreKit.Lib.UnorderedMap
import SoulCoreKit.Utils.JsonHelper

/-!
# Distributed tracing

`Tracer`, and a call that goes from one service to the next. A `std::string` is its bytes. What
`QUuid::createUuid` and the random generator deliver is any value. Of a span only its context and its name
are modelled.
-/

namespace SoulCoreKit.Observability

open SoulCoreKit.Lib
open JsonHelper Unicode

structure SpanContext where
  traceId : QByteArray := []
  spanId : QByteArray := []
  parentSpanId : QByteArray := []
  sampled : Bool := true
  deriving DecidableEq, Repr

def SpanContext.isValid (c : SpanContext) : Bool := !c.traceId.isEmpty && !c.spanId.isEmpty

structure Span where
  mContext : SpanContext
  mName : String
  deriving DecidableEq, Repr

structure QUuid where
  data1 : UInt32
  data2 : UInt16
  data3 : UInt16
  data4 : UInt64
  deriving DecidableEq, Repr

abbrev Headers := UnorderedMap QString QString

/-- The bytes of a literal. -/
def literal (text : String) : QByteArray := utf8 text.toList

/-! ### Identifiers -/

/-- `std::setw(width)` with `std::setfill('0')` and `std::hex`. -/
def hex (width n : Nat) : List Char := (Nat.toDigits 16 n).leftpad width '0'

/-- `QUuid::toString(QUuid::WithoutBraces)`. -/
def QUuid.toString (uuid : QUuid) : List Char :=
  let data4 := hex 16 uuid.data4.toNat
  hex 8 uuid.data1.toNat ++ '-' :: hex 4 uuid.data2.toNat ++ '-' :: hex 4 uuid.data3.toNat ++
    '-' :: data4.take 4 ++ '-' :: data4.drop 4

def generateTraceId (uuid : QUuid) : QByteArray := utf8 (uuid.toString.filter (· ≠ '-'))

def generateSpanId (id : UInt64) : QByteArray := utf8 (hex 16 id.toNat)

/-! ### The header -/

def dash : UInt8 := 0x2D

def parseTraceparent (header : QByteArray) : SpanContext :=
  if header.length < 55 then
    {}
  else
    match wordsOf dash header with
    | [version, traceId, spanId, flags] =>
        if version ≠ literal "00" then {}
        else if traceId.length ≠ 32 then {}
        else if spanId.length ≠ 16 then {}
        else { traceId, spanId, sampled := flags = literal "01" }
    | _ => {}

def formatTraceparent (c : SpanContext) : QByteArray :=
  literal "00-" ++ c.traceId ++ literal "-" ++ c.spanId ++ literal "-" ++
    literal (if c.sampled then "01" else "00")

def headerName : QString := utf16 "traceparent".toList

def extractFromHeaders (headers : Headers) : SpanContext :=
  match headers.lookup headerName with
  | some value => parseTraceparent (toUtf8 value)
  | none => {}

def injectToHeaders (span : Option Span) (headers : Headers) : Headers :=
  match span with
  | none => headers
  | some span => headers.insert headerName (fromUtf8 (formatTraceparent span.mContext))

/-! ### Spans -/

def startSpan (uuid : QUuid) (id : UInt64) (name : String) : Span where
  mContext := { traceId := generateTraceId uuid, spanId := generateSpanId id }
  mName := name

def startSpanFrom (id : UInt64) (name : String) (parent : SpanContext) : Span where
  mContext :=
    { traceId := parent.traceId
      spanId := generateSpanId id
      parentSpanId := parent.spanId
      sampled := parent.sampled }
  mName := name

/-! ### From service to service -/

/-- What `startSpan` is given, and what it draws. -/
structure SpanStart where
  name : String
  id : UInt64
  deriving DecidableEq, Repr

/-- A service that is called: the span it starts from the headers, those it starts within that one, each in
the one before, and the headers it calls the next service with. -/
structure Service where
  outer : SpanStart
  inner : List SpanStart := []
  outgoing : Headers

def Service.starts (service : Service) : List SpanStart := service.outer :: service.inner

/-- The headers the next service is called with, and the spans of those before it. -/
structure Propagation where
  headers : Headers
  spans : List Span := []

/-- Spans one inside the other. -/
def nest (parent : SpanContext) : List SpanStart → List Span
  | [] => []
  | start :: rest =>
      let span := startSpanFrom start.id start.name parent
      span :: nest span.mContext rest

/-- A service starts its spans from the headers it is called with, and hands on the innermost. -/
def serve (p : Propagation) (service : Service) : Propagation :=
  let spans := nest (extractFromHeaders p.headers) service.starts
  { headers := injectToHeaders spans.getLast? service.outgoing, spans := p.spans ++ spans }

end SoulCoreKit.Observability
