import Mathlib.Algebra.Order.Field.Rat
import SoulCoreKit.Lib.BinarySearch
import SoulCoreKit.Utils.JsonHelper

/-!
# Metrics

`Histogram` and its snapshot, and what `PrometheusExporter` makes of it. The values are of any linearly
ordered type, in place of `double`, rational where the code divides, and a `std::string` is the list of its
characters.
-/

namespace SoulCoreKit.Observability

open SoulCoreKit.Lib

variable {α : Type} [LinearOrder α] [Zero α] [Add α]

/-- The upper bounds of the buckets but the last. -/
structure HistogramBuckets (α : Type) where
  boundaries : List α
  deriving DecidableEq, Repr

def HistogramBuckets.bucketCount (buckets : HistogramBuckets α) : Nat := buckets.boundaries.length + 1

structure HistogramSnapshot (α : Type) where
  min : α
  max : α
  sum : α
  count : UInt64
  bucketCounts : List UInt64
  boundaries : List α
  deriving DecidableEq

namespace HistogramSnapshot

variable (s : HistogramSnapshot Rat)

/-- The estimate from the `i`-th bucket. The indices that are read are in range. -/
def interpolate (target : Rat) (i : Nat) (cumulative bucketCount : UInt64) : Rat :=
  let bucketStart := if i = 0 then s.min else s.boundaries[i - 1]?.getD s.max
  let bucketEnd := if i < s.boundaries.length then s.boundaries[i]?.getD s.max else s.max
  let prevCumulative := cumulative - bucketCount
  let bucketFraction : Rat := bucketCount.toNat
  if bucketFraction ≤ 0 then
    bucketEnd
  else
    bucketStart + (target - prevCumulative.toNat) / bucketFraction * (bucketEnd - bucketStart)

/-- The loop over the buckets from `i` on. -/
def quantileFrom (target : Rat) (i : Nat) (cumulative : UInt64) : List UInt64 → Rat
  | [] => s.max
  | bucketCount :: rest =>
      let cumulative := cumulative + bucketCount
      if (cumulative.toNat : Rat) ≥ target then
        s.interpolate target i cumulative bucketCount
      else
        quantileFrom target (i + 1) cumulative rest

def quantile (q : Rat) : Rat :=
  if q < 0 ∨ q > 1 then 0
  else if s.count = 0 then 0
  else s.quantileFrom (q * s.count.toNat) 0 0 s.bucketCounts

end HistogramSnapshot

structure Histogram (α : Type) where
  mName : List Char
  mHelp : List Char
  mBuckets : HistogramBuckets α
  mMin : α
  mMax : α
  mSum : α
  mCount : UInt64
  mBucketCounts : List UInt64
  deriving DecidableEq

/-- What `std::invalid_argument` says. -/
inductive HistogramError where
  | invalidArgument (what : String)
  deriving DecidableEq, Repr

/-- The loop of the constructor. -/
def isAscending : List α → Bool
  | previous :: next :: rest => !(next ≤ previous) && isAscending (next :: rest)
  | _ => true

namespace Histogram

/-- The constructor. -/
def new (name help : List Char) (buckets : HistogramBuckets α) : Except HistogramError (Histogram α) :=
  if buckets.boundaries.isEmpty then
    .error (.invalidArgument "Histogram: buckets.boundaries must not be empty")
  else if !isAscending buckets.boundaries then
    .error (.invalidArgument "Histogram: buckets.boundaries must be strictly ascending")
  else
    .ok {
      mName := name
      mHelp := help
      mBuckets := buckets
      mMin := 0
      mMax := 0
      mSum := 0
      mCount := 0
      mBucketCounts := List.replicate buckets.bucketCount 0 }

variable (h : Histogram α)

def findBucket (value : α) : Nat := lowerBound h.mBuckets.boundaries value

/-- The counts, made where there are none yet. -/
def initialised : List UInt64 :=
  if h.mBucketCounts.isEmpty then List.replicate h.mBuckets.bucketCount 0 else h.mBucketCounts

def observe (value : α) : Histogram α :=
  { h with
    mMin := if h.mCount = 0 then value else min h.mMin value
    mMax := if h.mCount = 0 then value else max h.mMax value
    mSum := h.mSum + value
    mCount := h.mCount + 1
    mBucketCounts := h.initialised.modify (h.findBucket value) (· + 1) }

def snapshot : HistogramSnapshot α where
  min := h.mMin
  max := h.mMax
  sum := h.mSum
  count := h.mCount
  bucketCounts := h.initialised
  boundaries := h.mBuckets.boundaries

end Histogram

end SoulCoreKit.Observability

/-!
### The text for Prometheus

`exportHistogram` and `formatLabels` of `PrometheusExporter`. What is written is a list of characters. The
functions look at ASCII characters alone, so that this is the same for the bytes of UTF-8. A `std::map` is the
list of its entries in the order of the keys.
-/

namespace SoulCoreKit.Observability

open SoulCoreKit.JsonHelper

/-- A `case` of the loop in `escapeLabelValue`. -/
def escapeLabelChar (c : Char) : List Char :=
  if c = '\x5c' then ['\x5c', '\x5c']
  else if c = '\x22' then ['\x5c', '\x22']
  else if c = '\n' then ['\x5c', 'n']
  else [c]

def escapeLabelValue (value : List Char) : List Char := value.flatMap escapeLabelChar

/-- A `case` of the loop in `escapeHelpText`. -/
def escapeHelpChar (c : Char) : List Char :=
  if c = '\x5c' then ['\x5c', '\x5c']
  else if c = '\n' then ['\x5c', 'n']
  else [c]

def escapeHelpText (text : List Char) : List Char := text.flatMap escapeHelpChar

abbrev Labels := List (QString × QString)

def formatLabel (label : QString × QString) : List Char :=
  (toStdString label.1).toList ++ '=' :: '\x22' :: (escapeLabelValue (toStdString label.2).toList ++ ['\x22'])

/-- The loop of `formatLabels`. -/
def formatEntries (first : Bool) : Labels → List Char
  | [] => []
  | label :: rest => (if first then [] else [',']) ++ (formatLabel label ++ formatEntries false rest)

def formatLabels (labels : Labels) : List Char :=
  if labels.isEmpty then [] else '\x7b' :: (formatEntries true labels ++ ['\x7d'])

/-! ### Histograms -/

section

variable {α : Type}

/-- What `oss << n` writes. -/
def decimal (n : UInt64) : List Char := Nat.toDigits 10 n.toNat

/-- A line for a bucket. -/
def bucketLine (name le : List Char) (cumulative : UInt64) : List Char :=
  name ++ "_bucket\x7ble=\"".toList ++ le ++ "\"\x7d ".toList ++ decimal cumulative ++ ['\n']

/-- The loop over the buckets from `i` on. -/
def bucketLines (toString : α → List Char) (name : List Char) (boundaries : List α) (i : Nat)
    (cumulative : UInt64) : List UInt64 → List Char
  | [] => []
  | bucketCount :: rest =>
      let cumulative := cumulative + bucketCount
      let le := match boundaries[i]? with
        | some boundary => toString boundary
        | none => "+Inf".toList
      bucketLine name le cumulative ++ bucketLines toString name boundaries (i + 1) cumulative rest

/-- What stands around the lines of the buckets. -/
def histogramText (name help lines sum count : List Char) : List Char :=
  "# HELP ".toList ++ name ++ [' '] ++ escapeHelpText help ++ ['\n'] ++
    "# TYPE ".toList ++ name ++ " histogram\n".toList ++
    lines ++
    name ++ "_sum ".toList ++ sum ++ ['\n'] ++
    name ++ "_count ".toList ++ count ++ ['\n'] ++ ['\n']

/-- `toString` is `std::to_string`, `put` is `oss << value`. -/
def exportHistogram (toString put : α → List Char) (histogram : Histogram α) : List Char :=
  let snap := histogram.snapshot
  histogramText histogram.mName histogram.mHelp
    (bucketLines toString histogram.mName snap.boundaries 0 0 snap.bucketCounts) (put snap.sum)
    (decimal snap.count)

end

end SoulCoreKit.Observability
