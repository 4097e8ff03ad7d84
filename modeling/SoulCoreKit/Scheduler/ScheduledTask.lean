import SoulCoreKit.Lib.PartialDecision
import Mathlib.Algebra.Order.Ring.Int

/-!
# Scheduled tasks

`ScheduledTask::nextCronTime`, `matchCronField` and `scheduleNext`. A `QDateTime` is the local time in
milliseconds since 1970-01-01T00:00 on a clock without daylight-saving shifts, and a `std::string` the
list of its characters. What `std::stoi` throws is an error of the model.
-/

namespace SoulCoreKit.Scheduler

open SoulCoreKit.Lib

/-! ### Dates and times -/

structure QDate where
  julianDay : Int
  deriving DecidableEq, Repr

namespace QDate

variable (d : QDate)

/-- The month and the day of the month in the proleptic Gregorian calendar. The year runs from March,
so that 29 February is its last day. -/
def monthDay : Int × Int :=
  let a := d.julianDay + 32044
  let b := (4 * a + 3) / 146097
  let c := a - 146097 * b / 4
  let dd := (4 * c + 3) / 1461
  let e := c - 1461 * dd / 4
  let m := (5 * e + 2) / 153
  (m + 3 - 12 * (m / 10), e - (153 * m + 2) / 5 + 1)

def month : Int := d.monthDay.1

def day : Int := d.monthDay.2

/-- 1 for Monday to 7 for Sunday. -/
def dayOfWeek : Int := d.julianDay % 7 + 1

example : (monthDay ⟨2440588⟩, dayOfWeek ⟨2440588⟩) = ((1, 1), 4) := by decide

example : (monthDay ⟨2460370⟩, monthDay ⟨2460371⟩) = ((2, 29), (3, 1)) := by decide

end QDate

/-- The milliseconds since midnight. -/
structure QTime where
  mds : Int
  deriving DecidableEq, Repr

namespace QTime

def hour (t : QTime) : Int := t.mds / 3600000

def minute (t : QTime) : Int := t.mds % 3600000 / 60000

/-- `QTime(hour, minute, 0, 0)`. -/
def ofHourMinute (hour minute : Int) : QTime := ⟨hour * 3600000 + minute * 60000⟩

end QTime

structure QDateTime where
  msecs : Int
  deriving DecidableEq, Repr

namespace QDateTime

instance : PartialOrder QDateTime :=
  @PartialOrder.lift QDateTime Int Int.instLinearOrder.toPartialOrder msecs fun _ _ => congrArg mk

variable (t : QDateTime)

def date : QDate := ⟨t.msecs / 86400000 + 2440588⟩

def time : QTime := ⟨t.msecs % 86400000⟩

def setTime (time : QTime) : QDateTime := ⟨t.msecs / 86400000 * 86400000 + time.mds⟩

def addSecs (secs : Int) : QDateTime := ⟨t.msecs + secs * 1000⟩

def msecsTo (other : QDateTime) : Int := other.msecs - t.msecs

end QDateTime

/-! ### Cron expressions -/

inductive CronError where
  | invalidArgument
  | outOfRange
  | divisionByZero
  deriving DecidableEq, Repr

/-- `std::isspace` in the C locale. -/
def isSpace (c : Char) : Bool := c.toNat = 32 || (9 ≤ c.toNat && c.toNat ≤ 13)

/-- `std::stoi`: what follows the digits is not looked at. -/
def stoi (text : List Char) : Except CronError Int :=
  let text := text.dropWhile isSpace
  let negative := text.head? = some '-'
  let text := if text.head? = some '-' ∨ text.head? = some '+' then text.tail else text
  let digits := text.takeWhile Char.isDigit
  if digits.isEmpty then
    .error .invalidArgument
  else
    let n : Int := Nat.ofDigitChars 10 digits 0
    let n := if negative then -n else n
    if -2 ^ 31 ≤ n ∧ n < 2 ^ 31 then .ok n else .error .outOfRange

/-- `iss >> word`, with what is left of the stream, or a failure. -/
def extract (stream : List Char) : Option (List Char × List Char) :=
  let stream := stream.dropWhile isSpace
  let word := stream.takeWhile (! isSpace ·)
  if word.isEmpty then none else some (word, stream.dropWhile (! isSpace ·))

/-- The parts that `std::getline(iss, part, ',')` delivers: nothing follows a comma at the end. -/
def getlines : List Char → List (List Char)
  | [] => []
  | c :: rest =>
      if c = ',' then
        [] :: getlines rest
      else
        match getlines rest with
        | [] => [[c]]
        | part :: parts => (c :: part) :: parts

/-- The step of a part and its `rangePart`. -/
def splitStep (part : List Char) : Except CronError (Int × List Char) :=
  match part.findIdx? (· = '/') with
  | some slashPos => (stoi (part.drop (slashPos + 1))).map fun step => (step, part.take slashPos)
  | none => .ok (1, part)

/-- `rangeMin` and `rangeMax`. -/
def splitRange (min max : Int) (rangePart : List Char) : Except CronError (Int × Int) :=
  match rangePart.findIdx? (· = '-') with
  | some dashPos =>
      (stoi (rangePart.take dashPos)).bind fun rangeMin =>
        (stoi (rangePart.drop (dashPos + 1))).map fun rangeMax => (rangeMin, rangeMax)
  | none =>
      if rangePart = ['*'] then
        .ok (min, max)
      else
        (stoi rangePart).map fun rangeMin => (rangeMin, rangeMin)

/-- Whether the value lies in the range and on the step. -/
def inStep (value step rangeMin rangeMax : Int) : Except CronError Bool :=
  if value ≥ rangeMin ∧ value ≤ rangeMax then
    if step = 1 then
      .ok true
    else if step = 0 then
      .error .divisionByZero
    else
      .ok ((value - rangeMin).tmod step = 0)
  else
    .ok false

/-- The body of the loop over the list. -/
def matchPart (value min max : Int) (part : List Char) : Except CronError Bool :=
  (splitStep part).bind fun (step, rangePart) =>
    (splitRange min max rangePart).bind fun (rangeMin, rangeMax) =>
      inStep value step rangeMin rangeMax

def matchParts (value min max : Int) : List (List Char) → Except CronError Bool
  | [] => .ok false
  | part :: parts => orElse (matchPart value min max part) (matchParts value min max parts)

def matchCronField (value : Int) (field : List Char) (min max : Int) : Except CronError Bool :=
  if field.isEmpty then
    .ok true
  else if field = ['*'] then
    .ok true
  else
    matchParts value min max (getlines field)

/-- The five fields in the order of the expression. -/
structure CronFields where
  minuteF : List Char
  hourF : List Char
  domF : List Char
  monthF : List Char
  dowF : List Char
  deriving DecidableEq, Repr

/-- `iss >> minuteF >> hourF >> domF >> monthF >> dowF`; what follows is not looked at. -/
def parseFields (cronExpression : List Char) : Option CronFields := do
  let (minuteF, iss) ← extract cronExpression
  let (hourF, iss) ← extract iss
  let (domF, iss) ← extract iss
  let (monthF, iss) ← extract iss
  let (dowF, _) ← extract iss
  some { minuteF, hourF, domF, monthF, dowF }

/-- The condition of the search. -/
def matchesAt (f : CronFields) (candidate : QDateTime) : Except CronError Bool :=
  let d := candidate.date
  let t := candidate.time
  andThen (matchCronField t.minute f.minuteF 0 59) <|
  andThen (matchCronField t.hour f.hourF 0 23) <|
  andThen (matchCronField d.day f.domF 1 31) <|
  andThen (matchCronField d.month f.monthF 1 12) <|
  matchCronField (d.dayOfWeek % 7) f.dowF 0 6

def maxIterations : Nat := 1051200

/-- The first candidate of the search: a minute later, with the seconds cut off. -/
def firstCandidate (fromTime : QDateTime) : QDateTime :=
  let candidate := fromTime.addSecs 60
  candidate.setTime (.ofHourMinute candidate.time.hour candidate.time.minute)

/-- `none` is the invalid `QDateTime`. -/
def nextCronTime (cronExpression : List Char) (fromTime : QDateTime) :
    Except CronError (Option QDateTime) :=
  match parseFields cronExpression with
  | none => .ok none
  | some f => firstOf (matchesAt f) (·.addSecs 60) maxIterations (firstCandidate fromTime)

/-! ### Arming the timer -/

inductive Mode where
  | cron
  | fixedRate
  | fixedDelay
  deriving DecidableEq, Repr

structure ScheduledTask where
  mMode : Mode
  mCronExpression : List Char := []
  mIntervalMs : Int := 0
  deriving DecidableEq, Repr

namespace ScheduledTask

variable (task : ScheduledTask)

/-- `static_cast<int>` of a 64-bit value. -/
def toInt (n : Int) : Int := n.bmod (2 ^ 32)

/-- The interval that `m_timer->start` is called with, `none` where the call is not reached. -/
def scheduleNext (now : QDateTime) : Except CronError (Option Int) :=
  match task.mMode with
  | .cron =>
      (nextCronTime task.mCronExpression now).map fun next =>
        next.map fun next => toInt (max 100 (now.msecsTo next))
  | .fixedRate | .fixedDelay => .ok (some task.mIntervalMs)

end ScheduledTask

end SoulCoreKit.Scheduler
