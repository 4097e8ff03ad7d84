import SoulCoreKit.Scheduler.ScheduledTask
import Mathlib.Order.Bounds.Basic

/-!
# What a cron expression means

The grammar of the five fields, how an expression is spelled, and the times it is due at. A number may be
of any size and may start with zeros.
-/

namespace SoulCoreKit.Scheduler

/-- A number as it is written. -/
structure Numeral where
  digits : List Char
  nonempty : digits ≠ []
  isDigit : ∀ c ∈ digits, c.isDigit = true

namespace Numeral

def value (n : Numeral) : Nat := Nat.ofDigitChars 10 n.digits 0

/-- The number fits an `int`. -/
def Representable (n : Numeral) : Prop := n.value < 2 ^ 31

end Numeral

inductive CronRange where
  | star
  | single (n : Numeral)
  | span (a b : Numeral)

/-- `*`, `n` or `a-b`, perhaps followed by `/k`. -/
structure CronItem where
  range : CronRange
  step : Option {k : Numeral // 1 ≤ k.value} := none

/-- A comma list. -/
abbrev CronField := {items : List CronItem // items ≠ []}

structure CronExpression where
  minute : CronField
  hour : CronField
  dayOfMonth : CronField
  month : CronField
  dayOfWeek : CronField

/-! ### Spelling -/

def CronRange.spelling : CronRange → List Char
  | .star => ['*']
  | .single n => n.digits
  | .span a b => a.digits ++ '-' :: b.digits

def CronItem.spelling (item : CronItem) : List Char :=
  match item.step with
  | none => item.range.spelling
  | some k => item.range.spelling ++ '/' :: k.1.digits

def CronField.spelling (field : CronField) : List Char :=
  [','].intercalate (field.1.map CronItem.spelling)

/-- The text is these words with white space between them, and perhaps before and after. -/
inductive Words : List Char → List (List Char) → Prop where
  | nil {space : List Char} : (∀ c ∈ space, isSpace c = true) → Words space []
  | cons {space word rest : List Char} {words : List (List Char)} :
      (∀ c ∈ space, isSpace c = true) → word ≠ [] → (∀ c ∈ word, isSpace c = false) →
      (∀ c ∈ rest.head?, isSpace c = true) → Words rest words →
      Words (space ++ (word ++ rest)) (word :: words)

def CronExpression.fields (e : CronExpression) : CronFields where
  minuteF := e.minute.spelling
  hourF := e.hour.spelling
  domF := e.dayOfMonth.spelling
  monthF := e.month.spelling
  dowF := e.dayOfWeek.spelling

/-- The expression with one blank between its fields. -/
def CronExpression.text (e : CronExpression) : List Char :=
  e.minute.spelling ++ ' ' :: (e.hour.spelling ++ ' ' :: (e.dayOfMonth.spelling ++
    ' ' :: (e.month.spelling ++ ' ' :: e.dayOfWeek.spelling)))

def CronExpression.Spelled (e : CronExpression) (text : List Char) : Prop :=
  Words text [e.minute.spelling, e.hour.spelling, e.dayOfMonth.spelling, e.month.spelling,
    e.dayOfWeek.spelling]

/-! ### Meaning -/

def CronRange.first (min : Int) : CronRange → Int
  | .star => min
  | .single n => n.value
  | .span a _ => a.value

def CronRange.last (max : Int) : CronRange → Int
  | .star => max
  | .single n => n.value
  | .span _ b => b.value

/-- The `k` of the suffix `/k`, 1 where there is none. -/
def CronItem.stride (item : CronItem) : Nat :=
  match item.step with
  | none => 1
  | some k => k.1.value

def CronItem.elements (min max : Int) (item : CronItem) : Set Int :=
  {v | item.range.first min ≤ v ∧ v ≤ item.range.last max ∧ (item.stride : Int) ∣ v - item.range.first min}

def CronField.elements (min max : Int) (field : CronField) : Set Int :=
  {v | ∃ item ∈ field.1, v ∈ item.elements min max}

namespace QDateTime

/-- The day of the week, 0 for Sunday. -/
def weekday (t : QDateTime) : Int := (t.date.julianDay + 1) % 7

end QDateTime

/-- The whole minutes that the expression names. -/
def CronExpression.Due (e : CronExpression) (t : QDateTime) : Prop :=
  60000 ∣ t.msecs ∧
    t.time.minute ∈ e.minute.elements 0 59 ∧
    t.time.hour ∈ e.hour.elements 0 23 ∧
    t.date.day ∈ e.dayOfMonth.elements 1 31 ∧
    t.date.month ∈ e.month.elements 1 12 ∧
    t.weekday ∈ e.dayOfWeek.elements 0 6

def CronExpression.dueAfter (e : CronExpression) (fromTime : QDateTime) : Set QDateTime :=
  {t | fromTime < t ∧ e.Due t}

def searchEnd (fromTime : QDateTime) : QDateTime := ⟨fromTime.msecs + 1051200 * 60000⟩

/-- What `nextCronTime` is to return: the least due time after the start where it lies within the search
range, and an invalid time otherwise. -/
def CronExpression.IsNext (e : CronExpression) (fromTime : QDateTime) : Option QDateTime → Prop
  | some t => IsLeast (e.dueAfter fromTime) t ∧ t ≤ searchEnd fromTime
  | none => ∀ t ∈ e.dueAfter fromTime, searchEnd fromTime < t

/-! ### Numbers that are read

The fields are matched from the left until one does not match, and the items of a field until one
matches. -/

def CronRange.Representable : CronRange → Prop
  | .star => True
  | .single n => n.Representable
  | .span a b => a.Representable ∧ b.Representable

/-- Every number of the item fits an `int`. -/
def CronItem.Representable (item : CronItem) : Prop :=
  item.range.Representable ∧ item.stride < 2 ^ 31

/-- Every item up to the first that has the value is representable. -/
def ReadsItems (min max value : Int) : List CronItem → Prop
  | [] => True
  | item :: items => item.Representable ∧ (value ∈ item.elements min max ∨ ReadsItems min max value items)

def CronField.Reads (min max value : Int) (field : CronField) : Prop :=
  ReadsItems min max value field.1

/-- Each field that is matched at the time reads representable numbers only. -/
def CronExpression.ReadsAt (e : CronExpression) (t : QDateTime) : Prop :=
  e.minute.Reads 0 59 t.time.minute ∧
    (t.time.minute ∈ e.minute.elements 0 59 →
      e.hour.Reads 0 23 t.time.hour ∧
        (t.time.hour ∈ e.hour.elements 0 23 →
          e.dayOfMonth.Reads 1 31 t.date.day ∧
            (t.date.day ∈ e.dayOfMonth.elements 1 31 →
              e.month.Reads 1 12 t.date.month ∧
                (t.date.month ∈ e.month.elements 1 12 → e.dayOfWeek.Reads 0 6 t.weekday))))

/-- Every number of the expression fits an `int`. -/
def CronExpression.Representable (e : CronExpression) : Prop :=
  ∀ field ∈ [e.minute, e.hour, e.dayOfMonth, e.month, e.dayOfWeek], ∀ item ∈ field.1, item.Representable

/-- No number of 2³¹ or more is read at a minute of the search range that no due time precedes. -/
def CronExpression.Readable (e : CronExpression) (fromTime : QDateTime) : Prop :=
  ∀ t : QDateTime, 60000 ∣ t.msecs → fromTime < t → t ≤ searchEnd fromTime →
    (∀ s ∈ e.dueAfter fromTime, t ≤ s) → e.ReadsAt t

end SoulCoreKit.Scheduler
