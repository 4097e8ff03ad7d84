import SoulCoreKit.Proof.CronField
import Mathlib.Tactic.Ring

/-!
# The cron search

The search over the minutes returns the least due time of its range, unless it comes to a number that
`std::stoi` cannot represent. Both halves follow from those of the fields by the rules for decisions that
may throw.
-/

namespace SoulCoreKit.Scheduler

open SoulCoreKit.Lib

/-! ### One minute -/

namespace QDate

variable (d : QDate)

theorem monthDay_bounds : (1 ≤ d.month ∧ d.month ≤ 12) ∧ 1 ≤ d.day ∧ d.day ≤ 31 := by
  simp only [month, day, monthDay]
  generalize ha : d.julianDay + 32044 = a
  generalize hb : (4 * a + 3) / 146097 = b
  generalize hc : a - 146097 * b / 4 = c
  have hcBounds : 0 ≤ c ∧ c ≤ 36524 := by omega
  generalize hdd : (4 * c + 3) / 1461 = dd
  generalize he : c - 1461 * dd / 4 = e
  have heBounds : 0 ≤ e ∧ e ≤ 365 := by omega
  clear hcBounds ha hb hc hdd he
  generalize hm : (5 * e + 2) / 153 = m
  have hmBounds : 0 ≤ m ∧ m ≤ 11 := by omega
  have hmonth : 1 ≤ m + 3 - 12 * (m / 10) ∧ m + 3 - 12 * (m / 10) ≤ 12 := by
    clear heBounds hm
    omega
  exact ⟨hmonth, by omega⟩

end QDate

namespace QTime

theorem hour_bounds {t : QTime} (h : 0 ≤ t.mds ∧ t.mds < 86400000) : 0 ≤ t.hour ∧ t.hour ≤ 23 := by
  simp only [hour]
  omega

theorem minute_bounds (t : QTime) : 0 ≤ t.minute ∧ t.minute ≤ 59 := by
  simp only [minute]
  omega

end QTime

namespace QDateTime

variable (t : QDateTime)

theorem time_bounds : 0 ≤ t.time.mds ∧ t.time.mds < 86400000 := by
  simp only [time]
  omega

theorem dayOfWeek_mod : t.date.dayOfWeek % 7 = t.weekday := by
  simp only [QDate.dayOfWeek, weekday]
  omega

theorem weekday_bounds : 0 ≤ t.weekday ∧ t.weekday ≤ 6 := by
  simp only [weekday]
  omega

end QDateTime

namespace CronExpression

variable (e : CronExpression)

def Matches (t : QDateTime) : Prop :=
  t.time.minute ∈ e.minute.elements 0 59 ∧
    t.time.hour ∈ e.hour.elements 0 23 ∧
    t.date.day ∈ e.dayOfMonth.elements 1 31 ∧
    t.date.month ∈ e.month.elements 1 12 ∧
    t.weekday ∈ e.dayOfWeek.elements 0 6

theorem matchesAt_decides (t : QDateTime) :
    DecidesOn (matchesAt e.fields t) (e.Matches t) (e.ReadsAt t) := by
  obtain ⟨hmonth, hday⟩ := t.date.monthDay_bounds
  have hminute := t.time.minute_bounds
  have hhour := QTime.hour_bounds t.time_bounds
  have hweek := t.weekday_bounds
  simp only [matchesAt, fields, t.dayOfWeek_mod]
  exact (e.minute.matchCronField_decides hminute.1 hminute.2).andThen <|
    (e.hour.matchCronField_decides hhour.1 hhour.2).andThen <|
    (e.dayOfMonth.matchCronField_decides hday.1 hday.2).andThen <|
    (e.month.matchCronField_decides hmonth.1 hmonth.2).andThen <|
    e.dayOfWeek.matchCronField_decides hweek.1 hweek.2

/-! ### The text of an expression -/

end CronExpression

/-- One extraction takes the first word off the text. -/
theorem extract_words {text word : List Char} {words : List (List Char)} (h : Words text (word :: words)) :
    ∃ rest, extract text = some (word, rest) ∧ Words rest words := by
  cases h with
  | @cons space _ rest _ hspace hne hword hhead hwords =>
    obtain ⟨c, tail, heq⟩ := List.exists_cons_of_ne_nil hne
    have hc : isSpace c = false := hword c (by rw [heq]; exact List.mem_cons_self)
    have hdrop : (space ++ (word ++ rest)).dropWhile isSpace = word ++ rest := by
      rw [List.dropWhile_append_of_pos hspace, heq, List.cons_append,
        List.dropWhile_cons_of_neg (by simp [hc])]
    have hrest : rest.takeWhile (! isSpace ·) = [] ∧ rest.dropWhile (! isSpace ·) = rest := by
      cases rest with
      | nil => exact ⟨rfl, rfl⟩
      | cons d tail =>
        have hd : isSpace d = true := hhead d rfl
        simp [hd]
    have hpos : ∀ c ∈ word, (! isSpace c) = true := fun c hmem => by simp [hword c hmem]
    refine ⟨rest, ?_, hwords⟩
    simp only [extract, hdrop, List.takeWhile_append_of_pos hpos, List.dropWhile_append_of_pos hpos,
      hrest, List.append_nil]
    rw [if_neg (by simpa using hne)]

theorem CronExpression.spelled_text (e : CronExpression) : e.Spelled e.text := by
  have hword (field : CronField) {space rest : List Char} {words : List (List Char)}
      (hspace : ∀ c ∈ space, isSpace c = true) (hrest : ∀ c ∈ rest.head?, isSpace c = true)
      (h : Words rest words) : Words (space ++ (field.spelling ++ rest)) (field.spelling :: words) :=
    .cons hspace field.spelling_ne_nil (fun _ => field.isSpace_of_mem_spelling) hrest h
  have hblank : ∀ c ∈ [' '], isSpace c = true := by simp [isSpace]
  have hnext (rest : List Char) : ∀ c ∈ (' ' :: rest).head?, isSpace c = true := by simp [isSpace]
  have hend : Words [] [] := .nil (by simp)
  have hdow : Words (' ' :: e.dayOfWeek.spelling) [e.dayOfWeek.spelling] := by
    simpa using hword e.dayOfWeek hblank (by simp) hend
  exact @hword e.minute [] _ _ (by simp) (hnext _) <|
    hword e.hour hblank (hnext _) <|
    hword e.dayOfMonth hblank (hnext _) <|
    hword e.month hblank (hnext _) hdow

theorem CronExpression.Spelled.parseFields {e : CronExpression} {text : List Char} (h : e.Spelled text) :
    parseFields text = some e.fields := by
  obtain ⟨afterMinute, hminute, h⟩ := extract_words h
  obtain ⟨afterHour, hhour, h⟩ := extract_words h
  obtain ⟨afterDom, hdom, h⟩ := extract_words h
  obtain ⟨afterMonth, hmonth, h⟩ := extract_words h
  obtain ⟨afterDow, hdow, -⟩ := extract_words h
  simp only [Scheduler.parseFields, hminute, hhour, hdom, hmonth, hdow, Option.bind_eq_bind,
    Option.bind_some]
  rfl

/-! ### The search -/

namespace QDateTime

theorem le_iff {s t : QDateTime} : s ≤ t ↔ s.msecs ≤ t.msecs := Iff.rfl

theorem lt_iff {s t : QDateTime} : s < t ↔ s.msecs < t.msecs := Iff.rfl

theorem iterate_addSecs (i : Nat) (t : QDateTime) :
    (fun t : QDateTime => t.addSecs 60)^[i] t = ⟨t.msecs + 60000 * i⟩ := by
  induction i generalizing t with
  | zero => simp
  | succ i ih =>
    rw [Function.iterate_succ_apply, ih]
    simp only [addSecs, mk.injEq]
    push_cast
    ring

end QDateTime

theorem firstCandidate_msecs (fromTime : QDateTime) :
    (firstCandidate fromTime).msecs = (fromTime.msecs / 60000 + 1) * 60000 := by
  simp only [firstCandidate, QDateTime.setTime, QDateTime.addSecs, QDateTime.time, QTime.ofHourMinute,
    QTime.hour, QTime.minute]
  omega

def candidate (fromTime : QDateTime) (i : Nat) : QDateTime :=
  ⟨(fromTime.msecs / 60000 + 1 + i) * 60000⟩

theorem iterate_firstCandidate (fromTime : QDateTime) (i : Nat) :
    (fun t : QDateTime => t.addSecs 60)^[i] (firstCandidate fromTime) = candidate fromTime i := by
  rw [QDateTime.iterate_addSecs, firstCandidate_msecs, candidate]
  congr 1
  ring

theorem candidate_le_iff {fromTime : QDateTime} {i j : Nat} :
    candidate fromTime i ≤ candidate fromTime j ↔ i ≤ j := by
  simp only [QDateTime.le_iff, candidate]
  omega

theorem lt_candidate (fromTime : QDateTime) (i : Nat) : fromTime < candidate fromTime i := by
  simp only [QDateTime.lt_iff, candidate]
  omega

theorem candidate_le_searchEnd_iff {fromTime : QDateTime} {i : Nat} :
    candidate fromTime i ≤ searchEnd fromTime ↔ i < maxIterations := by
  simp only [QDateTime.le_iff, candidate, searchEnd, maxIterations]
  omega

/-- The whole minutes after the start are the candidates. -/
theorem exists_candidate {fromTime t : QDateTime} (hwhole : 60000 ∣ t.msecs) (hafter : fromTime < t) :
    ∃ i, t = candidate fromTime i := by
  obtain ⟨msecs⟩ := t
  simp only [QDateTime.lt_iff] at hafter hwhole
  refine ⟨(msecs / 60000 - fromTime.msecs / 60000 - 1).toNat, ?_⟩
  rw [candidate, QDateTime.mk.injEq]
  omega

namespace CronExpression

variable {e : CronExpression} {fromTime : QDateTime}

theorem due_candidate_iff {i : Nat} : e.Due (candidate fromTime i) ↔ e.Matches (candidate fromTime i) :=
  and_iff_right (Dvd.intro_left _ rfl)

theorem dueAfter_eq : e.dueAfter fromTime = {t | ∃ i, t = candidate fromTime i ∧ e.Matches t} := by
  ext t
  constructor
  · rintro ⟨hafter, hdue⟩
    obtain ⟨i, rfl⟩ := exists_candidate hdue.1 hafter
    exact ⟨i, rfl, hdue.2⟩
  · rintro ⟨i, rfl, hmatches⟩
    exact ⟨lt_candidate fromTime i, due_candidate_iff.mpr hmatches⟩

/-- No due time before a candidate: no candidate before it matches. -/
theorem forall_dueAfter_ge_iff {i : Nat} :
    (∀ s ∈ e.dueAfter fromTime, candidate fromTime i ≤ s) ↔
      ∀ j < i, ¬ e.Matches (candidate fromTime j) := by
  rw [dueAfter_eq]
  constructor
  · intro h j hj hmatches
    have hle := candidate_le_iff.mp (h _ ⟨j, rfl, hmatches⟩)
    omega
  · rintro h s ⟨j, rfl, hmatches⟩
    rw [candidate_le_iff]
    by_contra hlt
    exact h j (not_le.mp hlt) hmatches

/-- What the loop finds among the candidates is what `nextCronTime` is to return. -/
theorem isNext_of_isFirstOf {c : Option QDateTime}
    (h : IsFirstOf e.Matches (fun t => t.addSecs 60) maxIterations (firstCandidate fromTime) c) :
    e.IsNext fromTime c := by
  cases c with
  | none =>
    intro t ht
    rw [dueAfter_eq] at ht
    obtain ⟨i, rfl, hmatches⟩ := ht
    rw [QDateTime.lt_iff, ← not_le, ← QDateTime.le_iff, candidate_le_searchEnd_iff]
    intro hi
    exact h i hi (by rwa [iterate_firstCandidate])
  | some t =>
    obtain ⟨i, hi, ht, hmatches, hbefore⟩ := h
    rw [iterate_firstCandidate] at ht
    subst ht
    refine ⟨⟨?_, ?_⟩, candidate_le_searchEnd_iff.mpr hi⟩
    · rw [dueAfter_eq]
      exact ⟨i, rfl, hmatches⟩
    · apply forall_dueAfter_ge_iff.mpr
      intro j hj
      rw [← iterate_firstCandidate]
      exact hbefore j hj

theorem searchedIn_iff :
    SearchedIn e.Matches e.ReadsAt (fun t => t.addSecs 60) maxIterations (firstCandidate fromTime) ↔
      e.Readable fromTime := by
  simp only [SearchedIn, iterate_firstCandidate]
  constructor
  · intro h t hwhole hafter hend hfirst
    obtain ⟨i, rfl⟩ := exists_candidate hwhole hafter
    exact h i (candidate_le_searchEnd_iff.mp hend) (forall_dueAfter_ge_iff.mp hfirst)
  · intro h i hi hbefore
    exact h _ (Dvd.intro_left _ rfl) (lt_candidate fromTime i) (candidate_le_searchEnd_iff.mpr hi)
      (forall_dueAfter_ge_iff.mpr hbefore)

theorem nextCronTime_isNext {text : List Char} (htext : e.Spelled text) (h : e.Readable fromTime) :
    ∃ next, nextCronTime text fromTime = .ok next ∧ e.IsNext fromTime next := by
  obtain ⟨next, hnext, hfirst⟩ := firstOf_ok e.matchesAt_decides (searchedIn_iff.mpr h)
  refine ⟨next, ?_, isNext_of_isFirstOf hfirst⟩
  rw [nextCronTime, htext.parseFields]
  exact hnext

theorem nextCronTime_throws {text : List Char} (htext : e.Spelled text) (h : ¬ e.Readable fromTime) :
    ∃ error, nextCronTime text fromTime = .error error := by
  obtain ⟨error, herror⟩ := firstOf_throws e.matchesAt_decides (fun hin => h (searchedIn_iff.mp hin))
  refine ⟨error, ?_⟩
  rw [nextCronTime, htext.parseFields]
  exact herror

end CronExpression

theorem readsItems_of_representable {min max value : Int} {items : List CronItem}
    (h : ∀ item ∈ items, item.Representable) : ReadsItems min max value items := by
  induction items with
  | nil => exact trivial
  | cons item items ih =>
    exact ⟨h item List.mem_cons_self, .inr (ih fun i hi => h i (List.mem_cons_of_mem item hi))⟩

/-- Nothing out of range is read in an expression that holds nothing out of range. -/
theorem CronExpression.Representable.readsAt {e : CronExpression} (h : e.Representable) (t : QDateTime) :
    e.ReadsAt t := by
  simp only [Representable, List.forall_mem_cons] at h
  obtain ⟨hminute, hhour, hday, hmonth, hweek, -⟩ := h
  exact ⟨readsItems_of_representable hminute, fun _ => ⟨readsItems_of_representable hhour, fun _ =>
    ⟨readsItems_of_representable hday, fun _ => ⟨readsItems_of_representable hmonth, fun _ =>
      readsItems_of_representable hweek⟩⟩⟩⟩

/-- Whatever the numbers of the expression, the search gives the least due minute of its range, or an
invalid time, exactly where it comes to no number that is out of the range of `int`; and so for the
membership that `matchCronField` decides. -/
theorem nextCronTime_isNext_iff (e : CronExpression) (text : List Char) (htext : e.Spelled text)
    (fromTime : QDateTime) :
    ((∃ next, nextCronTime text fromTime = .ok next ∧ e.IsNext fromTime next) ↔ e.Readable fromTime) ∧
      ∀ (field : CronField) (value min max : Int), 0 ≤ min → min ≤ value → value ≤ max →
        ((∃ b, matchCronField value field.spelling min max = .ok b ∧
            (b = true ↔ value ∈ field.elements min max)) ↔ field.Reads min max value) := by
  constructor
  · constructor
    · rintro ⟨next, hnext, -⟩
      by_contra hnot
      obtain ⟨error, herror⟩ := CronExpression.nextCronTime_throws htext hnot
      rw [herror] at hnext
      cases hnext
    · exact CronExpression.nextCronTime_isNext htext
  · intro field value min max _ hmin hmax
    exact (field.matchCronField_decides hmin hmax).ok_iff

def CronField.star : CronField := ⟨[{ range := .star }], by simp⟩

def CronField.number (n : Numeral) : CronField := ⟨[{ range := .single n }], by simp⟩

def Numeral.digit (c : Char) (h : c.isDigit = true) : Numeral := ⟨[c], by simp, by simpa using h⟩

def Numeral.zero : Numeral := .digit '0' rfl

def Numeral.one : Numeral := .digit '1' rfl

def weekdayMornings : CronExpression where
  minute := .number .zero
  hour := .number (.digit '8' rfl)
  dayOfMonth := .star
  month := .star
  dayOfWeek := ⟨[{ range := .span .one (.digit '5' rfl) }], by simp⟩

theorem weekdayMornings_representable : weekdayMornings.Representable := by
  simp [CronExpression.Representable, weekdayMornings, CronField.star, CronField.number,
    CronItem.Representable, CronRange.Representable, Numeral.Representable, Numeral.value,
    Numeral.digit, Numeral.zero, Numeral.one, CronItem.stride, Nat.ofDigitChars_cons]

theorem nextCronTime_isNext_iff_weekdayMornings :
    weekdayMornings.text = "0 8 * * 1-5".toList ∧
      ∃ next, nextCronTime weekdayMornings.text ⟨0⟩ = .ok next ∧ weekdayMornings.IsNext ⟨0⟩ next :=
  ⟨by decide, (nextCronTime_isNext_iff weekdayMornings _ weekdayMornings.spelled_text ⟨0⟩).1.mpr
    fun t _ _ _ _ => weekdayMornings_representable.readsAt t⟩

/-- A minute that is out of the range of `int`. -/
def hugeMinute : CronExpression where
  minute := .number ⟨"2147483648".toList, by decide, List.all_eq_true.mp rfl⟩
  hour := .star
  dayOfMonth := .star
  month := .star
  dayOfWeek := .star

/-- `std::stoi` throws where an invalid time is to be returned. -/
theorem huge_minute_throws :
    hugeMinute.Spelled "2147483648 * * * *".toList ∧
      nextCronTime "2147483648 * * * *".toList ⟨0⟩ = .error .outOfRange ∧
      ¬ ∃ next, nextCronTime "2147483648 * * * *".toList ⟨0⟩ = .ok next ∧ hugeMinute.IsNext ⟨0⟩ next := by
  have hthrows : nextCronTime "2147483648 * * * *".toList ⟨0⟩ = .error .outOfRange := by
    decide +kernel
  refine ⟨?_, hthrows, ?_⟩
  · have htext : hugeMinute.text = "2147483648 * * * *".toList := by decide
    rw [← htext]
    exact hugeMinute.spelled_text
  · rintro ⟨next, hnext, -⟩
    rw [hthrows] at hnext
    cases hnext

end SoulCoreKit.Scheduler
