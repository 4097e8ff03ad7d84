import SoulCoreKit.Proof.CronSearch
import Mathlib.Tactic.IntervalCases

/-!
# Arming the timer of a cron task

The delay of a cron task is computed in 64 bits and narrowed to the `int` of `QTimer::start`. The timer
is started with the delay to the next due time exactly where this is less than 2³¹ milliseconds away; a
due time that near lies within the search range.
-/

namespace SoulCoreKit.Scheduler

open SoulCoreKit.Lib

namespace CronExpression

variable {e : CronExpression} {text : List Char} {now t : QDateTime}

theorem exists_isLeast_dueAfter (h : (e.dueAfter now).Nonempty) : ∃ t, IsLeast (e.dueAfter now) t := by
  classical
  have hexists : ∃ i, e.Matches (candidate now i) := by
    obtain ⟨t, ht⟩ := h
    rw [dueAfter_eq] at ht
    obtain ⟨i, rfl, hmatches⟩ := ht
    exact ⟨i, hmatches⟩
  refine ⟨candidate now (Nat.find hexists), ?_, ?_⟩
  · rw [dueAfter_eq]
    exact ⟨_, rfl, Nat.find_spec hexists⟩
  · apply forall_dueAfter_ge_iff.mpr
    intro j hj
    exact Nat.find_min hexists hj

theorem nextCronTime_of_isLeast (htext : e.Spelled text) (hread : e.Readable now)
    (hleast : IsLeast (e.dueAfter now) t) (hend : t ≤ searchEnd now) :
    nextCronTime text now = .ok (some t) := by
  obtain ⟨next, hnext, hisNext⟩ := nextCronTime_isNext htext hread
  cases next with
  | none => exact (lt_irrefl t (lt_of_le_of_lt hend (hisNext t hleast.1))).elim
  | some s => rw [hnext, hisNext.1.unique hleast]

end CronExpression

namespace ScheduledTask

theorem toInt_eq_self_iff {n : Int} : toInt n = n ↔ -2 ^ 31 ≤ n ∧ n < 2 ^ 31 := by
  rw [toInt, Int.bmod_eq_iff (by decide)]
  omega

variable {task : ScheduledTask} {e : CronExpression} {now t : QDateTime}

theorem scheduleNext_of_nextCronTime (hmode : task.mMode = .cron)
    (h : nextCronTime task.mCronExpression now = .ok (some t)) :
    task.scheduleNext now = .ok (some (toInt (max 100 (now.msecsTo t)))) := by
  rw [scheduleNext, hmode]
  simp only [h]
  rfl

theorem scheduleNext_throws (hmode : task.mMode = .cron) (htext : e.Spelled task.mCronExpression)
    (h : ¬ e.Readable now) : ∃ error, task.scheduleNext now = .error error := by
  obtain ⟨error, herror⟩ := e.nextCronTime_throws htext h
  refine ⟨error, ?_⟩
  rw [scheduleNext, hmode]
  simp only [herror]
  rfl

theorem scheduleNext_eq_some (hmode : task.mMode = .cron) (htext : e.Spelled task.mCronExpression)
    (hleast : IsLeast (e.dueAfter now) t) {interval : Int} (h : task.scheduleNext now = .ok (some interval)) :
    e.Readable now ∧ interval = toInt (max 100 (now.msecsTo t)) := by
  have hread : e.Readable now := by
    by_contra hnot
    obtain ⟨error, herror⟩ := scheduleNext_throws hmode htext hnot
    rw [herror] at h
    cases h
  refine ⟨hread, ?_⟩
  obtain ⟨next, hnext, hisNext⟩ := e.nextCronTime_isNext htext hread
  cases next with
  | none =>
    rw [scheduleNext, hmode] at h
    simp only [hnext] at h
    cases h
  | some s =>
    rw [hisNext.1.unique hleast] at hnext
    rw [scheduleNext_of_nextCronTime hmode hnext] at h
    cases h
    rfl

end ScheduledTask

/-- A cron task that is due at some time is armed with the delay to the first one exactly where that
delay is less than 2³¹ milliseconds and no number out of the range of `int` is read on the way. -/
theorem scheduleNext_armed_iff (task : ScheduledTask) (hmode : task.mMode = .cron) (e : CronExpression)
    (htext : e.Spelled task.mCronExpression) (now : QDateTime) (hdue : (e.dueAfter now).Nonempty) :
    ∃ t, IsLeast (e.dueAfter now) t ∧
      (task.scheduleNext now = .ok (some (max 100 (now.msecsTo t))) ↔
        now.msecsTo t < 2 ^ 31 ∧ e.Readable now) := by
  obtain ⟨t, hleast⟩ := CronExpression.exists_isLeast_dueAfter hdue
  refine ⟨t, hleast, ?_⟩
  constructor
  · intro harmed
    obtain ⟨hread, hinterval⟩ := ScheduledTask.scheduleNext_eq_some hmode htext hleast harmed
    have hfits := (ScheduledTask.toInt_eq_self_iff.mp hinterval.symm).2
    exact ⟨by omega, hread⟩
  · rintro ⟨hnear, hread⟩
    have hend : t ≤ searchEnd now := by
      rw [QDateTime.msecsTo] at hnear
      simp only [QDateTime.le_iff, searchEnd]
      omega
    have hnext := CronExpression.nextCronTime_of_isLeast htext hread hleast hend
    have hfits : ScheduledTask.toInt (max 100 (now.msecsTo t)) = max 100 (now.msecsTo t) := by
      rw [ScheduledTask.toInt_eq_self_iff]
      omega
    rw [ScheduledTask.scheduleNext_of_nextCronTime hmode hnext, hfits]

/-- Midnight on the first of every month. -/
def monthly : CronExpression where
  minute := .number .zero
  hour := .number .zero
  dayOfMonth := .number .one
  month := .star
  dayOfWeek := .star

def monthlyTask : ScheduledTask where
  mMode := .cron
  mCronExpression := monthly.text

theorem monthly_representable : monthly.Representable := by
  simp [CronExpression.Representable, monthly, CronField.star, CronField.number, CronItem.Representable,
    CronRange.Representable, Numeral.Representable, Numeral.value, Numeral.digit, Numeral.zero, Numeral.one,
    CronItem.stride, Nat.ofDigitChars_cons]

theorem monthly_readable (now : QDateTime) : monthly.Readable now :=
  fun t _ _ _ _ => monthly_representable.readsAt t

theorem mem_number_elements {n : Numeral} {min max v : Int} :
    v ∈ (CronField.number n).elements min max ↔ v = n.value := by
  simp only [CronField.elements, CronField.number, CronItem.elements, CronRange.first, CronRange.last,
    CronItem.stride, List.mem_singleton, exists_eq_left, Set.mem_ofPred_eq]
  omega

theorem mem_star_elements {min max v : Int} : v ∈ CronField.star.elements min max ↔ min ≤ v ∧ v ≤ max := by
  simp [CronField.elements, CronField.star, CronItem.elements, CronRange.first, CronRange.last,
    CronItem.stride]

theorem monthly_due_iff {t : QDateTime} : monthly.Due t ↔ t.msecs % 86400000 = 0 ∧ t.date.day = 1 := by
  have hmonth := t.date.monthDay_bounds.1
  have hweek := t.weekday_bounds
  have hzero : Numeral.zero.value = 0 := by decide
  have hone : Numeral.one.value = 1 := by decide
  simp only [CronExpression.Due, monthly, mem_number_elements, mem_star_elements, hmonth, hweek, hzero,
    hone, QTime.minute, QTime.hour, QDateTime.time, and_self, and_true]
  constructor
  · rintro ⟨hwhole, hminute, hhour, hday⟩
    exact ⟨by omega, hday⟩
  · rintro ⟨hmidnight, hday⟩
    exact ⟨by omega, by omega, by omega, hday⟩

/-- In January 1970 the next run is at 1970-02-01T00:00. -/
theorem monthly_isLeast {now : QDateTime} (hstart : 0 ≤ now.msecs) (hend : now.msecs < 2678400000) :
    IsLeast (monthly.dueAfter now) ⟨2678400000⟩ := by
  refine ⟨⟨hend, monthly_due_iff.mpr (by decide)⟩, ?_⟩
  rintro ⟨msecs⟩ ⟨hafter, hdue⟩
  obtain ⟨hmidnight, hday⟩ := monthly_due_iff.mp hdue
  simp only [QDateTime.lt_iff, QDateTime.le_iff] at hafter hmidnight ⊢
  by_contra hbefore
  obtain ⟨day, rfl⟩ : ∃ day, msecs = 86400000 * day := ⟨msecs / 86400000, by omega⟩
  have hlow : 1 ≤ day := by omega
  have hhigh : day ≤ 30 := by omega
  interval_cases day <;> exact absurd hday (by decide)

theorem scheduleNext_armed_iff_monthly : monthlyTask.scheduleNext ⟨2678399950⟩ = .ok (some 100) := by
  have hmonth := @monthly_isLeast ⟨2678399950⟩ (by decide) (by decide)
  obtain ⟨t, hleast, hiff⟩ := scheduleNext_armed_iff monthlyTask rfl monthly monthly.spelled_text
    ⟨2678399950⟩ ⟨_, hmonth.1⟩
  obtain rfl := hleast.unique hmonth
  exact hiff.mpr ⟨by decide, monthly_readable _⟩

/-- On the first of January the delay of the monthly task is 31 days: narrowed to `int`, it is negative. -/
theorem monthly_delay_truncated :
    monthly.text = "0 0 1 * *".toList ∧
      IsLeast (monthly.dueAfter ⟨0⟩) ⟨2678400000⟩ ∧
      monthlyTask.scheduleNext ⟨0⟩ = .ok (some (-1616567296)) ∧
      monthlyTask.scheduleNext ⟨0⟩ ≠ .ok (some (max 100 (QDateTime.msecsTo ⟨0⟩ ⟨2678400000⟩))) := by
  have hleast := @monthly_isLeast ⟨0⟩ (by decide) (by decide)
  have hnext := CronExpression.nextCronTime_of_isLeast monthly.spelled_text (monthly_readable ⟨0⟩) hleast
    (by simp [QDateTime.le_iff, searchEnd])
  have harmed : monthlyTask.scheduleNext ⟨0⟩ = .ok (some (-1616567296)) := by
    have hnarrowed : ScheduledTask.toInt (max 100 (QDateTime.msecsTo ⟨0⟩ ⟨2678400000⟩)) = -1616567296 := by
      decide
    have hmode : monthlyTask.mMode = .cron := rfl
    rw [ScheduledTask.scheduleNext_of_nextCronTime hmode hnext, hnarrowed]
  refine ⟨by decide, hleast, harmed, ?_⟩
  rw [harmed]
  decide

end SoulCoreKit.Scheduler
