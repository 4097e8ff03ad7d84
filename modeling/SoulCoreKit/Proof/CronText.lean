import SoulCoreKit.Proof.CronSearch

/-!
# What is made of any cron text

The parts of a field are read while the search goes on, and what follows a number is not looked at. So a
field that is not of the grammar goes unnoticed where its parts can be read, and what cannot be read makes
`std::stoi` throw as soon as the search comes to it.
-/

namespace SoulCoreKit.Scheduler

open SoulCoreKit.Lib

/-! ### One part -/

/-- What a part is read as: the number after its first `/`, and the range before it. -/
structure CronReading where
  step : Int
  first : Int
  last : Int
  deriving DecidableEq, Repr

def readPart (min max : Int) (part : List Char) : Except CronError CronReading :=
  (splitStep part).bind fun (step, rangePart) =>
    (splitRange min max rangePart).map fun (first, last) => { step, first, last }

def CronReading.InRange (r : CronReading) (value : Int) : Prop := r.first ≤ value ∧ value ≤ r.last

def CronReading.Covers (r : CronReading) (value : Int) : Prop :=
  r.first ≤ value ∧ value ≤ r.last ∧ r.step ∣ value - r.first

/-- The value is one that the part stands for, as it is read. -/
def PartCovers (min max value : Int) (part : List Char) : Prop :=
  ∃ r, readPart min max part = .ok r ∧ r.Covers value

/-- The part can be read, and its step is not 0 where the value lies in its range. -/
def PartReads (min max value : Int) (part : List Char) : Prop :=
  ∃ r, readPart min max part = .ok r ∧ (r.InRange value → r.step ≠ 0)

theorem matchPart_eq (value min max : Int) (part : List Char) :
    matchPart value min max part =
      (readPart min max part).bind fun r => inStep value r.step r.first r.last := by
  rw [matchPart, readPart]
  cases splitStep part with
  | error e => rfl
  | ok split =>
    obtain ⟨step, rangePart⟩ := split
    simp only [Except.bind]
    cases splitRange min max rangePart <;> rfl

theorem matchPart_reads (value min max : Int) (part : List Char) :
    DecidesOn (matchPart value min max part) (PartCovers min max value part)
      (PartReads min max value part) := by
  rw [matchPart_eq]
  exact DecidesOn.bind fun r => inStep_decides value r.step r.first r.last

/-! ### One field -/

def FieldCovers (min max value : Int) (field : List Char) : Prop :=
  ∃ part ∈ getlines field, PartCovers min max value part

/-- Every part up to the first that covers the value can be read. -/
def ReadsParts (min max value : Int) : List (List Char) → Prop
  | [] => True
  | part :: parts =>
      PartReads min max value part ∧ (PartCovers min max value part ∨ ReadsParts min max value parts)

def FieldReads (min max value : Int) (field : List Char) : Prop :=
  ReadsParts min max value (getlines field)

theorem matchParts_reads (value min max : Int) (parts : List (List Char)) :
    DecidesOn (matchParts value min max parts) (∃ part ∈ parts, PartCovers min max value part)
      (ReadsParts min max value parts) := by
  induction parts with
  | nil => exact DecidesOn.pure (by simp)
  | cons part parts ih =>
    refine ((matchPart_reads value min max part).orElse ih).congr ?_ Iff.rfl
    simp only [List.mem_cons, exists_eq_or_imp]

/-- The shortcut for `*` is what the list with this one part comes to. -/
theorem matchCronField_reads {value min max : Int} {field : List Char} (hfield : field ≠ [])
    (hmin : min ≤ value) (hmax : value ≤ max) :
    DecidesOn (matchCronField value field min max) (FieldCovers min max value field)
      (FieldReads min max value field) := by
  have hempty : field.isEmpty = false := by simpa using hfield
  rw [matchCronField, hempty, if_neg Bool.false_ne_true]
  by_cases hstar : field = ['*']
  · have hread : readPart min max ['*'] = .ok { step := 1, first := min, last := max } := rfl
    have hcovers : PartCovers min max value ['*'] := ⟨_, hread, hmin, hmax, one_dvd _⟩
    have hreads : PartReads min max value ['*'] := ⟨_, hread, fun _ => one_ne_zero⟩
    rw [if_pos hstar, hstar]
    refine (DecidesOn.pure (p := True) (by simp)).congr ?_ ?_
    · exact iff_of_true trivial ⟨_, List.mem_cons_self, hcovers⟩
    · exact iff_of_true trivial ⟨hreads, .inl hcovers⟩
  · rw [if_neg hstar]
    exact matchParts_reads value min max (getlines field)

/-! ### The search -/

namespace CronFields

variable (f : CronFields)

def Matches (t : QDateTime) : Prop :=
  FieldCovers 0 59 t.time.minute f.minuteF ∧
    FieldCovers 0 23 t.time.hour f.hourF ∧
    FieldCovers 1 31 t.date.day f.domF ∧
    FieldCovers 1 12 t.date.month f.monthF ∧
    FieldCovers 0 6 t.weekday f.dowF

/-- Each field that is matched at the time can be read as far as it is. -/
def ReadsAt (t : QDateTime) : Prop :=
  FieldReads 0 59 t.time.minute f.minuteF ∧
    (FieldCovers 0 59 t.time.minute f.minuteF →
      FieldReads 0 23 t.time.hour f.hourF ∧
        (FieldCovers 0 23 t.time.hour f.hourF →
          FieldReads 1 31 t.date.day f.domF ∧
            (FieldCovers 1 31 t.date.day f.domF →
              FieldReads 1 12 t.date.month f.monthF ∧
                (FieldCovers 1 12 t.date.month f.monthF → FieldReads 0 6 t.weekday f.dowF))))

/-- The fields are lists of `*`, `n` and `a-b` with an optional `/k`. -/
def WellFormed : Prop := ∃ e : CronExpression, e.fields = f

end CronFields

/-- The minutes of the search range. -/
def minutesAfter (fromTime : QDateTime) : Set QDateTime :=
  {t | 60000 ∣ t.msecs ∧ fromTime < t ∧ t ≤ searchEnd fromTime}

/-- Everything that the search comes to can be read. -/
def CronFields.Readable (f : CronFields) (fromTime : QDateTime) : Prop :=
  ∀ t ∈ minutesAfter fromTime, (∀ s ∈ minutesAfter fromTime, s < t → ¬f.Matches s) → f.ReadsAt t

/-- No minute of the search range matches, as the fields are read. -/
def CronFields.Unmatched (f : CronFields) (fromTime : QDateTime) : Prop :=
  ∀ t ∈ minutesAfter fromTime, ¬f.Matches t

/-- `nextCronTime` returns, and returns an invalid time where the text has not five fields of the grammar. -/
def Rejects (text : List Char) (fromTime : QDateTime) : Prop :=
  ∃ next, nextCronTime text fromTime = .ok next ∧
    ((∀ f, parseFields text = some f → ¬f.WellFormed) → next = none)

/-! ### What the text comes to -/

/-- A word that was extracted is not empty. -/
theorem extract_ne_nil {stream word rest : List Char} (h : extract stream = some (word, rest)) :
    word ≠ [] := by
  rw [extract] at h
  split at h
  · contradiction
  · rename_i hempty
    obtain ⟨rfl, -⟩ := Prod.mk.inj (Option.some.inj h)
    simpa using hempty

theorem parseFields_ne_nil {text : List Char} {f : CronFields} (h : parseFields text = some f) :
    f.minuteF ≠ [] ∧ f.hourF ≠ [] ∧ f.domF ≠ [] ∧ f.monthF ≠ [] ∧ f.dowF ≠ [] := by
  simp only [parseFields, Option.bind_eq_bind, Option.bind_eq_some_iff] at h
  obtain ⟨⟨_, _⟩, hminute, ⟨_, _⟩, hhour, ⟨_, _⟩, hdom, ⟨_, _⟩, hmonth, ⟨_, _⟩, hdow, hf⟩ := h
  obtain rfl := Option.some.inj hf
  exact ⟨extract_ne_nil hminute, extract_ne_nil hhour, extract_ne_nil hdom, extract_ne_nil hmonth,
    extract_ne_nil hdow⟩

theorem matchesAt_reads {text : List Char} {f : CronFields} (h : parseFields text = some f) (t : QDateTime) :
    DecidesOn (matchesAt f t) (f.Matches t) (f.ReadsAt t) := by
  obtain ⟨hmonth, hday⟩ := t.date.monthDay_bounds
  have hminute := t.time.minute_bounds
  have hhour := QTime.hour_bounds t.time_bounds
  have hweek := t.weekday_bounds
  obtain ⟨hminuteF, hhourF, hdomF, hmonthF, hdowF⟩ := parseFields_ne_nil h
  simp only [matchesAt, t.dayOfWeek_mod]
  exact (matchCronField_reads hminuteF hminute.1 hminute.2).andThen <|
    (matchCronField_reads hhourF hhour.1 hhour.2).andThen <|
    (matchCronField_reads hdomF hday.1 hday.2).andThen <|
    (matchCronField_reads hmonthF hmonth.1 hmonth.2).andThen <|
    matchCronField_reads hdowF hweek.1 hweek.2

/-- The minutes of the range are the candidates of the search. -/
theorem mem_minutesAfter {fromTime t : QDateTime} :
    t ∈ minutesAfter fromTime ↔ ∃ i < maxIterations, t = candidate fromTime i := by
  constructor
  · rintro ⟨hwhole, hafter, hend⟩
    obtain ⟨i, rfl⟩ := exists_candidate hwhole hafter
    exact ⟨i, candidate_le_searchEnd_iff.mp hend, rfl⟩
  · rintro ⟨i, hi, rfl⟩
    exact ⟨Dvd.intro_left _ rfl, lt_candidate fromTime i, candidate_le_searchEnd_iff.mpr hi⟩

theorem candidate_lt_iff {fromTime : QDateTime} {i j : Nat} :
    candidate fromTime i < candidate fromTime j ↔ i < j := by
  simp only [QDateTime.lt_iff, candidate]
  omega

theorem readable_iff {f : CronFields} {fromTime : QDateTime} :
    f.Readable fromTime ↔
      SearchedIn f.Matches f.ReadsAt (·.addSecs 60) maxIterations (firstCandidate fromTime) := by
  simp only [SearchedIn, iterate_firstCandidate]
  constructor
  · intro h i hi hbefore
    refine h _ (mem_minutesAfter.mpr ⟨i, hi, rfl⟩) fun s hs hlt => ?_
    obtain ⟨j, -, rfl⟩ := mem_minutesAfter.mp hs
    exact hbefore j (candidate_lt_iff.mp hlt)
  · intro h t ht hbefore
    obtain ⟨i, hi, rfl⟩ := mem_minutesAfter.mp ht
    refine h i hi fun j hj => ?_
    exact hbefore _ (mem_minutesAfter.mpr ⟨j, hj.trans hi, rfl⟩) (candidate_lt_iff.mpr hj)

theorem unmatched_iff {f : CronFields} {fromTime : QDateTime} :
    f.Unmatched fromTime ↔
      IsFirstOf f.Matches (·.addSecs 60) maxIterations (firstCandidate fromTime) none := by
  simp only [IsFirstOf, iterate_firstCandidate]
  constructor
  · intro h i hi
    exact h _ (mem_minutesAfter.mpr ⟨i, hi, rfl⟩)
  · intro h t ht
    obtain ⟨i, hi, rfl⟩ := mem_minutesAfter.mp ht
    exact h i hi

/-- Arbitrary text is not fatal, and text that is not of the grammar is rejected, exactly where it has fewer
than five words, or everything that the search comes to can be read and the fields are of the grammar or match
no minute. -/
theorem rejects_iff (text : List Char) (fromTime : QDateTime) :
    Rejects text fromTime ↔ ∀ f, parseFields text = some f →
      f.Readable fromTime ∧ (f.WellFormed ∨ f.Unmatched fromTime) := by
  rw [Rejects, nextCronTime]
  cases htext : parseFields text with
  | none => simp
  | some f =>
    have hdecides := matchesAt_reads htext
    simp only [Option.some.injEq, forall_eq']
    by_cases hread : f.Readable fromTime
    case neg =>
      obtain ⟨e, he⟩ := firstOf_throws hdecides (mt readable_iff.mpr hread)
      simp [hread, he]
    obtain ⟨next, hnext, hfirst⟩ := firstOf_ok hdecides (readable_iff.mp hread)
    have hnone : next = none ↔ f.Unmatched fromTime := by
      rw [unmatched_iff]
      cases next with
      | none => exact iff_of_true rfl hfirst
      | some t =>
        obtain ⟨i, hi, rfl, hmatches, -⟩ := hfirst
        exact iff_of_false (by simp) fun hunmatched => hunmatched i hi hmatches
    rw [hnext]
    simp only [Except.ok.injEq, exists_eq_left', hnone, hread, true_and]
    exact imp_iff_not_or.trans (or_congr_left not_not)

/-- A step of 0. -/
theorem step_zero_throws :
    nextCronTime "*/0 * * * *".toList ⟨0⟩ = .error .divisionByZero ∧
      ¬Rejects "*/0 * * * *".toList ⟨0⟩ := by
  have hthrows : nextCronTime "*/0 * * * *".toList ⟨0⟩ = .error .divisionByZero := by decide +kernel
  refine ⟨hthrows, ?_⟩
  rintro ⟨next, hnext, -⟩
  rw [hthrows] at hnext
  cases hnext

end SoulCoreKit.Scheduler
