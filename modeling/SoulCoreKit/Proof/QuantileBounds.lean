import Mathlib.Algebra.Order.Field.Basic
import Mathlib.Tactic.Linarith
import Mathlib.Tactic.GCongr
import Mathlib.Tactic.Ring
import SoulCoreKit.Proof.HistogramExport

/-!
# Where quantile estimates lie

An estimate lies between the edges of its bucket. The first bucket starts at the least value and ends at the
first boundary, and only the last one ends at the greatest value.
-/

namespace SoulCoreKit.Observability

open SoulCoreKit.Lib

variable {boundaries values : List Rat} {least greatest target : Rat} {i j : Nat}

/-! ### Buckets and their edges -/

/-- Where the `j`-th bucket starts, and the one before it ends. -/
def edge (boundaries : List Rat) (least greatest : Rat) : Nat → Rat
  | 0 => least
  | j + 1 => boundaries[j]?.getD greatest

/-- The first bucket up to whose end there are as many values as the target. -/
structure IsBucket (boundaries values : List Rat) (target : Rat) (j : Nat) : Prop where
  le_length : j ≤ boundaries.length
  reached : target ≤ countBefore boundaries values (j + 1)
  first : ∀ k < j, (countBefore boundaries values (k + 1) : Rat) < target

/-- The estimate from the `j`-th bucket. -/
def estimate (boundaries values : List Rat) (least greatest target : Rat) (j : Nat) : Rat :=
  if countIn boundaries values j = 0 then
    edge boundaries least greatest (j + 1)
  else
    edge boundaries least greatest j +
      (target - countBefore boundaries values j) / countIn boundaries values j *
        (edge boundaries least greatest (j + 1) - edge boundaries least greatest j)

theorem interpolate_eq {s : HistogramSnapshot Rat} (hboundaries : s.boundaries = boundaries)
    (hj : j ≤ boundaries.length) {cumulative bucketCount : UInt64}
    (hcount : bucketCount.toNat = countIn boundaries values j)
    (hbefore : (cumulative - bucketCount).toNat = countBefore boundaries values j) :
    s.interpolate target j cumulative bucketCount =
      estimate boundaries values s.min s.max target j := by
  have hstart : (if j = 0 then s.min else boundaries[j - 1]?.getD s.max) = edge boundaries s.min s.max j := by
    cases j <;> rfl
  have hend : (if j < boundaries.length then boundaries[j]?.getD s.max else s.max) =
      edge boundaries s.min s.max (j + 1) := by
    split
    · rfl
    · rename_i hlast
      rw [edge, List.getElem?_eq_none (Nat.not_lt.mp hlast), Option.getD_none]
  simp only [HistogramSnapshot.interpolate, hboundaries, hstart, hend, hcount, hbefore, estimate]
  by_cases hempty : countIn boundaries values j = 0
  · rw [if_pos hempty, if_pos]
    simp [hempty]
  · have hpos : ¬((countIn boundaries values j : Rat) ≤ 0) := by
      rw [not_le]
      exact_mod_cast Nat.pos_of_ne_zero hempty
    rw [if_neg hempty, if_neg hpos]

/-- The loop comes to the bucket of the target. -/
theorem quantileFrom_eq {h : Histogram Rat} {name help : List Char}
    (hcounts : Counts name help boundaries values h) (hsorted : boundaries.Pairwise (· ≤ ·))
    (hfew : values.length < 2 ^ 64) (htarget : target ≤ values.length) {k : Nat}
    (hi : i + k = boundaries.length) {cumulative : UInt64}
    (hcumulative : cumulative.toNat = countBefore boundaries values i)
    (hfirst : ∀ k < i, (countBefore boundaries values (k + 1) : Rat) < target) :
    ∃ j, IsBucket boundaries values target j ∧
      h.snapshot.quantileFrom target i cumulative (h.mBucketCounts.drop i) =
        estimate boundaries values h.mMin h.mMax target j := by
  induction k generalizing i cumulative with
  | zero =>
      obtain rfl : i = boundaries.length := by omega
      obtain ⟨c, hdrop, hin, hnext⟩ := hcounts.drop_bucketCounts hfew le_rfl hcumulative
      have hreached : target ≤ countBefore boundaries values (boundaries.length + 1) := by
        rwa [countBefore_end hsorted]
      have hbefore : (cumulative + c - c).toNat = countBefore boundaries values boundaries.length := by
        rwa [UInt64.add_sub_cancel]
      refine ⟨boundaries.length, ⟨le_rfl, hreached, hfirst⟩, ?_⟩
      rw [hdrop, HistogramSnapshot.quantileFrom]
      simp only [hnext, ge_iff_le, if_pos hreached]
      exact interpolate_eq hcounts.sameBoundaries le_rfl hin hbefore
  | succ k ih =>
      have hlt : i < boundaries.length := by omega
      obtain ⟨c, hdrop, hin, hnext⟩ := hcounts.drop_bucketCounts hfew hlt.le hcumulative
      rw [hdrop, HistogramSnapshot.quantileFrom]
      simp only [hnext, ge_iff_le]
      by_cases hreached : target ≤ countBefore boundaries values (i + 1)
      · have hbefore : (cumulative + c - c).toNat = countBefore boundaries values i := by
          rwa [UInt64.add_sub_cancel]
        rw [if_pos hreached]
        exact ⟨i, ⟨hlt.le, hreached, hfirst⟩, interpolate_eq hcounts.sameBoundaries hlt.le hin hbefore⟩
      · rw [if_neg hreached]
        refine ih (by omega) hnext fun k hk => ?_
        obtain hk | rfl := Nat.lt_succ_iff_lt_or_eq.mp hk
        · exact hfirst k hk
        · exact not_le.mp hreached

/-- A quantile is the estimate from the bucket of its target. -/
theorem quantile_eq {h : Histogram Rat} {name help : List Char}
    (hcounts : Counts name help boundaries values h) (hsorted : boundaries.Pairwise (· ≤ ·))
    (hfew : values.length < 2 ^ 64) (hne : values ≠ []) {q : Rat} (hzero : 0 ≤ q) (hone : q ≤ 1) :
    ∃ j, IsBucket boundaries values (q * values.length) j ∧
      h.snapshot.quantile q = estimate boundaries values h.mMin h.mMax (q * values.length) j := by
  have hrange : ¬(q < 0 ∨ q > 1) := by
    rw [not_or]
    exact ⟨hzero.not_gt, hone.not_gt⟩
  have hcount : ¬h.snapshot.count = 0 := mt hcounts.count_eq_zero_iff.mp hne
  have htarget : q * values.length ≤ values.length := mul_le_of_le_one_left (Nat.cast_nonneg _) hone
  have hstart : (0 : UInt64).toNat = countBefore boundaries values 0 :=
    (countBefore_zero boundaries values).symm
  obtain ⟨j, hbucket, hfrom⟩ := quantileFrom_eq hcounts hsorted hfew htarget (Nat.zero_add _) hstart
    fun k hk => absurd hk (Nat.not_lt_zero k)
  refine ⟨j, hbucket, ?_⟩
  rw [← hfrom, HistogramSnapshot.quantile, if_neg hrange, if_neg hcount, List.drop_zero]
  change h.snapshot.quantileFrom (q * (h.mCount.toNat : Rat)) 0 0 h.initialised = _
  rw [hcounts.count, hcounts.initialised]

/-! ### Estimates within a bucket -/

theorem cast_countBefore_succ (boundaries values : List Rat) (j : Nat) :
    (countBefore boundaries values (j + 1) : Rat) =
      countBefore boundaries values j + countIn boundaries values j := by
  exact_mod_cast countBefore_succ boundaries values j

theorem IsBucket.before_lt (hbucket : IsBucket boundaries values target j) (hpos : 0 < target) :
    (countBefore boundaries values j : Rat) < target := by
  cases j with
  | zero => simpa [countBefore_zero] using hpos
  | succ k => exact hbucket.first k (Nat.lt_succ_self k)

theorem IsBucket.before_le (hbucket : IsBucket boundaries values target j) (hnonneg : 0 ≤ target) :
    (countBefore boundaries values j : Rat) ≤ target := by
  obtain hpos | rfl := hnonneg.lt_or_eq
  · exact (hbucket.before_lt hpos).le
  · cases j with
    | zero => simp [countBefore_zero]
    | succ k => exact (hbucket.first k (Nat.lt_succ_self k)).le

/-- There are values in the bucket of a positive target. -/
theorem IsBucket.countIn_ne_zero (hbucket : IsBucket boundaries values target j) (hpos : 0 < target) :
    countIn boundaries values j ≠ 0 := by
  intro hzero
  have hreached := hbucket.reached
  rw [cast_countBefore_succ, hzero, Nat.cast_zero, add_zero] at hreached
  exact (hbucket.before_lt hpos).not_ge hreached

theorem IsBucket.eq_zero (hbucket : IsBucket boundaries values 0 j) : j = 0 := by
  by_contra hne
  have hnegative := hbucket.first 0 (Nat.pos_of_ne_zero hne)
  exact hnegative.not_ge (Nat.cast_nonneg _)

/-- Two buckets for targets in this order are in this order. -/
theorem IsBucket.mono {target' : Rat} {j' : Nat} (hbucket : IsBucket boundaries values target j)
    (hbucket' : IsBucket boundaries values target' j') (hle : target ≤ target') : j ≤ j' := by
  by_contra hlt
  exact ((hbucket.first j' (not_le.mp hlt)).trans_le hle).not_ge hbucket'.reached

theorem estimate_of_ne_zero (hne : countIn boundaries values j ≠ 0) :
    estimate boundaries values least greatest target j =
      edge boundaries least greatest j +
        (target - countBefore boundaries values j) / countIn boundaries values j *
          (edge boundaries least greatest (j + 1) - edge boundaries least greatest j) :=
  if_neg hne

theorem estimate_between (hne : countIn boundaries values j ≠ 0)
    (hedges : edge boundaries least greatest j ≤ edge boundaries least greatest (j + 1))
    (hbefore : (countBefore boundaries values j : Rat) ≤ target)
    (hreached : target ≤ countBefore boundaries values (j + 1)) :
    edge boundaries least greatest j ≤ estimate boundaries values least greatest target j ∧
      estimate boundaries values least greatest target j ≤ edge boundaries least greatest (j + 1) := by
  have hcount : (0 : Rat) < countIn boundaries values j := by exact_mod_cast Nat.pos_of_ne_zero hne
  rw [cast_countBefore_succ] at hreached
  have hlow : 0 ≤ (target - countBefore boundaries values j) / countIn boundaries values j :=
    div_nonneg (sub_nonneg.mpr hbefore) hcount.le
  have hhigh : (target - countBefore boundaries values j) / countIn boundaries values j ≤ 1 := by
    rw [div_le_one hcount]
    linarith
  have hspan := sub_nonneg.mpr hedges
  rw [estimate_of_ne_zero hne]
  constructor
  · have hstep := mul_nonneg hlow hspan
    linarith
  · have hstep := mul_le_of_le_one_left hspan hhigh
    linarith

theorem estimate_mono {target' : Rat} (hne : countIn boundaries values j ≠ 0)
    (hedges : edge boundaries least greatest j ≤ edge boundaries least greatest (j + 1))
    (hle : target ≤ target') :
    estimate boundaries values least greatest target j ≤
      estimate boundaries values least greatest target' j := by
  have hcount : (0 : Rat) ≤ countIn boundaries values j := Nat.cast_nonneg _
  have hspan := sub_nonneg.mpr hedges
  rw [estimate_of_ne_zero hne, estimate_of_ne_zero hne]
  gcongr

/-- The estimate for the count at the end of a bucket is its edge. -/
theorem estimate_end (hne : countIn boundaries values j ≠ 0)
    (htarget : target = countBefore boundaries values (j + 1)) :
    estimate boundaries values least greatest target j = edge boundaries least greatest (j + 1) := by
  have hcount : (countIn boundaries values j : Rat) ≠ 0 := by exact_mod_cast hne
  rw [estimate_of_ne_zero hne, htarget, cast_countBefore_succ, add_sub_cancel_left, div_self hcount]
  ring

/-! ### Edges -/

theorem exists_mem_bucket (hne : countIn boundaries values j ≠ 0) :
    ∃ value ∈ values, lowerBound boundaries value = j := by
  obtain ⟨value, hvalue, hbucket⟩ := List.countP_pos_iff.mp (Nat.pos_of_ne_zero hne)
  exact ⟨value, hvalue, of_decide_eq_true hbucket⟩

/-- The bounds of the values over boundaries that ascend. -/
structure Spread (boundaries values : List Rat) (least greatest : Rat) : Prop where
  nonempty : boundaries ≠ []
  ascending : boundaries.Pairwise (· < ·)
  least : IsLeast {value | value ∈ values} least
  greatest : IsGreatest {value | value ∈ values} greatest

namespace Spread

variable (hspread : Spread boundaries values least greatest)

include hspread

theorem sorted : boundaries.Pairwise (· ≤ ·) := hspread.ascending.imp le_of_lt

/-- Before the last edge, which is the greatest value, the edges are in order where the first is. -/
theorem edge_le_edge (hfirst : ∀ b ∈ boundaries, least ≤ b) (hij : i ≤ j) (hj : j ≤ boundaries.length) :
    edge boundaries least greatest i ≤ edge boundaries least greatest j := by
  cases j with
  | zero =>
      obtain rfl := Nat.le_zero.mp hij
      exact le_rfl
  | succ j =>
      have hget := List.getElem?_eq_getElem (Nat.lt_of_succ_le hj)
      cases i with
      | zero =>
          rw [edge, edge, hget, Option.getD_some]
          exact hfirst _ (List.getElem_mem _)
      | succ i =>
          have hle : i ≤ j := Nat.le_of_succ_le_succ hij
          have hget' := List.getElem?_eq_getElem (hle.trans_lt (Nat.lt_of_succ_le hj))
          rw [edge, edge, hget, hget', Option.getD_some, Option.getD_some]
          exact getElem?_mono hspread.sorted hget' hget hle

/-- A bucket with values ends at its start or after it. -/
theorem edge_le_succ (hfirst : ∀ b ∈ boundaries, least ≤ b) (hj : j ≤ boundaries.length)
    (hne : countIn boundaries values j ≠ 0) :
    edge boundaries least greatest j ≤ edge boundaries least greatest (j + 1) := by
  obtain hlt | rfl := hj.lt_or_eq
  · exact hspread.edge_le_edge hfirst (Nat.le_succ j) hlt
  · obtain ⟨value, hvalue, hbucket⟩ := exists_mem_bucket hne
    obtain ⟨last, hlast⟩ := Nat.exists_eq_succ_of_ne_zero (mt List.length_eq_zero_iff.mp hspread.nonempty)
    have hget := List.getElem?_eq_getElem (hlast ▸ Nat.lt_succ_self last : last < boundaries.length)
    have habove := ((lowerBound_spec hspread.sorted value).1 last _ hget).mp (by omega)
    rw [edge, List.getElem?_eq_none le_rfl, Option.getD_none, hlast, edge, hget, Option.getD_some]
    exact habove.le.trans (hspread.greatest.2 hvalue)

/-- A bucket with values does not end above the greatest value where that is a boundary or above all. -/
theorem edge_succ_le_greatest (hlast : greatest ∈ boundaries ∨ ∀ b ∈ boundaries, b < greatest)
    (hne : countIn boundaries values j ≠ 0) : edge boundaries least greatest (j + 1) ≤ greatest := by
  rw [edge]
  cases hget : boundaries[j]? with
  | none => exact le_rfl
  | some b =>
      rw [Option.getD_some]
      obtain hmem | habove := hlast
      · obtain ⟨k, hk⟩ := List.mem_iff_getElem?.mp hmem
        obtain ⟨value, hvalue, hbucket⟩ := exists_mem_bucket hne
        have hparts := (lowerBound_spec hspread.sorted value).1 k _ hk
        refine getElem?_mono hspread.sorted hget hk (Nat.le_of_not_lt fun hlt => ?_)
        exact (hparts.mp (hbucket ▸ hlt)).not_ge (hspread.greatest.2 hvalue)
      · exact (habove b (List.mem_of_getElem? hget)).le

/-- No value above a boundary is in its bucket or before it. -/
theorem le_of_lowerBound_le {value b : Rat} (hget : boundaries[j]? = some b)
    (hbucket : lowerBound boundaries value ≤ j) : value ≤ b := by
  have hparts := (lowerBound_spec hspread.sorted value).1 j b hget
  exact not_lt.mp fun hlt => hbucket.not_gt (hparts.mpr hlt)

theorem greatest_le_edge_succ (hall : countBefore boundaries values (j + 1) = values.length) :
    greatest ≤ edge boundaries least greatest (j + 1) := by
  rw [edge]
  cases hget : boundaries[j]? with
  | none => exact le_rfl
  | some b =>
      have hbefore := List.countP_eq_length.mp hall greatest hspread.greatest.1
      exact hspread.le_of_lowerBound_le hget (Nat.le_of_lt_succ (of_decide_eq_true hbefore))

/-- A value is above every boundary where it is in the last bucket. -/
theorem lt_greatest_of_last (hnone : boundaries[j]? = none) (hne : countIn boundaries values j ≠ 0) :
    ∀ b ∈ boundaries, b < greatest := by
  intro b hb
  obtain ⟨value, hvalue, hbucket⟩ := exists_mem_bucket hne
  obtain ⟨k, hk⟩ := List.mem_iff_getElem?.mp hb
  have hlt := (List.getElem?_eq_some_iff.mp hk).1
  have hlength := List.getElem?_eq_none_iff.mp hnone
  exact (((lowerBound_spec hspread.sorted value).1 k b hk).mp (by omega)).trans_le
    (hspread.greatest.2 hvalue)

/-- The bucket of a target has values where the first bucket has. -/
theorem countIn_ne_zero (hfirst : ∀ b ∈ boundaries, least ≤ b)
    (hbucket : IsBucket boundaries values target j) (hnonneg : 0 ≤ target) :
    countIn boundaries values j ≠ 0 := by
  obtain hpos | rfl := hnonneg.lt_or_eq
  · exact hbucket.countIn_ne_zero hpos
  · obtain rfl := hbucket.eq_zero
    refine (List.countP_pos_iff.mpr ⟨least, hspread.least.1, decide_eq_true ?_⟩).ne'
    by_contra hne
    obtain ⟨b, rest, rfl⟩ := List.exists_cons_of_ne_nil hspread.nonempty
    have hlt := ((lowerBound_spec hspread.sorted least).1 0 b rfl).mp (Nat.pos_of_ne_zero hne)
    exact hlt.not_ge (hfirst b List.mem_cons_self)

/-! ### Quantiles -/

theorem estimate_within (hfirst : ∀ b ∈ boundaries, least ≤ b)
    (hlast : greatest ∈ boundaries ∨ ∀ b ∈ boundaries, b < greatest)
    (hbucket : IsBucket boundaries values target j) (hnonneg : 0 ≤ target)
    (hne : countIn boundaries values j ≠ 0) :
    least ≤ estimate boundaries values least greatest target j ∧
      estimate boundaries values least greatest target j ≤ greatest := by
  obtain ⟨hlow, hhigh⟩ := estimate_between hne (hspread.edge_le_succ hfirst hbucket.le_length hne)
    (hbucket.before_le hnonneg) hbucket.reached
  have hstart := hspread.edge_le_edge hfirst (Nat.zero_le j) hbucket.le_length
  exact ⟨hstart.trans hlow, hhigh.trans (hspread.edge_succ_le_greatest hlast hne)⟩

/-- Estimates for targets in this order are in this order. -/
theorem estimate_le_estimate {target' : Rat} {j' : Nat} (hfirst : ∀ b ∈ boundaries, least ≤ b)
    (hbucket : IsBucket boundaries values target j) (hbucket' : IsBucket boundaries values target' j')
    (hnonneg : 0 ≤ target) (hle : target ≤ target') (hne : countIn boundaries values j ≠ 0)
    (hne' : countIn boundaries values j' ≠ 0) :
    estimate boundaries values least greatest target j ≤
      estimate boundaries values least greatest target' j' := by
  have hedges := hspread.edge_le_succ hfirst hbucket.le_length hne
  have hedges' := hspread.edge_le_succ hfirst hbucket'.le_length hne'
  obtain hlt | rfl := (hbucket.mono hbucket' hle).lt_or_eq
  · calc estimate boundaries values least greatest target j
        ≤ edge boundaries least greatest (j + 1) :=
          (estimate_between hne hedges (hbucket.before_le hnonneg) hbucket.reached).2
      _ ≤ edge boundaries least greatest j' := hspread.edge_le_edge hfirst hlt hbucket'.le_length
      _ ≤ estimate boundaries values least greatest target' j' :=
          (estimate_between hne' hedges' (hbucket'.before_le (hnonneg.trans hle)) hbucket'.reached).1
  · exact estimate_mono hne hedges hle

end Spread

/-- Quantile estimates lie between the least and the greatest value, are nondecreasing, and end at the
greatest value. -/
structure Sane (s : HistogramSnapshot Rat) : Prop where
  within : ∀ q, 0 ≤ q → q ≤ 1 → s.min ≤ s.quantile q ∧ s.quantile q ≤ s.max
  mono : ∀ q r, 0 ≤ q → q ≤ r → r ≤ 1 → s.quantile q ≤ s.quantile r
  one : s.quantile 1 = s.max

/-- The least value is not above the first boundary, and the greatest value is a boundary or above the
last. -/
def Spans (boundaries values : List Rat) : Prop :=
  (∃ value ∈ values, ∀ b ∈ boundaries, value ≤ b) ∧
    ∃ value ∈ values, (∀ other ∈ values, other ≤ value) ∧ (value ∈ boundaries ∨ ∀ b ∈ boundaries, b < value)

theorem Spread.spans_iff (hspread : Spread boundaries values least greatest) :
    Spans boundaries values ↔
      (∀ b ∈ boundaries, least ≤ b) ∧ (greatest ∈ boundaries ∨ ∀ b ∈ boundaries, b < greatest) := by
  constructor
  · rintro ⟨⟨value, hvalue, hfirst⟩, ⟨value', hvalue', hall, hlast⟩⟩
    obtain rfl : value' = greatest := le_antisymm (hspread.greatest.2 hvalue') (hall _ hspread.greatest.1)
    exact ⟨fun b hb => (hspread.least.2 hvalue).trans (hfirst b hb), hlast⟩
  · rintro ⟨hfirst, hlast⟩
    exact ⟨⟨least, hspread.least.1, hfirst⟩, greatest, hspread.greatest.1,
      fun other hother => hspread.greatest.2 hother, hlast⟩

theorem Counts.spread {h : Histogram Rat} {name help : List Char}
    (hcounts : Counts name help boundaries values h) (hne : boundaries ≠ [])
    (hascending : boundaries.Pairwise (· < ·)) (hvalues : values ≠ []) :
    Spread boundaries values h.mMin h.mMax where
  nonempty := hne
  ascending := hascending
  least := hcounts.least hvalues
  greatest := hcounts.greatest hvalues

section

variable {h : Histogram Rat} {name help : List Char} (hcounts : Counts name help boundaries values h)
  (hspread : Spread boundaries values h.mMin h.mMax) (hfew : values.length < 2 ^ 64) (hvalues : values ≠ [])

include hcounts hspread hfew hvalues

/-- The quantile of 1 is the edge at the end of the last bucket that has values. -/
theorem quantile_one : ∃ j, countIn boundaries values j ≠ 0 ∧
    countBefore boundaries values (j + 1) = values.length ∧
      h.snapshot.quantile 1 = edge boundaries h.mMin h.mMax (j + 1) := by
  obtain ⟨j, hbucket, hquantile⟩ := quantile_eq hcounts hspread.sorted hfew hvalues zero_le_one le_rfl
  rw [one_mul] at hbucket hquantile
  have hpos : (0 : Rat) < values.length := by exact_mod_cast List.length_pos_iff.mpr hvalues
  have hall : countBefore boundaries values (j + 1) = values.length :=
    le_antisymm (countBefore_le boundaries values (j + 1)) (by exact_mod_cast hbucket.reached)
  have hne := hbucket.countIn_ne_zero hpos
  exact ⟨j, hne, hall, hquantile.trans (estimate_end hne (by rw [hall]))⟩

theorem sane_of_spans (hspans : Spans boundaries values) : Sane h.snapshot := by
  obtain ⟨hfirst, hlast⟩ := hspread.spans_iff.mp hspans
  have hcount : (0 : Rat) ≤ values.length := Nat.cast_nonneg _
  refine ⟨fun q hzero hone => ?_, fun q r hzero hle hone => ?_, ?_⟩
  · obtain ⟨j, hbucket, hquantile⟩ := quantile_eq hcounts hspread.sorted hfew hvalues hzero hone
    have hnonneg := mul_nonneg hzero hcount
    rw [hquantile]
    exact hspread.estimate_within hfirst hlast hbucket hnonneg
      (hspread.countIn_ne_zero hfirst hbucket hnonneg)
  · obtain ⟨j, hbucket, hquantile⟩ :=
      quantile_eq hcounts hspread.sorted hfew hvalues hzero (hle.trans hone)
    obtain ⟨j', hbucket', hquantile'⟩ :=
      quantile_eq hcounts hspread.sorted hfew hvalues (hzero.trans hle) hone
    have hnonneg := mul_nonneg hzero hcount
    have htargets := mul_le_mul_of_nonneg_right hle hcount
    rw [hquantile, hquantile']
    exact hspread.estimate_le_estimate hfirst hbucket hbucket' hnonneg htargets
      (hspread.countIn_ne_zero hfirst hbucket hnonneg)
      (hspread.countIn_ne_zero hfirst hbucket' (hnonneg.trans htargets))
  · obtain ⟨j, hne, hall, hquantile⟩ := quantile_one hcounts hspread hfew hvalues
    rw [hquantile]
    exact le_antisymm (hspread.edge_succ_le_greatest hlast hne) (hspread.greatest_le_edge_succ hall)

/-- Where the first bucket is empty, the quantile of 0 is its end, below every value. -/
theorem spans_of_sane (hsane : Sane h.snapshot) : Spans boundaries values := by
  refine hspread.spans_iff.mpr ⟨fun b hb => ?_, ?_⟩
  · by_contra hlt
    obtain ⟨j, hbucket, hquantile⟩ := quantile_eq hcounts hspread.sorted hfew hvalues le_rfl zero_le_one
    rw [zero_mul] at hbucket hquantile
    obtain rfl := hbucket.eq_zero
    obtain ⟨k, hk⟩ := List.mem_iff_getElem?.mp hb
    obtain ⟨first, rest, rfl⟩ := List.exists_cons_of_ne_nil hspread.nonempty
    have hfirst : first < h.mMin :=
      (getElem?_mono hspread.sorted rfl hk (Nat.zero_le k)).trans_lt (not_le.mp hlt)
    have hempty : countIn (first :: rest) values 0 = 0 := by
      by_contra hne
      obtain ⟨value, hvalue, hbucket⟩ := exists_mem_bucket hne
      have hle := hspread.le_of_lowerBound_le rfl hbucket.le
      exact (hfirst.trans_le (hspread.least.2 hvalue)).not_ge hle
    have hwithin := (hsane.within 0 le_rfl zero_le_one).1
    rw [hquantile, estimate, if_pos hempty] at hwithin
    exact hfirst.not_ge hwithin
  · obtain ⟨j, hne, -, hquantile⟩ := quantile_one hcounts hspread hfew hvalues
    have hone : edge boundaries h.mMin h.mMax (j + 1) = h.mMax := hquantile.symm.trans hsane.one
    rw [edge] at hone
    cases hget : boundaries[j]? with
    | none => exact .inr (hspread.lt_greatest_of_last hget hne)
    | some b =>
        rw [hget, Option.getD_some] at hone
        exact .inl (hone ▸ List.mem_of_getElem? hget)

end

/-- The quantile estimates of a histogram are sane exactly where its values span the boundaries. -/
theorem sane_iff_spans (name help : List Char) {boundaries : List Rat} (hne : boundaries ≠ [])
    (hascending : boundaries.Pairwise (· < ·)) {values : List Rat} (hvalues : values ≠ [])
    (hfew : values.length < 2 ^ 64) :
    ∃ h, Histogram.new name help ⟨boundaries⟩ = .ok h ∧
      (Sane (values.foldl Histogram.observe h).snapshot ↔ Spans boundaries values) := by
  obtain ⟨h, hnew, hstart⟩ := exists_new hne hascending name help
  have hcounts := hstart.foldl hfew
  have hspread := hcounts.spread hne hascending hvalues
  exact ⟨h, hnew, spans_of_sane hcounts hspread hfew hvalues, sane_of_spans hcounts hspread hfew hvalues⟩

theorem sane_iff_spans_latency :
    ∃ h, Histogram.new "ms".toList "Latency".toList ⟨[1, 5]⟩ = .ok h ∧
      (Sane ([7, 1, 3].foldl Histogram.observe h).snapshot ↔ Spans [1, 5] [7, 1, 3]) :=
  sane_iff_spans _ _ (by decide) (by decide) (by decide) (by decide)

/-- One value of 3 over the boundaries 1 and 5: the quantile of 0 is 1, and that of 1 is 5. -/
theorem not_sane_single :
    ∃ h, Histogram.new "ms".toList "Latency".toList ⟨[1, 5]⟩ = .ok h ∧
      ¬Sane ([(3 : Rat)].foldl Histogram.observe h).snapshot := by
  refine ⟨_, rfl, fun hsane => ?_⟩
  exact absurd hsane.one (by decide +kernel)

end SoulCoreKit.Observability
