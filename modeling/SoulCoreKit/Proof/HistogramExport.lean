import Mathlib.Algebra.Order.Ring.Int
import Mathlib.Order.Bounds.Basic
import SoulCoreKit.Observability.Metrics

/-!
# What a histogram counts

A value is counted in the bucket of the first boundary that is not below it, so the counts up to a boundary
add up to the number of the values that are not above it.
-/

namespace SoulCoreKit.Observability

open SoulCoreKit.Lib

variable {α : Type} [LinearOrder α]

/-! ### Counts -/

/-- The values that are not above the boundary. -/
def countLe (values : List α) (boundary : α) : Nat := values.countP (· ≤ boundary)

/-- The values in the buckets before the `i`-th. -/
def countBefore (boundaries values : List α) (i : Nat) : Nat :=
  values.countP fun value => lowerBound boundaries value < i

/-- The values in the `i`-th bucket. -/
def countIn (boundaries values : List α) (i : Nat) : Nat :=
  values.countP fun value => lowerBound boundaries value = i

variable {boundaries values : List α}

theorem countBefore_zero (boundaries values : List α) : countBefore boundaries values 0 = 0 := by
  simp [countBefore]

theorem countBefore_succ (boundaries values : List α) (i : Nat) :
    countBefore boundaries values (i + 1) =
      countBefore boundaries values i + countIn boundaries values i := by
  induction values with
  | nil => rfl
  | cons value values ih =>
      simp only [countBefore, countIn, List.countP_cons, decide_eq_true_eq] at ih ⊢
      rw [ih]
      by_cases hbefore : lowerBound boundaries value < i
      · simp [hbefore, Nat.lt_succ_of_lt hbefore, hbefore.ne]
        omega
      · by_cases hin : lowerBound boundaries value = i
        · simp [hin]
          omega
        · have hnext : ¬lowerBound boundaries value < i + 1 := by omega
          simp [hbefore, hin, hnext]

theorem sum_countIn (boundaries values : List α) (n : Nat) :
    ((List.range n).map (countIn boundaries values)).sum = countBefore boundaries values n := by
  induction n with
  | zero => exact (countBefore_zero boundaries values).symm
  | succ n ih => rw [List.range_succ, List.map_append, List.sum_append, ih, countBefore_succ]; simp

theorem countBefore_le (boundaries values : List α) (i : Nat) :
    countBefore boundaries values i ≤ values.length :=
  List.countP_le_length

theorem countBefore_boundary (hsorted : boundaries.Pairwise (· ≤ ·)) (values : List α) {i : Nat}
    {boundary : α}
    (hboundary : boundaries[i]? = some boundary) :
    countBefore boundaries values (i + 1) = countLe values boundary := by
  refine List.countP_congr fun value _ => ?_
  have hparts := (lowerBound_spec hsorted value).1 i boundary hboundary
  rw [decide_eq_true_eq, decide_eq_true_eq, Nat.lt_succ_iff, ← not_lt, ← not_lt, hparts]

theorem countBefore_end (hsorted : boundaries.Pairwise (· ≤ ·)) (values : List α) :
    countBefore boundaries values (boundaries.length + 1) = values.length := by
  refine List.countP_eq_length.mpr fun value _ => ?_
  rw [decide_eq_true_eq]
  exact Nat.lt_succ_of_le (lowerBound_spec hsorted value).2

theorem countLe_mono (values : List α) {a b : α} (hab : a ≤ b) : countLe values a ≤ countLe values b :=
  List.countP_mono_left fun _ _ hle => decide_eq_true ((of_decide_eq_true hle).trans hab)

theorem countIn_append (boundaries values : List α) (value : α) (i : Nat) :
    countIn boundaries (values ++ [value]) i =
      countIn boundaries values i + if lowerBound boundaries value = i then 1 else 0 := by
  rw [countIn, List.countP_append, List.countP_singleton, countIn]
  simp only [decide_eq_true_eq]

theorem countIn_nil (boundaries : List α) : countIn boundaries [] = fun _ => 0 := rfl

theorem isAscending_of_pairwise (hascending : boundaries.Pairwise (· < ·)) :
    isAscending boundaries = true := by
  induction boundaries with
  | nil => rfl
  | cons previous rest ih =>
      cases rest with
      | nil => rfl
      | cons next rest =>
          have hlt := List.rel_of_pairwise_cons hascending List.mem_cons_self
          simp [isAscending, hlt, ih hascending.of_cons]

theorem bucketLines_cons {β : Type} (toString : β → List Char) (name : List Char) (boundaries : List β)
    (i : Nat) (cumulative bucketCount : UInt64) (rest : List UInt64) :
    bucketLines toString name boundaries i cumulative (bucketCount :: rest) =
      bucketLine name ((boundaries[i]?.map toString).getD "+Inf".toList) (cumulative + bucketCount) ++
        bucketLines toString name boundaries (i + 1) (cumulative + bucketCount) rest := by
  rw [bucketLines]
  cases boundaries[i]? <;> rfl

/-! ### The state of a histogram -/

theorem toNat_succ {n : UInt64} {k : Nat} (hn : n.toNat = k) (hk : k + 1 < 2 ^ 64) :
    (n + 1).toNat = k + 1 := by
  rw [UInt64.toNat_add, hn, UInt64.toNat_one, Nat.mod_eq_of_lt hk]

theorem isLeast_append {value least : α} (hleast : values ≠ [] → IsLeast {v | v ∈ values} least) :
    IsLeast {v | v ∈ values ++ [value]} (if values = [] then value else min least value) := by
  have hset : {v | v ∈ values ++ [value]} = insert value {v | v ∈ values} := by
    ext v
    simp [or_comm]
  rw [hset]
  split
  · rename_i hempty
    simp [hempty]
  · rename_i hne
    rw [min_comm]
    exact (hleast hne).insert value

theorem isGreatest_append {value greatest : α}
    (hgreatest : values ≠ [] → IsGreatest {v | v ∈ values} greatest) :
    IsGreatest {v | v ∈ values ++ [value]} (if values = [] then value else max greatest value) :=
  @isLeast_append αᵒᵈ _ values value greatest hgreatest

variable [Zero α] [Add α] {h : Histogram α} {name help : List Char}

/-- A histogram after these values. -/
structure Counts (name help : List Char) (boundaries values : List α) (h : Histogram α) : Prop where
  sameName : h.mName = name
  sameHelp : h.mHelp = help
  sameBoundaries : h.mBuckets.boundaries = boundaries
  count : h.mCount.toNat = values.length
  sum : h.mSum = values.foldl (· + ·) 0
  least : values ≠ [] → IsLeast {value | value ∈ values} h.mMin
  greatest : values ≠ [] → IsGreatest {value | value ∈ values} h.mMax
  bucketCounts : h.mBucketCounts.map UInt64.toNat =
    (List.range (boundaries.length + 1)).map (countIn boundaries values)

theorem Counts.initialised (hcounts : Counts name help boundaries values h) :
    h.initialised = h.mBucketCounts := by
  have hlength := congrArg List.length hcounts.bucketCounts
  rw [Histogram.initialised, if_neg]
  intro hempty
  rw [List.isEmpty_iff.mp hempty] at hlength
  simp at hlength

theorem Counts.count_eq_zero_iff (hcounts : Counts name help boundaries values h) :
    h.mCount = 0 ↔ values = [] := by
  rw [← UInt64.toNat_inj, hcounts.count, UInt64.toNat_zero, List.length_eq_zero_iff]

/-- The count of a bucket. -/
theorem Counts.getElem?_bucketCounts (hcounts : Counts name help boundaries values h) (i : Nat) :
    h.mBucketCounts[i]?.map UInt64.toNat =
      if i < boundaries.length + 1 then some (countIn boundaries values i) else none := by
  have hold := congrArg (fun counts => counts[i]?) hcounts.bucketCounts
  simp only [List.getElem?_map] at hold
  rw [hold]
  split
  · rename_i hi
    rw [List.getElem?_range hi]
    rfl
  · rename_i hi
    rw [List.getElem?_eq_none (by simpa using hi)]
    rfl

theorem Counts.bucketCounts_observe (hcounts : Counts name help boundaries values h) {value : α}
    (hfew : values.length + 1 < 2 ^ 64) :
    (h.observe value).mBucketCounts.map UInt64.toNat =
      (List.range (boundaries.length + 1)).map (countIn boundaries (values ++ [value])) := by
  refine List.ext_getElem? fun i => ?_
  have hold := hcounts.getElem?_bucketCounts i
  change (List.map UInt64.toNat (h.initialised.modify (h.findBucket value) (· + 1)))[i]? = _
  rw [List.getElem?_map, List.getElem?_map, hcounts.initialised, List.getElem?_modify, Histogram.findBucket,
    hcounts.sameBoundaries]
  split at hold
  · rename_i hi
    obtain ⟨c, hc, hcount⟩ := Option.map_eq_some_iff.mp hold
    have hsmall : c.toNat + 1 < 2 ^ 64 := by
      have hle : countIn boundaries values i ≤ values.length := List.countP_le_length
      omega
    rw [hc, List.getElem?_range hi, Option.map_some, countIn_append, ← hcount]
    by_cases hbucket : lowerBound boundaries value = i
    · simp [hbucket, toNat_succ rfl hsmall]
    · simp [hbucket]
  · rename_i hi
    rw [Option.map_eq_none_iff.mp hold, List.getElem?_eq_none (by simpa using hi)]
    rfl

theorem Counts.observe (hcounts : Counts name help boundaries values h) {value : α}
    (hfew : values.length + 1 < 2 ^ 64) :
    Counts name help boundaries (values ++ [value]) (h.observe value) where
  sameName := hcounts.sameName
  sameHelp := hcounts.sameHelp
  sameBoundaries := hcounts.sameBoundaries
  count := by
    rw [List.length_append, List.length_singleton]
    exact toNat_succ hcounts.count hfew
  sum := by
    rw [List.foldl_append, ← hcounts.sum]
    rfl
  least := fun _ => by
    have hleast := @isLeast_append _ _ values value _ hcounts.least
    simp only [← hcounts.count_eq_zero_iff] at hleast
    exact hleast
  greatest := fun _ => by
    have hgreatest := @isGreatest_append _ _ values value _ hcounts.greatest
    simp only [← hcounts.count_eq_zero_iff] at hgreatest
    exact hgreatest
  bucketCounts := hcounts.bucketCounts_observe hfew

/-- The constructor takes boundaries that ascend. -/
theorem exists_new (hne : boundaries ≠ []) (hascending : boundaries.Pairwise (· < ·))
    (name help : List Char) :
    ∃ h, Histogram.new name help ⟨boundaries⟩ = .ok h ∧ Counts name help boundaries [] h := by
  have hempty : boundaries.isEmpty = false := by simpa using hne
  have hzeros : (List.replicate (boundaries.length + 1) (0 : UInt64)).map UInt64.toNat =
      (List.range (boundaries.length + 1)).map (countIn boundaries []) := by
    simp [countIn_nil, List.map_const']
  refine ⟨{
    mName := name
    mHelp := help
    mBuckets := ⟨boundaries⟩
    mMin := 0
    mMax := 0
    mSum := 0
    mCount := 0
    mBucketCounts := List.replicate (boundaries.length + 1) 0 }, ?_, ?_⟩
  · rw [Histogram.new, hempty, isAscending_of_pairwise hascending]
    rfl
  · exact {
      sameName := rfl
      sameHelp := rfl
      sameBoundaries := rfl
      count := rfl
      sum := rfl
      least := absurd rfl
      greatest := absurd rfl
      bucketCounts := hzeros }

theorem Counts.foldl (hcounts : Counts name help boundaries [] h) (hfew : values.length < 2 ^ 64) :
    Counts name help boundaries values (values.foldl Histogram.observe h) := by
  induction values using List.reverseRecOn with
  | nil => exact hcounts
  | append_singleton values value ih =>
      rw [List.length_append, List.length_singleton] at hfew
      rw [List.foldl_append]
      exact (ih (Nat.lt_of_succ_lt hfew)).observe hfew

/-! ### The text -/

/-- A sample of a bucket with this count. -/
def sampleLine (name le : List Char) (count : Nat) : List Char :=
  name ++ "_bucket\x7ble=\"".toList ++ le ++ "\"\x7d ".toList ++ Nat.toDigits 10 count ++ ['\n']

/-- A sample for each boundary that counts the values up to it, and one for all of them. -/
def samples (toString : α → List Char) (name : List Char) (boundaries values : List α) : List Char :=
  (boundaries.flatMap fun boundary => sampleLine name (toString boundary) (countLe values boundary)) ++
    sampleLine name "+Inf".toList values.length

def exposition (toString put : α → List Char) (name help : List Char) (boundaries values : List α) :
    List Char :=
  histogramText name help (samples toString name boundaries values) (put (values.foldl (· + ·) 0))
    (Nat.toDigits 10 values.length)

theorem bucketLine_eq (name le : List Char) {cumulative : UInt64} {count : Nat}
    (h : cumulative.toNat = count) :
    bucketLine name le cumulative = sampleLine name le count := by
  rw [bucketLine, sampleLine, decimal, h]

/-- The count that is next for a loop over the buckets. -/
theorem Counts.drop_bucketCounts (hcounts : Counts name help boundaries values h)
    (hfew : values.length < 2 ^ 64) {i : Nat} (hi : i ≤ boundaries.length) {cumulative : UInt64}
    (hcumulative : cumulative.toNat = countBefore boundaries values i) :
    ∃ c : UInt64, h.mBucketCounts.drop i = c :: h.mBucketCounts.drop (i + 1) ∧
      c.toNat = countIn boundaries values i ∧
        (cumulative + c).toNat = countBefore boundaries values (i + 1) := by
  have hcount := hcounts.getElem?_bucketCounts i
  rw [if_pos (Nat.lt_succ_of_le hi)] at hcount
  obtain ⟨c, hc, hin⟩ := Option.map_eq_some_iff.mp hcount
  obtain ⟨hbound, hget⟩ := List.getElem?_eq_some_iff.mp hc
  refine ⟨c, by rw [List.drop_eq_getElem_cons hbound, hget], hin, ?_⟩
  have hle := countBefore_le boundaries values (i + 1)
  rw [UInt64.toNat_add, hcumulative, hin, ← countBefore_succ, Nat.mod_eq_of_lt (hle.trans_lt hfew)]

theorem Counts.bucketLines_eq (hcounts : Counts name help boundaries values h)
    (hsorted : boundaries.Pairwise (· ≤ ·)) (hfew : values.length < 2 ^ 64) (toString : α → List Char)
    {i k : Nat} (hi : i + k = boundaries.length) {cumulative : UInt64}
    (hcumulative : cumulative.toNat = countBefore boundaries values i) :
    bucketLines toString name boundaries i cumulative (h.mBucketCounts.drop i) =
      samples toString name (boundaries.drop i) values := by
  induction k generalizing i cumulative with
  | zero =>
      obtain rfl : i = boundaries.length := by omega
      obtain ⟨c, hdrop, -, hnext⟩ := hcounts.drop_bucketCounts hfew le_rfl hcumulative
      have hlength : h.mBucketCounts.length = boundaries.length + 1 := by
        simpa using congrArg List.length hcounts.bucketCounts
      rw [countBefore_end hsorted] at hnext
      rw [hdrop, bucketLines_cons, List.getElem?_eq_none le_rfl, List.drop_of_length_le le_rfl,
        List.drop_of_length_le hlength.le, bucketLine_eq name _ hnext, bucketLines, List.append_nil]
      rfl
  | succ k ih =>
      have hlt : i < boundaries.length := by omega
      have hget := List.getElem?_eq_getElem hlt
      obtain ⟨c, hdrop, -, hnext⟩ := hcounts.drop_bucketCounts hfew hlt.le hcumulative
      have hcount := hnext.trans (countBefore_boundary hsorted values hget)
      rw [hdrop, bucketLines_cons, ih (by omega) hnext, List.drop_eq_getElem_cons hlt, hget,
        bucketLine_eq name _ hcount, samples, samples, List.flatMap_cons, List.append_assoc]
      rfl

/-- What a histogram with these boundaries, which has observed these values, is to tell and to export. -/
structure Accounts (toString put : α → List Char) (name help : List Char) (boundaries values : List α)
    (h : Histogram α) : Prop where
  count : h.snapshot.count.toNat = values.length
  bucketSum : (h.snapshot.bucketCounts.map UInt64.toNat).sum = values.length
  least : values ≠ [] → IsLeast {value | value ∈ values} h.snapshot.min
  greatest : values ≠ [] → IsGreatest {value | value ∈ values} h.snapshot.max
  exported : exportHistogram toString put h = exposition toString put name help boundaries values
  nondecreasing : (boundaries.map (countLe values)).Pairwise (· ≤ ·)

theorem Counts.exportHistogram (hcounts : Counts name help boundaries values h)
    (hsorted : boundaries.Pairwise (· ≤ ·)) (hfew : values.length < 2 ^ 64) (toString put : α → List Char) :
    Observability.exportHistogram toString put h =
      exposition toString put name help boundaries values := by
  have hzero : (0 : UInt64).toNat = countBefore boundaries values 0 :=
    (countBefore_zero boundaries values).symm
  have hlines := hcounts.bucketLines_eq hsorted hfew toString (Nat.zero_add _) hzero
  rw [List.drop_zero, List.drop_zero] at hlines
  have hbuckets : h.snapshot.bucketCounts = h.mBucketCounts := hcounts.initialised
  have hsum : h.snapshot.sum = values.foldl (· + ·) 0 := hcounts.sum
  have hcount : decimal h.snapshot.count = Nat.toDigits 10 values.length :=
    congrArg (Nat.toDigits 10) hcounts.count
  have hbounds : h.snapshot.boundaries = boundaries := hcounts.sameBoundaries
  rw [Observability.exportHistogram, exposition, hcounts.sameName, hcounts.sameHelp, hbuckets, hbounds,
    hlines, hsum, hcount]

/-- A histogram with boundaries that ascend accounts for whatever it observes. -/
theorem histogram_accounts (toString put : α → List Char) (name help : List Char) {boundaries : List α}
    (hne : boundaries ≠ []) (hascending : boundaries.Pairwise (· < ·)) {values : List α}
    (hfew : values.length < 2 ^ 64) :
    ∃ h, Histogram.new name help ⟨boundaries⟩ = .ok h ∧
      Accounts toString put name help boundaries values (values.foldl Histogram.observe h) := by
  have hsorted : boundaries.Pairwise (· ≤ ·) := hascending.imp le_of_lt
  obtain ⟨h, hnew, hstart⟩ := exists_new hne hascending name help
  have hcounts := hstart.foldl hfew
  refine ⟨h, hnew, ?_⟩
  exact {
    count := hcounts.count
    bucketSum := by
      change ((Histogram.initialised _).map UInt64.toNat).sum = _
      rw [hcounts.initialised, hcounts.bucketCounts, sum_countIn, countBefore_end hsorted]
    least := hcounts.least
    greatest := hcounts.greatest
    exported := hcounts.exportHistogram hsorted hfew toString put
    nondecreasing := List.pairwise_map.mpr (hsorted.imp (countLe_mono values)) }

theorem histogram_accounts_latency :
    ∃ h, Histogram.new "ms".toList "Latency".toList ⟨[1, 5]⟩ = .ok h ∧
      Accounts (fun n : Int => Nat.toDigits 10 n.toNat) (fun n => Nat.toDigits 10 n.toNat) "ms".toList
        "Latency".toList [1, 5] [7, 1, 3] ([7, 1, 3].foldl Histogram.observe h) :=
  histogram_accounts _ _ _ _ (by decide) (by decide) (by decide)

end SoulCoreKit.Observability
