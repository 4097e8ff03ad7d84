import SoulCoreKit.Cache.DiskCache

/-!
# The accounting of the disk cache

With file operations that succeed, the byte counter is the sum of the file sizes and the index lists
the files present. One call can break this: `put` notes the size of the key's old file, makes room,
and takes the noted size off the counter after the write; when making room deleted that very file,
its size is taken off twice. The file is deleted exactly when the files no older than it, together
with the new value, exceed the limit.
-/

namespace SoulCoreKit.Cache.DiskCache

open UnorderedMap

variable {Path : Type} [DecidableEq Path] {c c' : DiskCache Path} {path : Path} {env : Env Path}

/-- The bytes of the data files present. -/
def diskBytes (c : DiskCache Path) : Nat := total (fun _ data => data.length) c.files

/-- The counter is the sum of the file sizes and the index lists the files present. -/
structure Accounted (c : DiskCache Path) : Prop where
  bytes : c.totalBytes = c.diskBytes
  index : ∀ path, path ∈ c.lruIndex ↔ path ∈ c.files

/-- The file is deleted before the other one when both are evicted. -/
def precedes (order : List Path) (lruIndex : UnorderedMap Path Time) (path other : Path) : Bool :=
  match lruIndex.lookup path, lruIndex.lookup other with
  | some time, some time' => time < time' ∨ time = time' ∧ List.Sublist [path, other] order
  | _, _ => false

/-- The bytes of the files that are not deleted before the given one. -/
def laterBytes (c : DiskCache Path) (order : List Path) (path : Path) : Nat :=
  total (fun other data => if precedes order c.lruIndex other path then 0 else data.length) c.files

/-- The value survives the cast of its size to `int`, and making room for it spares the file it
replaces, unless that file is empty. -/
def SparesOwn (c : DiskCache Path) (path : Path) (value : Bytes) (env : Env Path) : Prop :=
  value.length < 2 ^ 31 ∧
    (c.dataSizeOnDisk path = 0 ∨ c.config.maxBytes = 0 ∨ c.config.maxBytes < value.length ∨
      c.laterBytes env.order path + value.length ≤ c.config.maxBytes)

instance (c : DiskCache Path) (path : Path) (value : Bytes) (env : Env Path) :
    Decidable (c.SparesOwn path value env) :=
  inferInstanceAs (Decidable (value.length < 2 ^ 31 ∧
    (c.dataSizeOnDisk path = 0 ∨ c.config.maxBytes = 0 ∨ c.config.maxBytes < value.length ∨
      c.laterBytes env.order path + value.length ≤ c.config.maxBytes)))

/-- Every file that is present can be deleted. -/
structure Io.Deletes (io : Io Path) : Prop where
  data : ∀ path, io.removeData path = true
  all : io.stuck = []

omit [DecidableEq Path] in
theorem deletes_of_eq (hio : env.io = {}) : env.io.Deletes := by
  rw [hio]
  exact ⟨fun _ => rfl, rfl⟩

/-! ### Deleting a file -/

theorem dataSizeOnDisk_eq_weightAt (c : DiskCache Path) (path : Path) :
    c.dataSizeOnDisk path = weightAt (fun _ data => data.length) c.files path := by
  unfold dataSizeOnDisk weightAt
  cases c.files.lookup path <;> rfl

theorem diskBytes_erase (c : DiskCache Path) (path : Path) :
    total (fun _ data => data.length) (c.files.erase path) + c.dataSizeOnDisk path =
      c.diskBytes := by
  rw [dataSizeOnDisk_eq_weightAt]
  exact total_erase _ c.files path

omit [DecidableEq Path] in
/-- Where the counter covers the size, the saturating subtraction is a subtraction. -/
theorem subtractSize_totalBytes {oldSize : Nat} (hle : oldSize ≤ c.totalBytes) :
    (c.subtractSize oldSize).totalBytes = c.totalBytes - oldSize := by
  unfold subtractSize
  by_cases hpos : 0 < oldSize
  · rw [if_pos ⟨hpos, hle⟩]
  · rw [if_neg (fun h => hpos h.1)]
    omega

section Frame

variable (c : DiskCache Path) (path : Path) (env : Env Path) (oldSize : Nat)

omit [DecidableEq Path] in
@[simp]
theorem subtractSize_files : (c.subtractSize oldSize).files = c.files := by
  unfold subtractSize
  split <;> rfl

omit [DecidableEq Path] in
@[simp]
theorem subtractSize_lruIndex : (c.subtractSize oldSize).lruIndex = c.lruIndex := by
  unfold subtractSize
  split <;> rfl

omit [DecidableEq Path] in
@[simp]
theorem subtractSize_config : (c.subtractSize oldSize).config = c.config := by
  unfold subtractSize
  split <;> rfl

@[simp]
theorem removeTtl_files : (c.removeTtl path env).files = c.files := by
  unfold removeTtl
  split <;> rfl

@[simp]
theorem removeTtl_lruIndex : (c.removeTtl path env).lruIndex = c.lruIndex := by
  unfold removeTtl
  split <;> rfl

@[simp]
theorem removeTtl_totalBytes : (c.removeTtl path env).totalBytes = c.totalBytes := by
  unfold removeTtl
  split <;> rfl

omit [DecidableEq Path] in
@[simp]
theorem subtractSize_ttlFiles : (c.subtractSize oldSize).ttlFiles = c.ttlFiles := by
  unfold subtractSize
  split <;> rfl

theorem removeTtl_ttlFiles : (c.removeTtl path env).ttlFiles =
    if env.io.removeTtl path then c.ttlFiles.erase path else c.ttlFiles := by
  unfold removeTtl
  split <;> rfl

@[simp]
theorem removeTtl_config : (c.removeTtl path env).config = c.config := by
  unfold removeTtl
  split <;> rfl

end Frame

theorem Accounted.erase (haccounted : c.Accounted) (path : Path)
    (hfiles : c'.files = c.files.erase path) (hindex : c'.lruIndex = c.lruIndex.erase path)
    (hbytes : c'.totalBytes = c.totalBytes - c.dataSizeOnDisk path) : c'.Accounted where
  bytes := by
    have herase := c.diskBytes_erase path
    have htotal := haccounted.bytes
    unfold diskBytes at htotal herase ⊢
    rw [hfiles, hbytes]
    omega
  index other := by
    rw [hfiles, hindex, Finmap.mem_erase, Finmap.mem_erase, haccounted.index]

omit [DecidableEq Path] in
theorem Accounted.of_frame (haccounted : c.Accounted) (hfiles : c'.files = c.files)
    (hindex : c'.lruIndex = c.lruIndex) (hbytes : c'.totalBytes = c.totalBytes) :
    c'.Accounted where
  bytes := by
    unfold diskBytes
    rw [hbytes, hfiles]
    exact haccounted.bytes
  index := by
    rw [hfiles, hindex]
    exact haccounted.index

theorem Accounted.size_le (haccounted : c.Accounted) (path : Path) :
    c.dataSizeOnDisk path ≤ c.totalBytes := by
  have herase := c.diskBytes_erase path
  rw [haccounted.bytes]
  omega

theorem removeData_of_mem (hdeletes : env.io.Deletes) (hmem : path ∈ c.files) :
    c.removeData path env = (true, { c with files := c.files.erase path }) := by
  unfold removeData
  rw [if_pos ⟨hmem, hdeletes.data path⟩]

theorem Accounted.dropExpired (haccounted : c.Accounted) (hdeletes : env.io.Deletes)
    (hmem : path ∈ c.files) : (c.dropExpired path env).Accounted := by
  have hle := haccounted.size_le path
  apply haccounted.erase path
  · simp [DiskCache.dropExpired, removeData_of_mem hdeletes hmem]
  · simp [DiskCache.dropExpired, removeData_of_mem hdeletes hmem]
  · simp only [DiskCache.dropExpired, removeData_of_mem hdeletes hmem]
    rw [subtractSize_totalBytes]
    · simp
    · simpa using hle

theorem Accounted.touchUnlocked (haccounted : c.Accounted) (hmem : path ∈ c.files)
    (env : Env Path) : (c.touchUnlocked path env).Accounted where
  bytes := haccounted.bytes
  index other := by
    have hindex := haccounted.index other
    unfold DiskCache.touchUnlocked
    simp only [Finmap.mem_insert]
    constructor
    · rintro (rfl | hother)
      · exact hmem
      · exact hindex.mp hother
    · intro hother
      exact Or.inr (hindex.mpr hother)

/-! ### Making room -/

theorem oldest_eq_none (lruIndex : UnorderedMap Path Time) {order : List Path}
    (hnone : oldest lruIndex order = none) : ∀ path ∈ order, path ∉ lruIndex := by
  induction order with
  | nil => simp
  | cons first order ih =>
      unfold oldest at hnone
      intro path hpath
      cases hlookup : lruIndex.lookup first with
      | none =>
          rw [hlookup] at hnone
          rcases List.mem_cons.mp hpath with rfl | hrest
          · exact Finmap.lookup_eq_none.mp hlookup
          · exact ih hnone path hrest
      | some time =>
          rw [hlookup] at hnone
          cases hbest : oldest lruIndex order with
          | none =>
              rw [hbest] at hnone
              exact absurd hnone (by simp)
          | some best =>
              rw [hbest] at hnone
              simp only at hnone
              split_ifs at hnone

/-- No file of the order is older than the given one, and those of its age come later. -/
def ComesFirst (lruIndex : UnorderedMap Path Time) (order : List Path) (best : Path × Time) : Prop :=
  ∀ other ∈ order, ∀ time, lruIndex.lookup other = some time →
    best.2 < time ∨ best.2 = time ∧ (other = best.1 ∨ List.Sublist [best.1, other] order)

theorem ComesFirst.le {lruIndex : UnorderedMap Path Time} {order : List Path} {best : Path × Time}
    (hleast : ComesFirst lruIndex order best) {other : Path} (hother : other ∈ order) {time : Time}
    (htime : lruIndex.lookup other = some time) : best.2 ≤ time := by
  rcases hleast other hother time htime with hlt | ⟨heq, -⟩
  · exact hlt.le
  · exact heq.le

theorem ComesFirst.cons {lruIndex : UnorderedMap Path Time} {order : List Path}
    {best : Path × Time} (hleast : ComesFirst lruIndex order best) {first : Path}
    (hfirst : ∀ time, lruIndex.lookup first = some time → best.2 < time) :
    ComesFirst lruIndex (first :: order) best := by
  intro other hother time htime
  rcases List.mem_cons.mp hother with rfl | hrest
  · exact Or.inl (hfirst time htime)
  · rcases hleast other hrest time htime with hlt | ⟨heq, hsame | hsub⟩
    · exact Or.inl hlt
    · exact Or.inr ⟨heq, Or.inl hsame⟩
    · exact Or.inr ⟨heq, Or.inr (hsub.cons first)⟩

theorem comesFirst_head {lruIndex : UnorderedMap Path Time} {order : List Path} {first : Path}
    {time : Time} (hlookup : lruIndex.lookup first = some time)
    (hrest : ∀ other ∈ order, ∀ time', lruIndex.lookup other = some time' → time ≤ time') :
    ComesFirst lruIndex (first :: order) (first, time) := by
  intro other hother time' htime'
  rcases List.mem_cons.mp hother with rfl | hmem
  · rw [hlookup] at htime'
    exact Or.inr ⟨Option.some.inj htime', Or.inl rfl⟩
  · have hsub : List.Sublist [first, other] (first :: order) :=
      (List.singleton_sublist.mpr hmem).cons_cons first
    rcases lt_or_eq_of_le (hrest other hmem time' htime') with hlt | heq
    · exact Or.inl hlt
    · exact Or.inr ⟨heq, Or.inr hsub⟩

/-- The file the eviction picks is listed and nothing listed precedes it. -/
theorem oldest_eq_some (lruIndex : UnorderedMap Path Time) {order : List Path}
    {best : Path × Time} (hbest : oldest lruIndex order = some best) :
    lruIndex.lookup best.1 = some best.2 ∧ ComesFirst lruIndex order best := by
  induction order generalizing best with
  | nil => exact absurd hbest (by simp [oldest])
  | cons first order ih =>
      unfold oldest at hbest
      cases hlookup : lruIndex.lookup first with
      | none =>
          rw [hlookup] at hbest
          obtain ⟨hlisted, hleast⟩ := ih hbest
          exact ⟨hlisted, hleast.cons (by simp [hlookup])⟩
      | some time =>
          rw [hlookup] at hbest
          cases hrest : oldest lruIndex order with
          | none =>
              rw [hrest] at hbest
              obtain rfl := Option.some.inj hbest
              have hnone := oldest_eq_none lruIndex hrest
              refine ⟨hlookup, comesFirst_head hlookup ?_⟩
              intro other hmem time' htime'
              exact absurd (Finmap.mem_of_lookup_eq_some htime') (hnone other hmem)
          | some next =>
              rw [hrest] at hbest
              obtain ⟨hlisted, hleast⟩ := ih hrest
              simp only at hbest
              split_ifs at hbest with hlt
              · obtain rfl := Option.some.inj hbest
                refine ⟨hlisted, hleast.cons ?_⟩
                intro time' htime'
                rw [hlookup] at htime'
                rwa [← Option.some.inj htime']
              · obtain rfl := Option.some.inj hbest
                refine ⟨hlookup, comesFirst_head hlookup ?_⟩
                intro other hmem time' htime'
                exact (not_lt.mp hlt).trans (hleast.le hmem htime')

/-- In a list without repetitions two elements come in one order only. -/
theorem not_sublist_swap {α : Type} {l : List α} (hnodup : l.Nodup) {a b : α}
    (hab : List.Sublist [a, b] l) : ¬ List.Sublist [b, a] l := by
  induction l with
  | nil => exact absurd hab (by simp)
  | cons first l ih =>
      obtain ⟨hfirst, hnodup'⟩ := List.nodup_cons.mp hnodup
      intro hba
      rcases List.sublist_cons_iff.mp hab with hrest | ⟨tail, heq, htail⟩
      · rcases List.sublist_cons_iff.mp hba with hrest' | ⟨tail', heq', htail'⟩
        · exact ih hnodup' hrest hrest'
        · obtain ⟨rfl, rfl⟩ := List.cons.inj heq'
          exact hfirst (hrest.subset (by simp))
      · obtain ⟨rfl, rfl⟩ := List.cons.inj heq
        rcases List.sublist_cons_iff.mp hba with hrest' | ⟨tail', heq', htail'⟩
        · exact hfirst (hrest'.subset (by simp))
        · obtain ⟨rfl, rfl⟩ := List.cons.inj heq'
          exact hfirst (htail.subset (by simp))

/-- The visiting order covers the index. -/
def Visits (order : List Path) (c : DiskCache Path) : Prop :=
  order.Nodup ∧ ∀ path ∈ c.lruIndex, path ∈ order

theorem visits_of_enumerates {order : List Path} (henum : Enumerates order c.lruIndex) :
    Visits order c := by
  refine ⟨henum.1, ?_⟩
  intro path hmem
  rwa [← List.mem_toFinset, henum.2, Finmap.mem_keys]

theorem Visits.of_erase {order : List Path} (hvisits : Visits order c)
    (hindex : c'.lruIndex = c.lruIndex.erase path) : Visits order c' := by
  refine ⟨hvisits.1, ?_⟩
  intro other hother
  rw [hindex, Finmap.mem_erase] at hother
  exact hvisits.2 other hother.2

theorem exists_oldest {order : List Path} (hvisits : Visits order c) (hsize : c.lruIndex.size ≠ 0) :
    ∃ path time, oldest c.lruIndex order = some (path, time) := by
  cases holdest : oldest c.lruIndex order with
  | none =>
      have hempty : c.lruIndex = ∅ := by
        apply Finmap.ext_lookup
        intro path
        rw [Finmap.lookup_empty, Finmap.lookup_eq_none]
        intro hmem
        exact oldest_eq_none c.lruIndex holdest path (hvisits.2 path hmem) hmem
      rw [hempty, size_empty] at hsize
      exact absurd rfl hsize
  | some best => exact ⟨best.1, best.2, rfl⟩

theorem evictLruUnlocked_eq (haccounted : c.Accounted) (hdeletes : env.io.Deletes)
    (hvisits : Visits env.order c) (hsize : c.lruIndex.size ≠ 0) :
    ∃ path time, oldest c.lruIndex env.order = some (path, time) ∧ path ∈ c.files ∧
      (c.evictLruUnlocked env).files = c.files.erase path ∧
      (c.evictLruUnlocked env).lruIndex = c.lruIndex.erase path ∧
      (c.evictLruUnlocked env).totalBytes = c.totalBytes - c.dataSizeOnDisk path ∧
      (c.evictLruUnlocked env).config = c.config := by
  obtain ⟨path, time, holdest⟩ := exists_oldest hvisits hsize
  have hlisted := (oldest_eq_some c.lruIndex holdest).1
  have hmem := (haccounted.index path).mp (Finmap.mem_of_lookup_eq_some hlisted)
  have hle := haccounted.size_le path
  refine ⟨path, time, holdest, hmem, ?_⟩
  unfold evictLruUnlocked
  rw [holdest]
  simp only [removeData_of_mem hdeletes hmem, true_and, removeTtl_totalBytes]
  by_cases hpos : 0 < c.dataSizeOnDisk path
  · simp [hpos, hle]
  · have hzero : c.dataSizeOnDisk path = 0 := by omega
    simp [hzero]

theorem evictLoop_spec (haccounted : c.Accounted) (hdeletes : env.io.Deletes)
    (hvisits : Visits env.order c) (incomingSize : Nat) {fuel : Nat}
    (hfuel : c.lruIndex.size ≤ fuel) :
    (evictLoop incomingSize env fuel c).Accounted ∧
      (evictLoop incomingSize env fuel c).config = c.config ∧
      ((evictLoop incomingSize env fuel c).totalBytes + incomingSize ≤ c.config.maxBytes ∨
        (evictLoop incomingSize env fuel c).lruIndex.size = 0) := by
  induction fuel generalizing c with
  | zero =>
      refine ⟨haccounted, rfl, Or.inr ?_⟩
      unfold evictLoop
      omega
  | succ fuel ih =>
      unfold evictLoop
      split_ifs with hover
      · obtain ⟨path, time, holdest, hmem, hfiles, hindex, hbytes, hconfig⟩ :=
          evictLruUnlocked_eq haccounted hdeletes hvisits hover.2
        have hnext := haccounted.erase path hfiles hindex hbytes
        have hfewer : (c.evictLruUnlocked env).lruIndex.size ≤ fuel := by
          have hsize := size_erase_lt ((haccounted.index path).mpr hmem)
          rw [hindex]
          omega
        have hrest := ih hnext (hvisits.of_erase hindex) hfewer
        rw [hconfig] at hrest
        exact hrest
      · refine ⟨haccounted, rfl, ?_⟩
        rw [not_and_or, not_not, not_lt] at hover
        exact hover

theorem precedes_oldest_eq_false {order : List Path} (hnodup : order.Nodup)
    {lruIndex : UnorderedMap Path Time} {best : Path × Time}
    (hbest : lruIndex.lookup best.1 = some best.2) {other : Path} {time : Time}
    (hother : lruIndex.lookup other = some time)
    (hleast : best.2 < time ∨ best.2 = time ∧ (other = best.1 ∨ List.Sublist [best.1, other] order)) :
    precedes order lruIndex other best.1 = false := by
  unfold precedes
  rw [hother, hbest]
  simp only [decide_eq_false_iff_not, not_or, not_and]
  rcases hleast with hlt | ⟨heq, hsame⟩
  · exact ⟨hlt.le.not_gt, fun heq => absurd heq.symm hlt.ne⟩
  · refine ⟨fun hlt => hlt.ne' heq, fun _ hsub => ?_⟩
    rcases hsame with rfl | hsub'
    · exact absurd (hnodup.sublist hsub) (by simp)
    · exact not_sublist_swap hnodup hsub' hsub

theorem precedes_of_comesFirst {order : List Path} {lruIndex : UnorderedMap Path Time}
    {best : Path × Time} (hleast : ComesFirst lruIndex order best)
    (hbest : lruIndex.lookup best.1 = some best.2) {other : Path} (hother : other ∈ order)
    {time : Time} (htime : lruIndex.lookup other = some time) (hne : other ≠ best.1) :
    precedes order lruIndex best.1 other = true := by
  unfold precedes
  rw [htime, hbest]
  apply decide_eq_true
  rcases hleast other hother time htime with hlt | ⟨heq, hsame | hsub⟩
  · exact Or.inl hlt
  · exact absurd hsame hne
  · exact Or.inr ⟨heq, hsub⟩

theorem precedes_erase {order : List Path} {lruIndex : UnorderedMap Path Time} {other evicted : Path}
    (hother : other ≠ evicted) (hpath : path ≠ evicted) :
    precedes order (lruIndex.erase evicted) other path = precedes order lruIndex other path := by
  unfold precedes
  rw [Finmap.lookup_erase_ne hother, Finmap.lookup_erase_ne hpath]

theorem laterBytes_oldest (haccounted : c.Accounted) (hvisits : Visits env.order c)
    {best : Path × Time} (holdest : oldest c.lruIndex env.order = some best) :
    c.laterBytes env.order best.1 = c.diskBytes := by
  obtain ⟨hlisted, hleast⟩ := oldest_eq_some c.lruIndex holdest
  apply total_congr
  intro other data hother
  have hmem := (haccounted.index other).mpr (Finmap.mem_of_lookup_eq_some hother)
  obtain ⟨time, htime⟩ := Finmap.mem_iff.mp hmem
  have hfirst := hleast other (hvisits.2 other hmem) time htime
  rw [precedes_oldest_eq_false hvisits.1 hlisted htime hfirst]
  rfl

/-- The bytes not deleted before a file stay the same while older ones are deleted. -/
theorem laterBytes_of_evicted (hvisits : Visits env.order c) {best : Path × Time}
    (holdest : oldest c.lruIndex env.order = some best) (hmem : path ∈ c.lruIndex)
    (hne : path ≠ best.1) (hfiles : c'.files = c.files.erase best.1)
    (hindex : c'.lruIndex = c.lruIndex.erase best.1) :
    c'.laterBytes env.order path = c.laterBytes env.order path := by
  obtain ⟨hlisted, hleast⟩ := oldest_eq_some c.lruIndex holdest
  obtain ⟨time, htime⟩ := Finmap.mem_iff.mp hmem
  have hfirst := precedes_of_comesFirst hleast hlisted (hvisits.2 path hmem) htime hne
  have herase := total_erase (fun other data =>
    if precedes env.order c.lruIndex other path then 0 else data.length) c.files best.1
  have hnothing : weightAt (fun other (data : Bytes) =>
      if precedes env.order c.lruIndex other path then 0 else data.length) c.files best.1 = 0 := by
    unfold weightAt
    cases c.files.lookup best.1 with
    | none => rfl
    | some data => exact if_pos hfirst
  rw [hnothing, Nat.add_zero] at herase
  unfold laterBytes
  rw [← herase, hfiles]
  apply total_congr
  intro other data hother
  have hother' : other ≠ best.1 := (Finmap.mem_erase.mp (Finmap.mem_of_lookup_eq_some hother)).1
  rw [hindex, precedes_erase hother' hne]

theorem laterBytes_le_diskBytes (c : DiskCache Path) (order : List Path) (path : Path) :
    c.laterBytes order path ≤ c.diskBytes := by
  apply total_le_total
  intro other data _
  split_ifs
  · exact Nat.zero_le _
  · exact le_rfl

theorem lookup_evictLoop (haccounted : c.Accounted) (hdeletes : env.io.Deletes)
    (hvisits : Visits env.order c) (incomingSize fuel : Nat) (path : Path) :
    (evictLoop incomingSize env fuel c).files.lookup path = c.files.lookup path ∨
      (evictLoop incomingSize env fuel c).files.lookup path = none := by
  induction fuel generalizing c with
  | zero => exact Or.inl rfl
  | succ fuel ih =>
      unfold evictLoop
      split_ifs with hover
      · obtain ⟨evicted, time, -, -, hfiles, hindex, hbytes, -⟩ :=
          evictLruUnlocked_eq haccounted hdeletes hvisits hover.2
        have hrest := ih (haccounted.erase evicted hfiles hindex hbytes) (hvisits.of_erase hindex)
        by_cases heq : path = evicted
        · subst heq
          rw [hfiles, Finmap.lookup_erase] at hrest
          exact Or.inr (or_self_iff.mp hrest)
        · rw [hfiles, Finmap.lookup_erase_ne heq] at hrest
          exact hrest
      · exact Or.inl rfl

/-- A file survives the loop exactly when the files that are not deleted before it leave room for the
new value. -/
theorem mem_evictLoop_iff (haccounted : c.Accounted) (hdeletes : env.io.Deletes)
    (hvisits : Visits env.order c) {incomingSize fuel : Nat} (hfuel : c.lruIndex.size ≤ fuel)
    (hmem : path ∈ c.files) :
    path ∈ (evictLoop incomingSize env fuel c).files ↔
      c.laterBytes env.order path + incomingSize ≤ c.config.maxBytes := by
  have hindexed := (haccounted.index path).mpr hmem
  have hsize := size_erase_lt hindexed
  induction fuel generalizing c with
  | zero => omega
  | succ fuel ih =>
      unfold evictLoop
      split_ifs with hover
      · obtain ⟨evicted, time, holdest, hmem', hfiles, hindex, hbytes, hconfig⟩ :=
          evictLruUnlocked_eq haccounted hdeletes hvisits hover.2
        have hnext := haccounted.erase evicted hfiles hindex hbytes
        have hvisits' := hvisits.of_erase hindex
        by_cases heq : path = evicted
        · subst heq
          have hlater : c.laterBytes env.order path = c.diskBytes :=
            laterBytes_oldest haccounted hvisits holdest
          have hgone : path ∉ (evictLoop incomingSize env fuel (c.evictLruUnlocked env)).files := by
            rw [← Finmap.lookup_eq_none]
            have hrest := lookup_evictLoop hnext hdeletes hvisits' incomingSize fuel path
            rw [hfiles, Finmap.lookup_erase] at hrest
            exact or_self_iff.mp hrest
          have htotal := haccounted.bytes
          refine iff_of_false hgone ?_
          omega
        · have hlater := laterBytes_of_evicted hvisits holdest hindexed heq hfiles hindex
          have hkept : path ∈ (c.evictLruUnlocked env).files := by
            rw [hfiles, Finmap.mem_erase]
            exact ⟨heq, hmem⟩
          have hindexed' := (hnext.index path).mpr hkept
          have hfewer : (c.evictLruUnlocked env).lruIndex.size ≤ fuel := by
            have hevicted := size_erase_lt ((haccounted.index evicted).mpr hmem')
            rw [hindex]
            omega
          have hrest := ih hnext hvisits' hfewer hkept hindexed' (size_erase_lt hindexed')
          rw [hlater, hconfig] at hrest
          exact hrest
      · have hlater := c.laterBytes_le_diskBytes env.order path
        have htotal := haccounted.bytes
        refine iff_of_true hmem ?_
        omega

theorem dataSizeOnDisk_congr (hlookup : c'.files.lookup path = c.files.lookup path) :
    c'.dataSizeOnDisk path = c.dataSizeOnDisk path := by
  unfold dataSizeOnDisk
  rw [hlookup]

theorem evictToFitUnlocked_spec (haccounted : c.Accounted) (hdeletes : env.io.Deletes)
    (hvisits : Visits env.order c) (incomingSize : Nat) :
    (c.evictToFitUnlocked incomingSize env).2.Accounted ∧
      (c.evictToFitUnlocked incomingSize env).2.config = c.config ∧
      ((c.evictToFitUnlocked incomingSize env).1 = true → 0 < c.config.maxBytes →
        (c.evictToFitUnlocked incomingSize env).2.totalBytes + incomingSize ≤ c.config.maxBytes) := by
  unfold evictToFitUnlocked
  by_cases hlimit : c.config.maxBytes = 0
  · rw [if_pos hlimit]
    exact ⟨haccounted, rfl, fun _ hpos => absurd hlimit hpos.ne'⟩
  · rw [if_neg hlimit]
    by_cases hlarge : incomingSize > c.config.maxBytes
    · rw [if_pos hlarge]
      exact ⟨haccounted, rfl, fun hfits => absurd hfits (by simp)⟩
    · rw [if_neg hlarge]
      obtain ⟨haccounted', hconfig, -⟩ := evictLoop_spec haccounted hdeletes hvisits incomingSize
        le_rfl
      refine ⟨haccounted', hconfig, ?_⟩
      intro hfits _
      rw [← hconfig]
      exact of_decide_eq_true hfits

theorem lookup_evictToFitUnlocked (haccounted : c.Accounted) (hdeletes : env.io.Deletes)
    (hvisits : Visits env.order c) (incomingSize : Nat) (path : Path) :
    (c.evictToFitUnlocked incomingSize env).2.files.lookup path = c.files.lookup path ∨
      (c.evictToFitUnlocked incomingSize env).2.files.lookup path = none := by
  unfold evictToFitUnlocked
  split_ifs
  · exact Or.inl rfl
  · exact Or.inl rfl
  · exact lookup_evictLoop haccounted hdeletes hvisits incomingSize _ path

/-- The value is written whole, and the size noted before making room is the size of the file after
it. -/
def KeepsSize (c : DiskCache Path) (path : Path) (value : Bytes) (env : Env Path) : Prop :=
  toQByteArray value = value ∧
    (c.evictToFitUnlocked value.length env).2.dataSizeOnDisk path = c.dataSizeOnDisk path

theorem keepsSize_of_empty (haccounted : c.Accounted) (hdeletes : env.io.Deletes)
    (hvisits : Visits env.order c) {value : Bytes} (hwhole : toQByteArray value = value)
    (hempty : c.dataSizeOnDisk path = 0) : c.KeepsSize path value env := by
  refine ⟨hwhole, ?_⟩
  rcases lookup_evictToFitUnlocked haccounted hdeletes hvisits value.length path with hsame | hgone
  · exact dataSizeOnDisk_congr hsame
  · rw [hempty]
    unfold dataSizeOnDisk
    rw [hgone]

theorem toQByteArray_of_length_lt {value : Bytes} (hlength : value.length < 2 ^ 31) :
    toQByteArray value = value := by
  have hint := Int32.toInt_ofNat_of_lt hlength
  have hnot : ¬ Int32.ofNat value.length < 0 := by
    rw [Int32.lt_iff_toInt_lt, hint]
    exact not_lt.mpr (Int.natCast_nonneg _)
  unfold toQByteArray
  simp only
  rw [if_neg hnot, Int32.toNatClampNeg_ofNat_of_lt hlength, List.take_length]

theorem SparesOwn.keepsSize {value : Bytes} (hspares : c.SparesOwn path value env)
    (haccounted : c.Accounted) (hdeletes : env.io.Deletes) (hvisits : Visits env.order c) :
    c.KeepsSize path value env := by
  have hwhole := toQByteArray_of_length_lt hspares.1
  rcases hspares.2 with hzero | hlimit | hlarge | hroom
  · exact keepsSize_of_empty haccounted hdeletes hvisits hwhole hzero
  · refine ⟨hwhole, ?_⟩
    unfold evictToFitUnlocked
    rw [if_pos hlimit]
  · refine ⟨hwhole, ?_⟩
    unfold evictToFitUnlocked
    split_ifs <;> rfl
  · by_cases hmem : path ∈ c.files
    · refine ⟨hwhole, dataSizeOnDisk_congr ?_⟩
      unfold evictToFitUnlocked
      split_ifs
      · rfl
      · rfl
      · have hkept := (mem_evictLoop_iff haccounted hdeletes hvisits le_rfl hmem).mpr hroom
        rcases lookup_evictLoop haccounted hdeletes hvisits value.length c.lruIndex.size path with
          hsame | hgone
        · exact hsame
        · exact absurd hkept (Finmap.lookup_eq_none.mp hgone)
    · refine keepsSize_of_empty haccounted hdeletes hvisits hwhole ?_
      unfold dataSizeOnDisk
      rw [Finmap.lookup_eq_none.mpr hmem]

theorem Accounted.write (haccounted : c.Accounted) (value : Bytes) (time : Time)
    (hfiles : c'.files = c.files.insert path value)
    (hindex : c'.lruIndex = c.lruIndex.insert path time)
    (hbytes : c'.totalBytes = c.totalBytes - c.dataSizeOnDisk path + value.length) :
    c'.Accounted where
  bytes := by
    have herase := c.diskBytes_erase path
    have htotal := haccounted.bytes
    have hsize := haccounted.size_le path
    unfold diskBytes
    rw [hfiles, total_insert, hbytes]
    omega
  index other := by
    rw [hfiles, hindex, Finmap.mem_insert, Finmap.mem_insert, haccounted.index]

variable {Key : Type} (keyToDataPath : Key → Path)

/-- Every step of the store that can fail succeeds. -/
def Writes (c : DiskCache Path) (path : Path) (value : Bytes) (env : Env Path) : Prop :=
  env.io.mkpath = true ∧ (c.evictToFitUnlocked value.length env).1 = true ∧
    env.io.writeTemp = true ∧
      env.io.rename (path ∈ (c.evictToFitUnlocked value.length env).2.files) = true

/-- A store that fails leaves the state it was called in if it fails at once, and otherwise the one
that making room has left. -/
theorem storeUnlocked_of_not_writes {key : Key} {value : Bytes}
    (hfails : ¬ c.Writes (keyToDataPath key) value env) (writeFailed : String) (ttl : Option Millis) :
    ∃ error, storeUnlocked keyToDataPath writeFailed c key value ttl env =
      (.error error, if env.io.mkpath then (c.evictToFitUnlocked value.length env).2 else c) := by
  unfold Writes at hfails
  unfold storeUnlocked writeAtomically
  by_cases hmkpath : env.io.mkpath = true
  · cases hfit : c.evictToFitUnlocked value.length env with
    | mk fits room =>
        rw [hfit] at hfails
        cases fits with
        | false =>
            simp only [hmkpath, not_true, if_false, if_true, Bool.false_eq_true, not_false_eq_true]
            exact ⟨_, rfl⟩
        | true =>
            have hunwritten : ¬ (env.io.writeTemp = true ∧
                env.io.rename (keyToDataPath key ∈ room.files) = true) :=
              fun hwritten => hfails ⟨hmkpath, rfl, hwritten⟩
            simp only [hmkpath, hunwritten, not_true, if_false, if_true]
            exact ⟨_, rfl⟩
  · simp only [hmkpath, not_false_eq_true, if_true, if_false, Bool.false_eq_true]
    exact ⟨_, rfl⟩

/-- What a store does to the `.ttl` file of the key. -/
def writeTtl (c : DiskCache Path) (path : Path) (ttl : Option Millis) (env : Env Path) :
    DiskCache Path :=
  if 0 < ttl.getD (c.config.defaultTtl.getD 0) then
    if env.io.writeTtl then
      { c with
        ttlFiles := c.ttlFiles.insert path
          (some (addMSecs env.wall (ttl.getD (c.config.defaultTtl.getD 0)))) }
    else
      c
  else
    c.removeTtl path env

theorem storeUnlocked_of_writes {key : Key} {value : Bytes}
    (hwrites : c.Writes (keyToDataPath key) value env) (writeFailed : String)
    (ttl : Option Millis) :
    ∃ after, storeUnlocked keyToDataPath writeFailed c key value ttl env = (.ok (), after) ∧
      after.files = (c.evictToFitUnlocked value.length env).2.files.insert (keyToDataPath key)
        (toQByteArray value) ∧
      after.lruIndex = (c.evictToFitUnlocked value.length env).2.lruIndex.insert
        (keyToDataPath key) env.steady ∧
      after.totalBytes = ((c.evictToFitUnlocked value.length env).2.subtractSize
        (c.dataSizeOnDisk (keyToDataPath key))).totalBytes + value.length ∧
      after.config = (c.evictToFitUnlocked value.length env).2.config ∧
      after.ttlFiles = ((c.evictToFitUnlocked value.length env).2.writeTtl (keyToDataPath key) ttl
        env).ttlFiles := by
  obtain ⟨hmkpath, hfits, hwritten⟩ := hwrites
  have hsubtract : ∀ (room : DiskCache Path) (files : UnorderedMap Path Bytes) (oldSize : Nat),
      (subtractSize { room with files } oldSize).totalBytes =
        (room.subtractSize oldSize).totalBytes := by
    intro room files oldSize
    unfold subtractSize
    split <;> rfl
  unfold storeUnlocked writeAtomically
  cases hfit : c.evictToFitUnlocked value.length env with
  | mk fits room =>
      rw [hfit] at hfits hwritten
      simp only at hfits hwritten
      simp only [hmkpath, hfits, hwritten, and_self, if_true, not_true, if_false, gt_iff_lt,
        touchUnlocked, subtractSize_config, writeTtl]
      split_ifs
      · exact ⟨_, rfl, by simp, by simp, by simp [hsubtract], by simp, by simp⟩
      · exact ⟨_, rfl, by simp, by simp, by simp [hsubtract], by simp, by simp⟩
      · exact ⟨_, rfl, by simp, by simp, by simp [hsubtract], by simp, by simp [removeTtl_ttlFiles]⟩

theorem storeUnlocked_spec (haccounted : c.Accounted) (hdeletes : env.io.Deletes)
    (hvisits : Visits env.order c) {key : Key} {value : Bytes}
    (hkeeps : c.KeepsSize (keyToDataPath key) value env) (writeFailed : String)
    (ttl : Option Millis) :
    (storeUnlocked keyToDataPath writeFailed c key value ttl env).2.Accounted ∧
      (storeUnlocked keyToDataPath writeFailed c key value ttl env).2.config = c.config ∧
      ((storeUnlocked keyToDataPath writeFailed c key value ttl env).1 = .ok () →
        0 < c.config.maxBytes →
        (storeUnlocked keyToDataPath writeFailed c key value ttl env).2.diskBytes ≤
          c.config.maxBytes) := by
  obtain ⟨haccounted', hconfig, hroom⟩ :=
    evictToFitUnlocked_spec haccounted hdeletes hvisits value.length
  by_cases hwrites : c.Writes (keyToDataPath key) value env
  · obtain ⟨after, hstore, hfiles, hindex, hbytes, hafter, -⟩ :=
      storeUnlocked_of_writes keyToDataPath hwrites writeFailed ttl
    have hle := haccounted'.size_le (keyToDataPath key)
    rw [hkeeps.1] at hfiles
    rw [← hkeeps.2, subtractSize_totalBytes hle] at hbytes
    have hwrite := haccounted'.write value env.steady hfiles hindex hbytes
    rw [hstore]
    refine ⟨hwrite, hafter.trans hconfig, ?_⟩
    intro _ hpos
    have hfits := hroom hwrites.2.1 hpos
    rw [← hwrite.bytes, hbytes]
    omega
  · obtain ⟨error, hstore⟩ := storeUnlocked_of_not_writes keyToDataPath hwrites writeFailed ttl
    rw [hstore]
    refine ⟨?_, ?_, fun hok => absurd hok (by simp)⟩
    · split_ifs
      · exact haccounted'
      · exact haccounted
    · split_ifs
      · exact hconfig
      · rfl

/-! ### One call and whole runs -/

/-- The condition holds of every element a `putMany` gets to, in the state the ones before it left. -/
def StoresAlong (cond : DiskCache Path → Key → Bytes → Env Path → Prop) (ttl : Option Millis) :
    DiskCache Path → List (Key × Bytes × Env Path) → Prop
  | _, [] => True
  | c, (key, value, env) :: entries =>
      cond c key value env ∧
        match storeUnlocked keyToDataPath "DiskCache: atomic write failed in putMany" c key value
          ttl env with
        | (.error _, _) => True
        | (.ok (), c) => StoresAlong cond ttl c entries

/-- The condition holds of every store the call makes. -/
def EveryStore (cond : DiskCache Path → Key → Bytes → Env Path → Prop) (c : DiskCache Path) :
    Op Key Path → Prop
  | .put key value _ env => cond c key value env
  | .putMany entries ttl => StoresAlong keyToDataPath cond ttl c entries
  | _ => True

def Op.envs : Op Key Path → List (Env Path)
  | .get _ env => [env]
  | .put _ _ _ env => [env]
  | .remove _ env => [env]
  | .contains _ env => [env]
  | .clear env => [env]
  | .getMany keys => keys.map (·.2)
  | .putMany entries _ => entries.map (·.2.2)

/-- File operations succeed, and a loop over the index visits every entry once. -/
def Reliable (c : DiskCache Path) (op : Op Key Path) : Prop :=
  (∀ env ∈ op.envs, env.io = {}) ∧
    c.EveryStore keyToDataPath (fun c _ _ env => Enumerates env.order c.lruIndex) op

variable {keyToDataPath}

omit [DecidableEq Path] in
theorem Accounted.missed (haccounted : c.Accounted) : c.missed.Accounted :=
  haccounted.of_frame rfl rfl rfl

theorem Accounted.hit (haccounted : c.Accounted) (hmem : path ∈ c.files) (env : Env Path) :
    (c.hit.touchUnlocked path env).Accounted := by
  have hhit : c.hit.Accounted := haccounted.of_frame rfl rfl rfl
  exact hhit.touchUnlocked hmem env

theorem Accounted.get (haccounted : c.Accounted) (hdeletes : env.io.Deletes) (key : Key) :
    (c.get keyToDataPath key env).2.Accounted := by
  simp only [DiskCache.get]
  split
  · exact haccounted.missed
  · rename_i data hlookup
    have hmem := Finmap.mem_of_lookup_eq_some hlookup
    split
    · exact (haccounted.dropExpired hdeletes hmem).missed
    · split
      · exact haccounted
      · exact haccounted.hit hmem env

theorem Accounted.remove (haccounted : c.Accounted) (hdeletes : env.io.Deletes) (key : Key) :
    (c.remove keyToDataPath key env).2.Accounted := by
  have hle := haccounted.size_le (keyToDataPath key)
  by_cases hmem : keyToDataPath key ∈ c.files
  · apply haccounted.erase (keyToDataPath key)
    · simp [DiskCache.remove, removeData_of_mem hdeletes hmem]
    · simp [DiskCache.remove, removeData_of_mem hdeletes hmem]
    · simp only [DiskCache.remove, removeData_of_mem hdeletes hmem, if_true, not_true, if_false,
        removeTtl_totalBytes]
      rw [subtractSize_totalBytes]
      exact hle
  · have hkept : c.removeData (keyToDataPath key) env = (false, c) := by
      unfold removeData
      rw [if_neg fun h => hmem h.1]
    have habsent : keyToDataPath key ∉ c.lruIndex := fun h => hmem ((haccounted.index _).mp h)
    have hindex := erase_of_lookup_none (Finmap.lookup_eq_none.mpr habsent)
    apply haccounted.of_frame
    · simp [DiskCache.remove, hkept]
    · simp [DiskCache.remove, hkept, hindex]
    · simp [DiskCache.remove, hkept]

theorem Accounted.contains (haccounted : c.Accounted) (hdeletes : env.io.Deletes) (key : Key) :
    (c.contains keyToDataPath key env).2.Accounted := by
  unfold DiskCache.contains
  by_cases hmem : keyToDataPath key ∈ c.files
  · simp only [hmem, not_true, if_false]
    split_ifs
    · exact haccounted.dropExpired hdeletes hmem
    · exact haccounted.touchUnlocked hmem env
  · simp only [hmem, not_false_eq_true, if_true]
    exact haccounted

theorem Accounted.getManyLoop [DecidableEq Key] (haccounted : c.Accounted) {keys : List (Key × Env Path)}
    (hdeletes : ∀ env ∈ keys.map (·.2), env.io.Deletes) (result : UnorderedMap Key Bytes) :
    (getManyLoop keyToDataPath keys result c).2.Accounted := by
  induction keys generalizing result c with
  | nil => exact haccounted
  | cons first keys ih =>
      obtain ⟨key, env⟩ := first
      have hfirst := hdeletes env List.mem_cons_self
      have hrest : ∀ env ∈ keys.map (·.2), env.io.Deletes :=
        fun other hother => hdeletes other (List.mem_cons_of_mem _ hother)
      simp only [DiskCache.getManyLoop]
      split
      · exact ih haccounted.missed hrest result
      · rename_i data hlookup
        have hmem := Finmap.mem_of_lookup_eq_some hlookup
        split
        · exact ih (haccounted.dropExpired hfirst hmem).missed hrest result
        · split
          · exact ih haccounted.missed hrest result
          · exact ih (haccounted.hit hmem env) hrest _

theorem EveryStore.and {p q : DiskCache Path → Key → Bytes → Env Path → Prop} {op : Op Key Path}
    (hp : c.EveryStore keyToDataPath p op) (hq : c.EveryStore keyToDataPath q op) :
    c.EveryStore keyToDataPath (fun c key value env => p c key value env ∧ q c key value env) op := by
  cases op with
  | put key value ttl env => exact ⟨hp, hq⟩
  | putMany entries ttl =>
      unfold EveryStore at hp hq ⊢
      induction entries generalizing c with
      | nil => trivial
      | cons first entries ih =>
          obtain ⟨key, value, env⟩ := first
          have hp' := hp.2
          have hq' := hq.2
          refine ⟨⟨hp.1, hq.1⟩, ?_⟩
          cases hresult : storeUnlocked keyToDataPath "DiskCache: atomic write failed in putMany" c
              key value ttl env with
          | mk result after =>
              rw [hresult] at hp' hq'
              cases result with
              | error error => trivial
              | ok done => exact ih hp' hq'
  | _ => trivial

section Stores

variable {cond : DiskCache Path → Key → Bytes → Env Path → Prop}
  (hcond : ∀ c key value env, c.Accounted → env.io.Deletes → cond c key value env →
    Visits env.order c ∧ c.KeepsSize (keyToDataPath key) value env)

include hcond

theorem Accounted.putMany (haccounted : c.Accounted) {entries : List (Key × Bytes × Env Path)}
    {ttl : Option Millis} (hdeletes : ∀ env ∈ entries.map (·.2.2), env.io.Deletes)
    (hstores : StoresAlong keyToDataPath cond ttl c entries) :
    (c.putMany keyToDataPath entries ttl).2.Accounted := by
  induction entries generalizing c with
  | nil => exact haccounted
  | cons first entries ih =>
      obtain ⟨key, value, env⟩ := first
      have hfirst := hdeletes env List.mem_cons_self
      have hrest : ∀ env ∈ entries.map (·.2.2), env.io.Deletes :=
        fun other hother => hdeletes other (List.mem_cons_of_mem _ hother)
      obtain ⟨hvisits, hkeeps⟩ := hcond c key value env haccounted hfirst hstores.1
      have hstore := (storeUnlocked_spec keyToDataPath haccounted hfirst hvisits hkeeps
        "DiskCache: atomic write failed in putMany" ttl).1
      have hstores' := hstores.2
      unfold DiskCache.putMany
      cases hresult : storeUnlocked keyToDataPath "DiskCache: atomic write failed in putMany" c key
          value ttl env with
      | mk result after =>
          rw [hresult] at hstore hstores'
          cases result with
          | error error => exact hstore
          | ok done => exact ih hstore hrest hstores'

/-- A call each of whose stores keeps the size it has noted keeps the accounting. -/
theorem Accounted.step [DecidableEq Key] (haccounted : c.Accounted) {op : Op Key Path}
    (hdeletes : ∀ env ∈ op.envs, env.io.Deletes) (hstores : c.EveryStore keyToDataPath cond op) :
    (c.step keyToDataPath op).Accounted := by
  cases op with
  | get key env => exact haccounted.get (hdeletes env List.mem_cons_self) key
  | put key value ttl env =>
      have hfirst := hdeletes env List.mem_cons_self
      obtain ⟨hvisits, hkeeps⟩ := hcond c key value env haccounted hfirst hstores
      exact (storeUnlocked_spec keyToDataPath haccounted hfirst hvisits hkeeps _ ttl).1
  | remove key env => exact haccounted.remove (hdeletes env List.mem_cons_self) key
  | contains key env => exact haccounted.contains (hdeletes env List.mem_cons_self) key
  | clear env =>
      have hall := (hdeletes env List.mem_cons_self).all
      simp only [DiskCache.step, exec, DiskCache.clear]
      by_cases hexists : env.io.cacheDirExists = true
      · simp only [hexists, hall, not_true, if_false]
        exact ⟨rfl, fun _ => Iff.rfl⟩
      · simp only [hexists]
        exact haccounted
  | getMany keys => exact haccounted.getManyLoop hdeletes ∅
  | putMany entries ttl => exact haccounted.putMany hcond hdeletes hstores

end Stores

theorem recoverFromDiskUnlocked_spec (listing : List (Path × Time)) (c : DiskCache Path) :
    (c.recoverFromDiskUnlocked listing).files = c.files ∧
      (c.recoverFromDiskUnlocked listing).config = c.config ∧
      (c.recoverFromDiskUnlocked listing).totalBytes =
        c.totalBytes + ((listing.map (·.1)).map c.dataSizeOnDisk).sum ∧
      ∀ path, path ∈ (c.recoverFromDiskUnlocked listing).lruIndex ↔
        path ∈ listing.map (·.1) ∨ path ∈ c.lruIndex := by
  induction listing generalizing c with
  | nil => simp [recoverFromDiskUnlocked]
  | cons file listing ih =>
      obtain ⟨hfiles, hconfig, hbytes, hindex⟩ := ih
        { c with
          totalBytes := c.totalBytes + c.dataSizeOnDisk file.1
          lruIndex := c.lruIndex.insert file.1 file.2 }
      refine ⟨hfiles, hconfig, ?_, ?_⟩
      · refine hbytes.trans ?_
        have hsame : dataSizeOnDisk
            { c with
              totalBytes := c.totalBytes + c.dataSizeOnDisk file.1
              lruIndex := c.lruIndex.insert file.1 file.2 } = c.dataSizeOnDisk := rfl
        rw [hsame, List.map_cons, List.map_cons, List.sum_cons]
        exact Nat.add_assoc _ _ _
      · intro path
        refine (hindex path).trans ?_
        simp only [Finmap.mem_insert, List.map_cons, List.mem_cons]
        tauto

theorem accounted_opened (config : Config) {files : UnorderedMap Path Bytes}
    (ttlFiles : UnorderedMap Path (Option Int)) {listing : List (Path × Time)}
    (hlisting : Enumerates (listing.map (·.1)) files) :
    (opened config files ttlFiles listing).Accounted := by
  obtain ⟨hfiles, -, hbytes, hindex⟩ :=
    recoverFromDiskUnlocked_spec listing { config, files, ttlFiles }
  constructor
  · unfold opened diskBytes
    rw [hbytes, hfiles, ← hlisting.sum_weightAt, Nat.zero_add]
    congr 1
    apply List.map_congr_left
    intro path _
    exact dataSizeOnDisk_eq_weightAt _ path
  · intro path
    unfold opened
    rw [hindex, hfiles, ← List.mem_toFinset, hlisting.2, Finmap.mem_keys]
    exact or_iff_left Finmap.notMem_empty

/-! ### The configuration stays -/

theorem evictLruUnlocked_config (c : DiskCache Path) (env : Env Path) :
    (c.evictLruUnlocked env).config = c.config := by
  unfold evictLruUnlocked removeData
  split
  · rfl
  · split_ifs <;> simp [apply_ite DiskCache.config]

theorem evictLoop_config (incomingSize : Nat) (env : Env Path) (fuel : Nat) (c : DiskCache Path) :
    (evictLoop incomingSize env fuel c).config = c.config := by
  induction fuel generalizing c with
  | zero => rfl
  | succ fuel ih =>
      unfold evictLoop
      split_ifs
      · rw [ih, evictLruUnlocked_config]
      · rfl

theorem evictToFitUnlocked_config (c : DiskCache Path) (incomingSize : Nat) (env : Env Path) :
    (c.evictToFitUnlocked incomingSize env).2.config = c.config := by
  unfold evictToFitUnlocked
  split_ifs
  · rfl
  · rfl
  · exact evictLoop_config incomingSize env _ c

theorem storeUnlocked_config (keyToDataPath : Key → Path) (writeFailed : String) (c : DiskCache Path)
    (key : Key) (value : Bytes) (ttl : Option Millis) (env : Env Path) :
    (storeUnlocked keyToDataPath writeFailed c key value ttl env).2.config = c.config := by
  have hroom := c.evictToFitUnlocked_config value.length env
  unfold storeUnlocked writeAtomically
  cases hfit : c.evictToFitUnlocked value.length env with
  | mk fits room =>
      rw [hfit] at hroom
      by_cases hmkpath : env.io.mkpath = true
      · cases fits with
        | false => simpa [hmkpath] using hroom
        | true =>
            simp only [hmkpath, not_true, if_false]
            split_ifs <;> simpa [touchUnlocked] using hroom
      · simp [hmkpath]

theorem dropExpired_config (c : DiskCache Path) (path : Path) (env : Env Path) :
    (c.dropExpired path env).config = c.config := by
  unfold dropExpired removeData
  split_ifs <;> simp

theorem removeData_config (c : DiskCache Path) (path : Path) (env : Env Path) :
    (c.removeData path env).2.config = c.config := by
  unfold removeData
  split_ifs <;> rfl

theorem getManyLoop_config [DecidableEq Key] (keys : List (Key × Env Path))
    (result : UnorderedMap Key Bytes) (c : DiskCache Path) :
    (getManyLoop keyToDataPath keys result c).2.config = c.config := by
  induction keys generalizing result c with
  | nil => rfl
  | cons first keys ih =>
      obtain ⟨key, env⟩ := first
      simp only [getManyLoop]
      split
      · exact ih result c.missed
      · split
        · exact (ih _ _).trans (dropExpired_config c _ env)
        · split
          · exact ih result c.missed
          · exact ih _ _

theorem putMany_config (entries : List (Key × Bytes × Env Path)) (ttl : Option Millis)
    (c : DiskCache Path) : (c.putMany keyToDataPath entries ttl).2.config = c.config := by
  induction entries generalizing c with
  | nil => rfl
  | cons first entries ih =>
      obtain ⟨key, value, env⟩ := first
      have hstore := storeUnlocked_config keyToDataPath "DiskCache: atomic write failed in putMany"
        c key value ttl env
      unfold putMany
      split
      · rename_i hresult
        rwa [hresult] at hstore
      · rename_i hresult
        rw [hresult] at hstore
        exact (ih _).trans hstore

theorem step_config [DecidableEq Key] (c : DiskCache Path) (op : Op Key Path) :
    (c.step keyToDataPath op).config = c.config := by
  cases op with
  | get key env =>
      simp only [step, exec, get]
      split
      · rfl
      · split
        · exact dropExpired_config c _ env
        · split <;> rfl
  | put key value ttl env => exact storeUnlocked_config keyToDataPath _ c key value ttl env
  | remove key env =>
      have hremove := c.removeData_config (keyToDataPath key) env
      simp only [step, exec, remove, Prod.map]
      split_ifs <;> simpa using hremove
  | contains key env =>
      simp only [step, exec, contains]
      split
      · rfl
      · split
        · exact dropExpired_config c _ env
        · rfl
  | clear env =>
      simp only [step, exec, clear]
      split <;> rfl
  | getMany keys => exact getManyLoop_config keys ∅ c
  | putMany entries ttl => exact putMany_config entries ttl c

theorem config_run [DecidableEq Key] (config : Config) (files : UnorderedMap Path Bytes)
    (ttlFiles : UnorderedMap Path (Option Int)) (listing : List (Path × Time))
    (ops : List (Op Key Path)) :
    (run (step keyToDataPath) (opened config files ttlFiles listing) ops).config = config := by
  have hopened := (recoverFromDiskUnlocked_spec listing { config, files, ttlFiles }).2.1
  exact run_induction (P := fun c : DiskCache Path => c.config = config) hopened
    (fun c op hc => (step_config c op).trans hc) ops

/-- A cache that spares, at every store, the file it replaces accounts for the disk at every point of
the run, and a successful put leaves at most the configured number of bytes. -/
theorem accounted_of_sparesOwn [DecidableEq Key] (config : Config) {files : UnorderedMap Path Bytes}
    (ttlFiles : UnorderedMap Path (Option Int)) {listing : List (Path × Time)}
    (hlisting : Enumerates (listing.map (·.1)) files) {ops : List (Op Key Path)}
    (hreliable : Along (step keyToDataPath) (Reliable keyToDataPath)
      (opened config files ttlFiles listing) ops)
    (hspares : Along (step keyToDataPath)
      (EveryStore keyToDataPath fun c key value env => c.SparesOwn (keyToDataPath key) value env)
      (opened config files ttlFiles listing) ops) :
    (∀ n, (run (step keyToDataPath) (opened config files ttlFiles listing) (ops.take n)).Accounted) ∧
      ∀ n key value ttl env, ops[n]? = some (.put key value ttl env) → 0 < config.maxBytes →
        let before := run (step keyToDataPath) (opened config files ttlFiles listing) (ops.take n)
        (before.put keyToDataPath key value ttl env).1 = .ok () →
        (before.put keyToDataPath key value ttl env).2.diskBytes ≤ config.maxBytes := by
  have hboth := hreliable.and hspares
  have haccounted : ∀ n, (run (step keyToDataPath) (opened config files ttlFiles listing)
      (ops.take n)).Accounted := by
    intro n
    apply (hboth.take n).induction (accounted_opened config ttlFiles hlisting)
    intro state op hstate hop
    apply hstate.step _ (fun env henv => deletes_of_eq (hop.1.1 env henv)) (hop.1.2.and hop.2)
    intro c key value env hc hdeletes hcond
    have hvisits := visits_of_enumerates hcond.1
    exact ⟨hvisits, hcond.2.keepsSize hc hdeletes hvisits⟩
  refine ⟨haccounted, ?_⟩
  intro n key value ttl env hop hpos before hok
  have hconfig : before.config = config := config_run config files ttlFiles listing (ops.take n)
  obtain ⟨⟨hio, hvisits⟩, hown⟩ := hboth.getElem? hop
  have hdeletes := deletes_of_eq (hio env List.mem_cons_self)
  have hvisits' := visits_of_enumerates hvisits
  have hspec := storeUnlocked_spec keyToDataPath (haccounted n) hdeletes hvisits'
    (hown.keepsSize (haccounted n) hdeletes hvisits') "DiskCache: atomic write failed" ttl
  rw [hconfig] at hspec
  exact hspec.2.2 hok hpos

/-- Two files of four and six bytes, then the first one again. -/
def rewritingRun : List (Op Nat Nat) :=
  [.put 0 (List.replicate 4 0) none { wall := 0, steady := 1 },
    .put 1 (List.replicate 6 0) none { wall := 0, steady := 2, order := [0] },
    .put 0 (List.replicate 4 1) none { wall := 0, steady := 3, order := [0, 1] }]

theorem reliable_put {c : DiskCache Nat} {key : Nat} {value : Bytes} {ttl : Option Millis}
    {wall : Millis} {steady : Time} {order : List Nat} (henum : Enumerates order c.lruIndex) :
    c.Reliable id (.put key value ttl { wall, steady, order }) := by
  refine ⟨?_, henum⟩
  intro env henv
  obtain rfl := List.mem_singleton.mp henv
  rfl

theorem accounted_rewritingRun :
    (run (step id) (opened { maxBytes := 14 } ∅ ∅ []) rewritingRun).Accounted := by
  have hreliable : Along (step id) (Reliable id) (opened { maxBytes := 14 } ∅ ∅ []) rewritingRun :=
    ⟨reliable_put (by decide), reliable_put (by decide), reliable_put (by decide), trivial⟩
  have hfirst : SparesOwn (opened { maxBytes := 14 } ∅ ∅ []) 0 (List.replicate 4 0)
      { wall := 0, steady := 1 } := by decide
  have hsecond : SparesOwn (run (step id) (opened { maxBytes := 14 } ∅ ∅ [])
      (rewritingRun.take 1)) 1 (List.replicate 6 0) { wall := 0, steady := 2, order := [0] } := by
    decide
  have hthird : SparesOwn (run (step id) (opened { maxBytes := 14 } ∅ ∅ [])
      (rewritingRun.take 2)) 0 (List.replicate 4 1) { wall := 0, steady := 3, order := [0, 1] } := by
    decide
  exact (accounted_of_sparesOwn { maxBytes := 14 } ∅ (by decide) hreliable
    ⟨hfirst, hsecond, hthird, trivial⟩).1 3

/-- Under a limit of ten bytes the third put deletes the file it replaces, and the counter ends four
bytes short of the disk. -/
theorem own_file_subtracted_twice :
    ¬ ∀ (config : Config) (ops : List (Op Nat Nat)),
      Along (step id) (Reliable id) (opened config ∅ ∅ []) ops →
      ∀ n, (run (step id) (opened config ∅ ∅ []) (ops.take n)).Accounted := by
  intro hclaim
  have hreliable : Along (step id) (Reliable id) (opened { maxBytes := 10 } ∅ ∅ []) rewritingRun :=
    ⟨reliable_put (by decide), reliable_put (by decide), reliable_put (by decide), trivial⟩
  have haccounted := hclaim { maxBytes := 10 } rewritingRun hreliable 3
  exact absurd haccounted.bytes (by decide)

end SoulCoreKit.Cache.DiskCache
