import SoulCoreKit.Proof.DiskCacheAccounting

/-!
# A put and the get right after it

`writeAtomically` of the disk cache counts on a rename that replaces its target, and Qt's does not: it
fails where the target exists. So a put of a key whose file is there fails, unless making room has
deleted that file first. Such a put succeeds, but takes the size of the deleted file off the counter
once more, and a counter that falls short can end in puts that find no room. What is left are puts of
keys without a file, and of keys whose file is empty and deleted by the eviction.
-/

namespace SoulCoreKit.Cache.DiskCache

open UnorderedMap

variable {Path : Type} [DecidableEq Path] {c c' : DiskCache Path} {path : Path} {env : Env Path}

/-- The file operations of Qt: a rename onto a file that is there fails, the others succeed. -/
def qtIo : Io Path := { rename := fun targetExists => !targetExists }

def Fits (c : DiskCache Path) (value : Bytes) : Prop :=
  c.config.maxBytes = 0 ∨ value.length ≤ c.config.maxBytes

/-- Making room for the value goes as far as the file of the key. -/
def DeletesOwn (c : DiskCache Path) (path : Path) (value : Bytes) (env : Env Path) : Prop :=
  0 < c.config.maxBytes ∧ c.config.maxBytes < c.laterBytes env.order path + value.length

/-- The key has no file by the time the new one is renamed. -/
def TargetFree (c : DiskCache Path) (path : Path) (value : Bytes) (env : Env Path) : Prop :=
  path ∉ c.files ∨ c.DeletesOwn path value env

/-- The value survives the cast of its size to `int`, no file is in the way of the rename, and if one
was, it was empty. -/
def Clean (c : DiskCache Path) (path : Path) (value : Bytes) (env : Env Path) : Prop :=
  toQByteArray value = value ∧ c.TargetFree path value env ∧ c.dataSizeOnDisk path = 0

/-- A TTL given or configured has not run out between the put and the time given. -/
def Unexpired (config : Config) (ttl : Option Millis) (written now : Millis) : Prop :=
  let effectiveTtl := ttl.getD (config.defaultTtl.getD 0)
  effectiveTtl ≤ 0 ∨ 0 ≤ addMSecs written effectiveTtl ∧ now ≤ addMSecs written effectiveTtl

omit [DecidableEq Path] in
theorem deletes_of_qtIo (hio : env.io = qtIo) : env.io.Deletes := by
  rw [hio]
  exact ⟨fun _ => rfl, rfl⟩

/-! ### Whether the put succeeds -/

theorem Accounted.totalBytes_eq_zero (haccounted : c.Accounted) (hempty : c.lruIndex.size = 0) :
    c.totalBytes = 0 := by
  rw [haccounted.bytes]
  apply total_eq_zero
  intro path data hlookup
  have hmem := (haccounted.index path).mpr (Finmap.mem_of_lookup_eq_some hlookup)
  rw [size_eq_zero_iff.mp hempty] at hmem
  exact absurd hmem Finmap.notMem_empty

theorem evictToFitUnlocked_fits (haccounted : c.Accounted) (hdeletes : env.io.Deletes)
    (hvisits : Visits env.order c) {value : Bytes} (hfits : c.Fits value) :
    (c.evictToFitUnlocked value.length env).1 = true := by
  unfold evictToFitUnlocked
  by_cases hlimit : c.config.maxBytes = 0
  · rw [if_pos hlimit]
  · have hsmall := hfits.resolve_left hlimit
    obtain ⟨haccounted', hconfig, hend⟩ :=
      evictLoop_spec haccounted hdeletes hvisits value.length le_rfl
    rw [if_neg hlimit, if_neg (Nat.not_lt.mpr hsmall)]
    apply decide_eq_true
    rw [hconfig]
    rcases hend with hroom | hempty
    · exact hroom
    · rw [haccounted'.totalBytes_eq_zero hempty]
      omega

theorem mem_evictToFitUnlocked_iff (haccounted : c.Accounted) (hdeletes : env.io.Deletes)
    (hvisits : Visits env.order c) {value : Bytes} (hfits : c.Fits value) (path : Path) :
    path ∈ (c.evictToFitUnlocked value.length env).2.files ↔
      path ∈ c.files ∧ ¬ c.DeletesOwn path value env := by
  have hkept := lookup_evictToFitUnlocked haccounted hdeletes hvisits value.length path
  by_cases hmem : path ∈ c.files
  · unfold evictToFitUnlocked DeletesOwn
    by_cases hlimit : c.config.maxBytes = 0
    · simp [hlimit, hmem]
    · have hsmall := hfits.resolve_left hlimit
      rw [if_neg hlimit, if_neg (Nat.not_lt.mpr hsmall)]
      rw [mem_evictLoop_iff haccounted hdeletes hvisits le_rfl hmem, not_and, not_lt]
      constructor
      · intro hroom
        exact ⟨hmem, fun _ => hroom⟩
      · intro hroom
        exact hroom.2 (Nat.pos_of_ne_zero hlimit)
  · rw [Finmap.lookup_eq_none.mpr hmem, or_self_iff, Finmap.lookup_eq_none] at hkept
    exact iff_of_false hkept fun h => hmem h.1

/-- With the file operations of Qt, a store succeeds exactly when no file is in the way of the
rename. -/
theorem writes_iff_targetFree (haccounted : c.Accounted) (hio : env.io = qtIo)
    (hvisits : Visits env.order c) {value : Bytes} (hfits : c.Fits value) (path : Path) :
    c.Writes path value env ↔ c.TargetFree path value env := by
  have hdeletes := deletes_of_qtIo hio
  have hroom := evictToFitUnlocked_fits haccounted hdeletes hvisits hfits
  have hmem := mem_evictToFitUnlocked_iff haccounted hdeletes hvisits hfits path
  unfold Writes TargetFree
  rw [hroom, hio]
  simp only [qtIo, true_and, Bool.not_eq_true', decide_eq_false_iff_not]
  rw [hmem, not_and_or, not_not]

/-! ### What the get returns -/

theorem isExpired_of_stored {room : DiskCache Path} {ttl : Option Millis} {now : Env Path}
    (hio : env.io = qtIo) (hnow : now.io = qtIo)
    (hfiles : c.ttlFiles = (room.writeTtl path ttl env).ttlFiles) :
    c.isExpired path now = false ↔ Unexpired room.config ttl env.wall now.wall := by
  unfold Unexpired isExpired readExpiryMSecs
  rw [hfiles, hnow]
  unfold writeTtl
  rw [hio]
  by_cases hpos : 0 < ttl.getD (room.config.defaultTtl.getD 0)
  · have hnot : ¬ ttl.getD (room.config.defaultTtl.getD 0) ≤ 0 := not_le.mpr hpos
    simp only [hpos, qtIo, if_true, Finmap.mem_insert, Finmap.lookup_insert, Option.getD_some, hnot,
      true_or, not_true, if_false, false_or]
    split_ifs with hnegative
    · exact iff_of_false (by simp) (fun h => absurd h.1 (not_le.mpr hnegative))
    · rw [decide_eq_false_iff_not, gt_iff_lt, not_lt]
      exact (and_iff_right (not_lt.mp hnegative)).symm
  · have hnone : path ∉ (room.removeTtl path env).ttlFiles := by
      rw [removeTtl_ttlFiles, hio]
      exact Finmap.notMem_erase_self
    rw [if_neg hpos, if_pos hnone]
    exact iff_of_true rfl (Or.inl (not_lt.mp hpos))

variable {Key : Type} (keyToDataPath : Key → Path)

/-- The put succeeds, and the get finds the value. -/
def PutThenGet (c : DiskCache Path) (key : Key) (value : Bytes) (ttl : Option Millis)
    (env now : Env Path) : Prop :=
  (c.put keyToDataPath key value ttl env).1 = .ok () ∧
    ((c.put keyToDataPath key value ttl env).2.get keyToDataPath key now).1 = .ok (some value)

theorem get_of_lookup {key : Key} {data value : Bytes} {now : Env Path} (hnow : now.io = qtIo)
    (hlookup : c.files.lookup (keyToDataPath key) = some data) :
    (c.get keyToDataPath key now).1 = .ok (some value) ↔
      data = value ∧ c.isExpired (keyToDataPath key) now = false := by
  simp only [get, hlookup, hnow, qtIo, not_true, if_false]
  cases c.isExpired (keyToDataPath key) now <;> simp

theorem putThenGet_iff (haccounted : c.Accounted) (hio : env.io = qtIo)
    (hvisits : Visits env.order c) {value : Bytes} (hfits : c.Fits value) {now : Env Path}
    (hnow : now.io = qtIo) (key : Key) (ttl : Option Millis) :
    PutThenGet keyToDataPath c key value ttl env now ↔
      c.TargetFree (keyToDataPath key) value env ∧ toQByteArray value = value ∧
        Unexpired c.config ttl env.wall now.wall := by
  have hwrites := writes_iff_targetFree haccounted hio hvisits hfits (keyToDataPath key)
  unfold PutThenGet put
  by_cases hfree : c.TargetFree (keyToDataPath key) value env
  · obtain ⟨after, hstore, hfiles, -, -, -, httl⟩ := storeUnlocked_of_writes keyToDataPath
      (hwrites.mpr hfree) "DiskCache: atomic write failed" ttl
    have hlookup : after.files.lookup (keyToDataPath key) = some (toQByteArray value) := by
      rw [hfiles, Finmap.lookup_insert]
    have hexpired := isExpired_of_stored hio hnow httl
    rw [c.evictToFitUnlocked_config] at hexpired
    rw [hstore, get_of_lookup keyToDataPath hnow hlookup, hexpired]
    simp only [hfree, true_and]
  · obtain ⟨error, hstore⟩ := storeUnlocked_of_not_writes keyToDataPath
      (fun h => hfree (hwrites.mp h)) "DiskCache: atomic write failed" ttl
    rw [hstore]
    simp [hfree]

/-! ### Whole runs -/

/-- The file operations are Qt's, a loop over the index visits every entry once, and no value is larger
than the cache. -/
def QtCall (c : DiskCache Path) (op : Op Key Path) : Prop :=
  (∀ env ∈ op.envs, env.io = qtIo) ∧
    c.EveryStore keyToDataPath
      (fun c _ value env => Enumerates env.order c.lruIndex ∧ c.Fits value) op

/-- Every store of the call is clean. -/
def CleanCall (c : DiskCache Path) (op : Op Key Path) : Prop :=
  c.EveryStore keyToDataPath (fun c key value env => c.Clean (keyToDataPath key) value env) op

variable {keyToDataPath}

theorem Accounted.step_of_clean [DecidableEq Key] (haccounted : c.Accounted) {op : Op Key Path}
    (hcall : QtCall keyToDataPath c op) (hclean : CleanCall keyToDataPath c op) :
    (c.step keyToDataPath op).Accounted := by
  apply haccounted.step _ (fun env henv => deletes_of_qtIo (hcall.1 env henv)) (hcall.2.and hclean)
  intro c key value env hc hdeletes hstore
  obtain ⟨⟨henum, -⟩, hwhole, -, hempty⟩ := hstore
  have hvisits := visits_of_enumerates henum
  exact ⟨hvisits, keepsSize_of_empty hc hdeletes hvisits hwhole hempty⟩

/-- After a run of clean calls a put succeeds, and the get right after it finds the value, exactly when
no file is in the way, the value is written whole and its TTL has not run out. So every put of the run
does and is followed by such a get. -/
theorem put_then_get_of_clean [DecidableEq Key] (config : Config)
    {files : UnorderedMap Path Bytes} (ttlFiles : UnorderedMap Path (Option Int))
    {listing : List (Path × Time)} (hlisting : Enumerates (listing.map (·.1)) files)
    {ops : List (Op Key Path)}
    (hcalls : Along (step keyToDataPath) (QtCall keyToDataPath)
      (opened config files ttlFiles listing) ops)
    (hclean : Along (step keyToDataPath) (CleanCall keyToDataPath)
      (opened config files ttlFiles listing) ops) :
    (∀ n key value ttl env now, ops[n]? = some (.put key value ttl env) → now.io = qtIo →
      Unexpired config ttl env.wall now.wall →
      PutThenGet keyToDataPath
        (run (step keyToDataPath) (opened config files ttlFiles listing) (ops.take n)) key value ttl
        env now) ∧
      ∀ key value ttl env now,
        let c := run (step keyToDataPath) (opened config files ttlFiles listing) ops
        QtCall keyToDataPath c (.put key value ttl env) → now.io = qtIo →
        (PutThenGet keyToDataPath c key value ttl env now ↔
          c.TargetFree (keyToDataPath key) value env ∧ toQByteArray value = value ∧
            Unexpired config ttl env.wall now.wall) := by
  have hboth := hcalls.and hclean
  have haccounted : ∀ n, (run (step keyToDataPath) (opened config files ttlFiles listing)
      (ops.take n)).Accounted := by
    intro n
    apply hboth.always (accounted_opened config ttlFiles hlisting)
    intro state op hstate hop
    exact hstate.step_of_clean hop.1 hop.2
  constructor
  · intro n key value ttl env now hop hnow hunexpired
    obtain ⟨⟨hio, henum, hfits⟩, hwhole, hfree, -⟩ := hboth.getElem? hop
    rw [putThenGet_iff keyToDataPath (haccounted n) (hio env List.mem_cons_self)
      (visits_of_enumerates henum) hfits hnow, config_run]
    exact ⟨hfree, hwhole, hunexpired⟩
  · intro key value ttl env now c hcall hnow
    obtain ⟨hio, henum, hfits⟩ := hcall
    have hc : c.Accounted := by
      have hlast := haccounted ops.length
      rwa [List.take_length] at hlast
    rw [putThenGet_iff keyToDataPath hc (hio env List.mem_cons_self) (visits_of_enumerates henum)
      hfits hnow, config_run]

/-- A call to a disk with the file operations of Qt. -/
def qtEnv (steady : Time) (order : List Nat) : Env Nat := { wall := 0, steady, order, io := qtIo }

theorem qtCall_put {c : DiskCache Nat} {key : Nat} {value : Bytes} {ttl : Option Millis}
    {steady : Time} {order : List Nat} (henum : Enumerates order c.lruIndex) (hfits : c.Fits value) :
    QtCall id c (.put key value ttl (qtEnv steady order)) := by
  refine ⟨?_, henum, hfits⟩
  intro env henv
  obtain rfl := List.mem_singleton.mp henv
  rfl

/-- A file of four bytes, removed and written again. -/
def removingRun : List (Op Nat Nat) :=
  [.put 0 (List.replicate 4 0) none (qtEnv 1 []), .remove 0 (qtEnv 2 [0]),
    .put 0 (List.replicate 4 1) none (qtEnv 3 [])]

theorem put_then_get_of_clean_removingRun :
    PutThenGet id (run (step id) (opened { maxBytes := 10 } ∅ ∅ []) (removingRun.take 2)) 0
      (List.replicate 4 1) none (qtEnv 3 []) (qtEnv 4 []) := by
  have hremove : QtCall id (run (step id) (opened { maxBytes := 10 } ∅ ∅ []) (removingRun.take 1))
      (.remove 0 (qtEnv 2 [0])) := by
    refine ⟨?_, trivial⟩
    intro env henv
    obtain rfl := List.mem_singleton.mp henv
    rfl
  have hcalls : Along (step id) (QtCall id) (opened { maxBytes := 10 } ∅ ∅ []) removingRun :=
    ⟨qtCall_put (by decide) (Or.inr (by decide)), hremove,
      qtCall_put (by decide) (Or.inr (by decide)), trivial⟩
  have hfirst : Clean (opened { maxBytes := 10 } ∅ ∅ []) 0 (List.replicate 4 0) (qtEnv 1 []) :=
    ⟨toQByteArray_of_length_lt (by decide), Or.inl (by decide), by decide⟩
  have hlast : Clean (run (step id) (opened { maxBytes := 10 } ∅ ∅ []) (removingRun.take 2)) 0
      (List.replicate 4 1) (qtEnv 3 []) :=
    ⟨toQByteArray_of_length_lt (by decide), Or.inl (by decide), by decide⟩
  exact (put_then_get_of_clean { maxBytes := 10 } ∅ (by decide) hcalls
    ⟨hfirst, trivial, hlast, trivial⟩).1 2 0 _ none _ (qtEnv 4 []) rfl rfl (Or.inl (by decide))

/-- The same value put twice. -/
def repeatingRun : List (Op Nat Nat) :=
  [.put 0 (List.replicate 4 0) none (qtEnv 1 []), .put 0 (List.replicate 4 0) none (qtEnv 2 [0])]

theorem put_of_stored_fails :
    ¬ ∀ (config : Config) (ops : List (Op Nat Nat)),
      Along (step id) (QtCall id) (opened config ∅ ∅ []) ops →
      ∀ n key value ttl env now, ops[n]? = some (.put key value ttl env) → now.io = qtIo →
        Unexpired config ttl env.wall now.wall →
        PutThenGet id (run (step id) (opened config ∅ ∅ []) (ops.take n)) key value ttl env now := by
  intro hclaim
  have hcalls : Along (step id) (QtCall id) (opened { maxBytes := 10 } ∅ ∅ []) repeatingRun :=
    ⟨qtCall_put (by decide) (Or.inr (by decide)), qtCall_put (by decide) (Or.inr (by decide)),
      trivial⟩
  have hsecond := hclaim { maxBytes := 10 } repeatingRun hcalls 1 0 _ none _ (qtEnv 3 [0]) rfl rfl
    (Or.inl (by decide))
  have hfailed : (put id (run (step id) (opened { maxBytes := 10 } ∅ ∅ []) (repeatingRun.take 1)) 0
      (List.replicate 4 0) none (qtEnv 2 [0])).1 =
      .error ⟨.internalError, "DiskCache: atomic write failed"⟩ := rfl
  exact absurd (hfailed.symm.trans hsecond.1) (by simp)

/-- A put that has its own file deleted succeeds and leaves a counter that falls short. The eviction of
the last put then empties the disk and still finds no room. -/
example :
    let ops : List (Op Nat Nat) :=
      [.put 0 (List.replicate 4 0) none (qtEnv 1 []), .put 1 (List.replicate 6 0) none (qtEnv 2 [0]),
        .put 0 (List.replicate 4 0) none (qtEnv 3 [0, 1]),
        .put 2 (List.replicate 10 0) none (qtEnv 4 [0, 1])]
    ((run (step id) (opened { maxBytes := 10 } ∅ ∅ []) ops).put id 3 (List.replicate 10 0) none
      (qtEnv 5 [0, 2])).1 =
        .error ⟨.internalError, "DiskCache: cache full, cannot evict enough space"⟩ := by
  rfl

end SoulCoreKit.Cache.DiskCache

/-! ### What a failed put leaves behind

`put` promises at its failing exits that it has changed nothing. It makes room before the steps that can still
fail, and nothing puts an evicted file back. A pass of the eviction takes an entry off the index whatever its
file operations do, so the promise is kept by the failures that come before a pass is made, and by those
alone. -/

namespace SoulCoreKit.Cache.DiskCache

open UnorderedMap

variable {Path : Type} [DecidableEq Path] {c c' : DiskCache Path} {env : Env Path}

/-- The data files, the TTL files, the index and the byte counter are as before. -/
structure Unchanged (c c' : DiskCache Path) : Prop where
  files : c'.files = c.files
  ttlFiles : c'.ttlFiles = c.ttlFiles
  lruIndex : c'.lruIndex = c.lruIndex
  totalBytes : c'.totalBytes = c.totalBytes

/-- The put fails before it makes room, or it has nothing to make room with or for. -/
def EvictsNothing (c : DiskCache Path) (value : Bytes) (env : Env Path) : Prop :=
  ¬ env.io.mkpath ∨ c.config.maxBytes = 0 ∨ c.config.maxBytes < value.length ∨
    c.totalBytes + value.length ≤ c.config.maxBytes ∨ c.lruIndex.size = 0

/-- With entries left, a pass takes one off the index, deleted or not. -/
theorem evictLruUnlocked_lruIndex (hvisits : Visits env.order c) (hsize : c.lruIndex.size ≠ 0) :
    ∃ path ∈ c.lruIndex, (c.evictLruUnlocked env).lruIndex = c.lruIndex.erase path := by
  obtain ⟨path, time, holdest⟩ := exists_oldest hvisits hsize
  have hlisted := (oldest_eq_some c.lruIndex holdest).1
  refine ⟨path, Finmap.mem_of_lookup_eq_some hlisted, ?_⟩
  simp only [evictLruUnlocked, holdest, removeData]
  split_ifs <;> simp

theorem size_evictLruUnlocked_lt (hvisits : Visits env.order c) (hsize : c.lruIndex.size ≠ 0) :
    (c.evictLruUnlocked env).lruIndex.size < c.lruIndex.size := by
  obtain ⟨path, hmem, hindex⟩ := evictLruUnlocked_lruIndex hvisits hsize
  rw [hindex]
  exact size_erase_lt hmem

theorem size_evictLoop_le (hvisits : Visits env.order c) (incomingSize fuel : Nat) :
    (evictLoop incomingSize env fuel c).lruIndex.size ≤ c.lruIndex.size := by
  induction fuel generalizing c with
  | zero => exact le_rfl
  | succ fuel ih =>
      unfold evictLoop
      split_ifs with hover
      · obtain ⟨path, -, hindex⟩ := evictLruUnlocked_lruIndex hvisits hover.2
        have hfewer := size_evictLruUnlocked_lt hvisits hover.2
        exact (ih (hvisits.of_erase hindex)).trans hfewer.le
      · exact le_rfl

/-- Making room leaves everything as it is, or leaves fewer entries in the index. -/
theorem evictToFitUnlocked_unchanged_iff (hvisits : Visits env.order c) (incomingSize : Nat) :
    Unchanged c (c.evictToFitUnlocked incomingSize env).2 ↔
      c.config.maxBytes = 0 ∨ c.config.maxBytes < incomingSize ∨
        c.totalBytes + incomingSize ≤ c.config.maxBytes ∨ c.lruIndex.size = 0 := by
  have hsame : Unchanged c c := ⟨rfl, rfl, rfl, rfl⟩
  unfold evictToFitUnlocked
  by_cases hlimit : c.config.maxBytes = 0
  · simp [hlimit, hsame]
  by_cases hlarge : incomingSize > c.config.maxBytes
  · simp [hlimit, hlarge, hsame]
  simp only [hlimit, hlarge, if_false, false_or]
  by_cases hover : c.totalBytes + incomingSize > c.config.maxBytes ∧ c.lruIndex.size ≠ 0
  · obtain ⟨path, hmem, hindex⟩ := evictLruUnlocked_lruIndex hvisits hover.2
    have hfirst := size_evictLruUnlocked_lt hvisits hover.2
    have hrest := size_evictLoop_le (hvisits.of_erase hindex) incomingSize (c.lruIndex.size - 1)
    obtain ⟨fuel, hfuel⟩ := Nat.exists_eq_succ_of_ne_zero hover.2
    have hpass : evictLoop incomingSize env c.lruIndex.size c =
        evictLoop incomingSize env (c.lruIndex.size - 1) (c.evictLruUnlocked env) := by
      rw [hfuel, Nat.succ_sub_one]
      exact if_pos hover
    constructor
    · intro hunchanged
      have hkept := congrArg size hunchanged.lruIndex
      rw [hpass] at hkept
      omega
    · rintro (hfits | hempty)
      · omega
      · exact absurd hempty hover.2
  · have hdone : evictLoop incomingSize env c.lruIndex.size c = c := by
      cases c.lruIndex.size with
      | zero => rfl
      | succ fuel => exact if_neg hover
    rw [hdone]
    exact iff_of_true hsame (by omega)

variable {Key : Type} (keyToDataPath : Key → Path)

theorem storeUnlocked_of_error {writeFailed : String} {key : Key} {value : Bytes}
    {ttl : Option Millis} {error : Error}
    (hfailed : (storeUnlocked keyToDataPath writeFailed c key value ttl env).1 = .error error) :
    (storeUnlocked keyToDataPath writeFailed c key value ttl env).2 =
      if env.io.mkpath then (c.evictToFitUnlocked value.length env).2 else c := by
  by_cases hwrites : c.Writes (keyToDataPath key) value env
  · obtain ⟨after, hstore, -⟩ := storeUnlocked_of_writes keyToDataPath hwrites writeFailed ttl
    rw [hstore] at hfailed
    exact absurd hfailed (by simp)
  · obtain ⟨error', hstore⟩ := storeUnlocked_of_not_writes keyToDataPath hwrites writeFailed ttl
    rw [hstore]

/-- A failed put changes nothing exactly when it evicts nothing. -/
theorem failed_put_unchanged_iff {key : Key} {value : Bytes} {ttl : Option Millis} {error : Error}
    (henum : Enumerates env.order c.lruIndex)
    (hfailed : (c.put keyToDataPath key value ttl env).1 = .error error) :
    Unchanged c (c.put keyToDataPath key value ttl env).2 ↔ c.EvictsNothing value env := by
  have hstate := storeUnlocked_of_error keyToDataPath hfailed
  have hroom := evictToFitUnlocked_unchanged_iff (visits_of_enumerates henum) value.length
  unfold DiskCache.put EvictsNothing
  rw [hstate]
  by_cases hmkpath : env.io.mkpath = true
  · rw [if_pos hmkpath, hroom]
    simp [hmkpath]
  · rw [if_neg hmkpath]
    exact iff_of_true ⟨rfl, rfl, rfl, rfl⟩ (Or.inl hmkpath)

/-- One file of four bytes. -/
def oneFileRun : List (Op Nat Nat) :=
  [.put 0 (List.replicate 4 0) none { wall := 0, steady := 1 }]

/-- A call whose temporary file cannot be written. -/
def unwritableEnv : Env Nat := { wall := 0, steady := 2, order := [0], io := { writeTemp := false } }

theorem failed_put_unchanged_iff_oneFileRun :
    let c := run (step id) (opened { maxBytes := 10 } ∅ ∅ []) oneFileRun
    Unchanged c (c.put id 1 (List.replicate 6 0) none unwritableEnv).2 := by
  intro c
  have hfailed : (c.put id 1 (List.replicate 6 0) none unwritableEnv).1 =
      .error ⟨.internalError, "DiskCache: atomic write failed"⟩ := rfl
  have hroom : c.totalBytes + 6 ≤ c.config.maxBytes := by decide
  exact (failed_put_unchanged_iff id (by decide) hfailed).mpr (Or.inr (Or.inr (Or.inr (Or.inl hroom))))

/-- Under a limit of nine bytes the first file is deleted before the second one fails. -/
theorem failed_put_deletes_file :
    ¬ ∀ (config : Config) (ops : List (Op Nat Nat)),
      Along (step id) (Reliable id) (opened config ∅ ∅ []) ops →
      ∀ (key : Nat) (value : Bytes) (ttl : Option Millis) (env : Env Nat) (error : Error),
        let c := run (step id) (opened config ∅ ∅ []) ops
        Enumerates env.order c.lruIndex → (c.put id key value ttl env).1 = .error error →
          Unchanged c (c.put id key value ttl env).2 := by
  intro hclaim
  have hreliable : Along (step id) (Reliable id) (opened { maxBytes := 9 } ∅ ∅ []) oneFileRun :=
    ⟨reliable_put (by decide), trivial⟩
  have hunchanged := hclaim { maxBytes := 9 } oneFileRun hreliable 1 (List.replicate 6 0) none
    unwritableEnv ⟨.internalError, "DiskCache: atomic write failed"⟩ (by decide) rfl
  exact absurd (congrArg size hunchanged.files) (by decide)

end SoulCoreKit.Cache.DiskCache
