import SoulCoreKit.Storage.DiskCache

/-!
# The accounts of the storage module's disk cache

A put takes the size of its key off the counter long before it records the new one, and the entry
stays in the map meanwhile. So the accounts are stated against a map of sizes: the whole map between
two calls, and the map without the key while a put is under way. Every pass of the eviction keeps the
latter, and what a put that fails to open its file leaves behind is read off from it.
-/

namespace SoulCoreKit.Storage.DiskCache

open Cache (Bytes SizeT)
open UnorderedMap

variable {Key : Type} [DecidableEq Key] {hash : Key → List Char} {c : DiskCache Key} {key : Key}
  {sizes : UnorderedMap Key SizeT} {size : SizeT} {env : Env} {passes : Nat → Env}

/-- The sum of the sizes of a map, as a number that does not wrap. -/
def sizeSum (sizes : UnorderedMap Key SizeT) : Nat := total (fun _ size => size.toNat) sizes

/-- The counter and the list are those of the map, and no call went wrong. -/
structure Balanced (sizes : UnorderedMap Key SizeT) (c : DiskCache Key) : Prop where
  currentSize_eq : c.currentSize.toNat = sizeSum sizes
  enumerates : Enumerates c.lruList sizes
  not_wrapped : c.wrapped = false
  not_relocked : c.relocked = false

def Accounted (c : DiskCache Key) : Prop := Balanced c.entrySizes c

/-- The accounts while a put of the key is under way. -/
def Owing (key : Key) (c : DiskCache Key) : Prop := Balanced (c.entrySizes.erase key) c

theorem accounted_start (cacheDir : String) (maxSize : SizeT) (files : CachePath → Option Bytes)
    (ttlFiles : CachePath → Option (Option Int)) :
    Accounted ({ cacheDir, maxSize, files, ttlFiles } : DiskCache Key) where
  currentSize_eq := rfl
  enumerates := ⟨List.nodup_nil, rfl⟩
  not_wrapped := rfl
  not_relocked := rfl

theorem Balanced.mem_lruList_iff (hbalanced : Balanced sizes c) :
    key ∈ c.lruList ↔ key ∈ sizes := by
  rw [← List.mem_toFinset, hbalanced.enumerates.2, Finmap.mem_keys]

/-! ### Taking entries off -/

theorem Balanced.le_currentSize (hbalanced : Balanced sizes c) (hlookup : sizes.lookup key = some size) :
    size ≤ c.currentSize := by
  have htotal := total_eq_add_erase (fun _ size => size.toNat) hlookup
  have hsize := hbalanced.currentSize_eq
  rw [UInt64.le_iff_toNat_le, hsize]
  unfold sizeSum
  omega

theorem enumerates_filter {order : List Key} (henum : Enumerates order sizes) (key : Key) :
    Enumerates (order.filter (· ≠ key)) (sizes.erase key) := by
  refine ⟨henum.1.filter _, ?_⟩
  ext other
  rw [Finmap.keys_erase, ← henum.2]
  simp [and_comm]

/-- A size goes off the counter and its key off the list, in whichever way the list loses it. -/
theorem Balanced.erase (hbalanced : Balanced sizes c) (hlookup : sizes.lookup key = some size)
    {d : DiskCache Key} (hsize : d.currentSize = (c.subtractSize size).currentSize)
    (hwrapped : d.wrapped = (c.subtractSize size).wrapped) (hrelocked : d.relocked = c.relocked)
    (hlist : d.lruList = c.lruList.filter (· ≠ key)) : Balanced (sizes.erase key) d where
  currentSize_eq := by
    have hle := hbalanced.le_currentSize hlookup
    have htotal := total_eq_add_erase (fun _ size => size.toNat) hlookup
    have hbefore := hbalanced.currentSize_eq
    rw [hsize]
    unfold subtractSize
    rw [UInt64.toNat_sub_of_le _ _ hle, hbefore]
    unfold sizeSum
    omega
  enumerates := by
    rw [hlist]
    exact enumerates_filter hbalanced.enumerates key
  not_wrapped := by
    have hle := hbalanced.le_currentSize hlookup
    rw [hwrapped]
    unfold subtractSize
    simp [hbalanced.not_wrapped, UInt64.not_lt.mpr hle]
  not_relocked := hrelocked.trans hbalanced.not_relocked

theorem dropLast_eq_filter {order : List Key} (hnodup : order.Nodup) (hlast : order.getLast? = some key) :
    order.dropLast = order.filter (· ≠ key) := by
  have hne : order ≠ [] := by
    rintro rfl
    exact absurd hlast (by simp)
  rw [List.getLast?_eq_some_getLast hne] at hlast
  have hnodup' : (order.map id).Nodup := by rwa [List.map_id]
  rw [← Option.some.inj hlast]
  exact (Recency.without_last hnodup' hne).symm

theorem forgetSize_entrySizes (c : DiskCache Key) (key : Key) :
    (c.forgetSize key).entrySizes = c.entrySizes := by
  unfold forgetSize
  cases c.entrySizes.lookup key with
  | none => rfl
  | some size => rfl

theorem Accounted.owing_forgetSize (haccounted : c.Accounted) (key : Key) :
    (c.forgetSize key).Owing key := by
  unfold Owing
  rw [forgetSize_entrySizes]
  unfold forgetSize
  cases hlookup : c.entrySizes.lookup key with
  | none =>
      rw [erase_of_lookup_none hlookup]
      exact haccounted
  | some size => exact haccounted.erase hlookup rfl rfl rfl rfl

/-! ### Making room -/

omit [DecidableEq Key] in
theorem deletions_eq (c : DiskCache Key) (path : CachePath) (env : Env) :
    ∃ files ttlFiles, (c.removeData path env).2.removeTtl path env = { c with files, ttlFiles } := by
  unfold removeData removeTtl
  split <;> split <;> exact ⟨_, _, rfl⟩

theorem evictKey_eq (hash : Key → List Char) (c : DiskCache Key) (key : Key) (env : Env) :
    ∃ files ttlFiles, c.evictKey hash key env =
      { c with lruList := c.lruList.dropLast, files, ttlFiles }.eraseSize key := by
  obtain ⟨files, ttlFiles, hdisk⟩ :=
    deletions_eq { c with lruList := c.lruList.dropLast } (getFilePath hash key) env
  refine ⟨files, ttlFiles, ?_⟩
  unfold evictKey
  dsimp only
  rw [hdisk]

/-- What making room for a key keeps: the accounts without the key, whether the key has an entry, and
the bound on the sum of the others. -/
structure MadeRoom (key : Key) (c room : DiskCache Key) : Prop where
  owing : room.Owing key
  mem_iff : key ∈ room.entrySizes ↔ key ∈ c.entrySizes
  sum_le : sizeSum (room.entrySizes.erase key) ≤ sizeSum (c.entrySizes.erase key)

theorem MadeRoom.refl (howing : c.Owing key) : MadeRoom key c c := ⟨howing, Iff.rfl, le_rfl⟩

theorem MadeRoom.trans {room later : DiskCache Key} (hfirst : MadeRoom key c room)
    (hsecond : MadeRoom key room later) : MadeRoom key c later where
  owing := hsecond.owing
  mem_iff := hsecond.mem_iff.trans hfirst.mem_iff
  sum_le := hsecond.sum_le.trans hfirst.sum_le

/-- A pass meets a key other than the one that is being put. -/
theorem Owing.evictKey {last : Key} (howing : c.Owing key) (hlast : c.lruList.getLast? = some last)
    (env : Env) : MadeRoom key c (c.evictKey hash last env) := by
  have hmem : last ∈ c.entrySizes.erase key := howing.mem_lruList_iff.mp (List.mem_of_getLast? hlast)
  have hne : last ≠ key := (Finmap.mem_erase.mp hmem).1
  obtain ⟨size, hsize⟩ := Finmap.mem_iff.mp hmem
  have hlookup : c.entrySizes.lookup last = some size := by
    rwa [Finmap.lookup_erase_ne hne] at hsize
  obtain ⟨files, ttlFiles, heq⟩ := evictKey_eq hash c last env
  have hsizes : (c.evictKey hash last env).entrySizes = c.entrySizes.erase last := by
    rw [heq]
    simp [eraseSize, hlookup]
  have hdrop := dropLast_eq_filter howing.enumerates.1 hlast
  refine ⟨?_, ?_, ?_⟩
  · unfold Owing
    rw [hsizes, Finmap.erase_erase]
    apply howing.erase hsize
    · rw [heq]
      simp [eraseSize, hlookup, subtractSize]
    · rw [heq]
      simp [eraseSize, hlookup, subtractSize]
    · rw [heq]
      simp [eraseSize, hlookup, subtractSize]
    · rw [heq, ← hdrop]
      simp [eraseSize, hlookup, subtractSize]
  · rw [hsizes, Finmap.mem_erase]
    exact and_iff_right hne.symm
  · have htotal := total_erase (fun _ size => size.toNat) (c.entrySizes.erase key) last
    rw [hsizes, Finmap.erase_erase]
    unfold sizeSum
    omega

theorem Owing.evictLoop (howing : c.Owing key) (passes : Nat → Env) (bound : Nat) :
    MadeRoom key c (evictLoop hash passes bound c) := by
  induction bound generalizing c with
  | zero => exact .refl howing
  | succ bound ih =>
      unfold DiskCache.evictLoop
      cases hlast : c.lruList.getLast? with
      | none => exact .refl howing
      | some last =>
          have hpass := @Owing.evictKey Key _ hash c key last howing hlast (passes c.lruList.length)
          dsimp only
          split
          · exact hpass
          · exact hpass.trans (ih hpass.owing)

theorem Owing.makeRoom (howing : c.Owing key) (size : SizeT) (passes : Nat → Env) :
    MadeRoom key c (c.makeRoom hash size passes) := by
  unfold DiskCache.makeRoom
  split
  · exact howing.evictLoop passes _
  · exact .refl howing

/-! ### Each call -/

/-- A put that fails to open its file has taken the size of the key off the counter and the key off the
list: this is right only when the key had no entry. -/
theorem Owing.accounted_iff (howing : c.Owing key) : c.Accounted ↔ key ∉ c.entrySizes := by
  constructor
  · intro haccounted hmem
    have hlisted : key ∈ c.entrySizes.erase key :=
      howing.mem_lruList_iff.mp (haccounted.mem_lruList_iff.mpr hmem)
    exact (Finmap.mem_erase.mp hlisted).1 rfl
  · intro hfresh
    have herase := erase_of_lookup_none (Finmap.lookup_eq_none.mpr hfresh)
    unfold Owing at howing
    rwa [herase] at howing

theorem Owing.recordSize (howing : c.Owing key)
    (hfits : sizeSum (c.entrySizes.erase key) + size.toNat < 2 ^ 64) :
    (c.recordSize key size).Accounted where
  currentSize_eq := by
    have hinsert := total_insert (fun _ size => size.toNat) c.entrySizes key size
    have hbefore := howing.currentSize_eq
    unfold DiskCache.recordSize
    dsimp only
    rw [UInt64.toNat_add, hbefore, Nat.mod_eq_of_lt hfits]
    unfold sizeSum
    omega
  enumerates := by
    have hfresh : key ∉ c.lruList := by
      rw [howing.mem_lruList_iff]
      exact Finmap.notMem_erase_self
    refine ⟨List.nodup_cons.mpr ⟨hfresh, howing.enumerates.1⟩, ?_⟩
    unfold DiskCache.recordSize
    dsimp only
    rw [List.toFinset_cons, howing.enumerates.2]
    ext other
    by_cases heq : other = key
    · simp [heq, Finmap.mem_keys]
    · simp [heq, Finmap.mem_keys]
  not_wrapped := howing.not_wrapped
  not_relocked := howing.not_relocked

omit [DecidableEq Key] in
theorem writeTtl_eq (c : DiskCache Key) (path : CachePath) (ttl : Seconds) (env : Env) :
    ∃ ttlFiles, c.writeTtl path ttl env = { c with ttlFiles } := by
  unfold writeTtl
  split
  · exact ⟨_, rfl⟩
  · exact ⟨_, rfl⟩

/-- The sizes of the entries, with the new one, are within `size_t`. -/
def Fits (c : DiskCache Key) (key : Key) (value : Bytes) : Prop :=
  sizeSum (c.entrySizes.erase key) + value.length < 2 ^ 64

theorem accounted_putTtl_iff (haccounted : c.Accounted) {value : Bytes} (hfits : c.Fits key value)
    (ttl : Seconds) :
    (c.putTtl hash key value ttl env passes).2.Accounted ↔
      (env.mkpath = true → env.openData = false → key ∉ c.entrySizes) := by
  unfold putTtl
  cases hmkpath : env.mkpath with
  | false => simpa using haccounted
  | true =>
      have hforget := haccounted.owing_forgetSize key
      have hroom := @Owing.makeRoom Key _ hash _ key hforget (UInt64.ofNat value.length) passes
      have hmem := hroom.mem_iff
      have hsum := hroom.sum_le
      rw [forgetSize_entrySizes] at hmem hsum
      cases hopen : env.openData with
      | false =>
          rw [← hmem, ← hroom.owing.accounted_iff]
          simp
      | true =>
          obtain ⟨ttlFiles, hwrite⟩ := writeTtl_eq
            { (c.forgetSize key).makeRoom hash (UInt64.ofNat value.length) passes with
              files := Function.update
                ((c.forgetSize key).makeRoom hash (UInt64.ofNat value.length) passes).files
                (getFilePath hash key) (some value) } (getFilePath hash key) ttl env
          simp only [not_true_eq_false, if_false, hwrite]
          simp only [Bool.true_eq_false, false_implies, implies_true, iff_true]
          have howing := hroom.owing
          apply Owing.recordSize
          · exact ⟨howing.currentSize_eq, howing.enumerates, howing.not_wrapped, howing.not_relocked⟩
          · dsimp only
            have hlength : value.length < 2 ^ 64 := by
              unfold Fits at hfits
              omega
            rw [UInt64.toNat_ofNat_of_lt' hlength]
            unfold Fits at hfits
            omega

/-- What a get must find: for a missing file, no size that would be lost; for a file that is there, one
that has not expired, and an entry if the file opens. -/
def GetSound (hash : Key → List Char) (c : DiskCache Key) (key : Key) (env : Env) : Prop :=
  match c.files (getFilePath hash key) with
  | none => weightAt (fun _ size => size.toNat) c.entrySizes key = 0
  | some _ => c.isExpired hash key env = false ∧ (env.openData = true → key ∈ c.entrySizes)

theorem accounted_unlist_iff (haccounted : c.Accounted) (key : Key) :
    ({ c with entrySizes := c.entrySizes.erase key }.unlist key).Accounted ↔
      weightAt (fun _ size => size.toNat) c.entrySizes key = 0 := by
  have htotal := total_erase (fun _ size => size.toNat) c.entrySizes key
  have hsize : c.currentSize.toNat = total (fun _ size => size.toNat) c.entrySizes :=
    haccounted.currentSize_eq
  constructor
  · intro hafter
    have hsizeAfter : c.currentSize.toNat = total (fun _ size => size.toNat) (c.entrySizes.erase key) :=
      hafter.currentSize_eq
    omega
  · intro hzero
    refine ⟨?_, enumerates_filter haccounted.enumerates key, haccounted.not_wrapped,
      haccounted.not_relocked⟩
    change c.currentSize.toNat = total (fun _ size => size.toNat) (c.entrySizes.erase key)
    omega

theorem accounted_touch_iff (haccounted : c.Accounted) (key : Key) :
    ({ c.unlist key with lruList := key :: (c.unlist key).lruList }).Accounted ↔
      key ∈ c.entrySizes := by
  constructor
  · intro hafter
    exact hafter.mem_lruList_iff.mp (List.mem_cons_self ..)
  · intro hmem
    refine ⟨haccounted.currentSize_eq, ⟨?_, ?_⟩, haccounted.not_wrapped, haccounted.not_relocked⟩
    · have hnodup := haccounted.enumerates.1.filter (· ≠ key)
      exact List.nodup_cons.mpr ⟨by simp [unlist], hnodup⟩
    · have hkeys := haccounted.enumerates.2
      have hlisted : key ∈ c.lruList := haccounted.mem_lruList_iff.mpr hmem
      dsimp only
      change (key :: c.lruList.filter (· ≠ key)).toFinset = c.entrySizes.keys
      rw [← hkeys]
      ext other
      by_cases heq : other = key
      · simp [heq, hlisted]
      · simp [heq]

theorem accounted_get_iff (haccounted : c.Accounted) (key : Key) (env : Env) :
    (c.get hash key env).2.Accounted ↔ c.GetSound hash key env := by
  unfold get GetSound
  dsimp only
  cases hfile : c.files (getFilePath hash key) with
  | none => exact accounted_unlist_iff haccounted key
  | some data =>
      dsimp only
      cases hexpired : c.isExpired hash key env with
      | true =>
          simp only [if_true, Bool.true_eq_false, false_and, iff_false]
          intro hafter
          exact absurd hafter.not_relocked (by simp)
      | false =>
          cases hopen : env.openData with
          | false => simpa using haccounted
          | true => simpa using accounted_touch_iff haccounted key

theorem Accounted.forgotten (haccounted : c.Accounted) (key : Key) :
    ((c.eraseSize key).unlist key).Accounted := by
  unfold Accounted eraseSize
  cases hlookup : c.entrySizes.lookup key with
  | none =>
      have hfilter := enumerates_filter haccounted.enumerates key
      rw [erase_of_lookup_none hlookup] at hfilter
      exact ⟨haccounted.currentSize_eq, hfilter, haccounted.not_wrapped, haccounted.not_relocked⟩
  | some size => exact haccounted.erase hlookup rfl rfl rfl rfl

theorem Accounted.onDisk (haccounted : c.Accounted) (files : CachePath → Option Bytes)
    (ttlFiles : CachePath → Option (Option Int)) : { c with files, ttlFiles }.Accounted :=
  ⟨haccounted.currentSize_eq, haccounted.enumerates, haccounted.not_wrapped, haccounted.not_relocked⟩

theorem Accounted.remove (haccounted : c.Accounted) (key : Key) (env : Env) :
    (c.remove hash key env).2.Accounted := by
  have hforgotten := haccounted.forgotten key
  obtain ⟨files, ttlFiles, hdisk⟩ :=
    deletions_eq ((c.eraseSize key).unlist key) (getFilePath hash key) env
  rw [remove_snd, hdisk]
  exact hforgotten.onDisk files ttlFiles

theorem Accounted.clear (haccounted : c.Accounted) (removable : CachePath → Bool) :
    (c.clear removable).Accounted :=
  ⟨rfl, ⟨List.nodup_nil, rfl⟩, haccounted.not_wrapped, haccounted.not_relocked⟩

/-! ### Runs -/

def SizesFit (c : DiskCache Key) : Op Key → Prop
  | .put key value _ _ => c.Fits key value
  | .putTtl key value _ _ _ => c.Fits key value
  | _ => True

def Sound (hash : Key → List Char) (c : DiskCache Key) : Op Key → Prop
  | .put key _ env _ => env.mkpath = true → env.openData = false → key ∉ c.entrySizes
  | .putTtl key _ _ env _ => env.mkpath = true → env.openData = false → key ∉ c.entrySizes
  | .get key env => c.GetSound hash key env
  | _ => True

theorem accounted_step_iff (haccounted : c.Accounted) {op : Op Key} (hfits : c.SizesFit op) :
    (c.step hash op).Accounted ↔ c.Sound hash op := by
  cases op with
  | put key value env passes => exact accounted_putTtl_iff haccounted hfits 0
  | putTtl key value ttl env passes => exact accounted_putTtl_iff haccounted hfits ttl
  | get key env => exact accounted_get_iff haccounted key env
  | contains key env => exact iff_of_true haccounted trivial
  | remove key env => exact iff_of_true (haccounted.remove key env) trivial
  | clear removable => exact iff_of_true (haccounted.clear removable) trivial
  | deleteData path => exact iff_of_true (haccounted.onDisk _ c.ttlFiles) trivial
  | deleteTtl path => exact iff_of_true (haccounted.onDisk c.files _) trivial

/-- Over any disk found at the start, the accounts are right all along a run exactly if no put fails to
open the file of a key that has an entry and every get finds what it must. -/
theorem accounted_always_iff_sound (hash : Key → List Char) (cacheDir : String) (maxSize : SizeT)
    (files : CachePath → Option Bytes) (ttlFiles : CachePath → Option (Option Int))
    (ops : List (Op Key))
    (hfits : Along (step hash) SizesFit { cacheDir, maxSize, files, ttlFiles } ops) :
    (∀ n, (run (step hash) { cacheDir, maxSize, files, ttlFiles } (ops.take n)).Accounted) ↔
      Along (step hash) (Sound hash) { cacheDir, maxSize, files, ttlFiles } ops := by
  refine always_iff_along (I := fun _ => True) hfits trivial
    (accounted_start cacheDir maxSize files ttlFiles) (fun _ _ _ _ => trivial) ?_
  intro c op _ hfit haccounted
  exact accounted_step_iff haccounted hfit

/-! ### A file that does not open -/

/-- The SHA-256 digest of the one key of the run below. -/
def digestOfK : List Char := "8254c329a92850f6d539dd376f4816ee2764517da5e0235514af433164480d7a".toList

def unopened : Env := { openData := false }

def reputRun : List (Op String) :=
  [.put "k" [1] {} (fun _ => {}), .put "k" [1, 2] unopened (fun _ => {})]

/-- The second put leaves the entry in the map, its size off the counter and its key off the list. -/
theorem unopened_put_loses_size :
    ¬ ∀ n, (run (step fun _ => digestOfK) {} (reputRun.take n)).Accounted := by
  intro halways
  have hafter := halways 2
  have hlisted := @Balanced.mem_lruList_iff String _ _ "k" _ hafter
  have hlist : (run (step fun _ => digestOfK) {} (reputRun.take 2)).lruList = [] := by
    decide
  rw [hlist] at hlisted
  have hmem : "k" ∈ (run (step fun _ => digestOfK) {} (reputRun.take 2)).entrySizes := by
    decide
  exact absurd (hlisted.mpr hmem) (by simp)

/-- The first put fails too, but of a key without an entry. -/
def keptRun : List (Op String) :=
  [.put "k" [1] unopened (fun _ => {}), .put "k" [1] {} (fun _ => {}), .put "k" [1, 2] {} (fun _ => {}),
    .get "k" {}]

theorem accounted_always_iff_sound_keptRun :
    Along (step fun _ => digestOfK) (Sound fun _ => digestOfK) {} keptRun ∧
      ∀ n, (run (step fun _ => digestOfK) {} (keptRun.take n)).Accounted := by
  have hfits : Along (step fun _ => digestOfK) SizesFit {} keptRun := by
    refine ⟨?_, ?_, ?_, trivial, trivial⟩
    · change sizeSum _ + 1 < 2 ^ 64
      decide
    · change sizeSum _ + 1 < 2 ^ 64
      decide
    · change sizeSum _ + 2 < 2 ^ 64
      decide
  have hsound : Along (step fun _ => digestOfK) (Sound fun _ => digestOfK) {} keptRun := by
    refine ⟨fun _ _ => by decide, fun _ hopens => ?_, fun _ hopens => ?_, ?_, trivial⟩
    · cases hopens
    · cases hopens
    · have hfile : (run (step fun _ => digestOfK) {} (keptRun.take 3)).files
          (getFilePath (fun _ => digestOfK) "k") = some [1, 2] := by decide
      have hget : GetSound (fun _ => digestOfK) (run (step fun _ => digestOfK) {} (keptRun.take 3)) "k"
          {} := by
        unfold GetSound
        rw [hfile]
        exact ⟨by decide, fun _ => by decide⟩
      exact hget
  exact ⟨hsound, (accounted_always_iff_sound _ _ _ _ _ _ hfits).mpr hsound⟩

end SoulCoreKit.Storage.DiskCache
