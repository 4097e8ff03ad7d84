import SoulCoreKit.Proof.MemoryCacheInvariant

/-!
# The capacity of the memory cache

Room is made only for a new key. Putting a key that is present changes the byte total without
evicting anything, so the byte bound holds for the runs whose overwrites fit beside the other
entries. The size of an insertion is added to the counter before the comparison with the limit, so
that sum must not wrap either.
-/

namespace SoulCoreKit.Cache.MemoryCache

open UnorderedMap

variable {K V : Type} [DecidableEq K] {c c' : MemoryCache K V} {key : K} {entry : Entry V}

/-- The bounds the configuration sets. -/
def Within (c : MemoryCache K V) : Prop :=
  c.entries.size ≤ c.config.maxEntries.toNat ∧ c.stats.totalBytes ≤ c.config.maxBytes

/-- An overwrite fits beside the other entries, and the sum an insertion is tested with does not
wrap. -/
def StoreFits (c : MemoryCache K V) (key : K) (entrySize : SizeT) : Prop :=
  if key ∈ c.entries then
    byteSum (c.entries.erase key) + entrySize.toNat ≤ c.config.maxBytes.toNat
  else
    byteSum c.entries + entrySize.toNat < 2 ^ 64

instance (c : MemoryCache K V) (key : K) (entrySize : SizeT) :
    Decidable (c.StoreFits key entrySize) :=
  inferInstanceAs (Decidable (if key ∈ c.entries then
    byteSum (c.entries.erase key) + entrySize.toNat ≤ c.config.maxBytes.toNat
  else
    byteSum c.entries + entrySize.toNat < 2 ^ 64))

/-- The values a call puts. -/
def Op.values : Op K V → List V
  | .put _ value _ _ => [value]
  | .putMany entries _ _ => entries.map (·.2)
  | _ => []

/-- The bounds with the byte total in exact arithmetic. -/
structure Bounded (config : Config) (c : MemoryCache K V) : Prop where
  repr : c.Repr
  config_eq : c.config = config
  entries_le : c.entries.size ≤ config.maxEntries.toNat
  bytes_le : byteSum c.entries ≤ config.maxBytes.toNat

theorem Repr.totalBytes_of_le (hrepr : c.Repr) {bound : SizeT}
    (hle : byteSum c.entries ≤ bound.toNat) : c.stats.totalBytes.toNat = byteSum c.entries := by
  have hcounter := hrepr.counted.counter
  have hbound := bound.toNat_lt
  omega

theorem Bounded.within {config : Config} (hbounded : c.Bounded config) : c.Within := by
  refine ⟨?_, ?_⟩
  · rw [hbounded.config_eq]
    exact hbounded.entries_le
  · rw [hbounded.config_eq, UInt64.le_iff_toNat_le,
      hbounded.repr.totalBytes_of_le hbounded.bytes_le]
    exact hbounded.bytes_le

theorem Bounded.of_le {config : Config} (hbounded : c.Bounded config) (hrepr : c'.Repr)
    (hconfig : c'.config = c.config) (hsize : c'.entries.size ≤ c.entries.size)
    (hbytes : byteSum c'.entries ≤ byteSum c.entries) : c'.Bounded config where
  repr := hrepr
  config_eq := hconfig.trans hbounded.config_eq
  entries_le := hsize.trans hbounded.entries_le
  bytes_le := hbytes.trans hbounded.bytes_le

theorem Bounded.erase {config : Config} (hbounded : c.Bounded config) (hrepr : c'.Repr)
    (hconfig : c'.config = c.config) (hlookup : c.entries.lookup key = some entry)
    (hentries : c'.entries = c.entries.erase key) : c'.Bounded config := by
  apply hbounded.of_le hrepr hconfig
  · have hsize := size_erase_of_lookup hlookup
    rw [hentries]
    omega
  · have hsum := byteSum_eq_add_erase hlookup
    rw [hentries]
    omega

theorem Bounded.lookupUnlocked {config : Config} (hbounded : c.Bounded config) (key : K)
    (now : Time) : (c.lookupUnlocked key now).2.Bounded config := by
  have hrepr := hbounded.repr.lookupUnlocked key now
  cases hlookup : c.entries.lookup key with
  | none =>
      rw [lookupUnlocked_of_none hlookup] at hrepr ⊢
      exact hbounded.of_le hrepr rfl le_rfl le_rfl
  | some entry =>
      by_cases hexpired : expired entry.expireTime now = true
      · rw [lookupUnlocked_of_expired hlookup hexpired] at hrepr ⊢
        exact hbounded.erase hrepr rfl hlookup rfl
      · rw [lookupUnlocked_of_live hlookup hexpired] at hrepr ⊢
        have hentries := c.touchUnlocked_entries entry.listIt
        exact hbounded.of_le hrepr (c.touchUnlocked_config entry.listIt)
          (le_of_eq (congrArg size hentries)) (le_of_eq (congrArg byteSum hentries))

theorem Bounded.getManyLoop {config : Config} (hbounded : c.Bounded config)
    (keys : List (K × Time)) (result : UnorderedMap K V) :
    (getManyLoop keys result c).2.Bounded config := by
  induction keys generalizing result c with
  | nil => exact hbounded
  | cons first keys ih =>
      obtain ⟨key, now⟩ := first
      have hnext := hbounded.lookupUnlocked key now
      unfold MemoryCache.getManyLoop
      split
      · rename_i c' heq
        rw [heq] at hnext
        exact ih hnext result
      · rename_i value c' heq
        rw [heq] at hnext
        exact ih hnext _

theorem byteSum_evictLoop_le (hrepr : c.Repr) (incomingSize : SizeT) (fuel : Nat) :
    byteSum (evictLoop incomingSize fuel c).entries ≤ byteSum c.entries := by
  induction fuel generalizing c with
  | zero => exact le_rfl
  | succ fuel ih =>
      unfold evictLoop
      split_ifs with hover
      · apply (ih (hrepr.evictLruUnlocked hover.1)).trans
        obtain ⟨node, entry, -, hlookup, heq⟩ := evictLruUnlocked_eq hrepr hover.1
        rw [heq, byteSum_eq_add_erase hlookup]
        exact Nat.le_add_right _ _
      · exact le_rfl

theorem byteSum_evictToFitUnlocked_le (hrepr : c.Repr) (incomingSize : SizeT) :
    byteSum (c.evictToFitUnlocked incomingSize).entries ≤ byteSum c.entries :=
  byteSum_evictLoop_le hrepr incomingSize _

/-- After making room, the new entry fits, whatever the state was before. -/
theorem evictToFitUnlocked_room (hrepr : c.Repr) {incomingSize : SizeT}
    (hentries : 1 ≤ c.config.maxEntries) (hbytes : 0 < c.config.maxBytes)
    (hincoming : incomingSize ≤ c.config.maxBytes)
    (hnowrap : byteSum c.entries + incomingSize.toNat < 2 ^ 64) :
    (c.evictToFitUnlocked incomingSize).entries.size + 1 ≤ c.config.maxEntries.toNat ∧
      byteSum (c.evictToFitUnlocked incomingSize).entries + incomingSize.toNat ≤
        c.config.maxBytes.toNat := by
  have hroom := hrepr.evictToFitUnlocked incomingSize
  have hconfig := c.evictToFitUnlocked_config incomingSize
  have hle := byteSum_evictToFitUnlocked_le hrepr incomingSize
  have hcounter := hroom.counted.counter
  rw [UInt64.le_iff_toNat_le] at hentries hincoming
  have hone : (1 : SizeT).toNat = 1 := rfl
  rcases evictToFitUnlocked_ends hrepr incomingSize with hempty | hfits
  · have hsum : byteSum (c.evictToFitUnlocked incomingSize).entries = 0 := by
      unfold byteSum
      rw [size_eq_zero_iff.mp hempty, total_empty]
    omega
  · simp only [overLimit, hconfig, decide_eq_false_iff_not, not_or, not_and, not_le] at hfits
    have hbyte := hfits.2 hbytes
    rw [UInt64.lt_iff_toNat_lt, UInt64.toNat_add] at hbyte
    exact ⟨hfits.1, by omega⟩

theorem Bounded.storeUnlocked {config : Config} (hbounded : c.Bounded config)
    (hentries : 1 ≤ config.maxEntries) (hbytes : 0 < config.maxBytes) {entrySize : SizeT}
    (hsize : entrySize ≤ config.maxBytes) (hfits : c.StoreFits key entrySize) (value : V)
    (expireTime : Deadline) : (c.storeUnlocked key value entrySize expireTime).Bounded config := by
  have hrepr := hbounded.repr.storeUnlocked key value entrySize expireTime
  have hconfig := hbounded.config_eq
  cases hlookup : c.entries.lookup key with
  | some entry =>
      have hmem := Finmap.mem_of_lookup_eq_some hlookup
      unfold StoreFits at hfits
      rw [if_pos hmem, hconfig] at hfits
      simp only [MemoryCache.storeUnlocked, hlookup] at hrepr ⊢
      rw [overwriteUnlocked_eq hbounded.repr.indexed hlookup] at hrepr ⊢
      refine ⟨hrepr, hconfig, ?_, ?_⟩
      · have herase := size_erase_of_lookup hlookup
        have hinsert := @size_insert_of_notMem K (Entry V) _ (c.entries.erase key) key
          (entry.updated value entrySize expireTime) Finmap.notMem_erase_self
        rw [insert_erase] at hinsert
        rw [hinsert, herase]
        exact hbounded.entries_le
      · rw [byteSum_insert]
        exact hfits
  | none =>
      have hnotMem := Finmap.lookup_eq_none.mp hlookup
      unfold StoreFits at hfits
      rw [if_neg hnotMem] at hfits
      simp only [MemoryCache.storeUnlocked, hlookup] at hrepr ⊢
      obtain ⟨hroom, hbyte⟩ := evictToFitUnlocked_room hbounded.repr (hconfig ▸ hentries)
        (hconfig ▸ hbytes) (hconfig ▸ hsize) hfits
      have habsent := lookup_evictToFitUnlocked_of_none entrySize hlookup
      rw [hconfig] at hroom hbyte
      refine ⟨hrepr, (c.evictToFitUnlocked_config entrySize).trans hconfig, ?_, ?_⟩
      · apply le_trans _ hroom
        exact le_of_eq (size_insert_of_notMem (Finmap.lookup_eq_none.mp habsent))
      · rw [byteSum_insertUnlocked hlookup]
        exact hbyte

theorem Bounded.storeMany {config : Config} (estimateSize : V → SizeT)
    (hbounded : c.Bounded config) (hentries : 1 ≤ config.maxEntries) (hbytes : 0 < config.maxBytes)
    (expireTime : Deadline) {entries : List (K × V)}
    (hsizes : ∀ entry ∈ entries, estimateSize entry.2 ≤ config.maxBytes)
    (hfits : Along (fun c (entry : K × V) =>
        c.storeUnlocked entry.1 entry.2 (estimateSize entry.2) expireTime)
      (fun c entry => c.StoreFits entry.1 (estimateSize entry.2)) c entries) :
    (entries.foldl (fun c entry =>
      c.storeUnlocked entry.1 entry.2 (estimateSize entry.2) expireTime) c).Bounded config := by
  induction entries generalizing c with
  | nil => exact hbounded
  | cons first entries ih =>
      have hfirst := hsizes first List.mem_cons_self
      have hnext := hbounded.storeUnlocked hentries hbytes hfirst hfits.1 first.2 expireTime
      apply ih hnext _ hfits.2
      intro entry hentry
      exact hsizes entry (List.mem_cons_of_mem _ hentry)

theorem Bounded.step {config : Config} (estimateSize : V → SizeT) (hbounded : c.Bounded config)
    (hentries : 1 ≤ config.maxEntries) (hbytes : 0 < config.maxBytes) {op : Op K V}
    (hsizes : ∀ value ∈ op.values, estimateSize value ≤ config.maxBytes)
    (hfits : c.EveryStore StoreFits estimateSize op) : (c.step estimateSize op).Bounded config := by
  have hrepr := hbounded.repr.step estimateSize op
  cases op with
  | get key now => exact hbounded.lookupUnlocked key now
  | put key value ttl now =>
      exact hbounded.storeUnlocked hentries hbytes (hsizes value List.mem_cons_self) hfits value _
  | remove key =>
      cases hlookup : c.entries.lookup key with
      | none =>
          have hsame : c.step estimateSize (.remove key) = c := by
            simp [MemoryCache.step, exec, remove, hlookup]
          rwa [hsame]
      | some entry =>
          have hevict : c.step estimateSize (.remove key) = c.evictEntryUnlocked key entry := by
            simp [MemoryCache.step, exec, remove, hlookup]
          rw [hevict] at hrepr ⊢
          exact hbounded.erase hrepr rfl hlookup rfl
  | contains key now =>
      cases hlookup : c.entries.lookup key with
      | none =>
          have hsame : c.step estimateSize (.contains key now) = c := by
            simp [MemoryCache.step, exec, contains, hlookup]
          rwa [hsame]
      | some entry =>
          simp only [MemoryCache.step, exec, contains, hlookup] at hrepr ⊢
          split_ifs at hrepr ⊢
          · exact hbounded.erase hrepr rfl hlookup rfl
          · exact hbounded
  | clear =>
      refine hbounded.of_le hrepr rfl ?_ ?_
      · exact Nat.zero_le _
      · exact Nat.zero_le _
  | getMany keys => exact hbounded.getManyLoop keys ∅
  | putMany entries ttl now =>
      apply hbounded.storeMany estimateSize hentries hbytes _ _ hfits
      intro entry hentry
      exact hsizes entry.2 (List.mem_map_of_mem hentry)

theorem Bounded.run {config : Config} (estimateSize : V → SizeT) (hbounded : c.Bounded config)
    (hentries : 1 ≤ config.maxEntries) (hbytes : 0 < config.maxBytes) {ops : List (Op K V)}
    (hsizes : ∀ op ∈ ops, ∀ value ∈ op.values, estimateSize value ≤ config.maxBytes)
    (hrun : Along (MemoryCache.step estimateSize) (EveryStore StoreFits estimateSize) c ops) :
    (SoulCoreKit.run (MemoryCache.step estimateSize) c ops).Bounded config := by
  induction ops generalizing c with
  | nil => exact hbounded
  | cons op ops ih =>
      have hnext := hbounded.step estimateSize hentries hbytes (hsizes op List.mem_cons_self) hrun.1
      exact ih hnext (fun other hother => hsizes other (List.mem_cons_of_mem _ hother)) hrun.2

theorem bounded_empty (config : Config) : Bounded (K := K) (V := V) config { config } where
  repr := repr_empty config
  config_eq := rfl
  entries_le := Nat.zero_le _
  bytes_le := Nat.zero_le _

/-- An overwrite whose sum does not wrap leaves the cache within its bounds only if it fits. -/
theorem Bounded.within_overwrite_iff {config : Config} (hbounded : c.Bounded config)
    (hlookup : c.entries.lookup key = some entry) {entrySize : SizeT}
    (hnowrap : byteSum (c.entries.erase key) + entrySize.toNat < 2 ^ 64)
    (hentries : 1 ≤ config.maxEntries) (hbytes : 0 < config.maxBytes)
    (hsize : entrySize ≤ config.maxBytes) (value : V) (expireTime : Deadline) :
    (c.storeUnlocked key value entrySize expireTime).Within ↔ c.StoreFits key entrySize := by
  constructor
  · intro hwithin
    have hcounter := (hbounded.repr.storeUnlocked key value entrySize expireTime).counted.counter
    have hle := hwithin.2
    simp only [MemoryCache.storeUnlocked, hlookup] at hcounter hle
    rw [overwriteUnlocked_eq hbounded.repr.indexed hlookup] at hcounter hle
    rw [byteSum_insert] at hcounter
    rw [UInt64.le_iff_toNat_le, hcounter] at hle
    unfold StoreFits
    rw [if_pos (Finmap.mem_of_lookup_eq_some hlookup)]
    have hmod := Nat.mod_eq_of_lt hnowrap
    exact hmod ▸ hle
  · intro hfits
    exact (hbounded.storeUnlocked hentries hbytes hsize hfits value expireTime).within

/-- Along a run whose stores fit the bounds hold after every call. The condition is exact for an
overwrite: one that does not fit takes the total over the limit. -/
theorem within_of_fits (estimateSize : V → SizeT) {config : Config}
    (hentries : 1 ≤ config.maxEntries) (hbytes : 0 < config.maxBytes) {ops : List (Op K V)}
    (hsizes : ∀ op ∈ ops, ∀ value ∈ op.values, estimateSize value ≤ config.maxBytes)
    (hrun : Along (step estimateSize) (EveryStore StoreFits estimateSize) { config } ops) :
    (∀ n, (run (step estimateSize) { config } (ops.take n)).Within) ∧
      ∀ key value ttl now, key ∈ (run (step estimateSize) { config } ops).entries →
        estimateSize value ≤ config.maxBytes →
        byteSum ((run (step estimateSize) { config } ops).entries.erase key) +
          (estimateSize value).toNat < 2 ^ 64 →
        ((run (step estimateSize) { config } (ops ++ [.put key value ttl now])).Within ↔
          (run (step estimateSize) { config } ops).StoreFits key (estimateSize value)) := by
  constructor
  · intro n
    refine ((bounded_empty config).run estimateSize hentries hbytes ?_ (hrun.take n)).within
    intro op hop
    exact hsizes op (List.mem_of_mem_take hop)
  · intro key value ttl now hmem hsize hnowrap
    have hbounded := (bounded_empty config).run estimateSize hentries hbytes hsizes hrun
    obtain ⟨entry, hlookup⟩ := Finmap.mem_iff.mp hmem
    rw [run_concat]
    exact hbounded.within_overwrite_iff hlookup hnowrap hentries hbytes hsize value _

/-- Two entries of five bytes under a limit of ten. -/
def fullRun : List (Op Nat Nat) := [.put 0 5 none 0, .put 1 5 none 0]

theorem within_fullRun :
    (run (step UInt64.ofNat) { config := { maxBytes := 10 } } fullRun).Within := by
  have hfirst : StoreFits (K := Nat) (V := Nat) { config := { maxBytes := 10 } } 0 5 := by decide
  have hsecond : StoreFits (run (step UInt64.ofNat) { config := { maxBytes := 10 } }
      (fullRun.take 1)) 1 5 := by decide
  exact (@within_of_fits Nat Nat _ UInt64.ofNat { maxBytes := 10 } (by decide) (by decide) fullRun
    (by decide) ⟨hfirst, hsecond, trivial⟩).1 2

theorem overwrite_exceeds_maxBytes :
    ¬ ∀ (config : Config) (ops : List (Op Nat Nat)), 1 ≤ config.maxEntries → 0 < config.maxBytes →
      (∀ op ∈ ops, ∀ value ∈ op.values, UInt64.ofNat value ≤ config.maxBytes) →
      ∀ n, (run (step UInt64.ofNat) { config } (ops.take n)).Within := by
  intro hclaim
  have hwithin := hclaim { maxBytes := 10 } (fullRun ++ [.put 0 10 none 0]) (by decide) (by decide)
    (by decide) 3
  exact absurd hwithin.2 (by decide)

end SoulCoreKit.Cache.MemoryCache
