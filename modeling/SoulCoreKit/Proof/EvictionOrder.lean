import SoulCoreKit.Proof.MemoryCacheRefinement

/-!
# What an eviction takes first

The header of the memory cache has expired entries evicted before those used least recently. The loop
that makes room never asks for a deadline: each pass takes the entry at the back of the recency list,
live or not. So an expired entry goes first only where it stands behind every live one that has to go,
and since a read moves an entry to the front whatever its deadline, nothing keeps it there.

How far the loop goes is read off the list: its test, with the wrapping sum it makes, is a test of the
entries that are left.
-/

namespace SoulCoreKit.Cache.MemoryCache

open UnorderedMap

variable {K V : Type} [DecidableEq K]

/-- The states in which the eviction loop takes an entry out. -/
def evictingStates (incomingSize : SizeT) : Nat → MemoryCache K V → List (MemoryCache K V)
  | 0, _ => []
  | fuel + 1, c =>
      if c.entries.size ≠ 0 ∧ c.overLimit incomingSize then
        c :: evictingStates incomingSize fuel c.evictLruUnlocked
      else
        []

/-- The entry at the back, which the next eviction takes out, has expired, or no entry has. -/
def BackExpiredFirst (now : Time) (c : MemoryCache K V) : Prop :=
  ∀ node entry, c.lruList.getLast? = some node → c.entries.lookup node.key = some entry →
    expired entry.expireTime now = false →
      ∀ key other, c.entries.lookup key = some other → expired other.expireTime now = false

/-- The store of a new key evicts no live entry while an expired one is in the cache. -/
def StoreEvictsExpiredFirst (now : Time) (c : MemoryCache K V) (key : K) (entrySize : SizeT) : Prop :=
  key ∉ c.entries →
    ∀ state ∈ evictingStates entrySize c.lruList.length c, BackExpiredFirst now state

/-- No store of the call evicts a live entry while an expired one is in the cache. -/
def EvictsExpiredFirst (estimateSize : V → SizeT) (c : MemoryCache K V) (op : Op K V) : Prop :=
  ∀ now ∈ op.readings, EveryStore (StoreEvictsExpiredFirst now) estimateSize c op

/-- The test of the loop, made of the entries in the list. -/
def fits (config : Config) (incomingSize : SizeT) (l : List (Lru.Entry K V)) : Bool :=
  !(config.maxEntries.toNat ≤ l.length ∨
    (0 < config.maxBytes ∧ config.maxBytes < UInt64.ofNat (Lru.bytes l) + incomingSize))

/-- Behind the entries that fit beside a new one, no live entry stands behind an expired one, and none
does if an expired one fits. -/
def StoreFindsExpiredLast (now : Time) (c : MemoryCache K V) (key : K) (entrySize : SizeT) : Prop :=
  key ∉ c.entries →
    Recency.StaleFirst (fun entry : Lru.Entry K V => expired entry.deadline now = true)
      (fits c.config entrySize) c.toList

/-- At each store of the call, what has to go is in the order that the header promises. -/
def FindsExpiredLast (estimateSize : V → SizeT) (c : MemoryCache K V) (op : Op K V) : Prop :=
  ∀ now ∈ op.readings, EveryStore (StoreFindsExpiredLast now) estimateSize c op

variable {c : MemoryCache K V}

theorem overLimit_eq_not_fits (hrepr : c.Repr) (incomingSize : SizeT) :
    c.overLimit incomingSize = !fits c.config incomingSize c.toList := by
  have hlength : c.toList.length = c.entries.size := hrepr.indexed.length_view
  have hbytes : c.stats.totalBytes = UInt64.ofNat (Lru.bytes c.toList) := by
    rw [← UInt64.toNat_inj, hrepr.counted.counter, UInt64.toNat_ofNat', ← hrepr.indexed.bytes_view]
    rfl
  unfold overLimit fits
  rw [Bool.not_not, hlength, hbytes]

theorem mem_toList_iff (hrepr : c.Repr) {listed : Lru.Entry K V} :
    listed ∈ c.toList ↔ ∃ key entry, c.entries.lookup key = some entry ∧ toLru key entry = listed := by
  unfold toList view
  rw [List.mem_filterMap]
  constructor
  · rintro ⟨node, -, hlisted⟩
    obtain ⟨entry, hlookup, heq⟩ := Option.map_eq_some_iff.mp hlisted
    exact ⟨node.key, entry, hlookup, heq⟩
  · rintro ⟨key, entry, hlookup, rfl⟩
    refine ⟨_, hrepr.indexed.node_of_entry key entry hlookup, ?_⟩
    rw [hlookup]
    rfl

theorem backExpiredFirst_iff (hrepr : c.Repr) {front : List (Lru.Entry K V)} {last : Lru.Entry K V}
    (htoList : c.toList = front ++ [last]) (now : Time) :
    BackExpiredFirst now c ↔ (¬ expired last.deadline now = true →
      ∀ entry ∈ front, ¬ expired entry.deadline now = true) := by
  have hsize : c.entries.size ≠ 0 := by
    rw [Ne, ← toList_eq_nil_iff hrepr, htoList]
    exact List.append_ne_nil_of_right_ne_nil front (List.cons_ne_nil last [])
  obtain ⟨node, entry, hlast, hlookup, -⟩ := evictLruUnlocked_eq hrepr hsize
  have htoLru : toLru node.key entry = last := by
    obtain ⟨nodes, hnodes⟩ := List.getLast?_eq_some_iff.mp hlast
    have hview : c.toList = view c.entries nodes ++ [toLru node.key entry] := by
      unfold toList view
      rw [hnodes, List.filterMap_append, List.filterMap_cons, hlookup]
      rfl
    rw [htoList] at hview
    exact (List.head_eq_of_cons_eq (List.append_inj' hview rfl).2).symm
  subst htoLru
  simp only [Bool.not_eq_true]
  constructor
  · intro hback hlive listed hmem
    obtain ⟨key, other, hother, rfl⟩ :=
      (mem_toList_iff hrepr).mp (htoList ▸ List.mem_append_left _ hmem)
    exact hback node entry hlast hlookup hlive key other hother
  · intro hfront node' entry' hlast' hlookup' hlive key other hother
    rw [hlast, Option.some.injEq] at hlast'
    subst hlast'
    rw [hlookup, Option.some.injEq] at hlookup'
    subst hlookup'
    have hmem := (mem_toList_iff hrepr).mpr ⟨key, other, hother, rfl⟩
    rw [htoList] at hmem
    obtain hmem | hmem := List.mem_append.mp hmem
    · exact hfront hlive _ hmem
    · have hdeadline : other.expireTime = entry.expireTime :=
        congrArg Lru.Entry.deadline (List.mem_singleton.mp hmem)
      rw [hdeadline]
      exact hlive

/-- The passes of the loop take what `shrink` drops, from the back. -/
theorem evictingStates_iff (hrepr : c.Repr) (incomingSize : SizeT) (now : Time) {fuel : Nat}
    (hfuel : c.toList.length ≤ fuel) :
    (∀ state ∈ evictingStates incomingSize fuel c, BackExpiredFirst now state) ↔
      Recency.StaleFirst (fun entry : Lru.Entry K V => expired entry.deadline now = true)
        (fits c.config incomingSize) c.toList := by
  induction fuel generalizing c with
  | zero =>
    have hnil : c.toList = [] := List.length_eq_zero_iff.mp (by omega)
    rw [hnil]
    exact iff_of_true (fun _ hmem => absurd hmem List.not_mem_nil)
      (Recency.staleFirst_of_shrink_eq Recency.shrink_nil)
  | succ fuel ih =>
    have hfits := overLimit_eq_not_fits hrepr incomingSize
    unfold evictingStates
    split_ifs with hover
    · have hne : c.toList ≠ [] := fun hnil => hover.1 ((toList_eq_nil_iff hrepr).mp hnil)
      obtain ⟨front, last, htoList⟩ := (List.eq_nil_or_concat' c.toList).resolve_left hne
      have hstep := toList_evictLruUnlocked hrepr hover.1
      rw [htoList, List.dropLast_concat] at hstep
      have hnot : fits c.config incomingSize (front ++ [last]) = false := by
        rw [hover.2, htoList] at hfits
        simpa using hfits.symm
      have hshorter : c.evictLruUnlocked.toList.length ≤ fuel := by
        rw [htoList, List.length_append, List.length_singleton] at hfuel
        rw [hstep]
        omega
      have hrest := ih (hrepr.evictLruUnlocked hover.1) hshorter
      rw [hstep, evictLruUnlocked_config] at hrest
      rw [List.forall_mem_cons, hrest, backExpiredFirst_iff hrepr htoList, htoList,
        Recency.staleFirst_concat hnot, and_comm]
    · refine iff_of_true (fun _ hmem => absurd hmem List.not_mem_nil)
        (Recency.staleFirst_of_shrink_eq ?_)
      rw [not_and_or, not_not, Bool.not_eq_true] at hover
      obtain hempty | hroom := hover
      · rw [(toList_eq_nil_iff hrepr).mpr hempty, Recency.shrink_nil]
      · rw [hroom] at hfits
        exact Recency.shrink_of_admits (by simpa using hfits.symm)

theorem storeEvictsExpiredFirst_iff (hrepr : c.Repr) (now : Time) (key : K) (entrySize : SizeT) :
    StoreEvictsExpiredFirst now c key entrySize ↔ StoreFindsExpiredLast now c key entrySize := by
  have hlength : c.toList.length ≤ c.lruList.length := by
    rw [show c.toList.length = c.entries.size from hrepr.indexed.length_view,
      hrepr.indexed.length_eq_size]
  exact imp_congr_right fun _ => evictingStates_iff hrepr entrySize now hlength

/-- **Expired entries first.** In every reachable state, a `put` or `putMany` evicts no live entry while
an expired one is in the cache exactly if, at each of its stores of a new key, no expired entry has been
used after a live entry that has to go. -/
theorem evictsExpiredFirst_iff (estimateSize : V → SizeT) (config : Config) (ops : List (Op K V))
    (op : Op K V) :
    (run (step estimateSize) { config } ops).EvictsExpiredFirst estimateSize op ↔
      (run (step estimateSize) { config } ops).FindsExpiredLast estimateSize op := by
  have hrepr : (run (step estimateSize) { config } ops).Repr :=
    run_induction (repr_empty config) (fun _ op h => h.step estimateSize op) ops
  refine forall₂_congr fun now _ => hrepr.everyStore_congr estimateSize ?_ op
  exact fun c key size hrepr => storeEvictsExpiredFirst_iff hrepr now key size

/-- The entry of key 0 never expires, that of key 1 does after a millisecond. -/
def expiredInFrontRun : List (Op Nat Nat) := [.put 0 5 none 0, .put 1 6 (some 1) 0]

/-- With room for two, a third key at two milliseconds takes out the live entry, which was used first, and
leaves the expired one. -/
theorem evicts_live_before_expired :
    ¬ ∀ (config : Config) (ops : List (Op Nat Nat)) (op : Op Nat Nat),
      (run (step UInt64.ofNat) { config } ops).EvictsExpiredFirst UInt64.ofNat op := by
  intro hclaim
  have hstore := hclaim { maxEntries := 2 } expiredInFrontRun (.put 2 7 none 2000000) 2000000
    (List.mem_singleton_self _) (by decide)
  set c := run (step UInt64.ofNat) { config := { maxEntries := 2 } } expiredInFrontRun
  have hstate : c ∈ evictingStates 7 c.lruList.length c := by
    rw [show c.lruList.length = 1 + 1 from rfl, evictingStates, if_pos (by decide)]
    exact List.mem_cons_self
  exact absurd (hstore c hstate ⟨0, 0⟩ _ (by rfl) (by rfl) (by decide) 1 _ (by rfl)) (by decide)

end SoulCoreKit.Cache.MemoryCache
