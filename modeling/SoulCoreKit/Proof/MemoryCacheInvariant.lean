import SoulCoreKit.Cache.MemoryCache
import SoulCoreKit.Lib.LinkedMap

/-!
# The representation of the memory cache

The list, the map, the iterators and the byte counter are updated separately. Two invariants keep
them together: `Indexed` ties the nodes of the list to the entries of the map, one to one, and
`Counted` ties the counter to the sizes of the entries. The counter is the sum modulo `2 ^ 64`
whatever happens, and the sum itself as long as no addition wrapped.
-/

namespace SoulCoreKit.Cache.MemoryCache

open UnorderedMap

variable {K V : Type} [DecidableEq K]

/-- The nodes of the list and the entries of the map refer to each other, and new nodes are new. -/
structure Indexed (entries : UnorderedMap K (Entry V)) (lruList : List (Node K))
    (nextNode : NodeId) : Prop where
  keys_nodup : (lruList.map Node.key).Nodup
  ids_nodup : (lruList.map Node.id).Nodup
  id_lt : ∀ node ∈ lruList, node.id < nextNode
  entry_of_node : ∀ node ∈ lruList, node.key ∈ entries
  node_of_entry : ∀ key entry, entries.lookup key = some entry → ⟨entry.listIt, key⟩ ∈ lruList

section Indexed

variable {entries : UnorderedMap K (Entry V)} {lruList : List (Node K)} {nextNode : NodeId}
  {key : K} {entry : Entry V}

theorem indexed_iff_linked :
    Indexed entries lruList nextNode ↔
      Linked Node.id Node.key Entry.listIt entries lruList nextNode := by
  constructor
  · intro hindexed
    refine ⟨hindexed.keys_nodup, hindexed.ids_nodup, hindexed.id_lt, hindexed.entry_of_node, ?_⟩
    intro key entry hlookup
    exact ⟨_, hindexed.node_of_entry key entry hlookup, rfl, rfl⟩
  · intro hlinked
    refine ⟨hlinked.keys_nodup, hlinked.ids_nodup, hlinked.id_lt, hlinked.entry_of_node, ?_⟩
    intro key entry hlookup
    obtain ⟨node, hnode, hid, rfl⟩ := hlinked.node_of_entry key entry hlookup
    rw [← hid]
    exact hnode

theorem Indexed.linked (hindexed : Indexed entries lruList nextNode) :
    Linked Node.id Node.key Entry.listIt entries lruList nextNode :=
  indexed_iff_linked.mp hindexed

theorem indexed_empty (nextNode : NodeId) :
    Indexed (∅ : UnorderedMap K (Entry V)) ([] : List (Node K)) nextNode :=
  indexed_iff_linked.mpr (Linked.empty _ _ _ nextNode)

theorem Indexed.without_listIt (hindexed : Indexed entries lruList nextNode)
    (hlookup : entries.lookup key = some entry) :
    Recency.without Node.id entry.listIt lruList = Recency.without Node.key key lruList :=
  hindexed.linked.without_iter hlookup

theorem Indexed.find_listIt (hindexed : Indexed entries lruList nextNode)
    (hlookup : entries.lookup key = some entry) :
    Recency.find Node.id entry.listIt lruList = some ⟨entry.listIt, key⟩ := by
  obtain ⟨node, -, hfind, hid, rfl⟩ := hindexed.linked.find_iter hlookup
  rw [hfind, ← hid]

theorem Indexed.erase (hindexed : Indexed entries lruList nextNode) (key : K) :
    Indexed (entries.erase key) (Recency.without Node.key key lruList) nextNode :=
  indexed_iff_linked.mpr (hindexed.linked.erase key)

theorem Indexed.touch (hindexed : Indexed entries lruList nextNode)
    (hlookup : entries.lookup key = some entry) :
    Indexed entries (⟨entry.listIt, key⟩ :: Recency.without Node.key key lruList) nextNode := by
  have hmem := hindexed.node_of_entry key entry hlookup
  exact indexed_iff_linked.mpr (hindexed.linked.moveToFront hmem)

theorem Indexed.replace (hindexed : Indexed entries lruList nextNode)
    (hlookup : entries.lookup key = some entry) {entry' : Entry V}
    (hlistIt : entry'.listIt = entry.listIt) :
    Indexed (entries.insert key entry') lruList nextNode :=
  indexed_iff_linked.mpr (hindexed.linked.replace hlookup hlistIt)

theorem Indexed.insert (hindexed : Indexed entries lruList nextNode) (hfresh : key ∉ entries)
    {entry : Entry V} (hlistIt : entry.listIt = nextNode) :
    Indexed (entries.insert key entry) (⟨nextNode, key⟩ :: lruList) (nextNode + 1) := by
  have hinsert := @Linked.insert K (Entry V) (Node K) _ _ _ _ _ _ _ entry ⟨nextNode, key⟩
    hindexed.linked rfl hfresh hlistIt
  exact indexed_iff_linked.mpr hinsert

theorem Indexed.mem_keys_iff (hindexed : Indexed entries lruList nextNode) :
    key ∈ lruList.map Node.key ↔ key ∈ entries :=
  hindexed.linked.mem_keys_iff

theorem Indexed.length_eq_size (hindexed : Indexed entries lruList nextNode) :
    lruList.length = size entries :=
  hindexed.linked.length_eq_size

end Indexed

/-- The sum of the entries' size fields. -/
def byteSum (entries : UnorderedMap K (Entry V)) : Nat :=
  total (fun _ entry => entry.size.toNat) entries

/-- The counter stands at a number of bytes, up to wrapping, and exactly while nothing wrapped. -/
structure Counted (bytes : Nat) (c : MemoryCache K V) : Prop where
  counter : c.stats.totalBytes.toNat = bytes % 2 ^ 64
  exact : c.faults.wrappedUp = false → bytes < 2 ^ 64 ∧ c.faults.wrappedDown = false

/-- The representation invariant. -/
structure Repr (c : MemoryCache K V) : Prop where
  indexed : Indexed c.entries c.lruList c.nextNode
  counted : Counted (byteSum c.entries) c
  no_orphan : c.faults.orphan = false

variable {c : MemoryCache K V} {key : K} {entry : Entry V}

omit [DecidableEq K] in
theorem Counted.addBytes {bytes : Nat} (hcounted : Counted bytes c) (size : SizeT) :
    Counted (bytes + size.toNat) (c.addBytes size) where
  counter := by
    have hcounter := hcounted.counter
    simp only [MemoryCache.addBytes, UInt64.toNat_add]
    omega
  exact hwrapped := by
    simp only [MemoryCache.addBytes, Bool.or_eq_false_iff, decide_eq_false_iff_not] at hwrapped ⊢
    obtain ⟨hlt, hdown⟩ := hcounted.exact hwrapped.1
    have hcounter := hcounted.counter
    refine ⟨?_, hdown⟩
    omega

omit [DecidableEq K] in
theorem Counted.subBytes {bytes : Nat} {size : SizeT} (hcounted : Counted (bytes + size.toNat) c) :
    Counted bytes (c.subBytes size) where
  counter := by
    have hcounter := hcounted.counter
    have hsize := size.toNat_lt
    simp only [MemoryCache.subBytes, UInt64.toNat_sub]
    omega
  exact hwrapped := by
    obtain ⟨hlt, hdown⟩ := hcounted.exact hwrapped
    have hcounter := hcounted.counter
    have hge : size.toNat ≤ c.stats.totalBytes.toNat := by omega
    refine ⟨by omega, ?_⟩
    simp only [MemoryCache.subBytes, hdown, Bool.false_or, decide_eq_false_iff_not]
    rw [UInt64.lt_iff_toNat_lt]
    omega

theorem byteSum_eq_add_erase {entries : UnorderedMap K (Entry V)}
    (hlookup : entries.lookup key = some entry) :
    byteSum entries = byteSum (entries.erase key) + entry.size.toNat := by
  unfold byteSum
  rw [total_eq_add_erase _ hlookup, add_comm]

theorem byteSum_insert (entries : UnorderedMap K (Entry V)) (key : K) (entry : Entry V) :
    byteSum (entries.insert key entry) = byteSum (entries.erase key) + entry.size.toNat := by
  unfold byteSum
  rw [total_insert, add_comm]

theorem Repr.of_frame {c' : MemoryCache K V} (hrepr : c.Repr) (hentries : c'.entries = c.entries)
    (hlist : c'.lruList = c.lruList) (hnext : c'.nextNode = c.nextNode)
    (hbytes : c'.stats.totalBytes = c.stats.totalBytes) (hfaults : c'.faults = c.faults) :
    c'.Repr where
  indexed := by
    rw [hentries, hlist, hnext]
    exact hrepr.indexed
  counted := by
    constructor
    · rw [hbytes, hentries]
      exact hrepr.counted.counter
    · rw [hfaults, hentries]
      exact hrepr.counted.exact
  no_orphan := hfaults ▸ hrepr.no_orphan

theorem touchUnlocked_eq (hindexed : Indexed c.entries c.lruList c.nextNode)
    (hlookup : c.entries.lookup key = some entry) :
    c.touchUnlocked entry.listIt =
      { c with lruList := ⟨entry.listIt, key⟩ :: Recency.without Node.key key c.lruList } := by
  unfold touchUnlocked
  rw [hindexed.find_listIt hlookup]
  simp only [Recency.moveToFront]
  rw [hindexed.without_listIt hlookup]

theorem evictEntryUnlocked_lruList (hrepr : c.Repr)
    (hlookup : c.entries.lookup key = some entry) :
    (c.evictEntryUnlocked key entry).lruList = Recency.without Node.key key c.lruList :=
  hrepr.indexed.without_listIt hlookup

theorem Repr.evictEntryUnlocked (hrepr : c.Repr) (hlookup : c.entries.lookup key = some entry) :
    (c.evictEntryUnlocked key entry).Repr where
  indexed := by
    rw [evictEntryUnlocked_lruList hrepr hlookup]
    exact hrepr.indexed.erase key
  counted := by
    have hcounted := hrepr.counted
    rw [byteSum_eq_add_erase hlookup] at hcounted
    have hsub := hcounted.subBytes
    exact ⟨hsub.counter, hsub.exact⟩
  no_orphan := hrepr.no_orphan

theorem Repr.touchUnlocked (hrepr : c.Repr) (hlookup : c.entries.lookup key = some entry) :
    (c.touchUnlocked entry.listIt).Repr := by
  rw [touchUnlocked_eq hrepr.indexed hlookup]
  exact ⟨hrepr.indexed.touch hlookup, ⟨hrepr.counted.counter, hrepr.counted.exact⟩, hrepr.no_orphan⟩

/-! ### Making room -/

theorem evictLruUnlocked_eq (hrepr : c.Repr) (hsize : c.entries.size ≠ 0) :
    ∃ node entry, c.lruList.getLast? = some node ∧ c.entries.lookup node.key = some entry ∧
      c.evictLruUnlocked = c.evictEntryUnlocked node.key entry := by
  have hne : c.lruList ≠ [] := by
    rw [← List.length_pos_iff, hrepr.indexed.length_eq_size]
    exact Nat.pos_of_ne_zero hsize
  have hlast := List.getLast?_eq_some_getLast hne
  have hmem := hrepr.indexed.entry_of_node _ (List.getLast_mem hne)
  obtain ⟨entry, hlookup⟩ := Finmap.mem_iff.mp hmem
  refine ⟨c.lruList.getLast hne, entry, hlast, hlookup, ?_⟩
  unfold MemoryCache.evictLruUnlocked
  rw [hlast]
  simp only [hlookup]

theorem Repr.evictLruUnlocked (hrepr : c.Repr) (hsize : c.entries.size ≠ 0) :
    c.evictLruUnlocked.Repr := by
  obtain ⟨node, entry, -, hlookup, heq⟩ := evictLruUnlocked_eq hrepr hsize
  rw [heq]
  exact hrepr.evictEntryUnlocked hlookup

theorem evictLruUnlocked_lruList (hrepr : c.Repr) (hsize : c.entries.size ≠ 0) :
    c.evictLruUnlocked.lruList = c.lruList.dropLast := by
  obtain ⟨node, entry, hlast, hlookup, heq⟩ := evictLruUnlocked_eq hrepr hsize
  have hne : c.lruList ≠ [] := by
    rintro hnil
    rw [hnil] at hlast
    exact absurd hlast (by simp)
  have hnode : c.lruList.getLast hne = node := by
    rw [List.getLast?_eq_some_getLast hne] at hlast
    exact Option.some.inj hlast
  rw [heq, evictEntryUnlocked_lruList hrepr hlookup, ← hnode]
  exact Recency.without_last hrepr.indexed.keys_nodup hne

theorem Repr.evictLoop (hrepr : c.Repr) (incomingSize : SizeT) (fuel : Nat) :
    (evictLoop incomingSize fuel c).Repr := by
  induction fuel generalizing c with
  | zero => exact hrepr
  | succ fuel ih =>
      unfold MemoryCache.evictLoop
      split_ifs with hover
      · exact ih (hrepr.evictLruUnlocked hover.1)
      · exact hrepr

/-- The bound on the passes is no restriction: the loop ends because its condition fails. -/
theorem evictLoop_ends (hrepr : c.Repr) (incomingSize : SizeT) {fuel : Nat}
    (hfuel : c.lruList.length ≤ fuel) :
    (evictLoop incomingSize fuel c).entries.size = 0 ∨
      (evictLoop incomingSize fuel c).overLimit incomingSize = false := by
  induction fuel generalizing c with
  | zero =>
      left
      have hlength := hrepr.indexed.length_eq_size
      unfold evictLoop
      omega
  | succ fuel ih =>
      unfold evictLoop
      split_ifs with hover
      · apply ih (hrepr.evictLruUnlocked hover.1)
        rw [evictLruUnlocked_lruList hrepr hover.1, List.length_dropLast]
        omega
      · rw [not_and_or, not_not, Bool.not_eq_true] at hover
        exact hover

theorem evictToFitUnlocked_ends (hrepr : c.Repr) (incomingSize : SizeT) :
    (c.evictToFitUnlocked incomingSize).entries.size = 0 ∨
      (c.evictToFitUnlocked incomingSize).overLimit incomingSize = false :=
  evictLoop_ends hrepr incomingSize le_rfl

theorem Repr.evictToFitUnlocked (hrepr : c.Repr) (incomingSize : SizeT) :
    (c.evictToFitUnlocked incomingSize).Repr :=
  hrepr.evictLoop incomingSize _

theorem evictLruUnlocked_config (c : MemoryCache K V) : c.evictLruUnlocked.config = c.config := by
  unfold evictLruUnlocked
  split
  · rfl
  · split <;> rfl

theorem evictLoop_config (incomingSize : SizeT) (fuel : Nat) (c : MemoryCache K V) :
    (evictLoop incomingSize fuel c).config = c.config := by
  induction fuel generalizing c with
  | zero => rfl
  | succ fuel ih =>
      unfold evictLoop
      split_ifs
      · rw [ih, evictLruUnlocked_config]
      · rfl

theorem evictToFitUnlocked_config (c : MemoryCache K V) (incomingSize : SizeT) :
    (c.evictToFitUnlocked incomingSize).config = c.config :=
  evictLoop_config incomingSize _ c

theorem lookup_evictLoop_of_none (incomingSize : SizeT) (fuel : Nat)
    (hnone : c.entries.lookup key = none) :
    (evictLoop incomingSize fuel c).entries.lookup key = none := by
  induction fuel generalizing c with
  | zero => exact hnone
  | succ fuel ih =>
      unfold evictLoop
      split_ifs
      · apply ih
        unfold evictLruUnlocked
        split
        · exact hnone
        · rename_i node _
          split
          · by_cases heq : key = node.key
            · subst heq
              exact Finmap.lookup_erase _ _
            · exact (Finmap.lookup_erase_ne heq).trans hnone
          · exact hnone
      · exact hnone

theorem lookup_evictToFitUnlocked_of_none (incomingSize : SizeT)
    (hnone : c.entries.lookup key = none) :
    (c.evictToFitUnlocked incomingSize).entries.lookup key = none :=
  lookup_evictLoop_of_none incomingSize _ hnone

/-! ### The calls -/

theorem overwriteUnlocked_eq (hindexed : Indexed c.entries c.lruList c.nextNode)
    (hlookup : c.entries.lookup key = some entry) (value : V) (entrySize : SizeT)
    (expireTime : Deadline) :
    c.overwriteUnlocked key entry value entrySize expireTime =
      { (c.subBytes entry.size).addBytes entrySize with
        entries := c.entries.insert key (entry.updated value entrySize expireTime)
        lruList := ⟨entry.listIt, key⟩ :: Recency.without Node.key key c.lruList } := by
  have hreplaced := @Indexed.replace K V _ _ _ _ _ _ hindexed hlookup
    (entry.updated value entrySize expireTime) rfl
  have htouch := @touchUnlocked_eq K V _
    { c.subBytes entry.size with
      entries := c.entries.insert key (entry.updated value entrySize expireTime) }
    key (entry.updated value entrySize expireTime) hreplaced (Finmap.lookup_insert _)
  exact congrArg (fun c => addBytes c entrySize) htouch

theorem Repr.overwriteUnlocked (hrepr : c.Repr) (hlookup : c.entries.lookup key = some entry)
    (value : V) (entrySize : SizeT) (expireTime : Deadline) :
    (c.overwriteUnlocked key entry value entrySize expireTime).Repr := by
  rw [overwriteUnlocked_eq hrepr.indexed hlookup]
  have hcounted := hrepr.counted
  rw [byteSum_eq_add_erase hlookup] at hcounted
  have hbytes := hcounted.subBytes.addBytes entrySize
  refine ⟨?_, ?_, hrepr.no_orphan⟩
  · exact (hrepr.indexed.touch hlookup).replace hlookup rfl
  · rw [byteSum_insert]
    exact ⟨hbytes.counter, hbytes.exact⟩

theorem byteSum_insertUnlocked (hlookup : c.entries.lookup key = none) (value : V)
    (entrySize : SizeT) (expireTime : Deadline) :
    byteSum (c.insertUnlocked key value entrySize expireTime).entries =
      byteSum (c.evictToFitUnlocked entrySize).entries + entrySize.toNat := by
  have habsent := lookup_evictToFitUnlocked_of_none entrySize hlookup
  rw [← erase_of_lookup_none habsent]
  exact byteSum_insert _ _ _

theorem Repr.insertUnlocked (hrepr : c.Repr) (hlookup : c.entries.lookup key = none)
    (value : V) (entrySize : SizeT) (expireTime : Deadline) :
    (c.insertUnlocked key value entrySize expireTime).Repr := by
  have hroom := hrepr.evictToFitUnlocked entrySize
  have habsent := lookup_evictToFitUnlocked_of_none entrySize hlookup
  have hbytes := hroom.counted.addBytes entrySize
  refine ⟨?_, ?_, hroom.no_orphan⟩
  · exact hroom.indexed.insert (Finmap.lookup_eq_none.mp habsent) rfl
  · rw [byteSum_insertUnlocked hlookup]
    exact ⟨hbytes.counter, hbytes.exact⟩

theorem Repr.storeUnlocked (hrepr : c.Repr) (key : K) (value : V) (entrySize : SizeT)
    (expireTime : Deadline) : (c.storeUnlocked key value entrySize expireTime).Repr := by
  unfold MemoryCache.storeUnlocked
  split
  · rename_i entry hlookup
    exact hrepr.overwriteUnlocked hlookup value entrySize expireTime
  · rename_i hlookup
    exact hrepr.insertUnlocked hlookup value entrySize expireTime

theorem lookupUnlocked_of_none {now : Time} (hlookup : c.entries.lookup key = none) :
    c.lookupUnlocked key now = (none, c.missed) := by
  unfold lookupUnlocked
  rw [hlookup]

theorem lookupUnlocked_of_expired {now : Time} (hlookup : c.entries.lookup key = some entry)
    (hexpired : expired entry.expireTime now = true) :
    c.lookupUnlocked key now = (none, (c.evictEntryUnlocked key entry).missed) := by
  unfold lookupUnlocked
  rw [hlookup]
  exact if_pos hexpired

theorem lookupUnlocked_of_live {now : Time} (hlookup : c.entries.lookup key = some entry)
    (hlive : ¬ expired entry.expireTime now = true) :
    c.lookupUnlocked key now = (some entry.value, (c.touchUnlocked entry.listIt).hit) := by
  unfold lookupUnlocked
  rw [hlookup]
  exact if_neg hlive

theorem Repr.lookupUnlocked (hrepr : c.Repr) (key : K) (now : Time) :
    (c.lookupUnlocked key now).2.Repr := by
  cases hlookup : c.entries.lookup key with
  | none =>
      rw [lookupUnlocked_of_none hlookup]
      exact hrepr.of_frame rfl rfl rfl rfl rfl
  | some entry =>
      by_cases hexpired : expired entry.expireTime now = true
      · rw [lookupUnlocked_of_expired hlookup hexpired]
        exact (hrepr.evictEntryUnlocked hlookup).of_frame rfl rfl rfl rfl rfl
      · rw [lookupUnlocked_of_live hlookup hexpired]
        exact (hrepr.touchUnlocked hlookup).of_frame rfl rfl rfl rfl rfl

theorem Repr.getManyLoop (hrepr : c.Repr) (keys : List (K × Time)) (result : UnorderedMap K V) :
    (getManyLoop keys result c).2.Repr := by
  induction keys generalizing result c with
  | nil => exact hrepr
  | cons first keys ih =>
      obtain ⟨key, now⟩ := first
      have hnext := hrepr.lookupUnlocked key now
      unfold MemoryCache.getManyLoop
      split
      · rename_i c' heq
        rw [heq] at hnext
        exact ih hnext result
      · rename_i value c' heq
        rw [heq] at hnext
        exact ih hnext _

theorem repr_clear (hrepr : c.Repr) : c.clear.2.Repr where
  indexed := indexed_empty c.nextNode
  counted := by
    constructor
    · rfl
    · intro hwrapped
      exact ⟨by simp [byteSum, clear], (hrepr.counted.exact hwrapped).2⟩
  no_orphan := hrepr.no_orphan

theorem Repr.storeMany (estimateSize : V → SizeT) (hrepr : c.Repr) (expireTime : Deadline)
    (entries : List (K × V)) :
    (entries.foldl (fun c entry =>
      c.storeUnlocked entry.1 entry.2 (estimateSize entry.2) expireTime) c).Repr := by
  induction entries generalizing c with
  | nil => exact hrepr
  | cons first entries ih => exact ih (hrepr.storeUnlocked first.1 first.2 _ expireTime)

theorem Repr.step (estimateSize : V → SizeT) (hrepr : c.Repr) (op : Op K V) :
    (c.step estimateSize op).Repr := by
  cases op with
  | get key now => exact hrepr.lookupUnlocked key now
  | put key value ttl now => exact hrepr.storeUnlocked key value _ _
  | remove key =>
      simp only [MemoryCache.step, exec, remove]
      split
      · exact hrepr
      · rename_i entry hlookup
        exact hrepr.evictEntryUnlocked hlookup
  | contains key now =>
      simp only [MemoryCache.step, exec, contains]
      split
      · exact hrepr
      · rename_i entry hlookup
        split_ifs
        · exact hrepr.evictEntryUnlocked hlookup
        · exact hrepr
  | clear => exact repr_clear hrepr
  | getMany keys => exact hrepr.getManyLoop keys ∅
  | putMany entries ttl now => exact hrepr.storeMany estimateSize _ entries

/-- The condition holds of every store the call makes, each in the state the ones before it left. -/
def EveryStore (cond : MemoryCache K V → K → SizeT → Prop) (estimateSize : V → SizeT)
    (c : MemoryCache K V) : Op K V → Prop
  | .put key value _ _ => cond c key (estimateSize value)
  | .putMany entries ttl now =>
      let expireTime := computeExpireTime c.config ttl now
      Along (fun c (entry : K × V) =>
          c.storeUnlocked entry.1 entry.2 (estimateSize entry.2) expireTime)
        (fun c entry => cond c entry.1 (estimateSize entry.2)) c entries
  | _ => True

/-- Two conditions that agree wherever the representation is in order agree of every call. -/
theorem Repr.everyStore_congr {cond cond' : MemoryCache K V → K → SizeT → Prop}
    (estimateSize : V → SizeT) (hrepr : c.Repr)
    (hiff : ∀ c key size, c.Repr → (cond c key size ↔ cond' c key size)) (op : Op K V) :
    c.EveryStore cond estimateSize op ↔ c.EveryStore cond' estimateSize op := by
  cases op with
  | put key value ttl now => exact hiff c key _ hrepr
  | putMany entries ttl now =>
      constructor
      · intro hstores
        exact Along.of_invariant hstores hrepr
          (fun _ entry hrepr _ => hrepr.storeUnlocked entry.1 entry.2 _ _)
          fun _ _ hrepr => (hiff _ _ _ hrepr).mp
      · intro hstores
        exact Along.of_invariant hstores hrepr
          (fun _ entry hrepr _ => hrepr.storeUnlocked entry.1 entry.2 _ _)
          fun _ _ hrepr => (hiff _ _ _ hrepr).mpr
  | _ => exact Iff.rfl

theorem repr_empty (config : Config) : Repr (K := K) (V := V) { config } where
  indexed := indexed_empty 0
  counted := ⟨rfl, fun _ => ⟨by simp [byteSum], rfl⟩⟩
  no_orphan := rfl

/-- Every sequence of calls keeps the list, the map, the iterators and the counter together. -/
theorem run_representation (estimateSize : V → SizeT) (config : Config) (ops : List (Op K V)) :
    let c := run (step estimateSize) { config } ops
    (c.lruList.map Node.key).Nodup ∧
      (∀ key, key ∈ c.lruList.map Node.key ↔ key ∈ c.entries) ∧
      (∀ key entry, c.entries.lookup key = some entry →
        Recency.find Node.id entry.listIt c.lruList = some ⟨entry.listIt, key⟩) ∧
      (byteSum c.entries < 2 ^ 64 → c.stats.totalBytes.toNat = byteSum c.entries) ∧
      (c.faults.wrappedUp = false → c.faults.wrappedDown = false) ∧
      c.faults.orphan = false := by
  intro c
  have hrepr : c.Repr := run_induction (repr_empty config) (fun _ op h => h.step estimateSize op) ops
  refine ⟨hrepr.indexed.keys_nodup, fun key => hrepr.indexed.mem_keys_iff, ?_, ?_, ?_,
    hrepr.no_orphan⟩
  · intro key entry hlookup
    exact hrepr.indexed.find_listIt hlookup
  · intro hfits
    rw [hrepr.counted.counter, Nat.mod_eq_of_lt hfits]
  · intro hwrapped
    exact (hrepr.counted.exact hwrapped).2

end SoulCoreKit.Cache.MemoryCache

/-! ### The entries

Every call keeps what holds of each entry, its key, its value and its deadline, except that a put brings in an
entry of its own. What a read returns is the value of an entry that has not expired. -/

namespace SoulCoreKit.Cache.MemoryCache

variable {K V : Type} [DecidableEq K] {P Q : K → V → Deadline → Prop} {c : MemoryCache K V}

def Every (P : K → V → Deadline → Prop) (c : MemoryCache K V) : Prop :=
  ∀ key entry, c.entries.lookup key = some entry → P key entry.value entry.expireTime

theorem Every.mono (h : Every P c) (himp : ∀ key value deadline, P key value deadline →
    Q key value deadline) : Every Q c := by
  intro key entry hlookup
  exact himp _ _ _ (h key entry hlookup)

theorem Every.of_entries (h : Every P c) {c' : MemoryCache K V} (hentries : c'.entries = c.entries) :
    Every P c' := by
  intro key entry hlookup
  rw [hentries] at hlookup
  exact h key entry hlookup

theorem every_empty {c' : MemoryCache K V} (hentries : c'.entries = ∅) : Every P c' := by
  intro key entry hlookup
  rw [hentries, Finmap.lookup_empty] at hlookup
  cases hlookup

theorem Every.erase_ne (h : Every P c) {c' : MemoryCache K V} {key : K}
    (hentries : c'.entries = c.entries.erase key) :
    Every (fun other value deadline => other ≠ key ∧ P other value deadline) c' := by
  intro other entry hlookup
  rw [hentries] at hlookup
  by_cases heq : other = key
  · rw [heq, Finmap.lookup_erase] at hlookup
    cases hlookup
  · rw [Finmap.lookup_erase_ne heq] at hlookup
    exact ⟨heq, h other entry hlookup⟩

theorem Every.erase (h : Every P c) {c' : MemoryCache K V} {key : K}
    (hentries : c'.entries = c.entries.erase key) : Every P c' :=
  (h.erase_ne hentries).mono fun _ _ _ hand => hand.2

theorem Every.evictLruUnlocked (h : Every P c) : Every P c.evictLruUnlocked := by
  unfold MemoryCache.evictLruUnlocked
  split
  · exact h
  · split
    · exact h.erase rfl
    · exact h

theorem Every.evictLoop (h : Every P c) (incomingSize : SizeT) (fuel : Nat) :
    Every P (evictLoop incomingSize fuel c) := by
  induction fuel generalizing c with
  | zero => exact h
  | succ fuel ih =>
      unfold MemoryCache.evictLoop
      split_ifs
      · exact ih h.evictLruUnlocked
      · exact h

theorem Every.insert (h : Every P c) {c' : MemoryCache K V} {key : K} {entry : Entry V}
    (hentries : c'.entries = c.entries.insert key entry)
    (hkeep : ∀ other value deadline, other ≠ key → P other value deadline → Q other value deadline)
    (hnew : Q key entry.value entry.expireTime) : Every Q c' := by
  intro other entry' hlookup
  rw [hentries] at hlookup
  rcases UnorderedMap.lookup_insert_cases hlookup with ⟨rfl, rfl⟩ | ⟨hne, hold⟩
  · exact hnew
  · exact hkeep other _ _ hne (h other entry' hold)

theorem Every.storeUnlocked (h : Every P c) {key : K} {value : V} (entrySize : SizeT)
    {expireTime : Deadline}
    (hkeep : ∀ other value deadline, other ≠ key → P other value deadline → Q other value deadline)
    (hnew : Q key value expireTime) : Every Q (c.storeUnlocked key value entrySize expireTime) := by
  unfold MemoryCache.storeUnlocked
  split
  · rename_i entry _
    have hentries : (c.overwriteUnlocked key entry value entrySize expireTime).entries =
        c.entries.insert key (entry.updated value entrySize expireTime) :=
      touchUnlocked_entries _ _
    exact h.insert hentries hkeep hnew
  · have hroom : Every P (c.evictToFitUnlocked entrySize) := h.evictLoop entrySize _
    have hentries : (c.insertUnlocked key value entrySize expireTime).entries =
        (c.evictToFitUnlocked entrySize).entries.insert key
          { value, size := entrySize, expireTime, accessCount := 1
            listIt := (c.evictToFitUnlocked entrySize).nextNode } := rfl
    exact hroom.insert hentries hkeep hnew

theorem Every.storeMany (h : Every P c) (estimateSize : V → SizeT) {expireTime : Deadline}
    {entries : List (K × V)}
    (hkeep : ∀ key value deadline, key ∉ entries.map Prod.fst → P key value deadline →
      Q key value deadline)
    (hnew : ∀ entry ∈ entries, Q entry.1 entry.2 expireTime) :
    Every Q (entries.foldl (fun c entry =>
      c.storeUnlocked entry.1 entry.2 (estimateSize entry.2) expireTime) c) := by
  induction entries generalizing c P with
  | nil => exact h.mono fun key value deadline => hkeep key value deadline List.not_mem_nil
  | cons first rest ih =>
      rw [List.foldl_cons]
      refine @ih (fun key value deadline => Q key value deadline ∨ (key ≠ first.1 ∧ P key value deadline))
        _ (h.storeUnlocked _ (fun key value deadline hne hP => .inr ⟨hne, hP⟩)
          (.inl (hnew first List.mem_cons_self))) ?_ ?_
      · rintro key value deadline hrest (hQ | ⟨hne, hP⟩)
        · exact hQ
        · apply hkeep key value deadline _ hP
          rw [List.map_cons, List.mem_cons, not_or]
          exact ⟨hne, hrest⟩
      · intro entry hentry
        exact hnew entry (List.mem_cons_of_mem first hentry)

theorem Every.lookupUnlocked (h : Every P c) (key : K) (now : Time) :
    Every P (c.lookupUnlocked key now).2 := by
  unfold MemoryCache.lookupUnlocked
  split
  · exact h
  · split_ifs
    · exact h.erase rfl
    · exact h.of_entries (touchUnlocked_entries _ _)

theorem Every.lookupUnlocked_some (h : Every P c) {key : K} {now : Time} {value : V}
    (hfound : (c.lookupUnlocked key now).1 = some value) :
    ∃ deadline, P key value deadline ∧ expired deadline now = false := by
  unfold MemoryCache.lookupUnlocked at hfound
  split at hfound
  · cases hfound
  · rename_i entry hlookup
    split_ifs at hfound with hexpired
    cases hfound
    exact ⟨entry.expireTime, h key entry hlookup, Bool.eq_false_iff.mpr hexpired⟩

theorem Every.getManyLoop (h : Every P c) {keys : List (K × Time)} {result : UnorderedMap K V}
    {found : K → V → Prop} (hresult : ∀ key value, result.lookup key = some value → found key value)
    (hlive : ∀ key now value deadline, (key, now) ∈ keys → P key value deadline →
      expired deadline now = false → found key value) :
    Every P (getManyLoop keys result c).2 ∧
      ∀ key value, (getManyLoop keys result c).1.lookup key = some value → found key value := by
  induction keys generalizing result c with
  | nil => exact ⟨h, hresult⟩
  | cons first rest ih =>
      have hnext := h.lookupUnlocked first.1 first.2
      have hrest : ∀ key now value deadline, (key, now) ∈ rest → P key value deadline →
          expired deadline now = false → found key value :=
        fun key now value deadline hmem => hlive key now value deadline (List.mem_cons_of_mem first hmem)
      unfold MemoryCache.getManyLoop
      split <;> rename_i heq <;> rw [heq] at hnext
      · exact ih hnext hresult hrest
      · rename_i value c'
        refine ih hnext ?_ hrest
        obtain ⟨deadline, hP, hnow⟩ := h.lookupUnlocked_some (congrArg Prod.fst heq)
        have hfound := hlive first.1 first.2 value deadline List.mem_cons_self hP hnow
        intro key value' hlookup
        split_ifs at hlookup
        · exact hresult key value' hlookup
        · rcases UnorderedMap.lookup_insert_cases hlookup with ⟨rfl, rfl⟩ | ⟨-, hold⟩
          · exact hfound
          · exact hresult key value' hold

theorem Every.remove (h : Every P c) (key : K) :
    Every (fun other value deadline => other ≠ key ∧ P other value deadline) (c.remove key).2 := by
  unfold MemoryCache.remove
  split
  · rename_i hnone
    intro other entry hlookup
    refine ⟨?_, h other entry hlookup⟩
    rintro rfl
    rw [hnone] at hlookup
    cases hlookup
  · exact h.erase_ne rfl

theorem Every.contains (h : Every P c) (key : K) (now : Time) : Every P (c.contains key now).2 := by
  unfold MemoryCache.contains
  split
  · exact h
  · split_ifs
    · exact h.erase rfl
    · exact h

end SoulCoreKit.Cache.MemoryCache
