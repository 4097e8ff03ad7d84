import SoulCoreKit.Proof.MemoryCacheInvariant
import SoulCoreKit.Proof.LruHistory

/-!
# The memory cache is an LRU map with expiry

Reading the entries of the map in the order of the list gives a list of the abstract cache, and every
call on the representation is the same call on that list, as long as nothing wraps: neither the sum an
insertion is tested with nor the deadline of a put.
-/

namespace SoulCoreKit.Cache.MemoryCache

open UnorderedMap

variable {K V : Type} [DecidableEq K]

/-- The limits of the configuration, with sizes as natural numbers. -/
def policy (estimateSize : V → SizeT) (config : Config) : Lru.Policy V where
  maxEntries := config.maxEntries.toNat
  maxBytes := config.maxBytes.toNat
  size value := (estimateSize value).toNat
  defaultTtl := config.defaultTtl

def toLru (key : K) (entry : Entry V) : Lru.Entry K V :=
  ⟨key, entry.value, entry.size.toNat, entry.expireTime⟩

/-- The entries in the order of the list. -/
def view (entries : UnorderedMap K (Entry V)) (lruList : List (Node K)) : List (Lru.Entry K V) :=
  lruList.filterMap fun node => (entries.lookup node.key).map (toLru node.key)

def toList (c : MemoryCache K V) : List (Lru.Entry K V) := view c.entries c.lruList

section View

variable {entries entries' : UnorderedMap K (Entry V)} {lruList : List (Node K)}
  {nextNode : NodeId} {key : K} {entry : Entry V}

omit [DecidableEq K] in
theorem key_toLru (key : K) (entry : Entry V) : (toLru key entry).key = key := rfl

theorem view_cons (node : Node K) (hlookup : entries.lookup node.key = some entry)
    (lruList : List (Node K)) :
    view entries (node :: lruList) = toLru node.key entry :: view entries lruList :=
  inOrder_cons node hlookup lruList

theorem view_congr (hagree : ∀ node ∈ lruList, entries'.lookup node.key = entries.lookup node.key) :
    view entries' lruList = view entries lruList :=
  inOrder_congr hagree

theorem view_without
    (hagree : ∀ other, other ≠ key → entries'.lookup other = entries.lookup other) :
    view entries' (Recency.without Node.key key lruList) =
      Recency.without Lru.Entry.key key (view entries lruList) :=
  inOrder_without key_toLru hagree

theorem Indexed.map_key_view (hindexed : Indexed entries lruList nextNode) :
    (view entries lruList).map Lru.Entry.key = lruList.map Node.key :=
  hindexed.linked.map_keyOf_inOrder key_toLru

theorem Indexed.find_view (hindexed : Indexed entries lruList nextNode) (key : K) :
    Recency.find Lru.Entry.key key (view entries lruList) =
      (entries.lookup key).map (toLru key) :=
  hindexed.linked.find_inOrder key_toLru key

theorem Indexed.length_view (hindexed : Indexed entries lruList nextNode) :
    (view entries lruList).length = size entries := by
  have hkeys := congrArg List.length hindexed.map_key_view
  rw [List.length_map, List.length_map] at hkeys
  rw [hkeys, hindexed.length_eq_size]

theorem Indexed.bytes_view (hindexed : Indexed entries lruList nextNode) :
    Lru.bytes (view entries lruList) = byteSum entries := by
  have henum := hindexed.linked.enumerates
  have hall := hindexed.entry_of_node
  unfold byteSum
  rw [← henum.sum_weightAt]
  clear hindexed henum
  induction lruList with
  | nil => rfl
  | cons node rest ih =>
      obtain ⟨entry, hlookup⟩ := Finmap.mem_iff.mp (hall node List.mem_cons_self)
      have hrest := ih fun other hother => hall other (List.mem_cons_of_mem _ hother)
      unfold Lru.bytes at hrest ⊢
      rw [view_cons node hlookup, List.map_cons, List.sum_cons, hrest, List.map_cons, List.map_cons,
        List.sum_cons, weightAt_of_lookup _ hlookup]
      rfl

end View

variable {c : MemoryCache K V} {key : K} {entry : Entry V}

/-! ### Moving entries -/

theorem toList_evictEntryUnlocked (hrepr : c.Repr) (hlookup : c.entries.lookup key = some entry) :
    (c.evictEntryUnlocked key entry).toList = Recency.without Lru.Entry.key key c.toList := by
  unfold toList
  rw [evictEntryUnlocked_lruList hrepr hlookup]
  exact view_without fun other hne => Finmap.lookup_erase_ne hne

theorem toList_touchUnlocked (hrepr : c.Repr) (hlookup : c.entries.lookup key = some entry) :
    (c.touchUnlocked entry.listIt).toList =
      Recency.moveToFront Lru.Entry.key (toLru key entry) c.toList := by
  rw [touchUnlocked_eq hrepr.indexed hlookup]
  unfold toList Recency.moveToFront
  rw [view_cons ⟨entry.listIt, key⟩ hlookup, view_without fun _ _ => rfl]
  rfl

theorem toList_overwriteUnlocked (hrepr : c.Repr) (hlookup : c.entries.lookup key = some entry)
    (value : V) (entrySize : SizeT) (expireTime : Deadline) :
    (c.overwriteUnlocked key entry value entrySize expireTime).toList =
      Recency.moveToFront Lru.Entry.key ⟨key, value, entrySize.toNat, expireTime⟩ c.toList := by
  rw [overwriteUnlocked_eq hrepr.indexed hlookup]
  unfold toList Recency.moveToFront
  rw [view_cons ⟨entry.listIt, key⟩ (Finmap.lookup_insert _),
    view_without fun other hne => Finmap.lookup_insert_of_ne _ hne]
  rfl

/-! ### Making room -/

theorem toList_eq_nil_iff (hrepr : c.Repr) : c.toList = [] ↔ c.entries.size = 0 := by
  rw [← List.length_eq_zero_iff]
  unfold toList
  rw [hrepr.indexed.length_view]

theorem toList_evictLruUnlocked (hrepr : c.Repr) (hsize : c.entries.size ≠ 0) :
    c.evictLruUnlocked.toList = c.toList.dropLast := by
  obtain ⟨node, entry, hlast, hlookup, heq⟩ := evictLruUnlocked_eq hrepr hsize
  have hnodup : (c.toList.map Lru.Entry.key).Nodup := by
    unfold toList
    rw [hrepr.indexed.map_key_view]
    exact hrepr.indexed.keys_nodup
  have hne : c.toList ≠ [] := fun hnil => hsize ((toList_eq_nil_iff hrepr).mp hnil)
  have hkey : (c.toList.getLast hne).key = node.key := by
    have hlasts := congrArg List.getLast? hrepr.indexed.map_key_view
    rw [List.getLast?_map, List.getLast?_map, hlast] at hlasts
    change (c.toList.getLast?).map Lru.Entry.key = _ at hlasts
    rw [List.getLast?_eq_some_getLast hne] at hlasts
    exact Option.some.inj hlasts
  rw [heq, toList_evictEntryUnlocked hrepr hlookup, ← hkey]
  exact Recency.without_last hnodup hne

/-- The sum an insertion is tested with does not wrap. -/
def InsertExact (c : MemoryCache K V) (key : K) (entrySize : SizeT) : Prop :=
  key ∉ c.entries → 0 < c.config.maxBytes → byteSum c.entries + entrySize.toNat < 2 ^ 64

instance (c : MemoryCache K V) (key : K) (entrySize : SizeT) :
    Decidable (c.InsertExact key entrySize) :=
  inferInstanceAs (Decidable (key ∉ c.entries → 0 < c.config.maxBytes →
    byteSum c.entries + entrySize.toNat < 2 ^ 64))

/-- Without wrapping, the loop goes on exactly while the list does not admit the new entry. -/
theorem overLimit_eq (hrepr : c.Repr) (estimateSize : V → SizeT) {incomingSize : SizeT}
    (hexact : 0 < c.config.maxBytes → byteSum c.entries + incomingSize.toNat < 2 ^ 64) :
    c.overLimit incomingSize =
      !(policy estimateSize c.config).admits incomingSize.toNat c.toList := by
  have hlength : c.toList.length = c.entries.size := hrepr.indexed.length_view
  have hbytes : Lru.bytes c.toList = byteSum c.entries := hrepr.indexed.bytes_view
  have hcounter := hrepr.counted.counter
  have hsum : 0 < c.config.maxBytes →
      (c.stats.totalBytes + incomingSize).toNat = byteSum c.entries + incomingSize.toNat := by
    intro hlimit
    have hfits := hexact hlimit
    rw [UInt64.toNat_add, hcounter]
    omega
  have hzero : 0 < c.config.maxBytes ↔ 0 < c.config.maxBytes.toNat := UInt64.lt_iff_toNat_lt
  unfold overLimit Lru.Policy.admits
  rw [← decide_not, decide_eq_decide, hlength, hbytes]
  simp only [policy]
  constructor
  · rintro (hentries | ⟨hlimit, hover⟩)
    · omega
    · have hpos := hzero.mp hlimit
      rw [UInt64.lt_iff_toNat_lt, hsum hlimit] at hover
      omega
  · intro hnot
    by_cases hentries : c.config.maxEntries.toNat ≤ c.entries.size
    · exact Or.inl hentries
    · right
      have hlimit : 0 < c.config.maxBytes := by
        rw [hzero]
        omega
      refine ⟨hlimit, ?_⟩
      rw [UInt64.lt_iff_toNat_lt, hsum hlimit]
      omega

/-- The loop computes `shrink`. -/
theorem toList_evictLoop (hrepr : c.Repr) (estimateSize : V → SizeT) {incomingSize : SizeT}
    (hexact : 0 < c.config.maxBytes → byteSum c.entries + incomingSize.toNat < 2 ^ 64) {fuel : Nat}
    (hfuel : c.toList.length ≤ fuel) :
    (evictLoop incomingSize fuel c).toList =
      Recency.shrink ((policy estimateSize c.config).admits incomingSize.toNat) c.toList := by
  induction fuel generalizing c with
  | zero =>
      have hnil : c.toList = [] := List.length_eq_zero_iff.mp (by omega)
      unfold evictLoop
      rw [hnil, Recency.shrink_nil]
  | succ fuel ih =>
      have hadmits := overLimit_eq hrepr estimateSize hexact
      unfold evictLoop
      split_ifs with hover
      · have hstep := toList_evictLruUnlocked hrepr hover.1
        have hconfig := c.evictLruUnlocked_config
        have hsum : byteSum c.evictLruUnlocked.entries ≤ byteSum c.entries := by
          obtain ⟨node, entry, -, hlookup, heq⟩ := evictLruUnlocked_eq hrepr hover.1
          rw [heq, byteSum_eq_add_erase hlookup]
          exact Nat.le_add_right _ _
        have hrest : 0 < c.evictLruUnlocked.config.maxBytes →
            byteSum c.evictLruUnlocked.entries + incomingSize.toNat < 2 ^ 64 := by
          intro hlimit
          rw [hconfig] at hlimit
          have hfits := hexact hlimit
          omega
        have hshorter : c.evictLruUnlocked.toList.length ≤ fuel := by
          rw [hstep, List.length_dropLast]
          omega
        rw [hover.2] at hadmits
        have hnot : (policy estimateSize c.config).admits incomingSize.toNat c.toList = false := by
          simpa using hadmits.symm
        rw [ih (hrepr.evictLruUnlocked hover.1) hrest hshorter, hstep, hconfig,
          ← Recency.shrink_of_not_admits hnot]
      · rw [not_and_or, not_not, Bool.not_eq_true] at hover
        rcases hover with hempty | hroom
        · rw [(toList_eq_nil_iff hrepr).mpr hempty, Recency.shrink_nil]
        · rw [hroom] at hadmits
          rw [Recency.shrink_of_admits (by simpa using hadmits.symm)]

theorem toList_evictToFitUnlocked (hrepr : c.Repr) (estimateSize : V → SizeT)
    {incomingSize : SizeT}
    (hexact : 0 < c.config.maxBytes → byteSum c.entries + incomingSize.toNat < 2 ^ 64) :
    (c.evictToFitUnlocked incomingSize).toList =
      Recency.shrink ((policy estimateSize c.config).admits incomingSize.toNat) c.toList := by
  apply toList_evictLoop hrepr estimateSize hexact
  have hlength : c.toList.length = c.entries.size := hrepr.indexed.length_view
  rw [hlength, hrepr.indexed.length_eq_size]

/-! ### The calls -/

/-- A put ends its value at a time that 64 bits of nanoseconds hold. -/
def DeadlineFits (config : Config) (ttl : Option Millis) (now : Time) : Prop :=
  let effectiveTtl := ttl.getD (config.defaultTtl.getD 0)
  0 < effectiveTtl → now + effectiveTtl * 1000000 < 2 ^ 63

theorem computeExpireTime_eq (estimateSize : V → SizeT) {config : Config} {ttl : Option Millis}
    {now : Time} (hfits : DeadlineFits config ttl now) :
    computeExpireTime config ttl now = (policy estimateSize config).deadline ttl now := by
  have hexact : ∀ ttl : Millis, (0 < ttl → now + ttl * 1000000 < 2 ^ 63) →
      (if ttl ≤ 0 then (⊤ : Deadline) else (Time.after now (ttl * 1000000) : Deadline)) =
        if 0 < ttl then ((now + ttl * 1000000 : Int) : Deadline) else ⊤ := by
    intro ttl hfits
    by_cases hpos : 0 < ttl
    · rw [if_neg (not_le.mpr hpos), if_pos hpos, Time.after_of_lt (hfits hpos)]
    · rw [if_pos (not_lt.mp hpos), if_neg hpos]
  unfold computeExpireTime Lru.Policy.deadline policy
  unfold DeadlineFits at hfits
  cases ttl with
  | some ttl => exact hexact ttl hfits
  | none =>
      cases hdefault : config.defaultTtl with
      | none => exact if_pos le_rfl
      | some ttl =>
          rw [hdefault] at hfits
          exact hexact ttl hfits

/-- The deadline the call computes fits. -/
def Op.Fits (config : Config) : Op K V → Prop
  | .put _ _ ttl now => DeadlineFits config ttl now
  | .putMany _ ttl now => DeadlineFits config ttl now
  | _ => True

/-- Nothing the call computes wraps. -/
def Exact (estimateSize : V → SizeT) (c : MemoryCache K V) (op : Op K V) : Prop :=
  c.EveryStore InsertExact estimateSize op ∧ op.Fits c.config

/-- The cache represents the list under the configuration. -/
structure Simulates (config : Config) (c : MemoryCache K V) (l : List (Lru.Entry K V)) : Prop where
  repr : c.Repr
  config_eq : c.config = config
  toList_eq : c.toList = l

variable {config : Config} {l : List (Lru.Entry K V)}

theorem simulates_empty (config : Config) : Simulates (K := K) (V := V) config { config } [] :=
  ⟨repr_empty config, rfl, rfl⟩

theorem Simulates.find (hsim : Simulates config c l) (key : K) :
    Recency.find Lru.Entry.key key l = (c.entries.lookup key).map (toLru key) := by
  rw [← hsim.toList_eq]
  exact hsim.repr.indexed.find_view key

theorem Simulates.evictEntryUnlocked (hsim : Simulates config c l)
    (hlookup : c.entries.lookup key = some entry) :
    Simulates config (c.evictEntryUnlocked key entry) (Recency.without Lru.Entry.key key l) where
  repr := hsim.repr.evictEntryUnlocked hlookup
  config_eq := hsim.config_eq
  toList_eq := by rw [toList_evictEntryUnlocked hsim.repr hlookup, hsim.toList_eq]

theorem Simulates.lookupUnlocked (hsim : Simulates config c l) (key : K) (now : Time) :
    (c.lookupUnlocked key now).1 = (Lru.read l key now).1 ∧
      Simulates config (c.lookupUnlocked key now).2 (Lru.read l key now).2 := by
  have hfind := hsim.find key
  have hrepr := hsim.repr.lookupUnlocked key now
  cases hlookup : c.entries.lookup key with
  | none =>
      rw [hlookup, Option.map_none] at hfind
      rw [lookupUnlocked_of_none hlookup] at hrepr ⊢
      rw [Lru.read_of_none hfind]
      exact ⟨rfl, hrepr, hsim.config_eq, hsim.toList_eq⟩
  | some entry =>
      rw [hlookup, Option.map_some] at hfind
      by_cases hexpired : expired entry.expireTime now = true
      · have hevict := hsim.evictEntryUnlocked hlookup
        rw [lookupUnlocked_of_expired hlookup hexpired] at hrepr ⊢
        rw [Lru.read_of_expired hfind hexpired]
        exact ⟨rfl, hrepr, hevict.config_eq, hevict.toList_eq⟩
      · have htouch := toList_touchUnlocked hsim.repr hlookup
        rw [hsim.toList_eq] at htouch
        rw [lookupUnlocked_of_live hlookup hexpired] at hrepr ⊢
        rw [Lru.read_of_live hfind hexpired]
        rw [touchUnlocked_eq hsim.repr.indexed hlookup] at hrepr htouch ⊢
        exact ⟨rfl, hrepr, hsim.config_eq, htouch⟩

theorem Simulates.getManyLoop (hsim : Simulates config c l) (keys : List (K × Time))
    (result : UnorderedMap K V) :
    (getManyLoop keys result c).1 = (Lru.readMany keys result l).1 ∧
      Simulates config (getManyLoop keys result c).2 (Lru.readMany keys result l).2 := by
  induction keys generalizing result c l with
  | nil => exact ⟨rfl, hsim⟩
  | cons first keys ih =>
      obtain ⟨key, now⟩ := first
      obtain ⟨hvalue, hnext⟩ := hsim.lookupUnlocked key now
      unfold MemoryCache.getManyLoop Lru.readMany
      cases hread : Lru.read l key now with
      | mk value l' =>
          cases hcode : c.lookupUnlocked key now with
          | mk value' c' =>
              rw [hread, hcode] at hvalue hnext
              obtain rfl : value' = value := hvalue
              cases value' with
              | none => exact ih hnext result
              | some value => exact ih hnext _

theorem Simulates.storeUnlocked (estimateSize : V → SizeT) (hsim : Simulates config c l)
    (value : V) (expireTime : Deadline) (hexact : c.InsertExact key (estimateSize value)) :
    Simulates config (c.storeUnlocked key value (estimateSize value) expireTime)
      ((policy estimateSize config).store expireTime l (key, value)) := by
  have hfind := hsim.find key
  have hrepr := hsim.repr.storeUnlocked key value (estimateSize value) expireTime
  cases hlookup : c.entries.lookup key with
  | some entry =>
      rw [hlookup, Option.map_some] at hfind
      simp only [MemoryCache.storeUnlocked, hlookup, Lru.Policy.store, hfind] at hrepr ⊢
      have hlist := toList_overwriteUnlocked hsim.repr hlookup value (estimateSize value) expireTime
      rw [hsim.toList_eq] at hlist
      refine ⟨hrepr, ?_, hlist⟩
      rw [overwriteUnlocked_eq hsim.repr.indexed hlookup]
      exact hsim.config_eq
  | none =>
      rw [hlookup, Option.map_none] at hfind
      simp only [MemoryCache.storeUnlocked, hlookup, Lru.Policy.store, hfind] at hrepr ⊢
      have hroom := toList_evictToFitUnlocked hsim.repr estimateSize
        (hexact (Finmap.lookup_eq_none.mp hlookup))
      have habsent := lookup_evictToFitUnlocked_of_none (estimateSize value) hlookup
      rw [hsim.toList_eq, hsim.config_eq] at hroom
      refine ⟨hrepr, ?_, ?_⟩
      · exact (c.evictToFitUnlocked_config (estimateSize value)).trans hsim.config_eq
      · have hindexed := (hsim.repr.evictToFitUnlocked (estimateSize value)).indexed
        have hold : view (c.insertUnlocked key value (estimateSize value) expireTime).entries
            (c.evictToFitUnlocked (estimateSize value)).lruList =
              (c.evictToFitUnlocked (estimateSize value)).toList := by
          apply view_congr
          intro node hnode
          apply Finmap.lookup_insert_of_ne
          rintro rfl
          exact Finmap.lookup_eq_none.mp habsent (hindexed.entry_of_node node hnode)
        unfold toList
        have hfront := @view_cons K V _
          (c.insertUnlocked key value (estimateSize value) expireTime).entries _
          ⟨(c.evictToFitUnlocked (estimateSize value)).nextNode, key⟩ (Finmap.lookup_insert _)
          (c.evictToFitUnlocked (estimateSize value)).lruList
        rw [hold, hroom] at hfront
        exact hfront

theorem Simulates.storeMany (estimateSize : V → SizeT) (hsim : Simulates config c l)
    (expireTime : Deadline) {entries : List (K × V)}
    (hexact : Along (fun c (entry : K × V) =>
        c.storeUnlocked entry.1 entry.2 (estimateSize entry.2) expireTime)
      (fun c entry => c.InsertExact entry.1 (estimateSize entry.2)) c entries) :
    Simulates config
      (entries.foldl (fun c entry =>
        c.storeUnlocked entry.1 entry.2 (estimateSize entry.2) expireTime) c)
      (entries.foldl ((policy estimateSize config).store expireTime) l) := by
  induction entries generalizing c l with
  | nil => exact hsim
  | cons first entries ih =>
      exact ih (hsim.storeUnlocked estimateSize first.2 expireTime hexact.1) hexact.2

theorem Simulates.deadline_eq (estimateSize : V → SizeT) (hsim : Simulates config c l)
    {ttl : Option Millis} {now : Time} (hfits : DeadlineFits c.config ttl now) :
    computeExpireTime c.config ttl now = (policy estimateSize config).deadline ttl now := by
  rw [computeExpireTime_eq estimateSize hfits, hsim.config_eq]

theorem Simulates.exec_remove (estimateSize : V → SizeT) (hsim : Simulates config c l) (key : K) :
    (c.exec estimateSize (.remove key)).1 = ((policy estimateSize config).exec l (.remove key)).1 ∧
      Simulates config (c.exec estimateSize (.remove key)).2
        ((policy estimateSize config).exec l (.remove key)).2 := by
  have hfind := hsim.find key
  cases hlookup : c.entries.lookup key with
  | none =>
      rw [hlookup, Option.map_none] at hfind
      simp only [MemoryCache.exec, remove, Lru.Policy.exec, hlookup, hfind]
      exact ⟨rfl, hsim⟩
  | some entry =>
      rw [hlookup, Option.map_some] at hfind
      simp only [MemoryCache.exec, remove, Lru.Policy.exec, hlookup, hfind]
      exact ⟨rfl, hsim.evictEntryUnlocked hlookup⟩

theorem Simulates.exec_contains (estimateSize : V → SizeT) (hsim : Simulates config c l) (key : K)
    (now : Time) :
    (c.exec estimateSize (.contains key now)).1 =
        ((policy estimateSize config).exec l (.contains key now)).1 ∧
      Simulates config (c.exec estimateSize (.contains key now)).2
        ((policy estimateSize config).exec l (.contains key now)).2 := by
  have hfind := hsim.find key
  cases hlookup : c.entries.lookup key with
  | none =>
      rw [hlookup, Option.map_none] at hfind
      simp only [MemoryCache.exec, contains, Lru.Policy.exec, hlookup, hfind]
      exact ⟨rfl, hsim⟩
  | some entry =>
      rw [hlookup, Option.map_some] at hfind
      simp only [MemoryCache.exec, contains, Lru.Policy.exec, hlookup, hfind]
      by_cases hexpired : expired entry.expireTime now = true
      · have hcode : isExpiredUnlocked entry now = true := hexpired
        have hspec : expired (toLru key entry).deadline now = true := hexpired
        rw [if_pos hcode, if_pos hspec]
        exact ⟨rfl, hsim.evictEntryUnlocked hlookup⟩
      · have hcode : ¬ isExpiredUnlocked entry now = true := hexpired
        have hspec : ¬ expired (toLru key entry).deadline now = true := hexpired
        rw [if_neg hcode, if_neg hspec]
        exact ⟨rfl, hsim⟩

theorem Simulates.exec (estimateSize : V → SizeT) (hsim : Simulates config c l) (op : Op K V)
    (hexact : c.Exact estimateSize op) :
    (c.exec estimateSize op).1 = ((policy estimateSize config).exec l op).1 ∧
      Simulates config (c.exec estimateSize op).2 ((policy estimateSize config).exec l op).2 := by
  cases op with
  | get key now =>
      obtain ⟨hvalue, hnext⟩ := hsim.lookupUnlocked key now
      refine ⟨?_, hnext⟩
      simp only [MemoryCache.exec, get, Lru.Policy.exec, Prod.map, hvalue]
  | put key value ttl now =>
      simp only [MemoryCache.exec, put, Lru.Policy.exec, Prod.map,
        hsim.deadline_eq estimateSize hexact.2]
      exact ⟨trivial, hsim.storeUnlocked estimateSize value _ hexact.1⟩
  | remove key => exact hsim.exec_remove estimateSize key
  | contains key now => exact hsim.exec_contains estimateSize key now
  | clear => exact ⟨rfl, repr_clear hsim.repr, hsim.config_eq, rfl⟩
  | getMany keys =>
      obtain ⟨hvalues, hnext⟩ := hsim.getManyLoop keys ∅
      refine ⟨?_, hnext⟩
      simp only [MemoryCache.exec, getMany, Lru.Policy.exec, Prod.map, hvalues]
  | putMany entries ttl now =>
      obtain ⟨hstores, hfits⟩ := hexact
      have hdeadline := hsim.deadline_eq estimateSize hfits
      simp only [EveryStore, hdeadline] at hstores
      simp only [MemoryCache.exec, putMany, Lru.Policy.exec, Prod.map, hdeadline, id]
      exact ⟨trivial, hsim.storeMany estimateSize _ hstores⟩

/-- **Refinement.** Along a run in which nothing wraps, the cache answers as the abstract cache does and
represents its list. A read returns the latest put of its key, unless the key was since removed,
cleared or evicted or the deadline is past, and a store of a new key drops the shortest end of the
list after which both limits admit it, or everything. -/
theorem refines_lru (estimateSize : V → SizeT) (config : Config) {ops : List (Op K V)}
    (hexact : Along (step estimateSize) (Exact estimateSize) { config } ops) :
    let p := policy estimateSize config
    let c := run (step estimateSize) { config } ops
    replies (exec estimateSize) { config } ops = replies p.exec [] ops ∧
      c.toList = run p.step [] ops ∧
      (∀ key now, ClockNondecreasing (ops ++ [.get key now]) →
        (c.get key now).1 = .ok (Lru.served (Lru.latestPut key (p.history [] ops)) now)) ∧
      ∀ key value deadline, key ∉ c.entries → c.InsertExact key (estimateSize value) →
        ∃ kept evicted, c.toList = kept ++ evicted ∧
          (c.storeUnlocked key value (estimateSize value) deadline).toList =
            ⟨key, value, p.size value, deadline⟩ :: kept ∧
          (p.admits (p.size value) kept = true ∨ kept = []) ∧
          ∀ kept' evicted', c.toList = kept' ++ evicted' → evicted'.length < evicted.length →
            p.admits (p.size value) kept' = false := by
  intro p c
  have hstep : ∀ (state : MemoryCache K V) (l : List (Lru.Entry K V)) (op : Op K V),
      Simulates config state l → state.Exact estimateSize op →
      (state.exec estimateSize op).1 = (p.exec l op).1 ∧
        Simulates config (state.exec estimateSize op).2 (p.exec l op).2 :=
    fun _ _ op hrelated hop => hrelated.exec estimateSize op hop
  obtain ⟨hreplies, hrelated⟩ := Along.simulation hexact (simulates_empty config) hstep
  have hsim : Simulates config c (run p.step [] ops) := hrelated
  refine ⟨hreplies, hsim.toList_eq, ?_, ?_⟩
  · intro key now hclock
    have hagrees := Lru.agrees_empty.run p ops
    have hserved := hagrees.read_eq_served key
      (readings_le_of_pairwise hclock (List.mem_singleton_self now))
    have hread := (hsim.lookupUnlocked key now).1
    exact congrArg Except.ok (hread.trans hserved)
  · intro key value deadline hfresh hinsert
    have hstore := (hsim.storeUnlocked estimateSize value deadline hinsert).toList_eq
    have hfind := hsim.find key
    rw [Finmap.lookup_eq_none.mpr hfresh, Option.map_none] at hfind
    obtain ⟨evicted, hsplit, hroom, hshortest⟩ :=
      Recency.shrink_shortest (p.admits (p.size value)) c.toList
    refine ⟨_, evicted, hsplit, ?_, hroom, hshortest⟩
    rw [hstore, hsim.toList_eq]
    unfold Lru.Policy.store
    rw [hfind]

/-- A second entry under a limit of one. -/
def evictingRun : List (Op Nat Nat) := [.put 0 5 none 0, .put 1 6 (some 1000) 0]

theorem refines_lru_evictingRun :
    ((run (step UInt64.ofNat) { config := { maxEntries := 1 } } evictingRun).get 0 1).1 =
      .ok none := by
  have hfirst : InsertExact (K := Nat) (V := Nat) { config := { maxEntries := 1 } } 0 5 := by decide
  have hsecond : InsertExact (run (step UInt64.ofNat) { config := { maxEntries := 1 } }
      (evictingRun.take 1)) 1 6 := by decide
  have hnone : DeadlineFits { maxEntries := 1 } none 0 := fun hpos => absurd hpos (by decide)
  have hsome : DeadlineFits { maxEntries := 1 } (some 1000) 0 := fun _ => by decide
  have hread := (@refines_lru Nat Nat _ UInt64.ofNat { maxEntries := 1 } evictingRun
    ⟨⟨hfirst, hnone⟩, ⟨hsecond, hsome⟩, trivial⟩).2.2.1 0 1 (by decide)
  rw [hread]
  rfl

/-- The reply carries a value. -/
def hasValue : Reply Nat Nat → Bool
  | .value (.ok value) => value.isSome
  | _ => false

/-- Two entries of `2 ^ 63` bytes: their sum wraps to zero and the first one stays, over a limit that
admits only one of them. -/
theorem wrapped_sum_evicts_nothing :
    ¬ ∀ (config : Config) (ops : List (Op Nat Nat)), ClockNondecreasing ops →
      replies (exec UInt64.ofNat) { config } ops =
        replies (policy UInt64.ofNat config).exec [] ops := by
  intro hclaim
  have hsame := hclaim { maxBytes := 2 ^ 63 }
    [.put 0 (2 ^ 63) none 0, .put 1 (2 ^ 63) none 0, .get 0 0] (by decide)
  have hhit := congrArg (List.map hasValue) hsame
  exact absurd hhit (by decide +kernel)

/-- The longest TTL wraps to a deadline one millisecond ago. -/
example : ((run (step UInt64.ofNat) { config := {} } [.put 0 5 (some (2 ^ 63 - 1)) 0]).get 0 1).1 =
    (.ok none : Result (Option Nat)) := by
  decide +kernel

end SoulCoreKit.Cache.MemoryCache
