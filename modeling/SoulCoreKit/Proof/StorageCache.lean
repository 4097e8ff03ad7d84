import SoulCoreKit.Proof.LruHistory
import SoulCoreKit.Storage.MemoryCache

/-!
# The storage module's memory cache is a bounded LRU map

A call does one of four things to the list and the map together: it leaves them alone, forgets a key,
moves the node of a key to the front, or forgets a key and inserts another at the front. The key a
put forgets is its own, or, when it is new and the cache is full, the last one of the list. Three
facts are kept by all of these: the list and the map are linked, the list is in the order in which
the calls last used its keys, and what the map holds is what the events of the run say.
-/

namespace SoulCoreKit.Storage.MemoryCache

open Cache UnorderedMap

variable {K V : Type} [DecidableEq K] {c : MemoryCache K V} {maxSize : SizeT} {key : K}
  {node : CacheNode V} {op : Op K V}

/-- The representation invariant under a limit. -/
structure Repr (maxSize : SizeT) (c : MemoryCache K V) : Prop where
  linked : Linked Node.id Node.key CacheNode.listIt c.cache c.list c.nextNode
  maxSize_eq : c.maxSize = maxSize
  size_le : c.cache.size ≤ maxSize.toNat
  not_erasedEnd : c.erasedEnd = false

theorem repr_empty (maxSize : SizeT) : Repr (K := K) (V := V) maxSize { maxSize } where
  linked := Linked.empty _ _ _ 0
  maxSize_eq := rfl
  size_le := Nat.zero_le _
  not_erasedEnd := rfl

/-! ### What the parts of the calls do -/

def forget (c : MemoryCache K V) (key : K) : MemoryCache K V :=
  { c with list := Recency.without Node.key key c.list, cache := c.cache.erase key }

theorem forget_of_lookup_none (hrepr : c.Repr maxSize) (hlookup : c.cache.lookup key = none) :
    c.forget key = c := by
  have hnode : Recency.find Node.key key c.list = none := by
    rw [Recency.find_eq_none_iff, hrepr.linked.mem_keys_iff]
    exact Finmap.lookup_eq_none.mp hlookup
  unfold forget
  rw [Recency.without_of_find_none hnode, erase_of_lookup_none hlookup]

theorem eraseNode_eq (hrepr : c.Repr maxSize) (hlookup : c.cache.lookup key = some node) :
    c.eraseNode key node = c.forget key := by
  unfold eraseNode forget
  rw [hrepr.linked.without_iter hlookup]

theorem erasePresent_eq (hrepr : c.Repr maxSize) (key : K) :
    c.erasePresent key = c.forget key := by
  unfold erasePresent
  cases hlookup : c.cache.lookup key with
  | none => exact (forget_of_lookup_none hrepr hlookup).symm
  | some node => exact eraseNode_eq hrepr hlookup

theorem splice_eq (hrepr : c.Repr maxSize) (hlookup : c.cache.lookup key = some node) :
    ∃ front ∈ c.list, front.key = key ∧
      c.splice node.listIt = { c with list := Recency.moveToFront Node.key front c.list } := by
  obtain ⟨front, hfront, hfind, hid, hkey⟩ := hrepr.linked.find_iter hlookup
  refine ⟨front, hfront, hkey, ?_⟩
  have hwithout := hrepr.linked.without_iter hlookup
  unfold splice Recency.moveToFront
  simp only [hfind]
  rw [hid, hwithout, hkey]

/-- Both branches for an entry that is found do the same, and the entry is found: the eviction takes
the last key. -/
theorem evict_eq (hrepr : c.Repr maxSize) {back : Node K} (hback : c.list.getLast? = some back)
    (now : Time) : c.evict now = c.forget back.key := by
  have hmem : back ∈ c.list := List.mem_of_getLast? hback
  obtain ⟨node, hlookup⟩ := Finmap.mem_iff.mp (hrepr.linked.entry_of_node back hmem)
  have hne : c.list ≠ [] := List.ne_nil_of_mem hmem
  have hlast : c.list.getLast hne = back := by
    rw [List.getLast?_eq_some_getLast hne] at hback
    exact Option.some.inj hback
  have hdrop := Recency.without_last hrepr.linked.keys_nodup hne
  rw [hlast] at hdrop
  unfold evict forget
  rw [hback, hdrop]
  simp only [hlookup, ite_self]

theorem size_forget_of_lookup (hlookup : c.cache.lookup key = some node) :
    (c.forget key).cache.size + 1 = c.cache.size :=
  size_erase_of_lookup hlookup

theorem size_forget_le (hrepr : c.Repr maxSize) (key : K) :
    (c.forget key).cache.size ≤ c.cache.size := by
  cases hlookup : c.cache.lookup key with
  | none => rw [forget_of_lookup_none hrepr hlookup]
  | some node =>
      have hsize := size_forget_of_lookup hlookup
      omega

theorem Repr.forget (hrepr : c.Repr maxSize) (key : K) : (c.forget key).Repr maxSize where
  linked := hrepr.linked.erase key
  maxSize_eq := hrepr.maxSize_eq
  size_le := (size_forget_le hrepr key).trans hrepr.size_le
  not_erasedEnd := hrepr.not_erasedEnd

theorem Repr.insertFront (hrepr : c.Repr maxSize) (hfresh : key ∉ c.cache)
    (hroom : c.cache.size < maxSize.toNat) (entry : CacheEntry V) :
    (c.insertFront key entry).Repr maxSize where
  linked := @Linked.insert K (CacheNode V) (Node K) _ _ _ _ _ _ _ ⟨entry, c.nextNode⟩
    ⟨c.nextNode, key⟩ hrepr.linked rfl hfresh rfl
  maxSize_eq := hrepr.maxSize_eq
  size_le := by
    have hsize := @size_insert_of_notMem K (CacheNode V) _ _ key ⟨entry, c.nextNode⟩ hfresh
    exact hsize.le.trans hroom
  not_erasedEnd := hrepr.not_erasedEnd

/-! ### A put -/

/-- A put of the key makes room first: the key is new and the cache is full. -/
def MustEvict (c : MemoryCache K V) (key : K) : Prop :=
  key ∉ c.cache ∧ c.maxSize.toNat ≤ c.cache.size

/-- The key a put forgets. -/
structure Yields (c : MemoryCache K V) (key lost : K) : Prop where
  own : ¬ c.MustEvict key → lost = key
  last : c.MustEvict key → (c.list.map Node.key).getLast? = some lost

theorem size_forget_lt (hrepr : c.Repr maxSize) (hevict : ¬ c.MustEvict key) :
    (c.forget key).cache.size < maxSize.toNat := by
  cases hlookup : c.cache.lookup key with
  | none =>
      rw [forget_of_lookup_none hrepr hlookup, ← hrepr.maxSize_eq]
      by_contra hfull
      exact hevict ⟨Finmap.lookup_eq_none.mp hlookup, Nat.le_of_not_lt hfull⟩
  | some node =>
      have hsize := size_forget_of_lookup hlookup
      have hle := hrepr.size_le
      omega

theorem Yields.mem (hrepr : c.Repr maxSize) {lost : K} (hyields : c.Yields key lost)
    (hevict : c.MustEvict key) : lost ∈ c.cache := by
  rw [← hrepr.linked.mem_keys_iff]
  exact List.mem_of_getLast? (hyields.last hevict)

theorem Yields.fresh {lost : K} (hyields : c.Yields key lost) : key ∉ (c.forget lost).cache := by
  by_cases hevict : c.MustEvict key
  · intro hmem
    exact hevict.1 (Finmap.mem_erase.mp hmem).2
  · rw [hyields.own hevict]
    exact Finmap.notMem_erase_self

theorem Yields.room (hrepr : c.Repr maxSize) {lost : K} (hyields : c.Yields key lost) :
    (c.forget lost).cache.size < maxSize.toNat := by
  by_cases hevict : c.MustEvict key
  · obtain ⟨node, hlookup⟩ := Finmap.mem_iff.mp (hyields.mem hrepr hevict)
    have hsize := size_forget_of_lookup hlookup
    have hle := hrepr.size_le
    omega
  · rw [hyields.own hevict]
    exact size_forget_lt hrepr hevict

theorem putTtl_eq (hrepr : c.Repr maxSize) (hmax : 1 ≤ maxSize) (key : K) (value : V)
    (ttl : Seconds) (evictNow now : Time) :
    ∃ lost, c.Yields key lost ∧
      (c.putTtl key value ttl evictNow now).2 =
        (c.forget lost).insertFront key (makeEntry value ttl now) := by
  have hpos : 0 < c.maxSize := by
    rw [hrepr.maxSize_eq, UInt64.lt_iff_toNat_lt]
    exact UInt64.le_iff_toNat_le.mp hmax
  unfold putTtl
  simp only [erasePresent_eq hrepr key]
  by_cases hevict : c.MustEvict key
  · have hsame := forget_of_lookup_none hrepr (Finmap.lookup_eq_none.mpr hevict.1)
    have hne : c.list ≠ [] := by
      rw [← List.length_pos_iff, hrepr.linked.length_eq_size]
      exact Nat.lt_of_lt_of_le (UInt64.lt_iff_toNat_lt.mp hpos) hevict.2
    have hback := List.getLast?_eq_some_getLast hne
    refine ⟨(c.list.getLast hne).key, ⟨fun hnot => absurd hevict hnot, ?_⟩, ?_⟩
    · intro _
      rw [List.getLast?_map, hback]
      rfl
    · unfold makeRoom
      rw [hsame, if_pos ⟨hpos, hevict.2⟩, evict_eq hrepr hback]
  · refine ⟨key, ⟨fun _ => rfl, fun hmust => absurd hmust hevict⟩, ?_⟩
    have hroom := size_forget_lt hrepr hevict
    rw [← hrepr.maxSize_eq] at hroom
    unfold makeRoom
    rw [if_neg]
    rintro ⟨-, hfull⟩
    exact absurd hroom (Nat.not_lt.mpr hfull)

theorem Repr.putTtl (hrepr : c.Repr maxSize) (hmax : 1 ≤ maxSize) (key : K) (value : V)
    (ttl : Seconds) (evictNow now : Time) :
    (c.putTtl key value ttl evictNow now).2.Repr maxSize := by
  obtain ⟨lost, hyields, heq⟩ := putTtl_eq hrepr hmax key value ttl evictNow now
  rw [heq]
  exact (hrepr.forget lost).insertFront hyields.fresh (hyields.room hrepr) _

theorem step_of_stored (hrepr : c.Repr maxSize) (hmax : 1 ≤ maxSize)
    (hstored : op.stored = some key) :
    ∃ lost entry, c.Yields key lost ∧ c.step op = (c.forget lost).insertFront key entry := by
  cases op with
  | put other value evictNow now =>
      obtain rfl : other = key := Option.some.inj hstored
      obtain ⟨lost, hyields, heq⟩ := putTtl_eq hrepr hmax other value 0 evictNow now
      exact ⟨lost, _, hyields, heq⟩
  | putTtl other value ttl evictNow now =>
      obtain rfl : other = key := Option.some.inj hstored
      obtain ⟨lost, hyields, heq⟩ := putTtl_eq hrepr hmax other value ttl evictNow now
      exact ⟨lost, _, hyields, heq⟩
  | get _ _ => exact nomatch hstored
  | contains _ _ => exact nomatch hstored
  | remove _ => exact nomatch hstored
  | clear => exact nomatch hstored

theorem mem_dropped_iff (hrepr : c.Repr maxSize) {lost : K} {entry : CacheEntry V}
    (hstep : c.step op = (c.forget lost).insertFront key entry) {other : K} :
    other ∈ c.dropped op ↔ other ∈ c.cache ∧ other = lost ∧ other ≠ key := by
  have hafter : other ∈ (c.step op).cache ↔ other = key ∨ other ≠ lost ∧ other ∈ c.cache := by
    rw [hstep, ← Finmap.mem_erase]
    exact Finmap.mem_insert
  unfold dropped
  rw [List.mem_filter, decide_eq_true_iff, hafter, hrepr.linked.mem_keys_iff]
  tauto

theorem dropped_eq_nil (hrepr : c.Repr maxSize) {lost : K} {entry : CacheEntry V}
    (hyields : c.Yields key lost) (hstep : c.step op = (c.forget lost).insertFront key entry)
    (hevict : ¬ c.MustEvict key) : c.dropped op = [] := by
  rw [List.eq_nil_iff_forall_not_mem]
  intro other hother
  obtain ⟨-, heq, hne⟩ := (mem_dropped_iff hrepr hstep).mp hother
  exact hne (heq.trans (hyields.own hevict))

theorem dropped_eq_last (hrepr : c.Repr maxSize) {lost : K} {entry : CacheEntry V}
    (hyields : c.Yields key lost) (hstep : c.step op = (c.forget lost).insertFront key entry)
    (hevict : c.MustEvict key) : c.dropped op = [lost] := by
  have hlost := hyields.mem hrepr hevict
  have hne : lost ≠ key := by
    rintro rfl
    exact hevict.1 hlost
  have hnodup : (c.dropped op).Nodup := hrepr.linked.keys_nodup.filter _
  rw [← List.perm_singleton, List.perm_ext_iff_of_nodup hnodup (List.nodup_singleton lost)]
  intro other
  rw [mem_dropped_iff hrepr hstep, List.mem_singleton]
  constructor
  · rintro ⟨-, heq, -⟩
    exact heq
  · rintro rfl
    exact ⟨hlost, rfl, hne⟩

/-! ### The other calls -/

theorem get_of_none {now : Time} (hlookup : c.cache.lookup key = none) :
    c.get key now = (.error ⟨.notFound, "Cache key not found"⟩, c) := by
  unfold get
  rw [hlookup]

theorem get_of_expired {now : Time} (hlookup : c.cache.lookup key = some node)
    (hexpired : node.entry.isExpired now = true) :
    c.get key now = (.error ⟨.notFound, "Cache key expired"⟩, c.eraseNode key node) := by
  unfold get
  rw [hlookup]
  exact if_pos hexpired

theorem get_of_live {now : Time} (hlookup : c.cache.lookup key = some node)
    (hlive : ¬ node.entry.isExpired now = true) :
    c.get key now = (.ok node.entry.value, c.splice node.listIt) := by
  unfold get
  rw [hlookup]
  exact if_neg hlive

theorem remove_eq (hrepr : c.Repr maxSize) (key : K) : (c.remove key).2 = c.forget key := by
  unfold remove
  cases hlookup : c.cache.lookup key with
  | none => exact (forget_of_lookup_none hrepr hlookup).symm
  | some node => exact eraseNode_eq hrepr hlookup

theorem Repr.get (hrepr : c.Repr maxSize) (key : K) (now : Time) :
    (c.get key now).2.Repr maxSize := by
  cases hlookup : c.cache.lookup key with
  | none =>
      rw [get_of_none hlookup]
      exact hrepr
  | some node =>
      by_cases hexpired : node.entry.isExpired now = true
      · rw [get_of_expired hlookup hexpired, eraseNode_eq hrepr hlookup]
        exact hrepr.forget key
      · obtain ⟨front, hfront, -, heq⟩ := splice_eq hrepr hlookup
        rw [get_of_live hlookup hexpired, heq]
        exact ⟨hrepr.linked.moveToFront hfront, hrepr.maxSize_eq, hrepr.size_le,
          hrepr.not_erasedEnd⟩

theorem Repr.step (hrepr : c.Repr maxSize) (hmax : 1 ≤ maxSize) (op : Op K V) :
    (c.step op).Repr maxSize := by
  cases op with
  | put key value evictNow now => exact hrepr.putTtl hmax key value 0 evictNow now
  | putTtl key value ttl evictNow now => exact hrepr.putTtl hmax key value ttl evictNow now
  | get key now => exact hrepr.get key now
  | contains key now => exact hrepr
  | remove key =>
      have heq : c.step (.remove key) = c.forget key := remove_eq hrepr key
      rw [heq]
      exact hrepr.forget key
  | clear =>
      exact ⟨Linked.empty _ _ _ c.nextNode, hrepr.maxSize_eq, Nat.zero_le _, hrepr.not_erasedEnd⟩

/-! ### The order of use -/

def keys (c : MemoryCache K V) : List K := c.list.map Node.key

theorem keys_forget (c : MemoryCache K V) (key : K) :
    (c.forget key).keys = c.keys.filter (· ≠ key) :=
  Recency.map_without key c.list

theorem notMem_keys_forget (c : MemoryCache K V) (key : K) : key ∉ (c.forget key).keys := by
  rw [keys_forget]
  simp

theorem keys_forget_sublist (c : MemoryCache K V) (key : K) :
    (c.forget key).keys.Sublist c.keys := by
  rw [keys_forget]
  exact List.filter_sublist

theorem byAge_putTtl (hrepr : c.Repr maxSize) (hmax : 1 ≤ maxSize) {past : List (Op K V)}
    (hage : Recency.ByAge Op.used past c.keys) (hused : op.used = some key) (value : V)
    (ttl : Seconds) (evictNow now : Time) :
    Recency.ByAge Op.used (past ++ [op]) (c.putTtl key value ttl evictNow now).2.keys := by
  obtain ⟨lost, hyields, heq⟩ := putTtl_eq hrepr hmax key value ttl evictNow now
  have hnot : key ∉ (c.forget lost).keys := by
    intro hmem
    exact hyields.fresh ((hrepr.forget lost).linked.mem_keys_iff.mp hmem)
  rw [heq]
  exact hage.use hused (c.keys_forget_sublist lost) hnot

theorem byAge_get (hrepr : c.Repr maxSize) {past : List (Op K V)}
    (hage : Recency.ByAge Op.used past c.keys) (key : K) (now : Time) :
    Recency.ByAge Op.used (past ++ [.get key now]) (c.get key now).2.keys := by
  -- A get that finds nothing leaves its key out of the list.
  have hgone : Recency.ByAge Op.used (past ++ [.get key now]) (c.forget key).keys := by
    apply hage.grow (c.keys_forget_sublist key)
    intro other hother heq
    obtain rfl : key = other := Option.some.inj heq
    exact c.notMem_keys_forget key hother
  cases hlookup : c.cache.lookup key with
  | none =>
      rw [get_of_none hlookup]
      rwa [forget_of_lookup_none hrepr hlookup] at hgone
  | some node =>
      by_cases hexpired : node.entry.isExpired now = true
      · rw [get_of_expired hlookup hexpired, eraseNode_eq hrepr hlookup]
        exact hgone
      · obtain ⟨front, hfront, rfl, heq⟩ := splice_eq hrepr hlookup
        rw [get_of_live hlookup hexpired, heq]
        exact hage.use rfl (c.keys_forget_sublist front.key) (c.notMem_keys_forget front.key)

theorem byAge_step (hrepr : c.Repr maxSize) (hmax : 1 ≤ maxSize) {past : List (Op K V)}
    (hage : Recency.ByAge Op.used past c.keys) (op : Op K V) :
    Recency.ByAge Op.used (past ++ [op]) (c.step op).keys := by
  cases op with
  | put key value evictNow now => exact byAge_putTtl hrepr hmax hage rfl value 0 evictNow now
  | putTtl key value ttl evictNow now =>
      exact byAge_putTtl hrepr hmax hage rfl value ttl evictNow now
  | get key now => exact byAge_get hrepr hage key now
  | contains key now => exact hage.grow (List.Sublist.refl _) fun _ _ => nofun
  | remove key =>
      have heq : c.step (.remove key) = c.forget key := remove_eq hrepr key
      rw [heq]
      exact hage.grow (c.keys_forget_sublist key) fun _ _ => nofun
  | clear => exact hage.grow (List.nil_sublist _) fun _ _ => nofun

/-! ### What the map holds -/

/-- The entry as one of the abstract cache. Sizes play no part. -/
def toLru (key : K) (node : CacheNode V) : Lru.Entry K V :=
  ⟨key, node.entry.value, 0, if node.entry.hasTtl then (node.entry.expiry : Deadline) else ⊤⟩

def toList (c : MemoryCache K V) : List (Lru.Entry K V) := inOrder Node.key toLru c.cache c.list

omit [DecidableEq K] in
theorem key_toLru (key : K) (node : CacheNode V) : (toLru key node).key = key := rfl

omit [DecidableEq K] in
theorem expired_toLru (key : K) (node : CacheNode V) (now : Time) :
    expired (toLru key node).deadline now = node.entry.isExpired now := by
  unfold toLru CacheEntry.isExpired
  cases node.entry.hasTtl with
  | true => rfl
  | false => rfl

omit [DecidableEq K] in
theorem toLru_makeEntry {ttl : Seconds} {now : Time} (hfits : ExpiryFits ttl now) (key : K) (value : V)
    (listIt : NodeId) :
    toLru key ⟨makeEntry value ttl now, listIt⟩ = ⟨key, value, 0, deadline ttl now⟩ := by
  by_cases hpos : 0 < ttl
  · simp [toLru, makeEntry, deadline, hpos, Time.after_of_lt (hfits hpos)]
  · simp [toLru, makeEntry, deadline, hpos]

theorem toList_forget (c : MemoryCache K V) (key : K) :
    (c.forget key).toList = Recency.without Lru.Entry.key key c.toList :=
  inOrder_without key_toLru fun _ hne => Finmap.lookup_erase_ne hne

theorem find_toList (hrepr : c.Repr maxSize) (key : K) :
    Recency.find Lru.Entry.key key c.toList = (c.cache.lookup key).map (toLru key) :=
  hrepr.linked.find_inOrder key_toLru key

theorem toList_insertFront (hrepr : c.Repr maxSize) (hfresh : key ∉ c.cache) (value : V)
    {ttl : Seconds} {now : Time} (hfits : ExpiryFits ttl now) :
    (c.insertFront key (makeEntry value ttl now)).toList =
      ⟨key, value, 0, deadline ttl now⟩ :: c.toList := by
  have hold : inOrder Node.key toLru (c.insertFront key (makeEntry value ttl now)).cache c.list =
      c.toList := by
    apply inOrder_congr
    intro node hnode
    apply Finmap.lookup_insert_of_ne
    rintro rfl
    exact hfresh (hrepr.linked.entry_of_node node hnode)
  have hfront := @inOrder_cons K (CacheNode V) (Node K) (Lru.Entry K V) _ Node.key toLru
    (c.insertFront key (makeEntry value ttl now)).cache _ ⟨c.nextNode, key⟩
    (Finmap.lookup_insert _) c.list
  rw [hold, toLru_makeEntry hfits] at hfront
  exact hfront

theorem get_eq_read (hrepr : c.Repr maxSize) (key : K) (now : Time) :
    (c.get key now).1.toOption = (Lru.read c.toList key now).1 ∧
      (c.get key now).2.toList = (Lru.read c.toList key now).2 := by
  have hfind := find_toList hrepr key
  cases hlookup : c.cache.lookup key with
  | none =>
      rw [hlookup, Option.map_none] at hfind
      rw [get_of_none hlookup, Lru.read_of_none hfind]
      exact ⟨rfl, rfl⟩
  | some node =>
      rw [hlookup, Option.map_some] at hfind
      by_cases hexpired : node.entry.isExpired now = true
      · rw [get_of_expired hlookup hexpired, eraseNode_eq hrepr hlookup,
          Lru.read_of_expired hfind ((expired_toLru key node now).trans hexpired)]
        exact ⟨rfl, c.toList_forget key⟩
      · have hlive : ¬ expired (toLru key node).deadline now = true := by
          rwa [expired_toLru]
        obtain ⟨front, -, rfl, heq⟩ := splice_eq hrepr hlookup
        rw [get_of_live hlookup hexpired, Lru.read_of_live hfind hlive, heq]
        refine ⟨rfl, ?_⟩
        unfold toList Recency.moveToFront
        rw [inOrder_cons front hlookup, inOrder_without key_toLru fun _ _ => rfl]
        rfl

variable {history : List (Lru.Event K V)} {readings : List Time}

theorem agrees_putTtl (hrepr : c.Repr maxSize) (hmax : 1 ≤ maxSize)
    (hagrees : Lru.Agrees c.toList history readings) (value : V) {ttl : Seconds} (evictNow : Time)
    {now : Time} (hfits : ExpiryFits ttl now) (hop : c.step op = (c.putTtl key value ttl evictNow now).2) :
    Lru.Agrees (c.step op).toList
      (history ++ ((c.dropped op).map .evicted ++ [.put key value (deadline ttl now)]))
      readings := by
  obtain ⟨lost, hyields, heq⟩ := putTtl_eq hrepr hmax key value ttl evictNow now
  have hstep := hop.trans heq
  have hlist := toList_insertFront (hrepr.forget lost) hyields.fresh value hfits
  rw [toList_forget] at hlist
  have hput := fun history : List (Lru.Event K V) =>
    And.intro (fun other (hne : other ≠ key) =>
        Lru.latestPut_put_of_ne history hne value (deadline ttl now))
      (Lru.latestPut_put_self history key value (deadline ttl now))
  rw [← List.append_assoc]
  by_cases hevict : c.MustEvict key
  · -- The last key goes, then the new entry comes to the front of what is left.
    have hroom : Lru.Agrees (Recency.without Lru.Entry.key lost c.toList)
        (history ++ (c.dropped op).map .evicted) readings := by
      rw [dropped_eq_last hrepr hyields hstep hevict]
      apply hagrees.without lost _ _ fun _ hpast => hpast
      · intro other hne
        rw [Lru.latestPut_evicted, if_neg (by simpa using hne)]
      · intro value deadline hlatest
        rw [Lru.latestPut_evicted, if_pos (List.mem_singleton_self lost)] at hlatest
        exact absurd hlatest (by simp)
    have habsent : Recency.find Lru.Entry.key key
        (Recency.without Lru.Entry.key lost c.toList) = none := by
      rw [← toList_forget, find_toList (hrepr.forget lost),
        Finmap.lookup_eq_none.mpr hyields.fresh, Option.map_none]
    have hfront := hroom.moveToFront ⟨key, value, 0, deadline ttl now⟩ (hput _).1 (hput _).2
    unfold Recency.moveToFront at hfront
    rw [Recency.without_of_find_none habsent] at hfront
    rw [hstep, hlist]
    exact hfront
  · -- The entry replaces the one of its key, if there is one.
    obtain rfl : lost = key := hyields.own hevict
    rw [dropped_eq_nil hrepr hyields hstep hevict, List.map_nil, List.append_nil, hstep, hlist]
    exact hagrees.moveToFront ⟨lost, value, 0, deadline ttl now⟩ (hput _).1 (hput _).2

theorem agrees_step (hrepr : c.Repr maxSize) (hmax : 1 ≤ maxSize)
    (hagrees : Lru.Agrees c.toList history readings) {op : Op K V} (hfits : op.Fits) :
    Lru.Agrees (c.step op).toList (history ++ c.events op) (readings ++ op.readings) := by
  cases op with
  | put key value evictNow now =>
      have hnone : ExpiryFits 0 now := fun hpos => absurd hpos (lt_irrefl 0)
      exact (agrees_putTtl hrepr hmax hagrees value evictNow hnone rfl).append_readings _
  | putTtl key value ttl evictNow now =>
      exact (agrees_putTtl hrepr hmax hagrees value evictNow hfits rfl).append_readings _
  | get key now =>
      have hlist : (c.step (.get key now)).toList = _ := (get_eq_read hrepr key now).2
      rw [hlist]
      simpa [events, Op.readings] using hagrees.read key now
  | contains key now =>
      simp only [events, List.append_nil]
      exact hagrees.append_readings [now]
  | remove key =>
      have heq : c.step (.remove key) = c.forget key := remove_eq hrepr key
      rw [heq, toList_forget]
      exact (hagrees.removed key).append_readings []
  | clear => exact Lru.agrees_cleared history _

/-! ### Runs -/

/-- What holds after a list of calls with the events so far. Only what a read returns depends on the
expiries. -/
structure Tracks (maxSize : SizeT) (past : List (Op K V)) (history : List (Lru.Event K V))
    (c : MemoryCache K V) : Prop where
  repr : c.Repr maxSize
  byAge : Recency.ByAge Op.used past c.keys
  agrees : (∀ op ∈ past, op.Fits) → Lru.Agrees c.toList history (past.flatMap Op.readings)

theorem tracks_empty (maxSize : SizeT) :
    Tracks (K := K) (V := V) maxSize [] [] { maxSize } where
  repr := repr_empty maxSize
  byAge := List.Pairwise.nil
  agrees _ := Lru.agrees_empty

theorem Tracks.step {past : List (Op K V)} (htracks : c.Tracks maxSize past history)
    (hmax : 1 ≤ maxSize) (op : Op K V) :
    (c.step op).Tracks maxSize (past ++ [op]) (history ++ c.events op) where
  repr := htracks.repr.step hmax op
  byAge := byAge_step htracks.repr hmax htracks.byAge op
  agrees hfits := by
    have hpast := htracks.agrees fun earlier hearlier => hfits earlier (List.mem_append_left _ hearlier)
    rw [List.flatMap_append, List.flatMap_singleton]
    exact agrees_step htracks.repr hmax hpast
      (hfits op (List.mem_append_right _ (List.mem_singleton_self op)))

theorem Tracks.run {past : List (Op K V)} (htracks : c.Tracks maxSize past history)
    (hmax : 1 ≤ maxSize) (ops : List (Op K V)) :
    (SoulCoreKit.run MemoryCache.step c ops).Tracks maxSize (past ++ ops) (history ++ c.history ops) := by
  induction ops generalizing c past history with
  | nil => simpa [MemoryCache.history] using htracks
  | cons op ops ih =>
      have hnext := ih (htracks.step hmax op)
      rw [List.append_assoc, List.append_assoc] at hnext
      exact hnext

/-- The list and the map have the same keys, each once, and every iterator refers to its key. -/
structure Consistent (c : MemoryCache K V) : Prop where
  nodup : (c.list.map Node.key).Nodup
  keys_eq : (c.list.map Node.key).toFinset = c.cache.keys
  listIt_designates : ∀ key node, c.cache.lookup key = some node →
    ∃ own, Recency.find Node.id node.listIt c.list = some own ∧ own.key = key

/-- Of the keys present, the one whose last put or get is the furthest back. -/
def LeastRecentlyUsed (ops : List (Op K V)) (c : MemoryCache K V) (key : K) : Prop :=
  key ∈ c.cache ∧ ∀ other ∈ c.cache, other ≠ key →
    Recency.age Op.used ops other < Recency.age Op.used ops key

theorem Repr.consistent (hrepr : c.Repr maxSize) : c.Consistent where
  nodup := hrepr.linked.keys_nodup
  keys_eq := hrepr.linked.enumerates.2
  listIt_designates key node hlookup := by
    obtain ⟨own, -, hfind, -, hkey⟩ := hrepr.linked.find_iter hlookup
    exact ⟨own, hfind, hkey⟩

theorem Tracks.dropped {past : List (Op K V)} (htracks : c.Tracks maxSize past history)
    (hmax : 1 ≤ maxSize) (hstored : op.stored = some key) :
    (c.MustEvict key → ∃ victim, c.dropped op = [victim] ∧ LeastRecentlyUsed past c victim) ∧
      (¬ c.MustEvict key → c.dropped op = []) := by
  have hrepr := htracks.repr
  obtain ⟨lost, entry, hyields, hstep⟩ := step_of_stored hrepr hmax hstored
  refine ⟨fun hevict => ⟨lost, dropped_eq_last hrepr hyields hstep hevict, ?_⟩,
    dropped_eq_nil hrepr hyields hstep⟩
  refine ⟨hyields.mem hrepr hevict, ?_⟩
  intro other hother hne
  exact htracks.byAge.age_lt_last (hyields.last hevict) (hrepr.linked.mem_keys_iff.mpr hother) hne

/-- Every sequence of calls keeps the list, the map and the iterators together and within the limit.
A put drops nothing while there is room or its key is present, and otherwise the key least recently
used. As long as no expiry wraps, a get succeeds with the latest value put, unless the key was since
removed, cleared or evicted or the value has expired. -/
theorem bounded_lru {maxSize : SizeT} (hmax : 1 ≤ maxSize) (ops : List (Op K V)) :
    let c := run step { maxSize } ops
    c.Consistent ∧ c.cache.size ≤ maxSize.toNat ∧ c.erasedEnd = false ∧
      (∀ op key, op.stored = some key →
        (key ∈ c.cache ∨ c.cache.size < maxSize.toNat → c.dropped op = []) ∧
        (key ∉ c.cache → c.cache.size = maxSize.toNat →
          ∃ victim, c.dropped op = [victim] ∧ LeastRecentlyUsed ops c victim)) ∧
      ((∀ op ∈ ops, op.Fits) → ∀ key value now, ClockNondecreasing (ops ++ [.get key now]) →
        ((c.get key now).1 = .ok value ↔
          Lru.served (Lru.latestPut key (MemoryCache.history { maxSize } ops)) now =
            some value)) := by
  intro c
  have htracks : c.Tracks maxSize ops (MemoryCache.history { maxSize } ops) :=
    (tracks_empty maxSize).run hmax ops
  have hrepr := htracks.repr
  refine ⟨hrepr.consistent, hrepr.size_le, hrepr.not_erasedEnd, ?_, ?_⟩
  · intro op key hstored
    obtain ⟨hfull, hroom⟩ := htracks.dropped hmax hstored
    constructor
    · intro hkeeps
      apply hroom
      rintro ⟨hnew, hsize⟩
      rw [hrepr.maxSize_eq] at hsize
      rcases hkeeps with hmem | hlt
      · exact hnew hmem
      · omega
    · intro hnew hsize
      exact hfull ⟨hnew, by rw [hrepr.maxSize_eq, hsize]⟩
  · intro hfits key value now hclock
    have hserved := (htracks.agrees hfits).read_eq_served key
      (readings_le_of_pairwise hclock (List.mem_singleton_self now))
    rw [← hserved, ← (get_eq_read hrepr key now).1]
    cases (c.get key now).1 with
    | error err => simp [Except.toOption]
    | ok found => simp [Except.toOption]

/-- A full cache of two whose first key was read after the second was put. -/
def touchedRun : List (Op Nat Nat) := [.put 0 5 0 0, .putTtl 1 6 60 0 0, .get 0 1]

theorem bounded_lru_touchedRun :
    (∃ victim, (run step { maxSize := 2 } touchedRun).dropped (.putTtl 2 7 60 2 2) = [victim] ∧
        LeastRecentlyUsed touchedRun (run step { maxSize := 2 } touchedRun) victim) ∧
      ((run step { maxSize := 2 } touchedRun).get 1 60000000000).1 = .ok 6 := by
  obtain ⟨-, -, -, hdropped, hget⟩ := bounded_lru (show (1 : SizeT) ≤ 2 by decide) touchedRun
  have hfits : ∀ op ∈ touchedRun, op.Fits := by
    intro op hop
    rcases List.mem_cons.mp hop with rfl | hop
    · trivial
    rcases List.mem_cons.mp hop with rfl | hop
    · exact fun _ => by decide
    · rw [List.mem_singleton.mp hop]
      trivial
  exact ⟨(hdropped (.putTtl 2 7 60 2 2) 2 rfl).2 (by decide) (by decide),
    (hget hfits 1 6 60000000000 (by decide)).mpr (by decide)⟩

/-- The longest TTL, put at time zero: its nanoseconds wrap to an expiry one second ago. -/
def foreverRun : List (Op Nat Nat) := [.putTtl 0 5 (2 ^ 63 - 1) 0 0]

theorem forever_expires_at_once :
    ¬ ∀ (maxSize : SizeT) (ops : List (Op Nat Nat)) (key value : Nat) (now : Time), 1 ≤ maxSize →
      ClockNondecreasing (ops ++ [.get key now]) →
      (((run step { maxSize } ops).get key now).1 = .ok value ↔
        Lru.served (Lru.latestPut key (MemoryCache.history { maxSize } ops)) now = some value) := by
  intro hclaim
  have hget := (hclaim 2 foreverRun 0 5 1 (by decide) (by decide)).mpr (by decide)
  exact absurd hget (by decide)

end SoulCoreKit.Storage.MemoryCache
