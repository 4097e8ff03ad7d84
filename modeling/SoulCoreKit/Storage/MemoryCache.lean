import SoulCoreKit.Cache.LruSpec
import SoulCoreKit.Lib.LinkedMap

/-!
# The memory cache of the storage module

`sc::MemoryCache` of `storage/cache.h`: a hash map of nodes and a list of keys in order of use, with a
limit on the number of entries. It is a class of its own, beside `cache::MemoryCache`: TTLs are in
seconds, an entry without one has no deadline, a put of a present key erases it and inserts it anew,
and `contains` leaves an expired entry where it is. Each call that reads the clock takes the reading
as an argument; a put may read it twice, for the entry it evicts and for the deadline.

One flag is recorded that no branch reads: `evict` erased the end iterator of the map.
-/

namespace SoulCoreKit.Storage

open Cache (Deadline Node NodeId SizeT Time)
open UnorderedMap

abbrev Seconds := Int

structure CacheEntry (V : Type) where
  value : V
  expiry : Time := 0
  hasTtl : Bool := false

structure CacheNode (V : Type) where
  entry : CacheEntry V
  listIt : NodeId

structure MemoryCache (K V : Type) where
  maxSize : SizeT := 1024
  cache : UnorderedMap K (CacheNode V) := ∅
  list : List (Node K) := []
  nextNode : NodeId := 0
  erasedEnd : Bool := false

/-- The test of `get`, `contains` and, together with a missing TTL, of `evict`. -/
def CacheEntry.isExpired {V : Type} (entry : CacheEntry V) (now : Time) : Bool :=
  entry.hasTtl && decide (entry.expiry < now)

namespace MemoryCache

variable {K V : Type} [DecidableEq K]

/-- Erasing a node of the list and an entry of the map through their iterators. -/
def eraseNode (c : MemoryCache K V) (key : K) (node : CacheNode V) : MemoryCache K V :=
  { c with
    list := Recency.without Node.id node.listIt c.list
    cache := c.cache.erase key }

/-- `splice` of the node the iterator refers to. -/
def splice (c : MemoryCache K V) (listIt : NodeId) : MemoryCache K V :=
  match Recency.find Node.id listIt c.list with
  | none => c
  | some node => { c with list := Recency.moveToFront Node.id node c.list }

def evict (c : MemoryCache K V) (now : Time) : MemoryCache K V :=
  match c.list.getLast? with
  | none => c
  | some back =>
      match c.cache.lookup back.key with
      | some node =>
          if !node.entry.hasTtl || decide (node.entry.expiry < now) then
            { c with cache := c.cache.erase back.key, list := c.list.dropLast }
          else
            { c with cache := c.cache.erase back.key, list := c.list.dropLast }
      -- `m_cache.erase(it)` with the end iterator.
      | none => { c with list := c.list.dropLast, erasedEnd := true }

def makeEntry (value : V) (ttl : Seconds) (now : Time) : CacheEntry V :=
  if 0 < ttl then
    { value, expiry := Time.after now (ttl * 1000000000), hasTtl := true }
  else
    { value }

/-- The first part of a put: a present key is erased. -/
def erasePresent (c : MemoryCache K V) (key : K) : MemoryCache K V :=
  match c.cache.lookup key with
  | some node => c.eraseNode key node
  | none => c

/-- The second part of a put: room for one entry. -/
def makeRoom (c : MemoryCache K V) (now : Time) : MemoryCache K V :=
  if 0 < c.maxSize ∧ c.maxSize.toNat ≤ c.cache.size then c.evict now else c

/-- The third part of a put: a new node at the front and its entry. -/
def insertFront (c : MemoryCache K V) (key : K) (entry : CacheEntry V) : MemoryCache K V :=
  let listIt := c.nextNode
  { c with
    list := ⟨listIt, key⟩ :: c.list
    nextNode := listIt + 1
    cache := c.cache.insert key { entry, listIt } }

def putTtl (c : MemoryCache K V) (key : K) (value : V) (ttl : Seconds) (evictNow now : Time) :
    Result Unit × MemoryCache K V :=
  let c := c.erasePresent key
  let c := c.makeRoom evictNow
  (.ok (), c.insertFront key (makeEntry value ttl now))

def put (c : MemoryCache K V) (key : K) (value : V) (evictNow now : Time) :
    Result Unit × MemoryCache K V :=
  c.putTtl key value 0 evictNow now

def get (c : MemoryCache K V) (key : K) (now : Time) : Result V × MemoryCache K V :=
  match c.cache.lookup key with
  | none => (.error ⟨.notFound, "Cache key not found"⟩, c)
  | some node =>
      if node.entry.isExpired now then
        (.error ⟨.notFound, "Cache key expired"⟩, c.eraseNode key node)
      else
        (.ok node.entry.value, c.splice node.listIt)

def contains (c : MemoryCache K V) (key : K) (now : Time) : Bool :=
  match c.cache.lookup key with
  | none => false
  | some node => !node.entry.isExpired now

def remove (c : MemoryCache K V) (key : K) : Result Unit × MemoryCache K V :=
  match c.cache.lookup key with
  | none => (.error ⟨.notFound, "Cache key not found"⟩, c)
  | some node => (.ok (), c.eraseNode key node)

def clear (c : MemoryCache K V) : MemoryCache K V := { c with cache := ∅, list := [] }

inductive Op (K V : Type) where
  | put (key : K) (value : V) (evictNow now : Time)
  | putTtl (key : K) (value : V) (ttl : Seconds) (evictNow now : Time)
  | get (key : K) (now : Time)
  | contains (key : K) (now : Time)
  | remove (key : K)
  | clear

def step (c : MemoryCache K V) : Op K V → MemoryCache K V
  | .put key value evictNow now => (c.put key value evictNow now).2
  | .putTtl key value ttl evictNow now => (c.putTtl key value ttl evictNow now).2
  | .get key now => (c.get key now).2
  | .contains _ _ => c
  | .remove key => (c.remove key).2
  | .clear => c.clear

/-- The readings of the clock a call makes. -/
def Op.readings : Op K V → List Time
  | .put _ _ evictNow now => [evictNow, now]
  | .putTtl _ _ _ evictNow now => [evictNow, now]
  | .get _ now => [now]
  | .contains _ now => [now]
  | _ => []

/-- The clock does not go back during the calls. -/
def ClockNondecreasing (ops : List (Op K V)) : Prop :=
  (ops.flatMap Op.readings).Pairwise (· ≤ ·)

instance (ops : List (Op K V)) : Decidable (ClockNondecreasing ops) :=
  inferInstanceAs (Decidable ((ops.flatMap Op.readings).Pairwise (· ≤ ·)))

/-! ### What the calls mean for the keys -/

/-- The key a call uses: the one it puts or gets. -/
def Op.used : Op K V → Option K
  | .put key _ _ _ => some key
  | .putTtl key _ _ _ _ => some key
  | .get key _ => some key
  | _ => none

def Op.stored : Op K V → Option K
  | .put key _ _ _ => some key
  | .putTtl key _ _ _ _ => some key
  | _ => none

/-- When an entry put at a reading of the clock is to expire. -/
def deadline (ttl : Seconds) (now : Time) : Deadline :=
  if 0 < ttl then ((now + ttl * 1000000000 : Int) : Deadline) else ⊤

/-- The expiry is a time that 64 bits of nanoseconds hold. -/
def ExpiryFits (ttl : Seconds) (now : Time) : Prop := 0 < ttl → now + ttl * 1000000000 < 2 ^ 63

def Op.Fits : Op K V → Prop
  | .putTtl _ _ ttl _ now => ExpiryFits ttl now
  | _ => True

/-- The listed keys that a call leaves without an entry. -/
def dropped (c : MemoryCache K V) (op : Op K V) : List K :=
  (c.list.map Node.key).filter (· ∉ (c.step op).cache)

/-- The events of one call. A put keeps its own key, so the keys it drops are evicted. -/
def events (c : MemoryCache K V) : Op K V → List (Cache.Lru.Event K V)
  | .put key value evictNow now =>
      (c.dropped (.put key value evictNow now)).map .evicted ++ [.put key value (deadline 0 now)]
  | .putTtl key value ttl evictNow now =>
      (c.dropped (.putTtl key value ttl evictNow now)).map .evicted ++
        [.put key value (deadline ttl now)]
  | .remove key => [.removed key]
  | .clear => [.cleared]
  | _ => []

def history : MemoryCache K V → List (Op K V) → List (Cache.Lru.Event K V)
  | _, [] => []
  | c, op :: ops => c.events op ++ history (c.step op) ops

end MemoryCache

end SoulCoreKit.Storage
