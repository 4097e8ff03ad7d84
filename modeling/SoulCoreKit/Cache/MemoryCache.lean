import SoulCoreKit.Cache.ICache
import SoulCoreKit.Lib.Recency
import SoulCoreKit.Lib.Run

/-!
# The memory cache

`cache::MemoryCache`: a hash map of entries, a list of keys in order of use, and a byte counter. A
node of the list is a key together with the identity an iterator refers to, so that moving and
erasing nodes through `listIt` is what the source does. Every call reads the clock itself; the
readings are arguments, one for each key of `getMany`.

Three flags are recorded that no branch reads: an addition to the byte counter wrapped, a
subtraction from it wrapped, and the eviction met a key of the list that has no entry.
-/

namespace SoulCoreKit.Cache

abbrev NodeId := Nat

/-- A node of `m_lruList`. -/
structure Node (K : Type) where
  id : NodeId
  key : K
  deriving DecidableEq, Repr

namespace MemoryCache

structure Config where
  maxEntries : SizeT := 10000
  maxBytes : SizeT := 100 * 1024 * 1024
  defaultTtl : Option Millis := none
  deriving DecidableEq, Repr

structure Entry (V : Type) where
  value : V
  expireTime : Deadline
  size : SizeT := 0
  accessCount : SizeT := 0
  listIt : NodeId

/-- The events the source does not expect. -/
structure Faults where
  wrappedUp : Bool := false
  wrappedDown : Bool := false
  orphan : Bool := false
  deriving DecidableEq, Repr

end MemoryCache

structure MemoryCache (K V : Type) where
  config : MemoryCache.Config
  entries : UnorderedMap K (MemoryCache.Entry V) := ∅
  lruList : List (Node K) := []
  stats : CacheStats := {}
  nextNode : NodeId := 0
  faults : MemoryCache.Faults := {}

namespace MemoryCache

variable {K V : Type} [DecidableEq K]

def isExpiredUnlocked (entry : Entry V) (now : Time) : Bool := expired entry.expireTime now

def computeExpireTime (config : Config) (ttl : Option Millis) (now : Time) : Deadline :=
  let effectiveTtl := ttl.getD (config.defaultTtl.getD 0)
  if effectiveTtl ≤ 0 then ⊤ else (Time.after now (effectiveTtl * 1000000) : Deadline)

def addBytes (c : MemoryCache K V) (size : SizeT) : MemoryCache K V :=
  { c with
    stats := { c.stats with totalBytes := c.stats.totalBytes + size }
    faults := { c.faults with
      wrappedUp := c.faults.wrappedUp || 2 ^ 64 ≤ c.stats.totalBytes.toNat + size.toNat } }

def subBytes (c : MemoryCache K V) (size : SizeT) : MemoryCache K V :=
  { c with
    stats := { c.stats with totalBytes := c.stats.totalBytes - size }
    faults := { c.faults with
      wrappedDown := c.faults.wrappedDown || c.stats.totalBytes < size } }

/-- `splice` of the node the iterator refers to. -/
def touchUnlocked (c : MemoryCache K V) (listIt : NodeId) : MemoryCache K V :=
  match Recency.find Node.id listIt c.lruList with
  | none => c
  | some node => { c with lruList := Recency.moveToFront Node.id node c.lruList }

omit [DecidableEq K] in
theorem touchUnlocked_entries (c : MemoryCache K V) (listIt : NodeId) :
    (c.touchUnlocked listIt).entries = c.entries := by
  unfold touchUnlocked
  split <;> rfl

omit [DecidableEq K] in
theorem touchUnlocked_config (c : MemoryCache K V) (listIt : NodeId) :
    (c.touchUnlocked listIt).config = c.config := by
  unfold touchUnlocked
  split <;> rfl

def evictEntryUnlocked (c : MemoryCache K V) (key : K) (entry : Entry V) : MemoryCache K V :=
  let c := { c with lruList := Recency.without Node.id entry.listIt c.lruList }
  let c := c.subBytes entry.size
  { c with
    stats := { c.stats with evictionCount := c.stats.evictionCount + 1 }
    entries := c.entries.erase key }

def evictLruUnlocked (c : MemoryCache K V) : MemoryCache K V :=
  match c.lruList.getLast? with
  | none => c
  | some node =>
      match c.entries.lookup node.key with
      | some entry => c.evictEntryUnlocked node.key entry
      | none =>
          { c with
            stats := { c.stats with evictionCount := c.stats.evictionCount + 1 }
            lruList := c.lruList.dropLast
            faults := { c.faults with orphan := true } }

/-- The two bounds the eviction loop tests. -/
def overLimit (c : MemoryCache K V) (incomingSize : SizeT) : Bool :=
  let overEntries := c.config.maxEntries.toNat ≤ c.entries.size
  let overBytes := 0 < c.config.maxBytes ∧ c.config.maxBytes < c.stats.totalBytes + incomingSize
  overEntries ∨ overBytes

/-- The loop of `evictToFitUnlocked`, with a bound on its passes. -/
def evictLoop (incomingSize : SizeT) : Nat → MemoryCache K V → MemoryCache K V
  | 0, c => c
  | fuel + 1, c =>
      if c.entries.size ≠ 0 ∧ c.overLimit incomingSize then
        evictLoop incomingSize fuel c.evictLruUnlocked
      else
        c

/-- Each pass takes a node off the list, so the length of the list bounds the passes. -/
def evictToFitUnlocked (c : MemoryCache K V) (incomingSize : SizeT) : MemoryCache K V :=
  evictLoop incomingSize c.lruList.length c

def missed (c : MemoryCache K V) : MemoryCache K V :=
  { c with stats := { c.stats with missCount := c.stats.missCount + 1 } }

def hit (c : MemoryCache K V) : MemoryCache K V :=
  { c with stats := { c.stats with hitCount := c.stats.hitCount + 1 } }

/-- The body of `get`, and of the loop of `getMany`. -/
def lookupUnlocked (c : MemoryCache K V) (key : K) (now : Time) : Option V × MemoryCache K V :=
  match c.entries.lookup key with
  | none => (none, c.missed)
  | some entry =>
      if isExpiredUnlocked entry now then
        (none, (c.evictEntryUnlocked key entry).missed)
      else
        (some entry.value, (c.touchUnlocked entry.listIt).hit)

def get (c : MemoryCache K V) (key : K) (now : Time) : Result (Option V) × MemoryCache K V :=
  let (value, c) := c.lookupUnlocked key now
  (.ok value, c)

/-- The entry after its key is put again. -/
def Entry.updated (entry : Entry V) (value : V) (size : SizeT) (expireTime : Deadline) : Entry V :=
  { entry with value, size, expireTime, accessCount := entry.accessCount + 1 }

/-- The branch of `put` for a key that is present. -/
def overwriteUnlocked (c : MemoryCache K V) (key : K) (entry : Entry V) (value : V)
    (entrySize : SizeT) (expireTime : Deadline) : MemoryCache K V :=
  let c := c.subBytes entry.size
  let c := { c with entries := c.entries.insert key (entry.updated value entrySize expireTime) }
  let c := c.touchUnlocked entry.listIt
  c.addBytes entrySize

/-- The branch of `put` for a new key. -/
def insertUnlocked (c : MemoryCache K V) (key : K) (value : V) (entrySize : SizeT)
    (expireTime : Deadline) : MemoryCache K V :=
  let c := c.evictToFitUnlocked entrySize
  let listIt := c.nextNode
  let c := { c with lruList := ⟨listIt, key⟩ :: c.lruList, nextNode := listIt + 1 }
  let c := c.addBytes entrySize
  { c with
    entries := c.entries.insert key
      { value, size := entrySize, expireTime, accessCount := 1, listIt } }

/-- The body of `put` under its deadline, and of the loop of `putMany`. -/
def storeUnlocked (c : MemoryCache K V) (key : K) (value : V) (entrySize : SizeT)
    (expireTime : Deadline) : MemoryCache K V :=
  match c.entries.lookup key with
  | some entry => c.overwriteUnlocked key entry value entrySize expireTime
  | none => c.insertUnlocked key value entrySize expireTime

def put (estimateSize : V → SizeT) (c : MemoryCache K V) (key : K) (value : V)
    (ttl : Option Millis) (now : Time) : Result Unit × MemoryCache K V :=
  let expireTime := computeExpireTime c.config ttl now
  (.ok (), c.storeUnlocked key value (estimateSize value) expireTime)

def remove (c : MemoryCache K V) (key : K) : Result Unit × MemoryCache K V :=
  match c.entries.lookup key with
  | none => (.error ⟨.notFound, "Cache key not found"⟩, c)
  | some entry => (.ok (), c.evictEntryUnlocked key entry)

def contains (c : MemoryCache K V) (key : K) (now : Time) : Result Bool × MemoryCache K V :=
  match c.entries.lookup key with
  | none => (.ok false, c)
  | some entry =>
      if isExpiredUnlocked entry now then
        (.ok false, c.evictEntryUnlocked key entry)
      else
        (.ok true, c)

def clear (c : MemoryCache K V) : Result Unit × MemoryCache K V :=
  (.ok (), { c with
    entries := ∅
    lruList := []
    stats := { c.stats with totalBytes := 0 } })

/-- The loop of `getMany`; `emplace` keeps the value a repeated key already has in the result. -/
def getManyLoop : List (K × Time) → UnorderedMap K V → MemoryCache K V →
    UnorderedMap K V × MemoryCache K V
  | [], result, c => (result, c)
  | (key, now) :: keys, result, c =>
      match c.lookupUnlocked key now with
      | (none, c) => getManyLoop keys result c
      | (some value, c) =>
          getManyLoop keys (if key ∈ result then result else result.insert key value) c

def getMany (c : MemoryCache K V) (keys : List (K × Time)) :
    Result (UnorderedMap K V) × MemoryCache K V :=
  let (result, c) := getManyLoop keys ∅ c
  (.ok result, c)

/-- The entries are listed in the order the loop visits them. -/
def putMany (estimateSize : V → SizeT) (c : MemoryCache K V) (entries : List (K × V))
    (ttl : Option Millis) (now : Time) : Result Unit × MemoryCache K V :=
  let expireTime := computeExpireTime c.config ttl now
  (.ok (), entries.foldl
    (fun c entry => c.storeUnlocked entry.1 entry.2 (estimateSize entry.2) expireTime) c)

inductive Op (K V : Type) where
  | get (key : K) (now : Time)
  | put (key : K) (value : V) (ttl : Option Millis) (now : Time)
  | remove (key : K)
  | contains (key : K) (now : Time)
  | clear
  | getMany (keys : List (K × Time))
  | putMany (entries : List (K × V)) (ttl : Option Millis) (now : Time)

def exec (estimateSize : V → SizeT) (c : MemoryCache K V) : Op K V → Reply K V × MemoryCache K V
  | .get key now => (c.get key now).map .value id
  | .put key value ttl now => (c.put estimateSize key value ttl now).map .done id
  | .remove key => (c.remove key).map .done id
  | .contains key now => (c.contains key now).map .found id
  | .clear => c.clear.map .done id
  | .getMany keys => (c.getMany keys).map .values id
  | .putMany entries ttl now => (c.putMany estimateSize entries ttl now).map .done id

def step (estimateSize : V → SizeT) (c : MemoryCache K V) (op : Op K V) : MemoryCache K V :=
  (c.exec estimateSize op).2

/-- The class behind the interface. `visit` is the order in which a loop goes over a map. -/
abbrev toICache (estimateSize : V → SizeT) (visit : UnorderedMap K V → List K) : ICache K V where
  State := MemoryCache K V
  get := get
  put := put estimateSize
  remove := fun c key _ => c.remove key
  contains := contains
  clear := fun c _ => c.clear
  getMany := fun c keys now => c.getMany (keys.map fun key => (key, now))
  putMany := fun c entries ttl now =>
    let ordered := (visit entries).filterMap fun key => (entries.lookup key).map fun v => (key, v)
    c.putMany estimateSize ordered ttl now

/-- The readings of the clock a call makes. -/
def Op.readings : Op K V → List Time
  | .get _ now => [now]
  | .put _ _ _ now => [now]
  | .contains _ now => [now]
  | .getMany keys => keys.map (·.2)
  | .putMany _ _ now => [now]
  | _ => []

/-- The clock does not go back during the calls. -/
def ClockNondecreasing (ops : List (Op K V)) : Prop :=
  (ops.flatMap Op.readings).Pairwise (· ≤ ·)

instance (ops : List (Op K V)) : Decidable (ClockNondecreasing ops) :=
  inferInstanceAs (Decidable ((ops.flatMap Op.readings).Pairwise (· ≤ ·)))

end MemoryCache

end SoulCoreKit.Cache
