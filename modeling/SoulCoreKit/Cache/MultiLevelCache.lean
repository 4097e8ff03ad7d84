import SoulCoreKit.Cache.DiskCache
import SoulCoreKit.Cache.ICache
import SoulCoreKit.Cache.MemoryCache

/-!
# The cache of levels

`cache::MultiLevelCache` asks its levels in order and copies what a lower level had into the levels
above it. A level is a shared pointer: the pointers are values of `ι`, the heap holds the state of
each cache they refer to, and nothing keeps a pointer from occurring twice. A call of the composite
makes all its calls to the levels at one reading of the clock.

The loop of `getMany` records, besides what the source computes, what each level answered.
-/

namespace SoulCoreKit.Cache.MultiLevelCache

variable {K V ι : Type} (object : ι → ICache K V)

/-- The states of the caches. -/
abbrev Heap := (level : ι) → (object level).State

variable [DecidableEq ι]

def invoke {R : Type} (heap : Heap object) (level : ι)
    (method : (object level).State → R × (object level).State) : R × Heap object :=
  ((method (heap level)).1, Function.update heap level (method (heap level)).2)

def backfillUpper (heap : Heap object) (upper : List ι) (key : K) (value : V) (now : Time) :
    Heap object :=
  upper.foldl
    (fun heap level =>
      (invoke object heap level fun state => (object level).put state key value none now).2)
    heap

def backfillUpperMany (heap : Heap object) (upper : List ι) (entries : UnorderedMap K V)
    (now : Time) : Heap object :=
  upper.foldl
    (fun heap level =>
      (invoke object heap level fun state => (object level).putMany state entries none now).2)
    heap

/-- The first level that has the key, with the value; a level that fails is passed over. -/
def firstHit (key : K) (now : Time) : List ι → Nat → Heap object → Option (Nat × V) × Heap object
  | [], _, heap => (none, heap)
  | level :: below, i, heap =>
      match invoke object heap level fun state => (object level).get state key now with
      | (.error _, heap) => firstHit key now below (i + 1) heap
      | (.ok none, heap) => firstHit key now below (i + 1) heap
      | (.ok (some value), heap) => (some (i, value), heap)

def get (levels : List ι) (heap : Heap object) (key : K) (now : Time) :
    Result (Option V) × Heap object :=
  match firstHit object key now levels 0 heap with
  | (none, heap) => (.ok none, heap)
  | (some (i, value), heap) =>
      (.ok (some value), backfillUpper object heap (levels.take i) key value now)

/-- The body of the loop of `put`, `clear` and `putMany`: an error replaces the one before it. -/
def tell (method : (level : ι) → (object level).State → Result Unit × (object level).State)
    (acc : Result Unit × Heap object) (level : ι) : Result Unit × Heap object :=
  match invoke object acc.2 level (method level) with
  | (.ok _, heap) => (acc.1, heap)
  | (.error error, heap) => (.error error, heap)

/-- A call made to every level. -/
def broadcast (method : (level : ι) → (object level).State → Result Unit × (object level).State)
    (levels : List ι) (heap : Heap object) : Result Unit × Heap object :=
  levels.foldl (tell object method) (.ok (), heap)

def put (levels : List ι) (heap : Heap object) (key : K) (value : V) (ttl : Option Millis)
    (now : Time) : Result Unit × Heap object :=
  broadcast object (fun level state => (object level).put state key value ttl now) levels heap

/-- A level that fails for another reason than the absence of the key ends the loop. -/
def remove (key : K) (now : Time) : List ι → Heap object → Result Unit × Heap object
  | [], heap => (.ok (), heap)
  | level :: below, heap =>
      match invoke object heap level fun state => (object level).remove state key now with
      | (.ok _, heap) => remove key now below heap
      | (.error error, heap) =>
          if error.code ≠ .notFound then (.error error, heap) else remove key now below heap

def contains (key : K) (now : Time) : List ι → Heap object → Result Bool × Heap object
  | [], heap => (.ok false, heap)
  | level :: below, heap =>
      match invoke object heap level fun state => (object level).contains state key now with
      | (.error _, heap) => contains key now below heap
      | (.ok false, heap) => contains key now below heap
      | (.ok true, heap) => (.ok true, heap)

def clear (levels : List ι) (heap : Heap object) (now : Time) : Result Unit × Heap object :=
  broadcast object (fun level state => (object level).clear state now) levels heap

def putMany (levels : List ι) (heap : Heap object) (entries : UnorderedMap K V)
    (ttl : Option Millis) (now : Time) : Result Unit × Heap object :=
  broadcast object (fun level state => (object level).putMany state entries ttl now) levels heap

variable [DecidableEq K]

/-- `emplace` of the hits among the remaining keys. -/
def collect (hits : UnorderedMap K V) (remaining : List K) (result : UnorderedMap K V) :
    UnorderedMap K V :=
  remaining.foldl
    (fun result key =>
      match hits.lookup key with
      | none => result
      | some value => if key ∈ result then result else result.insert key value)
    result

/-- What the loop of `getMany` has: the keys no level had yet, the result, the heap, and the answers
of the levels with their indices. -/
structure Scan where
  remaining : List K
  result : UnorderedMap K V := ∅
  heap : Heap object
  answers : List (Nat × UnorderedMap K V) := []

/-- The body of the loop of `getMany`. -/
def scanLevel (levels : List ι) (now : Time) (scan : Scan object) (i : Nat) (level : ι) :
    Scan object :=
  match invoke object scan.heap level fun state =>
      (object level).getMany state scan.remaining now with
  | (.error _, heap) => { scan with heap }
  | (.ok hits, heap) =>
      { remaining := scan.remaining.filter fun key => key ∉ hits
        result := collect hits scan.remaining scan.result
        heap :=
          if 0 < i ∧ hits.size ≠ 0 then backfillUpperMany object heap (levels.take i) hits now else heap
        answers := scan.answers ++ [(i, hits)] }

def getManyLoop (levels : List ι) (now : Time) : List ι → Nat → Scan object → Scan object
  | [], _, scan => scan
  | level :: below, i, scan =>
      if scan.remaining.isEmpty then scan
      else getManyLoop levels now below (i + 1) (scanLevel object levels now scan i level)

def getMany (levels : List ι) (heap : Heap object) (keys : List K) (now : Time) :
    Result (UnorderedMap K V) × Heap object :=
  let scan := getManyLoop object levels now levels 0 { remaining := keys, heap }
  (.ok scan.result, scan.heap)

/-- The composite is itself a cache. -/
abbrev toICache (levels : List ι) : ICache K V where
  State := Heap object
  get := get object levels
  put := put object levels
  remove := fun heap key now => remove object key now levels heap
  contains := fun heap key now => contains object key now levels heap
  clear := clear object levels
  getMany := getMany object levels
  putMany := putMany object levels

end SoulCoreKit.Cache.MultiLevelCache

/-! ### The classes of cache levels

The disk cache behind the interface, and a level that is a memory cache or a disk cache. What the disk
cache meets outside is part of the state behind the interface: for every key that its calls will handle,
the wall clock, the visiting order and which file operations fail. The steady clock is the reading the
call is made at. -/

namespace SoulCoreKit.Cache

variable {Key Path : Type}

/-- A disk cache with what its calls will meet. -/
structure DiskLevel (Path : Type) where
  cache : DiskCache Path
  outside : Nat → DiskCache.Env Path

namespace DiskLevel

def env (s : DiskLevel Path) (now : Time) (i : Nat) : DiskCache.Env Path :=
  { s.outside i with steady := now }

/-- The state after a call that handled `n` keys. -/
def after (s : DiskLevel Path) (n : Nat) (cache : DiskCache Path) : DiskLevel Path where
  cache := cache
  outside := fun i => s.outside (n + i)

variable [DecidableEq Key] [DecidableEq Path]

/-- The class behind the interface. `visit` is the order in which a loop goes over a map. -/
abbrev toICache (keyToDataPath : Key → Path) (visit : UnorderedMap Key Bytes → List Key) :
    ICache Key Bytes where
  State := DiskLevel Path
  get := fun s key now => (s.cache.get keyToDataPath key (s.env now 0)).map id (s.after 1)
  put := fun s key value ttl now =>
    (s.cache.put keyToDataPath key value ttl (s.env now 0)).map id (s.after 1)
  remove := fun s key now => (s.cache.remove keyToDataPath key (s.env now 0)).map id (s.after 1)
  contains := fun s key now => (s.cache.contains keyToDataPath key (s.env now 0)).map id (s.after 1)
  clear := fun s now => (s.cache.clear (s.env now 0)).map id (s.after 1)
  getMany := fun s keys now =>
    let visited := keys.zipIdx.map fun (key, i) => (key, s.env now i)
    (s.cache.getMany keyToDataPath visited).map id (s.after keys.length)
  putMany := fun s entries ttl now =>
    let ordered := (visit entries).filterMap fun key => (entries.lookup key).map fun v => (key, v)
    let visited := ordered.zipIdx.map fun ((key, value), i) => (key, value, s.env now i)
    (s.cache.putMany keyToDataPath visited ttl).map id (s.after ordered.length)

end DiskLevel

/-- The class of a level. -/
inductive LevelClass (Key Path : Type) where
  | memory (estimateSize : Bytes → SizeT) (visit : UnorderedMap Key Bytes → List Key)
  | disk (keyToDataPath : Key → Path) (visit : UnorderedMap Key Bytes → List Key)

variable [DecidableEq Key] [DecidableEq Path]

abbrev LevelClass.toICache : LevelClass Key Path → ICache Key Bytes
  | .memory estimateSize visit => MemoryCache.toICache estimateSize visit
  | .disk keyToDataPath visit => DiskLevel.toICache keyToDataPath visit

end SoulCoreKit.Cache
