import SoulCoreKit.Cache.ICache
import SoulCoreKit.Lib.Run

/-!
# The disk cache

`cache::DiskCache` over a disk that maps data paths to contents. The path of a key is derived from its
SHA-256 hash, which is not part of the repository, so the path is a function of the key about which
nothing is assumed. A `.ttl` file is found under the path of its data file; its content is the number
it spells, or nothing when it spells none. A `.tmp` file is never read, so it is not kept.

What a call meets outside is an argument: the two clocks, the order in which a loop would visit
`m_lruIndex`, and which file operations fail. A deletion fails for a missing file in any case.
Counters are natural numbers: they count bytes of files that exist.
-/

namespace SoulCoreKit.Cache

abbrev Bytes := List UInt8

namespace DiskCache

structure Config where
  maxBytes : Nat := 1024 * 1024 * 1024
  defaultTtl : Option Millis := none
  deriving DecidableEq, Repr

/-- Which file operations of a call succeed. `rename` is told whether its target exists, and `stuck`
lists the files `clear` fails to delete. -/
structure Io (Path : Type) where
  mkpath : Bool := true
  openData : Bool := true
  openTtl : Bool := true
  writeTemp : Bool := true
  rename : Bool → Bool := fun _ => true
  removeData : Path → Bool := fun _ => true
  removeTtl : Path → Bool := fun _ => true
  writeTtl : Bool := true
  cacheDirExists : Bool := true
  stuck : List Path := []

/-- The outside of a call while it handles one key: the wall clock in milliseconds, the steady clock,
the visiting order of the index and the file operations. -/
structure Env (Path : Type) where
  wall : Millis
  steady : Time
  order : List Path := []
  io : Io Path := {}

end DiskCache

structure DiskCache (Path : Type) where
  config : DiskCache.Config
  files : UnorderedMap Path Bytes := ∅
  ttlFiles : UnorderedMap Path (Option Int) := ∅
  lruIndex : UnorderedMap Path Time := ∅
  hitCount : Nat := 0
  missCount : Nat := 0
  evictionCount : Nat := 0
  totalBytes : Nat := 0

namespace DiskCache

variable {Path : Type} [DecidableEq Path]

/-- The value as the `QByteArray` made from it with its size cast to `int`: a negative size means the
text up to the first zero byte. -/
def toQByteArray (value : Bytes) : Bytes :=
  let size : Int32 := Int32.ofNat value.length
  if size < 0 then value.takeWhile (· ≠ 0) else value.take size.toNatClampNeg

def readExpiryMSecs (c : DiskCache Path) (dataPath : Path) (env : Env Path) : Int :=
  match c.ttlFiles.lookup dataPath with
  | none => -1
  | some content => if env.io.openTtl then content.getD (-1) else -1

def dataSizeOnDisk (c : DiskCache Path) (dataPath : Path) : Nat :=
  match c.files.lookup dataPath with
  | none => 0
  | some data => data.length

def isExpired (c : DiskCache Path) (dataPath : Path) (env : Env Path) : Bool :=
  if dataPath ∉ c.ttlFiles then
    false
  else
    let expiry := c.readExpiryMSecs dataPath env
    if expiry < 0 then true else env.wall > expiry

/-- `recoverFromDiskUnlocked` over the data files in the order they are listed, each with its age
taken off the steady clock. -/
def recoverFromDiskUnlocked (c : DiskCache Path) (listing : List (Path × Time)) : DiskCache Path :=
  listing.foldl (fun c file =>
    { c with
      totalBytes := c.totalBytes + c.dataSizeOnDisk file.1
      lruIndex := c.lruIndex.insert file.1 file.2 }) c

/-- `std::min_element`: the first entry of the visiting order with the least time. -/
def oldest (lruIndex : UnorderedMap Path Time) : List Path → Option (Path × Time)
  | [] => none
  | path :: order =>
      match lruIndex.lookup path, oldest lruIndex order with
      | none, best => best
      | some time, none => some (path, time)
      | some time, some best => if best.2 < time then some best else some (path, time)

/-- The saturating subtraction that follows a deletion. -/
def subtractSize (c : DiskCache Path) (oldSize : Nat) : DiskCache Path :=
  if 0 < oldSize ∧ oldSize ≤ c.totalBytes then
    { c with totalBytes := c.totalBytes - oldSize }
  else
    c

/-- `QFile::remove` of a data file, with its result. -/
def removeData (c : DiskCache Path) (dataPath : Path) (env : Env Path) : Bool × DiskCache Path :=
  if dataPath ∈ c.files ∧ env.io.removeData dataPath then
    (true, { c with files := c.files.erase dataPath })
  else
    (false, c)

def removeTtl (c : DiskCache Path) (dataPath : Path) (env : Env Path) : DiskCache Path :=
  if env.io.removeTtl dataPath then
    { c with ttlFiles := c.ttlFiles.erase dataPath }
  else
    c

def evictLruUnlocked (c : DiskCache Path) (env : Env Path) : DiskCache Path :=
  match oldest c.lruIndex env.order with
  | none => c
  | some (dataPath, _) =>
      let oldSize := c.dataSizeOnDisk dataPath
      let (dataRemoved, c) := c.removeData dataPath env
      let c := c.removeTtl dataPath env
      let c :=
        if dataRemoved ∧ 0 < oldSize ∧ oldSize ≤ c.totalBytes then
          { c with
            totalBytes := c.totalBytes - oldSize
            evictionCount := c.evictionCount + 1 }
        else
          c
      { c with lruIndex := c.lruIndex.erase dataPath }

/-- The loop of `evictToFitUnlocked`, with a bound on its passes. -/
def evictLoop (incomingSize : Nat) (env : Env Path) : Nat → DiskCache Path → DiskCache Path
  | 0, c => c
  | fuel + 1, c =>
      if c.totalBytes + incomingSize > c.config.maxBytes ∧ c.lruIndex.size ≠ 0 then
        evictLoop incomingSize env fuel (c.evictLruUnlocked env)
      else
        c

/-- Each pass takes an entry off the index, so its size bounds the passes. -/
def evictToFitUnlocked (c : DiskCache Path) (incomingSize : Nat) (env : Env Path) :
    Bool × DiskCache Path :=
  if c.config.maxBytes = 0 then
    (true, c)
  else if incomingSize > c.config.maxBytes then
    (false, c)
  else
    let c := evictLoop incomingSize env c.lruIndex.size c
    (c.totalBytes + incomingSize ≤ c.config.maxBytes, c)

def touchUnlocked (c : DiskCache Path) (dataPath : Path) (env : Env Path) : DiskCache Path :=
  { c with lruIndex := c.lruIndex.insert dataPath env.steady }

def writeAtomically (c : DiskCache Path) (targetPath : Path) (data : Bytes) (env : Env Path) :
    Bool × DiskCache Path :=
  if env.io.writeTemp ∧ env.io.rename (targetPath ∈ c.files) then
    (true, { c with files := c.files.insert targetPath data })
  else
    (false, c)

def missed (c : DiskCache Path) : DiskCache Path := { c with missCount := c.missCount + 1 }

def hit (c : DiskCache Path) : DiskCache Path := { c with hitCount := c.hitCount + 1 }

/-- What the reading calls do with an expired key: the result of the deletion is not looked at. -/
def dropExpired (c : DiskCache Path) (dataPath : Path) (env : Env Path) : DiskCache Path :=
  let oldSize := c.dataSizeOnDisk dataPath
  let c := (c.removeData dataPath env).2
  let c := c.removeTtl dataPath env
  let c := c.subtractSize oldSize
  { c with lruIndex := c.lruIndex.erase dataPath }

variable {Key : Type} (keyToDataPath : Key → Path)

def get (c : DiskCache Path) (key : Key) (env : Env Path) : Result (Option Bytes) × DiskCache Path :=
  let dataPath := keyToDataPath key
  match c.files.lookup dataPath with
  | none => (.ok none, c.missed)
  | some data =>
      if c.isExpired dataPath env then
        (.ok none, (c.dropExpired dataPath env).missed)
      else if ¬ env.io.openData then
        (.error ⟨.internalError, "DiskCache: cannot open data file"⟩, c)
      else
        (.ok (some data), c.hit.touchUnlocked dataPath env)

/-- `addMSecs` and `toMSecsSinceEpoch`: Qt counts milliseconds in 64 bits, and a sum beyond them makes
the time invalid without changing its count. -/
def addMSecs (wall ttl : Millis) : Millis := if wall + ttl < 2 ^ 63 then wall + ttl else wall

/-- The body of `put` and of the loop of `putMany`, which differ in the text of one error. -/
def storeUnlocked (writeFailed : String) (c : DiskCache Path) (key : Key) (value : Bytes)
    (ttl : Option Millis) (env : Env Path) : Result Unit × DiskCache Path :=
  let dataPath := keyToDataPath key
  if ¬ env.io.mkpath then
    (.error ⟨.internalError, "DiskCache: cannot create directory"⟩, c)
  else
    let oldSize := c.dataSizeOnDisk dataPath
    let (fits, c) := c.evictToFitUnlocked value.length env
    if ¬ fits then
      (.error ⟨.internalError, "DiskCache: cache full, cannot evict enough space"⟩, c)
    else
      let (written, c) := c.writeAtomically dataPath (toQByteArray value) env
      if ¬ written then
        (.error ⟨.internalError, writeFailed⟩, c)
      else
        let c := c.subtractSize oldSize
        let c := { c with totalBytes := c.totalBytes + value.length }
        let c := c.touchUnlocked dataPath env
        let effectiveTtl := ttl.getD (c.config.defaultTtl.getD 0)
        if effectiveTtl > 0 then
          let expiry := addMSecs env.wall effectiveTtl
          if env.io.writeTtl then
            (.ok (), { c with ttlFiles := c.ttlFiles.insert dataPath (some expiry) })
          else
            (.ok (), c)
        else
          (.ok (), c.removeTtl dataPath env)

def put (c : DiskCache Path) (key : Key) (value : Bytes) (ttl : Option Millis) (env : Env Path) :
    Result Unit × DiskCache Path :=
  storeUnlocked keyToDataPath "DiskCache: atomic write failed" c key value ttl env

def remove (c : DiskCache Path) (key : Key) (env : Env Path) : Result Unit × DiskCache Path :=
  let dataPath := keyToDataPath key
  let oldSize := c.dataSizeOnDisk dataPath
  let (removed, c) := c.removeData dataPath env
  let c := if removed then c.subtractSize oldSize else c
  let c := c.removeTtl dataPath env
  let c := { c with lruIndex := c.lruIndex.erase dataPath }
  if ¬ removed then
    (.error ⟨.notFound, "DiskCache: key not found"⟩, c)
  else
    (.ok (), c)

def contains (c : DiskCache Path) (key : Key) (env : Env Path) : Result Bool × DiskCache Path :=
  let dataPath := keyToDataPath key
  if dataPath ∉ c.files then
    (.ok false, c)
  else if c.isExpired dataPath env then
    (.ok false, c.dropExpired dataPath env)
  else
    (.ok true, c.touchUnlocked dataPath env)

/-- The part of a map under the listed keys. -/
def restrict {V : Type} (m : UnorderedMap Path V) (paths : List Path) : UnorderedMap Path V :=
  paths.foldl (fun kept path =>
    match m.lookup path with
    | none => kept
    | some content => kept.insert path content) ∅

def clear (c : DiskCache Path) (env : Env Path) : Result Unit × DiskCache Path :=
  if ¬ env.io.cacheDirExists then
    (.ok (), c)
  else
    (.ok (), { c with
      files := restrict c.files env.io.stuck
      ttlFiles := restrict c.ttlFiles env.io.stuck
      totalBytes := 0
      lruIndex := ∅ })

/-- The loop of `getMany`; `emplace` keeps the value a repeated key already has in the result. -/
def getManyLoop [DecidableEq Key] : List (Key × Env Path) → UnorderedMap Key Bytes →
    DiskCache Path → UnorderedMap Key Bytes × DiskCache Path
  | [], result, c => (result, c)
  | (key, env) :: keys, result, c =>
      let dataPath := keyToDataPath key
      match c.files.lookup dataPath with
      | none => getManyLoop keys result c.missed
      | some data =>
          if c.isExpired dataPath env then
            getManyLoop keys result (c.dropExpired dataPath env).missed
          else if ¬ env.io.openData then
            getManyLoop keys result c.missed
          else
            getManyLoop keys (if key ∈ result then result else result.insert key data)
              (c.hit.touchUnlocked dataPath env)

def getMany [DecidableEq Key] (c : DiskCache Path) (keys : List (Key × Env Path)) :
    Result (UnorderedMap Key Bytes) × DiskCache Path :=
  let (result, c) := getManyLoop keyToDataPath keys ∅ c
  (.ok result, c)

/-- The entries are listed in the order the loop visits them; the first failure ends it. -/
def putMany (c : DiskCache Path) (entries : List (Key × Bytes × Env Path))
    (ttl : Option Millis) : Result Unit × DiskCache Path :=
  match entries with
  | [] => (.ok (), c)
  | (key, value, env) :: entries =>
      match storeUnlocked keyToDataPath "DiskCache: atomic write failed in putMany" c key value ttl
        env with
      | (.error error, c) => (.error error, c)
      | (.ok (), c) => putMany c entries ttl

inductive Op (Key Path : Type) where
  | get (key : Key) (env : Env Path)
  | put (key : Key) (value : Bytes) (ttl : Option Millis) (env : Env Path)
  | remove (key : Key) (env : Env Path)
  | contains (key : Key) (env : Env Path)
  | clear (env : Env Path)
  | getMany (keys : List (Key × Env Path))
  | putMany (entries : List (Key × Bytes × Env Path)) (ttl : Option Millis)

def exec [DecidableEq Key] (c : DiskCache Path) : Op Key Path → Reply Key Bytes × DiskCache Path
  | .get key env => (c.get keyToDataPath key env).map .value id
  | .put key value ttl env => (c.put keyToDataPath key value ttl env).map .done id
  | .remove key env => (c.remove keyToDataPath key env).map .done id
  | .contains key env => (c.contains keyToDataPath key env).map .found id
  | .clear env => (c.clear env).map .done id
  | .getMany keys => (c.getMany keyToDataPath keys).map .values id
  | .putMany entries ttl => (c.putMany keyToDataPath entries ttl).map .done id

def step [DecidableEq Key] (c : DiskCache Path) (op : Op Key Path) : DiskCache Path :=
  (c.exec keyToDataPath op).2

/-- The constructor: an empty cache over the files found, then the scan of the disk. -/
def opened (config : Config) (files : UnorderedMap Path Bytes)
    (ttlFiles : UnorderedMap Path (Option Int)) (listing : List (Path × Time)) : DiskCache Path :=
  recoverFromDiskUnlocked { config, files, ttlFiles } listing

end DiskCache

end SoulCoreKit.Cache
