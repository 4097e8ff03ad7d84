import SoulCoreKit.Cache.DiskCache
import SoulCoreKit.Storage.MemoryCache

/-!
# The disk cache of the storage module

`sc::DiskCache` of `storage/cache.cpp`, a class of its own beside `cache::DiskCache`. The data file of a
key stands in a sub-directory of the cache directory named after the first two digits of its SHA-256
digest; the digest is a function of the key. A `.ttl` file is found under the path of its data file; its
content is the number it spells, or nothing when it spells none. The clock is read in whole seconds.

What a call meets outside is an argument: the clock and which file operations succeed, once for the
call itself and once for each pass of `evict`, told by the number of keys the pass starts with. A file
that opens is read or written in full. Files may also disappear between two calls.

Two flags are recorded that no branch reads: a subtraction from `m_currentSize` went below zero, and a
call locked `m_mutex` while it held it, after which it does not return.
-/

namespace SoulCoreKit.Storage

open Cache (Bytes SizeT)

/-- A file below the cache directory; no sub-directory for a file of the cache directory itself. -/
structure CachePath where
  subDir : List Char
  fileName : List Char
  deriving DecidableEq, Repr

namespace DiskCache

/-- The clock and the file operations a call, or one pass of its eviction, meets. -/
structure Env where
  now : Seconds := 0
  mkpath : Bool := true
  openData : Bool := true
  openTtl : Bool := true
  removeData : Bool := true
  removeTtl : Bool := true

end DiskCache

structure DiskCache (Key : Type) where
  cacheDir : String := "cache"
  maxSize : SizeT := 1024 * 1024 * 100
  currentSize : SizeT := 0
  entrySizes : UnorderedMap Key SizeT := ∅
  lruList : List Key := []
  files : CachePath → Option Bytes := fun _ => none
  ttlFiles : CachePath → Option (Option Int) := fun _ => none
  wrapped : Bool := false
  relocked : Bool := false

namespace DiskCache

variable {Key : Type} [DecidableEq Key] (hash : Key → List Char)

def getFilePath (key : Key) : CachePath := ⟨(hash key).take 2, (hash key).drop 2⟩

def dirText (c : DiskCache Key) (path : CachePath) : String :=
  c.cacheDir ++ "/" ++ String.ofList path.subDir

def pathText (c : DiskCache Key) (path : CachePath) : String :=
  c.dirText path ++ "/" ++ String.ofList path.fileName

def isExpired (c : DiskCache Key) (key : Key) (env : Env) : Bool :=
  match c.ttlFiles (getFilePath hash key) with
  | none => false
  | some content =>
      if ¬ env.openTtl then
        false
      else
        match content with
        | none => false
        | some expiry => env.now > expiry

def subtractSize (c : DiskCache Key) (size : SizeT) : DiskCache Key :=
  { c with
    currentSize := c.currentSize - size
    wrapped := c.wrapped || decide (c.currentSize < size) }

/-- The entry of a key leaves `m_entrySizes` and the counter. -/
def eraseSize (c : DiskCache Key) (key : Key) : DiskCache Key :=
  match c.entrySizes.lookup key with
  | none => c
  | some size => { c.subtractSize size with entrySizes := c.entrySizes.erase key }

def unlist (c : DiskCache Key) (key : Key) : DiskCache Key :=
  { c with lruList := c.lruList.filter (· ≠ key) }

/-- `QFile::remove` of a data file that exists, with its result. -/
def removeData (c : DiskCache Key) (path : CachePath) (env : Env) : Bool × DiskCache Key :=
  if (c.files path).isSome ∧ env.removeData then
    (true, { c with files := Function.update c.files path none })
  else
    (false, c)

def removeTtl (c : DiskCache Key) (path : CachePath) (env : Env) : DiskCache Key :=
  if env.removeTtl then
    { c with ttlFiles := Function.update c.ttlFiles path none }
  else
    c

/-- One pass of `evict` over the last key of the list. -/
def evictKey (c : DiskCache Key) (key : Key) (env : Env) : DiskCache Key :=
  let c := { c with lruList := c.lruList.dropLast }
  let filePath := getFilePath hash key
  let c := (c.removeData filePath env).2
  let c := c.removeTtl filePath env
  c.eraseSize key

/-- The loop of `evict`, with a bound on its passes. -/
def evictLoop (passes : Nat → Env) : Nat → DiskCache Key → DiskCache Key
  | 0, c => c
  | bound + 1, c =>
      match c.lruList.getLast? with
      | none => c
      | some key =>
          let env := passes c.lruList.length
          if c.isExpired hash key env then
            c.evictKey hash key env
          else
            evictLoop passes bound (c.evictKey hash key env)

/-- Each pass takes a key off the list, so its length bounds the passes. -/
def evict (c : DiskCache Key) (passes : Nat → Env) : DiskCache Key :=
  evictLoop hash passes c.lruList.length c

/-- The first part of a put: the old size is taken off the counter, but the entry stays. -/
def forgetSize (c : DiskCache Key) (key : Key) : DiskCache Key :=
  match c.entrySizes.lookup key with
  | none => c
  | some size => (c.subtractSize size).unlist key

def makeRoom (c : DiskCache Key) (size : SizeT) (passes : Nat → Env) : DiskCache Key :=
  if c.currentSize + size > c.maxSize ∧ c.maxSize > 0 then c.evict hash passes else c

/-- The `.ttl` file of a put; its expiry is computed with the TTL cast to `int`. -/
def writeTtl (c : DiskCache Key) (path : CachePath) (ttl : Seconds) (env : Env) : DiskCache Key :=
  if ttl > 0 ∧ env.openTtl then
    let expiry := env.now + (Int32.ofInt ttl).toInt
    { c with ttlFiles := Function.update c.ttlFiles path (some (some expiry)) }
  else
    c

def recordSize (c : DiskCache Key) (key : Key) (size : SizeT) : DiskCache Key :=
  { c with
    entrySizes := c.entrySizes.insert key size
    currentSize := c.currentSize + size
    lruList := key :: c.lruList }

def putTtl (c : DiskCache Key) (key : Key) (value : Bytes) (ttl : Seconds) (env : Env)
    (passes : Nat → Env) : Result Unit × DiskCache Key :=
  let filePath := getFilePath hash key
  if ¬ env.mkpath then
    (.error ⟨.internalError, "Cannot create cache directory: " ++ c.dirText filePath⟩, c)
  else
    let size := UInt64.ofNat value.length
    let c := c.forgetSize key
    let c := c.makeRoom hash size passes
    if ¬ env.openData then
      (.error ⟨.internalError, "Cannot open cache file: " ++ c.pathText filePath⟩, c)
    else
      let c := { c with files := Function.update c.files filePath (some value) }
      let c := c.writeTtl filePath ttl env
      (.ok (), c.recordSize key size)

def put (c : DiskCache Key) (key : Key) (value : Bytes) (env : Env) (passes : Nat → Env) :
    Result Unit × DiskCache Key :=
  c.putTtl hash key value 0 env passes

/-- No result when the call does not return. -/
def get (c : DiskCache Key) (key : Key) (env : Env) : Option (Result Bytes) × DiskCache Key :=
  let filePath := getFilePath hash key
  match c.files filePath with
  | none =>
      (some (.error ⟨.notFound, "Cache key not found"⟩),
        { c with entrySizes := c.entrySizes.erase key }.unlist key)
  | some data =>
      if c.isExpired hash key env then
        -- `remove(key)` locks the mutex that `get` holds.
        (none, { c with relocked := true })
      else if ¬ env.openData then
        (some (.error ⟨.internalError, "Cannot open cache file: " ++ c.pathText filePath⟩), c)
      else
        (some (.ok data), { c.unlist key with lruList := key :: (c.unlist key).lruList })

def contains (c : DiskCache Key) (key : Key) (env : Env) : Bool :=
  match c.files (getFilePath hash key) with
  | none => false
  | some _ => !c.isExpired hash key env

def remove (c : DiskCache Key) (key : Key) (env : Env) : Result Unit × DiskCache Key :=
  let filePath := getFilePath hash key
  let c := (c.eraseSize key).unlist key
  let (removed, c) := c.removeData filePath env
  let c := c.removeTtl filePath env
  if ¬ removed then
    (.error ⟨.notFound, "Cache key not found"⟩, c)
  else
    (.ok (), c)

theorem remove_snd (c : DiskCache Key) (key : Key) (env : Env) :
    (c.remove hash key env).2 =
      (((c.eraseSize key).unlist key).removeData (getFilePath hash key) env).2.removeTtl
        (getFilePath hash key) env := by
  unfold remove
  dsimp only
  split <;> rfl

/-- `entryList` of the cache directory: its own files, without the hidden ones. -/
def listed (path : CachePath) : Bool := path.subDir = [] ∧ path.fileName.head? ≠ some '.'

/-- `removable` tells which of the listed files can be deleted. -/
def clear (c : DiskCache Key) (removable : CachePath → Bool) : DiskCache Key :=
  { c with
    files := fun path => if listed path ∧ removable path then none else c.files path
    entrySizes := ∅
    lruList := []
    currentSize := 0 }

/-- A call with what it meets outside, or the deletion of a file by somebody else. -/
inductive Op (Key : Type) where
  | put (key : Key) (value : Bytes) (env : Env) (passes : Nat → Env)
  | putTtl (key : Key) (value : Bytes) (ttl : Seconds) (env : Env) (passes : Nat → Env)
  | get (key : Key) (env : Env)
  | contains (key : Key) (env : Env)
  | remove (key : Key) (env : Env)
  | clear (removable : CachePath → Bool)
  | deleteData (path : CachePath)
  | deleteTtl (path : CachePath)

def step (c : DiskCache Key) : Op Key → DiskCache Key
  | .put key value env passes => (c.put hash key value env passes).2
  | .putTtl key value ttl env passes => (c.putTtl hash key value ttl env passes).2
  | .get key env => (c.get hash key env).2
  | .contains _ _ => c
  | .remove key env => (c.remove hash key env).2
  | .clear removable => c.clear removable
  | .deleteData path => { c with files := Function.update c.files path none }
  | .deleteTtl path => { c with ttlFiles := Function.update c.ttlFiles path none }

end DiskCache

end SoulCoreKit.Storage
