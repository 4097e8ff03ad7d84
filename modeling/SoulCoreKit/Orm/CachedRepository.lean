import SoulCoreKit.Cache.ICache
import SoulCoreKit.Lib.Run

/-!
# The cached repository

`orm::CachedRepository` over a delegate and a cache. The delegate is what it holds, an entity for an id,
and how each call to it comes out is an argument: a single write that fails leaves it as it is, a batch
that fails has been applied to a prefix of its argument. The cache is any class that implements the
interface. All that a call asks of the cache is asked at one reading of the clock.
-/

namespace SoulCoreKit.Orm

open SoulCoreKit.Cache

variable {T Id : Type} [DecidableEq Id]

/-- What a repository holds. -/
abbrev Contents (T Id : Type) := Id → Option T

/-- How `saveBatch` comes out: the entities up to the failure, as they were saved. -/
structure SaveOutcome (entities : List T) where
  saved : List T
  failure : Option Error
  length_le : saved.length ≤ entities.length
  complete : failure = none → saved.length = entities.length

/-- How `removeBatch` comes out: the number of ids up to the failure. -/
structure RemoveOutcome (ids : List Id) where
  removed : Nat
  failure : Option Error
  le_length : removed ≤ ids.length
  complete : failure = none → removed = ids.length

namespace Contents

variable (idOf : T → Id) (contents : Contents T Id)

/-- `findById` of the delegate, with the failure of the call if it fails. -/
def findById (notFound : Id → Error) (failure : Option Error) (id : Id) : Result T :=
  match failure with
  | some error => .error error
  | none =>
      match contents id with
      | some entity => .ok entity
      | none => .error (notFound id)

def store (saved : T) : Contents T Id := Function.update contents (idOf saved) (some saved)

def storeAll (saved : List T) : Contents T Id := saved.foldl (store idOf) contents

def erase (id : Id) : Contents T Id := Function.update contents id none

def eraseAll (ids : List Id) : Contents T Id := ids.foldl erase contents

/-- `IRepository::saveBatch`, where a class does not override it: what `save` returns for each entity
beside it. -/
def saveBatch : List (T × Result T) → List T → Contents T Id → Result (List T) × Contents T Id
  | [], saved, contents => (.ok saved, contents)
  | (_, .error error) :: _, _, contents => (.error error, contents)
  | (_, .ok entity) :: rest, saved, contents =>
      saveBatch rest (saved ++ [entity]) (store idOf contents entity)

/-- `IRepository::removeBatch`, where a class does not override it: the failure of `removeById` for each
id beside it. -/
def removeBatch : List (Id × Option Error) → Contents T Id → Result Unit × Contents T Id
  | [], contents => (.ok (), contents)
  | (_, some error) :: _, contents => (.error error, contents)
  | (id, none) :: rest, contents => removeBatch rest (erase contents id)

end Contents

/-- A call, with how the delegate's part of it comes out. -/
inductive RepoCall (T Id : Type) where
  | findById (id : Id) (failure : Option Error)
  | save (entity : T) (outcome : Result T)
  | removeById (id : Id) (failure : Option Error)
  | saveBatch (entities : List T) (outcome : SaveOutcome entities)
  | removeBatch (ids : List Id) (outcome : RemoveOutcome ids)

/-- The decorator, and beside it the time of the last call. -/
structure CachedRepository (T Id : Type) (cls : ICache Id T) where
  mDelegate : Contents T Id
  mCache : cls.State
  clock : Time

namespace CachedRepository

variable {cls : ICache Id T} (idOf : T → Id) (notFound : Id → Error) (mIdExtractor : Option (T → Id))
  (mTtl : Millis) (r : CachedRepository T Id cls)

/-- An answer of the cache that is not a value, a failure of the cache included, is a miss. -/
def findById (id : Id) (failure : Option Error) (now : Time) : Result T × CachedRepository T Id cls :=
  match cls.get r.mCache id now with
  | (.ok (some entity), cache) => (.ok entity, { r with mCache := cache, clock := now })
  | (_, cache) =>
      match r.mDelegate.findById notFound failure id with
      | .error error => (.error error, { r with mCache := cache, clock := now })
      | .ok value =>
          (.ok value, { r with mCache := (cls.put cache id value (some mTtl) now).2, clock := now })

def save (outcome : Result T) (now : Time) : Result T × CachedRepository T Id cls :=
  match outcome with
  | .error error => (.error error, { r with clock := now })
  | .ok saved =>
      let mDelegate := r.mDelegate.store idOf saved
      match mIdExtractor with
      | none => (.ok saved, { r with mDelegate, clock := now })
      | some extract =>
          let mCache := (cls.put r.mCache (extract saved) saved (some mTtl) now).2
          (.ok saved, { r with mDelegate, mCache, clock := now })

def removeById (id : Id) (failure : Option Error) (now : Time) :
    Result Unit × CachedRepository T Id cls :=
  match failure with
  | some error => (.error error, { r with clock := now })
  | none =>
      let mDelegate := r.mDelegate.erase id
      let mCache := (cls.remove r.mCache id now).2
      (.ok (), { r with mDelegate, mCache, clock := now })

/-- The batch is forwarded, and the cache is not told. -/
def saveBatch {entities : List T} (outcome : SaveOutcome entities) (now : Time) :
    Result (List T) × CachedRepository T Id cls :=
  let mDelegate := r.mDelegate.storeAll idOf outcome.saved
  match outcome.failure with
  | some error => (.error error, { r with mDelegate, clock := now })
  | none => (.ok outcome.saved, { r with mDelegate, clock := now })

def removeBatch (ids : List Id) (outcome : RemoveOutcome ids) (now : Time) :
    Result Unit × CachedRepository T Id cls :=
  let mDelegate := r.mDelegate.eraseAll (ids.take outcome.removed)
  match outcome.failure with
  | some error => (.error error, { r with mDelegate, clock := now })
  | none =>
      let mCache := ids.foldl (fun cache id => (cls.remove cache id now).2) r.mCache
      (.ok (), { r with mDelegate, mCache, clock := now })

/-- One call at a time. -/
def step (r : CachedRepository T Id cls) : Time × RepoCall T Id → CachedRepository T Id cls
  | (now, .findById id failure) => (r.findById notFound mTtl id failure now).2
  | (now, .save _ outcome) => (r.save idOf mIdExtractor mTtl outcome now).2
  | (now, .removeById id failure) => (r.removeById id failure now).2
  | (now, .saveBatch _ outcome) => (r.saveBatch idOf outcome now).2
  | (now, .removeBatch ids outcome) => (r.removeBatch ids outcome now).2

/-- The clock has not gone back. -/
def Timely (r : CachedRepository T Id cls) (label : Time × RepoCall T Id) : Prop := r.clock ≤ label.1

instance (r : CachedRepository T Id cls) (label : Time × RepoCall T Id) : Decidable (r.Timely label) :=
  inferInstanceAs (Decidable (r.clock ≤ label.1))

end CachedRepository

end SoulCoreKit.Orm

/-! ### The query result cache

`orm::QueryResultCache` with the lists of keys it keeps for each table. A key is text, and its table is
what stands before its first colon. A clock reading is an argument of the call that makes it;
`evictExpired` reads the clock at each entry it visits, so it is told the keys in the order of the visit
with a reading for each. -/

namespace SoulCoreKit.Orm

open SoulCoreKit.Cache (Time Millis)

structure CacheEntry (T : Type) where
  value : T
  createdAt : Time
  ttl : Millis
  deriving DecidableEq, Repr

def CacheEntry.isExpired {T : Type} (entry : CacheEntry T) (now : Time) : Bool :=
  if entry.ttl ≤ 0 then false else now > Time.after entry.createdAt (entry.ttl * 1000000)

structure QueryResultCache (T : Type) where
  defaultTtl : Millis := 0
  cache : UnorderedMap String (CacheEntry T) := ∅
  tableKeys : UnorderedMap String (List String) := ∅

namespace QueryResultCache

variable {T : Type}

def extractTableName (key : String) : String :=
  if ':' ∈ key.toList then String.ofList (key.toList.takeWhile (· ≠ ':')) else ""

def put (c : QueryResultCache T) (key : String) (value : T) (ttl : Option Millis) (now : Time) :
    QueryResultCache T :=
  let entry : CacheEntry T := { value, createdAt := now, ttl := ttl.getD c.defaultTtl }
  let c := { c with cache := c.cache.insert key entry }
  let tableName := extractTableName key
  if tableName ≠ "" then
    let keys := (c.tableKeys.lookup tableName).getD []
    { c with tableKeys := c.tableKeys.insert tableName (keys ++ [key]) }
  else
    c

def get (c : QueryResultCache T) (key : String) (now : Time) : Option T :=
  match c.cache.lookup key with
  | none => none
  | some entry => if entry.isExpired now then none else some entry.value

def invalidate (c : QueryResultCache T) (key : String) : QueryResultCache T :=
  { c with cache := c.cache.erase key }

def invalidateTable (c : QueryResultCache T) (tableName : String) : QueryResultCache T :=
  match c.tableKeys.lookup tableName with
  | none => c
  | some keys =>
      { c with
        cache := keys.foldl (fun cache key => cache.erase key) c.cache
        tableKeys := c.tableKeys.erase tableName }

def clear (c : QueryResultCache T) : QueryResultCache T := { c with cache := ∅, tableKeys := ∅ }

/-- One pass of the loop of `evictExpired`. -/
def evictVisited (c : QueryResultCache T) (key : String) (now : Time) : QueryResultCache T :=
  match c.cache.lookup key with
  | none => c
  | some entry => if entry.isExpired now then { c with cache := c.cache.erase key } else c

def evictExpired (c : QueryResultCache T) (visits : List (String × Time)) : QueryResultCache T :=
  visits.foldl (fun c visit => c.evictVisited visit.1 visit.2) c

inductive Op (T : Type) where
  | put (key : String) (value : T) (ttl : Option Millis) (now : Time)
  | get (key : String) (now : Time)
  | invalidate (key : String)
  | invalidateTable (tableName : String)
  | evictExpired (visits : List (String × Time))
  | clear

def step (c : QueryResultCache T) : Op T → QueryResultCache T
  | .put key value ttl now => c.put key value ttl now
  | .get _ _ => c
  | .invalidate key => c.invalidate key
  | .invalidateTable tableName => c.invalidateTable tableName
  | .evictExpired visits => c.evictExpired visits
  | .clear => c.clear

end QueryResultCache

end SoulCoreKit.Orm
