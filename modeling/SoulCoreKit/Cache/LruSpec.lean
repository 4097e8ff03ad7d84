import SoulCoreKit.Cache.MemoryCache

/-!
# What a memory cache is for

A cache with limits and expiry is a list of entries, most recently used first. Reading an entry
before its deadline moves it to the front, reading it after its deadline loses it; putting a key that
is present replaces its entry; putting a new key first drops the shortest end of the list after which
the limits admit the new entry. Sizes are natural numbers.

The events of a run are what happens to keys apart from expiry: they are put, removed, cleared or
evicted. The latest of them determines what a read may return.
-/

namespace SoulCoreKit.Cache.Lru

open MemoryCache (Op)

structure Entry (K V : Type) where
  key : K
  value : V
  size : Nat
  deadline : Deadline

/-- The limits, where no byte limit is written as zero, how sizes are found, and the TTL of a put that
names none. -/
structure Policy (V : Type) where
  maxEntries : Nat
  maxBytes : Nat
  size : V → Nat
  defaultTtl : Option Millis

/-- A positive TTL ends that long after the put. Without one a value does not expire. -/
def Policy.deadline {V : Type} (p : Policy V) (ttl : Option Millis) (now : Time) : Deadline :=
  match ttl <|> p.defaultTtl with
  | some ttl => if 0 < ttl then ((now + ttl * 1000000 : Int) : Deadline) else ⊤
  | none => ⊤

variable {K V : Type} [DecidableEq K]

def bytes (l : List (Entry K V)) : Nat := (l.map Entry.size).sum

/-- Both limits admit an entry of the given size beside the list. -/
def Policy.admits (p : Policy V) (incoming : Nat) (l : List (Entry K V)) : Bool :=
  l.length < p.maxEntries ∧ (p.maxBytes = 0 ∨ bytes l + incoming ≤ p.maxBytes)

def read (l : List (Entry K V)) (key : K) (now : Time) : Option V × List (Entry K V) :=
  match Recency.find Entry.key key l with
  | none => (none, l)
  | some entry =>
      if expired entry.deadline now then
        (none, Recency.without Entry.key key l)
      else
        (some entry.value, Recency.moveToFront Entry.key entry l)

def readMany : List (K × Time) → UnorderedMap K V → List (Entry K V) →
    UnorderedMap K V × List (Entry K V)
  | [], result, l => (result, l)
  | (key, now) :: keys, result, l =>
      match read l key now with
      | (none, l) => readMany keys result l
      | (some value, l) =>
          readMany keys (if key ∈ result then result else result.insert key value) l

def Policy.store (p : Policy V) (deadline : Deadline) (l : List (Entry K V)) (pair : K × V) :
    List (Entry K V) :=
  let entry : Entry K V := ⟨pair.1, pair.2, p.size pair.2, deadline⟩
  match Recency.find Entry.key pair.1 l with
  | some _ => Recency.moveToFront Entry.key entry l
  | none => entry :: Recency.shrink (p.admits (p.size pair.2)) l

def Policy.exec (p : Policy V) (l : List (Entry K V)) : Op K V → Reply K V × List (Entry K V)
  | .get key now => (.value (.ok (read l key now).1), (read l key now).2)
  | .put key value ttl now => (.done (.ok ()), p.store (p.deadline ttl now) l (key, value))
  | .remove key =>
      match Recency.find Entry.key key l with
      | none => (.done (.error ⟨.notFound, "Cache key not found"⟩), l)
      | some _ => (.done (.ok ()), Recency.without Entry.key key l)
  | .contains key now =>
      match Recency.find Entry.key key l with
      | none => (.found (.ok false), l)
      | some entry =>
          if expired entry.deadline now then
            (.found (.ok false), Recency.without Entry.key key l)
          else
            (.found (.ok true), l)
  | .clear => (.done (.ok ()), [])
  | .getMany keys => (.values (.ok (readMany keys ∅ l).1), (readMany keys ∅ l).2)
  | .putMany entries ttl now => (.done (.ok ()), entries.foldl (p.store (p.deadline ttl now)) l)

def Policy.step (p : Policy V) (l : List (Entry K V)) (op : Op K V) : List (Entry K V) :=
  (p.exec l op).2

inductive Event (K V : Type) where
  | put (key : K) (value : V) (deadline : Deadline)
  | removed (key : K)
  | cleared
  | evicted (key : K)

def Policy.storeEvents (p : Policy V) (deadline : Deadline) (l : List (Entry K V)) (pair : K × V) :
    List (Event K V) :=
  match Recency.find Entry.key pair.1 l with
  | some _ => [.put pair.1 pair.2 deadline]
  | none =>
      (l.drop (Recency.shrink (p.admits (p.size pair.2)) l).length).map (.evicted ·.key) ++
        [.put pair.1 pair.2 deadline]

def Policy.storeManyEvents (p : Policy V) (deadline : Deadline) :
    List (Entry K V) → List (K × V) → List (Event K V)
  | _, [] => []
  | l, pair :: pairs =>
      p.storeEvents deadline l pair ++ p.storeManyEvents deadline (p.store deadline l pair) pairs

/-- The events of one call. -/
def Policy.events (p : Policy V) (l : List (Entry K V)) : Op K V → List (Event K V)
  | .put key value ttl now => p.storeEvents (p.deadline ttl now) l (key, value)
  | .remove key => [.removed key]
  | .clear => [.cleared]
  | .putMany entries ttl now => p.storeManyEvents (p.deadline ttl now) l entries
  | _ => []

/-- The events of a run. -/
def Policy.history (p : Policy V) : List (Entry K V) → List (Op K V) → List (Event K V)
  | _, [] => []
  | l, op :: ops => p.events l op ++ p.history (p.step l op) ops

/-- What an event makes of the latest put of a key. -/
def Event.update (key : K) (held : Option (V × Deadline)) : Event K V → Option (V × Deadline)
  | .put other value deadline => if other = key then some (value, deadline) else held
  | .removed other => if other = key then none else held
  | .cleared => none
  | .evicted other => if other = key then none else held

/-- The latest put of a key, if the key has not been removed, cleared or evicted since. -/
def latestPut (key : K) (history : List (Event K V)) : Option (V × Deadline) :=
  history.foldl (Event.update key) none

/-- The value a read returns for it: nothing once the deadline is past. -/
def served (put : Option (V × Deadline)) (now : Time) : Option V :=
  match put with
  | none => none
  | some (value, deadline) => if expired deadline now then none else some value

end SoulCoreKit.Cache.Lru
