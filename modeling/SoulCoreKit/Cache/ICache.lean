import Mathlib.Algebra.Group.Nat.Defs
import Mathlib.Order.WithBot
import SoulCoreKit.Core.Result
import SoulCoreKit.Lib.UnorderedMap

/-!
# The cache interface

The types every cache level shares, and the interface a cache of levels calls them through. Clock
readings are whole numbers of nanoseconds and TTLs whole numbers of milliseconds. A deadline is a
clock reading, or `⊤` for `time_point::max()`, which no reading exceeds. The steady clock counts in
64 bits, so the sum of a reading and a TTL of more than some 292 years wraps.
-/

namespace SoulCoreKit.Cache

/-- `std::size_t` of the 64-bit targets. -/
abbrev SizeT := UInt64

abbrev Time := Int

abbrev Millis := Int

abbrev Deadline := WithTop Int

instance : Preorder Deadline := @WithTop.instPreorder Int Int.instLinearOrder.toPreorder

/-- A reading and a positive duration, added in 64 bits: the sum can only overflow upwards. -/
def Time.after (now : Time) (nanos : Int) : Time :=
  if now + nanos < 2 ^ 63 then now + nanos else (now + nanos).bmod (2 ^ 64)

theorem Time.after_of_lt {now : Time} {nanos : Int} (hfits : now + nanos < 2 ^ 63) :
    Time.after now nanos = now + nanos :=
  if_pos hfits

theorem Time.after_le (now : Time) (nanos : Int) : Time.after now nanos ≤ now + nanos := by
  unfold Time.after
  split_ifs with hfits
  · exact le_rfl
  · have hbmod : (now + nanos).bmod (2 ^ 64) < 2 ^ 63 := Int.bmod_lt (by decide)
    exact hbmod.le.trans (not_lt.mp hfits)

structure CacheStats where
  hitCount : SizeT := 0
  missCount : SizeT := 0
  evictionCount : SizeT := 0
  totalBytes : SizeT := 0
  deriving DecidableEq, Repr

/-- What a call returns: `get`, the calls without a value, `contains` and `getMany`. -/
inductive Reply (K V : Type) where
  | value (result : Result (Option V))
  | done (result : Result Unit)
  | found (result : Result Bool)
  | values (result : Result (UnorderedMap K V))

/-- A class that implements the interface. The reading of the clock at the call is its last argument;
whatever else a call depends on is part of the state. -/
structure ICache (K V : Type) where
  State : Type
  get : State → K → Time → Result (Option V) × State
  put : State → K → V → Option Millis → Time → Result Unit × State
  remove : State → K → Time → Result Unit × State
  contains : State → K → Time → Result Bool × State
  clear : State → Time → Result Unit × State
  getMany : State → List K → Time → Result (UnorderedMap K V) × State
  putMany : State → UnorderedMap K V → Option Millis → Time → Result Unit × State

inductive Call (K V : Type) where
  | get (key : K)
  | put (key : K) (value : V) (ttl : Option Millis)
  | remove (key : K)
  | contains (key : K)
  | clear
  | getMany (keys : List K)
  | putMany (entries : UnorderedMap K V) (ttl : Option Millis)

/-- A call and the time it is made. -/
structure Timed (K V : Type) where
  now : Time
  call : Call K V

namespace ICache

variable {K V : Type}

def exec (cls : ICache K V) (state : cls.State) : Timed K V → Reply K V × cls.State
  | ⟨now, .get key⟩ => (cls.get state key now).map .value id
  | ⟨now, .put key value ttl⟩ => (cls.put state key value ttl now).map .done id
  | ⟨now, .remove key⟩ => (cls.remove state key now).map .done id
  | ⟨now, .contains key⟩ => (cls.contains state key now).map .found id
  | ⟨now, .clear⟩ => (cls.clear state now).map .done id
  | ⟨now, .getMany keys⟩ => (cls.getMany state keys now).map .values id
  | ⟨now, .putMany entries ttl⟩ => (cls.putMany state entries ttl now).map .done id

def step (cls : ICache K V) (state : cls.State) (label : Timed K V) : cls.State :=
  (cls.exec state label).2

end ICache

/-- The reading is past the deadline. -/
def expired : Deadline → Time → Bool
  | ⊤, _ => false
  | (deadline : Int), now => deadline < now

theorem expired_iff_lt {deadline : Deadline} {now : Time} :
    expired deadline now = true ↔ deadline < (now : Deadline) := by
  cases deadline using WithTop.recTopCoe with
  | top =>
      change false = true ↔ _
      simp
  | coe deadline =>
      change decide (deadline < now) = true ↔ _
      rw [decide_eq_true_iff, WithTop.coe_lt_coe]

theorem expired_mono {deadline : Deadline} {now later : Time} (hle : now ≤ later)
    (hexpired : expired deadline now = true) : expired deadline later = true := by
  rw [expired_iff_lt] at hexpired ⊢
  exact hexpired.trans_le (WithTop.coe_le_coe.mpr hle)

end SoulCoreKit.Cache
