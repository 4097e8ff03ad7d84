import SoulCoreKit.Core.Result

/-!
# The database connection pool

`data::DefaultDbConnectionPool`. A driver is a `unique_ptr`, so it has one owner; it is named by the
number of drivers the factory made before it. Whether a driver is connected, what the factory makes and
what the clock reads is told by the environment of the call.

A call of `acquire` that finds the pool full gives up the lock and waits. It is a sequence of attempts:
one that ends in `waits` leaves the lock to others, and the call goes on with a wake-up, after which the
source starts over with `acquire(0)`.
-/

namespace SoulCoreKit.Data

abbrev Driver := Nat

/-- A driver as it leaves the factory, and what `open` answers on it. -/
structure Made where
  isConnected : Bool := false
  openResult : Result Unit := .ok ()

/-- `factory` is told the name the driver will have. -/
structure Environment where
  isConnected : Driver → Bool := fun _ => true
  factory : Driver → Option Made := fun _ => some {}
  now : Int := 0

structure DefaultDbConnectionPool where
  mMinSize : Int := 2
  mMaxSize : Int := 10
  mTotalCount : Int := 0
  mActiveCount : Int := 0
  mIdleTimeoutMs : Int := 300000
  mIdleConnections : List Driver := []
  mLastUsedTimes : List Int := []
  made : Nat := 0
  deriving DecidableEq, Repr

/-- What an attempt to acquire a connection comes to. -/
inductive Attempt where
  | acquired (driver : Driver)
  | failed (error : Error)
  | waits
  deriving DecidableEq, Repr

/-- `if (count > 0) count--`. -/
def decremented (count : Int) : Int := if count > 0 then count - 1 else count

def Made.isUsable (made : Made) : Bool := made.isConnected || made.openResult.isOk

namespace DefaultDbConnectionPool

variable (env : Environment) (p : DefaultDbConnectionPool)

/-- The loop over the idle connections, taken from the back of the vector: the connection found, the
connections left and the total. -/
def takeIdle : List Driver → Int → Option Driver × List Driver × Int
  | [], total => (none, [], total)
  | conn :: rest, total =>
      if env.isConnected conn then (some conn, rest, total) else takeIdle rest (decremented total)

/-- The branch of `acquire` below the capacity. -/
def create : Attempt × DefaultDbConnectionPool :=
  match env.factory p.made with
  | none => (.failed ⟨.databaseError, "Failed to create connection"⟩, p)
  | some made =>
      let driver := p.made
      let p := { p with made := p.made + 1 }
      if made.isUsable then
        (.acquired driver,
          { p with mTotalCount := p.mTotalCount + 1, mActiveCount := p.mActiveCount + 1 })
      else
        (.failed ⟨.databaseError, "Failed to create connection"⟩, p)

def acquire (timeoutMs : Int) : Attempt × DefaultDbConnectionPool :=
  match takeIdle env p.mIdleConnections.reverse p.mTotalCount with
  | (some conn, rest, total) =>
      (.acquired conn,
        { p with
          mIdleConnections := rest.reverse
          mTotalCount := total
          mActiveCount := p.mActiveCount + 1 })
  | (none, rest, total) =>
      let p := { p with mIdleConnections := rest.reverse, mTotalCount := total }
      if p.mTotalCount < p.mMaxSize then
        p.create env
      else if timeoutMs ≥ 0 then
        (.waits, p)
      else
        (.failed ⟨.resourceExhausted, "Connection pool exhausted"⟩, p)

/-- The condition a waiting call tests. -/
def isAvailable : Bool := !p.mIdleConnections.isEmpty || p.mTotalCount < p.mMaxSize

/-- The end of a wait: nothing is available at the deadline, or the call starts over. -/
def wakeUp : Attempt × DefaultDbConnectionPool :=
  (if p.isAvailable then .waits else .failed ⟨.timeout, "Connection pool acquire timeout"⟩, p)

def release : Option Driver → DefaultDbConnectionPool
  | none => p
  | some driver =>
      let p := { p with mActiveCount := decremented p.mActiveCount }
      if env.isConnected driver then
        { p with
          mIdleConnections := p.mIdleConnections ++ [driver]
          mLastUsedTimes := p.mLastUsedTimes ++ [env.now] }
      else
        { p with mTotalCount := decremented p.mTotalCount }

def closeAll : DefaultDbConnectionPool :=
  { p with mIdleConnections := [], mLastUsedTimes := [], mTotalCount := 0, mActiveCount := 0 }

/-- Whether `healthCheck` removes an idle connection; `times` are the times from its own on. -/
def shouldRemove (conn : Driver) (times : List Int) (total : Int) : Bool :=
  if ¬ env.isConnected conn then
    true
  else if p.mIdleTimeoutMs > 0 then
    match times.head? with
    | none => false
    | some time => (env.now - time).tdiv 1000000 > p.mIdleTimeoutMs && total > p.mMinSize
  else
    false

/-- The first loop of `healthCheck`: the connections and times that stay, and the total. There are at
least as many times as connections, so the two iterators move together. -/
def sweep : List Driver → List Int → Int → List Driver × List Int × Int
  | [], times, total => ([], times, total)
  | conn :: rest, times, total =>
      if p.shouldRemove env conn times total then
        sweep rest times.tail (decremented total)
      else
        let (conns, kept, total) := sweep rest times.tail total
        (conn :: conns, times.take 1 ++ kept, total)

def addIdle : DefaultDbConnectionPool :=
  { p with
    mIdleConnections := p.mIdleConnections ++ [p.made]
    mLastUsedTimes := p.mLastUsedTimes ++ [env.now]
    mTotalCount := p.mTotalCount + 1
    made := p.made + 1 }

/-- The second loop of `healthCheck`, which does not look at the result of `open`. Every pass adds to
the total, which bounds the passes. -/
def refill : Nat → DefaultDbConnectionPool → DefaultDbConnectionPool
  | 0, p => p
  | passes + 1, p =>
      if p.mTotalCount < p.mMinSize then
        match env.factory p.made with
        | none => p
        | some _ => refill passes (p.addIdle env)
      else
        p

def healthCheck : DefaultDbConnectionPool :=
  let (conns, times, total) := p.sweep env p.mIdleConnections p.mLastUsedTimes p.mTotalCount
  let p := { p with mIdleConnections := conns, mLastUsedTimes := times, mTotalCount := total }
  refill env (p.mMinSize - p.mTotalCount).toNat p

/-- The loop of `initialize`, for the passes that are left. -/
def initializeLoop : Nat → DefaultDbConnectionPool → Bool × DefaultDbConnectionPool
  | 0, p => (true, p)
  | passes + 1, p =>
      match env.factory p.made with
      | none => (false, p)
      | some made =>
          if made.isUsable then
            initializeLoop passes (p.addIdle env)
          else
            (false, { p with made := p.made + 1 })

/-- `initialize`, a word Lean keeps for itself. -/
def initializePool : Bool × DefaultDbConnectionPool :=
  initializeLoop env (p.mMinSize - p.mTotalCount).toNat p

end DefaultDbConnectionPool

/-! ### The pool and its users -/

inductive PoolOp where
  | acquire (timeoutMs : Int) (env : Environment)
  | wakeUp
  | release (driver : Option Driver) (env : Environment)
  | healthCheck (env : Environment)
  | initializePool (env : Environment)
  | closeAll

/-- The drivers that were handed out and not released yet are kept beside the pool. -/
structure PoolUsers where
  pool : DefaultDbConnectionPool
  outstanding : List Driver := []
  deriving DecidableEq, Repr

namespace PoolUsers

def handOut (s : PoolUsers) : Attempt × DefaultDbConnectionPool → PoolUsers
  | (.acquired driver, pool) => { pool, outstanding := s.outstanding ++ [driver] }
  | (_, pool) => { s with pool }

def step (s : PoolUsers) : PoolOp → PoolUsers
  | .acquire timeoutMs env => s.handOut (s.pool.acquire env timeoutMs)
  | .wakeUp => s.handOut s.pool.wakeUp
  | .release driver env =>
      { pool := s.pool.release env driver
        outstanding := driver.elim s.outstanding s.outstanding.erase }
  | .healthCheck env => { s with pool := s.pool.healthCheck env }
  | .initializePool env => { s with pool := (s.pool.initializePool env).2 }
  | .closeAll => { s with pool := s.pool.closeAll }

def start (minSize maxSize : Int) : PoolUsers :=
  { pool := { mMinSize := minSize, mMaxSize := maxSize } }

/-- A caller releases what it was handed out. -/
def Owns (s : PoolUsers) : PoolOp → Prop
  | .release (some driver) _ => driver ∈ s.outstanding
  | _ => True

instance (s : PoolUsers) : ∀ op, Decidable (s.Owns op)
  | .release (some driver) _ => inferInstanceAs (Decidable (driver ∈ s.outstanding))
  | .release none _ | .acquire _ _ | .wakeUp | .healthCheck _ | .initializePool _ | .closeAll =>
      isTrue trivial

end PoolUsers

end SoulCoreKit.Data
