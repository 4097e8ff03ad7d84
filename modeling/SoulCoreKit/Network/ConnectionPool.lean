import SoulCoreKit.Lib.Run
import SoulCoreKit.Lib.UnorderedMap

/-!
# The pool of network connections

`network::ConnectionPool`. A connection object is named by the number of objects the factory returned
before it, so the factory returns a fresh one each time. `acquire` gives up the lock twice, while it
waits for a release and while it creates a connection; the pieces between are separate functions, and
any number of calls may stand at either place. Whether a connection is connected, what the clock reads
and the order in which a loop visits `m_pools` is told by the environment of the step.
-/

namespace SoulCoreKit.Network

abbrev Connection := Nat

structure ConnectionEntry where
  connection : Option Connection
  inUse : Bool
  lastUsedTime : UInt64
  deriving DecidableEq, Repr

structure ConnectionPoolConfig where
  maxConnections : Int := 10
  idleTimeoutMs : Int := 30000
  deriving DecidableEq, Repr

structure PoolEnvironment where
  isConnected : Connection → Bool := fun _ => true
  now : UInt64 := 0
  order : List String := []

structure ConnectionPool where
  mPools : UnorderedMap String (List ConnectionEntry) := ∅
  mConfig : ConnectionPoolConfig := {}

namespace ConnectionEntry

/-- The entry that is reserved for a connection under creation. -/
def placeholder : ConnectionEntry := ⟨none, true, 0⟩

def isPlaceholder (entry : ConnectionEntry) : Bool := entry.inUse && entry.connection.isNone

/-- The entry is idle and its connection is connected. -/
def isUsable (env : PoolEnvironment) (entry : ConnectionEntry) : Bool :=
  !entry.inUse && entry.connection.any env.isConnected

def taken (env : PoolEnvironment) (entry : ConnectionEntry) : ConnectionEntry :=
  { entry with inUse := true, lastUsedTime := env.now }

def filled (env : PoolEnvironment) (connection : Connection) (entry : ConnectionEntry) :
    ConnectionEntry :=
  { entry with connection := some connection, lastUsedTime := env.now }

def returned (env : PoolEnvironment) (entry : ConnectionEntry) : ConnectionEntry :=
  { entry with inUse := false, lastUsedTime := env.now }

/-- The test of `cleanupIdleConnections`, in unsigned arithmetic. -/
def isExpired (env : PoolEnvironment) (idleTimeoutMs : Int) (entry : ConnectionEntry) : Bool :=
  !entry.inUse && env.now - entry.lastUsedTime > UInt64.ofInt idleTimeoutMs

end ConnectionEntry

open ConnectionEntry

/-- The first entry that passes the test is changed. -/
def changeFirst (test : ConnectionEntry → Bool) (change : ConnectionEntry → ConnectionEntry)
    (pool : List ConnectionEntry) : List ConnectionEntry :=
  pool.replaceF fun entry => if test entry then some (change entry) else none

/-- What the first piece of `acquire` comes to. -/
inductive Entered where
  | acquired (connection : Connection)
  | waits
  | creates
  deriving DecidableEq, Repr

namespace ConnectionPool

variable (env : PoolEnvironment) (p : ConnectionPool)

def countTotalLocked : Nat := UnorderedMap.total (fun _ pool => pool.length) p.mPools

def countActiveLocked : Nat :=
  UnorderedMap.total (fun _ pool => pool.countP ConnectionEntry.inUse) p.mPools

def idleCount : Nat := p.countTotalLocked - p.countActiveLocked

/-- A connection taken from the pool of the key, and the pool afterwards. -/
def tryAcquireFromPool (pool : List ConnectionEntry) : Option (Connection × List ConnectionEntry) := do
  let entry ← pool.find? (isUsable env)
  let connection ← entry.connection
  return (connection, changeFirst (isUsable env) (taken env) pool)

/-- `m_pools[key] = pool`. -/
def setPool (key : String) (pool : List ConnectionEntry) : ConnectionPool :=
  { p with mPools := p.mPools.insert key pool }

/-- `acquire` until it returns, waits or gives up the lock to create a connection. `m_pools[key]` makes
an empty pool where there is none. -/
def acquire (key : String) : Entered × ConnectionPool :=
  let pool := (p.mPools.lookup key).getD []
  match tryAcquireFromPool env pool with
  | some (connection, pool) => (.acquired connection, p.setPool key pool)
  | none =>
      let p := p.setPool key pool
      if p.mConfig.maxConnections ≤ p.countTotalLocked then
        (.waits, p)
      else
        (.creates, p.setPool key (pool ++ [placeholder]))

/-- `acquire` after the wait, with the connection it returns. -/
def acquireWoken (key : String) (timedOut : Bool) : Option Connection × ConnectionPool :=
  if timedOut then
    (none, p)
  else
    match p.mPools.lookup key with
    | none => (none, p)
    | some pool =>
        match tryAcquireFromPool env pool with
        | none => (none, p)
        | some (connection, pool) => (some connection, p.setPool key pool)

/-- `acquire` after the creation, with the connection it returns. -/
def acquireCreated (key : String) (network : Option Connection) :
    Option Connection × ConnectionPool :=
  match p.mPools.lookup key, network with
  | none, network => (network, p)
  | some pool, none => (none, p.setPool key (pool.eraseP isPlaceholder))
  | some pool, some connection =>
      if pool.any isPlaceholder then
        (some connection, p.setPool key (changeFirst isPlaceholder (filled env connection) pool))
      else
        (some connection, p.setPool key (pool ++ [⟨some connection, true, env.now⟩]))

/-- The entry holds the connection. -/
def holds (connection : Connection) (entry : ConnectionEntry) : Bool :=
  entry.connection = some connection

/-- The loops of `release` stop at the first entry of the connection. -/
def release (connection : Connection) : ConnectionPool :=
  match env.order.find? fun key => ((p.mPools.lookup key).getD []).any (holds connection) with
  | none => p
  | some key =>
      p.setPool key
        (changeFirst (holds connection) (returned env) ((p.mPools.lookup key).getD []))

def closeAll : ConnectionPool := { p with mPools := ∅ }

/-- The loop of `cleanupIdleConnections` at one pool. -/
def cleanupPool (p : ConnectionPool) (key : String) : ConnectionPool :=
  match p.mPools.lookup key with
  | none => p
  | some pool =>
      p.setPool key (pool.filter fun entry => !isExpired env p.mConfig.idleTimeoutMs entry)

def cleanupIdleConnections : ConnectionPool := env.order.foldl (cleanupPool env) p

end ConnectionPool

/-! ### One caller -/

/-- What one caller does. `acquire` comes with what the environment tells at its first look, at the wake
from a wait that does not run out of time, and after a creation. -/
inductive PoolCall where
  | acquire (key : String) (env : PoolEnvironment) (woken : Option PoolEnvironment)
      (created : PoolEnvironment)
  | release (connection : Connection) (env : PoolEnvironment)
  | cleanupIdleConnections (env : PoolEnvironment)

/-- The pool between the calls, and the number of connections made. -/
structure PoolCaller where
  pool : ConnectionPool
  made : Nat := 0

namespace PoolCaller

variable (s : PoolCaller)

/-- `acquire` with nothing in between its pieces and a factory that succeeds. -/
def acquire (key : String) (env : PoolEnvironment) (woken : Option PoolEnvironment)
    (created : PoolEnvironment) : Option Connection × PoolCaller :=
  match s.pool.acquire env key with
  | (.acquired connection, pool) => (some connection, { s with pool })
  | (.waits, pool) =>
      match woken with
      | none => (none, { s with pool := (pool.acquireWoken env key true).2 })
      | some env =>
          ((pool.acquireWoken env key false).1, { s with pool := (pool.acquireWoken env key false).2 })
  | (.creates, pool) =>
      ((pool.acquireCreated created key (some s.made)).1,
        { pool := (pool.acquireCreated created key (some s.made)).2, made := s.made + 1 })

def step (s : PoolCaller) : PoolCall → PoolCaller
  | .acquire key env woken created => (s.acquire key env woken created).2
  | .release connection env => { s with pool := s.pool.release env connection }
  | .cleanupIdleConnections env => { s with pool := s.pool.cleanupIdleConnections env }

def start (config : ConnectionPoolConfig) : PoolCaller := { pool := { mConfig := config } }

end PoolCaller

/-! ### The threads -/

inductive PoolLabel where
  | acquire (thread : Nat) (key : String) (env : PoolEnvironment)
  | woken (thread : Nat) (key : String) (timedOut : Bool) (env : PoolEnvironment)
  | created (thread : Nat) (key : String) (succeeds : Bool) (env : PoolEnvironment)
  | release (thread : Nat) (connection : Connection) (env : PoolEnvironment)
  | cleanupIdleConnections (env : PoolEnvironment)
  | closeAll

/-- The calls of `acquire` that wait and that create, who holds which connection, and the number of
connections made. -/
structure PoolThreads where
  pool : ConnectionPool
  waiting : List (Nat × String) := []
  creating : List (Nat × String) := []
  held : List (Nat × Connection) := []
  made : Nat := 0

namespace PoolThreads

variable (s : PoolThreads)

/-- The thread holds the connection that `acquire` returned to it, if any. -/
def receive (thread : Nat) (connection : Option Connection) : PoolThreads :=
  { s with held := s.held ++ connection.toList.map fun connection => (thread, connection) }

def enter (thread : Nat) (key : String) : Entered → PoolThreads
  | .acquired connection => s.receive thread (some connection)
  | .waits => { s with waiting := s.waiting ++ [(thread, key)] }
  | .creates => { s with creating := s.creating ++ [(thread, key)] }

def step (s : PoolThreads) : PoolLabel → PoolThreads
  | .acquire thread key env =>
      let (entered, pool) := s.pool.acquire env key
      { s with pool }.enter thread key entered
  | .woken thread key timedOut env =>
      let (connection, pool) := s.pool.acquireWoken env key timedOut
      { s with pool, waiting := s.waiting.erase (thread, key) }.receive thread connection
  | .created thread key succeeds env =>
      let network := if succeeds then some s.made else none
      let (connection, pool) := s.pool.acquireCreated env key network
      { s with
        pool
        creating := s.creating.erase (thread, key)
        made := s.made + network.toList.length }.receive thread connection
  | .release thread connection env =>
      { s with
        pool := s.pool.release env connection
        held := s.held.erase (thread, connection) }
  | .cleanupIdleConnections env => { s with pool := s.pool.cleanupIdleConnections env }
  | .closeAll => { s with pool := s.pool.closeAll }

/-- A call goes on from where it stands, and a holder releases what it holds. -/
def Enabled : PoolLabel → Prop
  | .woken thread key _ _ => (thread, key) ∈ s.waiting
  | .created thread key _ _ => (thread, key) ∈ s.creating
  | .release thread connection _ => (thread, connection) ∈ s.held
  | _ => True

instance : ∀ label, Decidable (s.Enabled label)
  | .woken _ _ _ _ | .created _ _ _ _ | .release _ _ _ => inferInstanceAs (Decidable (_ ∈ _))
  | .acquire _ _ _ | .cleanupIdleConnections _ | .closeAll => isTrue trivial

def start (config : ConnectionPoolConfig) : PoolThreads := { pool := { mConfig := config } }

end PoolThreads

end SoulCoreKit.Network
