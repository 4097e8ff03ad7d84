import SoulCoreKit.Lib.UnorderedMap
import SoulCoreKit.Network.HttpClient

/-!
# The service registry and the load balancer

`rpc::InMemoryServiceRegistry` and `rpc::LoadBalancer`. Each method is one section under the lock, so what
any number of threads do with a registry or a balancer is a list of calls.
-/

namespace SoulCoreKit.Rpc

structure ServiceInstance where
  serviceName : String := ""
  host : String := ""
  port : Int := 0
  timestamp : Int := 0
  deriving DecidableEq, Repr

/-- `static_cast<int>` of the size of a list. -/
def intSize (instances : List ServiceInstance) : Int := (Int32.ofNat instances.length).toInt

theorem intSize_of_lt {instances : List ServiceInstance} (hshort : instances.length < 2 ^ 31) :
    intSize instances = instances.length :=
  Int32.toInt_ofNat_of_lt hshort

/-! ### The registry -/

structure InMemoryServiceRegistry where
  mRegistry : UnorderedMap String (List ServiceInstance) := ∅

namespace InMemoryServiceRegistry

variable (r : InMemoryServiceRegistry)

def registerInstance (inst : ServiceInstance) : InMemoryServiceRegistry where
  mRegistry := r.mRegistry.insert inst.serviceName ((r.mRegistry.lookup inst.serviceName).getD [] ++ [inst])

/-- The loop of `unregisterInstance`: what is left without the first instance of the address. -/
def removeFirst (instances : List ServiceInstance) (host : String) (port : Int) :
    Option (List ServiceInstance) :=
  let visited := instances.take (intSize instances).toNat
  (visited.findIdx? fun inst => inst.host = host ∧ inst.port = port).map instances.eraseIdx

/-- The rest of `unregisterInstance`, with what the loop left. -/
def keepLeft (serviceName : String) : Option (List ServiceInstance) → Result Unit × InMemoryServiceRegistry
  | none => (.error ⟨.notFound, "Instance not found"⟩, r)
  | some [] => (.ok (), ⟨r.mRegistry.erase serviceName⟩)
  | some left => (.ok (), ⟨r.mRegistry.insert serviceName left⟩)

def unregisterInstance (serviceName host : String) (port : Int) : Result Unit × InMemoryServiceRegistry :=
  match r.mRegistry.lookup serviceName with
  | none => (.error ⟨.notFound, "Service not found: " ++ serviceName⟩, r)
  | some instances => r.keepLeft serviceName (removeFirst instances host port)

def getInstances (serviceName : String) : List ServiceInstance := (r.mRegistry.lookup serviceName).getD []

end InMemoryServiceRegistry

inductive RegistryCall where
  | registerInstance (inst : ServiceInstance)
  | unregisterInstance (serviceName host : String) (port : Int)
  | getInstances (serviceName : String)
  deriving DecidableEq, Repr

/-- What a call returns, a list where it asks for one. -/
abbrev RegistryAnswer := Result (List ServiceInstance)

def InMemoryServiceRegistry.call (r : InMemoryServiceRegistry) :
    RegistryCall → RegistryAnswer × InMemoryServiceRegistry
  | .registerInstance inst => (.ok [], r.registerInstance inst)
  | .unregisterInstance serviceName host port =>
      let (result, r) := r.unregisterInstance serviceName host port
      (result.map fun _ => [], r)
  | .getInstances serviceName => (.ok (r.getInstances serviceName), r)

/-! ### The load balancer -/

structure LoadBalancer where
  mRoundRobin : Bool := true
  mCounter : Int := 0
  deriving DecidableEq

namespace LoadBalancer

/-- `QRandomGenerator::bounded` of a size, with the next word of the generator. -/
def bounded (sz : Int) (word : Nat) : Int := word % 2 ^ 32 * (sz % 2 ^ 32) / 2 ^ 32

/-- The place that is chosen; the counter may overflow. -/
def nextPlace (b : LoadBalancer) (sz : Int) (word : Nat) : Option (Int × LoadBalancer) :=
  if b.mRoundRobin then
    (Network.RetryPolicy.intValue (b.mCounter + 1)).map fun counter =>
      (b.mCounter.tmod sz, { b with mCounter := counter })
  else
    some (bounded sz word, b)

/-- `instances.at`, within bounds. -/
def at? (instances : List ServiceInstance) (place : Int) : Option ServiceInstance :=
  if place < 0 then none else instances[place.toNat]?

def select (b : LoadBalancer) (instances : List ServiceInstance) (word : Nat) :
    Option (ServiceInstance × LoadBalancer) :=
  if instances = [] then some ({}, b)
  else do
    let (place, b) ← b.nextPlace (intSize instances) word
    return (← at? instances place, b)

def setRoundRobin (b : LoadBalancer) : LoadBalancer := { b with mRoundRobin := true }

def setRandom (b : LoadBalancer) : LoadBalancer := { b with mRoundRobin := false }

end LoadBalancer

inductive BalancerCall where
  | select (instances : List ServiceInstance) (word : Nat)
  | setRoundRobin
  | setRandom

end SoulCoreKit.Rpc
