import SoulCoreKit.Core.Result
import Mathlib.Logic.Function.Basic

/-!
# The scaffold

`sc::Scaffold`: the modules of an application are sorted by their dependencies and priorities,
initialised and started in that order, and torn down in the reverse order. A module is a pointer of
type `P`, and `info` is what its `name`, `dependsOn` and `priority` return. The arrays of the sort are
functions of the index; an index of `-1` is `none`.
-/

namespace SoulCoreKit.Core

structure Module where
  name : String
  dependsOn : List String := []
  priority : Int := 0
  deriving DecidableEq, Repr

variable {P : Type}

/-! ### `topoSortWithPriority` -/

section TopoSort

variable (info : P → Module)

/-- What `nameToIdx` holds for a name after the loop over the modules from the `i`-th on: a later
module of the same name replaces an earlier one. -/
def nameToIdx (i : Nat) (modules : List P) (name : String) : Option Nat :=
  match modules with
  | [] => none
  | module :: rest =>
      match nameToIdx (i + 1) rest name with
      | some idx => some idx
      | none => if (info module).name = name then some i else none

structure Graph where
  graph : Nat → List Nat := fun _ => []
  indegree : Nat → Nat := fun _ => 0

/-- The loop over the dependencies of the `i`-th module. -/
def addDependencies (find : String → Option Nat) (i : Nat) (g : Graph) : List String → Option Graph
  | [] => some g
  | dep :: rest =>
      match find dep with
      | none => none
      | some idx =>
          addDependencies find i
            { graph := Function.update g.graph idx (g.graph idx ++ [i])
              indegree := Function.update g.indegree i (g.indegree i + 1) } rest

def buildGraph (find : String → Option Nat) (i : Nat) (g : Graph) : List P → Option Graph
  | [] => some g
  | module :: rest =>
      match addDependencies find i g (info module).dependsOn with
      | none => none
      | some g => buildGraph find (i + 1) g rest

/-- `bestIdx == -1 || p > bestPriority`. -/
def better (p : Int) : Option (Nat × Int) → Bool
  | none => true
  | some (_, bestPriority) => decide (p > bestPriority)

/-- The scan for the candidate of the highest priority, from the `i`-th module on. -/
def scanBest (visited : Nat → Bool) (indegree : Nat → Nat) (i : Nat) (best : Option (Nat × Int)) :
    List P → Option (Nat × Int)
  | [] => best
  | module :: rest =>
      let p := (info module).priority
      scanBest visited indegree (i + 1)
        (if !visited i && indegree i == 0 && better p best then some (i, p) else best) rest

/-- `if (indegree[next] > 0) --indegree[next]`, for every successor. -/
def release (indegree : Nat → Nat) : List Nat → Nat → Nat
  | [] => indegree
  | next :: rest =>
      release
        (if indegree next > 0 then Function.update indegree next (indegree next - 1) else indegree)
        rest

structure SortState where
  result : List Nat := []
  visited : Nat → Bool := fun _ => false
  indegree : Nat → Nat

def SortState.place (s : SortState) (graph : Nat → List Nat) (bestIdx : Nat) : SortState :=
  { result := s.result ++ [bestIdx]
    visited := Function.update s.visited bestIdx true
    indegree := release s.indegree (graph bestIdx) }

/-- The `while` loop. Every pass adds one module to the result, so the number of passes that are left
is the number of modules that are not in it. -/
def sortLoop (modules : List P) (graph : Nat → List Nat) : Nat → SortState → Option (List Nat)
  | 0, s => some s.result
  | left + 1, s =>
      match scanBest info s.visited s.indegree 0 none modules with
      | none => none
      | some (bestIdx, _) => sortLoop modules graph left (s.place graph bestIdx)

/-- The positions of the modules in the order of the result; nothing for an unknown or circular
dependency. -/
def sortedIndices (modules : List P) : Option (List Nat) :=
  match buildGraph info (nameToIdx info 0 modules) 0 {} modules with
  | none => none
  | some g => sortLoop info modules g.graph modules.length { indegree := g.indegree }

def topoSortWithPriority (modules : List P) : List P :=
  match sortedIndices info modules with
  | none => []
  | some order => order.filterMap fun idx => modules[idx]?

end TopoSort

/-! ### `run` and `shutdown` -/

inductive Hook where
  | init
  | onStart
  | onStop
  | cleanup
  deriving DecidableEq, Repr

/-- A call of a hook. It is `ok` when the hook returned an ok result, or returned at all. -/
structure Event (P : Type) where
  hook : Hook
  module : P
  ok : Bool
  deriving DecidableEq, Repr

/-- What the modules and the event loop do. A hook is told how many hooks were called before it. -/
structure Outcomes (P : Type) where
  isEnabled : P → Bool
  init : Nat → P → Result Unit
  onStart : Nat → P → Result Unit
  onStop : Nat → P → Except String Unit
  cleanup : Nat → P → Except String Unit
  exec : Int

/-- The hooks called for one call of `run`, in order: by it, and by the `shutdown` that ends it. -/
structure RunLog (P : Type) where
  enabled : List P
  events : List (Event P)

namespace Scaffold

inductive State where
  | uninitialized
  | running
  | shutdown
  deriving DecidableEq, Repr

end Scaffold

/-- The `log` is not read. -/
structure Scaffold (P : Type) where
  mModules : List P
  mSortedModules : List P := []
  mInitialized : Bool := false
  mState : Scaffold.State := .uninitialized
  log : List (RunLog P) := []

namespace Scaffold

/-- A loop that calls one hook of each module, exceptions caught. -/
def callEach (hook : Hook) (outcome : Nat → P → Except String Unit) (events : List (Event P)) :
    List P → List (Event P)
  | [] => events
  | module :: rest =>
      callEach hook outcome
        (events ++ [⟨hook, module, (outcome events.length module).toBool⟩]) rest

/-- The loop over `init`: whether every module was initialised, the modules that were, and the hooks
called. -/
def initLoop (o : Outcomes P) (initialized : List P) (events : List (Event P)) :
    List P → Bool × List P × List (Event P)
  | [] => (true, initialized, events)
  | module :: rest =>
      match o.init events.length module with
      | .error _ =>
          (false, initialized,
            callEach .cleanup o.cleanup (events ++ [⟨.init, module, false⟩]) initialized.reverse)
      | .ok _ => initLoop o (initialized ++ [module]) (events ++ [⟨.init, module, true⟩]) rest

/-- The loop over `onStart`. -/
def startLoop (o : Outcomes P) (initialized started : List P) (events : List (Event P)) :
    List P → Bool × List (Event P)
  | [] => (true, events)
  | module :: rest =>
      match o.onStart events.length module with
      | .error _ =>
          let events := events ++ [⟨.onStart, module, false⟩]
          let events := callEach .onStop o.onStop events started.reverse
          (false, callEach .cleanup o.cleanup events initialized.reverse)
      | .ok _ =>
          startLoop o initialized (started ++ [module]) (events ++ [⟨.onStart, module, true⟩]) rest

def run (info : P → Module) (s : Scaffold P) (o : Outcomes P) : Int × Scaffold P :=
  if s.mState ≠ .uninitialized then
    (-1, s)
  else
    let enabledModules := s.mModules.filter o.isEnabled
    let sorted := topoSortWithPriority info enabledModules
    if sorted.isEmpty ∧ ¬ enabledModules.isEmpty then
      (-1, { s with log := s.log ++ [⟨enabledModules, []⟩] })
    else
      let s := { s with mSortedModules := sorted }
      match initLoop o [] [] sorted with
      | (false, _, events) => (-1, { s with log := s.log ++ [⟨enabledModules, events⟩] })
      | (true, initializedModules, events) =>
          match startLoop o initializedModules [] events initializedModules with
          | (false, events) => (-1, { s with log := s.log ++ [⟨enabledModules, events⟩] })
          | (true, events) =>
              (o.exec, { s with
                mInitialized := true
                mState := .running
                log := s.log ++ [⟨enabledModules, events⟩] })

/-- The loop of `shutdown`. -/
def stopAndCleanup (o : Outcomes P) (events : List (Event P)) : List P → List (Event P)
  | [] => events
  | module :: rest =>
      let events := events ++ [⟨.onStop, module, (o.onStop events.length module).toBool⟩]
      let events := events ++ [⟨.cleanup, module, (o.cleanup events.length module).toBool⟩]
      stopAndCleanup o events rest

/-- The hooks of a shutdown are logged with the run they end. -/
def extendLog (f : List (Event P) → List (Event P)) : List (RunLog P) → List (RunLog P)
  | [] => []
  | [last] => [{ last with events := f last.events }]
  | first :: next :: rest => first :: extendLog f (next :: rest)

def shutdown (s : Scaffold P) (o : Outcomes P) : Scaffold P :=
  if ¬ s.mInitialized then
    s
  else
    { s with
      log := extendLog (fun events => stopAndCleanup o events s.mSortedModules.reverse) s.log
      mInitialized := false
      mState := .shutdown }

/-- `~Scaffold`. -/
def destroy (s : Scaffold P) (o : Outcomes P) : Scaffold P := s.shutdown o

inductive Action (P : Type) where
  | run (outcomes : Outcomes P)
  | shutdown (outcomes : Outcomes P)

def step (info : P → Module) (s : Scaffold P) : Action P → Scaffold P
  | .run o => (s.run info o).2
  | .shutdown o => s.shutdown o

end Scaffold

end SoulCoreKit.Core
