import SoulCoreKit.Lib.Rotation
import SoulCoreKit.Lib.Run
import SoulCoreKit.Rpc.ServiceRegistry

/-!
# Calls of services

The registry answers as one list of all that is registered would. A balancer takes its turns through one
counter for all services, so a service has its share of the turns of its own instances only as far as the
calls for other services let it.
-/

namespace SoulCoreKit.Rpc

open SoulCoreKit.Lib

/-! ### The registry and one list -/

/-- What is registered, in the order of the calls. -/
abbrev Directory := List ServiceInstance

namespace Directory

variable (d : Directory)

def ofService (serviceName : String) : List ServiceInstance :=
  List.filter (fun inst => inst.serviceName = serviceName) d

def call (d : Directory) : RegistryCall → RegistryAnswer × Directory
  | .registerInstance inst => (.ok [], List.append d [inst])
  | .unregisterInstance serviceName host port =>
      if d.ofService serviceName = [] then
        (.error ⟨.notFound, "Service not found: " ++ serviceName⟩, d)
      else if ∃ inst ∈ d.ofService serviceName, inst.host = host ∧ inst.port = port then
        (.ok [], d.eraseP fun inst => (inst.host = host ∧ inst.port = port) ∧ inst.serviceName = serviceName)
      else
        (.error ⟨.notFound, "Instance not found"⟩, d)
  | .getInstances serviceName => (.ok (d.ofService serviceName), d)

end Directory

namespace Directory

theorem ofService_eraseP {d : Directory} {serviceName : String} {p : ServiceInstance → Bool}
    (hp : ∀ inst, p inst = true → inst.serviceName ≠ serviceName) :
    ofService (d.eraseP p) serviceName = d.ofService serviceName := by
  induction d with
  | nil => rfl
  | cons inst rest ih =>
      rw [List.eraseP_cons]
      cases hinst : p inst with
      | true => simp [ofService, hp inst hinst]
      | false => simp only [ofService, cond_false, List.filter_cons] at ih ⊢; rw [ih]

end Directory

/-- The answers to a list of calls. -/
def answers {S : Type} (call : S → RegistryCall → RegistryAnswer × S) :
    S → List RegistryCall → List RegistryAnswer
  | _, [] => []
  | state, next :: rest => (call state next).1 :: answers call (call state next).2 rest

/-- The registry keeps the lists of the directory, and no empty one. -/
def InMemoryServiceRegistry.Keeps (r : InMemoryServiceRegistry) (d : Directory) : Prop :=
  ∀ serviceName, r.mRegistry.lookup serviceName =
    if d.ofService serviceName = [] then none else some (d.ofService serviceName)

namespace InMemoryServiceRegistry

variable {r : InMemoryServiceRegistry} {d : Directory}

theorem Keeps.getD (hkeeps : r.Keeps d) (serviceName : String) :
    (r.mRegistry.lookup serviceName).getD [] = d.ofService serviceName := by
  rw [hkeeps serviceName]
  split_ifs with hempty
  · exact hempty.symm
  · rfl

/-- Only the list of one service changes. -/
theorem keeps_of_update {r' : InMemoryServiceRegistry} {d' : Directory} (hkeeps : r.Keeps d)
    (serviceName : String)
    (hat : r'.mRegistry.lookup serviceName =
      if d'.ofService serviceName = [] then none else some (d'.ofService serviceName))
    (hregistry : ∀ other, other ≠ serviceName → r'.mRegistry.lookup other = r.mRegistry.lookup other)
    (hdirectory : ∀ other, other ≠ serviceName → d'.ofService other = d.ofService other) : r'.Keeps d' := by
  intro other
  by_cases hother : other = serviceName
  · rw [hother, hat]
  · rw [hregistry other hother, hdirectory other hother, hkeeps other]

theorem Keeps.registerInstance (hkeeps : r.Keeps d) (inst : ServiceInstance) :
    (r.registerInstance inst).Keeps (List.append d [inst]) := by
  have hofService : ∀ serviceName, Directory.ofService (List.append d [inst]) serviceName =
      d.ofService serviceName ++ [inst].filter fun inst => inst.serviceName = serviceName :=
    fun _ => List.filter_append ..
  refine keeps_of_update hkeeps inst.serviceName ?_ ?_ ?_
  · rw [InMemoryServiceRegistry.registerInstance, Finmap.lookup_insert, hkeeps.getD, hofService]
    simp
  · intro other hother
    rw [InMemoryServiceRegistry.registerInstance, Finmap.lookup_insert_of_ne _ hother]
  · intro other hother
    rw [hofService]
    simp [Ne.symm hother]

theorem removeFirst_eq {instances : List ServiceInstance} (hshort : instances.length < 2 ^ 31)
    (host : String) (port : Int) : removeFirst instances host port =
      if ∃ inst ∈ instances, inst.host = host ∧ inst.port = port then
        some (instances.eraseP fun inst => inst.host = host ∧ inst.port = port)
      else none := by
  unfold removeFirst
  rw [intSize_of_lt hshort, Int.toNat_natCast, List.take_length, List.eraseP_eq_eraseIdx]
  dsimp only
  cases hfound : instances.findIdx? fun inst => inst.host = host ∧ inst.port = port with
  | none =>
      rw [List.findIdx?_eq_none_iff] at hfound
      rw [if_neg, Option.map_none]
      rintro ⟨inst, hmem, hmatches⟩
      simpa [hmatches] using hfound inst hmem
  | some i =>
      obtain ⟨hi, hmatches, -⟩ := List.findIdx?_eq_some_iff_getElem.mp hfound
      rw [if_pos, Option.map_some]
      exact ⟨instances[i], List.getElem_mem hi, by simpa using hmatches⟩

/-- What the registry and the directory answer is the same, and the one keeps the other after it. -/
def Agrees (registry : RegistryAnswer × InMemoryServiceRegistry) (directory : RegistryAnswer × Directory) :
    Prop :=
  registry.1 = directory.1 ∧ registry.2.Keeps directory.2

theorem Keeps.unregisterInstance (hkeeps : r.Keeps d) (hshort : d.length < 2 ^ 31)
    (serviceName host : String) (port : Int) :
    Agrees (r.call (.unregisterInstance serviceName host port))
      (d.call (.unregisterInstance serviceName host port)) := by
  have hcall : r.call (.unregisterInstance serviceName host port) =
      ((r.unregisterInstance serviceName host port).1.map fun _ => [],
        (r.unregisterInstance serviceName host port).2) := rfl
  have hlookup := hkeeps serviceName
  rw [hcall, Directory.call]
  by_cases hempty : d.ofService serviceName = []
  · rw [if_pos hempty] at hlookup
    rw [InMemoryServiceRegistry.unregisterInstance, hlookup, if_pos hempty]
    exact ⟨rfl, hkeeps⟩
  rw [if_neg hempty] at hlookup
  have hlength : (d.ofService serviceName).length < 2 ^ 31 :=
    Nat.lt_of_le_of_lt (List.length_filter_le ..) hshort
  have hregistry : r.unregisterInstance serviceName host port =
      r.keepLeft serviceName (removeFirst (d.ofService serviceName) host port) := by
    rw [InMemoryServiceRegistry.unregisterInstance, hlookup]
  rw [hregistry, removeFirst_eq hlength, if_neg hempty]
  split_ifs with hregistered
  · have hleft : Directory.ofService (d.eraseP fun inst =>
          (inst.host = host ∧ inst.port = port) ∧ inst.serviceName = serviceName) serviceName =
        (d.ofService serviceName).eraseP fun inst => inst.host = host ∧ inst.port = port := by
      rw [Directory.ofService, Directory.ofService, List.eraseP_filter]
      simp only [Bool.decide_and]
    have hothers : ∀ other, other ≠ serviceName → Directory.ofService (d.eraseP fun inst =>
          (inst.host = host ∧ inst.port = port) ∧ inst.serviceName = serviceName) other =
        d.ofService other := by
      intro other hother
      refine Directory.ofService_eraseP fun inst herased hof => hother ?_
      rw [← hof, (of_decide_eq_true herased).2]
    cases hrest : (d.ofService serviceName).eraseP fun inst => inst.host = host ∧ inst.port = port with
    | nil =>
        refine ⟨rfl, keeps_of_update hkeeps serviceName ?_ (fun other hother => ?_) hothers⟩
        · rw [hleft, if_pos hrest]
          exact Finmap.lookup_erase ..
        · exact Finmap.lookup_erase_ne hother
    | cons inst rest =>
        refine ⟨rfl, keeps_of_update hkeeps serviceName ?_ (fun other hother => ?_) hothers⟩
        · rw [hleft, hrest, if_neg (List.cons_ne_nil inst rest)]
          exact Finmap.lookup_insert ..
        · exact Finmap.lookup_insert_of_ne _ hother
  · exact ⟨rfl, hkeeps⟩

theorem Keeps.call (hkeeps : r.Keeps d) (hshort : d.length < 2 ^ 31) (next : RegistryCall) :
    Agrees (r.call next) (d.call next) := by
  cases next with
  | registerInstance inst => exact ⟨rfl, hkeeps.registerInstance inst⟩
  | unregisterInstance serviceName host port => exact hkeeps.unregisterInstance hshort serviceName host port
  | getInstances serviceName => exact ⟨congrArg Except.ok (hkeeps.getD serviceName), hkeeps⟩

end InMemoryServiceRegistry

theorem Directory.length_call (d : Directory) (next : RegistryCall) :
    (d.call next).2.length ≤ d.length + 1 := by
  cases next with
  | registerInstance inst =>
      rw [Directory.call]
      exact Nat.le_of_eq List.length_append
  | unregisterInstance serviceName host port =>
      rw [Directory.call]
      split_ifs
      · exact Nat.le_succ _
      · exact List.length_eraseP_le.trans (Nat.le_succ _)
      · exact Nat.le_succ _
  | getInstances serviceName => exact Nat.le_succ _

/-- A registry answers every list of calls as the directory does, as long as a list has a size that is an
`int`. -/
theorem InMemoryServiceRegistry.answers_eq {r : InMemoryServiceRegistry} {d : Directory} (hkeeps : r.Keeps d)
    (calls : List RegistryCall) (hshort : d.length + calls.length ≤ 2 ^ 31) :
    answers InMemoryServiceRegistry.call r calls = answers Directory.call d calls := by
  induction calls generalizing r d with
  | nil => rfl
  | cons next rest ih =>
      rw [List.length_cons] at hshort
      obtain ⟨hanswer, hnext⟩ := hkeeps.call (by omega) next
      have hlength := d.length_call next
      rw [answers, answers, hanswer, ih hnext (by omega)]

theorem answers_of_calls (calls : List RegistryCall) (hshort : calls.length ≤ 2 ^ 31) :
    answers InMemoryServiceRegistry.call {} calls = answers Directory.call [] calls :=
  InMemoryServiceRegistry.answers_eq (fun _ => rfl) calls (by simpa using hshort)

/-- Two instances at one address, of which the first goes. -/
def registerTwice : List RegistryCall :=
  [.registerInstance ⟨"users", "10.0.0.1", 80, 1⟩, .registerInstance ⟨"users", "10.0.0.1", 80, 2⟩,
    .unregisterInstance "users" "10.0.0.1" 80, .getInstances "users"]

theorem answers_of_calls_registerTwice :
    answers InMemoryServiceRegistry.call {} registerTwice = answers Directory.call [] registerTwice ∧
      answers Directory.call [] registerTwice =
        [.ok [], .ok [], .ok [], .ok [⟨"users", "10.0.0.1", 80, 2⟩]] :=
  ⟨answers_of_calls registerTwice (by decide), rfl⟩

/-! ### The turns of a balancer -/

namespace BalancerCall

/-- How many turns a call takes. -/
def turns (roundRobin : Bool) : BalancerCall → Nat
  | select instances _ => if instances = [] ∨ roundRobin = false then 0 else 1
  | _ => 0

def after (roundRobin : Bool) : BalancerCall → Bool
  | select _ _ => roundRobin
  | setRoundRobin => true
  | setRandom => false

/-- How many turns the calls take, one after the other. -/
def turnsOf (roundRobin : Bool) : List BalancerCall → Nat
  | [] => 0
  | call :: rest => call.turns roundRobin + turnsOf (call.after roundRobin) rest

end BalancerCall

/-- A selection that took its turn: what it was given and what it returned. -/
structure Turn where
  instances : List ServiceInstance
  chosen : ServiceInstance
  deriving DecidableEq

/-- A balancer with the turns that were taken. -/
structure Balancing where
  balancer : LoadBalancer := {}
  turns : List Turn := []
  deriving DecidableEq

namespace Balancing

/-- The next call, unless something before it had no value. -/
def step (s : Option Balancing) (call : BalancerCall) : Option Balancing := do
  let s ← s
  match call with
  | .select instances word =>
      let (chosen, balancer) ← s.balancer.select instances word
      if instances = [] ∨ s.balancer.mRoundRobin = false then
        return { s with balancer := balancer }
      else
        return { balancer := balancer, turns := s.turns ++ [⟨instances, chosen⟩] }
  | .setRoundRobin => return { s with balancer := s.balancer.setRoundRobin }
  | .setRandom => return { s with balancer := s.balancer.setRandom }

def after (calls : List BalancerCall) : Option Balancing := run step (some {}) calls

/-- The counter numbers the turns, and each returned the instance at the place that its number gives. -/
structure Numbered (s : Balancing) : Prop where
  counter : s.balancer.mCounter = s.turns.length
  bounded : s.turns.length < 2 ^ 31
  chosen : ∀ i (hi : i < s.turns.length),
    LoadBalancer.at? s.turns[i].instances (Int.tmod i (intSize s.turns[i].instances)) = some s.turns[i].chosen

variable {s s' : Balancing} {instances : List ServiceInstance} {word : Nat}

/-- A selection that takes no turn leaves the balancer; one that does moves the counter on. -/
theorem select_cases {chosen : ServiceInstance} {balancer : LoadBalancer}
    (hselect : s.balancer.select instances word = some (chosen, balancer)) :
    ((instances = [] ∨ s.balancer.mRoundRobin = false) ∧ balancer = s.balancer) ∨
      (¬ (instances = [] ∨ s.balancer.mRoundRobin = false) ∧
        s.balancer.mCounter + 1 < 2 ^ 31 ∧
        balancer = { s.balancer with mCounter := s.balancer.mCounter + 1 } ∧
        LoadBalancer.at? instances (s.balancer.mCounter.tmod (intSize instances)) = some chosen) := by
  rw [LoadBalancer.select] at hselect
  by_cases hempty : instances = []
  · rw [if_pos hempty] at hselect
    simp only [Option.some.injEq, Prod.mk.injEq] at hselect
    exact .inl ⟨.inl hempty, hselect.2.symm⟩
  rw [if_neg hempty, LoadBalancer.nextPlace] at hselect
  by_cases hturn : s.balancer.mRoundRobin = true
  · rw [if_pos hturn, Network.RetryPolicy.intValue] at hselect
    split_ifs at hselect with hvalue
    · simp only [Option.map_some, Option.bind_eq_bind, Option.bind_some, Option.bind_eq_some_iff,
        Option.pure_def, Option.some.injEq, Prod.mk.injEq] at hselect
      obtain ⟨found, hfound, rfl, rfl⟩ := hselect
      exact .inr ⟨by simp [hempty, hturn], hvalue.2, rfl, hfound⟩
    · simp at hselect
  · rw [if_neg hturn] at hselect
    simp only [Option.bind_eq_bind, Option.bind_some, Option.bind_eq_some_iff, Option.pure_def,
      Option.some.injEq, Prod.mk.injEq] at hselect
    obtain ⟨found, -, -, hsame⟩ := hselect
    exact .inl ⟨.inr (Bool.eq_false_iff.mpr hturn), hsame.symm⟩

theorem Numbered.takeTurn (hnumbered : s.Numbered) {chosen : ServiceInstance}
    (hvalue : s.balancer.mCounter + 1 < 2 ^ 31)
    (hfound : LoadBalancer.at? instances (s.balancer.mCounter.tmod (intSize instances)) = some chosen) :
    Numbered
      { balancer := { s.balancer with mCounter := s.balancer.mCounter + 1 }
        turns := s.turns ++ [⟨instances, chosen⟩] } where
  counter := by
    rw [List.length_append, hnumbered.counter]
    rfl
  bounded := by
    rw [hnumbered.counter] at hvalue
    rw [List.length_append, List.length_singleton]
    omega
  chosen := by
    intro i hi
    rcases Nat.lt_or_ge i s.turns.length with hold | hnew
    · rw [List.getElem_append_left hold]
      exact hnumbered.chosen i hold
    · obtain rfl : i = s.turns.length := by
        rw [List.length_append, List.length_singleton] at hi
        omega
      rw [List.getElem_concat_length rfl, ← hnumbered.counter]
      exact hfound

theorem Numbered.step (hnumbered : s.Numbered) {call : BalancerCall} (hstep : step (some s) call = some s') :
    s'.Numbered := by
  cases call with
  | select instances word =>
      simp only [Balancing.step, Option.bind_eq_bind, Option.bind_some, Option.bind_eq_some_iff] at hstep
      obtain ⟨⟨chosen, balancer⟩, hselect, hstep⟩ := hstep
      rcases select_cases hselect with ⟨hnone, rfl⟩ | ⟨hturn, hvalue, rfl, hfound⟩
      · rw [if_pos hnone] at hstep
        cases hstep
        exact ⟨hnumbered.counter, hnumbered.bounded, hnumbered.chosen⟩
      · rw [if_neg hturn] at hstep
        cases hstep
        exact hnumbered.takeTurn hvalue hfound
  | setRoundRobin =>
      cases hstep
      exact ⟨hnumbered.counter, hnumbered.bounded, hnumbered.chosen⟩
  | setRandom =>
      cases hstep
      exact ⟨hnumbered.counter, hnumbered.bounded, hnumbered.chosen⟩

theorem numbered_start : Numbered {} where
  counter := rfl
  bounded := by decide
  chosen := fun _ hi => absurd hi (Nat.not_lt_zero _)

theorem numbered_after {calls : List BalancerCall} (hafter : after calls = some s) : s.Numbered := by
  have hall : ∀ s, after calls = some s → s.Numbered := by
    refine run_induction (P := fun state => ∀ s, state = some s → Numbered s) ?_ ?_ calls
    · intro s hstart
      cases hstart
      exact numbered_start
    · intro state call hstate s hstep
      cases state with
      | none => cases hstep
      | some before => exact (hstate before rfl).step hstep
  exact hall s hafter

/-- What a turn returned. -/
theorem Numbered.chosen_eq (hnumbered : s.Numbered) (hshort : instances.length < 2 ^ 31) {i : Nat}
    (hturn : (s.turns[i]?).map Turn.instances = some instances) :
    (s.turns[i]?).map Turn.chosen = instances[i % instances.length]? := by
  obtain ⟨turn, hget, hinstances⟩ := Option.map_eq_some_iff.mp hturn
  obtain ⟨hi, rfl⟩ := List.getElem?_eq_some_iff.mp hget
  have hchosen := hnumbered.chosen i hi
  rw [hinstances, intSize_of_lt hshort, ← Int.ofNat_tmod, LoadBalancer.at?,
    if_neg (Int.natCast_nonneg _).not_gt, Int.toNat_natCast] at hchosen
  rw [hget, Option.map_some, hchosen]

/-- How many of so many turns, every `stride`-th one from `start` on, returned an instance. -/
def share (s : Balancing) (start stride turns : Nat) (inst : ServiceInstance) : Nat :=
  Nat.count (fun i => (s.turns[start + stride * i]?).map Turn.chosen = some inst) turns

/-- The share of an instance is that of its place in the rotation. -/
theorem Numbered.share_eq (hnumbered : s.Numbered) (hshort : instances.length < 2 ^ 31)
    (hnodup : instances.Nodup) {start stride turns : Nat}
    (hown : ∀ i < turns, (s.turns[start + stride * i]?).map Turn.instances = some instances) {place : Nat}
    (hplace : place < instances.length) :
    s.share start stride turns instances[place] =
      Nat.count (fun i => (start + stride * i) % instances.length = place) turns := by
  have hsame : ∀ i < turns, (s.turns[start + stride * i]?).map Turn.chosen = some instances[place] ↔
      (start + stride * i) % instances.length = place := by
    intro i hi
    have hturn : (start + stride * i) % instances.length < instances.length :=
      Nat.mod_lt _ (Nat.zero_lt_of_lt hplace)
    rw [hnumbered.chosen_eq hshort (hown i hi), List.getElem?_eq_getElem hturn, Option.some_inj]
    exact hnodup.getElem_inj_iff
  exact Nat.le_antisymm (Nat.count_mono_left fun i hi => (hsame i hi).mp)
    (Nat.count_mono_left fun i hi => (hsame i hi).mpr)

/-- One who selects from a list of instances and has every `stride`-th turn from `start` on, whatever lists
the turns between are for, gets the instances at the places that the numbers of the turns give. If the
instances are different, these are the ones at the places congruent to `start` modulo the greatest common
divisor of `stride` and the number of instances, each with its equal share, and no others. -/
theorem share_of_calls {calls : List BalancerCall} (hafter : after calls = some s)
    (hshort : instances.length < 2 ^ 31) {start stride turns : Nat}
    (hown : ∀ i < turns, (s.turns[start + stride * i]?).map Turn.instances = some instances) :
    (∀ i < turns, (s.turns[start + stride * i]?).map Turn.chosen =
        instances[(start + stride * i) % instances.length]?) ∧
      (instances.Nodup → ∀ place (hplace : place < instances.length),
        (place ≡ start [MOD instances.length.gcd stride] →
          turns / Rotation.orbit instances.length stride ≤ s.share start stride turns instances[place] ∧
            s.share start stride turns instances[place] ≤
              (turns + Rotation.orbit instances.length stride - 1) / Rotation.orbit instances.length stride) ∧
          (¬ place ≡ start [MOD instances.length.gcd stride] →
            s.share start stride turns instances[place] = 0)) := by
  have hnumbered := numbered_after hafter
  refine ⟨fun i hi => hnumbered.chosen_eq hshort (hown i hi), fun hnodup place hplace => ?_⟩
  have hsize : 0 < instances.length := Nat.zero_lt_of_lt hplace
  rw [hnumbered.share_eq hshort hnodup hown hplace]
  exact ⟨fun hmet => Rotation.count_mod_eq hsize hplace hmet turns,
    fun hmissed => Rotation.count_mod_eq_zero hsize hplace hmissed turns⟩

def users : List ServiceInstance := [⟨"users", "10.0.0.1", 80, 0⟩, ⟨"users", "10.0.0.2", 80, 0⟩]

def orders : List ServiceInstance := [⟨"orders", "10.0.1.1", 80, 0⟩, ⟨"orders", "10.0.1.2", 80, 0⟩]

/-- Two services that are called by turns. -/
def byTurns : List BalancerCall :=
  [.select users 0, .select orders 0, .select users 0, .select orders 0]

/-- The second instance of the first service is never chosen. -/
theorem share_of_calls_byTurns :
    ((after byTurns).getD {}).share 0 2 2 ⟨"users", "10.0.0.2", 80, 0⟩ = 0 := by
  have hshare := share_of_calls (show after byTurns = some ((after byTurns).getD {}) by decide)
    (show users.length < 2 ^ 31 by decide)
    (show ∀ i < 2, (((after byTurns).getD {}).turns[0 + 2 * i]?).map Turn.instances = some users by decide)
  exact (hshare.2 (by decide) 1 (by decide)).2 (by decide)

theorem exists_at? {place : Int} (hlower : 0 ≤ place) (hupper : place < instances.length) :
    ∃ chosen, LoadBalancer.at? instances place = some chosen := by
  rw [LoadBalancer.at?, if_neg (by omega)]
  exact ⟨_, List.getElem?_eq_getElem (by omega)⟩

theorem bounded_lt {sz : Int} (hpos : 0 < sz) (hshort : sz < 2 ^ 31) (word : Nat) :
    0 ≤ LoadBalancer.bounded sz word ∧ LoadBalancer.bounded sz word < sz := by
  have hword : (word : Int) % 2 ^ 32 < 2 ^ 32 := Int.emod_lt_of_pos _ (by decide)
  have hnonneg : 0 ≤ (word : Int) % 2 ^ 32 := Int.emod_nonneg _ (by decide)
  rw [LoadBalancer.bounded, Int.emod_eq_of_lt hpos.le (by omega)]
  constructor
  · exact Int.ediv_nonneg (Int.mul_nonneg hnonneg hpos.le) (by decide)
  · refine Int.ediv_lt_of_lt_mul (by decide) ?_
    rw [Int.mul_comm sz]
    exact Int.mul_lt_mul_of_pos_right hword hpos

/-- A selection has a value unless its turn is the one that the counter cannot count. -/
theorem exists_select_iff (hnumbered : s.Numbered) (hshort : instances.length < 2 ^ 31) (word : Nat) :
    (∃ selected, s.balancer.select instances word = some selected) ↔
      (instances = [] ∨ s.balancer.mRoundRobin = false) ∨ s.turns.length + 1 < 2 ^ 31 := by
  rw [LoadBalancer.select]
  by_cases hempty : instances = []
  · simp [hempty]
  have hlength : 0 < (instances.length : Int) := by
    exact_mod_cast List.length_pos_iff.mpr hempty
  rw [if_neg hempty, LoadBalancer.nextPlace, intSize_of_lt hshort]
  by_cases hturn : s.balancer.mRoundRobin = true
  · obtain ⟨chosen, hchosen⟩ : ∃ chosen,
        LoadBalancer.at? instances (s.balancer.mCounter.tmod instances.length) = some chosen :=
      exists_at? (Int.tmod_nonneg _ (by rw [hnumbered.counter]; omega)) (Int.tmod_lt_of_pos _ hlength)
    rw [if_pos hturn, Network.RetryPolicy.intValue]
    have hcounter := hnumbered.counter
    split_ifs with hvalue
    · simp [hchosen]
      omega
    · simp [hempty, hturn]
      omega
  · obtain ⟨hlower, hupper⟩ := bounded_lt hlength (by omega) word
    obtain ⟨chosen, hchosen⟩ := exists_at? hlower hupper
    rw [if_neg hturn]
    simp [hchosen, hturn]

theorem turns_step {call : BalancerCall} (hstep : step (some s) call = some s') :
    s'.turns.length = s.turns.length + call.turns s.balancer.mRoundRobin ∧
      s'.balancer.mRoundRobin = call.after s.balancer.mRoundRobin := by
  cases call with
  | select instances word =>
      simp only [Balancing.step, Option.bind_eq_bind, Option.bind_some, Option.bind_eq_some_iff] at hstep
      obtain ⟨⟨chosen, balancer⟩, hselect, hstep⟩ := hstep
      rcases select_cases hselect with ⟨hnone, rfl⟩ | ⟨hturn, hvalue, rfl, hfound⟩
      · rw [if_pos hnone] at hstep
        cases hstep
        exact ⟨by rw [BalancerCall.turns, if_pos hnone, Nat.add_zero], rfl⟩
      · rw [if_neg hturn] at hstep
        cases hstep
        exact ⟨by rw [BalancerCall.turns, if_neg hturn]; exact List.length_append, rfl⟩
  | setRoundRobin =>
      cases hstep
      exact ⟨rfl, rfl⟩
  | setRandom =>
      cases hstep
      exact ⟨rfl, rfl⟩

theorem exists_step_iff (hnumbered : s.Numbered) {call : BalancerCall}
    (hshort : ∀ instances word, call = .select instances word → instances.length < 2 ^ 31) :
    (∃ s', step (some s) call = some s') ↔
      s.turns.length + call.turns s.balancer.mRoundRobin < 2 ^ 31 := by
  have hbounded := hnumbered.bounded
  cases call with
  | select instances word =>
      have hselect := exists_select_iff hnumbered (hshort instances word rfl) word
      have hstep : (∃ s', step (some s) (.select instances word) = some s') ↔
          ∃ selected, s.balancer.select instances word = some selected := by
        cases hselected : s.balancer.select instances word with
        | none => simp [step, hselected]
        | some selected =>
            by_cases hnone : instances = [] ∨ s.balancer.mRoundRobin = false
            · simp [step, hselected, hnone]
            · simp [step, hselected, hnone]
      rw [hstep, hselect, BalancerCall.turns]
      split_ifs with hnone
      · exact iff_of_true (.inl hnone) hbounded
      · exact or_iff_right hnone
  | setRoundRobin => simpa [step, BalancerCall.turns] using hbounded
  | setRandom => simpa [step, BalancerCall.turns] using hbounded

theorem exists_run_iff (hnumbered : s.Numbered) {calls : List BalancerCall}
    (hshort : ∀ instances word, .select instances word ∈ calls → instances.length < 2 ^ 31) :
    (∃ s', run step (some s) calls = some s') ↔
      s.turns.length + BalancerCall.turnsOf s.balancer.mRoundRobin calls < 2 ^ 31 := by
  induction calls generalizing s with
  | nil => simpa [BalancerCall.turnsOf] using hnumbered.bounded
  | cons call rest ih =>
      have hfirst : (∃ s', step (some s) call = some s') ↔
          s.turns.length + call.turns s.balancer.mRoundRobin < 2 ^ 31 :=
        exists_step_iff hnumbered fun instances word hcall =>
          hshort instances word (hcall ▸ List.mem_cons_self)
      rw [run_cons, BalancerCall.turnsOf]
      cases hstep : step (some s) call with
      | none =>
          have hnone : run step none rest = none := by
            refine run_induction (P := fun state => state = none) rfl ?_ rest
            rintro state label rfl
            rfl
          rw [hstep] at hfirst
          simp only [reduceCtorEq, exists_false, false_iff] at hfirst
          simp only [hnone, reduceCtorEq, exists_false, false_iff]
          omega
      | some next =>
          obtain ⟨hturns, hmode⟩ := turns_step hstep
          rw [ih (hnumbered.step hstep) fun instances word hmem =>
            hshort instances word (List.mem_cons_of_mem _ hmem), hturns, hmode, Nat.add_assoc]

/-- What the counter does when it passes the greatest `int` has no value: calls have one exactly if they take
fewer than `2 ^ 31` turns. -/
theorem exists_after_iff (calls : List BalancerCall)
    (hshort : ∀ instances word, .select instances word ∈ calls → instances.length < 2 ^ 31) :
    (∃ s, after calls = some s) ↔ BalancerCall.turnsOf true calls < 2 ^ 31 := by
  refine (exists_run_iff numbered_start hshort).trans (Eq.to_iff (congrArg (· < 2 ^ 31) ?_))
  exact Nat.zero_add _

theorem exists_after_iff_byTurns :
    (∃ s, after byTurns = some s) ↔ BalancerCall.turnsOf true byTurns < 2 ^ 31 :=
  exists_after_iff byTurns fun instances word hmem => by
    simp only [byTurns, List.mem_cons, BalancerCall.select.injEq, List.not_mem_nil, or_false] at hmem
    rcases hmem with ⟨rfl, -⟩ | ⟨rfl, -⟩ | ⟨rfl, -⟩ | ⟨rfl, -⟩ <;> decide

end Balancing

end SoulCoreKit.Rpc
