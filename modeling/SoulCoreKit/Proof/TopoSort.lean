import SoulCoreKit.Core.Scaffold
import SoulCoreKit.Lib.Dependency
import Mathlib.Data.List.Perm.Subperm
import Mathlib.Data.List.Range

/-!
# The order of the modules

`topoSortWithPriority` counts, for every module, the dependencies that are not placed yet, once for each
time they are named. A module is free when that count is zero, and the scan takes the free module of
the highest priority that was registered first. Modules are named by their position in the list, since
two of them may share a name; a dependency means the last of them.
-/

namespace SoulCoreKit.Core

variable {P : Type} (info : P → Module) (modules : List P)

/-! ### What the order should be -/

def depsAt (i : Nat) : List String := (modules[i]?.map fun module => (info module).dependsOn).getD []

def priorityAt (i : Nat) : Int := (modules[i]?.map fun module => (info module).priority).getD 0

/-- `j` is the last registered module of the name. -/
def Resolves (name : String) (j : Nat) : Prop :=
  (∃ module, modules[j]? = some module ∧ (info module).name = name) ∧
    ∀ k module, modules[k]? = some module → (info module).name = name → k ≤ j

def DependsOn (i j : Nat) : Prop := ∃ name ∈ depsAt info modules i, Resolves info modules name j

/-- Every dependency of the module is placed. -/
def Ready (placed : List Nat) (i : Nat) : Prop :=
  ∀ name ∈ depsAt info modules i, ∃ j ∈ placed, Resolves info modules name j

/-- The module to place next: free, of the highest priority among the free ones, and the first
registered of these. -/
structure IsNext (placed : List Nat) (i : Nat) : Prop where
  lt : i < modules.length
  notPlaced : i ∉ placed
  ready : Ready info modules placed i
  best : ∀ c < modules.length, c ∉ placed → Ready info modules placed c →
    priorityAt info modules c < priorityAt info modules i ∨
      priorityAt info modules c = priorityAt info modules i ∧ i ≤ c

/-! ### Names -/

variable {info modules}

theorem nameToIdx_eq_none_iff {i : Nat} {name : String} :
    nameToIdx info i modules name = none ↔ ∀ module ∈ modules, (info module).name ≠ name := by
  induction modules generalizing i with
  | nil => simp [nameToIdx]
  | cons module rest ih =>
      rw [List.forall_mem_cons, ← @ih (i + 1), nameToIdx]
      cases hrest : nameToIdx info (i + 1) rest name with
      | some idx => simp
      | none => simp

theorem nameToIdx_spec {i idx : Nat} {name : String}
    (hfind : nameToIdx info i modules name = some idx) :
    ∃ j, idx = i + j ∧ Resolves info modules name j := by
  induction modules generalizing i with
  | nil => simp [nameToIdx] at hfind
  | cons module rest ih =>
      rw [nameToIdx] at hfind
      cases hrest : nameToIdx info (i + 1) rest name with
      | some later =>
          rw [hrest] at hfind
          obtain rfl : later = idx := by simpa using hfind
          obtain ⟨j, hlater, hmodule, hlast⟩ := ih hrest
          refine ⟨j + 1, by omega, by simpa using hmodule, ?_⟩
          · intro k other hk hname
            cases k with
            | zero => omega
            | succ k =>
                have hle := hlast k other (by simpa using hk) hname
                omega
      | none =>
          rw [hrest] at hfind
          have hother := nameToIdx_eq_none_iff.mp hrest
          have hname : (info module).name = name ∧ i = idx := by simpa using hfind
          refine ⟨0, by omega, ⟨module, rfl, hname.1⟩, ?_⟩
          intro k other hk hsame
          cases k with
          | zero => exact le_rfl
          | succ k =>
              have hmem : other ∈ rest := List.mem_of_getElem? (by simpa using hk)
              exact absurd hsame (hother other hmem)

theorem Resolves.unique {name : String} {i j : Nat} (hi : Resolves info modules name i)
    (hj : Resolves info modules name j) : i = j := by
  obtain ⟨⟨first, hfirst, hfirstName⟩, hlastI⟩ := hi
  obtain ⟨⟨second, hsecond, hsecondName⟩, hlastJ⟩ := hj
  exact Nat.le_antisymm (hlastJ i first hfirst hfirstName) (hlastI j second hsecond hsecondName)

theorem Resolves.lt {name : String} {j : Nat} (hj : Resolves info modules name j) :
    j < modules.length := by
  obtain ⟨⟨module, hmodule, _⟩, _⟩ := hj
  exact (List.getElem?_eq_some_iff.mp hmodule).1

theorem resolves_of_nameToIdx {name : String} {j : Nat}
    (hfind : nameToIdx info 0 modules name = some j) : Resolves info modules name j := by
  obtain ⟨k, hk, hresolves⟩ := nameToIdx_spec hfind
  have hjk : j = k := by omega
  rwa [hjk]

/-! ### The graph -/

section Graph

variable {find : String → Option Nat}

theorem addDependencies_eq_none_iff {i : Nat} {g : Graph} {deps : List String} :
    addDependencies find i g deps = none ↔ ∃ dep ∈ deps, find dep = none := by
  induction deps generalizing g with
  | nil => simp [addDependencies]
  | cons dep rest ih =>
      rw [addDependencies]
      cases hdep : find dep with
      | none => simp [hdep]
      | some idx => simp [hdep, ih]

/-- An edge for every dependency, as often as it is named, and the number of edges as in-degree. -/
theorem addDependencies_spec {i : Nat} {g g' : Graph} {deps : List String}
    (hadd : addDependencies find i g deps = some g') :
    (∀ idx x, (g'.graph idx).count x =
      (g.graph idx).count x + if x = i then (deps.filterMap find).count idx else 0) ∧
    ∀ x, g'.indegree x = g.indegree x + if x = i then (deps.filterMap find).length else 0 := by
  induction deps generalizing g with
  | nil =>
      rw [addDependencies, Option.some_inj] at hadd
      subst hadd
      simp
  | cons dep rest ih =>
      rw [addDependencies] at hadd
      cases hdep : find dep with
      | none =>
          rw [hdep] at hadd
          contradiction
      | some target =>
          rw [hdep] at hadd
          obtain ⟨hgraph, hindegree⟩ := ih hadd
          rw [List.filterMap_cons_some hdep]
          constructor
          · intro idx x
            rw [hgraph idx x, List.count_cons]
            by_cases hidx : idx = target
            · subst hidx
              simp only [Function.update_self, List.count_append, List.count_singleton, beq_iff_eq,
                if_true]
              by_cases hx : x = i
              · subst hx
                simp only [if_true]
                omega
              · have hne : ¬ i = x := fun heq => hx heq.symm
                simp only [if_neg hx, if_neg hne]
            · have hne : ¬ target = idx := fun heq => hidx heq.symm
              simp [Function.update_of_ne hidx, hne]
          · intro x
            rw [hindegree x, List.length_cons]
            by_cases hx : x = i
            · subst hx
              simp only [Function.update_self, if_true]
              omega
            · simp [hx]

theorem buildGraph_eq_none_iff {i : Nat} {g : Graph} :
    buildGraph info find i g modules = none ↔
      ∃ module ∈ modules, ∃ dep ∈ (info module).dependsOn, find dep = none := by
  induction modules generalizing i g with
  | nil => simp [buildGraph]
  | cons module rest ih =>
      rw [buildGraph, List.exists_mem_cons_iff, ← @addDependencies_eq_none_iff find i g]
      cases hadd : addDependencies find i g (info module).dependsOn with
      | none => simp
      | some g' => simp [ih]

theorem buildGraph_spec {i : Nat} {g g' : Graph}
    (hbuild : buildGraph info find i g modules = some g') :
    (∀ idx x, (g'.graph idx).count x = (g.graph idx).count x +
      if i ≤ x then ((depsAt info modules (x - i)).filterMap find).count idx else 0) ∧
    ∀ x, g'.indegree x = g.indegree x +
      if i ≤ x then ((depsAt info modules (x - i)).filterMap find).length else 0 := by
  induction modules generalizing i g with
  | nil =>
      rw [buildGraph, Option.some_inj] at hbuild
      subst hbuild
      simp [depsAt]
  | cons module rest ih =>
      rw [buildGraph] at hbuild
      cases hadd : addDependencies find i g (info module).dependsOn with
      | none =>
          rw [hadd] at hbuild
          contradiction
      | some added =>
          rw [hadd] at hbuild
          obtain ⟨hgraph, hindegree⟩ := ih hbuild
          obtain ⟨haddGraph, haddIndegree⟩ := addDependencies_spec hadd
          have hhead : depsAt info (module :: rest) 0 = (info module).dependsOn := by simp [depsAt]
          have htail : ∀ x, i + 1 ≤ x →
              depsAt info (module :: rest) (x - i) = depsAt info rest (x - (i + 1)) := by
            intro x hx
            have hsub : x - i = (x - (i + 1)) + 1 := by omega
            rw [hsub]
            simp [depsAt]
          constructor
          · intro idx x
            rw [hgraph idx x, haddGraph idx x]
            obtain hlt | rfl | hgt := Nat.lt_trichotomy x i
            · simp [Nat.not_le.mpr hlt, show ¬ i + 1 ≤ x by omega, show ¬ x = i by omega]
            · simp [hhead]
            · simp [htail x hgt, show i ≤ x by omega, show i + 1 ≤ x from hgt,
                show ¬ x = i by omega]
          · intro x
            rw [hindegree x, haddIndegree x]
            obtain hlt | rfl | hgt := Nat.lt_trichotomy x i
            · simp [Nat.not_le.mpr hlt, show ¬ i + 1 ≤ x by omega, show ¬ x = i by omega]
            · simp [hhead]
            · simp [htail x hgt, show i ≤ x by omega, show i + 1 ≤ x from hgt,
                show ¬ x = i by omega]

theorem release_apply (indegree : Nat → Nat) (successors : List Nat) (x : Nat) :
    release indegree successors x = indegree x - successors.count x := by
  induction successors generalizing indegree with
  | nil => rfl
  | cons next rest ih =>
      rw [release, ih, List.count_cons]
      by_cases hx : x = next
      · subst hx
        by_cases hpos : indegree x > 0
        · simp only [if_pos hpos, Function.update_self, beq_self_eq_true, if_true]
          omega
        · simp only [if_neg hpos, beq_self_eq_true, if_true]
          omega
      · have hne : ¬ next = x := fun heq => hx heq.symm
        have hsame : (if indegree next > 0 then
            Function.update indegree next (indegree next - 1) else indegree) x = indegree x := by
          split
          · exact Function.update_of_ne hx _ _
          · rfl
        rw [hsame]
        simp [hne]

end Graph

/-! ### The scan -/

section Scan

variable {visited : Nat → Bool} {indegree : Nat → Nat}

/-- What the scan knows of the candidates before the `i`-th module. -/
structure ScannedTo (info : P → Module) (all : List P) (visited : Nat → Bool) (indegree : Nat → Nat)
    (i : Nat) (best : Option (Nat × Int)) : Prop where
  none_free : best = none → ∀ c < i, ¬ (visited c = false ∧ indegree c = 0)
  some_free : ∀ j p, best = some (j, p) → j < i ∧ visited j = false ∧ indegree j = 0 ∧
    p = priorityAt info all j ∧
    ∀ c < i, visited c = false → indegree c = 0 →
      priorityAt info all c < p ∨ priorityAt info all c = p ∧ j ≤ c

theorem ScannedTo.replace {i : Nat} {best : Option (Nat × Int)}
    (hscanned : ScannedTo info modules visited indegree i best) {p : Int}
    (hp : p = priorityAt info modules i) (hfree : visited i = false ∧ indegree i = 0)
    (hbetter : better p best = true) :
    ScannedTo info modules visited indegree (i + 1) (some (i, p)) := by
  refine ⟨by simp, ?_⟩
  intro j q hj
  obtain ⟨rfl, rfl⟩ : i = j ∧ p = q := by simpa using hj
  refine ⟨by omega, hfree.1, hfree.2, hp, ?_⟩
  intro c hc hvisited hindegree
  obtain rfl | hlt : c = i ∨ c < i := by omega
  · exact Or.inr ⟨hp.symm, le_rfl⟩
  · cases best with
    | none => exact absurd ⟨hvisited, hindegree⟩ (hscanned.none_free rfl c hlt)
    | some pair =>
        obtain ⟨k, r⟩ := pair
        obtain ⟨_, _, _, _, hbest⟩ := hscanned.some_free k r rfl
        have hgreater : p > r := of_decide_eq_true hbetter
        have hle := hbest c hlt hvisited hindegree
        omega

theorem ScannedTo.keep {i : Nat} {best : Option (Nat × Int)}
    (hscanned : ScannedTo info modules visited indegree i best) {p : Int}
    (hp : p = priorityAt info modules i)
    (hworse : visited i = false ∧ indegree i = 0 → better p best = false) :
    ScannedTo info modules visited indegree (i + 1) best := by
  constructor
  · intro hnone c hc hfree
    obtain rfl | hlt : c = i ∨ c < i := by omega
    · have hnot := hworse hfree
      rw [hnone] at hnot
      contradiction
    · exact hscanned.none_free hnone c hlt hfree
  · intro j q hj
    obtain ⟨hlt, hvisited, hindegree, hq, hbest⟩ := hscanned.some_free j q hj
    refine ⟨by omega, hvisited, hindegree, hq, ?_⟩
    intro c hc hcvisited hcindegree
    obtain rfl | hclt : c = i ∨ c < i := by omega
    · have hnot := hworse ⟨hcvisited, hcindegree⟩
      rw [hj] at hnot
      have hle : ¬ p > q := of_decide_eq_false hnot
      rw [← hp]
      omega
    · exact hbest c hclt hcvisited hcindegree

theorem ScannedTo.next {i : Nat} {best : Option (Nat × Int)}
    (hscanned : ScannedTo info modules visited indegree i best) {p : Int}
    (hp : p = priorityAt info modules i) :
    ScannedTo info modules visited indegree (i + 1)
      (if !visited i && indegree i == 0 && better p best then some (i, p) else best) := by
  split
  · rename_i htaken
    simp only [Bool.and_eq_true, Bool.not_eq_true', beq_iff_eq] at htaken
    exact hscanned.replace hp htaken.1 htaken.2
  · rename_i hkept
    apply hscanned.keep hp
    rintro ⟨hvisited, hindegree⟩
    simpa [hvisited, hindegree] using hkept

theorem scanBest_spec {i : Nat} {best : Option (Nat × Int)} {rest : List P}
    (hdrop : modules.drop i = rest) (hscanned : ScannedTo info modules visited indegree i best) :
    ScannedTo info modules visited indegree (i + rest.length)
      (scanBest info visited indegree i best rest) := by
  induction rest generalizing i best with
  | nil => exact hscanned
  | cons module rest ih =>
      have hmodule : modules[i]? = some module := by
        rw [← Nat.add_zero i, ← List.getElem?_drop, hdrop, List.getElem?_cons_zero]
      have hrest : modules.drop (i + 1) = rest := by
        rw [← List.tail_drop, hdrop, List.tail_cons]
      have hp : (info module).priority = priorityAt info modules i := by simp [priorityAt, hmodule]
      have hnext := ih hrest (hscanned.next hp)
      rwa [List.length_cons, Nat.add_comm rest.length 1, ← Nat.add_assoc]

end Scan

/-! ### The loop -/

variable (info modules) in
/-- The dependencies of a module, as often as they are named. -/
def targets (i : Nat) : List Nat :=
  (depsAt info modules i).filterMap (nameToIdx info 0 modules)

variable (info modules) in
def Known : Prop :=
  ∀ i, ∀ name ∈ depsAt info modules i, ∃ j, nameToIdx info 0 modules name = some j

theorem ready_iff (hknown : Known info modules) {placed : List Nat} {i : Nat} :
    Ready info modules placed i ↔ ∀ j ∈ targets info modules i, j ∈ placed := by
  constructor
  · intro hready j hj
    obtain ⟨name, hname, hfind⟩ := List.mem_filterMap.mp hj
    obtain ⟨k, hk, hresolves⟩ := hready name hname
    rwa [(resolves_of_nameToIdx hfind).unique hresolves]
  · intro htargets name hname
    obtain ⟨j, hfind⟩ := hknown i name hname
    exact ⟨j, htargets j (List.mem_filterMap.mpr ⟨name, hname, hfind⟩), resolves_of_nameToIdx hfind⟩

theorem dependsOn_iff (hknown : Known info modules) {i j : Nat} :
    DependsOn info modules i j ↔ j ∈ targets info modules i := by
  constructor
  · rintro ⟨name, hname, hresolves⟩
    obtain ⟨k, hfind⟩ := hknown i name hname
    rw [hresolves.unique (resolves_of_nameToIdx hfind)]
    exact List.mem_filterMap.mpr ⟨name, hname, hfind⟩
  · intro hj
    obtain ⟨name, hname, hfind⟩ := List.mem_filterMap.mp hj
    exact ⟨name, hname, resolves_of_nameToIdx hfind⟩

/-- The count of a module is the number of its dependencies that are not placed. -/
structure Placing (info : P → Module) (modules : List P) (s : SortState) : Prop where
  chosen : Dependency.StepByStep (IsNext info modules) s.result
  visited_iff : ∀ i, s.visited i = true ↔ i ∈ s.result
  indegree_eq : ∀ i, s.indegree i =
    ((targets info modules i).filter fun j => decide (j ∉ s.result)).length

theorem length_filter_notMem_concat {placed : List Nat} {b : Nat} (hb : b ∉ placed)
    (l : List Nat) :
    (l.filter fun j => decide (j ∉ placed ++ [b])).length =
      (l.filter fun j => decide (j ∉ placed)).length - l.count b := by
  have hsplit : (l.filter fun j => decide (j ∉ placed)).length =
      (l.filter fun j => decide (j ∉ placed ++ [b])).length + l.count b := by
    induction l with
    | nil => rfl
    | cons j rest ih =>
        rw [List.filter_cons, List.filter_cons, List.count_cons]
        by_cases hjb : j = b
        · subst hjb
          have hnow : decide (j ∉ placed) = true := by simp [hb]
          have hthen : ¬ decide (j ∉ placed ++ [j]) = true := by simp
          rw [if_pos hnow, if_neg hthen, List.length_cons, ih, if_pos (beq_self_eq_true j)]
          omega
        · have hsame : decide (j ∉ placed ++ [b]) = decide (j ∉ placed) := by simp [hjb]
          have hcount : (if (j == b) = true then 1 else 0) = 0 := by simp [hjb]
          rw [hsame, hcount, Nat.add_zero]
          split
          · rw [List.length_cons, List.length_cons, ih]
            omega
          · exact ih
  omega

theorem Placing.ready_iff {s : SortState} (hplacing : Placing info modules s)
    (hknown : Known info modules) (i : Nat) :
    s.indegree i = 0 ↔ Ready info modules s.result i := by
  rw [hplacing.indegree_eq, Core.ready_iff hknown, List.length_eq_zero_iff, List.filter_eq_nil_iff]
  simp

theorem Placing.notVisited_iff {s : SortState} (hplacing : Placing info modules s) (i : Nat) :
    s.visited i = false ↔ i ∉ s.result := by
  rw [← hplacing.visited_iff i, Bool.not_eq_true]

theorem Placing.isNext {s : SortState} (hplacing : Placing info modules s)
    (hknown : Known info modules) {bestIdx : Nat} {bestPriority : Int}
    (hscan : scanBest info s.visited s.indegree 0 none modules = some (bestIdx, bestPriority)) :
    IsNext info modules s.result bestIdx := by
  have hstart : ScannedTo info modules s.visited s.indegree 0 none := ⟨by simp, by simp⟩
  have hscanned := scanBest_spec (by rw [List.drop_zero]) hstart
  obtain ⟨hlt, hvisited, hindegree, hpriority, hbest⟩ := hscanned.some_free bestIdx bestPriority hscan
  refine ⟨by omega, (hplacing.notVisited_iff bestIdx).mp hvisited,
    (hplacing.ready_iff hknown bestIdx).mp hindegree, ?_⟩
  intro c hc hplaced hready
  rw [← hpriority]
  exact hbest c (by omega) ((hplacing.notVisited_iff c).mpr hplaced)
    ((hplacing.ready_iff hknown c).mpr hready)

theorem Placing.not_ready_of_none {s : SortState} (hplacing : Placing info modules s)
    (hknown : Known info modules)
    (hscan : scanBest info s.visited s.indegree 0 none modules = none) {c : Nat}
    (hc : c < modules.length) (hplaced : c ∉ s.result) : ¬ Ready info modules s.result c := by
  have hstart : ScannedTo info modules s.visited s.indegree 0 none := ⟨by simp, by simp⟩
  have hscanned := scanBest_spec (by rw [List.drop_zero]) hstart
  intro hready
  exact hscanned.none_free hscan c (by omega)
    ⟨(hplacing.notVisited_iff c).mpr hplaced, (hplacing.ready_iff hknown c).mpr hready⟩

theorem Placing.place {s : SortState} (hplacing : Placing info modules s) {graph : Nat → List Nat}
    (hgraph : ∀ idx x, (graph idx).count x = (targets info modules x).count idx) {bestIdx : Nat}
    (hnext : IsNext info modules s.result bestIdx) :
    Placing info modules (s.place graph bestIdx) := by
  refine ⟨hplacing.chosen.concat hnext, ?_, ?_⟩
  · intro i
    change Function.update s.visited bestIdx true i = true ↔ i ∈ s.result ++ [bestIdx]
    by_cases hi : i = bestIdx
    · simp [hi]
    · rw [Function.update_of_ne hi, hplacing.visited_iff]
      simp [hi]
  · intro i
    change release s.indegree (graph bestIdx) i = _
    rw [release_apply, hgraph, hplacing.indegree_eq]
    exact (length_filter_notMem_concat hnext.notPlaced _).symm

theorem Placing.length_le {s : SortState} (hplacing : Placing info modules s) :
    s.result.Nodup ∧ ∀ i ∈ s.result, i < modules.length := by
  refine ⟨hplacing.chosen.nodup fun before i hnext => hnext.notPlaced, ?_⟩
  intro i hi
  obtain ⟨before, after, hsplit⟩ := List.append_of_mem hi
  exact (hplacing.chosen before i after hsplit).lt

/-- Where the scan finds nothing while modules are left, each of these depends on one of them. -/
theorem Placing.cycle_of_none {s : SortState} (hplacing : Placing info modules s)
    (hknown : Known info modules)
    (hscan : scanBest info s.visited s.indegree 0 none modules = none)
    (hleft : s.result.length < modules.length) :
    ¬ Dependency.Acyclic (DependsOn info modules) := by
  intro hacyclic
  let remaining := (Finset.range modules.length).filter fun c => c ∉ s.result
  have hremaining : remaining.Nonempty := by
    by_contra hempty
    rw [Finset.not_nonempty_iff_eq_empty, Finset.filter_eq_empty_iff] at hempty
    have hsubset : List.range modules.length ⊆ s.result := by
      intro c hc
      by_contra hnot
      exact hempty (Finset.mem_range.mpr (List.mem_range.mp hc)) hnot
    have hle := (List.nodup_range.subperm hsubset).length_le
    rw [List.length_range] at hle
    omega
  obtain ⟨c, hc, hfree⟩ := Dependency.exists_free_of_acyclic hacyclic hremaining
  obtain ⟨hrange, hplaced⟩ := Finset.mem_filter.mp hc
  have hnotReady := hplacing.not_ready_of_none hknown hscan (Finset.mem_range.mp hrange) hplaced
  apply hnotReady
  rw [Core.ready_iff hknown]
  intro j hj
  have hdep := (dependsOn_iff hknown).mpr hj
  have hlt : j < modules.length := by
    obtain ⟨name, _, hresolves⟩ := hdep
    exact hresolves.lt
  by_contra hnot
  exact hfree j (Finset.mem_filter.mpr ⟨Finset.mem_range.mpr hlt, hnot⟩) hdep

theorem sortLoop_spec (hknown : Known info modules) {graph : Nat → List Nat}
    (hgraph : ∀ idx x, (graph idx).count x = (targets info modules x).count idx) {left : Nat}
    {s : SortState} (hplacing : Placing info modules s)
    (hlength : s.result.length + left = modules.length) :
    (∀ order, sortLoop info modules graph left s = some order →
      Dependency.StepByStep (IsNext info modules) order ∧
        order.Perm (List.range modules.length)) ∧
    (sortLoop info modules graph left s = none →
      ¬ Dependency.Acyclic (DependsOn info modules)) := by
  induction left generalizing s with
  | zero =>
      refine ⟨?_, by simp [sortLoop]⟩
      intro order horder
      obtain rfl : s.result = order := by simpa [sortLoop] using horder
      obtain ⟨hnodup, hlt⟩ := hplacing.length_le
      have hsubset : s.result ⊆ List.range modules.length := by
        intro i hi
        exact List.mem_range.mpr (hlt i hi)
      refine ⟨hplacing.chosen, (hnodup.subperm hsubset).perm_of_length_le ?_⟩
      rw [List.length_range]
      omega
  | succ left ih =>
      rw [sortLoop]
      cases hscan : scanBest info s.visited s.indegree 0 none modules with
      | none =>
          refine ⟨by simp, fun _ => hplacing.cycle_of_none hknown hscan (by omega)⟩
      | some pair =>
          have hnext := hplacing.isNext hknown hscan
          have hlength' : (s.place graph pair.1).result.length + left = modules.length := by
            simp only [SortState.place, List.length_append, List.length_singleton]
            omega
          exact ih (hplacing.place hgraph hnext) hlength'

/-! ### The sort -/

theorem known_of_buildGraph {g : Graph}
    (hbuild : buildGraph info (nameToIdx info 0 modules) 0 {} modules = some g) :
    Known info modules := by
  intro i name hname
  cases hmodule : modules[i]? with
  | none => simp [depsAt, hmodule] at hname
  | some module =>
      have hdep : name ∈ (info module).dependsOn := by simpa [depsAt, hmodule] using hname
      by_contra hunknown
      have hnone : nameToIdx info 0 modules name = none := by
        rw [Option.eq_none_iff_forall_ne_some]
        intro j hj
        exact hunknown ⟨j, hj⟩
      have hfailed : buildGraph info (nameToIdx info 0 modules) 0 {} modules = none :=
        buildGraph_eq_none_iff.mpr ⟨module, List.mem_of_getElem? hmodule, name, hdep, hnone⟩
      rw [hfailed] at hbuild
      contradiction

theorem placing_start {g : Graph}
    (hbuild : buildGraph info (nameToIdx info 0 modules) 0 {} modules = some g) :
    Placing info modules { indegree := g.indegree } := by
  refine ⟨Dependency.stepByStep_nil _, by simp, ?_⟩
  intro i
  change g.indegree i = _
  rw [(buildGraph_spec hbuild).2 i]
  simp [targets]

theorem count_graph {g : Graph}
    (hbuild : buildGraph info (nameToIdx info 0 modules) 0 {} modules = some g) (idx x : Nat) :
    (g.graph idx).count x = (targets info modules x).count idx := by
  rw [(buildGraph_spec hbuild).1 idx x]
  simp [targets]

theorem sortedIndices_some {order : List Nat} (hsorted : sortedIndices info modules = some order) :
    Known info modules ∧ Dependency.StepByStep (IsNext info modules) order ∧
      order.Perm (List.range modules.length) := by
  unfold sortedIndices at hsorted
  cases hbuild : buildGraph info (nameToIdx info 0 modules) 0 {} modules with
  | none => simp [hbuild] at hsorted
  | some g =>
      rw [hbuild] at hsorted
      have hknown := known_of_buildGraph hbuild
      exact ⟨hknown, (sortLoop_spec hknown (count_graph hbuild) (placing_start hbuild)
        (by simp)).1 order hsorted⟩

theorem acyclic_of_sortedIndices {order : List Nat}
    (hsorted : sortedIndices info modules = some order) :
    Dependency.Acyclic (DependsOn info modules) := by
  obtain ⟨hknown, hsteps, hperm⟩ := sortedIndices_some hsorted
  apply Dependency.acyclic_of_stepByStep hsteps fun before i hnext => hnext.notPlaced
  intro i j hdep
  have htarget := (dependsOn_iff hknown).mp hdep
  have hi : i < modules.length := by
    by_contra hge
    have hnone : modules[i]? = none := List.getElem?_eq_none (by omega)
    simp [targets, depsAt, hnone] at htarget
  refine ⟨hperm.mem_iff.mpr (List.mem_range.mpr hi), ?_⟩
  intro before hnext
  exact (ready_iff hknown).mp hnext.ready j htarget

theorem sortedIndices_eq_none_iff :
    sortedIndices info modules = none ↔
      (∃ module ∈ modules, ∃ name ∈ (info module).dependsOn,
        ∀ other ∈ modules, (info other).name ≠ name) ∨
      ¬ Dependency.Acyclic (DependsOn info modules) := by
  have hunknown : buildGraph info (nameToIdx info 0 modules) 0 {} modules = none ↔
      ∃ module ∈ modules, ∃ name ∈ (info module).dependsOn,
        ∀ other ∈ modules, (info other).name ≠ name := by
    rw [buildGraph_eq_none_iff]
    simp only [nameToIdx_eq_none_iff]
  constructor
  · intro hnone
    unfold sortedIndices at hnone
    cases hbuild : buildGraph info (nameToIdx info 0 modules) 0 {} modules with
    | none => exact Or.inl (hunknown.mp hbuild)
    | some g =>
        rw [hbuild] at hnone
        have hknown := known_of_buildGraph hbuild
        exact Or.inr ((sortLoop_spec hknown (count_graph hbuild) (placing_start hbuild)
          (by simp)).2 hnone)
  · rintro (hmissing | hcycle)
    · simp [sortedIndices, hunknown.mpr hmissing]
    · cases hsorted : sortedIndices info modules with
      | none => rfl
      | some order => exact absurd (acyclic_of_sortedIndices hsorted) hcycle

theorem filterMap_range_getElem? (modules : List P) :
    (List.range modules.length).filterMap (fun idx => modules[idx]?) = modules := by
  induction modules with
  | nil => rfl
  | cons module rest ih =>
      have hhead : (module :: rest)[0]? = some module := rfl
      rw [List.length_cons, List.range_succ_eq_map, List.filterMap_cons, hhead,
        List.filterMap_map]
      exact congrArg (module :: ·) ih

theorem topoSortWithPriority_of_some {order : List Nat}
    (hsorted : sortedIndices info modules = some order) :
    topoSortWithPriority info modules = order.filterMap (fun idx => modules[idx]?) ∧
      (topoSortWithPriority info modules).Perm modules := by
  have heq : topoSortWithPriority info modules = order.filterMap (fun idx => modules[idx]?) := by
    simp [topoSortWithPriority, hsorted]
  have hperm := (sortedIndices_some hsorted).2.2.filterMap fun idx => modules[idx]?
  rw [filterMap_range_getElem?] at hperm
  exact ⟨heq, heq ▸ hperm⟩

theorem topoSortWithPriority_eq_nil_iff :
    topoSortWithPriority info modules = [] ↔
      modules = [] ∨ sortedIndices info modules = none := by
  cases hsorted : sortedIndices info modules with
  | none => simp [topoSortWithPriority, hsorted]
  | some order =>
      have hperm := (topoSortWithPriority_of_some hsorted).2
      constructor
      · intro hnil
        rw [hnil] at hperm
        exact Or.inl hperm.nil_eq.symm
      · rintro (rfl | hnone)
        · exact hperm.eq_nil
        · contradiction

theorem nodup_topoSortWithPriority (hnodup : modules.Nodup) :
    (topoSortWithPriority info modules).Nodup := by
  cases hsorted : sortedIndices info modules with
  | none =>
      rw [topoSortWithPriority_eq_nil_iff.mpr (Or.inr hsorted)]
      exact List.nodup_nil
  | some order => exact (topoSortWithPriority_of_some hsorted).2.nodup_iff.mpr hnodup

/-- A module comes after the modules it depends on. -/
theorem sublist_of_dependsOn (hne : topoSortWithPriority info modules ≠ []) {i j : Nat} {p q : P}
    (hdep : DependsOn info modules i j) (hq : modules[i]? = some q) (hp : modules[j]? = some p) :
    [p, q].Sublist (topoSortWithPriority info modules) := by
  cases hsorted : sortedIndices info modules with
  | none => exact absurd (topoSortWithPriority_eq_nil_iff.mpr (Or.inr hsorted)) hne
  | some order =>
      obtain ⟨hknown, hsteps, hperm⟩ := sortedIndices_some hsorted
      have hi : i ∈ order :=
        hperm.mem_iff.mpr (List.mem_range.mpr (List.getElem?_eq_some_iff.mp hq).1)
      obtain ⟨before, after, horder⟩ := List.append_of_mem hi
      have hj : j ∈ before :=
        (ready_iff hknown).mp (hsteps before i after horder).ready j ((dependsOn_iff hknown).mp hdep)
      have hindices : [j, i].Sublist order := by
        rw [horder]
        exact (List.singleton_sublist.mpr hj).append
          (List.singleton_sublist.mpr List.mem_cons_self)
      rw [(topoSortWithPriority_of_some hsorted).1]
      simpa [hp, hq] using hindices.filterMap fun idx => modules[idx]?

/-- The sorted modules are a permutation of the given ones in which each is the next to place after
those before it; and there are none of them only where there was nothing to sort, or no order. -/
theorem topoSortWithPriority_spec (info : P → Module) (modules : List P) :
    (topoSortWithPriority info modules ≠ [] →
      (topoSortWithPriority info modules).Perm modules ∧
      ∃ order : List Nat, order.Perm (List.range modules.length) ∧
        topoSortWithPriority info modules = order.filterMap (fun idx => modules[idx]?) ∧
        ∀ before i after, order = before ++ i :: after → IsNext info modules before i) ∧
    (topoSortWithPriority info modules = [] ↔
      modules = [] ∨
      (∃ module ∈ modules, ∃ name ∈ (info module).dependsOn,
        ∀ other ∈ modules, (info other).name ≠ name) ∨
      ∃ i, Relation.TransGen (DependsOn info modules) i i) := by
  constructor
  · intro hne
    cases hsorted : sortedIndices info modules with
    | none => exact absurd (topoSortWithPriority_eq_nil_iff.mpr (Or.inr hsorted)) hne
    | some order =>
        obtain ⟨heq, hperm⟩ := topoSortWithPriority_of_some hsorted
        obtain ⟨_, hsteps, hrange⟩ := sortedIndices_some hsorted
        exact ⟨hperm, order, hrange, heq, hsteps⟩
  · have hcycle : ¬ Dependency.Acyclic (DependsOn info modules) ↔
        ∃ i, Relation.TransGen (DependsOn info modules) i i := by
      simp [Dependency.Acyclic]
    rw [topoSortWithPriority_eq_nil_iff, sortedIndices_eq_none_iff, hcycle]

example :
    let modules : List Module :=
      [{ name := "web", dependsOn := ["db", "db"], priority := 5 }, { name := "db", priority := -1 },
        { name := "log" }]
    (topoSortWithPriority id modules).map Module.name = ["log", "db", "web"] := by
  decide

end SoulCoreKit.Core
