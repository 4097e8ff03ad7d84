import SoulCoreKit.Lib.Run
import SoulCoreKit.Proof.TopoSort

/-!
# Hooks come in pairs

The scaffold tears modules down on three paths: after an `init` that failed, after an `onStart` that
failed, and at shutdown. On each of them the hooks of one module form one of five short sequences, and
the modules are cleaned up in the reverse of the order in which they were sorted. The hooks of a call
of `run` and of the shutdown that ends it are one log; the invariant says that every log but a running
one is complete.
-/

namespace SoulCoreKit.Core.Scaffold

variable {P : Type} [DecidableEq P]

/-! ### What a complete log is -/

/-- The hooks called on one module, in order, and whether they were ok. -/
def callsOf (p : P) (events : List (Event P)) : List (Hook × Bool) :=
  events.filterMap fun event => if event.module = p then some (event.hook, event.ok) else none

/-- The modules in the order in which they were cleaned up. -/
def cleanups (events : List (Event P)) : List P :=
  events.filterMap fun event => if event.hook = .cleanup then some event.module else none

/-- The sequences of hooks of one module: every `init` that was ok has its `cleanup`, and every
`onStart` that was ok its `onStop` before that. -/
inductive Paired : List (Hook × Bool) → Prop
  | untouched : Paired []
  | notInitialized : Paired [(.init, false)]
  | notStarted (cleaned : Bool) : Paired [(.init, true), (.cleanup, cleaned)]
  | startFailed (cleaned : Bool) :
      Paired [(.init, true), (.onStart, false), (.cleanup, cleaned)]
  | started (stopped cleaned : Bool) :
      Paired [(.init, true), (.onStart, true), (.onStop, stopped), (.cleanup, cleaned)]

structure Complete (info : P → Module) (log : RunLog P) : Prop where
  paired : ∀ p, Paired (callsOf p log.events)
  dependentsFirst : ∀ i j p q, DependsOn info log.enabled i j →
    log.enabled[i]? = some q → log.enabled[j]? = some p →
    q ∈ cleanups log.events → [q, p].Sublist (cleanups log.events)

/-! ### The loops -/

theorem callsOf_append (p : P) (first second : List (Event P)) :
    callsOf p (first ++ second) = callsOf p first ++ callsOf p second :=
  List.filterMap_append

theorem callsOf_cons_of_eq {event : Event P} {p : P} (heq : event.module = p)
    (events : List (Event P)) : callsOf p (event :: events) = (event.hook, event.ok) :: callsOf p events :=
  List.filterMap_cons_some (if_pos heq)

theorem callsOf_cons_of_ne {event : Event P} {p : P} (hne : event.module ≠ p)
    (events : List (Event P)) : callsOf p (event :: events) = callsOf p events :=
  List.filterMap_cons_none (if_neg hne)

omit [DecidableEq P] in
theorem cleanups_append (first second : List (Event P)) :
    cleanups (first ++ second) = cleanups first ++ cleanups second :=
  List.filterMap_append

/-- One call of the hook on each of the modules. -/
structure Block (hook : Hook) (modules : List P) (events : List (Event P)) : Prop where
  modules_eq : events.map Event.module = modules
  hook_eq : ∀ event ∈ events, event.hook = hook

def AllOk (events : List (Event P)) : Prop := ∀ event ∈ events, event.ok = true

omit [DecidableEq P] in
theorem block_nil (hook : Hook) : Block hook ([] : List P) [] := ⟨rfl, by simp⟩

omit [DecidableEq P] in
theorem Block.cons {hook : Hook} {modules : List P} {events : List (Event P)}
    (hblock : Block hook modules events) (module : P) (ok : Bool) :
    Block hook (module :: modules) (⟨hook, module, ok⟩ :: events) := by
  refine ⟨by rw [List.map_cons, hblock.modules_eq], ?_⟩
  intro event hevent
  obtain rfl | hrest := List.mem_cons.mp hevent
  · rfl
  · exact hblock.hook_eq event hrest

theorem Block.callsOf_notMem {hook : Hook} {modules : List P} {events : List (Event P)}
    (hblock : Block hook modules events) {p : P} (hp : p ∉ modules) : callsOf p events = [] := by
  rw [callsOf, List.filterMap_eq_nil_iff]
  intro event hevent
  have hmodule : event.module ≠ p := by
    rintro rfl
    exact hp (hblock.modules_eq ▸ List.mem_map_of_mem hevent)
  exact if_neg hmodule

theorem Block.callsOf_mem {hook : Hook} {modules : List P} {events : List (Event P)}
    (hblock : Block hook modules events) (hnodup : modules.Nodup) {p : P} (hp : p ∈ modules) :
    ∃ ok, callsOf p events = [(hook, ok)] ∧ (AllOk events → ok = true) := by
  obtain ⟨event, hevent, rfl⟩ := List.mem_map.mp (hblock.modules_eq ▸ hp)
  obtain ⟨before, after, rfl⟩ := List.append_of_mem hevent
  rw [← hblock.modules_eq, List.map_append, List.map_cons, List.nodup_append] at hnodup
  obtain ⟨_, htail, hdisjoint⟩ := hnodup
  have hbefore : callsOf event.module before = [] := by
    rw [callsOf, List.filterMap_eq_nil_iff]
    intro other hother
    exact if_neg (hdisjoint other.module (List.mem_map_of_mem hother) event.module List.mem_cons_self)
  have hafter : callsOf event.module after = [] := by
    rw [callsOf, List.filterMap_eq_nil_iff]
    intro other hother
    apply if_neg
    intro heq
    exact (List.nodup_cons.mp htail).1 (heq ▸ List.mem_map_of_mem hother)
  refine ⟨event.ok, ?_, fun hok => hok event (by simp)⟩
  rw [callsOf_append, hbefore, callsOf_cons_of_eq rfl, hafter, hblock.hook_eq event (by simp)]
  rfl

theorem Block.callsOf_of_allOk {hook : Hook} {modules : List P} {events : List (Event P)}
    (hblock : Block hook modules events) (hok : AllOk events) (hnodup : modules.Nodup) {p : P}
    (hp : p ∈ modules) : callsOf p events = [(hook, true)] := by
  obtain ⟨ok, hcalls, htrue⟩ := hblock.callsOf_mem hnodup hp
  rw [hcalls, htrue hok]

theorem Block.callsOf_reverse {hook : Hook} {modules : List P} {events : List (Event P)}
    (hblock : Block hook modules.reverse events) (hnodup : modules.Nodup) {p : P}
    (hp : p ∈ modules) : ∃ ok, callsOf p events = [(hook, ok)] := by
  obtain ⟨ok, hcalls, _⟩ :=
    hblock.callsOf_mem (List.nodup_reverse.mpr hnodup) (List.mem_reverse.mpr hp)
  exact ⟨ok, hcalls⟩

theorem Block.callsOf_reverse_notMem {hook : Hook} {modules : List P} {events : List (Event P)}
    (hblock : Block hook modules.reverse events) {p : P} (hp : p ∉ modules) :
    callsOf p events = [] := by
  apply hblock.callsOf_notMem
  rwa [List.mem_reverse]

omit [DecidableEq P] in
theorem Block.cleanups_eq {modules : List P} {events : List (Event P)}
    (hblock : Block .cleanup modules events) : cleanups events = modules := by
  rw [← hblock.modules_eq, cleanups, ← List.filterMap_eq_map]
  apply List.filterMap_congr
  intro event hevent
  exact if_pos (hblock.hook_eq event hevent)

omit [DecidableEq P] in
theorem Block.cleanups_nil {hook : Hook} {modules : List P} {events : List (Event P)}
    (hblock : Block hook modules events) (hhook : hook ≠ .cleanup) : cleanups events = [] := by
  rw [cleanups, List.filterMap_eq_nil_iff]
  intro event hevent
  apply if_neg
  rw [hblock.hook_eq event hevent]
  exact hhook

omit [DecidableEq P] in
theorem callEach_spec (hook : Hook) (outcome : Nat → P → Except String Unit)
    (events : List (Event P)) (modules : List P) :
    ∃ calls, callEach hook outcome events modules = events ++ calls ∧ Block hook modules calls := by
  induction modules generalizing events with
  | nil => exact ⟨[], by simp [callEach], block_nil hook⟩
  | cons module rest ih =>
      obtain ⟨calls, hcalls, hblock⟩ :=
        ih (events ++ [⟨hook, module, (outcome events.length module).toBool⟩])
      exact ⟨_, by rw [callEach, hcalls, List.append_assoc, List.singleton_append],
        hblock.cons module _⟩

omit [DecidableEq P] in
theorem AllOk.cons {events : List (Event P)} (hok : AllOk events) (hook : Hook) (module : P) :
    AllOk (⟨hook, module, true⟩ :: events) := by
  intro event hevent
  obtain rfl | hrest := List.mem_cons.mp hevent
  · rfl
  · exact hok event hrest

omit [DecidableEq P] in
theorem allOk_nil : AllOk ([] : List (Event P)) := by
  intro event hevent
  contradiction

omit [DecidableEq P] in
/-- `initLoop` initialises all modules, or some of them until one fails, and rolls these back. -/
theorem initLoop_spec (o : Outcomes P) (initialized : List P) (events : List (Event P))
    (rest : List P) :
    (∃ inits, initLoop o initialized events rest = (true, initialized ++ rest, events ++ inits) ∧
      Block .init rest inits ∧ AllOk inits) ∨
    ∃ first module later inits cleaned, rest = first ++ module :: later ∧
      initLoop o initialized events rest = (false, initialized ++ first,
        events ++ (inits ++ ⟨.init, module, false⟩ :: cleaned)) ∧
      Block .init first inits ∧ AllOk inits ∧
      Block .cleanup (initialized ++ first).reverse cleaned := by
  induction rest generalizing initialized events with
  | nil => exact Or.inl ⟨[], by simp [initLoop], block_nil .init, allOk_nil⟩
  | cons module rest ih =>
      rw [initLoop]
      cases o.init events.length module with
      | error failure =>
          obtain ⟨cleaned, hcleaned, hblock⟩ := callEach_spec .cleanup o.cleanup
            (events ++ [⟨.init, module, false⟩]) initialized.reverse
          refine Or.inr ⟨[], module, rest, [], cleaned, rfl, ?_, block_nil .init, allOk_nil, ?_⟩
          · simp [hcleaned]
          · simpa using hblock
      | ok value =>
          have hnext := ih (initialized ++ [module]) (events ++ [⟨.init, module, true⟩])
          obtain ⟨inits, heq, hinits, hok⟩ |
            ⟨first, failing, later, inits, cleaned, hrest, heq, hinits, hok, hcleaned⟩ := hnext
          · refine Or.inl ⟨_, ?_, hinits.cons module true, hok.cons .init module⟩
            simp [heq]
          · refine Or.inr ⟨module :: first, failing, later, _, cleaned, by rw [hrest]; rfl, ?_,
              hinits.cons module true, hok.cons .init module, by simpa using hcleaned⟩
            simp [heq]

omit [DecidableEq P] in
/-- `startLoop` starts all modules, or some of them until one fails, stops these and cleans up every
initialised module. -/
theorem startLoop_spec (o : Outcomes P) (initialized started : List P) (events : List (Event P))
    (rest : List P) :
    (∃ starts, startLoop o initialized started events rest = (true, events ++ starts) ∧
      Block .onStart rest starts ∧ AllOk starts) ∨
    ∃ first module later starts stopped cleaned, rest = first ++ module :: later ∧
      startLoop o initialized started events rest = (false,
        events ++ (starts ++ ⟨.onStart, module, false⟩ :: (stopped ++ cleaned))) ∧
      Block .onStart first starts ∧ AllOk starts ∧
      Block .onStop (started ++ first).reverse stopped ∧
      Block .cleanup initialized.reverse cleaned := by
  induction rest generalizing started events with
  | nil => exact Or.inl ⟨[], by simp [startLoop], block_nil .onStart, allOk_nil⟩
  | cons module rest ih =>
      rw [startLoop]
      cases o.onStart events.length module with
      | error failure =>
          obtain ⟨stopped, hstopped, hstopBlock⟩ := callEach_spec .onStop o.onStop
            (events ++ [⟨.onStart, module, false⟩]) started.reverse
          obtain ⟨cleaned, hcleaned, hcleanBlock⟩ := callEach_spec .cleanup o.cleanup
            (events ++ [⟨.onStart, module, false⟩] ++ stopped) initialized.reverse
          refine Or.inr ⟨[], module, rest, [], stopped, cleaned, rfl, ?_, block_nil .onStart,
            allOk_nil, by simpa using hstopBlock, hcleanBlock⟩
          change (false, callEach .cleanup o.cleanup
            (callEach .onStop o.onStop _ started.reverse) initialized.reverse) = _
          rw [hstopped, hcleaned]
          simp
      | ok value =>
          have hnext := ih (started ++ [module]) (events ++ [⟨.onStart, module, true⟩])
          obtain ⟨starts, heq, hstarts, hok⟩ | ⟨first, failing, later, starts, stopped, cleaned,
            hrest, heq, hstarts, hok, hstopped, hcleaned⟩ := hnext
          · refine Or.inl ⟨_, ?_, hstarts.cons module true, hok.cons .onStart module⟩
            simp [heq]
          · refine Or.inr ⟨module :: first, failing, later, _, stopped, cleaned,
              by rw [hrest]; rfl, ?_, hstarts.cons module true, hok.cons .onStart module,
              by simpa using hstopped, hcleaned⟩
            simp [heq]

theorem stopAndCleanup_spec (o : Outcomes P) (events : List (Event P)) (modules : List P) :
    ∃ calls, stopAndCleanup o events modules = events ++ calls ∧ cleanups calls = modules ∧
      (∀ p, p ∉ modules → callsOf p calls = []) ∧
      (modules.Nodup → ∀ p ∈ modules,
        ∃ stopped cleaned, callsOf p calls = [(.onStop, stopped), (.cleanup, cleaned)]) := by
  induction modules generalizing events with
  | nil => exact ⟨[], by simp [stopAndCleanup], rfl, fun p _ => rfl, by simp⟩
  | cons module rest ih =>
      rw [stopAndCleanup]
      let stop : Event P := ⟨.onStop, module, (o.onStop events.length module).toBool⟩
      let clean : Event P := ⟨.cleanup, module, (o.cleanup (events ++ [stop]).length module).toBool⟩
      obtain ⟨calls, heq, hcleanups, hother, hmem⟩ := ih (events ++ [stop] ++ [clean])
      refine ⟨stop :: clean :: calls, heq.trans (by simp), ?_, ?_, ?_⟩
      · have hstop : cleanups [stop] = [] := rfl
        have hclean : cleanups [clean] = [module] := rfl
        have hsplit : stop :: clean :: calls = [stop] ++ ([clean] ++ calls) := rfl
        rw [hsplit, cleanups_append, cleanups_append, hstop, hclean, hcleanups]
        rfl
      · intro p hp
        rw [List.mem_cons, not_or] at hp
        have hne : ¬ module = p := fun heq => hp.1 heq.symm
        have hrest := hother p hp.2
        simpa [callsOf, stop, clean, hne] using hrest
      · intro hnodup p hp
        obtain ⟨hnotMem, hrest⟩ := List.nodup_cons.mp hnodup
        by_cases hpm : module = p
        · subst hpm
          refine ⟨stop.ok, clean.ok, ?_⟩
          have hnil := hother module hnotMem
          simpa [callsOf, stop, clean] using hnil
        · obtain ⟨stopped, cleaned, hcalls⟩ := hmem hrest p
            ((List.mem_cons.mp hp).resolve_left fun heq => hpm heq.symm)
          refine ⟨stopped, cleaned, ?_⟩
          rw [← hcalls]
          simp [callsOf, stop, clean, hpm]

/-! ### The three teardown paths -/

omit [DecidableEq P] in
theorem sublist_of_mem_front {first later : List P} (hnodup : (first ++ later).Nodup) {p q : P}
    (hsublist : [p, q].Sublist (first ++ later)) (hq : q ∈ first) : [p, q].Sublist first := by
  have hlater : q ∉ later := (List.disjoint_of_nodup_append hnodup) hq
  obtain ⟨front, back, hsplit, hfront, hback⟩ := List.sublist_append_iff.mp hsublist
  obtain rfl : back = [] := by
    by_contra hne
    have hlast : q ∈ back := by
      have hgetLast := congrArg List.getLast? hsplit
      rw [List.getLast?_append_of_ne_nil _ hne] at hgetLast
      exact List.mem_of_getLast? hgetLast.symm
    exact hlater (hback.subset hlast)
  rwa [hsplit, List.append_nil]

omit [DecidableEq P] in
/-- Modules that are cleaned up in the reverse of the order they were sorted in are cleaned up before
those they depend on, also where only the first ones were initialised. -/
theorem dependentsFirst_of_reverse {info : P → Module} {enabled first later : List P}
    (hsorted : topoSortWithPriority info enabled = first ++ later) (hnodup : enabled.Nodup)
    {i j : Nat} {p q : P} (hdep : DependsOn info enabled i j) (hq : enabled[i]? = some q)
    (hp : enabled[j]? = some p) (hmem : q ∈ first.reverse) : [q, p].Sublist first.reverse := by
  have hne : topoSortWithPriority info enabled ≠ [] := by
    rw [hsorted]
    intro hnil
    rw [(List.append_eq_nil_iff.mp hnil).1] at hmem
    contradiction
  have hsublist := sublist_of_dependsOn hne hdep hq hp
  have hsortedNodup := @nodup_topoSortWithPriority P info enabled hnodup
  rw [hsorted] at hsublist hsortedNodup
  exact List.reverse_sublist.mpr
    (sublist_of_mem_front hsortedNodup hsublist (List.mem_reverse.mp hmem))

section Teardown

variable {info : P → Module} {enabled : List P}

theorem complete_empty : Complete info ⟨enabled, []⟩ := by
  refine ⟨fun p => Paired.untouched, ?_⟩
  intro i j p q _ _ _ hmem
  contradiction

variable (hnodup : enabled.Nodup)

include hnodup

omit [DecidableEq P] in
theorem nodup_of_sorted {first later : List P} {module : P}
    (hsorted : topoSortWithPriority info enabled = first ++ module :: later) :
    (first ++ module :: later).Nodup ∧ first.Nodup ∧ module ∉ first := by
  have hall := @nodup_topoSortWithPriority P info enabled hnodup
  rw [hsorted] at hall
  refine ⟨hall, (List.nodup_append.mp hall).1, ?_⟩
  intro hmem
  exact (List.disjoint_of_nodup_append hall) hmem List.mem_cons_self

theorem complete_of_init_failed {first later : List P} {module : P} {inits cleaned : List (Event P)}
    (hsorted : topoSortWithPriority info enabled = first ++ module :: later)
    (hinits : Block .init first inits) (hok : AllOk inits)
    (hcleaned : Block .cleanup first.reverse cleaned) :
    Complete info ⟨enabled, inits ++ ⟨.init, module, false⟩ :: cleaned⟩ := by
  obtain ⟨_, hfirst, hmodule⟩ := nodup_of_sorted hnodup hsorted
  have hcleanups : cleanups (inits ++ ⟨.init, module, false⟩ :: cleaned) = first.reverse := by
    rw [cleanups_append, hinits.cleanups_nil (by decide), List.nil_append]
    exact hcleaned.cleanups_eq
  constructor
  · intro p
    rw [callsOf_append]
    by_cases hpm : module = p
    · rw [callsOf_cons_of_eq hpm]
      subst hpm
      rw [hinits.callsOf_notMem hmodule, hcleaned.callsOf_reverse_notMem hmodule]
      exact Paired.notInitialized
    · rw [callsOf_cons_of_ne hpm]
      by_cases hp : p ∈ first
      · obtain ⟨cleanedOk, hclean⟩ := hcleaned.callsOf_reverse hfirst hp
        rw [hinits.callsOf_of_allOk hok hfirst hp, hclean]
        exact Paired.notStarted cleanedOk
      · rw [hinits.callsOf_notMem hp, hcleaned.callsOf_reverse_notMem hp]
        exact Paired.untouched
  · intro i j p q hdep hq hp hmem
    rw [hcleanups] at hmem ⊢
    exact dependentsFirst_of_reverse hsorted hnodup hdep hq hp hmem

theorem complete_of_start_failed {first later : List P} {module : P}
    {inits starts stopped cleaned : List (Event P)}
    (hsorted : topoSortWithPriority info enabled = first ++ module :: later)
    (hinits : Block .init (first ++ module :: later) inits) (hinitsOk : AllOk inits)
    (hstarts : Block .onStart first starts) (hstartsOk : AllOk starts)
    (hstopped : Block .onStop first.reverse stopped)
    (hcleaned : Block .cleanup (first ++ module :: later).reverse cleaned) :
    Complete info
      ⟨enabled, inits ++ (starts ++ ⟨.onStart, module, false⟩ :: (stopped ++ cleaned))⟩ := by
  obtain ⟨hall, hfirst, hmodule⟩ := nodup_of_sorted hnodup hsorted
  have hcleanups : cleanups (inits ++ (starts ++ ⟨.onStart, module, false⟩ :: (stopped ++ cleaned))) =
      (first ++ module :: later).reverse := by
    rw [cleanups_append, cleanups_append, hinits.cleanups_nil (by decide),
      hstarts.cleanups_nil (by decide), List.nil_append, List.nil_append]
    change cleanups (stopped ++ cleaned) = _
    rw [cleanups_append, hstopped.cleanups_nil (by decide), hcleaned.cleanups_eq, List.nil_append]
  constructor
  · intro p
    rw [callsOf_append, callsOf_append]
    by_cases hp : p ∈ first ++ module :: later
    · obtain ⟨cleanedOk, hclean⟩ := hcleaned.callsOf_reverse hall hp
      rw [hinits.callsOf_of_allOk hinitsOk hall hp]
      by_cases hpm : module = p
      · rw [callsOf_cons_of_eq hpm]
        subst hpm
        rw [callsOf_append, hstarts.callsOf_notMem hmodule,
          hstopped.callsOf_reverse_notMem hmodule, hclean]
        exact Paired.startFailed cleanedOk
      · rw [callsOf_cons_of_ne hpm, callsOf_append, hclean]
        by_cases hpFirst : p ∈ first
        · obtain ⟨stoppedOk, hstop⟩ := hstopped.callsOf_reverse hfirst hpFirst
          rw [hstarts.callsOf_of_allOk hstartsOk hfirst hpFirst, hstop]
          exact Paired.started stoppedOk cleanedOk
        · rw [hstarts.callsOf_notMem hpFirst, hstopped.callsOf_reverse_notMem hpFirst]
          exact Paired.notStarted cleanedOk
    · have hpFirst : p ∉ first := fun hmem => hp (List.mem_append_left _ hmem)
      have hpm : ¬ module = p := by
        rintro rfl
        exact hp (List.mem_append_right _ List.mem_cons_self)
      rw [callsOf_cons_of_ne hpm, callsOf_append, hinits.callsOf_notMem hp,
        hstarts.callsOf_notMem hpFirst, hstopped.callsOf_reverse_notMem hpFirst,
        hcleaned.callsOf_reverse_notMem hp]
      exact Paired.untouched
  · intro i j p q hdep hq hp hmem
    rw [hcleanups] at hmem ⊢
    rw [← List.append_nil (first ++ module :: later)] at hsorted
    exact dependentsFirst_of_reverse hsorted hnodup hdep hq hp hmem

theorem complete_of_shutdown {sorted : List P} {inits starts calls : List (Event P)}
    (hsorted : topoSortWithPriority info enabled = sorted)
    (hinits : Block .init sorted inits) (hinitsOk : AllOk inits)
    (hstarts : Block .onStart sorted starts) (hstartsOk : AllOk starts)
    (hcleanups : cleanups calls = sorted.reverse)
    (hother : ∀ p, p ∉ sorted.reverse → callsOf p calls = [])
    (hcalls : sorted.reverse.Nodup → ∀ p ∈ sorted.reverse,
      ∃ stopped cleaned, callsOf p calls = [(.onStop, stopped), (.cleanup, cleaned)]) :
    Complete info ⟨enabled, inits ++ starts ++ calls⟩ := by
  have hall := @nodup_topoSortWithPriority P info enabled hnodup
  rw [hsorted] at hall
  have hreverse : cleanups (inits ++ starts ++ calls) = sorted.reverse := by
    rw [cleanups_append, cleanups_append, hinits.cleanups_nil (by decide),
      hstarts.cleanups_nil (by decide), hcleanups]
    rfl
  constructor
  · intro p
    rw [callsOf_append, callsOf_append]
    by_cases hp : p ∈ sorted
    · obtain ⟨stopped, cleaned, hteardown⟩ :=
        hcalls (List.nodup_reverse.mpr hall) p (List.mem_reverse.mpr hp)
      rw [hinits.callsOf_of_allOk hinitsOk hall hp, hstarts.callsOf_of_allOk hstartsOk hall hp,
        hteardown]
      exact Paired.started stopped cleaned
    · rw [hinits.callsOf_notMem hp, hstarts.callsOf_notMem hp,
        hother p (by rwa [List.mem_reverse])]
      exact Paired.untouched
  · intro i j p q hdep hq hp hmem
    rw [hreverse] at hmem ⊢
    rw [← List.append_nil sorted] at hsorted
    exact dependentsFirst_of_reverse hsorted hnodup hdep hq hp hmem

end Teardown

/-! ### The invariant -/

/-- The log of a scaffold that runs: every sorted module was initialised and started. -/
structure Live (info : P → Module) (s : Scaffold P) (last : RunLog P) : Prop where
  left : s.mState ≠ .uninitialized
  nodup : last.enabled.Nodup
  sorted : topoSortWithPriority info last.enabled = s.mSortedModules
  events : ∃ inits starts, last.events = inits ++ starts ∧
    Block .init s.mSortedModules inits ∧ AllOk inits ∧
    Block .onStart s.mSortedModules starts ∧ AllOk starts

structure Inv (info : P → Module) (modules : List P) (s : Scaffold P) : Prop where
  modules_eq : s.mModules = modules
  idle : s.mInitialized = false → ∀ log ∈ s.log, Complete info log
  live : s.mInitialized = true → ∃ earlier last, s.log = earlier ++ [last] ∧
    (∀ log ∈ earlier, Complete info log) ∧ Live info s last

variable {info : P → Module} {modules : List P} {s : Scaffold P}

theorem Inv.logged (hinv : Inv info modules s) (hidle : s.mInitialized = false) (sorted : List P)
    {log : RunLog P} (hlog : Complete info log) :
    Inv info modules { s with mSortedModules := sorted, log := s.log ++ [log] } := by
  refine ⟨hinv.modules_eq, ?_, fun htrue => ?_⟩
  · intro _ other hother
    obtain hearlier | hlast := List.mem_append.mp hother
    · exact hinv.idle hidle other hearlier
    · rwa [List.mem_singleton.mp hlast]
  · exact absurd (hidle.symm.trans htrue) Bool.false_ne_true

omit [DecidableEq P] in
theorem run_of_left (hstate : s.mState ≠ .uninitialized) (o : Outcomes P) :
    (s.run info o).2 = s := by
  simp [run, hstate]

omit [DecidableEq P] in
/-- What a `run` does to a scaffold that has not run: the modules could not be sorted, an `init` or an
`onStart` failed, or every module was started. -/
theorem run_cases (hstate : s.mState = .uninitialized) (o : Outcomes P) {enabled sorted : List P}
    (henabled : s.mModules.filter o.isEnabled = enabled)
    (hsorted : topoSortWithPriority info enabled = sorted) :
    (s.run info o).2 = { s with log := s.log ++ [⟨enabled, []⟩] } ∨
    (∃ first module later inits cleaned, sorted = first ++ module :: later ∧
      Block .init first inits ∧ AllOk inits ∧ Block .cleanup first.reverse cleaned ∧
      (s.run info o).2 = { s with
        mSortedModules := sorted
        log := s.log ++ [⟨enabled, inits ++ ⟨.init, module, false⟩ :: cleaned⟩] }) ∨
    (∃ first module later inits starts stopped cleaned, sorted = first ++ module :: later ∧
      Block .init sorted inits ∧ AllOk inits ∧ Block .onStart first starts ∧ AllOk starts ∧
      Block .onStop first.reverse stopped ∧ Block .cleanup sorted.reverse cleaned ∧
      (s.run info o).2 = { s with
        mSortedModules := sorted
        log := s.log ++ [⟨enabled,
          inits ++ (starts ++ ⟨.onStart, module, false⟩ :: (stopped ++ cleaned))⟩] }) ∨
    ∃ inits starts, Block .init sorted inits ∧ AllOk inits ∧ Block .onStart sorted starts ∧
      AllOk starts ∧
      (s.run info o).2 = { s with
        mSortedModules := sorted
        mInitialized := true
        mState := .running
        log := s.log ++ [⟨enabled, inits ++ starts⟩] } := by
  subst henabled hsorted
  by_cases hfailed : (topoSortWithPriority info (s.mModules.filter o.isEnabled)).isEmpty ∧
      ¬ (s.mModules.filter o.isEnabled).isEmpty
  · left
    simp only [run, hstate, ne_eq, not_true_eq_false, if_false, if_pos hfailed]
  · right
    obtain ⟨inits, hinitLoop, hinits, hok⟩ |
      ⟨first, module, later, inits, cleaned, hsplit, hinitLoop, hinits, hok, hcleaned⟩ :=
      initLoop_spec o [] [] (topoSortWithPriority info (s.mModules.filter o.isEnabled))
    · right
      obtain ⟨starts, hstartLoop, hstarts, hstartsOk⟩ |
        ⟨first, module, later, starts, stopped, cleaned, hsplit, hstartLoop, hstarts, hstartsOk,
          hstopped, hcleaned⟩ :=
        startLoop_spec o (topoSortWithPriority info (s.mModules.filter o.isEnabled)) [] inits
          (topoSortWithPriority info (s.mModules.filter o.isEnabled))
      · right
        refine ⟨inits, starts, hinits, hok, hstarts, hstartsOk, ?_⟩
        simp only [run, hstate, ne_eq, not_true_eq_false, if_false, if_neg hfailed, hinitLoop,
          List.nil_append, hstartLoop]
      · left
        refine ⟨first, module, later, inits, starts, stopped, cleaned, hsplit, hinits, hok, hstarts,
          hstartsOk, hstopped, hcleaned, ?_⟩
        simp only [run, hstate, ne_eq, not_true_eq_false, if_false, if_neg hfailed, hinitLoop,
          List.nil_append, hstartLoop]
    · left
      refine ⟨first, module, later, inits, cleaned, hsplit, hinits, hok, hcleaned, ?_⟩
      simp only [run, hstate, ne_eq, not_true_eq_false, if_false, if_neg hfailed, hinitLoop,
        List.nil_append]

theorem run_inv (hset : modules.Nodup) (hinv : Inv info modules s) (o : Outcomes P) :
    Inv info modules (s.run info o).2 := by
  by_cases hstate : s.mState = .uninitialized
  · have hidle : s.mInitialized = false := by
      by_contra hinit
      obtain ⟨_, last, _, _, hlive⟩ := hinv.live (by simpa using hinit)
      exact hlive.left hstate
    have henabled : (s.mModules.filter o.isEnabled).Nodup :=
      (hinv.modules_eq ▸ hset).filter o.isEnabled
    obtain heq | ⟨first, module, later, inits, cleaned, hsplit, hinits, hok, hcleaned, heq⟩ |
      ⟨first, module, later, inits, starts, stopped, cleaned, hsplit, hinits, hok, hstarts, hstartsOk,
        hstopped, hcleaned, heq⟩ |
      ⟨inits, starts, hinits, hok, hstarts, hstartsOk, heq⟩ := run_cases hstate o rfl rfl
    · rw [heq]
      exact hinv.logged hidle s.mSortedModules complete_empty
    · rw [heq]
      exact hinv.logged hidle _ (complete_of_init_failed henabled hsplit hinits hok hcleaned)
    · rw [heq]
      rw [hsplit] at hinits hcleaned
      exact hinv.logged hidle _ (complete_of_start_failed henabled hsplit hinits hok hstarts hstartsOk
        hstopped hcleaned)
    · rw [heq]
      refine ⟨hinv.modules_eq, by simp, ?_⟩
      intro _
      exact ⟨s.log, _, rfl, hinv.idle hidle,
        ⟨State.noConfusion, henabled, rfl, inits, starts, rfl, hinits, hok, hstarts, hstartsOk⟩⟩
  · rw [run_of_left hstate]
    exact hinv

omit [DecidableEq P] in
theorem extendLog_concat (f : List (Event P) → List (Event P)) (earlier : List (RunLog P))
    (last : RunLog P) :
    extendLog f (earlier ++ [last]) = earlier ++ [{ last with events := f last.events }] := by
  induction earlier with
  | nil => rfl
  | cons first rest ih =>
      cases rest with
      | nil => rfl
      | cons next rest => exact congrArg (first :: ·) ih

theorem shutdown_inv (hinv : Inv info modules s) (o : Outcomes P) :
    Inv info modules (s.shutdown o) ∧ (s.shutdown o).mInitialized = false := by
  cases hinit : s.mInitialized with
  | false =>
      have hsame : s.shutdown o = s := by simp [shutdown, hinit]
      rw [hsame]
      exact ⟨hinv, hinit⟩
  | true =>
      obtain ⟨earlier, last, hlog, hearlier, hlive⟩ := hinv.live hinit
      obtain ⟨inits, starts, hevents, hinits, hok, hstarts, hstartsOk⟩ := hlive.events
      obtain ⟨calls, hcalls, hcleanups, hother, hmem⟩ :=
        stopAndCleanup_spec o (inits ++ starts) s.mSortedModules.reverse
      have hcomplete : Complete info ⟨last.enabled, inits ++ starts ++ calls⟩ :=
        complete_of_shutdown hlive.nodup hlive.sorted hinits hok hstarts hstartsOk hcleanups hother
          hmem
      have heq : s.shutdown o = { s with
          log := earlier ++ [⟨last.enabled, inits ++ starts ++ calls⟩]
          mInitialized := false
          mState := .shutdown } := by
        simp only [shutdown, hinit, not_true_eq_false, if_false, hlog, extendLog_concat, hevents,
          hcalls]
      rw [heq]
      refine ⟨⟨hinv.modules_eq, ?_, by simp⟩, rfl⟩
      intro _ log hmemLog
      obtain hleft | hright := List.mem_append.mp hmemLog
      · exact hearlier log hleft
      · rwa [List.mem_singleton.mp hright]

theorem step_inv (hset : modules.Nodup) (hinv : Inv info modules s) (action : Action P) :
    Inv info modules (s.step info action) := by
  cases action with
  | run o => exact run_inv hset hinv o
  | shutdown o => exact (shutdown_inv hinv o).1

/-- However a scaffold was run and shut down, once it is destroyed the hooks of every run are
complete. -/
theorem hooks_paired_and_ordered (info : P → Module) (modules : List P) (hset : modules.Nodup)
    (actions : List (Action P)) (o : Outcomes P) :
    ∀ log ∈ ((SoulCoreKit.run (step info) { mModules := modules } actions).destroy o).log,
      Complete info log := by
  have hstart : Inv info modules { mModules := modules } := ⟨rfl, by simp, by simp⟩
  have hinv : Inv info modules (SoulCoreKit.run (step info) { mModules := modules } actions) :=
    run_induction hstart (fun s action hs => step_inv hset hs action) actions
  obtain ⟨hfinal, hidle⟩ := shutdown_inv hinv o
  exact hfinal.idle hidle

def twoModules : Fin 2 → Module
  | 0 => { name := "db" }
  | 1 => { name := "web", dependsOn := ["db"] }

/-- The second module fails in the given hook, and every `onStop` throws. -/
def failingIn (hook : Option Hook) : Outcomes (Fin 2) where
  isEnabled := fun _ => true
  init := fun _ p =>
    if p = 1 ∧ hook = some .init then .error ⟨.internalError, "init"⟩ else .ok ()
  onStart := fun _ p =>
    if p = 1 ∧ hook = some .onStart then .error ⟨.internalError, "start"⟩ else .ok ()
  onStop := fun _ _ => .error "stop"
  cleanup := fun _ _ => .ok ()
  exec := 0

/-- A run whose `init` fails, one whose `onStart` fails, and one that is shut down by the
destructor. -/
theorem hooks_paired_and_ordered_twoModules :
    [(0 : Fin 2), 1].Nodup ∧
    ∀ log ∈ ((SoulCoreKit.run (step twoModules) { mModules := [0, 1] }
      [.run (failingIn (some .init)), .run (failingIn (some .onStart)),
        .run (failingIn none)]).destroy (failingIn none)).log,
      Complete twoModules log :=
  ⟨by decide, hooks_paired_and_ordered twoModules [0, 1] (by decide) _ _⟩

example :
    (((SoulCoreKit.run (step twoModules) { mModules := [0, 1] }
      [.run (failingIn (some .init)), .run (failingIn (some .onStart)),
        .run (failingIn none)]).destroy (failingIn none)).log.map fun log =>
      log.events.map fun event => (event.hook, event.module)) =
    [[(.init, 0), (.init, 1), (.cleanup, 0)],
      [(.init, 0), (.init, 1), (.onStart, 0), (.onStart, 1), (.onStop, 0), (.cleanup, 1),
        (.cleanup, 0)],
      [(.init, 0), (.init, 1), (.onStart, 0), (.onStart, 1), (.onStop, 1), (.cleanup, 1),
        (.onStop, 0), (.cleanup, 0)]] := by
  decide

end SoulCoreKit.Core.Scaffold
