import Mathlib.Data.List.Count
import SoulCoreKit.Lib.Run
import SoulCoreKit.Plugin.PluginManager

/-!
# Every plugin handle is used as it should be

What may be called on a handle next is a matter of four phases: it is not open yet, it is loaded, its
plugin is running, or it is closed. The flag of a handle in the manager always tells which of the two
middle ones it is in, the handles that the manager does not hold are not open yet or closed, and the
destruction of the manager closes the rest.
-/

namespace SoulCoreKit.Plugin

open UnorderedMap

/-! ### Using a handle -/

/-- The successful initialisations of a handle and its shutdowns. -/
def sessions (handle : Nat) : List Event → List Bool :=
  List.filterMap fun
    | .pluginInitialize other result => if other = handle ∧ result = 0 then some true else none
    | .pluginShutdown other => if other = handle then some false else none
    | _ => none

/-- Each handle is opened at most once and closed as often; its successful initialisations and its
shutdowns take turns, beginning with the former and ending with the latter; and nothing happens to it
after it was closed. -/
structure WellUsed (trace : List Event) : Prop where
  opened : ∀ handle, trace.count (.dlopen handle) ≤ 1
  closed : ∀ handle, trace.count (.dlclose handle) = trace.count (.dlopen handle)
  paired : ∀ handle, ∃ n, sessions handle trace = (List.replicate n [true, false]).flatten
  silent : ∀ handle before after, trace = before ++ .dlclose handle :: after →
    ∀ event ∈ after, event.handle ≠ handle

inductive Phase where
  | unopened
  | loaded
  | running
  | closed
  deriving DecidableEq, Repr

def Phase.next : Phase → Event → Option Phase
  | .unopened, .dlopen _ => some .loaded
  | .loaded, .pluginGetMetadata _ => some .loaded
  | .loaded, .pluginCreate _ => some .loaded
  | .loaded, .pluginInitialize _ result => some (if result = 0 then .running else .loaded)
  | .loaded, .dlclose _ => some .closed
  | .running, .pluginShutdown _ => some .loaded
  | _, _ => none

def advance (handle : Nat) (phase : Option Phase) (event : Event) : Option Phase :=
  if event.handle = handle then phase.bind (·.next event) else phase

/-- The phase of a handle after the trace; nothing where something happened that should not. -/
def phase (handle : Nat) (trace : List Event) : Option Phase :=
  trace.foldl (advance handle) (some .unopened)

variable {handle : Nat} {trace events : List Event}

theorem phase_concat (handle : Nat) (trace : List Event) (event : Event) :
    phase handle (trace ++ [event]) = advance handle (phase handle trace) event := by
  rw [phase, List.foldl_append]
  rfl

theorem phase_append_of_forall_ne (hother : ∀ event ∈ events, event.handle ≠ handle) :
    phase handle (trace ++ events) = phase handle trace := by
  induction events using List.reverseRecOn with
  | nil => rw [List.append_nil]
  | append_singleton events event ih =>
    rw [← List.append_assoc, phase_concat, advance, if_neg (hother event (by simp)),
      ih fun event hmem => hother event (by simp [hmem])]

theorem phase_concat_self {p : Phase} {event : Event} (hphase : phase handle trace = some p)
    (hevent : event.handle = handle) : phase handle (trace ++ [event]) = p.next event := by
  rw [phase_concat, advance, if_pos hevent, hphase, Option.bind_some]

/-! ### From the phases to the counts -/

/-- What the phase of a handle says of its events. -/
structure Tally (handle : Nat) (trace : List Event) (p : Phase) : Prop where
  opened : trace.count (.dlopen handle) = if p = .unopened then 0 else 1
  closed : trace.count (.dlclose handle) = if p = .closed then 1 else 0
  paired : ∃ n, sessions handle trace =
    (List.replicate n [true, false]).flatten ++ if p = .running then [true] else []

theorem Tally.other {p : Phase} {event : Event} (htally : Tally handle trace p)
    (hother : event.handle ≠ handle) : Tally handle (trace ++ [event]) p := by
  obtain ⟨hopened, hclosed, n, hpaired⟩ := htally
  refine ⟨?_, ?_, n, ?_⟩
  · rw [List.count_append, hopened, List.count_eq_zero_of_not_mem, Nat.add_zero]
    rw [List.mem_singleton]
    rintro rfl
    exact hother rfl
  · rw [List.count_append, hclosed, List.count_eq_zero_of_not_mem, Nat.add_zero]
    rw [List.mem_singleton]
    rintro rfl
    exact hother rfl
  · have hnone : sessions handle [event] = [] := by
      cases event with
      | pluginInitialize other result => simp [sessions, show other ≠ handle from hother]
      | pluginShutdown other => simp [sessions, show other ≠ handle from hother]
      | _ => rfl
    rw [sessions, List.filterMap_append, ← sessions, hnone, List.append_nil, hpaired]

/-- The ways from one phase to the next. -/
inductive Phase.Move : Phase → Event → Phase → Prop where
  | opened (handle : Nat) : Move .unopened (.dlopen handle) .loaded
  | asked (handle : Nat) : Move .loaded (.pluginGetMetadata handle) .loaded
  | created (handle : Nat) : Move .loaded (.pluginCreate handle) .loaded
  | started (handle : Nat) : Move .loaded (.pluginInitialize handle 0) .running
  | refused (handle : Nat) (result : Int) (hresult : result ≠ 0) :
      Move .loaded (.pluginInitialize handle result) .loaded
  | stopped (handle : Nat) : Move .running (.pluginShutdown handle) .loaded
  | closed (handle : Nat) : Move .loaded (.dlclose handle) .closed

theorem Phase.move_of_next {p p' : Phase} {event : Event} (hnext : p.next event = some p') :
    Phase.Move p event p' := by
  cases p with
  | unopened => cases event <;> cases hnext; exact .opened _
  | closed => cases event <;> cases hnext
  | running => cases event <;> cases hnext; exact .stopped _
  | loaded =>
    cases event with
    | dlopen | pluginShutdown => cases hnext
    | pluginGetMetadata => cases hnext; exact .asked _
    | pluginCreate => cases hnext; exact .created _
    | dlclose => cases hnext; exact .closed _
    | pluginInitialize handle result =>
      rw [Phase.next, Option.some.injEq] at hnext
      split_ifs at hnext with hresult
      · subst hresult hnext
        exact .started handle
      · subst hnext
        exact .refused handle result hresult

theorem Tally.next {p p' : Phase} {event : Event} (htally : Tally event.handle trace p)
    (hnext : p.next event = some p') : Tally event.handle (trace ++ [event]) p' := by
  obtain ⟨hopened, hclosed, n, hpaired⟩ := htally
  have hsessions : sessions event.handle (trace ++ [event]) =
      sessions event.handle trace ++ sessions event.handle [event] := List.filterMap_append
  cases Phase.move_of_next hnext with
  | opened handle | asked handle | created handle | closed handle =>
    exact ⟨by simpa [Event.handle] using hopened, by simpa [Event.handle] using hclosed, n,
      by simpa [sessions] using hsessions.trans (congrArg (· ++ _) hpaired)⟩
  | refused handle result hresult =>
    exact ⟨by simpa [Event.handle] using hopened, by simpa [Event.handle] using hclosed, n,
      by simpa [sessions, hresult] using hsessions.trans (congrArg (· ++ _) hpaired)⟩
  | started handle =>
    exact ⟨by simpa [Event.handle] using hopened, by simpa [Event.handle] using hclosed, n,
      by simpa [sessions, Event.handle] using hsessions.trans (congrArg (· ++ _) hpaired)⟩
  | stopped handle =>
    refine ⟨by simpa [Event.handle] using hopened, by simpa [Event.handle] using hclosed, n + 1, ?_⟩
    rw [hsessions, hpaired, List.replicate_succ', List.flatten_append]
    simp [sessions, Event.handle]

theorem tally_of_phase {p : Phase} (hphase : phase handle trace = some p) : Tally handle trace p := by
  induction trace using List.reverseRecOn generalizing p with
  | nil =>
    rw [phase, List.foldl_nil, Option.some.injEq] at hphase
    subst hphase
    exact ⟨rfl, rfl, 0, rfl⟩
  | append_singleton trace event ih =>
    rw [phase_concat, advance] at hphase
    split_ifs at hphase with hevent
    · subst hevent
      obtain ⟨before, hbefore, hnext⟩ := Option.bind_eq_some_iff.mp hphase
      exact (ih hbefore).next hnext
    · exact (ih hphase).other hevent

theorem phase_closed {p : Phase} (hphase : phase handle (trace ++ events) = some p)
    (hclosed : phase handle trace = some .closed) :
    p = .closed ∧ ∀ event ∈ events, event.handle ≠ handle := by
  induction events using List.reverseRecOn generalizing p with
  | nil =>
    rw [List.append_nil, hclosed, Option.some.injEq] at hphase
    exact ⟨hphase.symm, by simp⟩
  | append_singleton events event ih =>
    rw [← List.append_assoc, phase_concat, advance] at hphase
    split_ifs at hphase with hevent
    · obtain ⟨before, hbefore, hnext⟩ := Option.bind_eq_some_iff.mp hphase
      obtain ⟨rfl, -⟩ := ih hbefore
      cases Phase.move_of_next hnext
    · obtain ⟨hp, hothers⟩ := ih hphase
      refine ⟨hp, fun other hmem => ?_⟩
      obtain hold | hnew := List.mem_append.mp hmem
      · exact hothers other hold
      · rw [List.mem_singleton] at hnew
        exact hnew ▸ hevent

theorem phase_prefix {p : Phase} (hphase : phase handle (trace ++ events) = some p) :
    ∃ before, phase handle trace = some before := by
  induction events using List.reverseRecOn generalizing p with
  | nil => exact ⟨p, by rwa [List.append_nil] at hphase⟩
  | append_singleton events event ih =>
    rw [← List.append_assoc, phase_concat, advance] at hphase
    split_ifs at hphase with hevent
    · obtain ⟨before, hbefore, -⟩ := Option.bind_eq_some_iff.mp hphase
      exact ih hbefore
    · exact ih hphase

theorem wellUsed_of_phases
    (hphases : ∀ handle, phase handle trace = some .unopened ∨ phase handle trace = some .closed) :
    WellUsed trace := by
  refine ⟨fun handle => ?_, fun handle => ?_, fun handle => ?_, ?_⟩
  · obtain hphase | hphase := hphases handle
    · rw [(tally_of_phase hphase).opened, if_pos rfl]
      exact Nat.zero_le 1
    · rw [(tally_of_phase hphase).opened, if_neg (by decide)]
  · obtain hphase | hphase := hphases handle
    · rw [(tally_of_phase hphase).opened, (tally_of_phase hphase).closed]
      rfl
    · rw [(tally_of_phase hphase).opened, (tally_of_phase hphase).closed]
      rfl
  · obtain hphase | hphase := hphases handle
    · obtain ⟨n, hpaired⟩ := (tally_of_phase hphase).paired
      exact ⟨n, by rwa [if_neg (by decide), List.append_nil] at hpaired⟩
    · obtain ⟨n, hpaired⟩ := (tally_of_phase hphase).paired
      exact ⟨n, by rwa [if_neg (by decide), List.append_nil] at hpaired⟩
  · rintro handle before after rfl event hmem
    obtain ⟨p, hphase⟩ : ∃ p, phase handle (before ++ .dlclose handle :: after) = some p :=
      (hphases handle).elim (fun h => ⟨_, h⟩) fun h => ⟨_, h⟩
    rw [List.append_cons] at hphase
    obtain ⟨middle, hmiddle⟩ := phase_prefix hphase
    have hclosed : phase handle (before ++ [.dlclose handle]) = some .closed := by
      rw [phase_concat, advance, if_pos (show (Event.dlclose handle).handle = handle from rfl)]
        at hmiddle ⊢
      obtain ⟨earlier, hearlier, hnext⟩ := Option.bind_eq_some_iff.mp hmiddle
      rw [hearlier, Option.bind_some]
      cases Phase.move_of_next hnext
      rfl
    exact (phase_closed hphase hclosed).2 event hmem

theorem phase_append_of_other {handle other : Nat} {events : List Event}
    (hevents : ∀ event ∈ events, event.handle = handle) (hne : other ≠ handle) :
    phase other (trace ++ events) = phase other trace :=
  phase_append_of_forall_ne fun event hmem heq => hne (heq.symm.trans (hevents event hmem))

theorem forall_handle_concat {handle : Nat} {events : List Event} {last : Event}
    (hevents : ∀ event ∈ events, event.handle = handle) (hlast : last.handle = handle) :
    ∀ event ∈ events ++ [last], event.handle = handle :=
  List.forall_mem_append.mpr ⟨hevents, List.forall_mem_singleton.mpr hlast⟩

/-! ### The manager -/

namespace PluginManager

variable {manager : PluginManager}

/-- The phase that the flag of a handle tells. -/
def flagged (initialized : Bool) : Phase := if initialized then .running else .loaded

/-- The flags tell the phases of the handles in the manager, and the others are not open yet or closed. -/
structure Tracked (manager : PluginManager) : Prop where
  lt : ∀ pluginId held, manager.mPlugins.lookup pluginId = some held →
    held.libraryHandle < manager.nextHandle
  phase : ∀ pluginId held, manager.mPlugins.lookup pluginId = some held →
    phase held.libraryHandle manager.trace = some (flagged held.initialized)
  exported : ∀ pluginId held, manager.mPlugins.lookup pluginId = some held →
    held.library.pluginShutdown = true
  distinct : ∀ pluginId pluginId' held held', manager.mPlugins.lookup pluginId = some held →
    manager.mPlugins.lookup pluginId' = some held' → held.libraryHandle = held'.libraryHandle →
      pluginId = pluginId'
  unopened : ∀ handle, manager.nextHandle ≤ handle →
    Plugin.phase handle manager.trace = some .unopened
  closed : ∀ handle < manager.nextHandle,
    (∀ pluginId held, manager.mPlugins.lookup pluginId = some held → held.libraryHandle ≠ handle) →
      Plugin.phase handle manager.trace = some .closed

theorem tracked_start : ({} : PluginManager).Tracked where
  lt _ _ hlookup := absurd hlookup (by simp)
  phase _ _ hlookup := absurd hlookup (by simp)
  exported _ _ hlookup := absurd hlookup (by simp)
  distinct _ _ _ _ hlookup := absurd hlookup (by simp)
  unopened _ _ := rfl
  closed handle hlt := absurd hlt (Nat.not_lt_zero handle)

/-- What was done to one handle, which `owner` has afterwards; whoever has another one has had it before. -/
theorem Tracked.goOn {plugins : UnorderedMap String PluginHandle} {handle next : Nat}
    (htracked : manager.Tracked) (owner : Option (String × PluginHandle))
    (hevents : ∀ event ∈ events, event.handle = handle) (hhandle : handle < next)
    (hnext : ∀ other, other ≠ handle → (other < next ↔ other < manager.nextHandle))
    (hothers : ∀ pluginId held, held.libraryHandle ≠ handle →
      (plugins.lookup pluginId = some held ↔ manager.mPlugins.lookup pluginId = some held))
    (howner : ∀ pluginId held, plugins.lookup pluginId = some held ∧ held.libraryHandle = handle ↔
      owner = some (pluginId, held))
    (hexported : ∀ found ∈ owner, found.2.library.pluginShutdown = true)
    (hphase : Plugin.phase handle (manager.trace ++ events) =
      some (owner.elim .closed fun found => flagged found.2.initialized)) :
    Tracked { manager with mPlugins := plugins, nextHandle := next, trace := manager.trace ++ events } where
  lt other found hother := by
    by_cases heq : found.libraryHandle = handle
    · exact heq ▸ hhandle
    · exact (hnext _ heq).mpr (htracked.lt other found ((hothers other found heq).mp hother))
  phase other found hother := by
    by_cases heq : found.libraryHandle = handle
    · rw [heq, hphase, (howner other found).mp ⟨hother, heq⟩]
      rfl
    · exact (phase_append_of_other hevents heq).trans
        (htracked.phase other found ((hothers other found heq).mp hother))
  exported other found hother := by
    by_cases heq : found.libraryHandle = handle
    · exact hexported (other, found) ((howner other found).mp ⟨hother, heq⟩)
    · exact htracked.exported other found ((hothers other found heq).mp hother)
  distinct first second found found' hfirst hsecond hsame := by
    by_cases heq : found.libraryHandle = handle
    · have howns := (howner first found).mp ⟨hfirst, heq⟩
      rw [(howner second found').mp ⟨hsecond, hsame.symm.trans heq⟩, Option.some.injEq] at howns
      exact (congrArg Prod.fst howns).symm
    · exact htracked.distinct first second found found' ((hothers first found heq).mp hfirst)
        ((hothers second found' fun heq' => heq (hsame.trans heq')).mp hsecond) hsame
  unopened other hle := by
    have hne : other ≠ handle := (hhandle.trans_le hle).ne'
    rw [phase_append_of_other hevents hne]
    exact htracked.unopened other (not_lt.mp fun hlt => hle.not_gt ((hnext other hne).mpr hlt))
  closed other hlt hnone := by
    by_cases heq : other = handle
    · cases hholds : owner with
      | none => rw [heq, hphase, hholds, Option.elim_none]
      | some found =>
          obtain ⟨hlookup, hsame⟩ := (howner found.1 found.2).mpr hholds
          exact absurd (hsame.trans heq.symm) (hnone found.1 found.2 hlookup)
    · rw [phase_append_of_other hevents heq]
      refine htracked.closed other ((hnext other heq).mp hlt) fun pluginId held hold hsame => ?_
      have hne : held.libraryHandle ≠ handle := fun heq' => heq (hsame.symm.trans heq')
      exact hnone pluginId held ((hothers pluginId held hne).mpr hold) hsame

/-- The handle of a plugin in the manager is no other plugin's. -/
theorem Tracked.eq_of_handle {pluginId other : String} {held found : PluginHandle}
    (htracked : manager.Tracked) (hlookup : manager.mPlugins.lookup pluginId = some held)
    (hother : manager.mPlugins.lookup other = some found) (hsame : found.libraryHandle = held.libraryHandle) :
    other = pluginId :=
  htracked.distinct other pluginId found held hother hlookup hsame

/-- What was done to the handle of one plugin, which stays in the manager. -/
theorem Tracked.replace {pluginId : String} {held held' : PluginHandle}
    {plugins : UnorderedMap String PluginHandle} (htracked : manager.Tracked)
    (hlookup : manager.mPlugins.lookup pluginId = some held)
    (hplugins : ∀ other, plugins.lookup other =
      if other = pluginId then some held' else manager.mPlugins.lookup other)
    (hhandle : held'.libraryHandle = held.libraryHandle) (hlibrary : held'.library = held.library)
    (hevents : ∀ event ∈ events, event.handle = held.libraryHandle)
    (hphase : Plugin.phase held.libraryHandle (manager.trace ++ events) =
      some (flagged held'.initialized)) :
    Tracked { manager with mPlugins := plugins, trace := manager.trace ++ events } := by
  refine htracked.goOn (some (pluginId, held')) hevents (htracked.lt pluginId held hlookup)
    (fun _ _ => Iff.rfl) ?_ ?_ ?_ hphase
  · intro other found hne
    rw [hplugins]
    split_ifs with heq
    · subst heq
      refine iff_of_false ?_ ?_
      · rintro ⟨⟩
        exact hne hhandle
      · rw [hlookup]
        rintro ⟨⟩
        exact hne rfl
    · rfl
  · intro other found
    rw [hplugins]
    split_ifs with heq
    · subst heq
      constructor
      · rintro ⟨⟨⟩, -⟩
        rfl
      · rintro ⟨⟩
        exact ⟨rfl, hhandle⟩
    · refine iff_of_false ?_ ?_
      · exact fun ⟨hother, hsame⟩ => heq (htracked.eq_of_handle hlookup hother hsame)
      · rintro ⟨⟩
        exact heq rfl
  · rintro _ ⟨⟩
    exact hlibrary ▸ htracked.exported pluginId held hlookup

/-- What was done to the handle of one plugin, which leaves the manager. -/
theorem Tracked.remove {pluginId : String} {held : PluginHandle} (htracked : manager.Tracked)
    (hlookup : manager.mPlugins.lookup pluginId = some held)
    (hevents : ∀ event ∈ events, event.handle = held.libraryHandle)
    (hphase : Plugin.phase held.libraryHandle (manager.trace ++ events) = some .closed) :
    Tracked { manager with
      mPlugins := manager.mPlugins.erase pluginId
      trace := manager.trace ++ events } := by
  refine htracked.goOn none hevents (htracked.lt pluginId held hlookup) (fun _ _ => Iff.rfl)
    ?_ ?_ (by simp) hphase
  · intro other found hne
    refine ⟨lookup_of_lookup_erase, fun hold => ?_⟩
    rw [Finmap.lookup_erase_ne, hold]
    rintro rfl
    rw [hlookup, Option.some.injEq] at hold
    exact hne (hold ▸ rfl)
  · refine fun other found => iff_of_false (fun ⟨hother, hsame⟩ => ?_)
      (Option.some_ne_none (other, found)).symm
    have hold := lookup_of_lookup_erase hother
    rw [htracked.eq_of_handle hlookup hold hsame] at hother
    exact absurd hother (by simp)

/-- What was done to a new handle, which is closed again. -/
theorem Tracked.reject (htracked : manager.Tracked)
    (hevents : ∀ event ∈ events, event.handle = manager.nextHandle)
    (hphase : Plugin.phase manager.nextHandle (manager.trace ++ events) = some .closed) :
    Tracked { manager with nextHandle := manager.nextHandle + 1, trace := manager.trace ++ events } := by
  refine htracked.goOn none hevents (Nat.lt_succ_self _) (fun other hne => by omega)
    (fun _ _ _ => Iff.rfl) (fun other found => ?_) (by simp) hphase
  exact iff_of_false (fun ⟨hold, hsame⟩ => (htracked.lt other found hold).ne hsame)
    (Option.some_ne_none (other, found)).symm

/-- What was done to a new handle, with which a plugin comes to the manager. -/
theorem Tracked.insert {pluginId : String} {held : PluginHandle} (htracked : manager.Tracked)
    (hfresh : pluginId ∉ manager.mPlugins) (hhandle : held.libraryHandle = manager.nextHandle)
    (hexported : held.library.pluginShutdown = true)
    (hevents : ∀ event ∈ events, event.handle = manager.nextHandle)
    (hphase : Plugin.phase manager.nextHandle (manager.trace ++ events) =
      some (flagged held.initialized)) :
    Tracked { manager with
      mPlugins := manager.mPlugins.insert pluginId held
      nextHandle := manager.nextHandle + 1
      trace := manager.trace ++ events } := by
  refine htracked.goOn (some (pluginId, held)) hevents (Nat.lt_succ_self _)
    (fun other hne => by omega) ?_ ?_ ?_ hphase
  · intro other found hne
    rw [lookup_insert_ite]
    split_ifs with heq
    · subst heq
      refine iff_of_false ?_ fun hold => hfresh (Finmap.mem_of_lookup_eq_some hold)
      rintro ⟨⟩
      exact hne hhandle
    · rfl
  · intro other found
    constructor
    · rintro ⟨hother, hsame⟩
      obtain ⟨rfl, rfl⟩ | ⟨-, hold⟩ := lookup_insert_cases hother
      · rfl
      · exact absurd hsame (htracked.lt other found hold).ne
    · rintro ⟨⟩
      exact ⟨Finmap.lookup_insert _, hhandle⟩
  · rintro _ ⟨⟩
    exact hexported

theorem Tracked.loadWithMetadata (htracked : manager.Tracked) {library : Library}
    (hexported : library.pluginShutdown = true) {asked : List Event}
    (hasked : ∀ event ∈ asked, event.handle = manager.nextHandle)
    (hloaded : Plugin.phase manager.nextHandle (manager.trace ++ asked) = some .loaded)
    (metadata : Option PluginMetadata) :
    (PluginManager.loadWithMetadata { manager with
      nextHandle := manager.nextHandle + 1
      trace := manager.trace ++ asked } manager.nextHandle library metadata).2.Tracked := by
  have hclose : Tracked (dlclose { manager with
      nextHandle := manager.nextHandle + 1
      trace := manager.trace ++ asked } manager.nextHandle) := by
    unfold dlclose note
    dsimp only
    rw [List.append_assoc]
    refine htracked.reject (forall_handle_concat hasked rfl) ?_
    rw [← List.append_assoc, phase_concat_self hloaded rfl]
    rfl
  unfold PluginManager.loadWithMetadata
  cases metadata with
  | none => exact hclose
  | some metadata =>
    obtain ⟨id, abiVersion⟩ := metadata
    cases id with
    | none => exact hclose
    | some pluginId =>
      dsimp only
      split
      · exact hclose
      · split
        · exact hclose
        · rename_i hfresh
          unfold createInstance
          cases library.pluginCreate with
          | none => exact htracked.insert hfresh rfl hexported hasked hloaded
          | some created =>
            unfold note
            dsimp only
            rw [List.append_assoc]
            refine htracked.insert hfresh rfl hexported (forall_handle_concat hasked rfl) ?_
            rw [← List.append_assoc, phase_concat_self hloaded rfl]
            rfl

theorem Tracked.loadPlugin (htracked : manager.Tracked) {library : Option Library}
    (hexported : (Op.loadPlugin library).ExportsShutdown) :
    (manager.loadPlugin library).2.Tracked := by
  unfold PluginManager.loadPlugin loadNativePlugin
  cases library with
  | none => exact htracked
  | some library =>
    have hopened : Plugin.phase manager.nextHandle (manager.trace ++ [.dlopen manager.nextHandle]) =
        some .loaded := by
      rw [phase_concat_self (htracked.unopened _ le_rfl) rfl]
      rfl
    unfold note
    dsimp only
    cases library.pluginGetMetadata with
    | none =>
      unfold dlclose note
      dsimp only
      rw [List.append_assoc]
      refine htracked.reject (forall_handle_concat (List.forall_mem_singleton.mpr rfl) rfl) ?_
      rw [← List.append_assoc, phase_concat_self hopened rfl]
      rfl
    | some metadata =>
      dsimp only
      rw [List.append_assoc]
      refine htracked.loadWithMetadata hexported
        (forall_handle_concat (List.forall_mem_singleton.mpr rfl) rfl) ?_ metadata
      rw [← List.append_assoc, phase_concat_self hopened rfl]
      rfl

theorem Tracked.initializePluginLocked (htracked : manager.Tracked) (pluginId : String) :
    (manager.initializePluginLocked pluginId).2.Tracked := by
  unfold PluginManager.initializePluginLocked
  cases hlookup : manager.mPlugins.lookup pluginId with
  | none => exact htracked
  | some held =>
    dsimp only
    split_ifs with hinitialized
    · exact htracked
    · have hloaded := htracked.phase pluginId held hlookup
      rw [Bool.not_eq_true] at hinitialized
      rw [hinitialized] at hloaded
      cases held.library.pluginInitialize with
      | none => exact htracked
      | some function =>
        dsimp only
        split_ifs with hresult
        · refine htracked.replace hlookup (fun other => ?_) rfl rfl (by simp [Event.handle]) ?_
          · split_ifs with heq
            · rw [heq, hlookup]
            · rfl
          · rw [phase_concat_self hloaded rfl, hinitialized, flagged, if_neg (by decide), Phase.next,
              if_neg hresult]
        · refine htracked.replace hlookup (lookup_insert_ite _ _ _) rfl rfl (by simp [Event.handle]) ?_
          rw [phase_concat_self hloaded rfl, flagged, if_neg (by decide), Phase.next,
            if_pos (not_not.mp hresult)]
          rfl

theorem Tracked.shutdownPluginLocked (htracked : manager.Tracked) (pluginId : String) :
    (manager.shutdownPluginLocked pluginId).2.Tracked := by
  unfold PluginManager.shutdownPluginLocked
  cases hlookup : manager.mPlugins.lookup pluginId with
  | none => exact htracked
  | some held =>
    dsimp only
    by_cases hinitialized : held.initialized = true
    · have hrunning := htracked.phase pluginId held hlookup
      rw [hinitialized] at hrunning
      rw [if_neg (not_not.mpr hinitialized), if_pos (htracked.exported pluginId held hlookup)]
      refine htracked.replace hlookup (lookup_insert_ite _ _ _) rfl rfl (by simp [Event.handle]) ?_
      rw [phase_concat_self hrunning rfl]
      rfl
    · rw [if_pos hinitialized]
      exact htracked

theorem Tracked.foldl {A : Type} {update : PluginManager → A → PluginManager}
    (hupdate : ∀ manager a, manager.Tracked → (update manager a).Tracked) (htracked : manager.Tracked)
    (as : List A) : (as.foldl update manager).Tracked := by
  induction as generalizing manager with
  | nil => exact htracked
  | cons a as ih => exact ih (hupdate manager a htracked)

theorem Tracked.erase (htracked : manager.Tracked) (pluginId : String) :
    (manager.erase pluginId).Tracked := by
  unfold PluginManager.erase
  cases hlookup : manager.mPlugins.lookup pluginId with
  | none => exact htracked
  | some held =>
    have hphase := htracked.phase pluginId held hlookup
    have hexported := htracked.exported pluginId held hlookup
    unfold destroy dlclose note
    dsimp only
    by_cases hinitialized : held.initialized = true
    · rw [hinitialized] at hphase
      rw [if_pos ⟨hinitialized, hexported⟩]
      dsimp only
      rw [List.append_assoc]
      have hstopped : Plugin.phase held.libraryHandle
          (manager.trace ++ [.pluginShutdown held.libraryHandle]) = some .loaded := by
        rw [phase_concat_self hphase rfl]
        rfl
      refine htracked.remove hlookup (forall_handle_concat (List.forall_mem_singleton.mpr rfl) rfl) ?_
      rw [← List.append_assoc, phase_concat_self hstopped rfl]
      rfl
    · rw [if_neg fun hboth => hinitialized hboth.1]
      rw [Bool.not_eq_true] at hinitialized
      rw [hinitialized] at hphase
      apply htracked.remove hlookup
      · simp [Event.handle]
      · rw [phase_concat_self hphase rfl]
        rfl

theorem Tracked.unloadPlugin (htracked : manager.Tracked) (pluginId : String) :
    (manager.unloadPlugin pluginId).2.Tracked := by
  unfold PluginManager.unloadPlugin
  cases manager.mPlugins.lookup pluginId with
  | none => exact htracked
  | some held =>
    dsimp only
    split_ifs
    · exact (htracked.shutdownPluginLocked pluginId).erase pluginId
    · exact htracked.erase pluginId

theorem Tracked.step (htracked : manager.Tracked) {op : Op} (hexported : op.ExportsShutdown) :
    (manager.step op).Tracked := by
  cases op with
  | loadPlugin library => exact htracked.loadPlugin hexported
  | initializePlugin pluginId => exact htracked.initializePluginLocked pluginId
  | initializeAllPlugins order =>
    exact htracked.foldl (fun _ pluginId h => h.initializePluginLocked pluginId) order
  | shutdownPlugin pluginId => exact htracked.shutdownPluginLocked pluginId
  | shutdownAllPlugins order =>
    exact htracked.foldl (fun _ pluginId h => h.shutdownPluginLocked pluginId) order
  | unloadPlugin pluginId => exact htracked.unloadPlugin pluginId

/-! ### The end of the manager -/

theorem mPlugins_erase (manager : PluginManager) (pluginId : String) :
    (manager.erase pluginId).mPlugins = Finmap.erase pluginId manager.mPlugins := by
  unfold PluginManager.erase
  cases hlookup : manager.mPlugins.lookup pluginId with
  | none => exact (erase_of_lookup_none hlookup).symm
  | some held =>
    unfold destroy dlclose note
    dsimp only
    split_ifs <;> rfl

theorem mPlugins_destruct {order : List String} (henumerates : Enumerates order manager.mPlugins) :
    (manager.destruct order).mPlugins = ∅ := by
  unfold destruct
  induction order generalizing manager with
  | nil =>
    apply Finmap.ext_lookup
    intro key
    rw [Finmap.lookup_empty, Finmap.lookup_eq_none, List.foldl_nil, ← Finmap.mem_keys,
      ← henumerates.2]
    simp
  | cons pluginId order ih =>
    rw [List.foldl_cons]
    apply ih
    rw [mPlugins_erase]
    exact henumerates.erase

theorem tracked_run {ops : List Op} (hexported : ∀ op ∈ ops, op.ExportsShutdown)
    (htracked : manager.Tracked) : (run step manager ops).Tracked := by
  induction ops generalizing manager with
  | nil => exact htracked
  | cons op ops ih =>
    obtain ⟨hop, hops⟩ := List.forall_mem_cons.mp hexported
    exact ih hops (htracked.step hop)

/-- Whatever is called in whatever order, once the manager is destroyed every handle has been used as it
should be. -/
theorem wellUsed_destruct {ops : List Op} (hexported : ∀ op ∈ ops, op.ExportsShutdown)
    {order : List String} (henumerates : Enumerates order (run step {} ops).mPlugins) :
    WellUsed ((run step {} ops).destruct order).trace := by
  have htracked : ((run step {} ops).destruct order).Tracked :=
    (tracked_run hexported tracked_start).foldl (fun _ pluginId h => h.erase pluginId) order
  apply wellUsed_of_phases
  intro handle
  by_cases hlt : handle < ((run step {} ops).destruct order).nextHandle
  · right
    apply htracked.closed handle hlt
    intro pluginId held hlookup
    rw [mPlugins_destruct henumerates, Finmap.lookup_empty] at hlookup
    cases hlookup
  · exact .inl (htracked.unopened handle (not_lt.mp hlt))

/-- A plugin that refuses to start at first. -/
def hesitant : Library where
  pluginGetMetadata := some (some ⟨some "p", 1⟩)
  pluginInitialize := some fun trace => if trace.length < 6 then 1 else 0

theorem wellUsed_hesitantRun :
    WellUsed ((run step {} [.loadPlugin (some hesitant), .loadPlugin (some hesitant),
      .initializePlugin "p", .initializePlugin "p"]).destruct ["p"]).trace := by
  apply wellUsed_destruct
  · intro op hop
    simp only [List.mem_cons, List.not_mem_nil, or_false] at hop
    obtain rfl | rfl | rfl | rfl := hop
    · rfl
    · rfl
    · trivial
    · trivial
  · decide +kernel

end PluginManager

end SoulCoreKit.Plugin
