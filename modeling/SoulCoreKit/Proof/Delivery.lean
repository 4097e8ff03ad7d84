import Mathlib.Data.List.Range
import Mathlib.Data.List.Nodup
import SoulCoreKit.Event.TypedEventBus

/-!
# Delivery by the typed event bus

Handlers run without the lock and may call the bus again, so what a publish does is said of its frame,
wherever in the stack of its thread it is: what it has invoked and what is left of its snapshot are
together the handlers registered when it took the snapshot. One thing breaks this. The data is put into
a `std::any`, and data that is a `std::any` itself is not put into another but copied; the wrapper then
looks for a `std::any` in it, finds something else, and does not call its handler.
-/

namespace SoulCoreKit.Event

variable {Ty Payload Callable Thread : Type} [DecidableEq Ty] [DecidableEq Thread]

/-! ### The handlers of the bus are those registered -/

namespace TypedEventBus

variable {bus : TypedEventBus Ty Callable} {w : Wrapper Ty Callable}

/-- The vector of each key holds the registered handlers with the key, in the order of their
subscription. -/
structure Consistent (bus : TypedEventBus Ty Callable) : Prop where
  numbered : bus.made.map Wrapper.ptr = List.range bus.made.length
  cleared_le : bus.cleared ≤ bus.made.length
  unsubscribed_lt : ∀ ptr ∈ bus.unsubscribed, ptr < bus.made.length
  handlersFor_eq : ∀ key, bus.handlersFor key = bus.registered.filter (·.key = key)

omit [DecidableEq Ty] in
theorem mem_made_of_registered (hw : w ∈ bus.registered) : w ∈ bus.made := List.mem_of_mem_filter hw

omit [DecidableEq Ty] in
theorem notMem_unsubscribed (hw : w ∈ bus.registered) : w.ptr ∉ bus.unsubscribed := by
  have hfilter := List.of_mem_filter hw
  exact (of_decide_eq_true hfilter).2

namespace Consistent

variable (hbus : bus.Consistent)

include hbus

theorem ptr_lt (hw : w ∈ bus.made) : w.ptr < bus.made.length := by
  have hptr := List.mem_map_of_mem hw (f := Wrapper.ptr)
  rwa [hbus.numbered, List.mem_range] at hptr

theorem pairwise_made : bus.made.Pairwise (·.ptr < ·.ptr) := by
  apply List.pairwise_map.mp
  rw [hbus.numbered]
  exact List.pairwise_lt_range

theorem pairwise_registered : bus.registered.Pairwise (·.ptr < ·.ptr) :=
  hbus.pairwise_made.sublist List.filter_sublist

theorem pairwise_handlersFor (key : Key Ty) : (bus.handlersFor key).Pairwise (·.ptr < ·.ptr) := by
  rw [hbus.handlersFor_eq]
  exact hbus.pairwise_registered.sublist List.filter_sublist

theorem eq_of_ptr {w' : Wrapper Ty Callable} (hw : w ∈ bus.made) (hw' : w' ∈ bus.made)
    (hptr : w.ptr = w'.ptr) : w = w' := by
  have hnodup : (bus.made.map Wrapper.ptr).Nodup := by
    rw [hbus.numbered]
    exact List.nodup_range
  exact List.inj_on_of_nodup_map hnodup hw hw' hptr

end Consistent

/-! ### Subscribing and clearing -/

theorem handlersFor_subscribe (bus : TypedEventBus Ty Callable) (key other : Key Ty) (handler : Callable) :
    (bus.subscribe key handler).handlersFor other =
      bus.handlersFor other ++ if key = other then [⟨bus.made.length, key, handler⟩] else [] := by
  unfold handlersFor subscribe
  by_cases heq : key = other
  · subst heq
    simp [handlersFor]
  · simp [Finmap.lookup_insert_of_ne _ (Ne.symm heq), heq]

theorem registered_subscribe (hbus : bus.Consistent) (key : Key Ty) (handler : Callable) :
    (bus.subscribe key handler).registered =
      bus.registered ++ [⟨bus.made.length, key, handler⟩] := by
  have hfresh : bus.made.length ∉ bus.unsubscribed := fun hmem =>
    absurd (hbus.unsubscribed_lt _ hmem) (lt_irrefl _)
  unfold registered subscribe
  simp [List.filter_append, hbus.cleared_le, hfresh]

theorem consistent_subscribe (hbus : bus.Consistent) (key : Key Ty) (handler : Callable) :
    (bus.subscribe key handler).Consistent := by
  have hlength : (bus.subscribe key handler).made.length = bus.made.length + 1 := List.length_append
  refine ⟨?_, ?_, ?_, ?_⟩
  · rw [hlength, List.range_succ, ← hbus.numbered]
    exact List.map_append
  · rw [hlength]
    exact hbus.cleared_le.trans (Nat.le_succ _)
  · intro ptr hptr
    rw [hlength]
    exact (hbus.unsubscribed_lt ptr hptr).trans (Nat.lt_succ_self _)
  · intro other
    rw [handlersFor_subscribe, registered_subscribe hbus, List.filter_append, hbus.handlersFor_eq]
    congr 1
    by_cases heq : key = other
    · simp [heq]
    · simp [heq]

theorem consistent_clear (hbus : bus.Consistent) : bus.clear.Consistent := by
  have hregistered : bus.clear.registered = [] := by
    unfold registered
    rw [List.filter_eq_nil_iff]
    intro w hw
    rw [decide_eq_true_eq]
    rintro ⟨hle, -⟩
    exact absurd hle (not_le.mpr (hbus.ptr_lt hw))
  refine ⟨hbus.numbered, le_rfl, hbus.unsubscribed_lt, ?_⟩
  intro key
  rw [hregistered]
  rfl

/-! ### Unsubscribing -/

omit [DecidableEq Ty] in
/-- Where pointers differ, erasing the first handler with a pointer erases all. -/
theorem eraseP_ptr_eq_filter {handlers : List (Wrapper Ty Callable)}
    (hpairwise : handlers.Pairwise (·.ptr < ·.ptr)) (ptr : Nat) :
    handlers.eraseP (fun found => found.ptr = ptr) = handlers.filter (fun found => found.ptr ≠ ptr) := by
  induction handlers with
  | nil => rfl
  | cons head rest ih =>
      obtain ⟨hhead, hrest⟩ := List.pairwise_cons.mp hpairwise
      by_cases heq : head.ptr = ptr
      · have hall : rest.filter (fun found => found.ptr ≠ ptr) = rest := by
          rw [List.filter_eq_self]
          intro found hfound
          have hlt := hhead found hfound
          simp only [decide_eq_true_eq]
          omega
        rw [List.eraseP_cons_of_pos (by simpa using heq), List.filter_cons_of_neg (by simpa using heq),
          hall]
      · rw [List.eraseP_cons_of_neg (by simpa using heq), List.filter_cons_of_pos (by simpa using heq),
          ih hrest]

/-- Unsubscribing removes its own handler and no other, under any key. -/
theorem handlersFor_unsubscribeFn (hbus : bus.Consistent) (hw : w ∈ bus.made) (key : Key Ty) :
    (bus.unsubscribeFn w).handlersFor key =
      (bus.handlersFor key).filter (fun found => found.ptr ≠ w.ptr) := by
  change ((bus.eraseHandler w).lookup key).getD [] = _
  unfold eraseHandler
  by_cases heq : key = w.key
  · subst heq
    rw [← eraseP_ptr_eq_filter (hbus.pairwise_handlersFor w.key)]
    unfold handlersFor
    cases hlookup : bus.mHandlers.lookup w.key with
    | none => simp [hlookup]
    | some handlers =>
        dsimp only [Option.getD_some]
        split
        case isTrue hempty => simp [List.isEmpty_iff.mp hempty]
        case isFalse hnonempty => simp
  · -- A handler under another key is another wrapper, so it has another pointer.
    have hother : (bus.handlersFor key).filter (fun found => found.ptr ≠ w.ptr) = bus.handlersFor key := by
      rw [List.filter_eq_self]
      intro found hfound
      rw [hbus.handlersFor_eq, List.mem_filter, decide_eq_true_eq] at hfound
      rw [decide_eq_true_eq]
      intro hptr
      have hsame := hbus.eq_of_ptr (mem_made_of_registered hfound.1) hw hptr
      exact heq (hfound.2.symm.trans (congrArg Wrapper.key hsame))
    rw [hother]
    unfold handlersFor
    split
    · rfl
    · dsimp only
      split
      · rw [Finmap.lookup_erase_ne heq]
      · rw [Finmap.lookup_insert_of_ne _ heq]

omit [DecidableEq Ty] in
theorem filter_notMem_cons (ptr : Nat) (gone : List Nat) (cleared : Nat)
    (made : List (Wrapper Ty Callable)) :
    made.filter (fun w => cleared ≤ w.ptr ∧ w.ptr ∉ ptr :: gone) =
      (made.filter (fun w => cleared ≤ w.ptr ∧ w.ptr ∉ gone)).filter (fun w => w.ptr ≠ ptr) := by
  rw [List.filter_filter]
  apply List.filter_congr
  intro w _
  simp only [List.mem_cons, not_or, ne_eq, ← Bool.decide_and, decide_eq_decide]
  tauto

theorem consistent_unsubscribeFn (hbus : bus.Consistent) (hw : w ∈ bus.made) :
    (bus.unsubscribeFn w).Consistent := by
  refine ⟨hbus.numbered, hbus.cleared_le, ?_, ?_⟩
  · intro ptr hptr
    obtain rfl | hmem := List.mem_cons.mp hptr
    · exact hbus.ptr_lt hw
    · exact hbus.unsubscribed_lt ptr hmem
  · intro key
    have hregistered : (bus.unsubscribeFn w).registered =
        bus.registered.filter (fun found => found.ptr ≠ w.ptr) :=
      filter_notMem_cons w.ptr bus.unsubscribed bus.cleared bus.made
    rw [handlersFor_unsubscribeFn hbus hw, hregistered, hbus.handlersFor_eq, List.filter_comm]

end TypedEventBus

/-! ### What a publish owes -/

/-- A value that `std::any` wraps: it is no `std::any`, or it is one that holds a `std::any`. -/
def Value.Wraps : Value Ty Payload → Prop
  | .of _ _ => True
  | .emptyAny => False
  | .anyOf content => content.typeid = none

theorem anyCast_toAny_eq_none_iff (data : Value Ty Payload) :
    anyCast data.typeid data.toAny = none ↔ ¬ data.Wraps := by
  cases data with
  | of type payload => simp [anyCast, Value.toAny, Value.typeid, Value.Wraps]
  | emptyAny => simp [anyCast, Value.toAny, Value.Wraps]
  | anyOf content =>
      change Option.filter (fun value => value.typeid = none) (some content) = none ↔
        ¬ content.typeid = none
      simp

namespace Publish

variable (p : Publish Ty Payload Callable)

/-- The handlers that were registered for the type and the topic when the snapshot was taken, in the
order of their subscription. -/
def due : List (Wrapper Ty Callable) := p.registered.filter (·.key = p.key)

structure Exact : Prop where
  visits : p.invoked ++ p.remaining = p.due
  wraps : p.remaining ≠ [] → p.data.Wraps

/-- What was registered is in the order of subscription, and was not unsubscribed before the call. -/
structure Sound : Prop where
  ordered : p.registered.Pairwise (·.ptr < ·.ptr)
  notGone : ∀ w ∈ p.registered, w.ptr ∉ p.gone

variable {p}

theorem Exact.mem_registered (hexact : p.Exact) {w : Wrapper Ty Callable}
    (hw : w ∈ p.invoked ++ p.remaining) : w ∈ p.registered ∧ w.key = p.key := by
  rw [hexact.visits] at hw
  obtain ⟨hregistered, hkey⟩ := List.mem_filter.mp hw
  exact ⟨hregistered, of_decide_eq_true hkey⟩

end Publish

namespace Threads

variable {s : Threads Ty Payload Callable Thread} {thread : Thread}

/-! ### Frames -/

def EveryFrame (P : Frame Ty Payload Callable → Prop) (s : Threads Ty Payload Callable Thread) : Prop :=
  ∀ thread, ∀ frame ∈ s.frames thread, P frame

section EveryFrame

variable {P : Frame Ty Payload Callable → Prop}

omit [DecidableEq Ty] in
theorem EveryFrame.setStack (hevery : s.EveryFrame P) {stack : List (Frame Ty Payload Callable)}
    (hstack : ∀ frame ∈ stack, P frame) : (s.setStack thread stack).EveryFrame P := by
  intro other
  by_cases heq : other = thread
  · subst heq
    simpa [Threads.setStack] using hstack
  · simpa [Threads.setStack, heq] using hevery other

omit [DecidableEq Ty] in
theorem EveryFrame.push (hevery : s.EveryFrame P) {frame : Frame Ty Payload Callable} (hframe : P frame) :
    (s.push thread frame).EveryFrame P :=
  hevery.setStack (List.forall_mem_cons.mpr ⟨hframe, hevery thread⟩)

omit [DecidableEq Ty] [DecidableEq Thread] in
theorem EveryFrame.top (hevery : s.EveryFrame P) {frame : Frame Ty Payload Callable}
    {rest : List (Frame Ty Payload Callable)} (hframes : s.frames thread = frame :: rest) :
    P frame ∧ ∀ below ∈ rest, P below := by
  have hthread := hevery thread
  rw [hframes] at hthread
  exact List.forall_mem_cons.mp hthread

end EveryFrame

/-! ### The invariant -/

/-- What a frame has seen of the bus is still so. -/
def FrameOk (bus : TypedEventBus Ty Callable) : Frame Ty Payload Callable → Prop
  | .entered _ _ gone => gone ⊆ bus.unsubscribed
  | .delivering p => p.Sound
  | .handling _ => True
  | .unsubscribing w => w ∈ bus.made

omit [DecidableEq Ty] in
theorem FrameOk.mono {bus bus' : TypedEventBus Ty Callable} {frame : Frame Ty Payload Callable}
    (hmade : bus.made ⊆ bus'.made) (hunsubscribed : bus.unsubscribed ⊆ bus'.unsubscribed)
    (hframe : FrameOk bus frame) : FrameOk bus' frame := by
  cases frame with
  | entered topic data gone => exact List.Subset.trans hframe hunsubscribed
  | delivering p => exact hframe
  | handling w => trivial
  | unsubscribing w => exact hmade hframe

structure Consistent (s : Threads Ty Payload Callable Thread) : Prop where
  bus : s.bus.Consistent
  frames : s.EveryFrame (FrameOk s.bus)
  returned : ∀ p ∈ s.returned, p.Sound ∧ p.remaining = []

omit [DecidableEq Thread] in
theorem consistent_start : ({} : Threads Ty Payload Callable Thread).Consistent := by
  refine ⟨⟨rfl, le_rfl, nofun, ?_⟩, nofun, nofun⟩
  intro key
  rfl

namespace Consistent

variable (hs : s.Consistent)

include hs

theorem withStack {stack : List (Frame Ty Payload Callable)}
    (hstack : ∀ frame ∈ stack, FrameOk s.bus frame) : (s.setStack thread stack).Consistent :=
  ⟨hs.bus, hs.frames.setStack hstack, hs.returned⟩

omit [DecidableEq Thread] in
theorem withBus {bus : TypedEventBus Ty Callable} (hbus : bus.Consistent) (hmade : s.bus.made ⊆ bus.made)
    (hunsubscribed : s.bus.unsubscribed ⊆ bus.unsubscribed) : { s with bus := bus }.Consistent :=
  ⟨hbus, fun thread frame hframe => (hs.frames thread frame hframe).mono hmade hunsubscribed, hs.returned⟩

theorem unsubscribe (subscription : Nat) : (s.unsubscribe thread subscription).Consistent := by
  unfold Threads.unsubscribe
  split
  · exact hs
  case h_2 w hw =>
    split
    · have htaken : { s with mValid := Function.update s.mValid subscription false }.Consistent :=
        ⟨hs.bus, hs.frames, hs.returned⟩
      exact ⟨hs.bus, htaken.frames.push (List.mem_of_getElem? hw), hs.returned⟩
    · exact hs

theorem snapshot {rest : List (Frame Ty Payload Callable)} {topic : String} {data : Value Ty Payload}
    {gone : List Nat} (hframes : s.frames thread = .entered topic data gone :: rest) :
    (s.snapshot thread rest topic data gone).Consistent := by
  obtain ⟨hgone, hrest⟩ := hs.frames.top hframes
  apply hs.withStack
  rw [List.forall_mem_cons]
  refine ⟨⟨hs.bus.pairwise_registered, ?_⟩, hrest⟩
  intro w hw hmem
  exact TypedEventBus.notMem_unsubscribed hw (hgone hmem)

theorem deliver {rest : List (Frame Ty Payload Callable)} {p : Publish Ty Payload Callable}
    (hframes : s.frames thread = .delivering p :: rest) : (s.deliver thread rest p).Consistent := by
  obtain ⟨hsound, hrest⟩ := hs.frames.top hframes
  have hsound' : p.Sound := hsound
  unfold Threads.deliver
  split
  case h_1 hnil =>
    refine ⟨hs.bus, hs.frames.setStack hrest, ?_⟩
    intro found hfound
    obtain hfound | hfound := List.mem_append.mp hfound
    · exact hs.returned found hfound
    · rw [List.mem_singleton.mp hfound]
      exact ⟨hsound', hnil⟩
  case h_2 w remaining hcons =>
    have hnext : ∀ invoked, FrameOk s.bus (.delivering { p with remaining, invoked }) := fun _ =>
      ⟨hsound'.ordered, hsound'.notGone⟩
    split
    · exact ⟨hs.bus, hs.frames.setStack (List.forall_mem_cons.mpr ⟨hnext _, hrest⟩), hs.returned⟩
    · apply hs.withStack
      rw [List.forall_mem_cons, List.forall_mem_cons]
      exact ⟨trivial, hnext _, hrest⟩

theorem proceed (thread : Thread) : (s.proceed thread).Consistent := by
  unfold Threads.proceed
  split
  case h_1 topic data gone rest hframes => exact hs.snapshot hframes
  case h_2 p rest hframes => exact hs.deliver hframes
  case h_3 w rest hframes =>
    obtain ⟨hw, hrest⟩ := hs.frames.top hframes
    have hpopped : (s.setStack thread rest).Consistent := hs.withStack hrest
    exact hpopped.withBus (TypedEventBus.consistent_unsubscribeFn hs.bus hw) (List.Subset.refl _)
      (List.subset_cons_self _ _)
  · exact hs

theorem handlerEnds (thread : Thread) (outcome : Outcome) : (s.handlerEnds thread outcome).Consistent := by
  unfold Threads.handlerEnds
  split
  case h_1 w rest hframes =>
    obtain ⟨-, hrest⟩ := hs.frames.top hframes
    exact ⟨hs.bus, hs.frames.setStack hrest, hs.returned⟩
  · exact hs

theorem step (label : Label Ty Payload Callable Thread) : (s.step label).Consistent := by
  cases label with
  | subscribe thread type topic handler =>
      change (if s.isFree thread then _ else s).Consistent
      split
      · exact hs.withBus (TypedEventBus.consistent_subscribe hs.bus _ handler)
          (List.subset_append_left _ _) (List.Subset.refl _)
      · exact hs
  | unsubscribe thread subscription =>
      change (if s.isFree thread then _ else s).Consistent
      split
      · exact hs.unsubscribe subscription
      · exact hs
  | clear thread =>
      change (if s.isFree thread then _ else s).Consistent
      split
      · exact hs.withBus (TypedEventBus.consistent_clear hs.bus) (List.Subset.refl _) (List.Subset.refl _)
      · exact hs
  | publish thread topic data =>
      change (if s.isFree thread then _ else s).Consistent
      split
      · apply hs.withStack
        rw [List.forall_mem_cons]
        exact ⟨List.Subset.refl _, hs.frames thread⟩
      · exact hs
  | proceed thread => exact hs.proceed thread
  | handlerEnds thread outcome => exact hs.handlerEnds thread outcome

end Consistent

/-! ### Delivering exactly -/

def ExactFrame : Frame Ty Payload Callable → Prop
  | .delivering p => p.Exact
  | _ => True

structure Exact (s : Threads Ty Payload Callable Thread) : Prop where
  frames : s.EveryFrame ExactFrame
  returned : ∀ p ∈ s.returned, p.invoked = p.due

/-- No snapshot with a handler in it is taken for data that `std::any` does not wrap. -/
def Proper (s : Threads Ty Payload Callable Thread) : Label Ty Payload Callable Thread → Prop
  | .proceed thread => ∀ topic data gone rest, s.frames thread = .entered topic data gone :: rest →
      s.bus.handlersFor (data.typeid, topic) ≠ [] → data.Wraps
  | _ => True

namespace Exact

variable (hexact : s.Exact)

include hexact

theorem deliver {rest : List (Frame Ty Payload Callable)} {p : Publish Ty Payload Callable}
    (hframes : s.frames thread = .delivering p :: rest) : (s.deliver thread rest p).Exact := by
  obtain ⟨hp, hrest⟩ := hexact.frames.top hframes
  have hp' : p.Exact := hp
  unfold Threads.deliver
  split
  case h_1 hnil =>
    refine ⟨hexact.frames.setStack hrest, ?_⟩
    intro found hfound
    obtain hfound | hfound := List.mem_append.mp hfound
    · exact hexact.returned found hfound
    · rw [List.mem_singleton.mp hfound, ← hp'.visits, hnil, List.append_nil]
  case h_2 w remaining hcons =>
    have hmem : w ∈ p.invoked ++ p.remaining := by simp [hcons]
    have hkey : w.key.1 = p.data.typeid := congrArg Prod.fst (hp'.mem_registered hmem).2
    have hwraps : p.data.Wraps := hp'.wraps (by simp [hcons])
    rw [hkey]
    split
    case h_1 hbad => exact absurd hwraps ((anyCast_toAny_eq_none_iff p.data).mp hbad)
    case h_2 value hvalue =>
      refine ⟨hexact.frames.setStack ?_, hexact.returned⟩
      rw [List.forall_mem_cons, List.forall_mem_cons]
      refine ⟨trivial, ⟨?_, fun _ => hwraps⟩, hrest⟩
      change (p.invoked ++ [w]) ++ remaining = p.due
      rw [← hp'.visits, hcons, List.append_assoc, List.singleton_append]

theorem proceed (hs : s.Consistent) (hproper : Proper s (.proceed thread)) :
    (s.proceed thread).Exact := by
  unfold Threads.proceed
  split
  case h_1 topic data gone rest hframes =>
    obtain ⟨-, hrest⟩ := hexact.frames.top hframes
    refine ⟨hexact.frames.setStack ?_, hexact.returned⟩
    rw [List.forall_mem_cons]
    exact ⟨⟨hs.bus.handlersFor_eq _, hproper topic data gone rest hframes⟩, hrest⟩
  case h_2 p rest hframes => exact hexact.deliver hframes
  case h_3 w rest hframes =>
    obtain ⟨-, hrest⟩ := hexact.frames.top hframes
    exact ⟨hexact.frames.setStack hrest, hexact.returned⟩
  · exact hexact

theorem unsubscribe (subscription : Nat) : (s.unsubscribe thread subscription).Exact := by
  unfold Threads.unsubscribe
  split
  · exact hexact
  · split
    · have htaken : { s with mValid := Function.update s.mValid subscription false }.EveryFrame
          ExactFrame := hexact.frames
      exact ⟨htaken.push trivial, hexact.returned⟩
    · exact hexact

theorem handlerEnds (outcome : Outcome) : (s.handlerEnds thread outcome).Exact := by
  unfold Threads.handlerEnds
  split
  case h_1 w rest hframes =>
    obtain ⟨-, hrest⟩ := hexact.frames.top hframes
    exact ⟨hexact.frames.setStack hrest, hexact.returned⟩
  · exact hexact

theorem step (hs : s.Consistent) {label : Label Ty Payload Callable Thread} (hproper : Proper s label) :
    (s.step label).Exact := by
  cases label with
  | subscribe thread type topic handler =>
      change (if s.isFree thread then _ else s).Exact
      split
      · exact ⟨hexact.frames, hexact.returned⟩
      · exact hexact
  | unsubscribe thread subscription =>
      change (if s.isFree thread then _ else s).Exact
      split
      · exact hexact.unsubscribe subscription
      · exact hexact
  | clear thread =>
      change (if s.isFree thread then _ else s).Exact
      split
      · exact ⟨hexact.frames, hexact.returned⟩
      · exact hexact
  | publish thread topic data =>
      change (if s.isFree thread then _ else s).Exact
      split
      · exact ⟨hexact.frames.push trivial, hexact.returned⟩
      · exact hexact
  | proceed thread => exact hexact.proceed hs hproper
  | handlerEnds thread outcome => exact hexact.handlerEnds outcome

end Exact

/-! ### The loop of a publish -/

/-- The steps of a thread that goes through the rest of a loop, whose handlers call nothing and end as
they may. -/
def loopOf (thread : Thread) (outcome : Wrapper Ty Callable → Outcome) :
    List (Wrapper Ty Callable) → List (Label Ty Payload Callable Thread)
  | [] => [.proceed thread]
  | w :: remaining => .proceed thread :: .handlerEnds thread (outcome w) :: loopOf thread outcome remaining

theorem step_proceed_delivering {rest : List (Frame Ty Payload Callable)} {p : Publish Ty Payload Callable}
    (hframes : s.frames thread = .delivering p :: rest) :
    s.step (.proceed thread) = s.deliver thread rest p := by
  change s.proceed thread = _
  unfold Threads.proceed
  rw [hframes]

theorem turn_spec {rest : List (Frame Ty Payload Callable)} {p : Publish Ty Payload Callable}
    (hframes : s.frames thread = .delivering p :: rest) {w : Wrapper Ty Callable}
    {remaining : List (Wrapper Ty Callable)} (hcons : p.remaining = w :: remaining) (outcome : Outcome) :
    ((s.step (.proceed thread)).step (.handlerEnds thread outcome)).returned = s.returned ∧
      ((s.step (.proceed thread)).step (.handlerEnds thread outcome)).frames thread =
        .delivering { p with
          remaining
          invoked := p.invoked ++ [w].filter fun w => (anyCast w.key.1 p.data.toAny).isSome } :: rest := by
  rw [step_proceed_delivering hframes]
  change ((s.deliver thread rest p).handlerEnds thread outcome).returned = _ ∧
    ((s.deliver thread rest p).handlerEnds thread outcome).frames thread = _
  unfold Threads.deliver
  rw [hcons]
  dsimp only
  cases hcast : anyCast w.key.1 p.data.toAny with
  | none => simp [Threads.handlerEnds, Threads.setStack, Threads.log, hcast]
  | some value => simp [Threads.handlerEnds, Threads.setStack, Threads.log, hcast]

theorem returned_loopOf {rest : List (Frame Ty Payload Callable)} {p : Publish Ty Payload Callable}
    (hframes : s.frames thread = .delivering p :: rest) (outcome : Wrapper Ty Callable → Outcome) :
    (run step s (loopOf thread outcome p.remaining)).returned =
      s.returned ++ [{ p with
        remaining := []
        invoked := p.invoked ++ p.remaining.filter fun w => (anyCast w.key.1 p.data.toAny).isSome }] := by
  generalize hremaining : p.remaining = remaining
  induction remaining generalizing s p with
  | nil =>
      obtain ⟨topic, data, remaining, invoked, registered, gone⟩ := p
      obtain rfl : remaining = [] := hremaining
      rw [loopOf, run_cons, step_proceed_delivering hframes]
      simp [Threads.deliver, Threads.setStack]
  | cons w remaining ih =>
      obtain ⟨hreturned, hnext⟩ := turn_spec hframes hremaining (outcome w)
      rw [loopOf, run_cons, run_cons, ih hnext rfl, hreturned, List.append_assoc, ← List.filter_append,
        List.singleton_append]

/-! ### Whole runs -/

def Has (s : Threads Ty Payload Callable Thread) (p : Publish Ty Payload Callable) : Prop :=
  p ∈ s.returned ∨ ∃ thread, .delivering p ∈ s.frames thread

/-- What the bus promises of a state and of the steps from it. -/
structure Delivers (s : Threads Ty Payload Callable Thread) : Prop where
  returned : ∀ p ∈ s.returned, p.invoked = p.due
  running : ∀ thread p, .delivering p ∈ s.frames thread → p.invoked ++ p.remaining = p.due
  returns : ∀ thread p rest outcome, s.frames thread = .delivering p :: rest →
    (run step s (loopOf thread outcome p.remaining)).returned =
      s.returned ++ [{ p with remaining := [], invoked := p.due }]
  inOrder : ∀ p, s.Has p → p.invoked.Pairwise (·.ptr < ·.ptr)
  notGone : ∀ p, s.Has p → ∀ w ∈ p.invoked, w.ptr ∉ p.gone
  unsubscribes : ∀ thread w rest, s.frames thread = .unsubscribing w :: rest → ∀ key,
    (s.step (.proceed thread)).bus.handlersFor key =
      (s.bus.handlersFor key).filter (fun found => found.ptr ≠ w.ptr)
  unsubscribesOnce : ∀ thread subscription, s.mValid subscription = false →
    s.step (.unsubscribe thread subscription) = s

omit [DecidableEq Thread] in
theorem Consistent.sound_of_has (hs : s.Consistent) {p : Publish Ty Payload Callable} (hp : s.Has p) :
    p.Sound := by
  obtain hp | ⟨thread, hp⟩ := hp
  · exact (hs.returned p hp).1
  · exact hs.frames thread _ hp

omit [DecidableEq Thread] in
theorem Exact.invoked_append (hexact : s.Exact) {p : Publish Ty Payload Callable} (hp : s.Has p) :
    ∃ remaining, p.invoked ++ remaining = p.due := by
  obtain hp | ⟨thread, hp⟩ := hp
  · exact ⟨[], by rw [List.append_nil, hexact.returned p hp]⟩
  · have hframe : p.Exact := hexact.frames thread _ hp
    exact ⟨p.remaining, hframe.visits⟩

theorem unsubscribe_again {subscription : Nat} (htaken : s.mValid subscription = false) :
    s.step (.unsubscribe thread subscription) = s := by
  change (if s.isFree thread then s.unsubscribe thread subscription else s) = s
  split
  · unfold Threads.unsubscribe
    rw [htaken]
    split <;> rfl
  · rfl

theorem bus_step_unsubscribing {w : Wrapper Ty Callable} {rest : List (Frame Ty Payload Callable)}
    (hframes : s.frames thread = .unsubscribing w :: rest) :
    (s.step (.proceed thread)).bus = s.bus.unsubscribeFn w := by
  change (s.proceed thread).bus = _
  unfold Threads.proceed
  rw [hframes]
  rfl

/-- A publish that owes only what its data can be cast for returns having invoked what it owes. -/
theorem Exact.returns (hexact : s.Exact) {rest : List (Frame Ty Payload Callable)}
    {p : Publish Ty Payload Callable} (hframes : s.frames thread = .delivering p :: rest)
    (outcome : Wrapper Ty Callable → Outcome) :
    (run Threads.step s (loopOf thread outcome p.remaining)).returned =
      s.returned ++ [{ p with remaining := [], invoked := p.due }] := by
  have hp : p.Exact := (hexact.frames.top hframes).1
  have hall : p.remaining.filter (fun w => (anyCast w.key.1 p.data.toAny).isSome) = p.remaining := by
    rw [List.filter_eq_self]
    intro w hw
    have hkey : w.key.1 = p.data.typeid :=
      congrArg Prod.fst (hp.mem_registered (List.mem_append_right _ hw)).2
    have hwraps := hp.wraps (List.ne_nil_of_mem hw)
    rw [hkey, Option.isSome_iff_ne_none]
    intro hbad
    exact (anyCast_toAny_eq_none_iff p.data).mp hbad hwraps
  rw [returned_loopOf hframes, hall, hp.visits]

theorem Exact.delivers (hexact : s.Exact) (hs : s.Consistent) : s.Delivers where
  returned := hexact.returned
  running thread p hp := Publish.Exact.visits (hexact.frames thread _ hp)
  returns thread p rest outcome hframes := hexact.returns hframes outcome
  inOrder p hp := by
    obtain ⟨remaining, hdue⟩ := hexact.invoked_append hp
    have hordered : p.due.Pairwise (·.ptr < ·.ptr) :=
      (hs.sound_of_has hp).ordered.sublist List.filter_sublist
    rw [← hdue] at hordered
    exact hordered.sublist (List.sublist_append_left _ _)
  notGone p hp w hw := by
    obtain ⟨remaining, hdue⟩ := hexact.invoked_append hp
    have hmem : w ∈ p.due := hdue ▸ List.mem_append_left remaining hw
    exact (hs.sound_of_has hp).notGone w (List.mem_of_mem_filter hmem)
  unsubscribes thread w rest hframes key := by
    have hw : w ∈ s.bus.made := (hs.frames.top hframes).1
    rw [bus_step_unsubscribing hframes]
    exact TypedEventBus.handlersFor_unsubscribeFn hs.bus hw key
  unsubscribesOnce thread subscription htaken := unsubscribe_again htaken

/-- A snapshot for data that cannot be cast makes the publish return without having invoked what it
owes. -/
theorem Delivers.proper (hs : s.Consistent) {label : Label Ty Payload Callable Thread}
    (hdelivers : (s.step label).Delivers) : Proper s label := by
  cases label with
  | proceed thread =>
      intro topic data gone rest hframes hhandlers
      by_contra hwraps
      have hstep : s.step (.proceed thread) = s.snapshot thread rest topic data gone := by
        change s.proceed thread = _
        unfold Threads.proceed
        rw [hframes]
      rw [hstep] at hdelivers
      have hafter : (s.snapshot thread rest topic data gone).frames thread = _ := Function.update_self ..
      have hreturns := hdelivers.returns thread _ rest (fun _ => .returned) hafter
      rw [returned_loopOf hafter, List.append_cancel_left_eq] at hreturns
      have hinvoked := congrArg Publish.invoked (List.cons.inj hreturns).1
      have hall : (s.bus.handlersFor (data.typeid, topic)).filter
          (fun w => (anyCast w.key.1 data.toAny).isSome) = s.bus.handlersFor (data.typeid, topic) :=
        hinvoked.trans (hs.bus.handlersFor_eq _).symm
      obtain ⟨w, hw⟩ := List.exists_mem_of_ne_nil _ hhandlers
      have hcast := List.filter_eq_self.mp hall w hw
      rw [hs.bus.handlersFor_eq, List.mem_filter, decide_eq_true_eq] at hw
      rw [hw.2, (anyCast_toAny_eq_none_iff data).mpr hwraps] at hcast
      exact nomatch hcast
  | subscribe thread type topic handler => trivial
  | unsubscribe thread subscription => trivial
  | clear thread => trivial
  | publish thread topic data => trivial
  | handlerEnds thread outcome => trivial

/-- In every interleaving, the bus keeps its promise all along exactly if no publish of a `std::any` that
does not hold a `std::any` takes a snapshot with a handler in it. -/
theorem delivers_always_iff_proper (labels : List (Label Ty Payload Callable Thread)) :
    (∀ n, (run step {} (labels.take n)).Delivers) ↔ Along step Proper {} labels := by
  have hany : Along step (fun _ _ => True) ({} : Threads Ty Payload Callable Thread) labels :=
    Along.of_forall (fun _ _ => trivial) labels
  refine always_iff_along_of_invariant (Q := fun s => s.Consistent ∧ s.Exact) hany
    ⟨consistent_start, ⟨nofun, nofun⟩⟩ ?_ ?_ ?_
  · intro s hs
    exact hs.2.delivers hs.1
  · intro s label hs _ hdelivers
    exact hdelivers.proper hs.1
  · intro s label hs _ hproper
    exact ⟨hs.1.step label, hs.2.step hs.1 hproper⟩

/-! ### Data that is a `std::any` -/

/-- A handler for `std::any` under a topic, and a publish there of a `std::any` that holds a number. -/
def anyRun : List (Label String Int Unit Unit) :=
  [.subscribe () none "t" (), .publish () "t" (.anyOf (.of "int" 5)), .proceed (), .proceed (),
    .proceed ()]

/-- The handler is registered, and the publish returns without having invoked it. -/
theorem any_not_delivered : ¬ ∀ n, (run step {} (anyRun.take n)).Delivers := by
  intro hdelivers
  have hall := (hdelivers 5).returned _ (List.mem_singleton.mpr rfl)
  exact nomatch hall

end Threads

end SoulCoreKit.Event
