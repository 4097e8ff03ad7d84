import Mathlib.Data.List.Chain
import SoulCoreKit.Lib.Run
import SoulCoreKit.Network.ConnectionStateMachine

/-!
# The history of a connection

The changes of a connection state machine form a path, whoever makes them. What a call returns that tries
several transitions need not be what it would have returned at any single moment. It is, for all but one of
them: a call that fails was under way while the machine was in a state that it does not start from.
`transitionToDisconnecting` alone can be overtaken, by a connection that is established between its two
attempts.
-/

namespace SoulCoreKit.Network

/-! ### The changes form a path -/

/-- The changes lead from one state to the other, each from where the one before it ended. -/
def IsPath : ConnectionState → List Change → ConnectionState → Prop
  | start, [], finish => start = finish
  | start, (source, target) :: rest, finish => source = start ∧ IsPath target rest finish

theorem isPath_cons {start finish : ConnectionState} (change : Change) (rest : List Change) :
    IsPath start (change :: rest) finish ↔ change.1 = start ∧ IsPath change.2 rest finish := Iff.rfl

theorem isPath_append {start finish : ConnectionState} (first second : List Change) :
    IsPath start (first ++ second) finish ↔
      ∃ middle, IsPath start first middle ∧ IsPath middle second finish := by
  induction first generalizing start with
  | nil => simp [IsPath]
  | cons change rest ih => simp [IsPath, ih, and_assoc]

theorem IsPath.concat {start source target : ConnectionState} {changes : List Change}
    (hpath : IsPath start changes source) : IsPath start (changes ++ [(source, target)]) target :=
  (isPath_append _ _).mpr ⟨source, hpath, rfl, rfl⟩

/-- A path that does not stay where it is ends with a change into its last state. -/
theorem IsPath.exists_mem {start finish : ConnectionState} {changes : List Change}
    (hpath : IsPath start changes finish) (hne : start ≠ finish) :
    ∃ change ∈ changes, change.2 = finish := by
  induction changes generalizing start with
  | nil => exact absurd hpath hne
  | cons change rest ih =>
      obtain ⟨source, target⟩ := change
      by_cases heq : target = finish
      · exact ⟨_, List.mem_cons_self, heq⟩
      · obtain ⟨change, hmem, hfinish⟩ := ih hpath.2 heq
        exact ⟨change, List.mem_cons_of_mem _ hmem, hfinish⟩

namespace ConnectionStateMachine

theorem transition_of_ne {m : ConnectionStateMachine} {expected next : ConnectionState}
    (hne : m.mState ≠ expected) : m.transition expected next = (false, m) := if_pos hne

theorem transition_of_eq {m : ConnectionStateMachine} {expected next : ConnectionState}
    (heq : m.mState = expected) : m.transition expected next = (true, { m with
      mState := next
      notified := m.notified ++
        (m.mCallback.map fun callback => (callback, expected, next)).toList }) := by
  rw [← heq]
  exact if_neg (not_not_intro rfl)

end ConnectionStateMachine

/-- What an attempt comes to. -/
theorem MachineThreads.attempt_cases (s : MachineThreads) (thread : Nat) {call : PendingCall}
    {change : Change} {rest : List Change} (hremaining : call.remaining = change :: rest) :
    (s.machine.mState = change.1 ∧ s.attempt thread call =
        { s.returns thread call (some change) with
          machine := (s.machine.transition change.1 change.2).2 }.observe change.2) ∨
      (s.machine.mState ≠ change.1 ∧ rest = [] ∧ s.attempt thread call = s.returns thread call none) ∨
      (s.machine.mState ≠ change.1 ∧ rest ≠ [] ∧
        s.attempt thread call = s.setPending thread (some { call with remaining := rest })) := by
  obtain ⟨expected, next⟩ := change
  unfold MachineThreads.attempt
  rw [hremaining]
  by_cases heq : s.machine.mState = expected
  · refine Or.inl ⟨heq, ?_⟩
    simp only [ConnectionStateMachine.transition_of_eq heq]
  · right
    simp only [ConnectionStateMachine.transition_of_ne heq]
    cases rest with
    | nil => exact Or.inl ⟨heq, rfl, rfl⟩
    | cons second others => exact Or.inr ⟨heq, by simp, rfl⟩

/-! ### A call that fails -/

/-- The changes there can be. -/
def allChanges : List Change :=
  [.toConnecting, .toConnected, .toDisconnecting, .toDisconnected, .toError].flatMap Operation.attempts

theorem mem_allChanges {change : Change} {operation : Operation}
    (hmem : change ∈ operation.attempts) : change ∈ allChanges := by
  rw [allChanges, List.mem_flatMap]
  exact ⟨operation, by cases operation <;> decide, hmem⟩

/-- No change leads from a state that the call tries later to one that it has tried before. -/
def Ordered (operation : Operation) : Prop :=
  operation.sources.Pairwise fun earlier later => (later, earlier) ∉ allChanges

theorem ordered_of_ne {operation : Operation} (hne : operation ≠ .toDisconnecting) :
    Ordered operation := by
  unfold Ordered
  cases operation with
  | toDisconnecting => exact absurd rfl hne
  | toConnecting | toConnected | toDisconnected | toError => decide

/-- The only change among the states that a disconnection starts from. -/
theorem overtaking_change {source target : ConnectionState} (hchange : (source, target) ∈ allChanges)
    (hsource : source ∈ Operation.toDisconnecting.sources)
    (htarget : target ∈ Operation.toDisconnecting.sources) :
    source = .connecting ∧ target = .connected := by
  revert hchange hsource htarget
  cases source <;> cases target <;> decide

namespace PendingCall

/-- All states since the call began are such that it can start from them. -/
def Enabled (call : PendingCall) : Prop := ∀ state ∈ call.seen, state ∈ call.operation.sources

/-- Where a call under way stands, while the machine is in a state. In an ordered call the state is
among those still to be tried; a disconnection has missed nothing, or the state after `connecting`. -/
structure Timely (call : PendingCall) (state : ConnectionState) : Prop where
  unfinished : call.remaining ≠ []
  suffix : call.remaining <:+ call.operation.attempts
  ahead : call.operation ≠ .toDisconnecting → call.Enabled → state ∈ call.remaining.map Prod.fst
  overtaken : call.operation = .toDisconnecting → call.Enabled →
    call.seen = [state] ∧ (call.remaining = call.operation.attempts ∨ state = .connecting) ∨
      call.seen = [.connecting, .connected] ∧ state = .connected

theorem Timely.start (operation : Operation) (state : ConnectionState) :
    (⟨operation, operation.attempts, [state]⟩ : PendingCall).Timely state where
  unfinished := by cases operation <;> simp [Operation.attempts]
  suffix := List.suffix_rfl
  ahead _ henabled := henabled state List.mem_cons_self
  overtaken _ _ := Or.inl ⟨rfl, Or.inl rfl⟩

theorem Timely.observe {call : PendingCall} {source target : ConnectionState}
    (htimely : call.Timely source) (hchange : (source, target) ∈ allChanges) :
    Timely { call with seen := call.seen ++ [target] } target := by
  have henabled (h : Enabled { call with seen := call.seen ++ [target] }) :
      call.Enabled ∧ target ∈ call.operation.sources :=
    ⟨fun state hstate => h state (List.mem_append_left _ hstate), h target (by simp)⟩
  refine ⟨htimely.unfinished, htimely.suffix, fun hne hall => ?_, fun heq hall => ?_⟩
  · obtain ⟨hold, htarget⟩ := henabled hall
    have hsource := htimely.ahead hne hold
    obtain ⟨made, hmade⟩ := htimely.suffix
    have hordered := ordered_of_ne hne
    rw [Ordered, Operation.sources, ← hmade, List.map_append, List.pairwise_append] at hordered
    rw [Operation.sources, ← hmade, List.map_append, List.mem_append] at htarget
    rcases htarget with hearlier | hlater
    · exact absurd hchange (hordered.2.2 target hearlier source hsource)
    · exact hlater
  · obtain ⟨hold, htarget⟩ := henabled hall
    rw [heq] at htarget
    rcases htimely.overtaken heq hold with ⟨hseen, -⟩ | ⟨hseen, hstate⟩
    · obtain ⟨rfl, rfl⟩ := overtaking_change hchange (heq ▸ hold source (by simp [hseen])) htarget
      exact Or.inr ⟨by rw [hseen]; rfl, rfl⟩
    · have hsource := heq ▸ hold source (by simp [hseen, hstate])
      obtain ⟨rfl, -⟩ := overtaking_change hchange hsource htarget
      cases hstate

theorem Timely.miss {call : PendingCall} {state : ConnectionState} {change : Change}
    {rest : List Change} (htimely : call.Timely state) (hremaining : call.remaining = change :: rest)
    (hmissed : state ≠ change.1) (hrest : rest ≠ []) :
    Timely { call with remaining := rest } state := by
  refine ⟨hrest, ?_, fun hne hall => ?_, fun heq hall => ?_⟩
  · have hsuffix := htimely.suffix
    rw [hremaining] at hsuffix
    exact (List.suffix_cons change rest).trans hsuffix
  · have hahead := htimely.ahead hne hall
    rw [hremaining, List.map_cons, List.mem_cons] at hahead
    exact hahead.resolve_left hmissed
  · rcases htimely.overtaken heq hall with ⟨hseen, hall' | hconnecting⟩ | hovertaken
    · refine Or.inl ⟨hseen, Or.inr ?_⟩
      have hsource := hall state (by simp [hseen])
      rw [hremaining, heq] at hall'
      rw [heq] at hsource
      obtain rfl := (List.cons.inj hall').1
      revert hmissed hsource
      cases state <;> decide
    · exact Or.inl ⟨hseen, Or.inr hconnecting⟩
    · exact Or.inr hovertaken

/-- A call whose last attempt misses was enabled throughout only if it is a disconnection that a
connection has overtaken. -/
theorem Timely.fail {call : PendingCall} {state : ConnectionState} {change : Change}
    (htimely : call.Timely state) (hremaining : call.remaining = [change]) (hmissed : state ≠ change.1)
    (henabled : call.Enabled) :
    call.operation = .toDisconnecting ∧ call.seen = [.connecting, .connected] := by
  by_cases heq : call.operation = .toDisconnecting
  · refine ⟨heq, ?_⟩
    have hlast : change = (.connecting, .disconnecting) := by
      obtain ⟨made, hmade⟩ := htimely.suffix
      rw [hremaining, heq] at hmade
      simpa [Operation.attempts] using congrArg List.getLast? hmade
    rcases htimely.overtaken heq henabled with ⟨-, hall | hconnecting⟩ | ⟨hseen, -⟩
    · rw [hremaining, heq] at hall
      cases hall
    · exact absurd hconnecting (by rw [hlast] at hmissed; exact hmissed)
    · exact hseen
  · have hahead := htimely.ahead heq henabled
    rw [hremaining, List.map_singleton, List.mem_singleton] at hahead
    exact absurd hahead hmissed

end PendingCall

/-! ### Runs -/

namespace MachineThreads

/-- A call that returned false though it could have started from every state since it began. -/
def ReturnedCall.Spurious (call : ReturnedCall) : Prop :=
  call.change = none ∧ ∀ state ∈ call.seen, state ∈ call.operation.sources

structure Inv (s : MachineThreads) : Prop where
  path : IsPath .disconnected s.changes s.machine.mState
  made : ∀ call ∈ s.returned, ∀ change, call.change = some change → change ∈ call.operation.attempts
  timely : ∀ thread call, s.pending thread = some call → call.Timely s.machine.mState
  failed : ∀ call ∈ s.returned, ReturnedCall.Spurious call →
    call.operation = .toDisconnecting ∧ call.seen = [.connecting, .connected]

variable {s : MachineThreads}

theorem changes_returns (s : MachineThreads) (thread : Nat) (call : PendingCall)
    (change : Option Change) : (s.returns thread call change).changes = s.changes ++ change.toList := by
  rw [changes, returns, List.filterMap_append]
  cases change <;> rfl

theorem timely_setPending (hinv : s.Inv) {thread : Nat} {pending : Option PendingCall}
    (htimely : ∀ call, pending = some call → call.Timely s.machine.mState) (other : Nat)
    (call : PendingCall) (hcall : (s.setPending thread pending).pending other = some call) :
    call.Timely s.machine.mState := by
  simp only [setPending] at hcall
  by_cases hsame : other = thread
  · subst hsame
    rw [Function.update_self] at hcall
    exact htimely call hcall
  · rw [Function.update_of_ne hsame] at hcall
    exact hinv.timely other call hcall

theorem Inv.call (hinv : s.Inv) (thread : Nat) (operation : Operation) :
    (s.step (.call thread operation)).Inv := by
  rw [step]
  split_ifs with hfree
  · refine ⟨hinv.path, hinv.made, timely_setPending hinv ?_, hinv.failed⟩
    rintro call ⟨⟩
    exact PendingCall.Timely.start operation s.machine.mState
  · exact hinv

theorem Inv.returns_none (hinv : s.Inv) {thread : Nat} {call : PendingCall}
    (hfail : call.Enabled → call.operation = .toDisconnecting ∧ call.seen = [.connecting, .connected]) :
    (s.returns thread call none).Inv := by
  refine ⟨?_, ?_, timely_setPending hinv ?_, ?_⟩
  · rw [changes_returns, Option.toList_none, List.append_nil]
    exact hinv.path
  · intro returned hreturned change hchange
    rcases List.mem_append.mp hreturned with hold | hnew
    · exact hinv.made returned hold change hchange
    · rw [List.mem_singleton.mp hnew] at hchange
      cases hchange
  · intro pending hnone
    cases hnone
  · intro returned hreturned hspurious
    rcases List.mem_append.mp hreturned with hold | hnew
    · exact hinv.failed returned hold hspurious
    · rw [List.mem_singleton] at hnew
      subst hnew
      exact hfail hspurious.2

theorem Inv.succeed (hinv : s.Inv) {thread : Nat} {call : PendingCall} {change : Change}
    (hmem : change ∈ call.operation.attempts)
    (hstate : s.machine.mState = change.1) :
    ({ s.returns thread call (some change) with
        machine := (s.machine.transition change.1 change.2).2 }.observe change.2).Inv := by
  obtain ⟨source, target⟩ := change
  obtain rfl : s.machine.mState = source := hstate
  have hmachine : s.machine.transition s.machine.mState target = _ :=
    ConnectionStateMachine.transition_of_eq rfl
  refine ⟨?_, ?_, fun other pending hother => ?_, ?_⟩
  · change IsPath _ (s.returns thread call _).changes _
    rw [changes_returns, hmachine]
    exact hinv.path.concat
  · intro returned hreturned change hchange
    rcases List.mem_append.mp hreturned with hold | hnew
    · exact hinv.made returned hold change hchange
    · rw [List.mem_singleton.mp hnew, Option.some.injEq] at hchange
      rw [List.mem_singleton.mp hnew, ← hchange]
      exact hmem
  · simp only [observe, Option.map_eq_some_iff] at hother
    obtain ⟨before, hbefore, rfl⟩ := hother
    have htimely := timely_setPending hinv (by simp) other before hbefore
    rw [hmachine]
    exact htimely.observe (mem_allChanges hmem)
  · intro returned hreturned hspurious
    rcases List.mem_append.mp hreturned with hold | hnew
    · exact hinv.failed returned hold hspurious
    · rw [List.mem_singleton.mp hnew] at hspurious
      cases hspurious.1

theorem Inv.attempt (hinv : s.Inv) {thread : Nat} {call : PendingCall}
    (hpending : s.pending thread = some call) : (s.attempt thread call).Inv := by
  have htimely := hinv.timely thread call hpending
  obtain ⟨change, rest, hremaining⟩ := List.exists_cons_of_ne_nil htimely.unfinished
  have hmem : change ∈ call.operation.attempts :=
    htimely.suffix.subset (by rw [hremaining]; exact List.mem_cons_self)
  obtain ⟨heq, hattempt⟩ | ⟨hne, rfl, hattempt⟩ | ⟨hne, hrest, hattempt⟩ :=
    s.attempt_cases thread hremaining
  · rw [hattempt]
    exact hinv.succeed hmem heq
  · rw [hattempt]
    exact hinv.returns_none fun henabled => htimely.fail hremaining hne henabled
  · rw [hattempt]
    refine ⟨hinv.path, hinv.made, timely_setPending hinv ?_, hinv.failed⟩
    rintro pending ⟨⟩
    exact htimely.miss hremaining hne hrest

theorem Inv.step (hinv : s.Inv) (label : MachineLabel) : (s.step label).Inv := by
  cases label with
  | setStateChangedCallback callback => exact ⟨hinv.path, hinv.made, hinv.timely, hinv.failed⟩
  | call thread operation => exact hinv.call thread operation
  | attempt thread =>
      rw [MachineThreads.step]
      cases hpending : s.pending thread with
      | none => exact hinv
      | some call => exact hinv.attempt hpending

theorem inv_run (callback : Option Nat) (labels : List MachineLabel) :
    (run step (start callback) labels).Inv := by
  have hstart : (start callback).Inv := ⟨rfl, by simp [start], by simp [start], by simp [start]⟩
  exact run_induction hstart (fun _ label hinv => hinv.step label) labels

/-- The callback that was set in a state was told all changes since, and nobody else was told anything. -/
def ToldSince (before : MachineThreads) (callback : Nat) (s : MachineThreads) : Prop :=
  s.machine.mCallback = some callback ∧ ∃ since, s.changes = before.changes ++ since ∧
    s.machine.notified = before.machine.notified ++ since.map (Prod.mk callback)

section

variable {before : MachineThreads} {callback : Nat}

theorem ToldSince.set (before : MachineThreads) (callback : Nat) :
    ToldSince before callback (before.step (.setStateChangedCallback (some callback))) :=
  ⟨rfl, [], (List.append_nil _).symm, (List.append_nil _).symm⟩

theorem ToldSince.returns_none (htold : ToldSince before callback s) (thread : Nat) (call : PendingCall) :
    ToldSince before callback (s.returns thread call none) := by
  obtain ⟨hcallback, since, hchanges, hnotified⟩ := htold
  refine ⟨hcallback, since, ?_, hnotified⟩
  rw [changes_returns, Option.toList_none, List.append_nil]
  exact hchanges

theorem ToldSince.succeed (htold : ToldSince before callback s) {thread : Nat} {call : PendingCall}
    {change : Change} (hstate : s.machine.mState = change.1) :
    ToldSince before callback ({ s.returns thread call (some change) with
      machine := (s.machine.transition change.1 change.2).2 }.observe change.2) := by
  obtain ⟨hcallback, since, hchanges, hnotified⟩ := htold
  rw [ConnectionStateMachine.transition_of_eq hstate]
  refine ⟨hcallback, since ++ [change], ?_, ?_⟩
  · calc (s.returns thread call (some change)).changes
      _ = s.changes ++ [change] := changes_returns s thread call (some change)
      _ = before.changes ++ (since ++ [change]) := by rw [hchanges, List.append_assoc]
  · calc s.machine.notified ++ (s.machine.mCallback.map fun callback => (callback, change)).toList
      _ = s.machine.notified ++ [(callback, change)] := by rw [hcallback]; rfl
      _ = before.machine.notified ++ (since ++ [change]).map (Prod.mk callback) := by
          rw [hnotified, List.append_assoc, List.map_append, List.map_singleton]

theorem ToldSince.attempt (htold : ToldSince before callback s) (thread : Nat) (call : PendingCall) :
    ToldSince before callback (s.attempt thread call) := by
  cases hremaining : call.remaining with
  | nil =>
      simp only [MachineThreads.attempt, hremaining]
      exact htold.returns_none thread call
  | cons change rest =>
      obtain ⟨heq, hattempt⟩ | ⟨-, -, hattempt⟩ | ⟨-, -, hattempt⟩ := s.attempt_cases thread hremaining
      · rw [hattempt]
        exact htold.succeed heq
      · rw [hattempt]
        exact htold.returns_none thread call
      · rw [hattempt]
        exact htold

theorem ToldSince.step (htold : ToldSince before callback s) {label : MachineLabel}
    (hkept : ∀ other, label ≠ .setStateChangedCallback other) :
    ToldSince before callback (s.step label) := by
  cases label with
  | setStateChangedCallback other => exact absurd rfl (hkept other)
  | call thread operation =>
      rw [MachineThreads.step]
      split_ifs
      · exact htold
      · exact htold
  | attempt thread =>
      rw [MachineThreads.step]
      cases s.pending thread with
      | none => exact htold
      | some call => exact htold.attempt thread call

theorem toldSince_run {earlier later : List MachineLabel}
    (hkept : ∀ other, .setStateChangedCallback other ∉ later) :
    ToldSince (run step s earlier) callback
      (run step s (earlier ++ .setStateChangedCallback (some callback) :: later)) := by
  have hlater : Along step (fun _ label => ∀ other, label ≠ .setStateChangedCallback other)
      ((run step s earlier).step (.setStateChangedCallback (some callback))) later :=
    .of_forall_mem fun label hlabel _ other heq => hkept other (heq ▸ hlabel)
  rw [run_append, run_cons]
  exact hlater.induction (ToldSince.set _ callback) fun _ _ htold hlabel => htold.step hlabel

end

/-- Two calls that connect have another between them that made the machine `disconnected` or put it in
error. -/
theorem connects_apart {first second third : List ReturnedCall} {call call' : ReturnedCall}
    (hinv : s.Inv) (hreturned : s.returned = first ++ call :: second ++ call' :: third)
    (hcall : call.operation = .toConnecting ∧ call.change ≠ none)
    (hcall' : call'.operation = .toConnecting ∧ call'.change ≠ none) :
    ∃ between ∈ second, ∃ source,
      between.change = some (source, .disconnected) ∨ between.change = some (source, .error) := by
  obtain ⟨change, hchange⟩ := Option.ne_none_iff_exists'.mp hcall.2
  obtain ⟨change', hchange'⟩ := Option.ne_none_iff_exists'.mp hcall'.2
  have hmade := hinv.made call (by simp [hreturned]) change hchange
  have hmade' := hinv.made call' (by simp [hreturned]) change' hchange'
  rw [hcall.1] at hmade
  rw [hcall'.1] at hmade'
  have htarget : change.2 = .connecting := by
    simp only [Operation.attempts, List.mem_cons, List.not_mem_nil, or_false] at hmade
    rcases hmade with rfl | rfl
    · rfl
    · rfl
  have hpath := hinv.path
  rw [changes, hreturned] at hpath
  simp only [List.append_assoc, List.cons_append, List.filterMap_append, List.filterMap_cons, hchange,
    hchange', isPath_append, isPath_cons] at hpath
  obtain ⟨_, -, -, source, hsecond, hsource, -⟩ := hpath
  rw [htarget] at hsecond
  rw [← hsource] at hsecond
  have hne : ConnectionState.connecting ≠ change'.1 := by
    rintro heq
    simp [Operation.attempts, Prod.ext_iff, ← heq] at hmade'
  obtain ⟨⟨last, finish⟩, hlast, hfinish⟩ := hsecond.exists_mem hne
  obtain ⟨between, hbetween, hsome⟩ := List.mem_filterMap.mp hlast
  obtain rfl : finish = change'.1 := hfinish
  refine ⟨between, hbetween, last, ?_⟩
  simp only [Operation.attempts, List.mem_cons, List.not_mem_nil, or_false] at hmade'
  rcases hmade' with rfl | rfl
  · exact Or.inl hsome
  · exact Or.inr hsome

/-- In every interleaving: the calls that return true each make one change that is theirs to make, the
changes lead from `disconnected` to the state of the machine, two connections have a disconnection or an
error between them, and a callback is told each change made since it was set, in order and up to the next
call that sets one, while no other callback is told anything. -/
theorem history_of_run (labels : List MachineLabel) :
    let s := run step (start none) labels
    IsPath .disconnected s.changes s.machine.mState ∧
      (∀ call ∈ s.returned, ∀ change, call.change = some change → change ∈ call.operation.attempts) ∧
      (∀ first second third call call', s.returned = first ++ call :: second ++ call' :: third →
        call.operation = .toConnecting ∧ call.change ≠ none →
        call'.operation = .toConnecting ∧ call'.change ≠ none →
        ∃ between ∈ second, ∃ source,
          between.change = some (source, .disconnected) ∨ between.change = some (source, .error)) ∧
      (∀ earlier callback later, labels = earlier ++ .setStateChangedCallback (some callback) :: later →
        (∀ other, .setStateChangedCallback other ∉ later) →
        let before := run step (start none) earlier
        ∃ since, s.changes = before.changes ++ since ∧
          s.machine.notified = before.machine.notified ++ since.map (Prod.mk callback)) := by
  have hinv := inv_run none labels
  refine ⟨hinv.path, hinv.made, fun first second third call call' hreturned hcall hcall' => ?_, ?_⟩
  · exact connects_apart hinv hreturned hcall hcall'
  · rintro earlier callback later rfl hkept
    exact (toldSince_run hkept).2

/-- Callback 7 learns that the machine connects; callback 8, set in between, that the connection is
established. -/
def handedOverLabels : List MachineLabel :=
  [.setStateChangedCallback (some 7), .call 0 .toConnecting, .attempt 0] ++
    .setStateChangedCallback (some 8) :: [.call 0 .toConnected, .attempt 0]

theorem history_of_run_handedOver :
    ∃ since, (run step (start none) handedOverLabels).changes = [(.disconnected, .connecting)] ++ since ∧
      (run step (start none) handedOverLabels).machine.notified =
        [(7, .disconnected, .connecting)] ++ since.map (Prod.mk 8) :=
  (history_of_run handedOverLabels).2.2.2 _ 8 _ rfl (by simp)

/-- In every interleaving, a call that returns false was under way while the machine was in a state it
does not start from. The exception is a disconnection, where the connection was established between its
attempts and nothing else happened. -/
theorem failed_of_run (callback : Option Nat) (labels : List MachineLabel) :
    ∀ call ∈ (run step (start callback) labels).returned, call.change = none →
      (∃ state ∈ call.seen, state ∉ call.operation.sources) ∨
        call.operation = .toDisconnecting ∧ call.seen = [.connecting, .connected] := by
  intro call hcall hnone
  by_cases hsources : ∀ state ∈ call.seen, state ∈ call.operation.sources
  · exact Or.inr ((inv_run callback labels).failed call hcall ⟨hnone, hsources⟩)
  · push Not at hsources
    exact Or.inl hsources

/-- Thread 1 disconnects while thread 0 learns that the connection is established. -/
def overtakenLabels : List MachineLabel :=
  [.call 0 .toConnecting, .attempt 0, .call 1 .toDisconnecting, .attempt 1, .call 0 .toConnected,
    .attempt 0, .attempt 1]

def overtakenCall : ReturnedCall := ⟨.toDisconnecting, none, [.connecting, .connected]⟩

theorem failed_of_run_overtaken :
    overtakenCall ∈ (run step (start none) overtakenLabels).returned ∧
      ((∃ state ∈ overtakenCall.seen, state ∉ overtakenCall.operation.sources) ∨
        overtakenCall.operation = .toDisconnecting ∧ overtakenCall.seen = [.connecting, .connected]) := by
  have hcall : overtakenCall ∈ (run step (start none) overtakenLabels).returned := by decide
  exact ⟨hcall, failed_of_run none overtakenLabels overtakenCall hcall rfl⟩

end MachineThreads

end SoulCoreKit.Network
