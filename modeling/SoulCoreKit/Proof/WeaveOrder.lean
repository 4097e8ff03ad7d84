import SoulCoreKit.Lib.Run
import SoulCoreKit.Aop.AspectWeaver

/-!
# The order of advices

The reference is recursive over the list of matching aspects, and says for every part which calls it
makes: the first aspect with an around advice is outermost, and each call of its `proceed` is the nest of
the aspects after it. The weaver builds the same nest from the inside out.
-/

namespace SoulCoreKit.Aop

variable {V E σ : Type}

namespace AspectWeaver

/-! ### The reference -/

/-- What a part of a woven call does. -/
structure Woven (V E σ : Type) where
  calls : List (Call V)
  outcome : Outcome V E
  jp : JoinPoint V
  state : σ

/-- An around advice that finds the inner part as its `proceed`. -/
def follow (inner : JoinPoint V → σ → Woven V E σ) : Around V E σ → Woven V E σ
  | .done outcome jp state => { calls := [], outcome := outcome, jp := jp, state := state }
  | .proceed jp state rest =>
      let first := inner jp state
      let last := follow inner (rest first.outcome first.jp first.state)
      { last with calls := first.calls ++ last.calls }

/-- The innermost part. -/
def core (badFunctionCall : E) (target : Option (ProceedFunc V E σ)) (jp : JoinPoint V) (state : σ) :
    Woven V E σ :=
  match target with
  | none => { calls := [], outcome := .error badFunctionCall, jp := jp, state := state }
  | some target =>
      let (outcome, jp', state) := target jp state
      { calls := [.target jp], outcome := outcome, jp := jp', state := state }

/-- The nest of around advices, the first aspect outermost. -/
def nest (badFunctionCall : E) (target : Option (ProceedFunc V E σ)) :
    List (Aspect V E σ) → JoinPoint V → σ → Woven V E σ
  | [], jp, state => core badFunctionCall target jp state
  | aspect :: rest, jp, state =>
      match aspect.around with
      | none => nest badFunctionCall target rest jp state
      | some aroundFunc =>
          let woven := follow (nest badFunctionCall target rest) (aroundFunc jp state)
          { woven with calls := .around aspect.name jp :: woven.calls }

/-- A null target is an error only for an around advice that proceeds to it. -/
def nestOrNothing (badFunctionCall : E) (target : Option (ProceedFunc V E σ))
    (matching : List (Aspect V E σ)) (jp : JoinPoint V) (state : σ) : Woven V E σ :=
  if target.isNone ∧ ∀ aspect ∈ matching, aspect.around.isNone then
    { calls := [], outcome := .ok none, jp := jp, state := state }
  else nest badFunctionCall target matching jp state

/-- The calls of one kind of advice. -/
def adviceCalls (advice : Aspect V E σ → Option (AdviceFunc V σ))
    (call : String → JoinPoint V → Call V) (jp : JoinPoint V) (matching : List (Aspect V E σ)) :
    List (Call V) :=
  (matching.filter fun aspect => (advice aspect).isSome).map fun aspect => call aspect.name jp

/-- The state after the advices of one kind. -/
def adviceState (advice : Aspect V E σ → Option (AdviceFunc V σ)) (jp : JoinPoint V)
    (matching : List (Aspect V E σ)) (state : σ) : σ :=
  (matching.filterMap advice).foldl (fun state func => func jp state) state

/-- The join point that shows how the nest ended. -/
def visible (what : E → Option String) (jp : JoinPoint V) : Outcome V E → JoinPoint V
  | .ok result => { jp with returnValue := result }
  | .error exception =>
      { jp with
        hasException := true
        exceptionMessage := (what exception).getD "unknown exception" }

/-- The advices after the nest. -/
def ending (what : E → Option String) (matching : List (Aspect V E σ)) (woven : Woven V E σ) :
    List (Call V) × σ :=
  let jp := visible what woven.jp woven.outcome
  match woven.outcome with
  | .ok _ =>
      (adviceCalls Aspect.afterReturning .afterReturning jp matching ++
          adviceCalls Aspect.after .after jp matching,
        adviceState Aspect.after jp matching
          (adviceState Aspect.afterReturning jp matching woven.state))
  | .error _ =>
      (adviceCalls Aspect.afterThrowing .afterThrowing jp matching ++
          adviceCalls Aspect.after .after jp matching,
        adviceState Aspect.after jp matching
          (adviceState Aspect.afterThrowing jp matching woven.state))

/-- What is called for a method among the given aspects, how it ends and the state it leaves. -/
def reference (what : E → Option String) (badFunctionCall : E) (aspects : List (Aspect V E σ))
    (methodName : String) (target : Option (ProceedFunc V E σ)) (args : List (Option V)) (state : σ) :
    Outcome V E × World V σ :=
  let matching := aspects.filter fun aspect => aspect.matches methodName
  let jp : JoinPoint V := { methodName := methodName, args := args }
  let woven := nestOrNothing badFunctionCall target matching jp
    (adviceState Aspect.before jp matching state)
  (woven.outcome,
    { state := (ending what matching woven).2
      calls := adviceCalls Aspect.before .before jp matching ++ woven.calls ++
        (ending what matching woven).1 })

/-! ### The chain -/

/-- What a part of the chain does to a world, where it does what the reference says. -/
def Woven.after (woven : Woven V E σ) (calls : List (Call V)) : Outcome V E × JoinPoint V × World V σ :=
  (woven.outcome, woven.jp, { state := woven.state, calls := calls ++ woven.calls })

theorem callAll_eq (advice : Aspect V E σ → Option (AdviceFunc V σ))
    (call : String → JoinPoint V → Call V) (jp : JoinPoint V) (matching : List (Aspect V E σ))
    (world : World V σ) :
    callAll advice call jp matching world =
      { state := adviceState advice jp matching world.state
        calls := world.calls ++ adviceCalls advice call jp matching } := by
  unfold callAll
  induction matching generalizing world with
  | nil => simp [adviceState, adviceCalls]
  | cons aspect rest ih =>
      rw [List.foldl_cons, ih]
      cases hadvice : advice aspect with
      | none => simp [adviceState, adviceCalls, hadvice]
      | some func => simp [adviceState, adviceCalls, hadvice, World.note]

theorem runAround_eq {proceed : InnerProceed V E σ} {inner : JoinPoint V → σ → Woven V E σ}
    (hproceed : ∀ jp world, proceed jp world = (inner jp world.state).after world.calls)
    (around : Around V E σ) (world : World V σ) :
    runAround proceed around world = (follow inner around).after world.calls := by
  induction around generalizing world with
  | done outcome jp state => simp [runAround, follow, Woven.after]
  | proceed jp state rest ih =>
      unfold runAround follow
      simp only [hproceed, Woven.after]
      rw [ih]
      simp [Woven.after]

theorem wrapAll_cons (badFunctionCall : E) (aspect : Aspect V E σ) (rest : List (Aspect V E σ))
    (target : Option (ProceedFunc V E σ)) :
    wrapAll badFunctionCall (aspect :: rest) target =
      wrap badFunctionCall (wrapAll badFunctionCall rest target) aspect := by
  simp [wrapAll]

theorem invoke_wrapAll (badFunctionCall : E) (matching : List (Aspect V E σ))
    (target : Option (ProceedFunc V E σ)) (jp : JoinPoint V) (world : World V σ) :
    invoke badFunctionCall (wrapAll badFunctionCall matching target) jp world =
      (nest badFunctionCall target matching jp world.state).after world.calls := by
  induction matching generalizing jp world with
  | nil =>
      cases target with
      | none => simp [wrapAll, invoke, nest, core, Woven.after]
      | some target => simp [wrapAll, invoke, nest, core, Woven.after, callTarget, World.note]
  | cons aspect rest ih =>
      rw [wrapAll_cons]
      unfold wrap nest
      cases haround : aspect.around with
      | none => exact ih jp world
      | some aroundFunc =>
          refine (runAround_eq ih (aroundFunc jp world.state)
            (world.note (.around aspect.name jp))).trans ?_
          simp [Woven.after, World.note]

/-- There is nothing to call only where there is neither a target nor an around advice. -/
theorem wrapAll_eq_none (badFunctionCall : E) (matching : List (Aspect V E σ))
    (target : Option (ProceedFunc V E σ)) :
    wrapAll badFunctionCall matching target = none ↔
      target.isNone ∧ ∀ aspect ∈ matching, aspect.around.isNone := by
  induction matching with
  | nil => simp [wrapAll]
  | cons aspect rest ih =>
      rw [wrapAll_cons]
      unfold wrap
      cases haround : aspect.around with
      | none => simp [ih, haround]
      | some aroundFunc => simp [haround]

theorem callChain_eq (what : E → Option String) (badFunctionCall : E)
    (matching : List (Aspect V E σ)) (target : Option (ProceedFunc V E σ)) {jp : JoinPoint V}
    (hjp : jp.returnValue = none) (world : World V σ) :
    callChain what (wrapAll badFunctionCall matching target) jp world =
      let woven := nestOrNothing badFunctionCall target matching jp world.state
      (woven.outcome, visible what woven.jp woven.outcome,
        { state := woven.state, calls := world.calls ++ woven.calls }) := by
  have hinvoke := invoke_wrapAll badFunctionCall matching target jp world
  have hnone := wrapAll_eq_none badFunctionCall matching target
  cases hchain : wrapAll badFunctionCall matching target with
  | none =>
      rw [nestOrNothing, if_pos (hnone.mp hchain)]
      simp [callChain, visible, ← hjp]
  | some proceed =>
      rw [hchain] at hinvoke hnone
      rw [nestOrNothing, if_neg fun hnothing => Option.some_ne_none _ (hnone.mpr hnothing)]
      simp only [invoke, Woven.after] at hinvoke
      simp only [callChain, hinvoke]
      cases (nest badFunctionCall target matching jp world.state).outcome with
      | ok result => simp [visible]
      | error exception => simp [visible]

theorem weave_eq (what : E → Option String) (badFunctionCall : E) (weaver : AspectWeaver V E σ)
    (methodName : String) (target : Option (ProceedFunc V E σ)) (args : List (Option V)) (state : σ) :
    weaver.weave what badFunctionCall methodName target args { state := state } =
      reference what badFunctionCall weaver.mAspects methodName target args state := by
  unfold weave reference
  simp only [callAll_eq, callChain_eq]
  generalize nestOrNothing badFunctionCall target _ _ _ = woven
  unfold ending
  cases woven.outcome with
  | ok result => simp [Except.isOk, Except.toBool]
  | error exception => simp [Except.isOk, Except.toBool]

/-! ### The order of the aspects -/

/-- The operation takes away an aspect of this name. -/
def Op.removes (name : String) : Op V E σ → Bool
  | .registerAspect aspect => aspect.name == name
  | .unregisterAspect other => other == name
  | .clear => true

/-- The aspects whose names the operations after their registration leave alone, in the order of these
registrations. -/
def registered : List (Op V E σ) → List (Aspect V E σ)
  | [] => []
  | .registerAspect aspect :: ops =>
      if ops.any (Op.removes aspect.name) then registered ops else aspect :: registered ops
  | .unregisterAspect _ :: ops => registered ops
  | .clear :: ops => registered ops

theorem filter_unregisterAspect (weaver : AspectWeaver V E σ) (name : String) (p : String → Bool) :
    (weaver.unregisterAspect name).mAspects.filter (fun aspect => !p aspect.name) =
      weaver.mAspects.filter fun aspect => !(name == aspect.name || p aspect.name) := by
  unfold unregisterAspect
  rw [List.filter_filter]
  apply List.filter_congr
  intro aspect _
  rw [Bool.not_or, Bool.and_comm, bne, Bool.beq_comm]

/-- Any run of changes leaves the aspects it does not touch, and after them those it registered. -/
theorem run_mAspects (weaver : AspectWeaver V E σ) (ops : List (Op V E σ)) :
    (run exec weaver ops).mAspects =
      (weaver.mAspects.filter fun aspect => !ops.any (Op.removes aspect.name)) ++ registered ops := by
  induction ops generalizing weaver with
  | nil => simp [registered]
  | cons op ops ih =>
      rw [run_cons, ih]
      cases op with
      | registerAspect aspect =>
          unfold exec registerAspect
          rw [List.filter_append, List.append_assoc,
            filter_unregisterAspect weaver aspect.name fun name => ops.any (Op.removes name)]
          congr 1
          by_cases hremoved : ops.any (Op.removes aspect.name) = true
          · simp [registered, hremoved]
          · simp [registered, hremoved]
      | unregisterAspect name =>
          exact congrArg (· ++ registered ops)
            (filter_unregisterAspect weaver name fun name => ops.any (Op.removes name))
      | clear => simp [exec, clear, registered, Op.removes]

/-- After any run of changes of the list of aspects, a woven call does what the reference does with the
aspects in the order of their last registration: it makes the same calls, with the same join points, ends
the same way and leaves the same state. -/
theorem weave_order (what : E → Option String) (badFunctionCall : E) (weaver : AspectWeaver V E σ)
    (ops : List (Op V E σ)) (methodName : String) (target : Option (ProceedFunc V E σ))
    (args : List (Option V)) (state : σ) :
    (run exec weaver ops).weave what badFunctionCall methodName target args { state := state } =
      reference what badFunctionCall
        ((weaver.mAspects.filter fun aspect => !ops.any (Op.removes aspect.name)) ++ registered ops)
        methodName target args state := by
  rw [weave_eq, run_mAspects]

/-- Of two around advices the first registered is outermost; where it proceeds twice, so does everything
inside it. -/
example :
    let outer : Aspect Nat String Nat :=
      { name := "retry", pointcut := some ⟨.Prefix, "User"⟩
        around := some fun jp state => .proceed jp state fun _ jp state =>
          .proceed jp state fun outcome jp state => .done outcome jp state }
    let inner : Aspect Nat String Nat :=
      { name := "count", pointcut := some ⟨.Suffix, "login"⟩
        around := some fun jp state => .proceed jp (state + 1) fun outcome jp state =>
          .done outcome jp state }
    let weaver := run exec {} [.registerAspect outer, .registerAspect inner]
    let jp : JoinPoint Nat := { methodName := "User::login", args := [] }
    weaver.weave (fun _ => none) "bad_function_call" "User::login"
        (some fun jp state => (.ok (some state), jp, state)) [] { state := 0 } =
      (.ok (some 2),
        { state := 2
          calls := [.around "retry" jp, .around "count" jp, .target jp, .around "count" jp,
            .target jp] }) := by
  rfl

end AspectWeaver

end SoulCoreKit.Aop
