import Mathlib.Data.List.Infix

/-!
# The aspect weaver

`sc::aop::AspectWeaver`. What an advice does besides looking at the join point is a change of a state of
any type, in which the weaver itself may be part: `weave` takes its aspects out under the lock before the
first advice runs. An around advice is a tree: it ends with a value or an exception, or calls `proceed`
and goes on with whatever comes back, so it may do so any number of times. The calls that `weave` makes
are noted in the order in which they begin, with the join point they are given.
-/

namespace SoulCoreKit.Aop

/-- A call that is woven; an absent value is an empty `std::any`. -/
structure JoinPoint (V : Type) where
  methodName : String
  args : List (Option V)
  returnValue : Option V := none
  hasException : Bool := false
  exceptionMessage : String := ""
  deriving DecidableEq, Repr

/-- How a call ends: with an exception or with a value. -/
abbrev Outcome (V E : Type) := Except E (Option V)

/-- A target, with the join point and the state that it leaves. -/
abbrev ProceedFunc (V E σ : Type) := JoinPoint V → σ → Outcome V E × JoinPoint V × σ

/-- The other advices cannot change the join point. -/
abbrev AdviceFunc (V σ : Type) := JoinPoint V → σ → σ

/-- The rest of an around advice, each node with the join point and the state so far. -/
inductive Around (V E σ : Type) where
  | done (outcome : Outcome V E) (jp : JoinPoint V) (state : σ)
  | proceed (jp : JoinPoint V) (state : σ)
      (rest : Outcome V E → JoinPoint V → σ → Around V E σ)

abbrev AroundFunc (V E σ : Type) := JoinPoint V → σ → Around V E σ

inductive MatchMode where
  | Prefix
  | Suffix
  | Contains
  | Exact
  deriving DecidableEq, Repr

structure Pointcut where
  mode : MatchMode
  pattern : String
  deriving DecidableEq, Repr

def Pointcut.matches (pointcut : Pointcut) (methodName : String) : Bool :=
  match pointcut.mode with
  | .Prefix => pointcut.pattern.toList.isPrefixOf methodName.toList
  | .Suffix => pointcut.pattern.toList.isSuffixOf methodName.toList
  | .Contains => decide (pointcut.pattern.toList <:+: methodName.toList)
  | .Exact => methodName == pointcut.pattern

structure Aspect (V E σ : Type) where
  name : String
  pointcut : Option Pointcut := none
  before : Option (AdviceFunc V σ) := none
  after : Option (AdviceFunc V σ) := none
  afterReturning : Option (AdviceFunc V σ) := none
  afterThrowing : Option (AdviceFunc V σ) := none
  around : Option (AroundFunc V E σ) := none

/-- A call that `weave` makes, with the name of the aspect and the join point. -/
inductive Call (V : Type) where
  | before (aspect : String) (jp : JoinPoint V)
  | around (aspect : String) (jp : JoinPoint V)
  | target (jp : JoinPoint V)
  | afterReturning (aspect : String) (jp : JoinPoint V)
  | afterThrowing (aspect : String) (jp : JoinPoint V)
  | after (aspect : String) (jp : JoinPoint V)
  deriving DecidableEq, Repr

/-- The state outside the weaver, and the calls so far. -/
structure World (V σ : Type) where
  state : σ
  calls : List (Call V) := []

variable {V E σ : Type}

def Aspect.matches (aspect : Aspect V E σ) (methodName : String) : Bool :=
  match aspect.pointcut with
  | none => false
  | some pointcut => pointcut.matches methodName

def World.note (world : World V σ) (call : Call V) : World V σ :=
  { world with calls := world.calls ++ [call] }

/-- What the chain is made of: the target or an around advice with everything inside it. -/
abbrev InnerProceed (V E σ : Type) := JoinPoint V → World V σ → Outcome V E × JoinPoint V × World V σ

def callTarget (target : ProceedFunc V E σ) : InnerProceed V E σ := fun jp world =>
  let (outcome, jp', state) := target jp world.state
  (outcome, jp', { world.note (.target jp) with state := state })

/-- The body of an around advice, with `proceed` for the inner part. -/
def runAround (proceed : InnerProceed V E σ) :
    Around V E σ → World V σ → Outcome V E × JoinPoint V × World V σ
  | .done outcome jp state, world => (outcome, jp, { world with state := state })
  | .proceed jp state rest, world =>
      let (outcome, jp, world) := proceed jp { world with state := state }
      runAround proceed (rest outcome jp world.state) world

/-- A `std::function`, which throws where it is null. -/
def invoke (badFunctionCall : E) : Option (InnerProceed V E σ) → InnerProceed V E σ
  | none => fun jp world => (.error badFunctionCall, jp, world)
  | some proceed => proceed

structure AspectWeaver (V E σ : Type) where
  mAspects : List (Aspect V E σ) := []

namespace AspectWeaver

def unregisterAspect (weaver : AspectWeaver V E σ) (name : String) : AspectWeaver V E σ :=
  { mAspects := weaver.mAspects.filter fun aspect => aspect.name != name }

def registerAspect (weaver : AspectWeaver V E σ) (aspect : Aspect V E σ) : AspectWeaver V E σ :=
  { mAspects := (weaver.unregisterAspect aspect.name).mAspects ++ [aspect] }

def clear (_ : AspectWeaver V E σ) : AspectWeaver V E σ := {}

/-- The turn of the loop that puts an around advice about the chain so far. -/
def wrap (badFunctionCall : E) (innerProceed : Option (InnerProceed V E σ)) (aspect : Aspect V E σ) :
    Option (InnerProceed V E σ) :=
  match aspect.around with
  | none => innerProceed
  | some aroundFunc => some fun jp world =>
      runAround (invoke badFunctionCall innerProceed) (aroundFunc jp world.state)
        (world.note (.around aspect.name jp))

/-- The chain, built from the last matching aspect to the first. -/
def wrapAll (badFunctionCall : E) (matchedAspects : List (Aspect V E σ))
    (target : Option (ProceedFunc V E σ)) : Option (InnerProceed V E σ) :=
  matchedAspects.reverse.foldl (wrap badFunctionCall) (target.map callTarget)

/-- One of the four loops over the matching aspects, for one kind of advice. -/
def callAll (advice : Aspect V E σ → Option (AdviceFunc V σ)) (call : String → JoinPoint V → Call V)
    (jp : JoinPoint V) (matchedAspects : List (Aspect V E σ)) (world : World V σ) : World V σ :=
  matchedAspects.foldl (fun world aspect =>
    match advice aspect with
    | none => world
    | some func => { world.note (call aspect.name jp) with state := func jp world.state }) world

/-- The `try` block with its handler; `what` is the message of a `std::exception`. -/
def callChain (what : E → Option String) (innerProceed : Option (InnerProceed V E σ))
    (jp : JoinPoint V) (world : World V σ) : Outcome V E × JoinPoint V × World V σ :=
  match innerProceed with
  | none => (.ok none, jp, world)
  | some proceed =>
      match proceed jp world with
      | (.ok result, jp, world) => (.ok result, { jp with returnValue := result }, world)
      | (.error exception, jp, world) =>
          (.error exception,
            { jp with
              hasException := true
              exceptionMessage := (what exception).getD "unknown exception" }, world)

def weave (what : E → Option String) (badFunctionCall : E) (weaver : AspectWeaver V E σ)
    (methodName : String) (target : Option (ProceedFunc V E σ)) (args : List (Option V))
    (world : World V σ) : Outcome V E × World V σ :=
  let matchedAspects := weaver.mAspects.filter fun aspect => aspect.matches methodName
  let jp : JoinPoint V := { methodName := methodName, args := args }
  let world := callAll Aspect.before .before jp matchedAspects world
  let (outcome, jp, world) :=
    callChain what (wrapAll badFunctionCall matchedAspects target) jp world
  let world :=
    if outcome.isOk then callAll Aspect.afterReturning .afterReturning jp matchedAspects world
    else callAll Aspect.afterThrowing .afterThrowing jp matchedAspects world
  let world := callAll Aspect.after .after jp matchedAspects world
  (outcome, world)

/-- A change of the list of aspects. -/
inductive Op (V E σ : Type) where
  | registerAspect (aspect : Aspect V E σ)
  | unregisterAspect (name : String)
  | clear

def exec (weaver : AspectWeaver V E σ) : Op V E σ → AspectWeaver V E σ
  | .registerAspect aspect => weaver.registerAspect aspect
  | .unregisterAspect name => weaver.unregisterAspect name
  | .clear => weaver.clear

end AspectWeaver

end SoulCoreKit.Aop
