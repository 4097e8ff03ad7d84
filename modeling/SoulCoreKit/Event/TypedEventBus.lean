import Mathlib.Logic.Function.Basic
import SoulCoreKit.Lib.Run
import SoulCoreKit.Lib.UnorderedMap

/-!
# The typed event bus

`TypedEventBus` with handlers of the `Sync` policy, used by any number of threads. A section under
`m_mutex` is one step, and so is the exchange of `m_valid` before an unsubscription. No lock is held
while a handler runs, so each thread has a stack: a publish, the handler it is calling, what the body of
the handler calls, and so on. A thread is free to call the bus when its stack is empty or when the body
of a handler is on top; in a method of the bus it can only go on.

A wrapper is known by its pointer alone, as `std::find` compares pointers; it is named by the number of
wrappers made before it. The bus outlives its subscriptions, so their weak pointer locks. Recorded beside
the fields of the source: the wrappers made so far, how many there were at the last `clear`, the wrappers
whose unsubscription has taken place, and for each publish what was registered when it took its
snapshot, what was unsubscribed when it was called, and the handlers it has invoked.
-/

namespace SoulCoreKit.Event

/-- A value of a type other than `std::any`, or a `std::any` with its content. -/
inductive Value (Ty Payload : Type) where
  | of (type : Ty) (payload : Payload)
  | emptyAny
  | anyOf (content : Value Ty Payload)
  deriving DecidableEq, Repr

section Values

variable {Ty Payload : Type}

/-- `typeid`, which is `none` for `std::any`. -/
def Value.typeid : Value Ty Payload → Option Ty
  | .of type _ => some type
  | .emptyAny => none
  | .anyOf _ => none

/-- What `std::any anyData = data` holds. Data that is a `std::any` is not wrapped but copied. -/
def Value.toAny : Value Ty Payload → Option (Value Ty Payload)
  | .of type payload => some (.of type payload)
  | .emptyAny => none
  | .anyOf content => some content

/-- `std::any_cast`, with `none` for `bad_any_cast`. -/
def anyCast [DecidableEq Ty] (type : Option Ty) (anyData : Option (Value Ty Payload)) :
    Option (Value Ty Payload) :=
  anyData.filter fun value => value.typeid = type

end Values

abbrev Key (Ty : Type) := Option Ty × String

structure Wrapper (Ty Callable : Type) where
  ptr : Nat
  key : Key Ty
  handler : Callable
  deriving DecidableEq, Repr

structure TypedEventBus (Ty Callable : Type) where
  mHandlers : UnorderedMap (Key Ty) (List (Wrapper Ty Callable)) := ∅
  made : List (Wrapper Ty Callable) := []
  cleared : Nat := 0
  unsubscribed : List Nat := []

namespace TypedEventBus

variable {Ty Callable : Type} [DecidableEq Ty] (bus : TypedEventBus Ty Callable)

def handlersFor (key : Key Ty) : List (Wrapper Ty Callable) := (bus.mHandlers.lookup key).getD []

/-- The handlers subscribed since the last `clear` and not unsubscribed, in the order of their
subscription. -/
def registered : List (Wrapper Ty Callable) :=
  bus.made.filter fun w => bus.cleared ≤ w.ptr ∧ w.ptr ∉ bus.unsubscribed

def subscribe (key : Key Ty) (handler : Callable) : TypedEventBus Ty Callable :=
  let w := ⟨bus.made.length, key, handler⟩
  { bus with
    mHandlers := bus.mHandlers.insert key (bus.handlersFor key ++ [w])
    made := bus.made ++ [w] }

/-- The first handler with the pointer is erased, and the key with its last handler. -/
def eraseHandler (w : Wrapper Ty Callable) : UnorderedMap (Key Ty) (List (Wrapper Ty Callable)) :=
  match bus.mHandlers.lookup w.key with
  | none => bus.mHandlers
  | some handlers =>
      let handlers := handlers.eraseP fun found => found.ptr = w.ptr
      if handlers.isEmpty then bus.mHandlers.erase w.key else bus.mHandlers.insert w.key handlers

def unsubscribeFn (w : Wrapper Ty Callable) : TypedEventBus Ty Callable :=
  { bus with mHandlers := bus.eraseHandler w, unsubscribed := w.ptr :: bus.unsubscribed }

def clear : TypedEventBus Ty Callable := { bus with mHandlers := ∅, cleared := bus.made.length }

end TypedEventBus

/-- A publish that has taken its snapshot, of which `remaining` is still to be visited. -/
structure Publish (Ty Payload Callable : Type) where
  topic : String
  data : Value Ty Payload
  remaining : List (Wrapper Ty Callable)
  invoked : List (Wrapper Ty Callable) := []
  registered : List (Wrapper Ty Callable)
  gone : List Nat

def Publish.key {Ty Payload Callable : Type} (p : Publish Ty Payload Callable) : Key Ty :=
  (p.data.typeid, p.topic)

/-- Where a thread is: called `publish` but took no snapshot yet, in the loop of `publish`, in the body
of a handler, or before the lock of an unsubscription. -/
inductive Frame (Ty Payload Callable : Type) where
  | entered (topic : String) (data : Value Ty Payload) (gone : List Nat)
  | delivering (publish : Publish Ty Payload Callable)
  | handling (w : Wrapper Ty Callable)
  | unsubscribing (w : Wrapper Ty Callable)

inductive Outcome where
  | returned
  | badAnyCast
  | exception (what : String)
  | unknown
  deriving DecidableEq, Repr

/-- What the wrapper logs when it catches: a message and a module. -/
def Outcome.message : Outcome → Option (String × String)
  | .returned => none
  | .badAnyCast => some ("Type mismatch in handler", "EventBus")
  | .exception what => some ("Handler exception: " ++ what, "EventBus")
  | .unknown => some ("Unknown exception", "EventBus")

inductive Label (Ty Payload Callable Thread : Type) where
  | subscribe (thread : Thread) (type : Option Ty) (topic : String) (handler : Callable)
  | unsubscribe (thread : Thread) (subscription : Nat)
  | clear (thread : Thread)
  | publish (thread : Thread) (topic : String) (data : Value Ty Payload)
  | proceed (thread : Thread)
  | handlerEnds (thread : Thread) (outcome : Outcome)

/-- The bus, the flags of its subscriptions, the threads, and the publishes that have returned. -/
structure Threads (Ty Payload Callable Thread : Type) where
  bus : TypedEventBus Ty Callable := {}
  mValid : Nat → Bool := fun _ => true
  frames : Thread → List (Frame Ty Payload Callable) := fun _ => []
  returned : List (Publish Ty Payload Callable) := []
  logged : List (String × String) := []

namespace Threads

variable {Ty Payload Callable Thread : Type} [DecidableEq Ty] [DecidableEq Thread]
  (s : Threads Ty Payload Callable Thread) (thread : Thread)

def setStack (stack : List (Frame Ty Payload Callable)) : Threads Ty Payload Callable Thread :=
  { s with frames := Function.update s.frames thread stack }

def push (frame : Frame Ty Payload Callable) : Threads Ty Payload Callable Thread :=
  s.setStack thread (frame :: s.frames thread)

/-- The thread is in no method of the bus. -/
def isFree : Bool :=
  match s.frames thread with
  | [] => true
  | .handling _ :: _ => true
  | _ => false

def log (message : Option (String × String)) : Threads Ty Payload Callable Thread :=
  { s with logged := s.logged ++ message.toList }

/-- `Subscription::unsubscribe` up to its function. -/
def unsubscribe (subscription : Nat) : Threads Ty Payload Callable Thread :=
  match s.bus.made[subscription]? with
  | none => s
  | some w =>
      if s.mValid subscription then
        { s with mValid := Function.update s.mValid subscription false }.push thread (.unsubscribing w)
      else
        s

/-- `publish` under the lock. -/
def snapshot (rest : List (Frame Ty Payload Callable)) (topic : String) (data : Value Ty Payload)
    (gone : List Nat) : Threads Ty Payload Callable Thread :=
  let remaining := s.bus.handlersFor (data.typeid, topic)
  s.setStack thread
    (.delivering { topic, data, remaining, registered := s.bus.registered, gone } :: rest)

/-- One turn of the loop of `publish`: the wrapper casts the data and calls its handler. -/
def deliver (rest : List (Frame Ty Payload Callable)) (publish : Publish Ty Payload Callable) :
    Threads Ty Payload Callable Thread :=
  match publish.remaining with
  | [] => { s with returned := s.returned ++ [publish] }.setStack thread rest
  | w :: remaining =>
      match anyCast w.key.1 publish.data.toAny with
      | none =>
          (s.log Outcome.badAnyCast.message).setStack thread (.delivering { publish with remaining } :: rest)
      | some _ =>
          s.setStack thread (.handling w ::
            .delivering { publish with remaining, invoked := publish.invoked ++ [w] } :: rest)

/-- The next step of the method of the bus the thread is in. -/
def proceed : Threads Ty Payload Callable Thread :=
  match s.frames thread with
  | .entered topic data gone :: rest => s.snapshot thread rest topic data gone
  | .delivering publish :: rest => s.deliver thread rest publish
  | .unsubscribing w :: rest => { s with bus := s.bus.unsubscribeFn w }.setStack thread rest
  | _ => s

/-- The body of a handler returns, or throws and the wrapper catches. -/
def handlerEnds (outcome : Outcome) : Threads Ty Payload Callable Thread :=
  match s.frames thread with
  | .handling _ :: rest => (s.log outcome.message).setStack thread rest
  | _ => s

/-- A step that is not next for its thread changes nothing. -/
def step (s : Threads Ty Payload Callable Thread) :
    Label Ty Payload Callable Thread → Threads Ty Payload Callable Thread
  | .subscribe thread type topic handler =>
      if s.isFree thread then { s with bus := s.bus.subscribe (type, topic) handler } else s
  | .unsubscribe thread subscription => if s.isFree thread then s.unsubscribe thread subscription else s
  | .clear thread => if s.isFree thread then { s with bus := s.bus.clear } else s
  | .publish thread topic data =>
      if s.isFree thread then s.push thread (.entered topic data s.bus.unsubscribed) else s
  | .proceed thread => s.proceed thread
  | .handlerEnds thread outcome => s.handlerEnds thread outcome

end Threads

end SoulCoreKit.Event
