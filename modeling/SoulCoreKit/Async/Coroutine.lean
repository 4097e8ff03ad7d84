import Mathlib.Data.List.Basic

/-!
# Task coroutines

`sc::Task<T>` as a machine of coroutine frames, with the values of one type; `Task<void>` is the machine
with values that say nothing. A frame is the promise and the point at which the coroutine is suspended. The
steps are those of the header and no others: the coroutine that runs goes on, or the thread in `get` finds
its task ready. Who resumes whom is the source's: the awaiter of a child stores the continuation, the
awaiter of `final_suspend` resumes it. A coroutine that resumes another has nothing left to do, so at most
one body runs.
-/

namespace SoulCoreKit.Async.Coroutine

/-- The rest of a coroutine: local steps and awaited children, whose exceptions may be caught, before a
`co_return` or an uncaught exception. The local steps work on a state of any type. -/
inductive Body (V E σ : Type) where
  | coReturn (value : V)
  | throw (exception : E)
  | step (act : σ → σ) (rest : σ → Body V E σ)
  | coAwait (child : Body V E σ) (rest : Except E V → Body V E σ)

/-- The meaning of a body whose children are called like functions. -/
def Body.eval {V E σ : Type} : Body V E σ → σ → Except E V × σ
  | .coReturn value, world => (.ok value, world)
  | .throw exception, world => (.error exception, world)
  | .step act rest, world => (rest (act world)).eval (act world)
  | .coAwait child rest, world => (rest (child.eval world).1).eval (child.eval world).2

structure Promise (V E : Type) where
  mValue : V
  mException : Option E := none
  mContinuation : Option Nat := none
  mReady : Bool := false

/-- Where a coroutine is: suspended by `initial_suspend`, suspended in a `co_await`, running, or suspended
by `final_suspend`. -/
inductive Point (V E σ : Type) where
  | start (body : Body V E σ)
  | awaiting (child : Nat) (rest : Except E V → Body V E σ)
  | running
  | finished

structure Frame (V E σ : Type) where
  promise : Promise V E
  point : Point V E σ

/-- The frames under their handles, the body that runs, and what `get` has returned or thrown. -/
structure Machine (V E σ : Type) where
  frames : List (Frame V E σ)
  running : Option (Nat × Body V E σ) := none
  world : σ
  returned : Option (Except E V) := none

variable {V E σ : Type}

/-- What `await_resume` and `get` read. -/
def Promise.result (promise : Promise V E) : Except E V :=
  match promise.mException with
  | some exception => .error exception
  | none => .ok promise.mValue

def Promise.returnValue (promise : Promise V E) (value : V) : Promise V E :=
  { promise with mValue := value, mReady := true }

def Promise.unhandledException (promise : Promise V E) (exception : E) : Promise V E :=
  { promise with mException := some exception, mReady := true }

namespace Machine

/-- `coroutine_handle::resume`, which needs a suspended coroutine. -/
def resume (machine : Machine V E σ) (handle : Nat) : Option (Machine V E σ) := do
  let frame ← machine.frames[handle]?
  let body ←
    match frame.point with
    | .start body => some body
    | .awaiting child rest => (machine.frames[child]?).map fun child => rest child.promise.result
    | .running => none
    | .finished => none
  some { machine with
    frames := machine.frames.set handle { frame with point := .running }
    running := some (handle, body) }

/-- The call of a coroutine: `initial_suspend` suspends it, and the task holds its handle. -/
def create [Inhabited V] (machine : Machine V E σ) (body : Body V E σ) : Nat × Machine V E σ :=
  (machine.frames.length,
    { machine with
      frames := machine.frames ++ [{ promise := { mValue := default }, point := .start body }] })

/-- `co_await` of a task by a running coroutine. -/
def await (machine : Machine V E σ) (handle child : Nat) (rest : Except E V → Body V E σ) :
    Option (Machine V E σ) := do
  let frame ← machine.frames[handle]?
  let childFrame ← machine.frames[child]?
  if childFrame.promise.mReady then
    some { machine with running := some (handle, rest childFrame.promise.result) }
  else
    let promise := { childFrame.promise with mContinuation := some handle }
    some { machine with
      frames := (machine.frames.set child { childFrame with promise := promise }).set handle
        { frame with point := .awaiting child rest }
      running := none }

/-- `final_suspend`, once the promise has its value or exception. -/
def finalSuspend (machine : Machine V E σ) (handle : Nat) (finish : Promise V E → Promise V E) :
    Option (Machine V E σ) := do
  let frame ← machine.frames[handle]?
  let machine := { machine with
    frames := machine.frames.set handle { promise := finish frame.promise, point := .finished }
    running := none }
  match frame.promise.mContinuation with
  | none => some machine
  | some continuation => machine.resume continuation

/-- The running coroutine goes on to its next suspension or step. -/
def advance [Inhabited V] (machine : Machine V E σ) : Option (Machine V E σ) :=
  match machine.running with
  | none => none
  | some (handle, .coReturn value) => machine.finalSuspend handle (·.returnValue value)
  | some (handle, .throw exception) => machine.finalSuspend handle (·.unhandledException exception)
  | some (handle, .step act rest) =>
      some { machine with
        world := act machine.world
        running := some (handle, rest (act machine.world)) }
  | some (handle, .coAwait child rest) =>
      let (childHandle, machine) := machine.create child
      machine.await handle childHandle rest

/-- The thread in `get` of the root, handle 0, once the condition it waits for holds. -/
def get (machine : Machine V E σ) : Option (Machine V E σ) :=
  match machine.returned, machine.frames[0]? with
  | none, some root =>
      if root.promise.mReady then some { machine with returned := some root.promise.result } else none
  | _, _ => none

/-- The steps of the header. -/
inductive Step [Inhabited V] : Machine V E σ → Machine V E σ → Prop where
  | advance {machine machine' : Machine V E σ} (hadvance : machine.advance = some machine') :
      Step machine machine'
  | get {machine machine' : Machine V E σ} (hget : machine.get = some machine') :
      Step machine machine'

/-- The root is created and its `get` called. -/
def start [Inhabited V] (body : Body V E σ) (world : σ) : Machine V E σ :=
  (create { frames := [], world := world } body).2

end Machine

end SoulCoreKit.Async.Coroutine
