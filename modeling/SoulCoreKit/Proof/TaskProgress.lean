import Mathlib.Logic.Relation
import SoulCoreKit.Async.Coroutine

/-!
# The progress of tasks

`initial_suspend` suspends every task, and the header resumes a coroutine only where another one ends. So
nothing ever resumes the root, and its `get` waits forever. That is the only thing missing: with a first
resume of each coroutine from outside, the machine computes the direct meaning of every body.
-/

namespace SoulCoreKit.Async.Coroutine

open Relation

variable {V E σ : Type} [Inhabited V]

namespace Machine

/-- Some run ends with `get` giving what the body evaluates to. -/
def Computes (body : Body V E σ) (world : σ) : Prop :=
  ∃ machine, ReflTransGen Step (start body world) machine ∧
    machine.returned = some (body.eval world).1

/-- The root is not ready and no coroutine runs or can be woken. -/
def Stuck (machine : Machine V E σ) : Prop :=
  (∃ root, machine.frames[0]? = some root ∧ root.promise.mReady = false) ∧
    ∀ machine', ¬Step machine machine'

theorem start_stuck (body : Body V E σ) (world : σ) : Stuck (start body world) := by
  refine ⟨⟨_, rfl, rfl⟩, ?_⟩
  rintro machine' (hadvance | hget)
  · exact absurd hadvance (by simp [start, create, advance])
  · exact absurd hget (by simp [start, create, get])

theorem reaches_start {body : Body V E σ} {world : σ} {machine : Machine V E σ}
    (hreaches : ReflTransGen Step (start body world) machine) : machine = start body world := by
  cases hreaches.cases_head with
  | inl heq => exact heq.symm
  | inr hstep =>
      obtain ⟨next, hstep, -⟩ := hstep
      exact absurd hstep ((start_stuck body world).2 next)

/-- For no tree of coroutines does creating the root and calling `get` end at all: every state that can
be reached has the root suspended and not ready, and no step. -/
theorem get_waits_forever (body : Body V E σ) (world : σ) :
    ¬Computes body world ∧
      ∀ machine, ReflTransGen Step (start body world) machine →
        Stuck machine ∧ machine.returned = none := by
  constructor
  · rintro ⟨machine, hreaches, hreturned⟩
    rw [reaches_start hreaches] at hreturned
    exact absurd hreturned (by simp [start, create])
  · intro machine hreaches
    rw [reaches_start hreaches]
    exact ⟨start_stuck body world, rfl⟩

/-- The task of the first test, which returns 42. -/
theorem not_computes_return :
    (Body.eval (.coReturn 42 : Body Int String Unit) ()).1 = .ok 42 ∧
      ¬Computes (.coReturn 42 : Body Int String Unit) () := by
  refine ⟨rfl, ?_⟩
  rintro ⟨machine, hreaches, hreturned⟩
  rw [reaches_start hreaches] at hreturned
  exact absurd hreturned (by simp [start, create])

/-! ### Tasks that are started -/

/-- A step of the header, or the first resume of a coroutine, which the header never makes. -/
inductive StartedStep : Machine V E σ → Machine V E σ → Prop where
  | step {machine machine' : Machine V E σ} (hstep : Step machine machine') :
      StartedStep machine machine'
  | begin {machine machine' : Machine V E σ} {handle : Nat} {promise : Promise V E}
      {body : Body V E σ} (hidle : machine.running = none)
      (hstart : machine.frames[handle]? = some { promise := promise, point := .start body })
      (hresume : machine.resume handle = some machine') : StartedStep machine machine'

/-- The body that ends at once with an outcome. -/
def ending : Except E V → Body V E σ
  | .ok value => .coReturn value
  | .error exception => .throw exception

/-- The frames of the first list are still as they were. -/
def Extends (frames frames' : List (Frame V E σ)) : Prop :=
  frames.length ≤ frames'.length ∧ ∀ i, i < frames.length → frames'[i]? = frames[i]?

omit [Inhabited V] in
theorem Extends.trans {frames frames' frames'' : List (Frame V E σ)} (hfirst : Extends frames frames')
    (hsecond : Extends frames' frames'') : Extends frames frames'' := by
  refine ⟨Nat.le_trans hfirst.1 hsecond.1, ?_⟩
  intro i hi
  rw [hsecond.2 i (Nat.lt_of_lt_of_le hi hfirst.1), hfirst.2 i hi]

omit [Inhabited V] in
/-- The frames of a coroutine and everything before it, after a child of it has run and resumed it. -/
theorem Extends.resumed {frames childFrames : List (Frame V E σ)} {handle : Nat}
    {frame suspended started : Frame V E σ} (hframe : frames[handle]? = some frame)
    (hextends : Extends (frames.set handle suspended ++ [started]) childFrames)
    (ended : Frame V E σ) :
    Extends frames ((childFrames.set frames.length ended).set handle frame) := by
  obtain ⟨hlength, hsame⟩ := hextends
  rw [List.length_append, List.length_set] at hlength hsame
  have hlt : handle < frames.length := (List.getElem?_eq_some_iff.mp hframe).1
  constructor
  · rw [List.length_set, List.length_set]
    exact Nat.le_of_succ_le hlength
  · intro i hi
    by_cases hi' : handle = i
    · subst hi'
      rw [hframe, List.getElem?_set_self]
      rw [List.length_set]
      exact Nat.lt_of_lt_of_le hi (Nat.le_of_succ_le hlength)
    · rw [List.getElem?_set_ne hi', List.getElem?_set_ne (Nat.ne_of_gt hi),
        hsame i (Nat.lt_succ_of_lt hi), List.getElem?_append_left (by simpa),
        List.getElem?_set_ne hi']

/-- What a coroutine does that awaits a new child: the child is suspended at its start, with the
continuation set, and the coroutine at the `co_await`. -/
def awaitingFrames (frames : List (Frame V E σ)) (handle : Nat) (frame : Frame V E σ)
    (child : Body V E σ) (rest : Except E V → Body V E σ) : List (Frame V E σ) :=
  (frames.set handle { frame with point := .awaiting frames.length rest }) ++
    [{ promise := { mValue := default, mContinuation := some handle }, point := .start child }]

theorem advance_coAwait {frames : List (Frame V E σ)} {handle : Nat} {frame : Frame V E σ}
    (hframe : frames[handle]? = some frame) (child : Body V E σ) (rest : Except E V → Body V E σ)
    (world : σ) (returned : Option (Except E V)) :
    advance { frames := frames, running := some (handle, .coAwait child rest), world := world,
              returned := returned } =
      some { frames := awaitingFrames frames handle frame child rest, world := world,
             returned := returned } := by
  have hlt : handle < frames.length := (List.getElem?_eq_some_iff.mp hframe).1
  simp [advance, create, await, awaitingFrames, List.getElem?_append_left hlt, hframe,
    List.set_append_left _ _ hlt]

theorem resume_child (frames : List (Frame V E σ)) (handle : Nat) (frame : Frame V E σ)
    (child : Body V E σ) (rest : Except E V → Body V E σ) (world : σ)
    (returned : Option (Except E V)) :
    resume { frames := awaitingFrames frames handle frame child rest, world := world,
             returned := returned } frames.length =
      some {
        frames := (frames.set handle { frame with point := .awaiting frames.length rest }) ++
          [{ promise := { mValue := default, mContinuation := some handle }, point := .running }]
        running := some (frames.length, child), world := world, returned := returned } := by
  simp [resume, awaitingFrames]

/-- The end of the child, which resumes the coroutine that awaits it. -/
theorem advance_ending {frames : List (Frame V E σ)} {child handle : Nat} {childFrame frame : Frame V E σ}
    {rest : Except E V → Body V E σ} (hne : handle ≠ child)
    (hchild : frames[child]? = some childFrame)
    (hfresh : childFrame.promise.mException = none)
    (hcontinuation : childFrame.promise.mContinuation = some handle)
    (hhandle : frames[handle]? = some { frame with point := .awaiting child rest })
    (outcome : Except E V) (world : σ) (returned : Option (Except E V)) :
    ∃ ended,
      advance { frames := frames, running := some (child, ending outcome), world := world,
                returned := returned } =
      some { frames := (frames.set child ended).set handle { frame with point := .running },
             running := some (handle, rest outcome), world := world, returned := returned } := by
  have hlt : child < frames.length := (List.getElem?_eq_some_iff.mp hchild).1
  cases outcome with
  | ok value =>
      refine ⟨{ promise := childFrame.promise.returnValue value, point := .finished }, ?_⟩
      simp [advance, ending, finalSuspend, hchild, hcontinuation, resume, hhandle,
        List.getElem?_set_ne hne.symm, List.getElem?_set_self hlt, Promise.result,
        Promise.returnValue, hfresh]
  | error exception =>
      refine ⟨{ promise := childFrame.promise.unhandledException exception, point := .finished }, ?_⟩
      simp [advance, ending, finalSuspend, hchild, hcontinuation, resume, hhandle,
        List.getElem?_set_ne hne.symm, List.getElem?_set_self hlt, Promise.result,
        Promise.unhandledException]

/-- A running coroutine comes to the end that its body evaluates to, and leaves the frames that were there
as they were. The induction is on the body; a child runs between the suspension of its parent and the end
that resumes it. -/
theorem reaches_ending (body : Body V E σ) {frames : List (Frame V E σ)} {handle : Nat}
    {frame : Frame V E σ} (hframe : frames[handle]? = some frame) (hrunning : frame.point = .running)
    (world : σ) (returned : Option (Except E V)) :
    ∃ frames', Extends frames frames' ∧
      ReflTransGen StartedStep
        { frames := frames, running := some (handle, body), world := world, returned := returned }
        { frames := frames', running := some (handle, ending (body.eval world).1),
          world := (body.eval world).2, returned := returned } := by
  induction body generalizing frames handle frame world with
  | coReturn value => exact ⟨frames, ⟨Nat.le_refl _, fun _ _ => rfl⟩, .refl⟩
  | throw exception => exact ⟨frames, ⟨Nat.le_refl _, fun _ _ => rfl⟩, .refl⟩
  | step act rest ih =>
      obtain ⟨frames', hextends, hreaches⟩ := ih (act world) hframe hrunning (act world)
      refine ⟨frames', hextends, ReflTransGen.head ?_ hreaches⟩
      exact .step (.advance rfl)
  | coAwait child rest ihChild ihRest =>
      have hlt : handle < frames.length := (List.getElem?_eq_some_iff.mp hframe).1
      have hsuspend := advance_coAwait hframe child rest world returned
      have hbegin := resume_child frames handle frame child rest world returned
      -- the child runs
      have hbegun : ((frames.set handle { frame with point := .awaiting frames.length rest }) ++
          [({ promise := { mValue := default, mContinuation := some handle }, point := .running } :
            Frame V E σ)])[frames.length]? =
          some { promise := { mValue := default, mContinuation := some handle }, point := .running } := by
        simp
      obtain ⟨childFrames, hchildExtends, hchildReaches⟩ := ihChild hbegun rfl world
      have hchildFrame := hchildExtends.2 frames.length (by simp)
      have hparentFrame := hchildExtends.2 handle (by simp; omega)
      rw [List.getElem?_append_right (by simp)] at hchildFrame
      rw [List.getElem?_append_left (by simpa), List.getElem?_set_self hlt] at hparentFrame
      -- its end resumes the parent
      obtain ⟨ended, hended⟩ := advance_ending (Nat.ne_of_lt hlt)
        (by simpa using hchildFrame) rfl rfl hparentFrame (child.eval world).1 (child.eval world).2
        returned
      rw [show ({ frame with point := .running } : Frame V E σ) = frame by rw [← hrunning]] at hended
      have hsame := Extends.resumed hframe hchildExtends ended
      obtain ⟨frames', hextends, hreaches⟩ := ihRest (child.eval world).1
        ((hsame.2 handle hlt).trans hframe) hrunning (child.eval world).2
      refine ⟨frames', hsame.trans hextends, ?_⟩
      have hsuspended : (awaitingFrames frames handle frame child rest)[frames.length]? =
          some { promise := { mValue := default, mContinuation := some handle },
                 point := .start child } := by
        simp [awaitingFrames]
      refine ReflTransGen.head (.step (.advance hsuspend)) ?_
      refine ReflTransGen.head (.begin rfl hsuspended hbegin) ?_
      refine hchildReaches.trans ?_
      exact ReflTransGen.head (.step (.advance hended)) hreaches

/-- A coroutine that nobody awaits ends with its outcome in the promise. -/
theorem advance_ending_root {frames : List (Frame V E σ)}
    (hroot : frames[0]? = some { promise := { mValue := default }, point := .running })
    (outcome : Except E V) (world : σ) (returned : Option (Except E V)) :
    ∃ root, root.promise.mReady = true ∧ root.promise.result = outcome ∧
      advance { frames := frames, running := some (0, ending outcome), world := world,
                returned := returned } =
        some { frames := frames.set 0 root, world := world, returned := returned } := by
  cases outcome with
  | ok value =>
      refine ⟨{ promise := { mValue := value, mReady := true }, point := .finished }, rfl, rfl, ?_⟩
      simp [advance, ending, finalSuspend, hroot, Promise.returnValue]
  | error exception =>
      refine ⟨{ promise := { mValue := default, mException := some exception, mReady := true },
                point := .finished }, rfl, rfl, ?_⟩
      simp [advance, ending, finalSuspend, hroot, Promise.unhandledException]

/-- With the first resumes from outside, the root comes to its end and `get` gives what the body
evaluates to, with the world as the evaluation leaves it. -/
theorem started_computes (body : Body V E σ) (world : σ) :
    ∃ machine, ReflTransGen StartedStep (start body world) machine ∧
      machine.returned = some (body.eval world).1 ∧ machine.world = (body.eval world).2 := by
  let begun : List (Frame V E σ) := [{ promise := { mValue := default }, point := .running }]
  have hbegun : begun[0]? = some { promise := { mValue := default }, point := .running } := rfl
  obtain ⟨frames, hextends, hreaches⟩ := reaches_ending body hbegun rfl world none
  have hroot := (hextends.2 0 Nat.one_pos).trans hbegun
  obtain ⟨root, hready, hresult, hend⟩ :=
    advance_ending_root hroot (body.eval world).1 (body.eval world).2 none
  have hlt : 0 < frames.length := (List.getElem?_eq_some_iff.mp hroot).1
  refine ⟨{ frames := frames.set 0 root, world := (body.eval world).2,
            returned := some (body.eval world).1 }, ?_, rfl, rfl⟩
  have hbegin : (start body world).resume 0 =
      some { frames := begun, running := some (0, body), world := world } := rfl
  refine ReflTransGen.head (.begin rfl rfl hbegin) (hreaches.trans ?_)
  refine ReflTransGen.head (.step (.advance hend)) (ReflTransGen.single (.step (.get ?_)))
  simp [get, List.getElem?_set_self hlt, hready, hresult]

end Machine

end SoulCoreKit.Async.Coroutine
