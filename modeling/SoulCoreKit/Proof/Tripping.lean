import Mathlib.Data.List.DropRight
import SoulCoreKit.Proof.Recovery

/-!
# Tripping of the circuit breaker

The breaker keeps the times of failures and drops the old ones when it records a new one. What its
decision means is said over the whole run: the failures since the count last started anew, at times
within the window. The count starts anew with a success in the closed state, with an entry to the closed
state, and with every `reset`, also one of a closed breaker.
-/

namespace SoulCoreKit.Network

/-! ### The history -/

/-- A call, its time, and the states before and after it. -/
structure Note where
  op : BreakerOp
  time : Int
  before : CircuitBreakerState
  after : CircuitBreakerState
  deriving DecidableEq, Repr

namespace Note

def isFailure (note : Note) : Bool :=
  match note.op with
  | .onFailure _ => true
  | _ => false

def isSuccess (note : Note) : Bool :=
  match note.op with
  | .onSuccess _ => true
  | _ => false

def succeedsClosed (note : Note) : Bool := note.isSuccess && note.before = .closed

def entersClosed (note : Note) : Bool := note.before ≠ .closed && note.after = .closed

/-- A success in the closed state, or an entry to it. -/
def restarts (note : Note) : Bool := note.succeedsClosed || note.entersClosed

/-- The count of failures starts anew. -/
def clears (note : Note) : Bool := note.restarts || note.op = .reset

theorem clears_eq_false {note : Note} (hsuccess : note.isSuccess = false) (hreset : note.op ≠ .reset)
    (hclosed : note.after = .closed → note.before = .closed) : note.clears = false := by
  have henters : note.entersClosed = false := by
    by_cases hbefore : note.before = .closed
    · simp [entersClosed, hbefore]
    · simp [entersClosed, mt hclosed hbefore]
  simp [clears, restarts, succeedsClosed, hsuccess, henters, hreset]

end Note

namespace Ledger

def note (m : Ledger) (op : BreakerOp) : Note :=
  ⟨op, m.now, m.breaker.mState, (m.step op).breaker.mState⟩

def notes : Ledger → List BreakerOp → List Note
  | _, [] => []
  | m, op :: ops => m.note op :: (m.step op).notes ops

theorem notes_concat (m : Ledger) (ops : List BreakerOp) (op : BreakerOp) :
    m.notes (ops ++ [op]) = m.notes ops ++ [(run step m ops).note op] := by
  induction ops generalizing m with
  | nil => rfl
  | cons first rest ih => simp [notes, ih]

end Ledger

/-- The times of the failures since the last call that starts the count anew. -/
def failureTimes (anew : Note → Bool) (notes : List Note) : List Int :=
  ((notes.rtakeWhile fun note => !anew note).filter Note.isFailure).map Note.time

section FailureTimes

variable {anew : Note → Bool} {notes : List Note} {note : Note}

theorem failureTimes_of_anew (hanew : anew note = true) :
    failureTimes anew (notes ++ [note]) = [] := by
  simp [failureTimes, hanew]

theorem failureTimes_of_failure (hanew : anew note = false) (hfailure : note.isFailure = true) :
    failureTimes anew (notes ++ [note]) = failureTimes anew notes ++ [note.time] := by
  simp [failureTimes, hanew, hfailure]

theorem failureTimes_of_other (hanew : anew note = false) (hfailure : note.isFailure = false) :
    failureTimes anew (notes ++ [note]) = failureTimes anew notes := by
  simp [failureTimes, hanew, hfailure]

end FailureTimes

/-- The time lies within the window that ends now. -/
def inWindow (config : CircuitBreakerConfig) (now time : Int) : Bool :=
  now - config.windowDurationMs * 1000000 < time ∧ time ≤ now

/-- A failure reported next, in the closed state, trips the breaker exactly if enough failures of the
count lie within the window, this one included. -/
def TripsBy (anew : Note → Bool) (config : CircuitBreakerConfig) (now : Int) (ops : List BreakerOp)
    (call : Nat) : Prop :=
  let m := run Ledger.step (Ledger.start config now) ops
  let times := failureTimes anew ((Ledger.start config now).notes ops) ++ [m.now]
  m.breaker.mState = .closed →
    ((m.step (.onFailure call)).breaker.mState = .opened ↔
      config.failureThreshold ≤ (times.countP (inWindow config m.now) : Int))

instance (anew : Note → Bool) (config : CircuitBreakerConfig) (now : Int) (ops : List BreakerOp)
    (call : Nat) : Decidable (TripsBy anew config now ops call) :=
  inferInstanceAs (Decidable (_ → (_ ↔ _)))

/-! ### The window -/

/-- Where a test holds of a beginning of the list only, dropping that beginning is filtering. -/
theorem dropWhile_eq_filter {α : Type} {p : α → Bool} {l : List α}
    (hdown : l.Pairwise fun first second => p second = true → p first = true) :
    l.dropWhile p = l.filter fun entry => !p entry := by
  induction l with
  | nil => rfl
  | cons first rest ih =>
      obtain ⟨hfirst, hrest⟩ := List.pairwise_cons.mp hdown
      by_cases hp : p first = true
      · simpa [hp] using ih hrest
      · have hkeep : (first :: rest).filter (fun entry => !p entry) = first :: rest := by
          rw [List.filter_eq_self]
          intro entry hentry
          rcases List.mem_cons.mp hentry with rfl | hentry
          · simpa using hp
          · simpa using fun hdrop => hp (hfirst entry hentry hdrop)
        rw [List.dropWhile_cons_of_neg hp, hkeep]

/-- What the source drops lies before the window. -/
theorem le_elapsedMs_iff {now time window : Int} (hpast : time ≤ now) :
    window ≤ elapsedMs now time ↔ time ≤ now - window * 1000000 := by
  have hnonneg : 0 ≤ now - time := by omega
  rw [elapsedMs, Int.tdiv_eq_ediv_of_nonneg hnonneg, Int.le_ediv_iff_mul_le (by decide)]
  omega

theorem elapsedMs_anti {now first second : Int} (hle : first ≤ second) :
    elapsedMs now second ≤ elapsedMs now first := by
  rw [elapsedMs, elapsedMs]
  exact Int.tdiv_le_tdiv (by decide) (by omega)

namespace CircuitBreaker

variable {b : CircuitBreaker} {now : Int}

@[simp]
theorem mFailureTimestamps_transitionTo (newState : CircuitBreakerState) :
    (b.transitionTo now newState).mFailureTimestamps = b.mFailureTimestamps := by
  rw [transitionTo]
  split <;> rfl

@[simp]
theorem mFailureCount_transitionTo (newState : CircuitBreakerState) :
    (b.transitionTo now newState).mFailureCount = b.mFailureCount := by
  rw [transitionTo]
  split <;> rfl

/-- The times of failures lie in the past, in their order. -/
structure Recorded (b : CircuitBreaker) (now : Int) : Prop where
  sorted : b.mFailureTimestamps.Pairwise (· ≤ ·)
  past : ∀ time ∈ b.mFailureTimestamps, time ≤ now

theorem Recorded.mono {later : Int} (hrecorded : Recorded b now) (hle : now ≤ later) :
    Recorded b later where
  sorted := hrecorded.sorted
  past time htime := (hrecorded.past time htime).trans hle

theorem Recorded.congr {b' : CircuitBreaker} (hrecorded : Recorded b now)
    (hsame : b'.mFailureTimestamps = b.mFailureTimestamps) : Recorded b' now where
  sorted := hsame ▸ hrecorded.sorted
  past := hsame ▸ hrecorded.past

theorem recorded_of_nil (hnil : b.mFailureTimestamps = []) : Recorded b now where
  sorted := by simp [hnil]
  past := by simp [hnil]

theorem Recorded.concat (hrecorded : Recorded b now) :
    (b.mFailureTimestamps ++ [now]).Pairwise (· ≤ ·) := by
  rw [List.pairwise_append]
  refine ⟨hrecorded.sorted, List.pairwise_singleton _ _, ?_⟩
  intro time htime last hlast
  rw [List.mem_singleton.mp hlast]
  exact hrecorded.past time htime

/-- Recording a failure leaves the failures within the window. -/
theorem mFailureTimestamps_recordFailure (hrecorded : Recorded b now) :
    (b.recordFailure now).mFailureTimestamps =
      (b.mFailureTimestamps ++ [now]).filter (inWindow b.mConfig now) := by
  have hdown : (b.mFailureTimestamps ++ [now]).Pairwise fun first second =>
      decide (elapsedMs now second ≥ b.mConfig.windowDurationMs) = true →
        decide (elapsedMs now first ≥ b.mConfig.windowDurationMs) = true := by
    apply hrecorded.concat.imp
    intro first second hle hsecond
    have hanti := @elapsedMs_anti now first second hle
    simp only [ge_iff_le, decide_eq_true_eq] at hsecond ⊢
    omega
  rw [recordFailure, pruneExpiredFailures]
  simp only
  rw [dropWhile_eq_filter hdown]
  apply List.filter_congr
  intro time htime
  have hpast : time ≤ now := by
    rcases List.mem_append.mp htime with hold | hnew
    · exact hrecorded.past time hold
    · exact (List.mem_singleton.mp hnew).le
  rw [Bool.eq_iff_iff]
  simp [inWindow, le_elapsedMs_iff hpast, hpast]

theorem mFailureCount_recordFailure :
    (b.recordFailure now).mFailureCount = ((b.recordFailure now).mFailureTimestamps.length : Int) :=
  rfl

theorem Recorded.recordFailure (hrecorded : Recorded b now) : Recorded (b.recordFailure now) now := by
  constructor
  · rw [mFailureTimestamps_recordFailure hrecorded]
    exact hrecorded.concat.filter _
  · intro time htime
    rw [mFailureTimestamps_recordFailure hrecorded, List.mem_filter] at htime
    have hin := htime.2
    rw [inWindow, decide_eq_true_eq] at hin
    exact hin.2

@[simp]
theorem mState_recordFailure : (b.recordFailure now).mState = b.mState := rfl

@[simp]
theorem mConfig_recordFailure : (b.recordFailure now).mConfig = b.mConfig := rfl

theorem onFailure_of_closed (hclosed : b.mState = .closed) :
    b.onFailure now =
      if b.mConfig.failureThreshold ≤ ((b.recordFailure now).mFailureTimestamps.length : Int) then
        (b.recordFailure now).transitionTo now .opened
      else
        b.recordFailure now := by
  simp only [onFailure, mState_recordFailure, hclosed, mFailureCount_recordFailure,
    mConfig_recordFailure, ge_iff_le]

theorem onFailure_of_not_closed (hnot : b.mState ≠ .closed) :
    (b.onFailure now).mState = .opened ∧
      (b.onFailure now).mFailureTimestamps = (b.recordFailure now).mFailureTimestamps := by
  rw [onFailure]
  simp only [mState_recordFailure]
  split
  · contradiction
  · simp
  · rename_i hopened
    exact ⟨hopened, rfl⟩

theorem mState_onFailure_of_closed (hclosed : b.mState = .closed) :
    (b.onFailure now).mState = .opened ↔
      b.mConfig.failureThreshold ≤ ((b.recordFailure now).mFailureTimestamps.length : Int) := by
  rw [onFailure_of_closed hclosed]
  split_ifs with htrips
  · simp [htrips]
  · simp [htrips, hclosed]

theorem mFailureTimestamps_onFailure :
    (b.onFailure now).mFailureTimestamps = (b.recordFailure now).mFailureTimestamps := by
  by_cases hclosed : b.mState = .closed
  · rw [onFailure_of_closed hclosed]
    split_ifs <;> simp
  · exact (onFailure_of_not_closed hclosed).2

/-- A success clears the failures, or leaves them alone outside the closed state. -/
theorem onSuccess_frame :
    (b.onSuccess now).mConfig = b.mConfig ∧
      ((b.onSuccess now).mState = .closed ∧ (b.onSuccess now).mFailureTimestamps = [] ∧
          (b.onSuccess now).mFailureCount = 0 ∨
        b.mState ≠ .closed ∧ (b.onSuccess now).mState ≠ .closed ∧
          (b.onSuccess now).mFailureTimestamps = b.mFailureTimestamps) := by
  rw [onSuccess]
  split
  · rename_i hhalf
    simp only
    split_ifs
    · simp [clearFailures]
    · simp [hhalf]
  · rename_i hclosed
    simp [clearFailures, hclosed]
  · rename_i hopened
    simp [hopened]

theorem allowRequest_frame :
    (b.allowRequest now).2.mConfig = b.mConfig ∧
      (b.allowRequest now).2.mFailureTimestamps = b.mFailureTimestamps ∧
      (b.allowRequest now).2.mFailureCount = b.mFailureCount := by
  rw [allowRequest]
  split
  · simp
  · split_ifs <;> simp
  · split_ifs <;> simp

end CircuitBreaker

/-! ### The run -/

namespace Ledger

open CircuitBreaker

variable {m : Ledger} {past : List Note} {op : BreakerOp}

/-- While the breaker is closed, what it dropped of the failures of the count lies before the window. -/
structure Windowed (config : CircuitBreakerConfig) (past : List Note) (m : Ledger) : Prop where
  config_eq : m.breaker.mConfig = config
  recorded : Recorded m.breaker m.now
  history : m.breaker.mState = .closed →
    ∃ old, failureTimes Note.clears past = old ++ m.breaker.mFailureTimestamps ∧
      ∀ time ∈ old, time ≤ m.now - config.windowDurationMs * 1000000
  count : m.breaker.mState = .closed →
    m.breaker.mFailureCount = (m.breaker.mFailureTimestamps.length : Int)
  few : m.breaker.mState = .closed →
    (m.breaker.mFailureTimestamps.length : Int) < max config.failureThreshold 1

variable {config : CircuitBreakerConfig}

theorem windowed_start (config : CircuitBreakerConfig) (now : Int) :
    Windowed config [] (start config now) where
  config_eq := rfl
  recorded := recorded_of_nil rfl
  history _ := ⟨[], rfl, by simp⟩
  count _ := rfl
  few _ := by simp [start]

theorem Windowed.of_not_closed {m' : Ledger} (hconfig : m'.breaker.mConfig = config)
    (hrecorded : Recorded m'.breaker m'.now) (hnot : m'.breaker.mState ≠ .closed)
    (past : List Note) : Windowed config past m' where
  config_eq := hconfig
  recorded := hrecorded
  history hclosed := absurd hclosed hnot
  count hclosed := absurd hclosed hnot
  few hclosed := absurd hclosed hnot

/-- The count starts anew, and the breaker has forgotten the failures. -/
theorem Windowed.of_cleared (hclears : (m.note op).clears = true)
    (hconfig : (m.step op).breaker.mConfig = config)
    (hnil : (m.step op).breaker.mFailureTimestamps = [])
    (hcount : (m.step op).breaker.mFailureCount = 0) :
    Windowed config (past ++ [m.note op]) (m.step op) where
  config_eq := hconfig
  recorded := recorded_of_nil hnil
  history _ := ⟨[], by rw [failureTimes_of_anew hclears, hnil]; rfl, by simp⟩
  count _ := by rw [hcount, hnil]; rfl
  few _ := by simp [hnil]

/-- A call that neither clears nor records anything, at the same time or before a later one. -/
theorem Windowed.of_quiet (hwindowed : Windowed config past m)
    (hclears : (m.note op).clears = false) (hfailure : (m.note op).isFailure = false)
    (hconfig : (m.step op).breaker.mConfig = m.breaker.mConfig)
    (htimes : (m.step op).breaker.mFailureTimestamps = m.breaker.mFailureTimestamps)
    (hcount : (m.step op).breaker.mFailureCount = m.breaker.mFailureCount)
    (hnow : m.now ≤ (m.step op).now)
    (hclosed : (m.step op).breaker.mState = .closed → m.breaker.mState = .closed) :
    Windowed config (past ++ [m.note op]) (m.step op) where
  config_eq := hconfig.trans hwindowed.config_eq
  recorded := (hwindowed.recorded.mono hnow).congr htimes
  history hafter := by
    obtain ⟨old, htimes', hold⟩ := hwindowed.history (hclosed hafter)
    refine ⟨old, ?_, ?_⟩
    · rw [failureTimes_of_other hclears hfailure, htimes', htimes]
    · intro time htime
      have hbefore := hold time htime
      omega
  count hafter := by rw [hcount, htimes, hwindowed.count (hclosed hafter)]
  few hafter := by rw [htimes]; exact hwindowed.few (hclosed hafter)

/-- The failures of the count within the window, the new one included, are those the breaker keeps. -/
theorem Windowed.countP_eq (hwindowed : Windowed config past m) (hclosed : m.breaker.mState = .closed) :
    (failureTimes Note.clears past ++ [m.now]).countP (inWindow config m.now) =
      (m.breaker.recordFailure m.now).mFailureTimestamps.length := by
  obtain ⟨old, htimes, hold⟩ := hwindowed.history hclosed
  have hdropped : old.countP (inWindow config m.now) = 0 := by
    rw [List.countP_eq_zero]
    intro time htime
    have hbefore := hold time htime
    simp only [inWindow, decide_eq_true_eq]
    omega
  calc (failureTimes Note.clears past ++ [m.now]).countP (inWindow config m.now)
      = (m.breaker.mFailureTimestamps ++ [m.now]).countP (inWindow config m.now) := by
        rw [htimes, List.append_assoc, List.countP_append, hdropped, zero_add]
    _ = (m.breaker.recordFailure m.now).mFailureTimestamps.length := by
        rw [mFailureTimestamps_recordFailure hwindowed.recorded, hwindowed.config_eq,
          List.countP_eq_length_filter]

theorem Windowed.fail (hwindowed : Windowed config past m) (call : Nat) :
    Windowed config (past ++ [m.note (.onFailure call)]) (m.step (.onFailure call)) := by
  have hconfig : (m.step (.onFailure call)).breaker.mConfig = config := by
    rw [step, Ledger.fail, mConfig_onFailure, hwindowed.config_eq]
  have hrecorded : Recorded (m.step (.onFailure call)).breaker m.now :=
    hwindowed.recorded.recordFailure.congr mFailureTimestamps_onFailure
  by_cases hafter : (m.step (.onFailure call)).breaker.mState = .closed
  · have hclosed : m.breaker.mState = .closed := by
      by_contra hnot
      have hopened := (@onFailure_of_not_closed m.breaker m.now hnot).1
      exact absurd (hopened.symm.trans hafter) (by decide)
    have hbelow : ¬ config.failureThreshold ≤
        ((m.breaker.recordFailure m.now).mFailureTimestamps.length : Int) := by
      intro htrips
      have hopened := (mState_onFailure_of_closed hclosed).mpr (hwindowed.config_eq ▸ htrips)
      exact absurd (hopened.symm.trans hafter) (by decide)
    have hbreaker : (m.step (.onFailure call)).breaker = m.breaker.recordFailure m.now := by
      rw [step, Ledger.fail, onFailure_of_closed hclosed, hwindowed.config_eq, if_neg hbelow]
    have hclears : (m.note (.onFailure call)).clears = false :=
      Note.clears_eq_false rfl (by simp [note]) fun _ => hclosed
    refine ⟨hconfig, hrecorded, ?_, ?_, ?_⟩
    · intro _
      obtain ⟨old, htimes, hold⟩ := hwindowed.history hclosed
      -- What is dropped now comes after what was dropped before, since the times are sorted.
      refine ⟨old ++ (m.breaker.mFailureTimestamps ++ [m.now]).takeWhile fun time =>
        elapsedMs m.now time ≥ m.breaker.mConfig.windowDurationMs, ?_, ?_⟩
      · rw [failureTimes_of_failure hclears rfl, htimes, hbreaker, List.append_assoc,
          List.append_assoc]
        congr 1
        exact List.takeWhile_append_dropWhile.symm
      · intro time htime
        rcases List.mem_append.mp htime with hbefore | hnew
        · exact hold time hbefore
        · have hpast : time ≤ m.now := by
            rcases List.mem_append.mp (List.takeWhile_subset _ hnew) with hkept | hlast
            · exact hwindowed.recorded.past time hkept
            · exact (List.mem_singleton.mp hlast).le
          have hexpired := List.mem_takeWhile_imp hnew
          rw [decide_eq_true_eq, ge_iff_le, le_elapsedMs_iff hpast, hwindowed.config_eq] at hexpired
          exact hexpired
    · intro _
      rw [hbreaker, mFailureCount_recordFailure]
    · intro _
      rw [hbreaker]
      omega
  · exact Windowed.of_not_closed hconfig hrecorded hafter _

theorem Windowed.succeed (hwindowed : Windowed config past m) (call : Nat) :
    Windowed config (past ++ [m.note (.onSuccess call)]) (m.step (.onSuccess call)) := by
  have hbreaker : (m.step (.onSuccess call)).breaker = m.breaker.onSuccess m.now := by
    rw [step, Ledger.succeed]
    split_ifs <;> rfl
  have hnow : (m.step (.onSuccess call)).now = m.now := by
    rw [step, Ledger.succeed]
    split_ifs <;> rfl
  obtain ⟨hconfig, ⟨hclosed, htimes, hcount⟩ | ⟨hbefore, hafter, htimes⟩⟩ :=
    @onSuccess_frame m.breaker m.now
  · apply Windowed.of_cleared
    · by_cases hbefore : m.breaker.mState = .closed
      · simp [Note.clears, Note.restarts, Note.succeedsClosed, Note.isSuccess, note, hbefore]
      · simp [Note.clears, Note.restarts, Note.entersClosed, note, hbefore, hbreaker, hclosed]
    · rw [hbreaker, hconfig, hwindowed.config_eq]
    · rw [hbreaker, htimes]
    · rw [hbreaker, hcount]
  · apply Windowed.of_not_closed
    · rw [hbreaker, hconfig, hwindowed.config_eq]
    · rw [hbreaker, hnow]
      exact hwindowed.recorded.congr htimes
    · rwa [hbreaker]

theorem Windowed.ask (hwindowed : Windowed config past m) :
    Windowed config (past ++ [m.note .allowRequest]) (m.step .allowRequest) := by
  have hbreaker : (m.step .allowRequest).breaker = (m.breaker.allowRequest m.now).2 :=
    breaker_admitted m
  have hnow : (m.step .allowRequest).now = m.now := by
    rw [step, admitted]
    split_ifs <;> rfl
  obtain ⟨hconfig, htimes, hcount⟩ := @allowRequest_frame m.breaker m.now
  have hclosed : (m.step .allowRequest).breaker.mState = .closed → m.breaker.mState = .closed := by
    rw [hbreaker]
    exact m.breaker.mState_of_allowRequest_closed m.now
  apply hwindowed.of_quiet
  · exact Note.clears_eq_false rfl (by simp [note]) hclosed
  · rfl
  · rw [hbreaker, hconfig]
  · rw [hbreaker, htimes]
  · rw [hbreaker, hcount]
  · exact hnow.ge
  · exact hclosed

theorem Windowed.step (hwindowed : Windowed config past m) (op : BreakerOp) :
    Windowed config (past ++ [m.note op]) (m.step op) := by
  cases op with
  | allowRequest => exact hwindowed.ask
  | onSuccess call => exact hwindowed.succeed call
  | onFailure call => exact hwindowed.fail call
  | reset =>
      apply Windowed.of_cleared
      · simp [Note.clears, note]
      · simp [Ledger.step, reset, clearFailures, hwindowed.config_eq]
      · simp [Ledger.step, reset, clearFailures]
      · simp [Ledger.step, reset, clearFailures]
  | forceOpen =>
      apply Windowed.of_not_closed
      · simp [Ledger.step, forceOpen, hwindowed.config_eq]
      · exact hwindowed.recorded.congr (by simp [Ledger.step, forceOpen])
      · simp [Ledger.step, forceOpen]
  | advance time =>
      apply hwindowed.of_quiet
      · exact Note.clears_eq_false rfl (by simp [note]) id
      · rfl
      · rfl
      · rfl
      · rfl
      · change m.now ≤ m.now + time
        omega
      · exact id

theorem windowed_run (config : CircuitBreakerConfig) (now : Int) (ops : List BreakerOp) :
    Windowed config ((start config now).notes ops) (run Ledger.step (start config now) ops) := by
  induction ops using List.reverseRecOn with
  | nil => exact windowed_start config now
  | append_singleton ops op ih =>
      rw [notes_concat, run_concat]
      exact ih.step op

end Ledger

/-- In every run the breaker trips on the failures within the window, and while it is closed it keeps
fewer of them than would trip it. -/
theorem trips_on_failures_in_window (config : CircuitBreakerConfig) (now : Int)
    (ops : List BreakerOp) :
    let b := (run Ledger.step (Ledger.start config now) ops).breaker
    (∀ call, TripsBy Note.clears config now ops call) ∧
      b.mFailureTimestamps.Pairwise (· ≤ ·) ∧
      (b.mState = .closed →
        (b.mFailureTimestamps.length : Int) < max config.failureThreshold 1 ∧
          b.mFailureCount ≤ max config.failureThreshold 0) := by
  intro b
  have hwindowed := Ledger.windowed_run config now ops
  refine ⟨?_, hwindowed.recorded.sorted, ?_⟩
  · intro call hclosed
    have htrips := @CircuitBreaker.mState_onFailure_of_closed b
      (run Ledger.step (Ledger.start config now) ops).now hclosed
    rw [hwindowed.config_eq] at htrips
    rw [hwindowed.countP_eq hclosed]
    exact htrips
  · intro hclosed
    have hfew := hwindowed.few hclosed
    have hcount := hwindowed.count hclosed
    refine ⟨hfew, ?_⟩
    rw [hcount]
    omega

/-- Two failures with a `reset` of the closed breaker between them do not trip a breaker that trips at
two, though it was closed all the time. And no list is shorter than a threshold of zero. -/
theorem reset_forgets_failures :
    ¬ TripsBy Note.restarts { failureThreshold := 2 } 0 [.onFailure 0, .reset] 1 ∧
      let b := (Ledger.start { failureThreshold := 0 } 0).breaker
      b.mState = .closed ∧ ¬ (b.mFailureTimestamps.length : Int) < 0 := by
  decide

end SoulCoreKit.Network
