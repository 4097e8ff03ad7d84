import Mathlib.Logic.Function.Basic
import Mathlib.Data.List.Nodup
import SoulCoreKit.Proof.PoolAccounting

/-!
# How long a database connection has been idle

The times of last use are a list beside the idle connections, and only the position connects the two.
`acquire` takes connections out of the one list and leaves the other as it is. From the first call of
`acquire` that finds an idle connection on there are more times than connections, and `healthCheck` may
judge a connection by the time of one that is gone.
-/

namespace SoulCoreKit.Data

namespace DefaultDbConnectionPool

variable (env : Environment) (p : DefaultDbConnectionPool)

/-- A connection that the first loop of `healthCheck` removes: the time that is erased with it, if the
iterator is not at the end of the times, and the total when it is removed. -/
structure Removal where
  driver : Driver
  time : Option Int
  total : Int
  deriving DecidableEq, Repr

/-- What the first loop of `healthCheck` removes. -/
def removals : List Driver → List Int → Int → List Removal
  | [], _, _ => []
  | conn :: rest, times, total =>
      if p.shouldRemove env conn times total then
        ⟨conn, times.head?, total⟩ :: removals rest times.tail (decremented total)
      else
        removals rest times.tail total

/-- Every connection stays or is removed. -/
theorem sweep_append_removals_perm (conns : List Driver) (times : List Int) (total : Int) :
    ((p.sweep env conns times total).1 ++ (p.removals env conns times total).map Removal.driver).Perm
      conns := by
  induction conns generalizing times total with
  | nil => exact List.Perm.refl []
  | cons conn rest ih =>
      rw [sweep, removals]
      split
      · exact List.perm_middle.trans ((ih _ _).cons conn)
      · exact (ih times.tail total).cons conn

end DefaultDbConnectionPool

/-- The pool with its users, and when each driver was last put among the idle connections. -/
structure DatedPool where
  users : PoolUsers
  putAt : Driver → Int

namespace DatedPool

variable (s : DatedPool)

/-- When the drivers were put there, after the call. The drivers that `healthCheck` and `initialize` put
there are those they make. -/
def putAtAfter : PoolOp → Driver → Int
  | .release (some driver) env =>
      if env.isConnected driver then Function.update s.putAt driver env.now else s.putAt
  | .healthCheck env => fun driver => if s.users.pool.made ≤ driver then env.now else s.putAt driver
  | .initializePool env => fun driver => if s.users.pool.made ≤ driver then env.now else s.putAt driver
  | _ => s.putAt

def step (op : PoolOp) : DatedPool := { users := s.users.step op, putAt := s.putAtAfter op }

def start (minSize maxSize idleTimeoutMs : Int) : DatedPool :=
  { users := { pool := { mMinSize := minSize, mMaxSize := maxSize, mIdleTimeoutMs := idleTimeoutMs } }
    putAt := fun _ => 0 }

def Owns (op : PoolOp) : Prop := s.users.Owns op

instance (op : PoolOp) : Decidable (s.Owns op) := inferInstanceAs (Decidable (s.users.Owns op))

/-- What `healthCheck` would remove now. -/
def removals (env : Environment) : List DefaultDbConnectionPool.Removal :=
  s.users.pool.removals env s.users.pool.mIdleConnections s.users.pool.mLastUsedTimes
    s.users.pool.mTotalCount

/-- The times of last use are those of the idle connections, so that `healthCheck` erases within them,
and removes a connected connection only after its time and above the least size. -/
structure Dated : Prop where
  times : s.users.pool.mLastUsedTimes = s.users.pool.mIdleConnections.map s.putAt
  inBounds : ∀ env, ∀ removal ∈ s.removals env, removal.time.isSome
  overdue : ∀ env, ∀ removal ∈ s.removals env, env.isConnected removal.driver = true →
    s.users.pool.mIdleTimeoutMs < (env.now - s.putAt removal.driver).tdiv 1000000 ∧
      s.users.pool.mMinSize < removal.total

/-- `acquire` finds no idle connection. -/
def FindsNoneIdle : PoolOp → Prop
  | .acquire _ _ => s.users.pool.mIdleConnections = []
  | _ => True

instance : ∀ op, Decidable (s.FindsNoneIdle op)
  | .acquire _ _ => inferInstanceAs (Decidable (_ = []))
  | .wakeUp | .release _ _ | .healthCheck _ | .initializePool _ | .closeAll => isTrue trivial

end DatedPool

/-! ### What the methods do to the times -/

namespace DefaultDbConnectionPool

variable {env : Environment} {p : DefaultDbConnectionPool} {putAt : Driver → Int}

/-- The times of last use are those at which the idle connections were put there. -/
def Synced (putAt : Driver → Int) (p : DefaultDbConnectionPool) : Prop :=
  p.mLastUsedTimes = p.mIdleConnections.map putAt

theorem shouldRemove_of_cons {conn : Driver} {time : Int} {times : List Int} {total : Int}
    (hremove : p.shouldRemove env conn (time :: times) total = true)
    (hconnected : env.isConnected conn = true) :
    p.mIdleTimeoutMs < (env.now - time).tdiv 1000000 ∧ p.mMinSize < total := by
  unfold shouldRemove at hremove
  simp only [hconnected, not_true_eq_false, if_false, List.head?_cons] at hremove
  split at hremove
  · simpa using hremove
  · exact absurd hremove Bool.false_ne_true

theorem removals_of_synced (conns : List Driver) (total : Int) :
    ∀ removal ∈ p.removals env conns (conns.map putAt) total,
      removal.time = some (putAt removal.driver) ∧
        (env.isConnected removal.driver = true →
          p.mIdleTimeoutMs < (env.now - putAt removal.driver).tdiv 1000000 ∧
            p.mMinSize < removal.total) := by
  induction conns generalizing total with
  | nil =>
      intro removal hremoval
      exact absurd hremoval List.not_mem_nil
  | cons conn rest ih =>
      intro removal hremoval
      rw [List.map_cons, removals] at hremoval
      split at hremoval
      · rename_i hremove
        rcases List.mem_cons.mp hremoval with rfl | hmem
        · exact ⟨rfl, shouldRemove_of_cons hremove⟩
        · exact ih _ removal hmem
      · exact ih total removal hremoval

theorem sweep_of_synced (conns : List Driver) (total : Int) :
    (p.sweep env conns (conns.map putAt) total).2.1 =
      (p.sweep env conns (conns.map putAt) total).1.map putAt := by
  induction conns generalizing total with
  | nil => rfl
  | cons conn rest ih =>
      rw [List.map_cons, sweep]
      split
      · exact ih _
      · exact congrArg (putAt conn :: ·) (ih total)

theorem sweep_sublist (conns : List Driver) (times : List Int) (total : Int) :
    (p.sweep env conns times total).1.Sublist conns := by
  induction conns generalizing times total with
  | nil => exact List.Sublist.refl []
  | cons conn rest ih =>
      rw [sweep]
      split
      · exact (ih _ _).cons conn
      · exact (ih times.tail total).cons_cons conn

theorem length_takeIdle_le (conns : List Driver) (total : Int) :
    (takeIdle env conns total).2.1.length ≤ conns.length := by
  induction conns generalizing total with
  | nil => exact le_rfl
  | cons conn rest ih =>
      rw [takeIdle, List.length_cons]
      split
      · exact Nat.le_succ _
      · exact (ih _).trans (Nat.le_succ _)

theorem length_takeIdle_lt {conn : Driver} {conns : List Driver} (total : Int) :
    (takeIdle env (conn :: conns) total).2.1.length < (conn :: conns).length := by
  rw [takeIdle, List.length_cons]
  split
  · exact Nat.lt_succ_self _
  · exact Nat.lt_succ_of_le (length_takeIdle_le conns _)

theorem lists_create : (p.create env).2.mIdleConnections = p.mIdleConnections ∧
    (p.create env).2.mLastUsedTimes = p.mLastUsedTimes := by
  unfold create
  split
  · exact ⟨rfl, rfl⟩
  · simp only
    split <;> exact ⟨rfl, rfl⟩

/-- `acquire` leaves the times as they are, and takes what it finds out of the idle connections. -/
theorem lists_acquire (timeoutMs : Int) :
    (p.acquire env timeoutMs).2.mIdleConnections =
        (takeIdle env p.mIdleConnections.reverse p.mTotalCount).2.1.reverse ∧
      (p.acquire env timeoutMs).2.mLastUsedTimes = p.mLastUsedTimes := by
  unfold acquire
  split
  · rename_i conn rest total htake
    rw [htake]
    exact ⟨rfl, rfl⟩
  · rename_i rest total htake
    rw [htake]
    simp only
    split
    · exact lists_create
    · split <;> exact ⟨rfl, rfl⟩

/-- Where there is an idle connection, `acquire` makes the lists differ in length. -/
theorem not_synced_acquire (hsynced : p.Synced putAt) (hidle : p.mIdleConnections ≠ [])
    (timeoutMs : Int) (putAt' : Driver → Int) : ¬ (p.acquire env timeoutMs).2.Synced putAt' := by
  obtain ⟨hconns, htimes⟩ := @lists_acquire env p timeoutMs
  intro hafter
  have hlength := congrArg List.length hafter
  rw [htimes, hconns, hsynced, List.length_map, List.length_map, List.length_reverse] at hlength
  have hreverse : p.mIdleConnections.reverse ≠ [] := by simpa using hidle
  obtain ⟨conn, conns, hcons⟩ := List.exists_cons_of_ne_nil hreverse
  have hlt := @length_takeIdle_lt env conn conns p.mTotalCount
  rw [← hcons, List.length_reverse] at hlt
  omega

end DefaultDbConnectionPool

/-! ### The drivers are different -/

/-- The drivers are different, and are among the first `made`. -/
structure Distinct (made : Nat) (drivers : List Driver) : Prop where
  nodup : drivers.Nodup
  lt : ∀ driver ∈ drivers, driver < made

namespace Distinct

variable {made made' : Nat} {drivers drivers' : List Driver}

theorem mono (hdistinct : Distinct made drivers) (hle : made ≤ made') : Distinct made' drivers :=
  ⟨hdistinct.nodup, fun driver hdriver => (hdistinct.lt driver hdriver).trans_le hle⟩

theorem perm (hdistinct : Distinct made drivers) (hperm : drivers'.Perm drivers) :
    Distinct made drivers' :=
  ⟨hperm.nodup_iff.mpr hdistinct.nodup,
    fun driver hdriver => hdistinct.lt driver (hperm.mem_iff.mp hdriver)⟩

theorem sublist (hdistinct : Distinct made drivers) (hsublist : drivers'.Sublist drivers) :
    Distinct made drivers' :=
  ⟨hdistinct.nodup.sublist hsublist,
    fun driver hdriver => hdistinct.lt driver (hsublist.subset hdriver)⟩

theorem cons (hdistinct : Distinct made drivers) : Distinct (made + 1) (made :: drivers) := by
  refine ⟨List.nodup_cons.mpr ⟨?_, hdistinct.nodup⟩, ?_⟩
  · intro hmem
    exact lt_irrefl _ (hdistinct.lt made hmem)
  · intro driver hdriver
    rcases List.mem_cons.mp hdriver with rfl | hmem
    · exact Nat.lt_succ_self _
    · exact Nat.lt_succ_of_lt (hdistinct.lt driver hmem)

end Distinct

namespace DefaultDbConnectionPool

variable {env : Environment} {p : DefaultDbConnectionPool} {putAt : Driver → Int}
  {outstanding : List Driver}

/-- The times are right, and the drivers of the pool and the outstanding ones are different. -/
structure Kept (outstanding : List Driver) (putAt : Driver → Int) (p : DefaultDbConnectionPool) :
    Prop where
  synced : p.Synced putAt
  distinct : Distinct p.made (p.mIdleConnections ++ outstanding)

theorem Kept.addIdle (hkept : Kept outstanding putAt p)
    (hnow : ∀ driver, p.made ≤ driver → putAt driver = env.now) :
    Kept outstanding putAt (p.addIdle env) := by
  constructor
  · unfold Synced DefaultDbConnectionPool.addIdle
    dsimp only
    rw [hkept.synced, List.map_append, List.map_singleton, hnow p.made le_rfl]
  · apply hkept.distinct.cons.perm
    change (p.mIdleConnections ++ [p.made] ++ outstanding).Perm _
    rw [List.append_assoc]
    exact List.perm_middle

theorem Kept.refill (hkept : Kept outstanding putAt p)
    (hnow : ∀ driver, p.made ≤ driver → putAt driver = env.now)
    (passes : Nat) : Kept outstanding putAt (refill env passes p) := by
  induction passes generalizing p with
  | zero => exact hkept
  | succ passes ih =>
      rw [DefaultDbConnectionPool.refill]
      split
      · split
        · exact hkept
        · apply ih (hkept.addIdle hnow)
          intro driver hdriver
          exact hnow driver (Nat.le_of_succ_le hdriver)
      · exact hkept

theorem Kept.initializeLoop (hkept : Kept outstanding putAt p)
    (hnow : ∀ driver, p.made ≤ driver → putAt driver = env.now) (passes : Nat) :
    Kept outstanding putAt (initializeLoop env passes p).2 := by
  induction passes generalizing p with
  | zero => exact hkept
  | succ passes ih =>
      rw [DefaultDbConnectionPool.initializeLoop]
      split
      · exact hkept
      · split
        · apply ih (hkept.addIdle hnow)
          intro driver hdriver
          exact hnow driver (Nat.le_of_succ_le hdriver)
        · exact ⟨hkept.synced, hkept.distinct.mono (Nat.le_succ _)⟩

/-- A change of the times that concerns drivers not made yet. -/
theorem Kept.congr {putAt' : Driver → Int} (hkept : Kept outstanding putAt p)
    (hsame : ∀ driver, driver < p.made → putAt' driver = putAt driver) : Kept outstanding putAt' p := by
  refine ⟨hkept.synced.trans ?_, hkept.distinct⟩
  apply List.map_congr_left
  intro driver hdriver
  exact (hsame driver (hkept.distinct.lt driver (List.mem_append_left _ hdriver))).symm

theorem Kept.healthCheck (hkept : Kept outstanding putAt p)
    (hnow : ∀ driver, p.made ≤ driver → putAt driver = env.now) :
    Kept outstanding putAt (p.healthCheck env) := by
  have hsweep := @sweep_of_synced env p putAt p.mIdleConnections p.mTotalCount
  have hsublist := @sweep_sublist env p p.mIdleConnections p.mLastUsedTimes p.mTotalCount
  rw [← hkept.synced] at hsweep
  exact Kept.refill (p := { p with mIdleConnections := _, mLastUsedTimes := _, mTotalCount := _ })
    ⟨hsweep, hkept.distinct.sublist (hsublist.append_right _)⟩ hnow _

theorem Kept.release (hkept : Kept outstanding putAt p) {driver : Driver} (howned : driver ∈ outstanding) :
    Kept (outstanding.erase driver)
      (if env.isConnected driver then Function.update putAt driver env.now else putAt)
      (p.release env (some driver)) := by
  unfold DefaultDbConnectionPool.release
  dsimp only
  split
  · have hnot : driver ∉ p.mIdleConnections := by
      intro hidle
      exact (List.nodup_append.mp hkept.distinct.nodup).2.2 driver hidle driver howned rfl
    constructor
    · unfold Synced
      dsimp only
      rw [hkept.synced, List.map_append, List.map_singleton, Function.update_self]
      congr 1
      apply List.map_congr_left
      intro other hother
      rw [Function.update_of_ne]
      rintro rfl
      exact hnot hother
    · apply hkept.distinct.perm
      rw [List.append_assoc]
      exact (List.perm_cons_erase howned).symm.append_left _
  · exact ⟨hkept.synced, hkept.distinct.sublist (List.erase_sublist.append_left _)⟩

theorem Kept.create (hkept : Kept outstanding putAt p) {s : PoolUsers}
    (houtstanding : s.outstanding = outstanding) :
    Kept (s.handOut (p.create env)).outstanding putAt (s.handOut (p.create env)).pool := by
  subst houtstanding
  unfold DefaultDbConnectionPool.create
  split
  · exact hkept
  · dsimp only
    split
    · refine ⟨hkept.synced, hkept.distinct.cons.perm ?_⟩
      change (p.mIdleConnections ++ (s.outstanding ++ [p.made])).Perm _
      rw [← List.append_assoc]
      exact List.perm_append_singleton _ _
    · exact ⟨hkept.synced, hkept.distinct.mono (Nat.le_succ _)⟩

/-- Where there is no idle connection, `acquire` creates one, waits or gives up. -/
theorem acquire_of_nil (hidle : p.mIdleConnections = []) (timeoutMs : Int) :
    p.acquire env timeoutMs =
      if p.mTotalCount < p.mMaxSize then p.create env
      else if timeoutMs ≥ 0 then (.waits, p)
      else (.failed ⟨.resourceExhausted, "Connection pool exhausted"⟩, p) := by
  have hsame : { p with mIdleConnections := [], mTotalCount := p.mTotalCount } = p := by rw [← hidle]
  unfold acquire
  rw [hidle]
  simp only [List.reverse_nil, takeIdle, hsame]

theorem Kept.acquire (hkept : Kept outstanding putAt p) (hidle : p.mIdleConnections = []) {s : PoolUsers}
    (houtstanding : s.outstanding = outstanding) (timeoutMs : Int) :
    Kept (s.handOut (p.acquire env timeoutMs)).outstanding putAt
      (s.handOut (p.acquire env timeoutMs)).pool := by
  rw [acquire_of_nil hidle]
  split
  · exact hkept.create houtstanding
  · subst houtstanding
    split
    · exact hkept
    · exact hkept

end DefaultDbConnectionPool

/-! ### Runs -/

namespace DatedPool

open DefaultDbConnectionPool

variable {s : DatedPool}

def Keeps (s : DatedPool) : Prop := Kept s.users.outstanding s.putAt s.users.pool

theorem dated_of_synced (hsynced : Synced s.putAt s.users.pool) : s.Dated := by
  have hremovals (env : Environment) : s.removals env =
      s.users.pool.removals env s.users.pool.mIdleConnections
        (s.users.pool.mIdleConnections.map s.putAt) s.users.pool.mTotalCount := by
    unfold removals
    rw [hsynced]
  refine ⟨hsynced, ?_, ?_⟩
  · intro env removal hremoval
    rw [hremovals] at hremoval
    rw [(removals_of_synced _ _ removal hremoval).1]
    rfl
  · intro env removal hremoval
    rw [hremovals] at hremoval
    exact (removals_of_synced _ _ removal hremoval).2

theorem keeps_step (hkeeps : s.Keeps) {op : PoolOp} (howns : s.Owns op) (hfinds : s.FindsNoneIdle op) :
    (s.step op).Keeps := by
  have hold {env : Environment} {driver : Driver} (hdriver : driver < s.users.pool.made) :
      (if s.users.pool.made ≤ driver then env.now else s.putAt driver) = s.putAt driver :=
    if_neg (Nat.not_le.mpr hdriver)
  cases op with
  | acquire timeoutMs env => exact hkeeps.acquire hfinds rfl timeoutMs
  | wakeUp =>
      change Kept (s.users.handOut s.users.pool.wakeUp).outstanding s.putAt
        (s.users.handOut s.users.pool.wakeUp).pool
      unfold wakeUp
      split <;> exact hkeeps
  | release driver env =>
      cases driver with
      | none => exact hkeeps
      | some driver => exact hkeeps.release howns
  | healthCheck env =>
      exact (hkeeps.congr fun driver hdriver => hold hdriver).healthCheck
        fun driver hdriver => if_pos hdriver
  | initializePool env =>
      exact (hkeeps.congr fun driver hdriver => hold hdriver).initializeLoop
        (fun driver hdriver => if_pos hdriver) _
  | closeAll => exact ⟨rfl, hkeeps.distinct.sublist (List.sublist_append_right _ _)⟩

theorem keeps_start (minSize maxSize idleTimeoutMs : Int) : (start minSize maxSize idleTimeoutMs).Keeps :=
  ⟨rfl, List.nodup_nil, fun _ hdriver => absurd hdriver List.not_mem_nil⟩

end DatedPool

open DatedPool in
/-- The times of last use are right in every state of a run, and with them what `healthCheck` removes,
exactly if no `acquire` of the run finds an idle connection. -/
theorem dated_always_iff (minSize maxSize idleTimeoutMs : Int) (ops : List PoolOp)
    (howns : Along step Owns (start minSize maxSize idleTimeoutMs) ops) :
    (∀ n, Dated (run step (start minSize maxSize idleTimeoutMs) (ops.take n))) ↔
      Along step FindsNoneIdle (start minSize maxSize idleTimeoutMs) ops := by
  refine always_iff_along_of_invariant howns (keeps_start minSize maxSize idleTimeoutMs)
    (fun s hkeeps => dated_of_synced hkeeps.synced) ?_ ?_
  · intro s op hkeeps _ hdated
    cases op with
    | acquire timeoutMs env =>
        by_contra hidle
        apply DefaultDbConnectionPool.not_synced_acquire hkeeps.synced hidle timeoutMs s.putAt
        have htimes := hdated.times
        unfold step PoolUsers.step at htimes
        rwa [PoolUsers.pool_handOut] at htimes
    | wakeUp => trivial
    | release driver env => trivial
    | healthCheck env => trivial
    | initializePool env => trivial
    | closeAll => trivial
  · intro s op hkeeps howned hfinds
    exact keeps_step hkeeps howned hfinds

/-- A driver is made for a call, comes back and is removed when it is overdue. -/
def overdueRun : List PoolOp :=
  [.acquire 0 {}, .release (some 0) {}, .healthCheck { now := 300001000000 }]

open DatedPool in
theorem dated_until_reclaimed :
    Along step FindsNoneIdle (start 0 10 300000) overdueRun ∧
      ∀ n, Dated (run step (start 0 10 300000) (overdueRun.take n)) := by
  have hnone : Along step FindsNoneIdle (start 0 10 300000) overdueRun := by decide
  exact ⟨hnone, (dated_always_iff 0 10 300000 overdueRun (by decide)).mpr hnone⟩

open DatedPool in
/-- `acquire` takes the only idle connection and leaves its time. The connection comes back at 299
seconds, is judged by the time it was made and goes at 301. -/
theorem reclaimed_after_two_seconds :
    let taken := run step (start 1 10 300000) [.initializePool {}, .acquire 0 {}]
    let returned := run step taken [.acquire 0 {}, .release (some 0) { now := 299000000000 }]
    ¬ Dated taken ∧ taken.users.pool.mLastUsedTimes = [0] ∧ taken.users.pool.mIdleConnections = [] ∧
      ¬ Dated returned ∧ returned.putAt 0 = 299000000000 ∧
      returned.removals { now := 301000000000 } = [⟨0, some 0, 2⟩] := by
  have hremovals : (run step (start 1 10 300000) [.initializePool {}, .acquire 0 {}, .acquire 0 {},
      .release (some 0) { now := 299000000000 }]).removals { now := 301000000000 } = [⟨0, some 0, 2⟩] := by
    decide
  refine ⟨?_, by decide, by decide, ?_, by decide, hremovals⟩
  · intro hdated
    exact absurd hdated.times (by decide)
  · intro hdated
    have hoverdue := hdated.overdue { now := 301000000000 } ⟨0, some 0, 2⟩
      (hremovals ▸ List.mem_singleton_self _) rfl
    exact absurd hoverdue.1 (by decide)

end SoulCoreKit.Data
