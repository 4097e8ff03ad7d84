import SoulCoreKit.Data.ConnectionPool
import SoulCoreKit.Lib.Run

/-!
# The counters of the database connection pool

Five methods move two counters by hand. They agree with the connections there are as long as
`closeAll` is not called while a driver is handed out: it sets both counters to zero, and the driver
that comes back later is taken in without being counted. Every other step keeps the accounts, and the
saturating decrements never saturate.
-/

namespace SoulCoreKit.Data

/-! ### What the methods do to the accounts -/

theorem decremented_of_pos {count : Int} (hpos : 0 < count) : decremented count = count - 1 := by
  simp [decremented, hpos]

namespace DefaultDbConnectionPool

variable {env : Environment} {p : DefaultDbConnectionPool}

/-- The accounts of a pool with so many drivers handed out. -/
structure Balanced (handedOut : Nat) (p : DefaultDbConnectionPool) : Prop where
  total : p.mTotalCount = p.mActiveCount + p.mIdleConnections.length
  active : p.mActiveCount = handedOut
  bounded : p.mTotalCount ≤ p.mMaxSize

theorem Balanced.total_eq {handedOut : Nat} (hbalanced : Balanced handedOut p) :
    p.mTotalCount = handedOut + p.mIdleConnections.length := by
  rw [hbalanced.total, hbalanced.active]

/-- The loop over the idle connections counts the connections it throws away. -/
theorem takeIdle_spec {conns rest : List Driver} {found : Option Driver} {total total' : Int}
    {handedOut : Nat} (htotal : total = handedOut + conns.length)
    (htake : takeIdle env conns total = (found, rest, total')) :
    total' ≤ total ∧
      (found = none ∧ rest = [] ∧ total' = handedOut ∨
        found.isSome ∧ total' = handedOut + 1 + rest.length) := by
  induction conns generalizing total with
  | nil =>
      obtain ⟨rfl, rfl, rfl⟩ := by simpa [takeIdle] using htake
      simpa using htotal
  | cons conn conns ih =>
      rw [List.length_cons] at htotal
      rw [takeIdle] at htake
      split at htake
      · obtain ⟨rfl, rfl, rfl⟩ := by simpa using htake
        exact ⟨le_rfl, Or.inr ⟨rfl, by omega⟩⟩
      · have hpos : 0 < total := by omega
        rw [decremented_of_pos hpos] at htake
        obtain ⟨hle, hcases⟩ := ih (by omega) htake
        exact ⟨by omega, hcases⟩

/-- A new connection is counted twice: in the total and among the active ones. -/
theorem Balanced.create {handedOut : Nat} (hbalanced : Balanced handedOut p)
    (hroom : p.mTotalCount < p.mMaxSize) {attempt : Attempt} {p' : DefaultDbConnectionPool}
    (hcreate : p.create env = (attempt, p')) :
    (∃ driver, attempt = .acquired driver ∧ Balanced (handedOut + 1) p') ∨
      (∃ error, attempt = .failed error) ∧ Balanced handedOut p' := by
  obtain ⟨htotal, hactive, hbounded⟩ := hbalanced
  rw [DefaultDbConnectionPool.create] at hcreate
  split at hcreate
  · obtain ⟨rfl, rfl⟩ := by simpa using hcreate
    exact Or.inr ⟨⟨_, rfl⟩, htotal, hactive, hbounded⟩
  · simp only at hcreate
    split at hcreate
    · obtain ⟨rfl, rfl⟩ := by simpa using hcreate
      refine Or.inl ⟨_, rfl, ?_, ?_, ?_⟩
      · push_cast
        omega
      · push_cast
        omega
      · change p.mTotalCount + 1 ≤ p.mMaxSize
        omega
    · obtain ⟨rfl, rfl⟩ := by simpa using hcreate
      exact Or.inr ⟨⟨_, rfl⟩, htotal, hactive, hbounded⟩

/-- An attempt hands out one driver and counts it, or hands out none. -/
theorem Balanced.acquire {handedOut : Nat} (hbalanced : Balanced handedOut p) {timeoutMs : Int}
    {attempt : Attempt} {p' : DefaultDbConnectionPool}
    (hacquire : p.acquire env timeoutMs = (attempt, p')) :
    (∃ driver, attempt = .acquired driver ∧ Balanced (handedOut + 1) p') ∨
      (∀ driver, attempt ≠ .acquired driver) ∧ Balanced handedOut p' := by
  have htotal := hbalanced.total_eq
  rw [← List.length_reverse] at htotal
  obtain ⟨-, hactive, hbounded⟩ := hbalanced
  rw [DefaultDbConnectionPool.acquire] at hacquire
  split at hacquire <;> rename_i htake <;> obtain ⟨hle, hcases⟩ := takeIdle_spec htotal htake
  · obtain ⟨rfl, rfl⟩ := by simpa using hacquire
    have hrest := (hcases.resolve_left (by simp)).2
    refine Or.inl ⟨_, rfl, ?_, ?_, ?_⟩
    · simp only [List.length_reverse]
      omega
    · simpa using hactive
    · exact hle.trans hbounded
  · obtain ⟨-, rfl, rfl⟩ := hcases.resolve_right (by simp)
    have hdrained : Balanced handedOut
        { p with mIdleConnections := [], mTotalCount := (handedOut : Int) } :=
      ⟨by simpa using hactive.symm, hactive, hle.trans hbounded⟩
    simp only [List.reverse_nil] at hacquire
    split at hacquire
    · rename_i hroom
      obtain hacquired | ⟨⟨error, rfl⟩, hfailed⟩ := hdrained.create hroom hacquire
      · exact Or.inl hacquired
      · exact Or.inr ⟨by simp, hfailed⟩
    · split at hacquire
      · obtain ⟨rfl, rfl⟩ := by simpa using hacquire
        exact Or.inr ⟨by simp, hdrained⟩
      · obtain ⟨rfl, rfl⟩ := by simpa using hacquire
        exact Or.inr ⟨by simp, hdrained⟩

theorem Balanced.release {handedOut : Nat} (hbalanced : Balanced (handedOut + 1) p)
    (driver : Driver) : Balanced handedOut (p.release env (some driver)) := by
  obtain ⟨htotal, hactive, hbounded⟩ := hbalanced
  push_cast at htotal hactive
  have hlower : decremented p.mActiveCount = handedOut := by
    rw [decremented_of_pos (by omega)]
    omega
  simp only [DefaultDbConnectionPool.release]
  split
  · refine ⟨?_, hlower, hbounded⟩
    simp only [hlower, List.length_append, List.length_singleton]
    push_cast
    omega
  · have hpos : 0 < p.mTotalCount := by omega
    refine ⟨?_, hlower, ?_⟩
    · simp only [hlower, decremented_of_pos hpos]
      omega
    · simp only [decremented_of_pos hpos]
      omega

theorem Balanced.addIdle {handedOut : Nat} (hbalanced : Balanced handedOut p)
    (hroom : p.mTotalCount < p.mMaxSize) : Balanced handedOut (p.addIdle env) := by
  obtain ⟨htotal, hactive, hbounded⟩ := hbalanced
  refine ⟨?_, hactive, ?_⟩
  · simp only [DefaultDbConnectionPool.addIdle, List.length_append, List.length_singleton]
    push_cast
    omega
  · simp only [DefaultDbConnectionPool.addIdle]
    omega

theorem sweep_spec {conns : List Driver} {times : List Int} {total : Int} {handedOut : Nat}
    (htotal : total = handedOut + conns.length) :
    (p.sweep env conns times total).2.2 =
        handedOut + (p.sweep env conns times total).1.length ∧
      (p.sweep env conns times total).2.2 ≤ total := by
  induction conns generalizing times total handedOut with
  | nil => simpa [sweep] using htotal
  | cons conn rest ih =>
      rw [List.length_cons] at htotal
      push_cast at htotal
      rw [sweep]
      split
      · rw [decremented_of_pos (by omega)]
        have hrest := @ih times.tail (total - 1) handedOut (by omega)
        omega
      · have hrest := @ih times.tail total (handedOut + 1) (by push_cast; omega)
        rcases hsweep : p.sweep env rest times.tail total with ⟨conns, kept, total'⟩
        rw [hsweep] at hrest
        simp only [List.length_cons]
        push_cast at hrest ⊢
        omega

theorem Balanced.refill {handedOut : Nat} (hbalanced : Balanced handedOut p)
    (hsizes : p.mMinSize ≤ p.mMaxSize) (passes : Nat) : Balanced handedOut (refill env passes p) := by
  induction passes generalizing p with
  | zero => exact hbalanced
  | succ passes ih =>
      rw [DefaultDbConnectionPool.refill]
      split
      · rename_i hbelow
        split
        · exact hbalanced
        · exact @ih (p.addIdle env) (hbalanced.addIdle (hbelow.trans_le hsizes)) hsizes
      · exact hbalanced

theorem Balanced.healthCheck {handedOut : Nat} (hbalanced : Balanced handedOut p)
    (hsizes : p.mMinSize ≤ p.mMaxSize) : Balanced handedOut (p.healthCheck env) := by
  have hsweep := @sweep_spec env p p.mIdleConnections p.mLastUsedTimes p.mTotalCount handedOut
    hbalanced.total_eq
  rw [DefaultDbConnectionPool.healthCheck]
  revert hsweep
  rcases p.sweep env p.mIdleConnections p.mLastUsedTimes p.mTotalCount with ⟨conns, times, total⟩
  rintro ⟨htotal, hle⟩
  have hswept : Balanced handedOut
      { p with mIdleConnections := conns, mLastUsedTimes := times, mTotalCount := total } :=
    ⟨by simpa [hbalanced.active] using htotal, hbalanced.active, hle.trans hbalanced.bounded⟩
  exact hswept.refill hsizes _

/-- The passes of the loop of `initialize` fill the pool up to its least size. -/
theorem Balanced.initializeLoop {handedOut : Nat} (hbalanced : Balanced handedOut p) {passes : Nat}
    (hpasses : p.mTotalCount + passes ≤ p.mMaxSize) :
    Balanced handedOut (initializeLoop env passes p).2 := by
  induction passes generalizing p with
  | zero => exact hbalanced
  | succ passes ih =>
      push_cast at hpasses
      rw [DefaultDbConnectionPool.initializeLoop]
      split
      · exact hbalanced
      · split
        · apply @ih (p.addIdle env) (hbalanced.addIdle (by omega))
          simp only [DefaultDbConnectionPool.addIdle]
          omega
        · exact ⟨hbalanced.total, hbalanced.active, hbalanced.bounded⟩

theorem Balanced.initializePool {handedOut : Nat} (hbalanced : Balanced handedOut p)
    (hsizes : p.mMinSize ≤ p.mMaxSize) : Balanced handedOut (p.initializePool env).2 := by
  have hbounded := hbalanced.bounded
  apply hbalanced.initializeLoop
  omega

section Sizes

variable (env p)

theorem create_sizes :
    (p.create env).2.mMinSize = p.mMinSize ∧ (p.create env).2.mMaxSize = p.mMaxSize := by
  rw [create]
  split
  · exact ⟨rfl, rfl⟩
  · simp only
    split_ifs <;> exact ⟨rfl, rfl⟩

theorem acquire_sizes (timeoutMs : Int) :
    (p.acquire env timeoutMs).2.mMinSize = p.mMinSize ∧
      (p.acquire env timeoutMs).2.mMaxSize = p.mMaxSize := by
  rw [acquire]
  split
  · exact ⟨rfl, rfl⟩
  · simp only
    split_ifs
    · exact create_sizes env _
    · exact ⟨rfl, rfl⟩
    · exact ⟨rfl, rfl⟩

theorem release_sizes (driver : Option Driver) :
    (p.release env driver).mMinSize = p.mMinSize ∧
      (p.release env driver).mMaxSize = p.mMaxSize := by
  cases driver with
  | none => exact ⟨rfl, rfl⟩
  | some driver =>
      simp only [release]
      split_ifs <;> exact ⟨rfl, rfl⟩

theorem refill_sizes (passes : Nat) :
    (refill env passes p).mMinSize = p.mMinSize ∧ (refill env passes p).mMaxSize = p.mMaxSize := by
  induction passes generalizing p with
  | zero => exact ⟨rfl, rfl⟩
  | succ passes ih =>
      rw [refill]
      split
      · split
        · exact ⟨rfl, rfl⟩
        · exact ih (p.addIdle env)
      · exact ⟨rfl, rfl⟩

theorem initializeLoop_sizes (passes : Nat) :
    (initializeLoop env passes p).2.mMinSize = p.mMinSize ∧
      (initializeLoop env passes p).2.mMaxSize = p.mMaxSize := by
  induction passes generalizing p with
  | zero => exact ⟨rfl, rfl⟩
  | succ passes ih =>
      rw [initializeLoop]
      split
      · exact ⟨rfl, rfl⟩
      · split_ifs
        · exact ih (p.addIdle env)
        · exact ⟨rfl, rfl⟩

end Sizes

end DefaultDbConnectionPool

/-! ### Runs -/

namespace PoolUsers

open DefaultDbConnectionPool

variable {s : PoolUsers} {minSize maxSize : Int}

/-- The total is what is handed out and what is idle, and does not exceed the capacity. -/
def Accounted (s : PoolUsers) : Prop := Balanced s.outstanding.length s.pool

structure Sized (minSize maxSize : Int) (s : PoolUsers) : Prop where
  mMinSize : s.pool.mMinSize = minSize
  mMaxSize : s.pool.mMaxSize = maxSize

/-- `closeAll` is called only while nothing is handed out. -/
def ClosesIdle (s : PoolUsers) : PoolOp → Prop
  | .closeAll => s.outstanding = []
  | _ => True

instance (s : PoolUsers) : ∀ op, Decidable (s.ClosesIdle op)
  | .closeAll => inferInstanceAs (Decidable (s.outstanding = []))
  | .acquire _ _ | .wakeUp | .release _ _ | .healthCheck _ | .initializePool _ => isTrue trivial

theorem accounted_closeAll (hmax : 0 ≤ s.pool.mMaxSize) :
    (s.step .closeAll).Accounted ↔ s.outstanding = [] := by
  constructor
  · intro haccounted
    have hactive : (0 : Int) = s.outstanding.length := haccounted.active
    exact List.length_eq_zero_iff.mp (by omega)
  · intro hnil
    refine ⟨rfl, ?_, hmax⟩
    simp [step, closeAll, hnil]

theorem accounted_handOut {reply : Attempt × DefaultDbConnectionPool}
    (hcases : (∃ driver, reply.1 = .acquired driver ∧
        Balanced (s.outstanding.length + 1) reply.2) ∨
      (∀ driver, reply.1 ≠ .acquired driver) ∧ Balanced s.outstanding.length reply.2) :
    (s.handOut reply).Accounted := by
  obtain ⟨attempt, pool⟩ := reply
  obtain ⟨driver, rfl, hbalanced⟩ | ⟨hnone, hbalanced⟩ := hcases
  · rw [Accounted, handOut, List.length_append]
    exact hbalanced
  · cases attempt with
    | acquired driver => exact absurd rfl (hnone driver)
    | failed error => exact hbalanced
    | waits => exact hbalanced

theorem pool_handOut (reply : Attempt × DefaultDbConnectionPool) : (s.handOut reply).pool = reply.2 := by
  obtain ⟨attempt, pool⟩ := reply
  cases attempt <;> rfl

theorem sized_handOut {reply : Attempt × DefaultDbConnectionPool}
    (hsizes : reply.2.mMinSize = minSize ∧ reply.2.mMaxSize = maxSize) :
    (s.handOut reply).Sized minSize maxSize := by
  constructor
  · rw [pool_handOut, hsizes.1]
  · rw [pool_handOut, hsizes.2]

theorem accounted_step (hsizes : s.pool.mMinSize ≤ s.pool.mMaxSize) {op : PoolOp} (howns : s.Owns op)
    (hop : op ≠ .closeAll) (haccounted : s.Accounted) : (s.step op).Accounted := by
  cases op with
  | acquire timeoutMs env => exact accounted_handOut (haccounted.acquire rfl)
  | wakeUp =>
      apply accounted_handOut
      refine Or.inr ⟨?_, haccounted⟩
      intro driver
      rw [wakeUp]
      split_ifs <;> simp
  | release driver env =>
      cases driver with
      | none => exact haccounted
      | some driver =>
          have hlength := List.length_erase_add_one howns
          rw [Accounted, ← hlength] at haccounted
          exact haccounted.release driver
  | healthCheck env => exact haccounted.healthCheck hsizes
  | initializePool env => exact haccounted.initializePool hsizes
  | closeAll => exact absurd rfl hop

theorem sized_step (op : PoolOp) (hsized : s.Sized minSize maxSize) :
    (s.step op).Sized minSize maxSize := by
  obtain ⟨rfl, rfl⟩ := hsized
  cases op with
  | acquire timeoutMs env => exact sized_handOut (acquire_sizes env s.pool timeoutMs)
  | wakeUp => exact sized_handOut ⟨rfl, rfl⟩
  | release driver env =>
      obtain ⟨hmin, hmax⟩ := release_sizes env s.pool driver
      exact ⟨hmin, hmax⟩
  | healthCheck env =>
      obtain ⟨hmin, hmax⟩ := refill_sizes env _ _
      exact ⟨hmin, hmax⟩
  | initializePool env =>
      obtain ⟨hmin, hmax⟩ := initializeLoop_sizes env s.pool _
      exact ⟨hmin, hmax⟩
  | closeAll => exact ⟨rfl, rfl⟩

/-- A step that starts from right accounts ends in right accounts exactly if it is no `closeAll` with
drivers handed out. -/
theorem accounted_step_iff (hsizes : s.pool.mMinSize ≤ s.pool.mMaxSize) (hmax : 0 ≤ s.pool.mMaxSize)
    (op : PoolOp) (howns : s.Owns op) (haccounted : s.Accounted) :
    (s.step op).Accounted ↔ s.ClosesIdle op := by
  cases op with
  | closeAll => exact accounted_closeAll hmax
  | acquire timeoutMs env =>
      exact iff_of_true (accounted_step hsizes howns (by simp) haccounted) trivial
  | wakeUp => exact iff_of_true (accounted_step hsizes howns (by simp) haccounted) trivial
  | release driver env =>
      exact iff_of_true (accounted_step hsizes howns (by simp) haccounted) trivial
  | healthCheck env => exact iff_of_true (accounted_step hsizes howns (by simp) haccounted) trivial
  | initializePool env =>
      exact iff_of_true (accounted_step hsizes howns (by simp) haccounted) trivial

theorem accounted_start_iff : (start minSize maxSize).Accounted ↔ 0 ≤ maxSize := by
  constructor
  · intro haccounted
    exact haccounted.bounded
  · intro hmax
    exact ⟨rfl, rfl, hmax⟩

end PoolUsers

open PoolUsers in
/-- The accounts are right in every state of a run exactly if the capacity is not negative and no
`closeAll` of the run is called while a driver is handed out. -/
theorem accounted_always_iff {minSize maxSize : Int} (hsizes : minSize ≤ maxSize)
    (ops : List PoolOp) (howns : Along step Owns (start minSize maxSize) ops) :
    (∀ n, (run step (start minSize maxSize) (ops.take n)).Accounted) ↔
      0 ≤ maxSize ∧ Along step ClosesIdle (start minSize maxSize) ops := by
  by_cases hmax : 0 ≤ maxSize
  · rw [and_iff_right hmax]
    apply always_iff_along howns (⟨rfl, rfl⟩ : (start minSize maxSize).Sized minSize maxSize)
      (accounted_start_iff.mpr hmax)
    · intro s op hsized _
      exact sized_step op hsized
    · intro s op hsized hop haccounted
      obtain ⟨rfl, rfl⟩ := hsized
      exact accounted_step_iff hsizes hmax op hop haccounted
  · constructor
    · intro halways
      exact absurd (accounted_start_iff.mp (halways 0)) hmax
    · intro hcond
      exact absurd hcond.1 hmax

/-- Two drivers are handed out and come back, one of them broken, before the pool is closed. -/
def orderlyPool : List PoolOp :=
  [.initializePool {}, .acquire 0 {}, .acquire 0 {}, .release (some 1) {},
    .release (some 0) { isConnected := fun _ => false }, .healthCheck {}, .closeAll]

open PoolUsers in
theorem accounted_always_iff_orderlyPool :
    Along step Owns (start 1 2) orderlyPool ∧
      ∀ n, (run step (start 1 2) (orderlyPool.take n)).Accounted := by
  have howns : Along step Owns (start 1 2) orderlyPool := by decide
  exact ⟨howns, (accounted_always_iff (by decide) orderlyPool howns).mpr (by decide)⟩

open PoolUsers in
/-- A driver is handed out while the pool is closed, and comes back. -/
theorem closed_while_handed_out :
    let closed := run step (start 2 10) [.acquire 0 {}, .closeAll]
    let returned := closed.step (.release (some 0) {})
    closed.outstanding.length = 1 ∧ closed.pool.mActiveCount = 0 ∧
      returned.pool.mTotalCount = 0 ∧ returned.pool.mActiveCount = 0 ∧
      returned.pool.mIdleConnections.length = 1 ∧ ¬ closed.Accounted ∧ ¬ returned.Accounted := by
  refine ⟨by decide, by decide, by decide, by decide, by decide, ?_, ?_⟩
  · intro haccounted
    exact absurd haccounted.active (by decide)
  · intro haccounted
    exact absurd haccounted.total (by decide)

end SoulCoreKit.Data
