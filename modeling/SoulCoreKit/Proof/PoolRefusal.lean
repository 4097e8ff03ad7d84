import SoulCoreKit.Proof.PoolCapacity

/-!
# When the connection pool refuses

A call waits where the pool is full, and full counts every entry: also an idle one whose connection has
dropped, which nothing makes room of, and an idle one of another key, which the call cannot use. Such
entries are stranded. One caller alone is refused with less than the capacity in use exactly where the
pool is full and all its idle entries, of which there are some, are stranded.
-/

namespace SoulCoreKit.Network

open ConnectionEntry ConnectionPool

namespace ConnectionPool

variable {env : PoolEnvironment} {p : ConnectionPool} {key : String}

/-- There is an idle entry of the key whose connection is connected. -/
def hasUsable (p : ConnectionPool) (env : PoolEnvironment) (key : String) : Bool :=
  ((p.mPools.lookup key).getD []).any (isUsable env)

/-- The entries of all keys are as many as configured. -/
def IsFull (p : ConnectionPool) : Prop := p.mConfig.maxConnections ≤ p.countTotalLocked

instance : Decidable p.IsFull := inferInstanceAs (Decidable (_ ≤ _))

theorem tryAcquireFromPool_eq_none_iff (pool : List ConnectionEntry) :
    tryAcquireFromPool env pool = none ↔ pool.any (isUsable env) = false := by
  cases hfind : pool.find? (isUsable env) with
  | none =>
      have hnone : pool.any (isUsable env) = false := by simpa using hfind
      exact iff_of_true (by simp [tryAcquireFromPool, hfind]) hnone
  | some entry =>
      have husable : isUsable env entry = true := List.find?_some hfind
      have hany : pool.any (isUsable env) = true :=
        List.any_eq_true.mpr ⟨entry, List.mem_of_find?_eq_some hfind, husable⟩
      obtain ⟨connection, hconnection, -⟩ : ∃ connection, entry.connection = some connection ∧
          env.isConnected connection = true := by
        simpa [isUsable, Option.any_eq_true] using (Bool.and_eq_true_iff.mp husable).2
      simp [tryAcquireFromPool, hfind, hconnection, hany]

/-! ### What `acquire` comes to -/

theorem acquire_of_usable (husable : p.hasUsable env key = true) :
    ∃ connection pool, tryAcquireFromPool env ((p.mPools.lookup key).getD []) = some (connection, pool) ∧
      p.acquire env key = (.acquired connection, p.setPool key pool) := by
  obtain ⟨⟨connection, pool⟩, htry⟩ : ∃ taken,
      tryAcquireFromPool env ((p.mPools.lookup key).getD []) = some taken := by
    apply Option.ne_none_iff_exists'.mp
    rw [Ne, tryAcquireFromPool_eq_none_iff, Bool.not_eq_false]
    exact husable
  refine ⟨connection, pool, htry, ?_⟩
  unfold ConnectionPool.acquire
  simp only [htry]

theorem acquire_of_full (husable : p.hasUsable env key = false) (hfull : p.IsFull) :
    p.acquire env key = (.waits, p.setPool key ((p.mPools.lookup key).getD [])) := by
  have htry := (tryAcquireFromPool_eq_none_iff ((p.mPools.lookup key).getD [])).mpr husable
  unfold ConnectionPool.acquire
  simp only [htry]
  rw [if_pos]
  rw [countTotalLocked_setPool_self]
  exact hfull

theorem acquire_of_room (husable : p.hasUsable env key = false) (hroom : ¬ p.IsFull) :
    p.acquire env key =
      (.creates, (p.setPool key ((p.mPools.lookup key).getD [])).setPool key
        ((p.mPools.lookup key).getD [] ++ [placeholder])) := by
  have htry := (tryAcquireFromPool_eq_none_iff ((p.mPools.lookup key).getD [])).mpr husable
  unfold ConnectionPool.acquire
  simp only [htry]
  rw [if_neg]
  rw [countTotalLocked_setPool_self]
  exact hroom

/-- The creation fills the placeholder that was reserved for it. -/
theorem acquireCreated_of_reserved (pool : List ConnectionEntry) (connection : Connection) :
    (p.setPool key (pool ++ [placeholder])).acquireCreated env key (some connection) =
      (some connection, (p.setPool key (pool ++ [placeholder])).setPool key
        (changeFirst isPlaceholder (filled env connection) (pool ++ [placeholder]))) := by
  have hany : (pool ++ [placeholder]).any isPlaceholder = true := by simp [isPlaceholder, placeholder]
  unfold acquireCreated
  rw [lookup_setPool]
  exact if_pos hany

theorem countTotalLocked_reserved :
    ((p.setPool key ((p.mPools.lookup key).getD [])).setPool key
      ((p.mPools.lookup key).getD [] ++ [placeholder])).countTotalLocked = p.countTotalLocked + 1 := by
  have hreserved := @countTotalLocked_setPool (p.setPool key ((p.mPools.lookup key).getD [])) key
    ((p.mPools.lookup key).getD [] ++ [placeholder])
  rw [lookup_setPool, Option.getD_some, countTotalLocked_setPool_self, List.length_append,
    List.length_singleton] at hreserved
  omega

theorem countTotalLocked_filled (pool : List ConnectionEntry) (connection : Connection) :
    ((p.setPool key pool).setPool key
      (changeFirst isPlaceholder (filled env connection) pool)).countTotalLocked =
        (p.setPool key pool).countTotalLocked := by
  have hfilled := @countTotalLocked_setPool (p.setPool key pool) key
    (changeFirst isPlaceholder (filled env connection) pool)
  rw [lookup_setPool, Option.getD_some, length_changeFirst] at hfilled
  omega

theorem countActiveLocked_eq : p.countActiveLocked = p.tally ConnectionEntry.inUse := rfl

/-- The idle entries of all keys meet the condition. -/
def AllIdle (p : ConnectionPool) (cond : String → ConnectionEntry → Prop) : Prop :=
  ∀ key ∈ p.mPools.keys, ∀ entry ∈ (p.mPools.lookup key).getD [], entry.inUse = false → cond key entry

instance (p : ConnectionPool) (cond : String → ConnectionEntry → Prop)
    [∀ key entry, Decidable (cond key entry)] : Decidable (p.AllIdle cond) :=
  inferInstanceAs (Decidable (∀ key ∈ p.mPools.keys, ∀ entry ∈ (p.mPools.lookup key).getD [],
    entry.inUse = false → cond key entry))

/-- An idle entry that a call for the key cannot use: it belongs to another key, or its connection has
dropped. -/
def Stranded (env : PoolEnvironment) (key other : String) (entry : ConnectionEntry) : Prop :=
  other ≠ key ∨ entry.connection.any env.isConnected = false

instance (env : PoolEnvironment) (key other : String) (entry : ConnectionEntry) :
    Decidable (Stranded env key other entry) :=
  inferInstanceAs (Decidable (_ ∨ _))

theorem allIdle_iff {cond : String → ConnectionEntry → Prop} :
    p.AllIdle cond ↔ ∀ key pool, p.mPools.lookup key = some pool →
      ∀ entry ∈ pool, entry.inUse = false → cond key entry := by
  constructor
  · intro hall key pool hlookup entry hentry
    refine hall key (Finmap.mem_keys.mpr (Finmap.mem_of_lookup_eq_some hlookup)) entry ?_
    rwa [hlookup]
  · intro hall key _ entry hentry
    cases hlookup : p.mPools.lookup key with
    | none => simp [hlookup] at hentry
    | some pool =>
        rw [hlookup] at hentry
        exact hall key pool hlookup entry hentry

/-- A call finds no usable entry exactly if every idle entry is stranded. -/
theorem hasUsable_eq_false_iff : p.hasUsable env key = false ↔ p.AllIdle (Stranded env key) := by
  rw [allIdle_iff]
  unfold hasUsable
  constructor
  · intro hnone other pool hlookup entry hentry hidle
    by_cases hkey : other = key
    · subst hkey
      rw [hlookup, Option.getD_some, List.any_eq_false] at hnone
      have hunusable := hnone entry hentry
      rw [isUsable, hidle, Bool.not_false, Bool.true_and, Bool.not_eq_true] at hunusable
      exact Or.inr hunusable
    · exact Or.inl hkey
  · intro hall
    rw [List.any_eq_false]
    intro entry hentry husable
    obtain ⟨hidle, hconnected⟩ := Bool.and_eq_true_iff.mp husable
    cases hlookup : p.mPools.lookup key with
    | none => simp [hlookup] at hentry
    | some pool =>
        rw [hlookup] at hentry
        have hstranded := hall key pool hlookup entry hentry ((Bool.not_eq_true' _).mp hidle)
        rcases hstranded with hother | hdropped
        · exact hother rfl
        · rw [hconnected] at hdropped
          cases hdropped

/-- The entries are those in use and the idle ones. -/
theorem countActiveLocked_add_idleCount : p.countActiveLocked + p.idleCount = p.countTotalLocked := by
  have hle : p.countActiveLocked ≤ p.countTotalLocked := by
    apply UnorderedMap.total_le_total
    intro key pool _
    exact List.countP_le_length
  unfold idleCount
  omega

theorem idleCount_eq_zero_iff : p.idleCount = 0 ↔ p.AllIdle fun _ _ => False := by
  have hcount := @countActiveLocked_add_idleCount p
  have hsame : p.idleCount = 0 ↔ p.countActiveLocked = p.countTotalLocked := by omega
  rw [hsame, allIdle_iff]
  unfold countActiveLocked countTotalLocked
  rw [UnorderedMap.total_eq_total_iff fun _ _ _ => List.countP_le_length]
  refine forall_congr' fun key => forall_congr' fun pool => imp_congr_right fun _ => ?_
  rw [List.countP_eq_length]
  exact forall_congr' fun entry => imp_congr_right fun _ => by cases entry.inUse <;> simp

end ConnectionPool

namespace PoolCaller

variable {s : PoolCaller} {key : String} {env created : PoolEnvironment} {woken : Option PoolEnvironment}

/-! ### The calls -/

theorem acquireWoken_eq_none_iff (pool : List ConnectionEntry) :
    ((s.pool.setPool key pool).acquireWoken env key false).1 = none ↔ pool.any (isUsable env) = false := by
  rw [← tryAcquireFromPool_eq_none_iff]
  unfold acquireWoken
  rw [if_neg Bool.false_ne_true, lookup_setPool]
  simp only
  cases htry : tryAcquireFromPool env pool with
  | none => simp
  | some taken => simp

/-- The call returns null exactly if there is no usable entry at its first look, the pool is full, and
there is none at the second look either, if it takes one. -/
theorem acquire_eq_none_iff :
    (s.acquire key env woken created).1 = none ↔
      s.pool.hasUsable env key = false ∧ s.pool.IsFull ∧
        ∀ env' ∈ woken, s.pool.hasUsable env' key = false := by
  unfold PoolCaller.acquire
  cases husable : s.pool.hasUsable env key with
  | true =>
      obtain ⟨connection, pool, -, hacquire⟩ := acquire_of_usable husable
      rw [hacquire]
      simp
  | false =>
      by_cases hfull : s.pool.IsFull
      · rw [acquire_of_full husable hfull]
        cases woken with
        | none => simp [hfull]
        | some env' =>
            simp only [acquireWoken_eq_none_iff, Option.mem_some_iff, forall_eq', hfull, true_and]
            exact Iff.rfl
      · rw [acquire_of_room husable hfull]
        simp only [acquireCreated_of_reserved]
        simp [hfull]

/-- A pool that one caller uses never has more entries than configured. -/
def Bounded (s : PoolCaller) : Prop := s.pool.countTotalLocked ≤ s.pool.mConfig.maxConnections.toNat

theorem pool_woken (env : PoolEnvironment) (key : String) (timedOut : Bool) :
    let waiting := s.pool.setPool key ((s.pool.mPools.lookup key).getD [])
    (waiting.acquireWoken env key timedOut).2.mConfig = s.pool.mConfig ∧
      (waiting.acquireWoken env key timedOut).2.countTotalLocked = s.pool.countTotalLocked := by
  intro waiting
  rcases hwoken : waiting.acquireWoken env key timedOut with ⟨returned, pool⟩
  exact ⟨(mConfig_woken hwoken).trans (mConfig_setPool _),
    (countTotalLocked_woken hwoken).trans countTotalLocked_setPool_self⟩

/-- A call adds an entry only where the pool is not full. -/
theorem pool_acquire :
    (s.acquire key env woken created).2.pool.mConfig = s.pool.mConfig ∧
      ((s.acquire key env woken created).2.pool.countTotalLocked = s.pool.countTotalLocked ∨
        ¬ s.pool.IsFull ∧
          (s.acquire key env woken created).2.pool.countTotalLocked = s.pool.countTotalLocked + 1) := by
  unfold PoolCaller.acquire
  cases husable : s.pool.hasUsable env key with
  | true =>
      obtain ⟨connection, pool, htry, hacquire⟩ := acquire_of_usable husable
      rw [hacquire]
      exact ⟨rfl, Or.inl (countTotalLocked_tried htry)⟩
  | false =>
      by_cases hfull : s.pool.IsFull
      · rw [acquire_of_full husable hfull]
        cases woken with
        | none => exact ⟨(pool_woken env key true).1, Or.inl (pool_woken env key true).2⟩
        | some env' => exact ⟨(pool_woken env' key false).1, Or.inl (pool_woken env' key false).2⟩
      · rw [acquire_of_room husable hfull]
        simp only [acquireCreated_of_reserved, countTotalLocked_filled, countTotalLocked_reserved]
        exact ⟨rfl, Or.inr ⟨hfull, trivial⟩⟩

theorem Bounded.acquire (hbounded : s.Bounded) : (s.acquire key env woken created).2.Bounded := by
  obtain ⟨hconfig, hcount⟩ := @pool_acquire s key env created woken
  unfold Bounded at hbounded ⊢
  unfold IsFull at hcount
  rw [hconfig]
  omega

theorem bounded_step (s : PoolCaller) (call : PoolCall) (hbounded : s.Bounded) : (s.step call).Bounded := by
  cases call with
  | acquire key env woken created => exact hbounded.acquire
  | release connection env =>
      unfold Bounded at hbounded ⊢
      simp only [step, countTotalLocked_release, mConfig_release]
      exact hbounded
  | cleanupIdleConnections env =>
      unfold Bounded at hbounded ⊢
      simp only [step, mConfig_cleanup]
      exact countTotalLocked_cleanup_le.trans hbounded

/-! ### Refusals -/

/-- A call that returns null has had all the connections in use for its wait. -/
def RefusesFull (s : PoolCaller) : PoolCall → Prop
  | .acquire key env woken created =>
      (s.acquire key env woken created).1 = none →
        s.pool.mConfig.maxConnections ≤ (s.pool.acquire env key).2.countActiveLocked
  | _ => True

instance (s : PoolCaller) : ∀ call, Decidable (s.RefusesFull call)
  | .acquire _ _ _ _ => inferInstanceAs (Decidable (_ → _))
  | .release _ _ | .cleanupIdleConnections _ => isTrue trivial

/-- A call made while the pool is full finds no idle entry stranded. -/
def NoneStranded (s : PoolCaller) : PoolCall → Prop
  | .acquire key env _ _ =>
      s.pool.IsFull → s.pool.AllIdle fun other entry => ¬ Stranded env key other entry
  | _ => True

instance (s : PoolCaller) : ∀ call, Decidable (s.NoneStranded call)
  | .acquire _ _ _ _ => inferInstanceAs (Decidable (_ → _))
  | .release _ _ | .cleanupIdleConnections _ => isTrue trivial

/-- What is neither stranded nor usable is in use. -/
theorem refusesFull_of_noneStranded {call : PoolCall} (hnone : s.NoneStranded call) :
    s.RefusesFull call := by
  cases call with
  | release connection env => trivial
  | cleanupIdleConnections env => trivial
  | acquire key env woken created =>
      intro hnull
      obtain ⟨husable, hfull, -⟩ := acquire_eq_none_iff.mp hnull
      have hstranded := hasUsable_eq_false_iff.mp husable
      have hidle : s.pool.AllIdle fun _ _ => False := fun other hother entry hentry hnot =>
        hnone hfull other hother entry hentry hnot (hstranded other hother entry hentry hnot)
      have hcount := @countActiveLocked_add_idleCount s.pool
      rw [idleCount_eq_zero_iff.mpr hidle, Nat.add_zero] at hcount
      rw [acquire_of_full husable hfull, countActiveLocked_eq, tally_setPool_self,
        ← countActiveLocked_eq, hcount]
      exact hfull

/-- A call is refused with room exactly if the pool is full, some entry is idle, and all idle entries
are stranded, when the call first looks and when it wakes. -/
theorem not_refusesFull_iff (hbounded : s.Bounded) :
    ¬ s.RefusesFull (.acquire key env woken created) ↔
      s.pool.IsFull ∧ 0 < s.pool.idleCount ∧
        ∀ env' ∈ env :: woken.toList, s.pool.AllIdle (Stranded env' key) := by
  have hlooks : (∀ env' ∈ env :: woken.toList, s.pool.AllIdle (Stranded env' key)) ↔
      s.pool.hasUsable env key = false ∧ ∀ env' ∈ woken, s.pool.hasUsable env' key = false := by
    simp only [List.mem_cons, forall_eq_or_imp, Option.mem_toList, hasUsable_eq_false_iff]
    exact Iff.rfl
  have hcount := @countActiveLocked_add_idleCount s.pool
  rw [hlooks]
  change ¬ ((s.acquire key env woken created).1 = none → _) ↔ _
  rw [acquire_eq_none_iff, Classical.not_imp, not_le]
  unfold Bounded at hbounded
  constructor
  · rintro ⟨⟨husable, hfull, hwoken⟩, hactive⟩
    rw [acquire_of_full husable hfull, countActiveLocked_eq, tally_setPool_self,
      ← countActiveLocked_eq] at hactive
    refine ⟨hfull, ?_, husable, hwoken⟩
    unfold IsFull at hfull
    omega
  · rintro ⟨hfull, hidle, husable, hwoken⟩
    refine ⟨⟨husable, hfull, hwoken⟩, ?_⟩
    rw [acquire_of_full husable hfull, countActiveLocked_eq, tally_setPool_self,
      ← countActiveLocked_eq]
    omega

theorem bounded_start (config : ConnectionPoolConfig) : (start config).Bounded := by
  unfold Bounded start countTotalLocked
  rw [UnorderedMap.total_empty]
  exact Nat.zero_le _

end PoolCaller

open PoolCaller in
/-- Along a history of one caller in which no call meets a stranded entry in a full pool, a call is
refused only with all the connections in use. After any history, the next call is refused with room
exactly if it finds the pool full, some entry idle and all idle entries stranded. -/
theorem refusesFull_of_noneStranded_run (config : ConnectionPoolConfig) (calls : List PoolCall) :
    (Along step NoneStranded (start config) calls → Along step RefusesFull (start config) calls) ∧
      ∀ key env woken created,
        let s := run step (start config) calls
        ¬ s.RefusesFull (.acquire key env woken created) ↔
          s.pool.IsFull ∧ 0 < s.pool.idleCount ∧
            ∀ env' ∈ env :: woken.toList, s.pool.AllIdle (Stranded env' key) := by
  constructor
  · intro hnone
    exact hnone.of_invariant (I := fun _ => True) trivial (fun _ _ _ _ => trivial)
      fun s call _ hcall => s.refusesFull_of_noneStranded hcall
  · intro key env woken created s
    have hbounded : s.Bounded := run_induction (bounded_start config) bounded_step calls
    exact s.not_refusesFull_iff hbounded

/-- A connection that is given back and taken again before a second call for it is refused. -/
def reusingRun : List PoolCall :=
  [.acquire "a" {} none {}, .release 0 { order := ["a"] }, .acquire "a" {} none {},
    .acquire "a" {} none {}]

open PoolCaller in
theorem refusesFull_of_noneStranded_reusingRun :
    let s := run step (start { maxConnections := 1 }) (reusingRun.take 3)
    (s.acquire "a" {} none {}).1 = none ∧ 1 ≤ ((s.pool.acquire {} "a").2.countActiveLocked : Int) := by
  intro s
  have hrefuses := (refusesFull_of_noneStranded_run { maxConnections := 1 } reusingRun).1
    (by decide +kernel)
  have hnull : (s.acquire "a" {} none {}).1 = none := by decide +kernel
  exact ⟨hnull, hrefuses.getElem? (n := 3) rfl hnull⟩

open PoolCaller in
/-- The only connection is released and then lost, and the next call for its key is refused with nothing
in use. So is a call for another key. -/
theorem refuses_idle :
    ¬ Along step RefusesFull (start { maxConnections := 1 })
        [.acquire "a" {} none {}, .release 0 { order := ["a"] },
          .acquire "a" { isConnected := fun _ => false } none {}] ∧
      ¬ Along step RefusesFull (start { maxConnections := 1 })
        [.acquire "a" {} none {}, .release 0 { order := ["a"] }, .acquire "b" {} none {}] := by
  decide +kernel

end SoulCoreKit.Network
