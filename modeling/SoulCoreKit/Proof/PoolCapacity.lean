import SoulCoreKit.Proof.PoolExclusivity

/-!
# The capacity of the connection pool

The capacity is tested before a placeholder is reserved, and a creation fills a placeholder later. A
creation that finds its pool without one adds an entry without a test: then the pool exceeds its
capacity exactly if it was full. It takes a `closeAll` during a creation to get there, since otherwise
there is a placeholder in the pool of a key for every creation under way for it.
-/

namespace SoulCoreKit.Network

open ConnectionEntry ConnectionPool

namespace PoolThreads

variable {s : PoolThreads} {config : ConnectionPoolConfig}

/-- The pools together hold no more entries than configured. -/
def WithinCapacity (s : PoolThreads) : Prop :=
  (s.pool.countTotalLocked : Int) ≤ s.pool.mConfig.maxConnections

instance (s : PoolThreads) : Decidable s.WithinCapacity := inferInstanceAs (Decidable (_ ≤ _))

/-- A creation that succeeds finds a placeholder, or its pool gone, or room for one more entry. -/
def FindsRoom (s : PoolThreads) : PoolLabel → Prop
  | .created _ key true _ =>
      match s.pool.mPools.lookup key with
      | none => True
      | some pool =>
          pool.any isPlaceholder = true ∨
            (s.pool.countTotalLocked : Int) < s.pool.mConfig.maxConnections
  | _ => True

/-- `closeAll` is called only while no connection is being created. -/
def ClosesQuiet (s : PoolThreads) : PoolLabel → Prop
  | .closeAll => s.creating = []
  | _ => True

instance (s : PoolThreads) : ∀ label, Decidable (s.FindsRoom label)
  | .created _ key true _ =>
      match hlookup : s.pool.mPools.lookup key with
      | none => isTrue (by simp [FindsRoom, hlookup])
      | some pool =>
          decidable_of_iff
            (pool.any isPlaceholder = true ∨
              (s.pool.countTotalLocked : Int) < s.pool.mConfig.maxConnections)
            (by simp [FindsRoom, hlookup])
  | .created _ _ false _ | .acquire _ _ _ | .woken _ _ _ _ | .release _ _ _
  | .cleanupIdleConnections _ | .closeAll => isTrue trivial

instance (s : PoolThreads) : ∀ label, Decidable (s.ClosesQuiet label)
  | .closeAll => inferInstanceAs (Decidable (s.creating = []))
  | .created _ _ _ _ | .acquire _ _ _ | .woken _ _ _ _ | .release _ _ _
  | .cleanupIdleConnections _ => isTrue trivial

end PoolThreads

/-! ### The number of entries -/

namespace ConnectionPool

variable {env : PoolEnvironment} {p : ConnectionPool} {key : String} {connection : Connection}

theorem countTotalLocked_setPool (pool : List ConnectionEntry) :
    (p.setPool key pool).countTotalLocked + ((p.mPools.lookup key).getD []).length =
      p.countTotalLocked + pool.length := by
  have hset := @tally_setPool p (fun _ => true) key pool
  simpa [countTotalLocked_eq] using hset

theorem countTotalLocked_setPool_self :
    (p.setPool key ((p.mPools.lookup key).getD [])).countTotalLocked = p.countTotalLocked := by
  have hset := @countTotalLocked_setPool p key ((p.mPools.lookup key).getD [])
  omega

theorem countTotalLocked_tried {pool' : List ConnectionEntry}
    (htry : tryAcquireFromPool env ((p.mPools.lookup key).getD []) = some (connection, pool')) :
    (p.setPool key pool').countTotalLocked = p.countTotalLocked := by
  obtain ⟨entry, -, -, hcount⟩ := tryAcquireFromPool_spec htry
  have hlength := hcount fun _ => true
  have hset := @countTotalLocked_setPool p key pool'
  simp only [List.countP_true, List.length_singleton] at hlength
  omega

/-- Only a creation can exceed the capacity. -/
theorem countTotalLocked_acquire {entered : Entered} {p' : ConnectionPool}
    (hacquire : p.acquire env key = (entered, p')) :
    p'.countTotalLocked ≤ p.countTotalLocked ∨
      (p'.countTotalLocked : Int) ≤ p.mConfig.maxConnections := by
  obtain ⟨connection, pool', -, htry, rfl⟩ | ⟨-, rfl⟩ | ⟨-, hroom, rfl⟩ := acquire_cases hacquire
  · exact Or.inl (countTotalLocked_tried htry).le
  · exact Or.inl countTotalLocked_setPool_self.le
  · have hset := @countTotalLocked_setPool (p.setPool key ((p.mPools.lookup key).getD [])) key
      ((p.mPools.lookup key).getD [] ++ [placeholder])
    rw [lookup_setPool, Option.getD_some, countTotalLocked_setPool_self, List.length_append,
      List.length_singleton] at hset
    exact Or.inr (by omega)

theorem countTotalLocked_woken {timedOut : Bool} {returned : Option Connection} {p' : ConnectionPool}
    (hwoken : p.acquireWoken env key timedOut = (returned, p')) :
    p'.countTotalLocked = p.countTotalLocked := by
  obtain ⟨-, rfl⟩ | ⟨connection, pool', -, htry, rfl⟩ := acquireWoken_cases hwoken
  · rfl
  · exact countTotalLocked_tried htry

theorem countTotalLocked_release (connection : Connection) :
    (p.release env connection).countTotalLocked = p.countTotalLocked := by
  obtain hsame | ⟨key, entry, -, hrelease⟩ := @release_cases env p connection
  · rw [hsame]
  · have hset := @countTotalLocked_setPool p key
      (changeFirst (holds connection) (returned env) ((p.mPools.lookup key).getD []))
    rw [length_changeFirst] at hset
    rw [hrelease]
    omega

theorem countTotalLocked_cleanup_le :
    (p.cleanupIdleConnections env).countTotalLocked ≤ p.countTotalLocked := by
  rw [countTotalLocked_eq, countTotalLocked_eq]
  exact tally_cleanupIdleConnections_le

/-! ### The configuration stays -/

@[simp]
theorem mConfig_setPool (pool : List ConnectionEntry) : (p.setPool key pool).mConfig = p.mConfig := rfl

theorem mConfig_acquire {entered : Entered} {p' : ConnectionPool}
    (hacquire : p.acquire env key = (entered, p')) : p'.mConfig = p.mConfig := by
  obtain ⟨_, _, -, -, rfl⟩ | ⟨-, rfl⟩ | ⟨-, -, rfl⟩ := acquire_cases hacquire
  · rfl
  · rfl
  · rfl

theorem mConfig_woken {timedOut : Bool} {returned : Option Connection} {p' : ConnectionPool}
    (hwoken : p.acquireWoken env key timedOut = (returned, p')) : p'.mConfig = p.mConfig := by
  obtain ⟨-, rfl⟩ | ⟨_, _, -, -, rfl⟩ := acquireWoken_cases hwoken
  · rfl
  · rfl

theorem mConfig_created {network returned : Option Connection} {p' : ConnectionPool}
    (hcreated : p.acquireCreated env key network = (returned, p')) : p'.mConfig = p.mConfig := by
  obtain ⟨-, ⟨-, rfl⟩ | ⟨pool, -, ⟨-, rfl⟩ | ⟨_, -, -, rfl⟩ | ⟨_, -, -, rfl⟩⟩⟩ :=
    acquireCreated_cases hcreated
  · rfl
  · rfl
  · rfl
  · rfl

theorem mConfig_release : (p.release env connection).mConfig = p.mConfig := by
  obtain hsame | ⟨_, _, -, hrelease⟩ := @release_cases env p connection
  · rw [hsame]
  · rw [hrelease, mConfig_setPool]

theorem mConfig_cleanup : (p.cleanupIdleConnections env).mConfig = p.mConfig := by
  rw [cleanupIdleConnections]
  induction env.order generalizing p with
  | nil => rfl
  | cons key keys ih =>
      rw [List.foldl_cons, ih, cleanupPool]
      split <;> rfl

end ConnectionPool

/-! ### Placeholders -/

namespace ConnectionPool

variable {env : PoolEnvironment} {p : ConnectionPool} {key other : String} {connection : Connection}

/-- The placeholders in the pool of a key. -/
def reserved (p : ConnectionPool) (key : String) : Nat :=
  ((p.mPools.lookup key).getD []).countP isPlaceholder

theorem reserved_setPool (pool : List ConnectionEntry) :
    (p.setPool key pool).reserved other =
      if other = key then pool.countP isPlaceholder else p.reserved other := by
  split_ifs with heq
  · subst heq
    rw [reserved, lookup_setPool, Option.getD_some]
  · rw [reserved, reserved, setPool, Finmap.lookup_insert_of_ne _ heq]

theorem reserved_setPool_of_eq {pool : List ConnectionEntry}
    (hcount : pool.countP isPlaceholder = p.reserved key) :
    (p.setPool key pool).reserved other = p.reserved other := by
  rw [reserved_setPool]
  split_ifs with heq
  · rw [hcount, heq]
  · rfl

theorem isPlaceholder_of_connection {entry : ConnectionEntry}
    (hconnection : entry.connection = some connection) : isPlaceholder entry = false := by
  simp [isPlaceholder, hconnection]

theorem reserved_tried {pool' : List ConnectionEntry}
    (htry : tryAcquireFromPool env ((p.mPools.lookup key).getD []) = some (connection, pool')) :
    (p.setPool key pool').reserved other = p.reserved other := by
  obtain ⟨entry, hconnection, -, hcount⟩ := tryAcquireFromPool_spec htry
  have hplaceholder := hcount isPlaceholder
  rw [List.countP_singleton, List.countP_singleton, isPlaceholder_of_connection hconnection,
    @isPlaceholder_of_connection connection (taken env entry) hconnection] at hplaceholder
  exact reserved_setPool_of_eq hplaceholder

theorem reserved_release : (p.release env connection).reserved other = p.reserved other := by
  obtain hsame | ⟨key, entry, hfind, hrelease⟩ := @release_cases env p connection
  · rw [hsame]
  · have hconnection : entry.connection = some connection := by
      simpa [holds] using List.find?_some hfind
    have hcount := @countP_changeFirst _ isPlaceholder (returned env) _ _ hfind
    rw [List.countP_singleton, List.countP_singleton, isPlaceholder_of_connection hconnection,
      @isPlaceholder_of_connection connection (returned env entry) hconnection] at hcount
    rw [hrelease]
    exact reserved_setPool_of_eq hcount

theorem reserved_cleanup : (p.cleanupIdleConnections env).reserved other = p.reserved other := by
  rw [cleanupIdleConnections]
  induction env.order generalizing p with
  | nil => rfl
  | cons key keys ih =>
      rw [List.foldl_cons, ih, cleanupPool]
      split
      · rfl
      · rename_i pool hlookup
        apply reserved_setPool_of_eq
        rw [reserved, hlookup, Option.getD_some, List.countP_filter]
        apply List.countP_congr
        intro entry _
        simp only [isPlaceholder, isExpired, Bool.and_eq_true]
        constructor
        · exact fun hboth => hboth.1
        · intro hplaceholder
          exact ⟨hplaceholder, by simp [hplaceholder.1]⟩

theorem reserved_created {network returned : Option Connection} {p' : ConnectionPool}
    (hcreated : p.acquireCreated env key network = (returned, p')) :
    p.reserved other ≤ p'.reserved other + (if other = key then 1 else 0) := by
  obtain ⟨-, ⟨-, rfl⟩ | ⟨pool, hlookup, hcases⟩⟩ := acquireCreated_cases hcreated
  · omega
  · have hreserved : p.reserved key = pool.countP isPlaceholder := by
      rw [reserved, hlookup, Option.getD_some]
    have hset : ∀ pool' : List ConnectionEntry,
        pool.countP isPlaceholder ≤ pool'.countP isPlaceholder + 1 →
          p.reserved other ≤ (p.setPool key pool').reserved other + (if other = key then 1 else 0) := by
      intro pool' hle
      rw [reserved_setPool]
      split_ifs with heq
      · rw [heq, hreserved]
        exact hle
      · exact le_rfl
    obtain ⟨-, rfl⟩ | ⟨connection, -, hany, rfl⟩ | ⟨connection, -, -, rfl⟩ := hcases
    · apply hset
      by_cases hmem : ∃ entry ∈ pool, isPlaceholder entry = true
      · obtain ⟨entry, hentry, hplaceholder⟩ := hmem
        obtain ⟨_, first, second, -, -, hpool, herase⟩ := List.exists_of_eraseP hentry hplaceholder
        rw [herase, hpool, List.countP_append, List.countP_append, List.countP_cons]
        split_ifs <;> omega
      · rw [List.eraseP_of_forall_not (by simpa using hmem)]
        omega
    · apply hset
      obtain ⟨entry, hfind⟩ := exists_find?_of_any hany
      have hcount := @countP_changeFirst _ isPlaceholder (filled env connection) _ _ hfind
      have hone : [entry].countP isPlaceholder ≤ 1 := List.countP_le_length
      omega
    · apply hset
      rw [List.countP_append]
      omega

end ConnectionPool

/-! ### Runs -/

namespace PoolThreads

variable {s : PoolThreads} {label : PoolLabel}

theorem pool_enter (thread : Nat) (key : String) (entered : Entered) :
    (s.enter thread key entered).pool = s.pool := by
  cases entered <;> rfl

theorem mConfig_step (s : PoolThreads) (label : PoolLabel) :
    (s.step label).pool.mConfig = s.pool.mConfig := by
  cases label with
  | acquire thread key env =>
      rcases hacquire : s.pool.acquire env key with ⟨entered, p'⟩
      simp only [step, hacquire, pool_enter]
      exact mConfig_acquire hacquire
  | woken thread key timedOut env => exact mConfig_woken rfl
  | created thread key succeeds env => exact mConfig_created rfl
  | release thread connection env => exact mConfig_release
  | cleanupIdleConnections env => exact mConfig_cleanup
  | closeAll => rfl

theorem withinCapacity_of_le (hwithin : s.WithinCapacity)
    (hle : (s.step label).pool.countTotalLocked ≤ s.pool.countTotalLocked ∨
      ((s.step label).pool.countTotalLocked : Int) ≤ s.pool.mConfig.maxConnections) :
    (s.step label).WithinCapacity := by
  rw [WithinCapacity] at hwithin ⊢
  rw [mConfig_step]
  omega

theorem withinCapacity_created_iff (thread : Nat) (key : String) (succeeds : Bool)
    (env : PoolEnvironment) (hwithin : s.WithinCapacity) :
    (s.step (.created thread key succeeds env)).WithinCapacity ↔
      s.FindsRoom (.created thread key succeeds env) := by
  rcases hcreated : s.pool.acquireCreated env key (if succeeds then some s.made else none) with
    ⟨returned, p'⟩
  have hpool : (s.step (.created thread key succeeds env)).pool = p' := by
    simp only [step, hcreated, receive]
  have hbound := mConfig_created hcreated
  obtain ⟨-, ⟨hlookup, rfl⟩ | ⟨pool, hlookup, hcases⟩⟩ := acquireCreated_cases hcreated
  · refine iff_of_true (withinCapacity_of_le hwithin (Or.inl (by rw [hpool]))) ?_
    cases succeeds <;> simp [FindsRoom, hlookup]
  · have hset := fun pool' => @countTotalLocked_setPool s.pool key pool'
    simp only [hlookup, Option.getD_some] at hset
    obtain ⟨hnone, rfl⟩ | ⟨connection, -, hany, rfl⟩ | ⟨connection, hsome, hany, rfl⟩ := hcases
    · have hshorter := hset (pool.eraseP isPlaceholder)
      have hle : (pool.eraseP isPlaceholder).length ≤ pool.length := List.eraseP_sublist.length_le
      refine iff_of_true (withinCapacity_of_le hwithin (Or.inl (by rw [hpool]; omega))) ?_
      cases succeeds with
      | true => simp at hnone
      | false => trivial
    · have hsame := hset (changeFirst isPlaceholder (filled env connection) pool)
      rw [length_changeFirst] at hsame
      refine iff_of_true (withinCapacity_of_le hwithin (Or.inl (by rw [hpool]; omega))) ?_
      cases succeeds <;> simp only [FindsRoom, hlookup]
      exact Or.inl hany
    · have hlonger := hset (pool ++ [⟨some connection, true, env.now⟩])
      rw [List.length_append, List.length_singleton] at hlonger
      cases succeeds with
      | false => simp at hsome
      | true =>
          simp only [WithinCapacity, hpool, FindsRoom, hlookup, hany, Bool.false_eq_true, false_or,
            mConfig_setPool]
          omega

theorem withinCapacity_step_iff (s : PoolThreads) (label : PoolLabel) (hwithin : s.WithinCapacity)
    (hmax : 0 ≤ s.pool.mConfig.maxConnections) :
    (s.step label).WithinCapacity ↔ s.FindsRoom label := by
  cases label with
  | created thread key succeeds env => exact withinCapacity_created_iff thread key succeeds env hwithin
  | acquire thread key env =>
      rcases hacquire : s.pool.acquire env key with ⟨entered, p'⟩
      have hpool : (s.step (.acquire thread key env)).pool = p' := by
        simp only [step, hacquire, pool_enter]
      refine iff_of_true (withinCapacity_of_le hwithin ?_) trivial
      rw [hpool]
      exact countTotalLocked_acquire hacquire
  | woken thread key timedOut env =>
      exact iff_of_true
        (withinCapacity_of_le hwithin (Or.inl (countTotalLocked_woken rfl).le)) trivial
  | release thread connection env =>
      exact iff_of_true
        (withinCapacity_of_le hwithin (Or.inl (countTotalLocked_release connection).le)) trivial
  | cleanupIdleConnections env =>
      exact iff_of_true
        (withinCapacity_of_le hwithin (Or.inl countTotalLocked_cleanup_le)) trivial
  | closeAll =>
      refine iff_of_true (withinCapacity_of_le hwithin (Or.inr ?_)) trivial
      simpa [step, closeAll, countTotalLocked] using hmax

/-- There is a placeholder for every creation under way. -/
def Reserved (s : PoolThreads) : Prop :=
  ∀ key, s.creating.countP (fun call => call.2 = key) ≤ s.pool.reserved key

theorem Reserved.step (hreserved : s.Reserved) (henabled : s.Enabled label)
    (hquiet : s.ClosesQuiet label) : (s.step label).Reserved := by
  intro other
  have hother := hreserved other
  cases label with
  | acquire thread key env =>
      rcases hacquire : s.pool.acquire env key with ⟨entered, p'⟩
      simp only [PoolThreads.step, hacquire]
      obtain ⟨_, _, rfl, htry, rfl⟩ | ⟨rfl, rfl⟩ | ⟨rfl, -, rfl⟩ := acquire_cases hacquire
      · simpa [enter, receive, reserved_tried htry] using hother
      · simpa [enter, reserved_setPool_of_eq rfl] using hother
      · simp only [enter, List.countP_append, List.countP_singleton, reserved_setPool]
        by_cases heq : other = key
        · subst heq
          have hplaceholder : isPlaceholder placeholder = true := rfl
          simp only [decide_true, if_true, hplaceholder]
          exact Nat.add_le_add_right hother 1
        · simpa [heq, Ne.symm heq] using hother
  | woken thread key timedOut env =>
      rcases hwoken : s.pool.acquireWoken env key timedOut with ⟨returned, p'⟩
      simp only [PoolThreads.step, hwoken, receive]
      obtain ⟨-, rfl⟩ | ⟨_, _, -, htry, rfl⟩ := acquireWoken_cases hwoken
      · exact hother
      · rwa [reserved_tried htry]
  | created thread key succeeds env =>
      rcases hcreated : s.pool.acquireCreated env key (if succeeds then some s.made else none) with
        ⟨returned, p'⟩
      have hused := @reserved_created env s.pool key other _ _ _ hcreated
      have herase : (s.creating.erase (thread, key)).countP (fun call => call.2 = other) +
          (if other = key then 1 else 0) = s.creating.countP fun call => call.2 = other := by
        rw [(List.perm_cons_erase henabled).countP_eq, List.countP_cons]
        simp [eq_comm]
      simp only [PoolThreads.step, hcreated, receive]
      omega
  | release thread connection env =>
      simp only [PoolThreads.step]
      rwa [reserved_release]
  | cleanupIdleConnections env =>
      simp only [PoolThreads.step]
      rwa [reserved_cleanup]
  | closeAll =>
      have hnil : s.creating = [] := hquiet
      simp [PoolThreads.step, hnil]

theorem findsRoom_of_reserved (hreserved : s.Reserved) (henabled : s.Enabled label) :
    s.FindsRoom label := by
  cases label with
  | created thread key succeeds env =>
      cases succeeds with
      | false => trivial
      | true =>
          simp only [FindsRoom]
          split
          · trivial
          · rename_i pool hlookup
            have hcalls : 0 < s.creating.countP fun call => call.2 = key :=
              List.countP_pos_iff.mpr ⟨_, henabled, by simp⟩
            have hpool : 0 < pool.countP isPlaceholder := by
              have hkey := hreserved key
              rw [reserved, hlookup, Option.getD_some] at hkey
              omega
            exact Or.inl (List.any_eq_true.mpr (List.countP_pos_iff.mp hpool))
  | acquire thread key env => trivial
  | woken thread key timedOut env => trivial
  | release thread connection env => trivial
  | cleanupIdleConnections env => trivial
  | closeAll => trivial

theorem withinCapacity_start_iff (config : ConnectionPoolConfig) :
    (start config).WithinCapacity ↔ 0 ≤ config.maxConnections := by
  rw [WithinCapacity, start, countTotalLocked, UnorderedMap.total_empty]
  rfl

end PoolThreads

open PoolThreads in
/-- The pools stay within the capacity, in every state of an interleaving, exactly if the capacity is
not negative and every creation of it finds room. Every creation does if `closeAll` is not called while
one is under way. -/
theorem withinCapacity_always_iff (config : ConnectionPoolConfig) (labels : List PoolLabel)
    (henabled : Along step Enabled (start config) labels) :
    ((∀ n, (run step (start config) (labels.take n)).WithinCapacity) ↔
        0 ≤ config.maxConnections ∧ Along step FindsRoom (start config) labels) ∧
      (Along step ClosesQuiet (start config) labels →
        Along step FindsRoom (start config) labels) := by
  refine ⟨?_, ?_⟩
  · by_cases hmax : 0 ≤ config.maxConnections
    · rw [and_iff_right hmax]
      apply @always_iff_along _ _ _ _ _ (fun s => s.pool.mConfig = config) _ _ _ henabled rfl
        ((withinCapacity_start_iff config).mpr hmax)
      · intro s label hconfig _
        rw [mConfig_step, hconfig]
      · intro s label hconfig _ hwithin
        exact withinCapacity_step_iff s label hwithin (hconfig ▸ hmax)
    · constructor
      · intro halways
        exact absurd ((withinCapacity_start_iff config).mp (halways 0)) hmax
      · intro hcond
        exact absurd hcond.1 hmax
  · intro hquiet
    have hstart : (start config).Reserved := fun key => Nat.zero_le _
    exact (henabled.and hquiet).of_invariant hstart
      (fun s label hreserved hboth => hreserved.step hboth.1 hboth.2)
      (fun s label hreserved hboth => findsRoom_of_reserved hreserved hboth.1)

/-- Two creations for one key, of which one fails, and the pools closed afterwards. -/
def quietClose : List PoolLabel :=
  [.acquire 1 "a" {}, .acquire 2 "a" {}, .created 1 "a" false {}, .created 2 "a" true {}, .closeAll,
    .acquire 1 "b" {}, .created 1 "b" true {}]

open PoolThreads in
theorem withinCapacity_always_iff_quietClose :
    Along step Enabled (start { maxConnections := 2 }) quietClose ∧
      ∀ n, (run step (start { maxConnections := 2 }) (quietClose.take n)).WithinCapacity := by
  have henabled : Along step Enabled (start { maxConnections := 2 }) quietClose := by decide +kernel
  have hquiet : Along step ClosesQuiet (start { maxConnections := 2 }) quietClose := by decide +kernel
  have hiff := withinCapacity_always_iff { maxConnections := 2 } quietClose henabled
  exact ⟨henabled, hiff.1.mpr ⟨by decide, hiff.2 hquiet⟩⟩

open PoolThreads in
/-- The pools are closed while the first call creates its connection. The second reserves a placeholder
within the capacity of one, the first fills it, and the second adds an entry of its own. -/
theorem closed_during_creation :
    let labels : List PoolLabel :=
      [.acquire 1 "a" {}, .closeAll, .acquire 2 "a" {}, .created 1 "a" true {},
        .created 2 "a" true {}]
    Along step Enabled (start { maxConnections := 1 }) labels ∧
      ¬ (run step (start { maxConnections := 1 }) labels).WithinCapacity := by
  decide +kernel

end SoulCoreKit.Network
