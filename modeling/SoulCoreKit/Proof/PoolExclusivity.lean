import SoulCoreKit.Network.ConnectionPool

/-!
# No connection is shared

A connection can be handed out in two ways: it is held, or it stands in an entry that is not in use. The
number of these ways is at most one for every connection, in every interleaving. Taking an idle entry
turns one way into the other, a release turns it back or loses it, and a connection that was just made
enters in use. The entries that are in use are not counted, so it does not matter whose placeholder a
creation fills, nor that `closeAll` clears it.
-/

namespace SoulCoreKit.Network

open ConnectionEntry

/-! ### Entries that pass a test -/

section ChangeFirst

variable {test q : ConnectionEntry → Bool} {change : ConnectionEntry → ConnectionEntry}
  {pool : List ConnectionEntry} {entry : ConnectionEntry}

theorem exists_find?_of_any (hany : pool.any test = true) : ∃ entry, pool.find? test = some entry := by
  rw [← Option.isSome_iff_exists, List.find?_isSome]
  exact List.any_eq_true.mp hany

theorem length_changeFirst : (changeFirst test change pool).length = pool.length := by
  simp [changeFirst]

theorem countP_changeFirst (hfind : pool.find? test = some entry) :
    (changeFirst test change pool).countP q + [entry].countP q =
      pool.countP q + [change entry].countP q := by
  induction pool with
  | nil => simp at hfind
  | cons first rest ih =>
      by_cases htest : test first = true
      · obtain rfl : first = entry := by simpa [htest] using hfind
        have hchange : changeFirst test change (first :: rest) = change first :: rest := by
          simp [changeFirst, htest]
        simp only [hchange, List.countP_cons, List.countP_nil]
        omega
      · have hchange : changeFirst test change (first :: rest) =
            first :: changeFirst test change rest := by
          simp [changeFirst, htest]
        have hrest := ih (by simpa [htest] using hfind)
        simp only [hchange, List.countP_cons, List.countP_nil] at hrest ⊢
        omega

end ChangeFirst

namespace ConnectionPool

variable {env : PoolEnvironment} {p : ConnectionPool} {q : ConnectionEntry → Bool} {key : String}
  {connection other : Connection}

/-- The number of entries, over all pools, that pass a test. -/
def tally (q : ConnectionEntry → Bool) (p : ConnectionPool) : Nat :=
  UnorderedMap.total (fun _ pool => pool.countP q) p.mPools

theorem countTotalLocked_eq : p.countTotalLocked = p.tally fun _ => true := by
  simp [countTotalLocked, tally]

theorem tally_setPool (pool : List ConnectionEntry) :
    (p.setPool key pool).tally q + ((p.mPools.lookup key).getD []).countP q =
      p.tally q + pool.countP q := by
  have hold : UnorderedMap.weightAt (fun _ pool => pool.countP q) p.mPools key =
      ((p.mPools.lookup key).getD []).countP q := by
    cases hlookup : p.mPools.lookup key <;> simp [UnorderedMap.weightAt, hlookup]
  have herase := UnorderedMap.total_erase (fun _ pool => pool.countP q) p.mPools key
  have hinsert := UnorderedMap.total_insert (fun _ pool => pool.countP q) p.mPools key pool
  rw [tally, setPool, tally, hinsert, ← herase, hold]
  omega

theorem tally_setPool_le {pool : List ConnectionEntry}
    (hle : pool.countP q ≤ ((p.mPools.lookup key).getD []).countP q) :
    (p.setPool key pool).tally q ≤ p.tally q := by
  have hset := @tally_setPool p q key pool
  omega

theorem tally_cleanupPool_le : (cleanupPool env p key).tally q ≤ p.tally q := by
  rw [cleanupPool]
  split
  · exact le_rfl
  · rename_i pool hlookup
    apply tally_setPool_le
    rw [hlookup]
    exact List.filter_sublist.countP_le

theorem tally_cleanupIdleConnections_le : (p.cleanupIdleConnections env).tally q ≤ p.tally q := by
  rw [cleanupIdleConnections]
  induction env.order generalizing p with
  | nil => exact le_rfl
  | cons key keys ih => exact ih.trans tally_cleanupPool_le

theorem tryAcquireFromPool_spec {pool pool' : List ConnectionEntry}
    (htry : tryAcquireFromPool env pool = some (connection, pool')) :
    ∃ entry, entry.connection = some connection ∧ entry.inUse = false ∧
      ∀ q, pool'.countP q + [entry].countP q = pool.countP q + [taken env entry].countP q := by
  simp only [tryAcquireFromPool, Option.bind_eq_bind, Option.pure_def, Option.bind_eq_some_iff,
    Option.some.injEq, Prod.mk.injEq] at htry
  obtain ⟨entry, hfind, _, hconnection, rfl, rfl⟩ := htry
  have husable : isUsable env entry = true := List.find?_some hfind
  simp only [isUsable, Bool.and_eq_true, Bool.not_eq_true'] at husable
  exact ⟨entry, hconnection, husable.1, fun q => countP_changeFirst hfind⟩

/-! ### What each piece does -/

theorem lookup_setPool (pool : List ConnectionEntry) : (p.setPool key pool).mPools.lookup key = some pool :=
  Finmap.lookup_insert _

theorem tally_setPool_self :
    (p.setPool key ((p.mPools.lookup key).getD [])).tally q = p.tally q := by
  have hset := @tally_setPool p q key ((p.mPools.lookup key).getD [])
  omega

theorem acquire_cases {entered : Entered} {p' : ConnectionPool}
    (hacquire : p.acquire env key = (entered, p')) :
    let pool := (p.mPools.lookup key).getD []
    (∃ connection pool', entered = .acquired connection ∧
        tryAcquireFromPool env pool = some (connection, pool') ∧ p' = p.setPool key pool') ∨
      (entered = .waits ∧ p' = p.setPool key pool) ∨
      (entered = .creates ∧ (p.countTotalLocked : Int) < p.mConfig.maxConnections ∧
        p' = (p.setPool key pool).setPool key (pool ++ [placeholder])) := by
  intro pool
  have htotal : (p.setPool key pool).countTotalLocked = p.countTotalLocked := by
    rw [countTotalLocked_eq, countTotalLocked_eq]
    exact tally_setPool_self
  rw [acquire] at hacquire
  simp only at hacquire
  split at hacquire
  · rename_i connection pool' htry
    obtain ⟨rfl, rfl⟩ := Prod.mk.inj hacquire
    exact Or.inl ⟨connection, pool', rfl, htry, rfl⟩
  · split at hacquire
    · obtain ⟨rfl, rfl⟩ := Prod.mk.inj hacquire
      exact Or.inr (Or.inl ⟨rfl, rfl⟩)
    · rename_i hroom
      obtain ⟨rfl, rfl⟩ := Prod.mk.inj hacquire
      rw [htotal] at hroom
      exact Or.inr (Or.inr ⟨rfl, not_le.mp hroom, rfl⟩)

theorem acquireWoken_cases {timedOut : Bool} {returned : Option Connection} {p' : ConnectionPool}
    (hwoken : p.acquireWoken env key timedOut = (returned, p')) :
    (returned = none ∧ p' = p) ∨
      ∃ connection pool', returned = some connection ∧
        tryAcquireFromPool env ((p.mPools.lookup key).getD []) = some (connection, pool') ∧
        p' = p.setPool key pool' := by
  rw [acquireWoken] at hwoken
  split at hwoken
  · obtain ⟨rfl, rfl⟩ := Prod.mk.inj hwoken
    exact Or.inl ⟨rfl, rfl⟩
  · split at hwoken
    · obtain ⟨rfl, rfl⟩ := Prod.mk.inj hwoken
      exact Or.inl ⟨rfl, rfl⟩
    · rename_i pool hlookup
      split at hwoken
      · obtain ⟨rfl, rfl⟩ := Prod.mk.inj hwoken
        exact Or.inl ⟨rfl, rfl⟩
      · rename_i connection pool' htry
        obtain ⟨rfl, rfl⟩ := Prod.mk.inj hwoken
        exact Or.inr ⟨connection, pool', rfl, by rw [hlookup]; exact htry, rfl⟩

/-- The pool of the key is gone, or a placeholder of it is erased or filled, or the connection is added to
a pool without one. -/
theorem acquireCreated_cases {network returned : Option Connection} {p' : ConnectionPool}
    (hcreated : p.acquireCreated env key network = (returned, p')) :
    returned = network ∧
      ((p.mPools.lookup key = none ∧ p' = p) ∨
        ∃ pool, p.mPools.lookup key = some pool ∧
          ((network = none ∧ p' = p.setPool key (pool.eraseP isPlaceholder)) ∨
            (∃ connection, network = some connection ∧ pool.any isPlaceholder = true ∧
              p' = p.setPool key (changeFirst isPlaceholder (filled env connection) pool)) ∨
            (∃ connection, network = some connection ∧ pool.any isPlaceholder = false ∧
              p' = p.setPool key (pool ++ [⟨some connection, true, env.now⟩])))) := by
  unfold acquireCreated at hcreated
  split at hcreated
  · rename_i hlookup
    obtain ⟨rfl, rfl⟩ := Prod.mk.inj hcreated
    exact ⟨rfl, Or.inl ⟨hlookup, rfl⟩⟩
  · rename_i pool hlookup
    obtain ⟨rfl, rfl⟩ := Prod.mk.inj hcreated
    exact ⟨rfl, Or.inr ⟨pool, hlookup, Or.inl ⟨rfl, rfl⟩⟩⟩
  · rename_i pool connection hlookup
    split at hcreated
    · rename_i hplaceholder
      obtain ⟨rfl, rfl⟩ := Prod.mk.inj hcreated
      exact ⟨rfl, Or.inr ⟨pool, hlookup, Or.inr (Or.inl ⟨connection, rfl, hplaceholder, rfl⟩)⟩⟩
    · rename_i hplaceholder
      obtain ⟨rfl, rfl⟩ := Prod.mk.inj hcreated
      exact ⟨rfl, Or.inr ⟨pool, hlookup,
        Or.inr (Or.inr ⟨connection, rfl, by simpa using hplaceholder, rfl⟩)⟩⟩

theorem release_cases (connection : Connection) :
    p.release env connection = p ∨
      ∃ key entry, ((p.mPools.lookup key).getD []).find? (holds connection) = some entry ∧
        p.release env connection =
          p.setPool key
            (changeFirst (holds connection) (returned env) ((p.mPools.lookup key).getD [])) := by
  rw [release]
  split
  · exact Or.inl rfl
  · rename_i key hfind
    have hany := List.find?_some hfind
    obtain ⟨entry, hentry⟩ := exists_find?_of_any hany
    exact Or.inr ⟨key, entry, hentry, rfl⟩

/-! ### Offers -/

/-- The entry offers the connection: it is not in use. -/
def offers (connection : Connection) (entry : ConnectionEntry) : Bool :=
  holds connection entry && !entry.inUse

theorem countP_offers_of_inUse {entry : ConnectionEntry} (hinUse : entry.inUse = true) :
    [entry].countP (offers connection) = 0 := by
  simp [offers, hinUse]

theorem countP_offers_of_idle {entry : ConnectionEntry}
    (hconnection : entry.connection = some connection) (hidle : entry.inUse = false) :
    [entry].countP (offers other) = if connection = other then 1 else 0 := by
  simp [offers, holds, hconnection, hidle]

theorem tally_offers_tried {pool' : List ConnectionEntry}
    (htry : tryAcquireFromPool env ((p.mPools.lookup key).getD []) = some (connection, pool')) :
    (p.setPool key pool').tally (offers other) + (if connection = other then 1 else 0) =
      p.tally (offers other) := by
  obtain ⟨entry, hconnection, hidle, hcount⟩ := tryAcquireFromPool_spec htry
  have hpool := hcount (offers other)
  rw [@countP_offers_of_inUse other (taken env entry) rfl,
    countP_offers_of_idle hconnection hidle] at hpool
  have hset := @tally_setPool p (offers other) key pool'
  omega

theorem tally_offers_created_le {network returned : Option Connection} {p' : ConnectionPool}
    (hcreated : p.acquireCreated env key network = (returned, p')) :
    p'.tally (offers other) ≤ p.tally (offers other) := by
  obtain ⟨-, ⟨-, rfl⟩ | ⟨pool, hlookup, hcases⟩⟩ := acquireCreated_cases hcreated
  · exact le_rfl
  · obtain ⟨-, rfl⟩ | ⟨connection, -, hany, rfl⟩ | ⟨connection, -, -, rfl⟩ := hcases
    · apply tally_setPool_le
      rw [hlookup]
      exact List.eraseP_sublist.countP_le
    · apply tally_setPool_le
      obtain ⟨entry, hfind⟩ := exists_find?_of_any hany
      have hplaceholder : entry.inUse = true := by
        have htest := List.find?_some hfind
        simp only [isPlaceholder, Bool.and_eq_true] at htest
        exact htest.1
      have hcount := @countP_changeFirst _ (offers other) (filled env connection) _ _ hfind
      rw [@countP_offers_of_inUse other (filled env connection entry) hplaceholder] at hcount
      rw [hlookup, Option.getD_some]
      omega
    · apply tally_setPool_le
      rw [hlookup, Option.getD_some, List.countP_append, countP_offers_of_inUse rfl]
      omega

theorem tally_offers_release_le (connection : Connection) :
    (p.release env connection).tally (offers other) ≤
      p.tally (offers other) + (if connection = other then 1 else 0) := by
  obtain hsame | ⟨key, entry, hfind, hrelease⟩ := @release_cases env p connection
  · rw [hsame]
    omega
  · have hholds : entry.connection = some connection := by
      simpa [holds] using List.find?_some hfind
    have hcount := @countP_changeFirst _ (offers other) (ConnectionEntry.returned env) _ _ hfind
    rw [@countP_offers_of_idle _ _ (ConnectionEntry.returned env entry) hholds rfl] at hcount
    have hset := @tally_setPool p (offers other) key
      (changeFirst (holds connection) (ConnectionEntry.returned env) ((p.mPools.lookup key).getD []))
    rw [hrelease]
    omega

end ConnectionPool

/-! ### Runs -/

namespace PoolThreads

open ConnectionPool

variable {s : PoolThreads} {connection : Connection}

/-- The ways in which a connection is held or offered. -/
def ways (s : PoolThreads) (connection : Connection) : Nat :=
  s.held.countP (fun held => held.2 = connection) + s.pool.tally (offers connection)

/-- At most one way for every connection, and none for those not made yet. -/
structure Exclusive (s : PoolThreads) : Prop where
  once : ∀ connection, s.ways connection ≤ 1
  fresh : ∀ connection, s.made ≤ connection → s.ways connection = 0

theorem exclusive_start (config : ConnectionPoolConfig) : Exclusive (start config) where
  once _ := Nat.zero_le 1
  fresh _ _ := rfl

theorem ways_receive (thread : Nat) (returned : Option Connection) :
    (s.receive thread returned).ways connection =
      s.ways connection + (if returned = some connection then 1 else 0) := by
  cases returned with
  | none => simp [receive, ways]
  | some returned =>
      simp [receive, ways, List.countP_append, List.countP_cons]
      omega

theorem ways_acquire (thread : Nat) (key : String) (env : PoolEnvironment) :
    (s.step (.acquire thread key env)).ways connection ≤ s.ways connection := by
  rcases hacquire : s.pool.acquire env key with ⟨entered, p'⟩
  have hstep : s.step (.acquire thread key env) = { s with pool := p' }.enter thread key entered := by
    rw [step, hacquire]
  rw [hstep]
  obtain ⟨returned, pool', rfl, htry, rfl⟩ | ⟨rfl, rfl⟩ | ⟨rfl, -, rfl⟩ := acquire_cases hacquire
  · have htally := @tally_offers_tried env s.pool key returned connection pool' htry
    rw [enter, ways_receive]
    simp only [ways, Option.some.injEq]
    omega
  · simp only [enter, ways]
    rw [tally_setPool_self]
  · have hset := @tally_setPool (s.pool.setPool key ((s.pool.mPools.lookup key).getD []))
      (offers connection) key ((s.pool.mPools.lookup key).getD [] ++ [placeholder])
    rw [lookup_setPool, Option.getD_some, List.countP_append, tally_setPool_self,
      @countP_offers_of_inUse connection placeholder rfl] at hset
    simp only [enter, ways]
    omega

theorem ways_woken (thread : Nat) (key : String) (timedOut : Bool) (env : PoolEnvironment) :
    (s.step (.woken thread key timedOut env)).ways connection ≤ s.ways connection := by
  rcases hwoken : s.pool.acquireWoken env key timedOut with ⟨returned, p'⟩
  have hstep : s.step (.woken thread key timedOut env) =
      { s with pool := p', waiting := s.waiting.erase (thread, key) }.receive thread returned := by
    rw [step, hwoken]
  rw [hstep, ways_receive]
  obtain ⟨rfl, rfl⟩ | ⟨taken, pool', rfl, htry, rfl⟩ := acquireWoken_cases hwoken
  · simp [ways]
  · have htally := @tally_offers_tried env s.pool key taken connection pool' htry
    simp only [ways, Option.some.injEq]
    omega

theorem ways_created (thread : Nat) (key : String) (succeeds : Bool) (env : PoolEnvironment) :
    (s.step (.created thread key succeeds env)).ways connection ≤
      s.ways connection + (if succeeds ∧ connection = s.made then 1 else 0) := by
  rcases hcreated : s.pool.acquireCreated env key (if succeeds then some s.made else none) with
    ⟨returned, p'⟩
  have hle := @tally_offers_created_le env s.pool key connection _ _ _ hcreated
  have hreturned := (acquireCreated_cases hcreated).1
  have hheld : (s.step (.created thread key succeeds env)).ways connection =
      s.held.countP (fun held => held.2 = connection) + p'.tally (offers connection) +
        (if returned = some connection then 1 else 0) := by
    rw [step]
    simp only [hcreated]
    exact ways_receive thread returned
  rw [hheld, hreturned, ways]
  cases succeeds with
  | true =>
      by_cases heq : connection = s.made
      · simp only [heq, if_true, and_self]
        rw [heq] at hle
        omega
      · simp only [if_true, Option.some.injEq, Ne.symm heq, heq, and_false, if_false]
        omega
  | false =>
      simp only [Bool.false_eq_true, if_false, reduceCtorEq, false_and]
      omega

theorem ways_release {thread : Nat} {released : Connection} (henabled : (thread, released) ∈ s.held)
    (env : PoolEnvironment) :
    (s.step (.release thread released env)).ways connection ≤ s.ways connection := by
  have hle := @tally_offers_release_le env s.pool connection released
  have herase : (s.held.erase (thread, released)).countP (fun held => held.2 = connection) +
      (if released = connection then 1 else 0) =
        s.held.countP (fun held => held.2 = connection) := by
    rw [(List.perm_cons_erase henabled).countP_eq, List.countP_cons]
    simp
  simp only [step, ways]
  omega

theorem Exclusive.of_le {s' : PoolThreads} (hexclusive : Exclusive s) (hmade : s'.made = s.made)
    (hle : ∀ connection, s'.ways connection ≤ s.ways connection) : Exclusive s' where
  once connection := (hle connection).trans (hexclusive.once connection)
  fresh connection hfresh := by
    have hzero := hexclusive.fresh connection (hmade ▸ hfresh)
    exact Nat.le_zero.mp (hzero ▸ hle connection)

theorem Exclusive.created (hexclusive : Exclusive s) (thread : Nat) (key : String) (succeeds : Bool)
    (env : PoolEnvironment) : Exclusive (s.step (.created thread key succeeds env)) := by
  have hmade : (s.step (.created thread key succeeds env)).made =
      s.made + (if succeeds then 1 else 0) := by
    cases succeeds <;> rfl
  constructor
  · intro connection
    have hle := @ways_created s connection thread key succeeds env
    have honce := hexclusive.once connection
    by_cases hnew : succeeds ∧ connection = s.made
    · have hzero := hexclusive.fresh connection hnew.2.ge
      rw [if_pos hnew] at hle
      omega
    · rw [if_neg hnew] at hle
      omega
  · intro connection hfresh
    have hle := @ways_created s connection thread key succeeds env
    have hzero := hexclusive.fresh connection (by omega)
    have hold : ¬ (succeeds ∧ connection = s.made) := by
      rintro ⟨hsucceeds, heq⟩
      rw [hmade, if_pos hsucceeds] at hfresh
      omega
    rw [if_neg hold] at hle
    omega

theorem Exclusive.step (hexclusive : Exclusive s) {label : PoolLabel} (henabled : s.Enabled label) :
    Exclusive (s.step label) := by
  cases label with
  | acquire thread key env =>
      refine hexclusive.of_le ?_ fun _ => ways_acquire thread key env
      rw [PoolThreads.step]
      rcases s.pool.acquire env key with ⟨entered, p'⟩
      cases entered <;> rfl
  | woken thread key timedOut env =>
      exact hexclusive.of_le rfl fun _ => ways_woken thread key timedOut env
  | created thread key succeeds env => exact hexclusive.created thread key succeeds env
  | release thread released env => exact hexclusive.of_le rfl fun _ => ways_release henabled env
  | cleanupIdleConnections env =>
      refine hexclusive.of_le rfl fun connection => ?_
      have hle := @tally_cleanupIdleConnections_le env s.pool (offers connection)
      simp only [PoolThreads.step, ways]
      omega
  | closeAll =>
      refine hexclusive.of_le rfl fun connection => ?_
      simp [PoolThreads.step, ways, closeAll, tally]

theorem tally_pos {p : ConnectionPool} {q : ConnectionEntry → Bool} {key : String}
    {pool : List ConnectionEntry} {entry : ConnectionEntry} (hlookup : p.mPools.lookup key = some pool)
    (hentry : entry ∈ pool) (hq : q entry = true) : 0 < p.tally q := by
  have hpool : 0 < pool.countP q := List.countP_pos_iff.mpr ⟨entry, hentry, hq⟩
  rw [tally, UnorderedMap.total_eq_add_erase _ hlookup]
  omega

end PoolThreads

open PoolThreads ConnectionPool in
/-- In every interleaving no two threads hold one connection, and every entry of a connection that is
held is in use. -/
theorem connections_exclusive (config : ConnectionPoolConfig) (labels : List PoolLabel)
    (henabled : Along step Enabled (start config) labels) :
    let s := run step (start config) labels
    (s.held.map Prod.snd).Nodup ∧
      ∀ thread connection, (thread, connection) ∈ s.held →
        ∀ key pool, s.pool.mPools.lookup key = some pool →
          ∀ entry ∈ pool, entry.connection = some connection → entry.inUse = true := by
  intro s
  have hexclusive : Exclusive s :=
    henabled.induction (exclusive_start config) fun _ _ hexclusive => hexclusive.step
  constructor
  · rw [List.nodup_iff_count_le_one]
    intro connection
    have honce := hexclusive.once connection
    rw [List.count, List.countP_map]
    rw [ways] at honce
    have hcount : s.held.countP ((fun held => held == connection) ∘ Prod.snd) =
        s.held.countP fun held => decide (held.2 = connection) := by
      apply List.countP_congr
      simp
    omega
  · intro thread connection hheld key pool hlookup entry hentry hconnection
    by_contra hidle
    have hoffers : offers connection entry = true := by
      simpa [offers, holds, hconnection] using hidle
    have htally := tally_pos hlookup hentry hoffers
    have hcount : 0 < s.held.countP fun held => decide (held.2 = connection) :=
      List.countP_pos_iff.mpr ⟨_, hheld, by simp⟩
    have honce := hexclusive.once connection
    rw [ways] at honce
    omega

/-- Two calls create connections while the pools are closed, a third reserves a new placeholder, and the
first of them fills it. What it returns is handed out again. -/
def crossedCreations : List PoolLabel :=
  [.acquire 1 "a" {}, .acquire 2 "a" {}, .closeAll, .acquire 3 "a" {}, .created 1 "a" true {},
    .created 2 "a" true {}, .release 1 0 { order := ["a"] }, .acquire 4 "a" {}]

open PoolThreads in
theorem connections_exclusive_crossedCreations :
    let s := run step (start {}) crossedCreations
    s.held = [(2, 1), (4, 0)] ∧ (s.held.map Prod.snd).Nodup :=
  ⟨by decide +kernel, (connections_exclusive {} crossedCreations (by decide +kernel)).1⟩

end SoulCoreKit.Network
