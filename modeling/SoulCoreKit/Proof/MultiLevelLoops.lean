import SoulCoreKit.Cache.MultiLevelCache

/-!
# The loops over the levels

What the calls to the levels keep is kept by the loops of the cache of levels. The levels are arbitrary
classes, and what is kept is an arbitrary property of each.
-/

namespace SoulCoreKit.Cache

variable {K V : Type} [DecidableEq K]

namespace MultiLevelCache

variable {ι : Type} [DecidableEq ι] {object : ι → ICache K V} {heap : Heap object}
  {P Q : (level : ι) → (object level).State → Prop} {levels : List ι}

omit [DecidableEq K] in
theorem invoke_keeps {R : Type} (hheap : ∀ level ∈ levels, P level (heap level)) {level : ι}
    {method : (object level).State → R × (object level).State}
    (hmethod : P level (method (heap level)).2) :
    ∀ other ∈ levels, P other ((invoke object heap level method).2 other) := by
  intro other hother
  by_cases heq : other = level
  · subst heq
    simpa [invoke] using hmethod
  · simpa [invoke, heq] using hheap other hother

omit [DecidableEq K] in
theorem foldl_invoke_keeps {R : Type}
    {method : (level : ι) → (object level).State → R × (object level).State}
    (hmethod : ∀ level state, P level state → P level (method level state).2) {some : List ι}
    (hsub : ∀ level ∈ some, level ∈ levels) (hheap : ∀ level ∈ levels, P level (heap level)) :
    ∀ level ∈ levels,
      P level (some.foldl (fun heap level => (invoke object heap level (method level)).2) heap
        level) := by
  induction some generalizing heap with
  | nil => exact hheap
  | cons first rest ih =>
      apply ih
      · intro level hlevel
        exact hsub level (List.mem_cons_of_mem _ hlevel)
      · apply invoke_keeps hheap
        exact hmethod first _ (hheap first (hsub first List.mem_cons_self))

section Broadcast

variable {method : (level : ι) → (object level).State → Result Unit × (object level).State}

omit [DecidableEq K] in
theorem tell_heap (acc : Result Unit × Heap object) (level : ι) :
    (tell object method acc level).2 = (invoke object acc.2 level (method level)).2 := by
  unfold tell
  split <;> rename_i heq <;> rw [heq]

omit [DecidableEq K] in
theorem tell_isOk (acc : Result Unit × Heap object) (level : ι) :
    (tell object method acc level).1.isOk =
      (acc.1.isOk && (method level (acc.2 level)).1.isOk) := by
  unfold tell invoke
  cases (method level (acc.2 level)).1 <;> simp [Except.isOk, Except.toBool]

omit [DecidableEq K] in
theorem isOk_of_isOk_foldl_tell {rest : List ι} {acc : Result Unit × Heap object}
    (hok : (rest.foldl (tell object method) acc).1.isOk = true) : acc.1.isOk = true := by
  induction rest generalizing acc with
  | nil => exact hok
  | cons first rest ih =>
      have hfirst := ih hok
      rw [tell_isOk, Bool.and_eq_true] at hfirst
      exact hfirst.1

omit [DecidableEq K] in
/-- A call made to every level. Where the answer matters, it is `Ok` only if every level said so. -/
theorem foldl_tell_reaches {strict : Prop}
    (hmethod : ∀ level state, P level state → (strict → (method level state).1.isOk = true) →
      Q level (method level state).2)
    (hweaken : ∀ level state, Q level state → P level state) (visited : List ι) {rest : List ι}
    {acc : Result Unit × Heap object} (hrest : ∀ level ∈ rest, P level (acc.2 level))
    (hvisited : ∀ level ∈ visited, Q level (acc.2 level))
    (hok : strict → (rest.foldl (tell object method) acc).1.isOk = true) :
    ∀ level ∈ visited ++ rest, Q level ((rest.foldl (tell object method) acc).2 level) := by
  induction rest generalizing visited acc with
  | nil => simpa using hvisited
  | cons first rest ih =>
      have hfirst : Q first (method first (acc.2 first)).2 := by
        apply hmethod first _ (hrest first List.mem_cons_self)
        intro hstrict
        have htold : (tell object method acc first).1.isOk = true :=
          isOk_of_isOk_foldl_tell (hok hstrict)
        rw [tell_isOk, Bool.and_eq_true] at htold
        exact htold.2
      have hnext : ∀ level ∈ visited ++ [first] ++ rest,
          Q level ((rest.foldl (tell object method) (tell object method acc first)).2 level) := by
        apply ih (visited ++ [first])
        · rw [tell_heap]
          apply invoke_keeps
          · intro level hlevel
            exact hrest level (List.mem_cons_of_mem _ hlevel)
          · exact hweaken first _ hfirst
        · rw [tell_heap]
          intro level hlevel
          by_cases heq : level = first
          · subst heq
            simpa [invoke] using hfirst
          · have hmem : level ∈ visited := by simpa [heq] using hlevel
            simpa [invoke, heq] using hvisited level hmem
        · exact hok
      simpa using hnext

end Broadcast

section Search

variable {key : K} {now : Time} {rest : List ι}

omit [DecidableEq K] in
theorem firstHit_keeps
    (hget : ∀ level state, P level state → P level ((object level).get state key now).2)
    (hsub : ∀ level ∈ rest, level ∈ levels) (hheap : ∀ level ∈ levels, P level (heap level)) (i : Nat) :
    ∀ level ∈ levels, P level ((firstHit object key now rest i heap).2 level) := by
  induction rest generalizing heap i with
  | nil => exact hheap
  | cons level below ih =>
      have hnext : ∀ other ∈ levels, P other
          ((invoke object heap level fun state => (object level).get state key now).2 other) :=
        invoke_keeps hheap (hget level _ (hheap level (hsub level List.mem_cons_self)))
      have hbelow : ∀ other ∈ below, other ∈ levels :=
        fun other hother => hsub other (List.mem_cons_of_mem _ hother)
      unfold firstHit
      split <;> rename_i heq <;> rw [heq] at hnext
      · exact ih hbelow hnext (i + 1)
      · exact ih hbelow hnext (i + 1)
      · exact hnext

omit [DecidableEq K] in
theorem firstHit_none
    (hget : ∀ level state, P level state → P level ((object level).get state key now).2)
    (hmiss : ∀ level ∈ levels, ∀ state value, P level state →
      ((object level).get state key now).1 ≠ .ok (some value))
    (hsub : ∀ level ∈ rest, level ∈ levels) (hheap : ∀ level ∈ levels, P level (heap level)) (i : Nat) :
    (firstHit object key now rest i heap).1 = none := by
  induction rest generalizing heap i with
  | nil => rfl
  | cons level below ih =>
      have hmem := hsub level List.mem_cons_self
      have hnext : ∀ other ∈ levels, P other
          ((invoke object heap level fun state => (object level).get state key now).2 other) :=
        invoke_keeps hheap (hget level _ (hheap level hmem))
      have hbelow : ∀ other ∈ below, other ∈ levels :=
        fun other hother => hsub other (List.mem_cons_of_mem _ hother)
      unfold firstHit
      split <;> rename_i heq <;> rw [heq] at hnext
      · exact ih hbelow hnext (i + 1)
      · exact ih hbelow hnext (i + 1)
      · rename_i value heap'
        exact (hmiss level hmem _ value (hheap level hmem) (congrArg Prod.fst heq)).elim

omit [DecidableEq K] in
theorem remove_keeps
    (hremove : ∀ level state, P level state → P level ((object level).remove state key now).2)
    (hsub : ∀ level ∈ rest, level ∈ levels) (hheap : ∀ level ∈ levels, P level (heap level)) :
    ∀ level ∈ levels, P level ((remove object key now rest heap).2 level) := by
  induction rest generalizing heap with
  | nil => exact hheap
  | cons level below ih =>
      have hnext : ∀ other ∈ levels, P other
          ((invoke object heap level fun state => (object level).remove state key now).2 other) :=
        invoke_keeps hheap (hremove level _ (hheap level (hsub level List.mem_cons_self)))
      have hbelow : ∀ other ∈ below, other ∈ levels :=
        fun other hother => hsub other (List.mem_cons_of_mem _ hother)
      unfold remove
      split <;> rename_i heq <;> rw [heq] at hnext
      · exact ih hbelow hnext
      · split_ifs
        · exact hnext
        · exact ih hbelow hnext

omit [DecidableEq K] in
/-- A removal that succeeds was passed on to every level: none of them failed for another reason than the
absence of the key. -/
theorem remove_reaches
    (hremove : ∀ level state, P level state → Q level ((object level).remove state key now).2)
    (hweaken : ∀ level state, Q level state → P level state) (visited : List ι)
    (hrest : ∀ level ∈ rest, P level (heap level)) (hvisited : ∀ level ∈ visited, Q level (heap level))
    (hok : (remove object key now rest heap).1 = .ok ()) :
    ∀ level ∈ visited ++ rest, Q level ((remove object key now rest heap).2 level) := by
  induction rest generalizing visited heap with
  | nil =>
      rw [List.append_nil]
      exact hvisited
  | cons first rest ih =>
      have hfirst := hremove first _ (hrest first List.mem_cons_self)
      have hnext : ∀ level ∈ rest, P level
          ((invoke object heap first fun state => (object first).remove state key now).2 level) :=
        invoke_keeps (fun level hlevel => hrest level (List.mem_cons_of_mem _ hlevel))
          (hweaken first _ hfirst)
      have hreached : ∀ level ∈ visited ++ [first], Q level
          ((invoke object heap first fun state => (object first).remove state key now).2 level) := by
        intro level hlevel
        by_cases heq : level = first
        · subst heq
          simpa [invoke] using hfirst
        · have hmem : level ∈ visited := by simpa [heq] using hlevel
          simpa [invoke, heq] using hvisited level hmem
      unfold remove at hok ⊢
      split at hok <;> rename_i heq <;> rw [heq] at hnext hreached
      · simpa using ih (visited ++ [first]) hnext hreached hok
      · split_ifs at hok ⊢
        simpa using ih (visited ++ [first]) hnext hreached hok

omit [DecidableEq K] in
theorem contains_keeps
    (hcontains : ∀ level state, P level state → P level ((object level).contains state key now).2)
    (hsub : ∀ level ∈ rest, level ∈ levels) (hheap : ∀ level ∈ levels, P level (heap level)) :
    ∀ level ∈ levels, P level ((contains object key now rest heap).2 level) := by
  induction rest generalizing heap with
  | nil => exact hheap
  | cons level below ih =>
      have hnext : ∀ other ∈ levels, P other
          ((invoke object heap level fun state => (object level).contains state key now).2 other) :=
        invoke_keeps hheap (hcontains level _ (hheap level (hsub level List.mem_cons_self)))
      have hbelow : ∀ other ∈ below, other ∈ levels :=
        fun other hother => hsub other (List.mem_cons_of_mem _ hother)
      unfold contains
      split <;> rename_i heq <;> rw [heq] at hnext
      · exact ih hbelow hnext
      · exact ih hbelow hnext
      · exact hnext

end Search

/-! ### Replies -/

omit [DecidableEq K] in
theorem get_reply (levels : List ι) (heap : Heap object) (key : K) (now : Time) :
    (get object levels heap key now).1 =
      .ok ((firstHit object key now levels 0 heap).1.map Prod.snd) := by
  unfold get
  split <;> rename_i heq <;> rw [heq] <;> rfl

theorem lookup_collect (hits result : UnorderedMap K V) (remaining : List K) (key : K) :
    (collect hits remaining result).lookup key =
      (result.lookup key).or (if key ∈ remaining then hits.lookup key else none) := by
  unfold collect
  induction remaining generalizing result with
  | nil => exact (Option.or_none).symm
  | cons first rest ih =>
      rw [List.foldl_cons, ih]
      cases hlookup : hits.lookup first with
      | none =>
          by_cases heq : key = first
          · subst heq
            simp [hlookup]
          · simp [heq]
      | some value =>
          dsimp only
          rw [UnorderedMap.lookup_emplace]
          by_cases heq : key = first
          · subst heq
            simp [hlookup]
          · simp [heq]

theorem mem_collect {hits result : UnorderedMap K V} {remaining : List K} {key : K}
    (hmem : key ∈ collect hits remaining result) : key ∈ result ∨ key ∈ hits := by
  by_contra hnone
  obtain ⟨hresult, hhits⟩ := not_or.mp hnone
  refine Finmap.lookup_eq_none.mp ?_ hmem
  rw [lookup_collect, Finmap.lookup_eq_none.mpr hresult, Finmap.lookup_eq_none.mpr hhits, ite_self]
  rfl

end MultiLevelCache

end SoulCoreKit.Cache
