import Mathlib.Data.Finset.Sort
import SoulCoreKit.Cache.MultiLevelCache
import SoulCoreKit.Proof.CacheTtl
import SoulCoreKit.Proof.DiskCacheAccounting
import SoulCoreKit.Proof.MultiLevelLoops

/-!
# Removed keys

A cache of memory and disk levels does not bring back a key that was removed, as long as no data file of
the key outlives the removal. `DiskCache::remove` answers `NotFound` for a file it could not delete, which
the cache of levels takes for the absence of the key.
-/

namespace SoulCoreKit.Cache

variable {K V : Type} [DecidableEq K]

/-- A sign that the class does not have the key: every call that does not put the key keeps it, and under
it no read returns a value for the key. -/
structure ICache.Absence (cls : ICache K V) (key : K) (lacks : cls.State → Prop) : Prop where
  step {state : cls.State} (hlacks : lacks state) (label : Timed K V)
    (hputs : label.call.ttlFor key = none) : lacks (cls.step state label)
  get {state : cls.State} (hlacks : lacks state) (now : Time) (value : V) :
    (cls.get state key now).1 ≠ .ok (some value)
  getMany {state : cls.State} (hlacks : lacks state) {now : Time} {keys : List K}
    {hits : UnorderedMap K V} (hhits : (cls.getMany state keys now).1 = .ok hits) : key ∉ hits

theorem ICache.Absence.run {cls : ICache K V} {key : K} {lacks : cls.State → Prop}
    (habsence : cls.Absence key lacks) {state : cls.State} (hlacks : lacks state)
    {calls : List (Timed K V)} (hputs : ∀ label ∈ calls, label.call.ttlFor key = none) :
    lacks (SoulCoreKit.run cls.step state calls) := by
  induction calls generalizing state with
  | nil => exact hlacks
  | cons label rest ih =>
      exact ih (habsence.step hlacks label (hputs label List.mem_cons_self))
        (fun other hother => hputs other (List.mem_cons_of_mem label hother))

/-! ### The cache of levels -/

namespace MultiLevelCache

variable {ι : Type} [DecidableEq ι] {object : ι → ICache K V} {levels : List ι} {key : K}
  {lacks : (level : ι) → (object level).State → Prop}
  (habsence : ∀ level, (object level).Absence key (lacks level)) {heap : Heap object} {now : Time}

include habsence

theorem absent_get (hheap : ∀ level ∈ levels, lacks level (heap level)) (other : K) :
    ∀ level ∈ levels, lacks level ((get object levels heap other now).2 level) := by
  have hget : ∀ level state, lacks level state → lacks level ((object level).get state other now).2 :=
    fun level state hlacks => (habsence level).step hlacks ⟨now, .get other⟩ rfl
  have hscanned := firstHit_keeps hget (fun _ => id) hheap 0
  unfold get
  split <;> rename_i heq <;> rw [heq] at hscanned
  · exact hscanned
  · rename_i i value heap'
    -- A value was found, so it is not one of the key that is absent.
    have hne : other ≠ key := by
      rintro rfl
      have hnone := firstHit_none hget
        (fun level _ _ value hlacks => (habsence level).get hlacks now value) (fun _ => id) hheap 0
      rw [heq] at hnone
      cases hnone
    apply foldl_invoke_keeps
    · intro upper state hlacks
      exact (habsence upper).step hlacks ⟨now, .put other value none⟩ (if_neg hne)
    · intro upper hupper
      exact List.mem_of_mem_take hupper
    · exact hscanned

theorem absent_scanLevel {scan : Scan object} {level : ι} (hmem : level ∈ levels) (i : Nat)
    (hheap : ∀ level ∈ levels, lacks level (scan.heap level)) (hresult : key ∉ scan.result) :
    (∀ other ∈ levels, lacks other ((scanLevel object levels now scan i level).heap other)) ∧
      key ∉ (scanLevel object levels now scan i level).result := by
  have hnext : ∀ other ∈ levels, lacks other ((invoke object scan.heap level fun state =>
      (object level).getMany state scan.remaining now).2 other) :=
    invoke_keeps hheap ((habsence level).step (hheap level hmem) ⟨now, .getMany scan.remaining⟩ rfl)
  unfold scanLevel
  split <;> rename_i heq <;> rw [heq] at hnext
  · exact ⟨hnext, hresult⟩
  · rename_i hits heap'
    have hhits : key ∉ hits := (habsence level).getMany (hheap level hmem) (congrArg Prod.fst heq)
    refine ⟨?_, ?_⟩
    · simp only
      split_ifs
      · apply foldl_invoke_keeps
        · intro upper state hlacks
          exact (habsence upper).step hlacks ⟨now, .putMany hits none⟩ (if_neg hhits)
        · intro upper hupper
          exact List.mem_of_mem_take hupper
        · exact hnext
      · exact hnext
    · intro hcollected
      rcases mem_collect hcollected with hmem | hmem
      · exact hresult hmem
      · exact hhits hmem

theorem absent_getManyLoop {rest : List ι} (hsub : ∀ level ∈ rest, level ∈ levels) (scan : Scan object)
    (i : Nat) (hheap : ∀ level ∈ levels, lacks level (scan.heap level)) (hresult : key ∉ scan.result) :
    (∀ level ∈ levels, lacks level ((getManyLoop object levels now rest i scan).heap level)) ∧
      key ∉ (getManyLoop object levels now rest i scan).result := by
  induction rest generalizing scan i with
  | nil => exact ⟨hheap, hresult⟩
  | cons level below ih =>
      unfold getManyLoop
      split_ifs
      · exact ⟨hheap, hresult⟩
      · obtain ⟨hnext, hnot⟩ := absent_scanLevel habsence (hsub level List.mem_cons_self) i hheap hresult
        exact ih (fun other hother => hsub other (List.mem_cons_of_mem _ hother)) _ (i + 1) hnext hnot

theorem absent_broadcast {call : Call K V} (hputs : call.ttlFor key = none)
    {method : (level : ι) → (object level).State → Result Unit × (object level).State}
    (hexec : ∀ level state, (object level).step state ⟨now, call⟩ = (method level state).2)
    (hheap : ∀ level ∈ levels, lacks level (heap level)) :
    ∀ level ∈ levels, lacks level ((broadcast object method levels heap).2 level) := by
  apply @foldl_tell_reaches K V ι _ object lacks lacks method False _ (fun _ _ => id) [] levels
    (.ok (), heap) hheap (by simp) False.elim
  intro level state hlacks _
  rw [← hexec]
  exact (habsence level).step hlacks ⟨now, call⟩ hputs

theorem absence (levels : List ι) :
    (toICache object levels).Absence key fun heap => ∀ level ∈ levels, lacks level (heap level) where
  step := by
    intro heap hheap label hputs
    obtain ⟨now, call⟩ := label
    cases call with
    | get other => exact absent_get habsence hheap other
    | put other value ttl => exact absent_broadcast habsence hputs (fun _ _ => rfl) hheap
    | remove other =>
        exact remove_keeps (fun level _ hlacks => (habsence level).step hlacks ⟨now, .remove other⟩ rfl)
          (fun _ => id) hheap
    | contains other =>
        exact contains_keeps
          (fun level _ hlacks => (habsence level).step hlacks ⟨now, .contains other⟩ rfl) (fun _ => id) hheap
    | clear => exact absent_broadcast habsence hputs (fun _ _ => rfl) hheap
    | getMany keys =>
        exact (absent_getManyLoop habsence (fun _ => id) { remaining := keys, heap } 0 hheap
          Finmap.notMem_empty).1
    | putMany entries ttl => exact absent_broadcast habsence hputs (fun _ _ => rfl) hheap
  get := by
    intro heap hheap now value hvalue
    have hnone := firstHit_none
      (fun level _ hlacks => (habsence level).step hlacks ⟨now, .get key⟩ rfl)
      (fun level _ _ value hlacks => (habsence level).get hlacks now value) (fun _ => id) hheap 0
    have hreply : (MultiLevelCache.get object levels heap key now).1 = .ok none := by
      rw [get_reply, hnone]
      rfl
    cases hreply.symm.trans hvalue
  getMany := by
    intro heap hheap now keys hits hhits
    have hresult := (@absent_getManyLoop K V _ ι _ object levels key lacks habsence now levels
      (fun _ => id) { remaining := keys, heap } 0 hheap Finmap.notMem_empty).2
    cases hhits
    exact hresult

end MultiLevelCache

/-! ### The memory cache -/

namespace MemoryCache

variable {estimateSize : V → SizeT} {visit : UnorderedMap K V → List K}

theorem absence (key : K) :
    (toICache estimateSize visit).Absence key (Every fun other _ _ => other ≠ key) where
  step := by
    intro c hlacks label hputs
    obtain ⟨now, call⟩ := label
    cases call with
    | get other => exact hlacks.lookupUnlocked other now
    | put other value ttl =>
        have hne : other ≠ key := by simpa [Call.ttlFor] using hputs
        exact hlacks.storeUnlocked _ (fun _ _ _ _ h => h) hne
    | remove other => exact (hlacks.remove other).mono fun _ _ _ hand => hand.2
    | contains other => exact hlacks.contains other now
    | clear => exact every_empty rfl
    | getMany keys => exact (hlacks.getManyLoop (fun _ _ _ => trivial) (fun _ _ _ _ _ _ _ => trivial)).1
    | putMany entries ttl =>
        have hnot : key ∉ entries := by simpa [Call.ttlFor] using hputs
        refine hlacks.storeMany estimateSize (fun _ _ _ _ h => h) ?_
        intro entry hentry heq
        obtain ⟨other, -, hother⟩ := List.mem_filterMap.mp hentry
        obtain ⟨value, hlookup, rfl⟩ := Option.map_eq_some_iff.mp hother
        exact hnot (heq ▸ Finmap.mem_of_lookup_eq_some hlookup)
  get := by
    intro c hlacks now value hvalue
    obtain ⟨_, hne, -⟩ := hlacks.lookupUnlocked_some (Except.ok.inj hvalue)
    exact hne rfl
  getMany := by
    intro c hlacks now keys hits hhits hmem
    obtain ⟨value, hlookup⟩ := Finmap.mem_iff.mp hmem
    cases hhits
    have hnone : ∀ other (value : V), (∅ : UnorderedMap K V).lookup other = some value → other ≠ key := by
      simp
    exact (hlacks.getManyLoop hnone (fun _ _ _ _ _ hne _ => hne)).2 key value hlookup rfl

end MemoryCache

/-! ### The disk cache -/

namespace DiskCache

variable {Path : Type} [DecidableEq Path] {c : DiskCache Path} {path : Path}

theorem notMem_removeData (h : path ∉ c.files) (other : Path) (env : Env Path) :
    path ∉ (c.removeData other env).2.files := by
  unfold removeData
  split_ifs
  · intro hmem
    exact h (Finmap.mem_erase.mp hmem).2
  · exact h

theorem notMem_dropExpired (h : path ∉ c.files) (other : Path) (env : Env Path) :
    path ∉ (c.dropExpired other env).files := by
  simp only [dropExpired, subtractSize_files, removeTtl_files]
  exact notMem_removeData h other env

theorem notMem_evictLruUnlocked (h : path ∉ c.files) (env : Env Path) :
    path ∉ (c.evictLruUnlocked env).files := by
  unfold evictLruUnlocked
  split
  · exact h
  · rename_i other _ _
    have hdeleted := notMem_removeData h other env
    simp only
    split_ifs <;> simpa using hdeleted

theorem notMem_evictLoop (h : path ∉ c.files) (incomingSize : Nat) (env : Env Path) (fuel : Nat) :
    path ∉ (evictLoop incomingSize env fuel c).files := by
  induction fuel generalizing c with
  | zero => exact h
  | succ fuel ih =>
      unfold evictLoop
      split_ifs
      · exact ih (notMem_evictLruUnlocked h env)
      · exact h

theorem notMem_evictToFitUnlocked (h : path ∉ c.files) (incomingSize : Nat) (env : Env Path) :
    path ∉ (c.evictToFitUnlocked incomingSize env).2.files := by
  unfold evictToFitUnlocked
  split_ifs
  · exact h
  · exact h
  · exact notMem_evictLoop h incomingSize env _

theorem notMem_writeAtomically (h : path ∉ c.files) {target : Path} (hne : path ≠ target) (data : Bytes)
    (env : Env Path) : path ∉ (c.writeAtomically target data env).2.files := by
  unfold writeAtomically
  split_ifs
  · rw [Finmap.mem_insert, not_or]
    exact ⟨hne, h⟩
  · exact h

theorem notMem_restrict {files : UnorderedMap Path Bytes} (h : path ∉ files) (paths : List Path) :
    path ∉ restrict files paths := by
  unfold restrict
  refine List.foldlRecOn (motive := fun kept => path ∉ kept) paths _ Finmap.notMem_empty ?_
  intro kept hkept other _
  split
  · exact hkept
  · rename_i content hlookup
    rw [Finmap.mem_insert, not_or]
    refine ⟨?_, hkept⟩
    rintro rfl
    exact h (Finmap.mem_of_lookup_eq_some hlookup)

variable {keyToDataPath : K → Path} {key : K}

omit [DecidableEq K] in
theorem notMem_get (h : path ∉ c.files) (other : K) (env : Env Path) :
    path ∉ (c.get keyToDataPath other env).2.files := by
  unfold get
  simp only
  split
  · exact h
  · split_ifs
    · exact notMem_dropExpired h _ env
    · exact h
    · exact h

omit [DecidableEq K] in
theorem notMem_contains (h : path ∉ c.files) (other : K) (env : Env Path) :
    path ∉ (c.contains keyToDataPath other env).2.files := by
  unfold contains
  simp only
  split_ifs
  · exact notMem_dropExpired h _ env
  · exact h
  · exact h

omit [DecidableEq K] in
theorem notMem_storeUnlocked (h : path ∉ c.files) {other : K} (hne : path ≠ keyToDataPath other)
    (writeFailed : String) (value : Bytes) (ttl : Option Millis) (env : Env Path) :
    path ∉ (c.storeUnlocked keyToDataPath writeFailed other value ttl env).2.files := by
  have hroom := notMem_evictToFitUnlocked h value.length env
  have hwritten := notMem_writeAtomically hroom hne (toQByteArray value) env
  unfold storeUnlocked
  simp only
  split_ifs <;> first | exact h | exact hroom | simpa [touchUnlocked] using hwritten

omit [DecidableEq K] in
theorem notMem_putMany (h : path ∉ c.files) {entries : List (K × Bytes × Env Path)}
    (hne : ∀ entry ∈ entries, path ≠ keyToDataPath entry.1) (ttl : Option Millis) :
    path ∉ (c.putMany keyToDataPath entries ttl).2.files := by
  induction entries generalizing c with
  | nil => exact h
  | cons first rest ih =>
      obtain ⟨other, value, env⟩ := first
      have hstored := notMem_storeUnlocked h (hne _ List.mem_cons_self)
        "DiskCache: atomic write failed in putMany" value ttl env
      unfold putMany
      split <;> rename_i heq <;> rw [heq] at hstored
      · exact hstored
      · exact ih hstored fun entry hentry => hne entry (List.mem_cons_of_mem _ hentry)

omit [DecidableEq K] in
theorem notMem_remove (c : DiskCache Path) (key : K) (env : Env Path)
    (hdeletes : keyToDataPath key ∈ c.files → env.io.removeData (keyToDataPath key) = true) :
    keyToDataPath key ∉ (c.remove keyToDataPath key env).2.files := by
  have hgone : keyToDataPath key ∉ (c.removeData (keyToDataPath key) env).2.files := by
    unfold removeData
    split_ifs with hfile
    · intro hmem
      exact (Finmap.mem_erase.mp hmem).1 rfl
    · exact fun hmem => hfile ⟨hmem, hdeletes hmem⟩
  unfold remove
  simp only
  split_ifs <;> simpa using hgone

omit [DecidableEq K] in
theorem notMem_remove_other (h : path ∉ c.files) (other : K) (env : Env Path) :
    path ∉ (c.remove keyToDataPath other env).2.files := by
  have hgone := notMem_removeData h (keyToDataPath other) env
  unfold remove
  simp only
  split_ifs <;> simpa using hgone

theorem notMem_getManyLoop (h : path ∉ c.files) {keys : List (K × Env Path)}
    {result : UnorderedMap K Bytes} :
    path ∉ (getManyLoop keyToDataPath keys result c).2.files ∧
      ∀ key, keyToDataPath key = path → key ∉ result →
        key ∉ (getManyLoop keyToDataPath keys result c).1 := by
  induction keys generalizing c result with
  | nil => exact ⟨h, fun _ _ hnot => hnot⟩
  | cons first rest ih =>
      obtain ⟨other, env⟩ := first
      unfold getManyLoop
      simp only
      split
      · exact ih (c := c.missed) h
      · rename_i data hlookup
        by_cases hexpired : c.isExpired (keyToDataPath other) env = true
        · rw [if_pos hexpired]
          exact ih (c := (c.dropExpired (keyToDataPath other) env).missed) (notMem_dropExpired h _ env)
        rw [if_neg hexpired]
        by_cases hopen : ¬ env.io.openData = true
        · rw [if_pos hopen]
          exact ih (c := c.missed) h
        rw [if_neg hopen]
        obtain ⟨hfiles, hresult⟩ := @ih (c.hit.touchUnlocked (keyToDataPath other) env) h
          (if other ∈ result then result else result.insert other data)
        refine ⟨hfiles, ?_⟩
        intro key hpath hnot
        apply hresult key hpath
        split_ifs
        · exact hnot
        · rw [Finmap.mem_insert, not_or]
          refine ⟨?_, hnot⟩
          rintro rfl
          exact h (hpath ▸ Finmap.mem_of_lookup_eq_some hlookup)

end DiskCache

namespace DiskLevel

variable {Path : Type} [DecidableEq Path] {keyToDataPath : K → Path}
  {visit : UnorderedMap K Bytes → List K}

/-- No other key has the path of the key, so only a put of the key writes its file. -/
theorem absence (hinjective : Function.Injective keyToDataPath) (key : K) :
    (toICache keyToDataPath visit).Absence key fun s => keyToDataPath key ∉ s.cache.files where
  step := by
    intro s hlacks label hputs
    obtain ⟨now, call⟩ := label
    cases call with
    | get other => exact DiskCache.notMem_get hlacks other _
    | put other value ttl =>
        have hne : other ≠ key := by simpa [Call.ttlFor] using hputs
        exact DiskCache.notMem_storeUnlocked hlacks (fun heq => hne (hinjective heq).symm) _ value ttl _
    | remove other => exact DiskCache.notMem_remove_other hlacks other _
    | contains other => exact DiskCache.notMem_contains hlacks other _
    | clear =>
        simp only [ICache.step, ICache.exec, toICache, DiskCache.clear]
        split_ifs
        · exact DiskCache.notMem_restrict hlacks _
        · exact hlacks
    | getMany keys => exact (DiskCache.notMem_getManyLoop hlacks).1
    | putMany entries ttl =>
        have hnot : key ∉ entries := by simpa [Call.ttlFor] using hputs
        refine DiskCache.notMem_putMany hlacks ?_ ttl
        intro entry hentry hpath
        obtain ⟨⟨⟨other, value⟩, i⟩, hmem, rfl⟩ := List.mem_map.mp hentry
        obtain ⟨listed, -, hlisted⟩ := List.mem_filterMap.mp (List.fst_mem_of_mem_zipIdx hmem)
        obtain ⟨held, hlookup, hpair⟩ := Option.map_eq_some_iff.mp hlisted
        cases hpair
        exact hnot (hinjective hpath ▸ Finmap.mem_of_lookup_eq_some hlookup)
  get := by
    intro s hlacks now value hvalue
    have hnone : s.cache.files.lookup (keyToDataPath key) = none := Finmap.lookup_eq_none.mpr hlacks
    simp [DiskCache.get, hnone] at hvalue
  getMany := by
    intro s hlacks now keys hits hhits
    cases hhits
    exact (DiskCache.notMem_getManyLoop hlacks).2 key rfl Finmap.notMem_empty

end DiskLevel

/-! ### Memory and disk levels -/

namespace LevelClass

variable {Path : Type} [DecidableEq Path]

def DistinctPaths : LevelClass K Path → Prop
  | .memory _ _ => True
  | .disk keyToDataPath _ => Function.Injective keyToDataPath

def Lacks (key : K) : (cls : LevelClass K Path) → cls.toICache.State → Prop
  | .memory _ _, c => MemoryCache.Every (fun other _ _ => other ≠ key) c
  | .disk keyToDataPath _, s => keyToDataPath key ∉ s.cache.files

/-- The next call to a disk level can delete the data file of the key, if there is one. -/
def Deletes (key : K) : (cls : LevelClass K Path) → cls.toICache.State → Prop
  | .memory _ _, _ => True
  | .disk keyToDataPath _, s =>
      keyToDataPath key ∈ s.cache.files → (s.outside 0).io.removeData (keyToDataPath key) = true

theorem absence {cls : LevelClass K Path} (hdistinct : cls.DistinctPaths) (key : K) :
    cls.toICache.Absence key (cls.Lacks key) := by
  cases cls with
  | memory estimateSize visit => exact MemoryCache.absence key
  | disk keyToDataPath visit => exact DiskLevel.absence hdistinct key

theorem lacks_remove {cls : LevelClass K Path} {key : K} {state : cls.toICache.State}
    (h : cls.Deletes key state) (now : Time) : cls.Lacks key (cls.toICache.remove state key now).2 := by
  cases cls with
  | memory estimateSize visit =>
      have hall : MemoryCache.Every (fun _ _ _ => True) state := fun _ _ _ => trivial
      exact (hall.remove key).mono fun _ _ _ hand => hand.1
  | disk keyToDataPath visit => exact DiskCache.notMem_remove _ key _ h

theorem Lacks.deletes {cls : LevelClass K Path} {key : K} {state : cls.toICache.State}
    (h : cls.Lacks key state) : cls.Deletes key state := by
  cases cls with
  | memory estimateSize visit => exact trivial
  | disk keyToDataPath visit => exact fun hmem => (h hmem).elim

end LevelClass

/-- After a removal during which every disk level can delete the data file of the key, and as long as the
key is not put again, no read finds it. -/
theorem absent_after_remove {ι Path : Type} [DecidableEq ι] [DecidableEq Path]
    (cls : ι → LevelClass K Path) (hdistinct : ∀ level, (cls level).DistinctPaths) (levels : List ι)
    (heap : MultiLevelCache.Heap fun level => (cls level).toICache) (key : K) (now : Time)
    (hdeletes : ∀ level ∈ levels, (cls level).Deletes key (heap level))
    (hok : (MultiLevelCache.remove (fun level => (cls level).toICache) key now levels heap).1 = .ok ())
    (calls : List (Timed K Bytes)) (hputs : ∀ label ∈ calls, label.call.ttlFor key = none) (later : Time)
    (keys : List K) :
    let removed := (MultiLevelCache.remove (fun level => (cls level).toICache) key now levels heap).2
    let state :=
      run (MultiLevelCache.toICache (fun level => (cls level).toICache) levels).step removed calls
    (MultiLevelCache.get (fun level => (cls level).toICache) levels state key later).1 = .ok none ∧
      ∃ hits, (MultiLevelCache.getMany (fun level => (cls level).toICache) levels state keys later).1 =
        .ok hits ∧ key ∉ hits := by
  intro removed state
  have habsence := MultiLevelCache.absence (fun level => (cls level).absence (hdistinct level) key) levels
  have hremoved : ∀ level ∈ levels, (cls level).Lacks key (removed level) :=
    MultiLevelCache.remove_reaches (P := fun level => (cls level).Deletes key)
      (Q := fun level => (cls level).Lacks key) (fun _ _ h => LevelClass.lacks_remove h now)
      (fun _ _ h => h.deletes) [] hdeletes (by simp) hok
  have hstate := habsence.run hremoved hputs
  refine ⟨?_, _, rfl, habsence.getMany hstate rfl⟩
  have hreply := MultiLevelCache.get_reply levels state key later
  rw [hreply]
  cases hfound : (MultiLevelCache.firstHit _ key later levels 0 state).1 with
  | none => rfl
  | some hit =>
      rw [hfound] at hreply
      exact (habsence.get hstate later hit.2 hreply).elim

/-! ### A memory level above a disk level -/

/-- A loop over a map visits the keys in their order. -/
def visitAscending (m : UnorderedMap Nat Bytes) : List Nat := m.keys.sort (· ≤ ·)

/-- Keys are their own paths. -/
def twoLevels : Fin 2 → LevelClass Nat Nat
  | 0 => .memory (fun _ => 1) visitAscending
  | 1 => .disk id visitAscending

theorem twoLevels_distinct : ∀ level, (twoLevels level).DistinctPaths
  | 0 => trivial
  | 1 => Function.injective_id

/-- The caches are empty; the calls to the disk level meet what is given. -/
def emptyLevels (outside : Nat → DiskCache.Env Nat) :
    MultiLevelCache.Heap fun level => (twoLevels level).toICache
  | 0 => ({ config := {} } : MemoryCache Nat Bytes)
  | 1 => ({ cache := { config := {} }, outside } : DiskLevel Nat)

/-- The key stored at both levels, where every file operation succeeds. -/
def storedSeven : MultiLevelCache.Heap fun level => (twoLevels level).toICache :=
  (MultiLevelCache.put (fun level => (twoLevels level).toICache) (List.finRange 2)
    (emptyLevels fun _ => { wall := 0, steady := 0 }) 7 [42] none 0).2

/-- Calls that put another key and read both. -/
def withoutSeven : List (Timed Nat Bytes) :=
  [⟨2, .put 8 [43] none⟩, ⟨3, .get 7⟩, ⟨4, .getMany [7, 8]⟩, ⟨5, .contains 7⟩]

theorem storedSeven_deletes : ∀ level ∈ [0, 1], (twoLevels level).Deletes 7 (storedSeven level)
  | 0, _ => trivial
  | 1, _ => fun _ => by decide +kernel

theorem absent_after_remove_storedSeven :
    let object := fun level => (twoLevels level).toICache
    let removed := (MultiLevelCache.remove object 7 1 [0, 1] storedSeven).2
    let state := run (MultiLevelCache.toICache object [0, 1]).step removed withoutSeven
    (MultiLevelCache.get object [0, 1] state 7 6).1 = .ok none ∧
      ∃ hits, (MultiLevelCache.getMany object [0, 1] state [7, 8] 6).1 = .ok hits ∧ 7 ∉ hits :=
  absent_after_remove twoLevels twoLevels_distinct [0, 1] storedSeven 7 1 storedSeven_deletes
    (by decide +kernel) withoutSeven (by decide) 6 [7, 8]

/-- The deletions of the second call fail. -/
def failingDeletion (i : Nat) : DiskCache.Env Nat where
  wall := 0
  steady := 0
  io := { removeData := fun _ => i ≠ 1 }

/-- The file is still there when `remove` has answered that the key was not found, and the next read
brings the key back. -/
theorem undeleted_file_served :
    let object := fun level => (twoLevels level).toICache
    let stored := (MultiLevelCache.put object [0, 1] (emptyLevels failingDeletion) 7 [42] none 0).2
    let removed := MultiLevelCache.remove object 7 1 [0, 1] stored
    removed.1 = .ok () ∧ (MultiLevelCache.get object [0, 1] removed.2 7 2).1 = .ok (some [42]) := by
  decide +kernel

end SoulCoreKit.Cache
