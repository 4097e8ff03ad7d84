import Mathlib.Data.Finset.Sort
import SoulCoreKit.Proof.MultiLevelLoops
import SoulCoreKit.Proof.CacheTtl

/-!
# Times to live through the levels

The cache of levels is a class like its levels, so the question is whether it honours TTLs when they
do. It does not: a value copied into an upper level is put there without a TTL. It does along the
runs in which no key under a TTL is copied up, because then the latest put of such a key is the same
at every level.
-/

namespace SoulCoreKit.Cache

variable {K V : Type} [DecidableEq K]

/-! ### One call of the composite -/

namespace MultiLevelCache

variable {ι : Type} [DecidableEq ι] {object : ι → ICache K V} {heap : Heap object} {levels : List ι}

variable {start : Heap object} {deadline : K → Deadline} {now : Time}

/-- Every level owes at most the given deadlines. -/
def LevelsOwe (levels : List ι) (start : Heap object) (deadline : K → Deadline) (now : Time)
    (heap : Heap object) : Prop :=
  ∀ level ∈ levels, (object level).Owes (start level) deadline now (heap level)

theorem owes_read {cls : ICache K V} {start state : cls.State} {call : Call K V}
    (howes : cls.Owes start deadline now state) (hpositive : call.positiveTtl = false)
    (hputs : ∀ key, call.ttlFor key = none) :
    cls.Owes start deadline now (cls.step state ⟨now, call⟩) := by
  apply howes.step rfl
  · intro hcontra
    exact absurd (hpositive.symm.trans hcontra) Bool.false_ne_true
  · intro key
    simp [Timed.deadline, hputs key]

theorem owes_backfill {cls : ICache K V} {start state : cls.State} {key : K} (value : V)
    (howes : cls.Owes start deadline now state) (hfree : deadline key = ⊤) :
    cls.Owes start deadline now (cls.put state key value none now).2 := by
  apply @ICache.Owes.step K V _ cls start state deadline deadline now howes
    ⟨now, .put key value none⟩ rfl
  · intro hcontra
    exact absurd hcontra (by simp [Call.positiveTtl])
  · intro other
    by_cases heq : key = other
    · subst heq
      rw [hfree]
      exact le_top
    · simp [Timed.deadline, Call.ttlFor, heq]

theorem owes_backfillMany {cls : ICache K V} {start state : cls.State}
    {entries : UnorderedMap K V} (howes : cls.Owes start deadline now state)
    (hfree : ∀ key ∈ entries, deadline key = ⊤) :
    cls.Owes start deadline now (cls.putMany state entries none now).2 := by
  apply @ICache.Owes.step K V _ cls start state deadline deadline now howes
    ⟨now, .putMany entries none⟩ rfl
  · intro hcontra
    exact absurd hcontra (by simp [Call.positiveTtl])
  · intro other
    by_cases hmem : other ∈ entries
    · rw [hfree other hmem]
      exact le_top
    · simp [Timed.deadline, Call.ttlFor, hmem]

theorem levelsOwe_firstHit (key : K) (howe : LevelsOwe levels start deadline now heap) :
    LevelsOwe levels start deadline now (firstHit object key now levels 0 heap).2 :=
  firstHit_keeps (fun _ _ howes => @owes_read K V _ deadline _ _ _ _ (.get key) howes rfl fun _ => rfl)
    (fun _ => id) howe 0

theorem firstHit_of_expired {key : K}
    (hhonours : ∀ level ∈ levels, (object level).HonoursTtl (start level))
    (howe : LevelsOwe levels start deadline now heap)
    (hexpired : expired (deadline key) now = true) :
    (firstHit object key now levels 0 heap).1 = none := by
  refine firstHit_none (fun _ _ howes => @owes_read K V _ deadline _ _ _ _ (.get key) howes rfl fun _ => rfl)
    ?_ (fun _ => id) howe 0
  intro level hmem state value howes hvalue
  have hmiss := @ICache.Owes.not_served K V _ _ _ _ _ _ howes (hhonours level hmem) ⟨now, .get key⟩ rfl
    key hexpired
  simp [ICache.exec, hvalue, Call.serves] at hmiss

/-- A call broadcast to the levels sets the same deadlines at every one of them. -/
theorem levelsOwe_broadcast {call : Call K V}
    {method : (level : ι) → (object level).State → Result Unit × (object level).State}
    (hexec : ∀ level state,
      (object level).exec state ⟨now, call⟩ = (method level state).map .done id)
    (hok : call.positiveTtl = true → (broadcast object method levels heap).1.isOk = true)
    (howe : LevelsOwe levels start deadline now heap) :
    LevelsOwe levels start (fun key => Timed.deadline key (deadline key) ⟨now, call⟩) now
      (broadcast object method levels heap).2 := by
  -- The deadlines of the keys the call puts are given up first, so that every level starts equal.
  let lifted : K → Deadline := fun key => if call.ttlFor key = none then deadline key else ⊤
  let set : K → Deadline := fun key => Timed.deadline key (deadline key) ⟨now, call⟩
  have hlifted : ∀ key, set key ≤ lifted key := by
    intro key
    cases hputs : call.ttlFor key with
    | none => simp [set, lifted, Timed.deadline, hputs]
    | some ttl => simp [lifted, hputs]
  have hset : ∀ key, Timed.deadline key (lifted key) ⟨now, call⟩ ≤ set key := by
    intro key
    cases hputs : call.ttlFor key with
    | none => simp [set, lifted, Timed.deadline, hputs]
    | some ttl => simp [set, Timed.deadline, hputs]
  apply @foldl_tell_reaches K V ι _ object
    (fun level => (object level).Owes (start level) lifted now)
    (fun level => (object level).Owes (start level) set now) method
    (call.positiveTtl = true) _ _ [] levels (.ok (), heap) _ (by simp) hok
  · intro level state hstate haccept
    have hstep := @ICache.Owes.step K V _ _ _ _ _ set _ hstate ⟨now, call⟩ rfl
      (by simpa [ICache.Accepts, hexec, Reply.isOk] using haccept) hset
    simpa [ICache.step, hexec] using hstep
  · intro level state hstate
    exact hstate.mono hlifted le_rfl
  · intro level hlevel
    refine (howe level hlevel).mono ?_ le_rfl
    intro key
    by_cases hputs : call.ttlFor key = none <;> simp [lifted, hputs]

/-- No key a lower level answered is under a deadline. -/
def AnswersFree (deadline : K → Deadline) (answers : List (Nat × UnorderedMap K V)) : Prop :=
  ∀ answer ∈ answers, 0 < answer.1 → ∀ key ∈ answer.2, deadline key = ⊤

theorem mem_answers_scanLevel {scan : Scan object} {answer : Nat × UnorderedMap K V}
    (hmem : answer ∈ scan.answers) (i : Nat) (level : ι) :
    answer ∈ (scanLevel object levels now scan i level).answers := by
  unfold scanLevel
  split
  · exact hmem
  · exact List.mem_append_left _ hmem

theorem mem_answers_getManyLoop {scan : Scan object} {answer : Nat × UnorderedMap K V}
    (hmem : answer ∈ scan.answers) (rest : List ι) (i : Nat) :
    answer ∈ (getManyLoop object levels now rest i scan).answers := by
  induction rest generalizing scan i with
  | nil => exact hmem
  | cons level below ih =>
      unfold getManyLoop
      split_ifs
      · exact hmem
      · exact ih (mem_answers_scanLevel hmem i level) (i + 1)

theorem levelsOwe_scanLevel {scan : Scan object} {level : ι} (hmem : level ∈ levels) (i : Nat)
    (howe : LevelsOwe levels start deadline now scan.heap)
    (hfree : AnswersFree deadline (scanLevel object levels now scan i level).answers) :
    LevelsOwe levels start deadline now (scanLevel object levels now scan i level).heap := by
  have hnext : LevelsOwe levels start deadline now (invoke object scan.heap level fun state =>
      (object level).getMany state scan.remaining now).2 :=
    invoke_keeps howe (@owes_read K V _ deadline now _ _ _ (.getMany scan.remaining)
      (howe level hmem) rfl fun _ => rfl)
  unfold scanLevel at hfree ⊢
  split <;> rename_i heq <;> rw [heq] at hnext
  · exact hnext
  · rename_i hits heap'
    rw [heq] at hfree
    simp only
    split_ifs with hbackfill
    · have hhits : ∀ key ∈ hits, deadline key = ⊤ :=
        hfree (i, hits) (List.mem_append_right _ List.mem_cons_self) hbackfill.1
      apply foldl_invoke_keeps
      · intro upper state hstate
        exact owes_backfillMany hstate hhits
      · intro upper hupper
        exact List.mem_of_mem_take hupper
      · exact hnext
    · exact hnext

theorem notMem_result_scanLevel {scan : Scan object} {level : ι} (hmem : level ∈ levels) (i : Nat)
    (hhonours : ∀ level ∈ levels, (object level).HonoursTtl (start level))
    (howe : LevelsOwe levels start deadline now scan.heap) {key : K}
    (hexpired : expired (deadline key) now = true) (hresult : key ∉ scan.result) :
    key ∉ (scanLevel object levels now scan i level).result := by
  have hmiss := @ICache.Owes.not_served K V _ _ _ _ _ _ (howe level hmem) (hhonours level hmem)
    ⟨now, .getMany scan.remaining⟩ rfl key hexpired
  unfold scanLevel
  split <;> rename_i heq
  · exact hresult
  · rename_i hits heap'
    intro hcollected
    rcases mem_collect hcollected with hmem | hmem
    · exact hresult hmem
    · have hanswer : ((object level).getMany (scan.heap level) scan.remaining now).1 = .ok hits :=
        congrArg Prod.fst heq
      simp [ICache.exec, hanswer, Call.serves, hmem] at hmiss

theorem getManyLoop_spec {rest : List ι} (hsub : ∀ level ∈ rest, level ∈ levels)
    (hhonours : ∀ level ∈ levels, (object level).HonoursTtl (start level)) {scan : Scan object}
    (howe : LevelsOwe levels start deadline now scan.heap) (i : Nat)
    (hfree : AnswersFree deadline (getManyLoop object levels now rest i scan).answers)
    (hresult : ∀ key, expired (deadline key) now = true → key ∉ scan.result) :
    LevelsOwe levels start deadline now (getManyLoop object levels now rest i scan).heap ∧
      ∀ key, expired (deadline key) now = true →
        key ∉ (getManyLoop object levels now rest i scan).result := by
  induction rest generalizing scan i with
  | nil => exact ⟨howe, hresult⟩
  | cons level below ih =>
      have hmem := hsub level List.mem_cons_self
      unfold getManyLoop at hfree ⊢
      split_ifs at hfree ⊢
      · exact ⟨howe, hresult⟩
      · apply ih
        · intro other hother
          exact hsub other (List.mem_cons_of_mem _ hother)
        · apply levelsOwe_scanLevel hmem i howe
          intro answer hanswer
          exact hfree answer (mem_answers_getManyLoop hanswer below (i + 1))
        · exact hfree
        · intro key hexpired
          exact notMem_result_scanLevel hmem i hhonours howe hexpired (hresult key hexpired)

/-! ### Whole runs -/

/-- The keys a read copies into the levels above the one that had them. -/
def copied (levels : List ι) (heap : Heap object) : Timed K V → Finset K
  | ⟨now, .get key⟩ =>
      match (firstHit object key now levels 0 heap).1 with
      | some (_ + 1, _) => {key}
      | _ => ∅
  | ⟨now, .getMany keys⟩ =>
      let scan := getManyLoop object levels now levels 0 { remaining := keys, heap }
      (scan.answers.filter fun answer => 0 < answer.1).foldr (fun answer keys => answer.2.keys ∪ keys) ∅
  | _ => ∅

/-- Every level accepts a put under a TTL, and no key that a deadline binds is copied up. -/
def Spares (levels : List ι) (deadline : K → Deadline) (heap : Heap object) (label : Timed K V) :
    Prop :=
  (toICache object levels).Accepts heap label ∧ ∀ key ∈ copied levels heap label, deadline key = ⊤

instance (levels : List ι) (deadline : K → Deadline) (heap : Heap object) (label : Timed K V) :
    Decidable (Spares levels deadline heap label) :=
  inferInstanceAs (Decidable ((_ → _) ∧ _))

theorem mem_foldr_keys {answers : List (Nat × UnorderedMap K V)} {answer : Nat × UnorderedMap K V}
    (hmem : answer ∈ answers) {key : K} (hkey : key ∈ answer.2) :
    key ∈ answers.foldr (fun answer keys => answer.2.keys ∪ keys) ∅ := by
  induction answers with
  | nil => exact absurd hmem List.not_mem_nil
  | cons first rest ih =>
      rw [List.foldr_cons, Finset.mem_union]
      rcases List.mem_cons.mp hmem with heq | hmem
      · left
        rw [← heq]
        exact Finmap.mem_keys.mpr hkey
      · exact .inr (ih hmem)

theorem answersFree_of_copied {heap : Heap object} {keys : List K}
    (hfree : ∀ key ∈ copied levels heap ⟨now, .getMany keys⟩, deadline key = ⊤) :
    AnswersFree deadline
      (getManyLoop object levels now levels 0 { remaining := keys, heap }).answers := by
  intro answer hanswer hbelow key hkey
  apply hfree
  apply mem_foldr_keys _ hkey
  exact List.mem_filter.mpr ⟨hanswer, decide_eq_true hbelow⟩

theorem levelsOwe_get {key : K} (howe : LevelsOwe levels start deadline now heap)
    (hfree : ∀ other ∈ copied levels heap ⟨now, .get key⟩, deadline other = ⊤) :
    LevelsOwe levels start deadline now (get object levels heap key now).2 := by
  have hscanned := levelsOwe_firstHit key howe
  unfold get
  split <;> rename_i heq <;> rw [heq] at hscanned
  · exact hscanned
  · rename_i i value heap'
    cases i with
    | zero => exact hscanned
    | succ i =>
        have hkey : deadline key = ⊤ := hfree key (by simp [copied, heq])
        apply foldl_invoke_keeps
        · intro upper state hstate
          exact owes_backfill value hstate hkey
        · intro upper hupper
          exact List.mem_of_mem_take hupper
        · exact hscanned

theorem levelsOwe_step (hhonours : ∀ level ∈ levels, (object level).HonoursTtl (start level))
    {label : Timed K V} (howe : LevelsOwe levels start deadline label.now heap)
    (hspares : Spares levels deadline heap label) :
    LevelsOwe levels start (fun key => label.deadline key (deadline key)) label.now
      ((toICache object levels).step heap label) := by
  obtain ⟨now, call⟩ := label
  obtain ⟨haccepts, hfree⟩ := hspares
  cases call with
  | get key => exact levelsOwe_get howe hfree
  | put key value ttl => exact levelsOwe_broadcast (fun _ _ => rfl) haccepts howe
  | remove key =>
      exact remove_keeps
        (fun _ _ howes => @owes_read K V _ deadline _ _ _ _ (.remove key) howes rfl fun _ => rfl)
        (fun _ => id) howe
  | contains key =>
      exact contains_keeps
        (fun _ _ howes => @owes_read K V _ deadline _ _ _ _ (.contains key) howes rfl fun _ => rfl)
        (fun _ => id) howe
  | clear => exact levelsOwe_broadcast (fun _ _ => rfl) haccepts howe
  | getMany keys =>
      exact (getManyLoop_spec (fun _ => id) hhonours howe 0 (answersFree_of_copied hfree)
        (fun _ _ => Finmap.notMem_empty)).1
  | putMany entries ttl => exact levelsOwe_broadcast (fun _ _ => rfl) haccepts howe

theorem not_served_of_levelsOwe
    (hhonours : ∀ level ∈ levels, (object level).HonoursTtl (start level)) {label : Timed K V}
    (howe : LevelsOwe levels start deadline label.now heap)
    (hspares : Spares levels deadline heap label) {key : K}
    (hexpired : expired (deadline key) label.now = true) :
    label.call.serves key ((toICache object levels).exec heap label).1 = false := by
  obtain ⟨now, call⟩ := label
  cases call with
  | get other =>
      by_cases heq : other = key
      · subst heq
        have hreply := @get_reply K V ι _ object levels heap other now
        rw [firstHit_of_expired hhonours howe hexpired] at hreply
        simp [ICache.exec, hreply, Call.serves]
      · exact Call.serves_get_of_ne heq _
  | getMany keys =>
      have hresult := (getManyLoop_spec (fun _ => id) hhonours howe 0
        (answersFree_of_copied hspares.2) (fun _ _ => Finmap.notMem_empty)).2 key hexpired
      exact decide_eq_false hresult
  | put other value ttl => rfl
  | remove other => rfl
  | contains other => rfl
  | clear => rfl
  | putMany entries ttl => rfl

theorem levelsOwe_take (hhonours : ∀ level ∈ levels, (object level).HonoursTtl (start level))
    {labels : List (Timed K V)}
    (hclock : labels.Pairwise fun first second => first.now ≤ second.now)
    (hspares : ∀ n (hn : n < labels.length), Spares levels (latestDeadline (labels.take n))
      (run (toICache object levels).step start (labels.take n)) labels[n])
    {n : Nat} (hn : n ≤ labels.length) (hbound : ∀ label ∈ labels.take n, label.now ≤ now) :
    LevelsOwe levels start (latestDeadline (labels.take n)) now
      (run (toICache object levels).step start (labels.take n)) := by
  induction n generalizing now with
  | zero =>
      intro level _
      exact ICache.owes_start _ _ now
  | succ n ih =>
      have hlt : n < labels.length := hn
      have htake : labels.take (n + 1) = labels.take n ++ [labels[n]] :=
        (List.take_append_getElem hlt).symm
      have hbefore : ∀ label ∈ labels.take n, label.now ≤ labels[n].now := by
        have hsorted := hclock.sublist (List.take_sublist (n + 1) labels)
        rw [htake, List.pairwise_append] at hsorted
        intro label hlabel
        exact hsorted.2.2 label hlabel _ (List.mem_singleton_self _)
      have hstep := levelsOwe_step hhonours (ih hlt.le hbefore) (hspares n hlt)
      rw [htake, run_concat]
      intro level hlevel
      apply (hstep level hlevel).mono
      · intro key
        exact (run_concat (labels.take n) labels[n]).ge
      · apply hbound
        rw [htake]
        exact List.mem_append_right _ (List.mem_singleton_self _)

/-- Over levels that honour the TTLs they are given, in every run in which no key under a TTL is
copied up, no read returns a value for a key past the deadline of its latest put. -/
theorem no_value_past_deadline (levels : List ι) (start : Heap object)
    (hhonours : ∀ level ∈ levels, (object level).HonoursTtl (start level))
    {labels : List (Timed K V)}
    (hclock : labels.Pairwise fun first second => first.now ≤ second.now)
    (hspares : ∀ n (hn : n < labels.length), Spares levels (latestDeadline (labels.take n))
      (run (toICache object levels).step start (labels.take n)) labels[n])
    (n : Nat) (hn : n < labels.length) (key : K)
    (hexpired : expired (latestDeadline (labels.take n) key) labels[n].now = true) :
    labels[n].call.serves key ((toICache object levels).exec
      (run (toICache object levels).step start (labels.take n)) labels[n]).1 = false := by
  apply not_served_of_levelsOwe hhonours _ (hspares n hn) hexpired
  apply levelsOwe_take hhonours hclock hspares hn.le
  have hsorted := hclock.sublist (List.take_sublist (n + 1) labels)
  rw [← List.take_append_getElem hn, List.pairwise_append] at hsorted
  intro label hlabel
  exact hsorted.2.2 label hlabel _ (List.mem_singleton_self _)

section MemoryLevels

/-- The keys of a map in increasing order. -/
def visitSorted (m : UnorderedMap Nat Nat) : List Nat := m.keys.sort (· ≤ ·)

theorem enumerates_visitSorted (m : UnorderedMap Nat Nat) :
    UnorderedMap.Enumerates (visitSorted m) m :=
  ⟨Finset.sort_nodup _ _, Finset.sort_toFinset _ _⟩

/-- Two memory caches. -/
def memoryLevels (_ : Fin 2) : ICache Nat Nat := MemoryCache.toICache (fun _ => 1) visitSorted

/-- The upper one has room for one entry. -/
def smallUpper : Heap memoryLevels
  | 0 => ({ config := { maxEntries := 1 } } : MemoryCache Nat Nat)
  | 1 => ({ config := {} } : MemoryCache Nat Nat)

theorem honoursTtl_smallUpper : ∀ level : Fin 2,
    (memoryLevels level).HonoursTtl (smallUpper level)
  | 0 => MemoryCache.honoursTtl (fun _ => 1) enumerates_visitSorted _
  | 1 => MemoryCache.honoursTtl (fun _ => 1) enumerates_visitSorted _

/-- The key is put under a TTL of one millisecond and read from the upper level. -/
def servedAbove : List (Timed Nat Nat) :=
  [⟨0, .put 0 5 (some 1)⟩, ⟨500, .get 0⟩, ⟨1000000, .getMany [0]⟩, ⟨1000001, .get 0⟩]

theorem no_value_past_deadline_servedAbove :
    expired (latestDeadline (servedAbove.take 3) 0) 1000001 = true ∧
      (Call.get 0).serves 0 ((toICache memoryLevels [0, 1]).exec
        (run (toICache memoryLevels [0, 1]).step smallUpper (servedAbove.take 3))
        ⟨1000001, .get 0⟩).1 = false := by
  have hexpired : expired (latestDeadline (servedAbove.take 3) 0) 1000001 = true := by decide
  have hclock : servedAbove.Pairwise fun first second => first.now ≤ second.now := by decide
  exact ⟨hexpired, no_value_past_deadline [0, 1] smallUpper
    (fun level _ => honoursTtl_smallUpper level) hclock (by decide) 3 (by decide) 0 hexpired⟩

/-- The second put evicts the first key from the upper level, the first read copies it back without
a TTL, and a millisecond past its deadline the second read returns it. -/
theorem copy_outlives_ttl :
    (∀ level ∈ ([0, 1] : List (Fin 2)), (memoryLevels level).HonoursTtl (smallUpper level)) ∧
      let labels : List (Timed Nat Nat) :=
        [⟨0, .put 0 5 (some 1)⟩, ⟨0, .put 1 6 none⟩, ⟨0, .get 0⟩, ⟨2000000, .get 0⟩]
      labels.Pairwise (fun first second => first.now ≤ second.now) ∧
        expired (latestDeadline (labels.take 3) 0) 2000000 = true ∧
        (Call.get 0).serves 0 ((toICache memoryLevels [0, 1]).exec
          (run (toICache memoryLevels [0, 1]).step smallUpper (labels.take 3))
          ⟨2000000, .get 0⟩).1 = true := by
  refine ⟨fun level _ => honoursTtl_smallUpper level, ?_⟩
  decide

end MemoryLevels

end MultiLevelCache

end SoulCoreKit.Cache
