import SoulCoreKit.Proof.BatchCalls
import SoulCoreKit.Proof.MemoryCacheInvariant
import SoulCoreKit.Proof.MultiLevelTtl

/-!
# One search or many

`getMany` of the cache of levels sends the keys that are still missing down the levels and copies what
a level had into those above it, while `get` searches for one key. They find the same: of each key, what
the first level holds that has it and does not fail. The copies do not matter, since a level that gets
them is not asked again, unless its pointer stands in the list twice; of such a level it is needed that
a read changes no answer and a put no answer for other keys than those put.
-/

namespace SoulCoreKit.Cache

open UnorderedMap

variable {K V : Type}

namespace ICache

/-- The value a read of the key would return, if the read succeeds and finds one. -/
def peek (cls : ICache K V) (state : cls.State) (now : Time) (key : K) : Option V :=
  match (cls.get state key now).1 with
  | .ok value => value
  | .error _ => none

theorem peek_eq_some_iff {cls : ICache K V} {state : cls.State} {now : Time} {key : K} {value : V} :
    cls.peek state now key = some value ↔ (cls.get state key now).1 = .ok (some value) := by
  unfold peek
  cases (cls.get state key now).1 with
  | ok found => simp
  | error error => simp

variable [DecidableEq K]

/-- `getMany` returns what `get` would of each key, and fails only where `get` would return nothing. -/
structure ManyAgrees (cls : ICache K V) (now : Time) : Prop where
  found : ∀ state keys hits, (cls.getMany state keys now).1 = .ok hits →
    ∀ key, hits.lookup key = if key ∈ keys then cls.peek state now key else none
  failed : ∀ state keys error, (cls.getMany state keys now).1 = .error error →
    ∀ key ∈ keys, cls.peek state now key = none

/-- At the reading, reads change no answer, and putting entries gives no answer for other keys. -/
structure Steady (cls : ICache K V) (now : Time) : Prop where
  get : ∀ state key other, cls.peek (cls.get state key now).2 now other = cls.peek state now other
  getMany : ∀ state keys other,
    cls.peek (cls.getMany state keys now).2 now other = cls.peek state now other
  putMany : ∀ state (entries : UnorderedMap K V) key, key ∉ entries → cls.peek state now key = none →
    cls.peek (cls.putMany state entries none now).2 now key = none

end ICache

/-! ### The memory cache as a level -/

namespace MemoryCache

variable [DecidableEq K] {estimateSize : V → SizeT} {visit : UnorderedMap K V → List K}

theorem peek_toICache (c : MemoryCache K V) (now : Time) (key : K) :
    (toICache estimateSize visit).peek c now key = c.answer now key :=
  c.lookupUnlocked_fst key now

theorem manyAgrees_toICache (now : Time) : (toICache estimateSize visit).ManyAgrees now where
  found c keys hits hmany key := by
    have hlookup := (getManyLoop_eq now keys ∅ c).2 key
    rw [Finmap.lookup_empty, Option.none_or] at hlookup
    rw [← Except.ok.inj hmany, peek_toICache]
    exact hlookup
  failed c keys error hmany := by cases hmany

theorem every_expired_iff {c : MemoryCache K V} {now : Time} {key : K} :
    Every (fun other _ deadline => other = key → expired deadline now = true) c ↔
      c.answer now key = none := by
  unfold Every answer
  constructor
  · intro hevery
    cases hlookup : c.entries.lookup key with
    | none => rfl
    | some entry => exact if_pos (hevery key entry hlookup rfl)
  · rintro hnone _ entry hlookup rfl
    rw [hlookup] at hnone
    by_contra hlive
    dsimp only at hnone
    rw [isExpiredUnlocked, if_neg hlive] at hnone
    cases hnone

theorem steady_toICache (now : Time) : (toICache estimateSize visit).Steady now where
  get c key other := by
    rw [peek_toICache, peek_toICache]
    exact c.answer_lookupUnlocked key now other
  getMany c keys other := by
    rw [peek_toICache, peek_toICache, ← answer_afterGets now c keys other,
      ← (getManyLoop_eq now keys ∅ c).1]
    rfl
  putMany c entries key hnotMem hnone := by
    rw [peek_toICache, ← every_expired_iff] at hnone ⊢
    refine hnone.storeMany estimateSize (fun _ _ _ _ hold => hold) ?_
    rintro ⟨put, value⟩ hput rfl
    obtain ⟨other, -, hother⟩ := List.mem_filterMap.mp hput
    obtain ⟨found, hfound, heq⟩ := Option.map_eq_some_iff.mp hother
    obtain ⟨rfl, -⟩ := Prod.mk.inj heq
    exact absurd (Finmap.mem_of_lookup_eq_some hfound) hnotMem

end MemoryCache

namespace MultiLevelCache

variable {ι : Type} [DecidableEq ι] {object : ι → ICache K V} {start heap : Heap object}
  {level : ι} {upper below : List ι} {keys : List K} {now : Time}

/-- On the keys, the levels answer as they did at the start. -/
def AnswersAs (levels : List ι) (keys : List K) (now : Time) (start heap : Heap object) : Prop :=
  ∀ level ∈ levels, ∀ key ∈ keys,
    (object level).peek (heap level) now key = (object level).peek (start level) now key

/-- What the first of the levels holds that has the key. -/
def found (start : Heap object) (now : Time) (levels : List ι) (key : K) : Option V :=
  levels.findSome? fun level => (object level).peek (start level) now key

/-- After a call to a level that stands further down again only if the call changes no answer. -/
theorem AnswersAs.invoke {R : Type} {method : (object level).State → R × (object level).State}
    (hsame : AnswersAs (level :: below) keys now start heap)
    (hmethod : level ∈ below → ∀ key ∈ keys, (object level).peek (method (heap level)).2 now key =
      (object level).peek (heap level) now key) :
    AnswersAs below keys now start (MultiLevelCache.invoke object heap level method).2 := by
  intro other hother key hkey
  unfold MultiLevelCache.invoke
  dsimp only
  by_cases heq : other = level
  · subst heq
    rw [Function.update_self, hmethod hother key hkey]
    exact hsame other List.mem_cons_self key hkey
  · rw [Function.update_of_ne heq]
    exact hsame other (List.mem_cons_of_mem _ hother) key hkey

omit [DecidableEq ι] in
theorem found_cons (key : K) :
    found start now (level :: below) key =
      ((object level).peek (start level) now key).or (found start now below key) := by
  unfold found
  rw [List.findSome?_cons]
  cases (object level).peek (start level) now key <;> rfl

omit [DecidableEq ι] in
theorem found_concat (key : K) :
    found start now (upper ++ [level]) key =
      (found start now upper key).or ((object level).peek (start level) now key) := by
  unfold found
  rw [List.findSome?_append, List.findSome?_singleton]

/-! ### One key -/

theorem firstHit_cons [DecidableEq K] (key : K) (i : Nat) :
    (firstHit object key now (level :: below) i heap).1.map Prod.snd =
      ((object level).peek (heap level) now key).or
        ((firstHit object key now below (i + 1)
          (invoke object heap level fun state => (object level).get state key now).2).1.map
            Prod.snd) := by
  rw [firstHit]
  unfold invoke ICache.peek
  dsimp only
  cases hget : ((object level).get (heap level) key now).1 with
  | error error => rfl
  | ok value =>
    cases value with
    | none => rfl
    | some value => rfl

theorem firstHit_eq_found [DecidableEq K] {levels : List ι}
    (hsteady : ∀ level, 1 < levels.count level → (object level).Steady now) {key : K}
    (hsame : AnswersAs levels [key] now start heap) (i : Nat) :
    (firstHit object key now levels i heap).1.map Prod.snd = found start now levels key := by
  induction levels generalizing heap i with
  | nil => rfl
  | cons level below ih =>
    have hnext : AnswersAs below [key] now start
        (invoke object heap level fun state => (object level).get state key now).2 := by
      refine hsame.invoke fun hmem other _ => (hsteady level ?_).get (heap level) key other
      rw [List.count_cons_self]
      exact Nat.succ_lt_succ (List.count_pos_iff.mpr hmem)
    have hbelow : ∀ other, 1 < below.count other → (object other).Steady now := fun other hcount =>
      hsteady other (hcount.trans_le List.count_le_count_cons)
    rw [firstHit_cons, found_cons, ih hbelow hnext,
      hsame level List.mem_cons_self key (List.mem_singleton_self key)]

/-! ### Many keys -/

section GetMany

variable [DecidableEq K] {scan : Scan object}

omit [DecidableEq K] in
theorem AnswersAs.backfillUpperMany {entries : UnorderedMap K V}
    (hsame : AnswersAs below keys now start heap)
    (hsteady : ∀ level ∈ upper, level ∈ below → (object level).Steady now)
    (hmissed : ∀ level ∈ upper, ∀ key ∈ keys, (object level).peek (start level) now key = none)
    (hentries : ∀ key ∈ keys, key ∉ entries) :
    AnswersAs below keys now start (backfillUpperMany object heap upper entries now) := by
  unfold MultiLevelCache.backfillUpperMany
  induction upper generalizing heap with
  | nil => exact hsame
  | cons first upper ih =>
    rw [List.foldl_cons]
    refine ih ?_ (fun level hlevel => hsteady level (List.mem_cons_of_mem _ hlevel))
      fun level hlevel => hmissed level (List.mem_cons_of_mem _ hlevel)
    intro level hlevel key hkey
    unfold MultiLevelCache.invoke
    dsimp only
    by_cases heq : level = first
    · subst heq
      have hnone := hmissed level List.mem_cons_self key hkey
      rw [Function.update_self, hnone]
      exact (hsteady level List.mem_cons_self hlevel).putMany _ entries key (hentries key hkey)
        ((hsame level hlevel key hkey).trans hnone)
    · rw [Function.update_of_ne heq]
      exact hsame level hlevel key hkey

/-- What a level that is asked for the remaining keys does to them, and to the result. -/
theorem scanLevel_spec (hagrees : (object level).ManyAgrees now) (levels : List ι) (i : Nat)
    (hsame : ∀ key ∈ scan.remaining, (object level).peek (scan.heap level) now key =
      (object level).peek (start level) now key) :
    (∀ key, key ∈ (scanLevel object levels now scan i level).remaining ↔
      key ∈ scan.remaining ∧ (object level).peek (start level) now key = none) ∧
    ∀ key, (scanLevel object levels now scan i level).result.lookup key =
      (scan.result.lookup key).or
        (if key ∈ scan.remaining then (object level).peek (start level) now key else none) := by
  unfold scanLevel invoke
  dsimp only
  cases hmany : ((object level).getMany (scan.heap level) scan.remaining now).1 with
  | error error =>
    have hnone : ∀ key ∈ scan.remaining, (object level).peek (start level) now key = none :=
      fun key hkey => (hsame key hkey).symm.trans (hagrees.failed _ _ error hmany key hkey)
    refine ⟨fun key => (and_iff_left_of_imp (hnone key)).symm, fun key => ?_⟩
    dsimp only
    by_cases hkey : key ∈ scan.remaining
    · rw [if_pos hkey, hnone key hkey, Option.or_none]
    · rw [if_neg hkey, Option.or_none]
  | ok hits =>
    have hhits : ∀ key ∈ scan.remaining,
        hits.lookup key = (object level).peek (start level) now key := by
      intro key hkey
      rw [hagrees.found _ _ hits hmany key, if_pos hkey, hsame key hkey]
    refine ⟨fun key => ?_, fun key => ?_⟩
    · dsimp only
      rw [List.mem_filter, decide_eq_true_eq, ← Finmap.lookup_eq_none]
      exact and_congr_right fun hkey => by rw [hhits key hkey]
    · dsimp only
      rw [lookup_collect]
      by_cases hkey : key ∈ scan.remaining
      · rw [if_pos hkey, if_pos hkey, hhits key hkey]
      · rw [if_neg hkey, if_neg hkey]

theorem answersAs_scanLevel (levels : List ι) (i : Nat)
    (hsame : AnswersAs (level :: below) scan.remaining now start scan.heap)
    (hsteady : ∀ other ∈ levels.take i ++ [level], other ∈ below → (object other).Steady now)
    (hmissed : ∀ other ∈ levels.take i, ∀ key ∈ scan.remaining,
      (object other).peek (start other) now key = none) :
    AnswersAs below (scanLevel object levels now scan i level).remaining now start
      (scanLevel object levels now scan i level).heap := by
  have hasked : AnswersAs below scan.remaining now start
      (invoke object scan.heap level fun state => (object level).getMany state scan.remaining now).2 :=
    hsame.invoke fun hmem key _ =>
      (hsteady level (List.mem_append_right _ (List.mem_singleton_self level)) hmem).getMany _ _ key
  unfold scanLevel
  split <;> rename_i heq <;> rw [heq] at hasked
  · exact hasked
  · rename_i hits heap'
    have hfewer : AnswersAs below (scan.remaining.filter fun key => key ∉ hits) now start heap' :=
      fun other hother key hkey => hasked other hother key (List.mem_filter.mp hkey).1
    dsimp only
    split
    · refine hfewer.backfillUpperMany
        (fun other hother => hsteady other (List.mem_append_left _ hother))
        (fun other hother key hkey => hmissed other hother key (List.mem_filter.mp hkey).1)
        fun key hkey => of_decide_eq_true (List.mem_filter.mp hkey).2
    · exact hfewer

/-- The scan after some of the levels: what they had of the keys, and the keys that they did not have. -/
structure Scanned (start : Heap object) (now : Time) (keys : List K) (upper : List ι)
    (scan : Scan object) : Prop where
  remaining : ∀ key, key ∈ scan.remaining ↔ key ∈ keys ∧ found start now upper key = none
  result : ∀ key, scan.result.lookup key = if key ∈ keys then found start now upper key else none

omit [DecidableEq ι] in
theorem scanned_start (start : Heap object) (now : Time) (keys : List K) :
    Scanned start now keys [] { remaining := keys, heap := start } where
  remaining key := (and_iff_left rfl).symm
  result key := by
    rw [Finmap.lookup_empty]
    exact ite_self none |>.symm

theorem Scanned.scanLevel (hscanned : Scanned start now keys upper scan)
    (hagrees : (object level).ManyAgrees now) (levels : List ι) (i : Nat)
    (hsame : ∀ key ∈ scan.remaining, (object level).peek (scan.heap level) now key =
      (object level).peek (start level) now key) :
    Scanned start now keys (upper ++ [level]) (MultiLevelCache.scanLevel object levels now scan i level) := by
  obtain ⟨hremaining, hresult⟩ := scanLevel_spec hagrees levels i hsame
  refine ⟨fun key => ?_, fun key => ?_⟩
  · rw [hremaining, hscanned.remaining, found_concat, Option.or_eq_none_iff, and_assoc]
  · rw [hresult, hscanned.result, found_concat]
    by_cases hkey : key ∈ keys
    · rw [if_pos hkey, if_pos hkey]
      cases hfound : found start now upper key with
      | some value => rfl
      | none => rw [if_pos ((hscanned.remaining key).mpr ⟨hkey, hfound⟩)]
    · rw [if_neg hkey, if_neg hkey, if_neg fun hmem => hkey ((hscanned.remaining key).mp hmem).1]
      rfl

theorem getManyLoop_lookup {rest : List ι}
    (hagrees : ∀ level ∈ rest, (object level).ManyAgrees now)
    (hsteady : ∀ level, 1 < (upper ++ rest).count level → (object level).Steady now)
    (hscanned : Scanned start now keys upper scan)
    (hsame : AnswersAs rest scan.remaining now start scan.heap) (key : K) :
    (getManyLoop object (upper ++ rest) now rest upper.length scan).result.lookup key =
      if key ∈ keys then found start now (upper ++ rest) key else none := by
  induction rest generalizing upper scan with
  | nil =>
    rw [List.append_nil]
    exact hscanned.result key
  | cons level below ih =>
    rw [getManyLoop]
    split
    · rename_i hempty
      -- what is left unasked could add nothing
      rw [hscanned.result]
      by_cases hkey : key ∈ keys
      · have hfound : found start now upper key ≠ none := fun hnone => by
          have hmem := (hscanned.remaining key).mpr ⟨hkey, hnone⟩
          rw [List.isEmpty_iff.mp hempty] at hmem
          exact absurd hmem List.not_mem_nil
        obtain ⟨value, hvalue⟩ := Option.ne_none_iff_exists'.mp hfound
        have hmore : found start now (upper ++ level :: below) key = some value := by
          unfold found at hvalue ⊢
          rw [List.findSome?_append, hvalue, Option.some_or]
        rw [hvalue, hmore]
      · rw [if_neg hkey, if_neg hkey]
    · have htake : (upper ++ level :: below).take upper.length = upper := List.take_left
      have hassoc : upper ++ level :: below = upper ++ [level] ++ below := by
        rw [List.append_assoc, List.singleton_append]
      have hrepeated : ∀ other ∈ upper ++ [level], other ∈ below → (object other).Steady now := by
        intro other hupper hbelow
        refine hsteady other ?_
        have hone := List.count_pos_iff.mpr hupper
        have htwo := List.count_pos_iff.mpr hbelow
        rw [hassoc, List.count_append]
        omega
      have hmissed : ∀ other ∈ upper, ∀ key ∈ scan.remaining,
          (object other).peek (start other) now key = none := fun other hother key hkey =>
        List.findSome?_eq_none_iff.mp ((hscanned.remaining key).mp hkey).2 other hother
      have hnext := hscanned.scanLevel (hagrees level List.mem_cons_self) (upper ++ level :: below)
        upper.length fun key => hsame level List.mem_cons_self key
      have hheap := answersAs_scanLevel (upper ++ level :: below) upper.length hsame
        (htake.symm ▸ hrepeated) (htake.symm ▸ hmissed)
      rw [hassoc] at hsteady hnext hheap ⊢
      have hrest := ih (fun other hother => hagrees other (List.mem_cons_of_mem _ hother)) hsteady hnext
        hheap
      rw [List.length_append, List.length_singleton] at hrest
      exact hrest

end GetMany

/-- **One search or many.** Of levels whose `getMany` agrees with their `get`, and which are steady where
their pointer stands in the list twice, `getMany` returns a key exactly if it was asked for and `get`
would return a value, with that value; and `get` returns what the first level holds that does not fail
and has the key. -/
theorem getMany_agrees_with_get [DecidableEq K] (levels : List ι) (now : Time)
    (hagrees : ∀ level ∈ levels, (object level).ManyAgrees now)
    (hsteady : ∀ level, 1 < levels.count level → (object level).Steady now) (heap : Heap object) :
    (∀ keys, ∃ result, (getMany object levels heap keys now).1 = .ok result ∧
      ∀ key value, result.lookup key = some value ↔
        key ∈ keys ∧ (get object levels heap key now).1 = .ok (some value)) ∧
    ∀ key value, (get object levels heap key now).1 = .ok (some value) ↔
      ∃ upper level below, levels = upper ++ level :: below ∧
        ((object level).get (heap level) key now).1 = .ok (some value) ∧
        ∀ other ∈ upper, ∀ value', ((object other).get (heap other) key now).1 ≠ .ok (some value') := by
  have hget : ∀ key, (get object levels heap key now).1 = .ok (found heap now levels key) := by
    intro key
    rw [get_reply, firstHit_eq_found hsteady fun _ _ _ _ => rfl]
  refine ⟨fun keys => ⟨_, rfl, fun key value => ?_⟩, fun key value => ?_⟩
  · have hlookup := getManyLoop_lookup hagrees
      (show ∀ level, 1 < ([] ++ levels).count level → (object level).Steady now from hsteady)
      (scanned_start heap now keys) (fun _ _ _ _ => rfl) key
    rw [List.nil_append, List.length_nil] at hlookup
    rw [hget, Except.ok.injEq, hlookup]
    by_cases hkey : key ∈ keys
    · rw [if_pos hkey, and_iff_right hkey]
    · rw [if_neg hkey]
      exact iff_of_false (fun hsome => by cases hsome) fun hboth => hkey hboth.1
  · rw [hget, Except.ok.injEq, found, List.findSome?_eq_some_iff]
    simp only [ICache.peek_eq_some_iff, Option.eq_none_iff_forall_ne_some, ne_eq]

/-- The upper memory cache is asked again below the lower one, which alone has the key 7. -/
theorem getMany_agrees_with_get_memoryLevels :
    let heap : Heap memoryLevels := fun level =>
      ((memoryLevels level).put { config := { maxEntries := 1 } } (7 * level.val) level.val none 0).2
    ∃ result, (getMany memoryLevels [0, 1, 0] heap [7, 7] 0).1 = .ok result ∧
      ∀ key value, result.lookup key = some value ↔
        key ∈ [7, 7] ∧ (get memoryLevels [0, 1, 0] heap key 0).1 = .ok (some value) := by
  intro heap
  exact (getMany_agrees_with_get [0, 1, 0] 0 (fun _ _ => MemoryCache.manyAgrees_toICache 0)
    (fun _ _ => MemoryCache.steady_toICache 0) heap).1 [7, 7]

end MultiLevelCache

end SoulCoreKit.Cache
