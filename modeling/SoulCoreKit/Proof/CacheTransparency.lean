import SoulCoreKit.Orm.CachedRepository
import SoulCoreKit.Proof.MemoryCacheInvariant

/-!
# Reads through the cached repository

A read through the decorator answers as the delegate would as long as the cache serves nothing but what
the delegate holds. Every call keeps that except the two batches that do not tell the cache: `saveBatch`,
and a `removeBatch` that fails after a part of it was applied.
-/

namespace SoulCoreKit.Cache

variable {K V : Type}

namespace ICache

/-- A `get` now returns the value. -/
def Serves (cls : ICache K V) (state : cls.State) (now : Time) (key : K) (value : V) : Prop :=
  (cls.get state key now).1 = .ok (some value)

/-- A cache whose `put` and `remove` succeed. It serves what was put last and not removed since, and may
lose it: what it serves later it serves now. -/
structure Obeys (cls : ICache K V) : Prop where
  wait {state : cls.State} {now later : Time} {key : K} {value : V} (hlater : now ≤ later)
    (hserves : cls.Serves state later key value) : cls.Serves state now key value
  get {state : cls.State} {now : Time} {key other : K} {value : V}
    (hserves : cls.Serves (cls.get state other now).2 now key value) : cls.Serves state now key value
  put {state : cls.State} {now : Time} {key other : K} {value stored : V} {ttl : Option Millis}
    (hserves : cls.Serves (cls.put state other stored ttl now).2 now key value) :
    (key = other ∧ value = stored) ∨ (key ≠ other ∧ cls.Serves state now key value)
  remove {state : cls.State} {now : Time} {key other : K} {value : V}
    (hserves : cls.Serves (cls.remove state other now).2 now key value) :
    key ≠ other ∧ cls.Serves state now key value

end ICache

namespace MemoryCache

variable [DecidableEq K] {c : MemoryCache K V} {estimateSize : V → SizeT}
  {visit : UnorderedMap K V → List K}

theorem serves_iff {now : Time} {key : K} {value : V} :
    (toICache estimateSize visit).Serves c now key value ↔
      (c.lookupUnlocked key now).1 = some value := by
  change (Except.ok (c.lookupUnlocked key now).1 : Result (Option V)) = .ok (some value) ↔ _
  rw [Except.ok.injEq]

/-- The entry behind a value that is served. -/
def HasEntry (c : MemoryCache K V) (key : K) (value : V) (deadline : Deadline) : Prop :=
  ∃ entry, c.entries.lookup key = some entry ∧ entry.value = value ∧ entry.expireTime = deadline

theorem every_hasEntry (c : MemoryCache K V) : Every c.HasEntry c :=
  fun _ entry hlookup => ⟨entry, hlookup, rfl, rfl⟩

theorem serves_of_hasEntry {now : Time} {key : K} {value : V} {deadline : Deadline}
    (hentry : c.HasEntry key value deadline) (hlive : expired deadline now = false) :
    (toICache estimateSize visit).Serves c now key value := by
  obtain ⟨entry, hlookup, rfl, rfl⟩ := hentry
  rw [serves_iff]
  unfold lookupUnlocked
  rw [hlookup]
  exact congrArg Prod.fst (if_neg (Bool.eq_false_iff.mp hlive))

theorem obeys : (toICache estimateSize visit).Obeys where
  wait := by
    intro c now later key value hlater hserves
    obtain ⟨deadline, hentry, hlive⟩ := (every_hasEntry c).lookupUnlocked_some (serves_iff.mp hserves)
    apply serves_of_hasEntry hentry
    rw [Bool.eq_false_iff] at hlive ⊢
    exact fun hexpired => hlive (expired_mono hlater hexpired)
  get := by
    intro c now key other value hserves
    obtain ⟨deadline, hentry, hlive⟩ :=
      ((every_hasEntry c).lookupUnlocked other now).lookupUnlocked_some (serves_iff.mp hserves)
    exact serves_of_hasEntry hentry hlive
  put := by
    intro c now key other value stored ttl hserves
    have hevery : Every (fun k v d => (k = other ∧ v = stored) ∨ (k ≠ other ∧ c.HasEntry k v d))
        (c.put estimateSize other stored ttl now).2 :=
      (every_hasEntry c).storeUnlocked _ (fun _ _ _ hne hentry => .inr ⟨hne, hentry⟩) (.inl ⟨rfl, rfl⟩)
    obtain ⟨deadline, hentry, hlive⟩ := hevery.lookupUnlocked_some (serves_iff.mp hserves)
    exact hentry.imp_right fun ⟨hne, hentry⟩ => ⟨hne, serves_of_hasEntry hentry hlive⟩
  remove := by
    intro c now key other value hserves
    obtain ⟨deadline, ⟨hne, hentry⟩, hlive⟩ :=
      ((every_hasEntry c).remove other).lookupUnlocked_some (serves_iff.mp hserves)
    exact ⟨hne, serves_of_hasEntry hentry hlive⟩

end MemoryCache

end SoulCoreKit.Cache

namespace SoulCoreKit.Orm

open SoulCoreKit.Cache

variable {T Id : Type} [DecidableEq Id]

namespace Contents

variable {idOf : T → Id} {contents : Contents T Id}

omit [DecidableEq Id] in
theorem findById_none_of_some {notFound : Id → Error} {id : Id} {entity : T}
    (h : contents id = some entity) : contents.findById notFound none id = .ok entity := by
  simp only [findById, h]

omit [DecidableEq Id] in
theorem eq_some_of_findById {notFound : Id → Error} {failure : Option Error} {id : Id} {entity : T}
    (h : contents.findById notFound failure id = .ok entity) : contents id = some entity := by
  unfold findById at h
  cases failure with
  | some error => cases h
  | none =>
      cases hheld : contents id with
      | none => simp [hheld] at h
      | some held => simpa [hheld] using h

theorem eraseAll_apply (ids : List Id) (id : Id) :
    contents.eraseAll ids id = if id ∈ ids then none else contents id := by
  induction ids generalizing contents with
  | nil => simp [eraseAll]
  | cons first rest ih =>
      have hstep : contents.eraseAll (first :: rest) = (contents.erase first).eraseAll rest := rfl
      rw [hstep, ih, erase]
      by_cases heq : id = first
      · simp [heq]
      · simp [heq]

/-- The inherited `saveBatch` comes out as a batch does: what was saved is a prefix. -/
theorem saveBatch_eq (calls : List (T × Result T)) (before : List T) (contents : Contents T Id) :
    ∃ outcome : SaveOutcome (calls.map Prod.fst),
      saveBatch idOf calls before contents =
        (match outcome.failure with
          | some error => .error error
          | none => .ok (before ++ outcome.saved), contents.storeAll idOf outcome.saved) := by
  induction calls generalizing before contents with
  | nil => exact ⟨⟨[], none, le_rfl, fun _ => rfl⟩, by simp [saveBatch, storeAll]⟩
  | cons first rest ih =>
      obtain ⟨entity, result⟩ := first
      cases result with
      | error error => exact ⟨⟨[], some error, Nat.zero_le _, nofun⟩, rfl⟩
      | ok saved =>
          obtain ⟨outcome, heq⟩ := ih (before ++ [saved]) (contents.store idOf saved)
          refine ⟨⟨saved :: outcome.saved, outcome.failure, ?_, ?_⟩, ?_⟩
          · exact Nat.succ_le_succ outcome.length_le
          · exact fun hnone => congrArg Nat.succ (outcome.complete hnone)
          · rw [saveBatch, heq, List.append_assoc]
            rfl

theorem removeBatch_eq (calls : List (Id × Option Error)) (contents : Contents T Id) :
    ∃ outcome : RemoveOutcome (calls.map Prod.fst),
      removeBatch calls contents =
        (match outcome.failure with
          | some error => .error error
          | none => .ok (), contents.eraseAll ((calls.map Prod.fst).take outcome.removed)) := by
  induction calls generalizing contents with
  | nil => exact ⟨⟨0, none, le_rfl, fun _ => rfl⟩, rfl⟩
  | cons first rest ih =>
      obtain ⟨id, failure⟩ := first
      cases failure with
      | some error => exact ⟨⟨0, some error, Nat.zero_le _, nofun⟩, rfl⟩
      | none =>
          obtain ⟨outcome, heq⟩ := ih (contents.erase id)
          refine ⟨⟨outcome.removed + 1, outcome.failure, ?_, ?_⟩, ?_⟩
          · exact Nat.succ_le_succ outcome.le_length
          · exact fun hnone => congrArg Nat.succ (outcome.complete hnone)
          · rw [removeBatch, heq]
            rfl

end Contents

namespace CachedRepository

variable {cls : ICache Id T} {idOf : T → Id} {notFound : Id → Error} {mTtl : Millis}
  {r : CachedRepository T Id cls}

/-- Whether a read of the id is answered by the cache. -/
def hits (r : CachedRepository T Id cls) (id : Id) (now : Time) : Bool :=
  match (cls.get r.mCache id now).1 with
  | .ok (some _) => true
  | _ => false

/-- From now on a read of any id answers as the delegate would. A failure is one of a call that is made:
a read that the cache answers makes none. -/
def Transparent (notFound : Id → Error) (mTtl : Millis) (r : CachedRepository T Id cls) : Prop :=
  ∀ (now : Time) (id : Id) (failure : Option Error), r.clock ≤ now →
    (r.findById notFound mTtl id failure now).1 =
      r.mDelegate.findById notFound (if r.hits id now then none else failure) id

/-- The cache serves what the delegate holds. -/
def Coherent (r : CachedRepository T Id cls) : Prop :=
  ∀ id entity, cls.Serves r.mCache r.clock id entity → r.mDelegate id = some entity

/-- The cache serves no id whose entity the batch changes. -/
def Spares (idOf : T → Id) (r : CachedRepository T Id cls) : Time × RepoCall T Id → Prop
  | (now, .saveBatch _ outcome) =>
      ∀ id entity, cls.Serves r.mCache now id entity →
        r.mDelegate.storeAll idOf outcome.saved id = r.mDelegate id
  | (now, .removeBatch ids outcome) =>
      outcome.failure ≠ none → ∀ id entity, cls.Serves r.mCache now id entity →
        r.mDelegate.eraseAll (ids.take outcome.removed) id = r.mDelegate id
  | _ => True

section Reads

omit [DecidableEq Id]

theorem findById_of_serves {id : Id} {entity : T} {now : Time} (failure : Option Error)
    (h : cls.Serves r.mCache now id entity) :
    (r.findById notFound mTtl id failure now).1 = .ok entity ∧ r.hits id now = true := by
  unfold ICache.Serves at h
  unfold findById hits
  rcases hget : cls.get r.mCache id now with ⟨answer, cache⟩
  rw [hget] at h
  subst h
  exact ⟨rfl, rfl⟩

theorem findById_of_not_hits {id : Id} {now : Time} (failure : Option Error)
    (h : r.hits id now = false) :
    (r.findById notFound mTtl id failure now).1 = r.mDelegate.findById notFound failure id := by
  unfold hits at h
  unfold findById
  split
  · rename_i hget
    rw [hget] at h
    cases h
  · split <;> rename_i heq <;> rw [heq]

theorem exists_serves_of_hits {id : Id} {now : Time} (h : r.hits id now = true) :
    ∃ entity, cls.Serves r.mCache now id entity := by
  unfold hits at h
  split at h
  · rename_i entity hget
    exact ⟨entity, hget⟩
  · cases h

variable (hobeys : cls.Obeys)

include hobeys

theorem Coherent.serves (hcoherent : r.Coherent) {now : Time} (hnow : r.clock ≤ now) {id : Id}
    {entity : T} (h : cls.Serves r.mCache now id entity) : r.mDelegate id = some entity :=
  hcoherent id entity (hobeys.wait hnow h)

theorem transparent_iff_coherent : r.Transparent notFound mTtl ↔ r.Coherent := by
  constructor
  · intro h id entity hserves
    obtain ⟨hread, hhit⟩ := findById_of_serves none hserves
    have hsame := h r.clock id none le_rfl
    rw [hread, hhit, if_pos rfl] at hsame
    exact Contents.eq_some_of_findById hsame.symm
  · intro hcoherent now id failure hnow
    cases hhit : r.hits id now with
    | false => exact findById_of_not_hits failure hhit
    | true =>
        obtain ⟨entity, hserves⟩ := exists_serves_of_hits hhit
        rw [(findById_of_serves failure hserves).1, if_pos rfl]
        exact (Contents.findById_none_of_some (hcoherent.serves hobeys hnow hserves)).symm

/-! ### One call -/

variable {now : Time}

theorem Coherent.findById (hcoherent : r.Coherent) (hnow : r.clock ≤ now) (id : Id)
    (failure : Option Error) : (r.findById notFound mTtl id failure now).2.Coherent := by
  have hkept {key : Id} {entity : T} (h : cls.Serves (cls.get r.mCache id now).2 now key entity) :
      r.mDelegate key = some entity := hcoherent.serves hobeys hnow (hobeys.get h)
  unfold CachedRepository.findById
  split
  · rename_i cache hget
    intro key entity hserves
    exact hkept (by rw [hget]; exact hserves)
  · rename_i cache _ hget
    split
    · intro key entity hserves
      exact hkept (by rw [hget]; exact hserves)
    · rename_i value hvalue
      intro key entity hserves
      obtain ⟨rfl, rfl⟩ | ⟨-, hserves⟩ := hobeys.put hserves
      · exact Contents.eq_some_of_findById hvalue
      · exact hkept (by rw [hget]; exact hserves)

theorem Coherent.wait (hcoherent : r.Coherent) (hnow : r.clock ≤ now) :
    Coherent { r with clock := now } :=
  fun _ _ hserves => hcoherent.serves hobeys hnow hserves

/-- A write that the cache is not told of is seen exactly where it changes something the cache serves. -/
theorem coherent_write_iff (hcoherent : r.Coherent) (hnow : r.clock ≤ now) {contents : Contents T Id} :
    Coherent { r with mDelegate := contents, clock := now } ↔
      ∀ id entity, cls.Serves r.mCache now id entity → contents id = r.mDelegate id := by
  constructor
  · intro h id entity hserves
    rw [hcoherent.serves hobeys hnow hserves]
    exact h id entity hserves
  · intro h id entity hserves
    exact (h id entity hserves).trans (hcoherent.serves hobeys hnow hserves)

theorem serves_foldl_remove {ids : List Id} {cache : cls.State} {key : Id} {entity : T}
    (h : cls.Serves (ids.foldl (fun cache id => (cls.remove cache id now).2) cache) now key entity) :
    key ∉ ids ∧ cls.Serves cache now key entity := by
  induction ids generalizing cache with
  | nil => exact ⟨List.not_mem_nil, h⟩
  | cons first rest ih =>
      obtain ⟨hrest, hserves⟩ := ih h
      obtain ⟨hne, hserves⟩ := hobeys.remove hserves
      exact ⟨by rw [List.mem_cons, not_or]; exact ⟨hne, hrest⟩, hserves⟩

end Reads

section Step

variable (hobeys : cls.Obeys) {now : Time}

include hobeys

theorem Coherent.save (hcoherent : r.Coherent) (hnow : r.clock ≤ now) (outcome : Result T) :
    (r.save idOf (some idOf) mTtl outcome now).2.Coherent := by
  cases outcome with
  | error error => exact hcoherent.wait hobeys hnow
  | ok saved =>
      intro id entity hserves
      change r.mDelegate.store idOf saved id = some entity
      unfold Contents.store
      obtain ⟨rfl, rfl⟩ | ⟨hne, hserves⟩ := hobeys.put hserves
      · rw [Function.update_self]
      · rw [Function.update_of_ne hne]
        exact hcoherent.serves hobeys hnow hserves

theorem Coherent.removeById (hcoherent : r.Coherent) (hnow : r.clock ≤ now) (id : Id)
    (failure : Option Error) : (r.removeById id failure now).2.Coherent := by
  cases failure with
  | some error => exact hcoherent.wait hobeys hnow
  | none =>
      intro key entity hserves
      change r.mDelegate.erase id key = some entity
      unfold Contents.erase
      obtain ⟨hne, hserves⟩ := hobeys.remove hserves
      rw [Function.update_of_ne hne]
      exact hcoherent.serves hobeys hnow hserves

theorem coherent_removeBatch_iff (hcoherent : r.Coherent) (hnow : r.clock ≤ now) (ids : List Id)
    (outcome : RemoveOutcome ids) :
    (r.removeBatch ids outcome now).2.Coherent ↔ r.Spares idOf (now, .removeBatch ids outcome) := by
  unfold CachedRepository.removeBatch Spares
  cases hfailure : outcome.failure with
  | some error =>
      simp only [hfailure, ne_eq, reduceCtorEq, not_false_eq_true, forall_const]
      exact coherent_write_iff hobeys hcoherent hnow
  | none =>
      simp only [hfailure, ne_eq, not_true_eq_false, false_implies, iff_true]
      intro key entity hserves
      obtain ⟨hnot, hserves⟩ := serves_foldl_remove hobeys hserves
      change r.mDelegate.eraseAll (ids.take outcome.removed) key = some entity
      rw [Contents.eraseAll_apply, if_neg (fun hmem => hnot (List.mem_of_mem_take hmem))]
      exact hcoherent.serves hobeys hnow hserves

theorem coherent_step_iff (hcoherent : r.Coherent) (label : Time × RepoCall T Id)
    (htimely : r.Timely label) :
    (r.step idOf notFound (some idOf) mTtl label).Coherent ↔ r.Spares idOf label := by
  obtain ⟨now, call⟩ := label
  cases call with
  | findById id failure =>
      exact iff_of_true (hcoherent.findById hobeys htimely id failure) trivial
  | save entity outcome => exact iff_of_true (hcoherent.save hobeys htimely outcome) trivial
  | removeById id failure =>
      exact iff_of_true (hcoherent.removeById hobeys htimely id failure) trivial
  | saveBatch entities outcome =>
      have hstate : (r.saveBatch idOf outcome now).2 =
          { r with mDelegate := r.mDelegate.storeAll idOf outcome.saved, clock := now } := by
        unfold CachedRepository.saveBatch
        split <;> rfl
      change (r.saveBatch idOf outcome now).2.Coherent ↔ _
      rw [hstate]
      exact coherent_write_iff hobeys hcoherent htimely
  | removeBatch ids outcome => exact coherent_removeBatch_iff hobeys hcoherent htimely ids outcome

end Step

end CachedRepository

open CachedRepository in
/-- Every state of a run reads as its delegate exactly if no batch of the run that the cache is not told
of changes an entity that the cache serves. -/
theorem transparent_always_iff (cls : ICache Id T) (hobeys : cls.Obeys) (idOf : T → Id)
    (notFound : Id → Error) (mTtl : Millis) (start : CachedRepository T Id cls)
    (hempty : ∀ id entity, ¬ cls.Serves start.mCache start.clock id entity)
    (calls : List (Time × RepoCall T Id))
    (htimely : Along (step idOf notFound (some idOf) mTtl) Timely start calls) :
    (∀ n, (run (step idOf notFound (some idOf) mTtl) start (calls.take n)).Transparent notFound mTtl) ↔
      Along (step idOf notFound (some idOf) mTtl) (Spares idOf) start calls := by
  have hstart : start.Coherent := fun id entity hserves => (hempty id entity hserves).elim
  simp only [transparent_iff_coherent hobeys]
  refine always_iff_along (I := fun _ => True) htimely trivial hstart (fun _ _ _ _ => trivial) ?_
  intro r label _ htimely hcoherent
  exact coherent_step_iff hobeys hcoherent label htimely

/-! ### An entity for a number -/

/-- Entities are numbered; the cache has room for eight. -/
abbrev numbered : ICache Nat (Nat × Nat) := MemoryCache.toICache (fun _ => 1) fun _ => []

/-- The delegate holds one entity and the cache none. -/
def stocked : CachedRepository (Nat × Nat) Nat numbered where
  mDelegate := fun id => if id = 1 then some (1, 10) else none
  mCache := { config := { maxEntries := 8 } }
  clock := 0

theorem stocked_serves_none (now : Time) (id : Nat) (entity : Nat × Nat) :
    ¬ numbered.Serves stocked.mCache now id entity := by
  rw [MemoryCache.serves_iff]
  simp [stocked, MemoryCache.lookupUnlocked]

def absent (_ : Nat) : Error := ⟨.notFound, "Entity not found"⟩

/-- A batch before anything is cached, a read, and writes of the entity that was read. -/
def batchFirst : List (Time × RepoCall (Nat × Nat) Nat) :=
  [(0, .saveBatch [(1, 20)] ⟨[(1, 20)], none, le_rfl, fun _ => rfl⟩), (1, .findById 1 none),
    (2, .save (1, 30) (.ok (1, 30))), (3, .findById 1 none), (4, .removeById 1 none)]

open CachedRepository in
theorem transparent_always_iff_batchFirst :
    Along (step Prod.fst absent (some Prod.fst) 300000) Timely stocked batchFirst ∧
      ∀ n, (run (step Prod.fst absent (some Prod.fst) 300000) stocked
        (batchFirst.take n)).Transparent absent 300000 := by
  have htimely : Along (step Prod.fst absent (some Prod.fst) 300000) Timely stocked batchFirst := by
    decide
  refine ⟨htimely, (transparent_always_iff numbered MemoryCache.obeys Prod.fst absent 300000 stocked
    (stocked_serves_none 0) batchFirst htimely).mpr ?_⟩
  exact ⟨fun id entity hserves => (stocked_serves_none 0 id entity hserves).elim, trivial, trivial,
    trivial, trivial, trivial⟩

open CachedRepository in
/-- A batch saves an entity that was read before, and the next read still returns the old one. -/
theorem stale_after_saveBatch :
    let read := stocked.step Prod.fst absent (some Prod.fst) 300000 (1, .findById 1 none)
    let saved := read.step Prod.fst absent (some Prod.fst) 300000
      (2, .saveBatch [(1, 20)] ⟨[(1, 20)], none, le_rfl, fun _ => rfl⟩)
    (saved.findById absent 300000 1 none 3).1 = .ok (1, 10) ∧
      saved.mDelegate.findById absent none 1 = .ok (1, 20) ∧ ¬ saved.Transparent absent 300000 := by
  intro read saved
  have hread : (saved.findById absent 300000 1 none 3).1 = .ok (1, 10) := by decide
  have hheld : saved.mDelegate.findById absent none 1 = .ok (1, 20) := by decide
  refine ⟨hread, hheld, ?_⟩
  intro htransparent
  have hsame := htransparent 3 1 none (by decide)
  rw [hread, ite_self, hheld] at hsame
  exact absurd hsame (by decide)

end SoulCoreKit.Orm
