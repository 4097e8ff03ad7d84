import SoulCoreKit.Proof.MemoryCacheInvariant

/-!
# Batches and single calls

`getMany` and `putMany` of the memory cache are the single calls in a row. For the states there is
nothing to it but the configuration, from which the deadline of a batch is computed once. For the map
that `getMany` returns it matters that a key may be asked for twice: at one reading of the clock a read
changes no answer, its own included, so the answer that is kept is that of every place of the key.
-/

namespace SoulCoreKit.Cache.MemoryCache

open UnorderedMap

variable {K V : Type} [DecidableEq K]

/-- What a read of the key answers at the reading. -/
def answer (c : MemoryCache K V) (now : Time) (key : K) : Option V :=
  match c.entries.lookup key with
  | none => none
  | some entry => if isExpiredUnlocked entry now then none else some entry.value

theorem lookupUnlocked_fst (c : MemoryCache K V) (key : K) (now : Time) :
    (c.lookupUnlocked key now).1 = c.answer now key := by
  unfold lookupUnlocked answer
  cases c.entries.lookup key with
  | none => rfl
  | some entry =>
    dsimp only
    split <;> rfl

theorem answer_congr {c c' : MemoryCache K V} (hentries : c'.entries = c.entries) (now : Time) (key : K) :
    c'.answer now key = c.answer now key := by
  unfold answer
  rw [hentries]

/-- A read takes out nothing that another read at this reading would return. -/
theorem answer_lookupUnlocked (c : MemoryCache K V) (key : K) (now : Time) (other : K) :
    (c.lookupUnlocked key now).2.answer now other = c.answer now other := by
  cases hlookup : c.entries.lookup key with
  | none =>
    rw [lookupUnlocked_of_none hlookup]
    exact answer_congr rfl now other
  | some entry =>
    by_cases hexpired : expired entry.expireTime now = true
    · rw [lookupUnlocked_of_expired hlookup hexpired]
      have hentries : (c.evictEntryUnlocked key entry).missed.entries = c.entries.erase key := rfl
      unfold answer
      rw [hentries]
      by_cases heq : other = key
      · subst heq
        rw [Finmap.lookup_erase, hlookup]
        exact (if_pos hexpired).symm
      · rw [Finmap.lookup_erase_ne heq]
    · rw [lookupUnlocked_of_live hlookup hexpired]
      exact answer_congr (c.touchUnlocked_entries entry.listIt) now other

/-- The state after reading the keys one after the other. -/
def afterGets (now : Time) (c : MemoryCache K V) (keys : List K) : MemoryCache K V :=
  run (fun c key => (c.get key now).2) c keys

theorem answer_afterGets (now : Time) (c : MemoryCache K V) (keys : List K) (other : K) :
    (c.afterGets now keys).answer now other = c.answer now other :=
  run_induction (P := fun state : MemoryCache K V => state.answer now other = c.answer now other) rfl
    (fun state key hstate => (state.answer_lookupUnlocked key now other).trans hstate) keys

/-- The loop of `getMany` at one reading: the state of the single reads, and the answer of each key asked
for unless the map had one. -/
theorem getManyLoop_eq (now : Time) (keys : List K) (result : UnorderedMap K V)
    (c : MemoryCache K V) :
    (getManyLoop (keys.map fun key => (key, now)) result c).2 = c.afterGets now keys ∧
      ∀ key, (getManyLoop (keys.map fun key => (key, now)) result c).1.lookup key =
        (result.lookup key).or (if key ∈ keys then c.answer now key else none) := by
  induction keys generalizing result c with
  | nil => exact ⟨rfl, fun key => by simp [getManyLoop]⟩
  | cons first keys ih =>
    have hanswer := c.lookupUnlocked_fst first now
    have hkept := c.answer_lookupUnlocked first now
    have hafter : c.afterGets now (first :: keys) =
        (c.lookupUnlocked first now).2.afterGets now keys := rfl
    rw [List.map_cons, getManyLoop, hafter]
    generalize c.lookupUnlocked first now = read at hanswer hkept ⊢
    obtain ⟨value, next⟩ := read
    dsimp only at hanswer hkept
    cases value with
    | none =>
      obtain ⟨hstate, hlookup⟩ := ih result next
      refine ⟨hstate, fun key => ?_⟩
      dsimp only
      rw [hlookup, hkept]
      by_cases heq : key = first
      · subst heq
        simp [← hanswer]
      · simp [heq]
    | some value =>
      obtain ⟨hstate, hlookup⟩ := ih (if first ∈ result then result else result.insert first value) next
      refine ⟨hstate, fun key => ?_⟩
      dsimp only
      rw [hlookup, lookup_emplace, hkept]
      by_cases heq : key = first
      · subst heq
        simp [← hanswer]
      · simp [heq]

/-! ### Stores in a row -/

/-- The state after putting the pairs one after the other. -/
def afterPuts (estimateSize : V → SizeT) (ttl : Option Millis) (now : Time) (c : MemoryCache K V)
    (entries : List (K × V)) : MemoryCache K V :=
  run (fun c entry => (c.put estimateSize entry.1 entry.2 ttl now).2) c entries

theorem storeUnlocked_config (c : MemoryCache K V) (key : K) (value : V) (entrySize : SizeT)
    (expireTime : Deadline) : (c.storeUnlocked key value entrySize expireTime).config = c.config := by
  unfold storeUnlocked
  split
  · exact touchUnlocked_config _ _
  · exact c.evictToFitUnlocked_config entrySize

theorem putMany_eq (estimateSize : V → SizeT) (ttl : Option Millis) (now : Time)
    (entries : List (K × V)) (c : MemoryCache K V) :
    c.putMany estimateSize entries ttl now = (.ok (), c.afterPuts estimateSize ttl now entries) := by
  unfold putMany afterPuts
  refine congrArg (Prod.mk _) ?_
  induction entries generalizing c with
  | nil => rfl
  | cons first entries ih =>
    have hnext := ih (c.put estimateSize first.1 first.2 ttl now).2
    rw [show (c.put estimateSize first.1 first.2 ttl now).2.config = c.config from
      c.storeUnlocked_config _ _ _ _] at hnext
    exact hnext

/-- **Batches are single calls in a row.** At one reading of the clock, `getMany` leaves the cache as the
single reads of its keys do and returns exactly what these return, and `putMany` leaves it as the single
puts of its pairs do. -/
theorem batches_eq_singles (estimateSize : V → SizeT) (c : MemoryCache K V) (now : Time) :
    (∀ keys : List K,
      (c.getMany (keys.map fun key => (key, now))).2 = c.afterGets now keys ∧
      ∃ result, (c.getMany (keys.map fun key => (key, now))).1 = .ok result ∧
        ∀ key value, result.lookup key = some value ↔
          ∃ before after, keys = before ++ key :: after ∧
            ((c.afterGets now before).get key now).1 = .ok (some value)) ∧
    ∀ (entries : List (K × V)) (ttl : Option Millis),
      c.putMany estimateSize entries ttl now = (.ok (), c.afterPuts estimateSize ttl now entries) := by
  refine ⟨fun keys => ?_, fun entries ttl => putMany_eq estimateSize ttl now entries c⟩
  obtain ⟨hstate, hlookup⟩ := getManyLoop_eq now keys ∅ c
  refine ⟨hstate, _, rfl, fun key value => ?_⟩
  rw [hlookup, Finmap.lookup_empty, Option.none_or]
  have hget : ∀ before, ((c.afterGets now before).get key now).1 = .ok (c.answer now key) := by
    intro before
    rw [← answer_afterGets now c before key, ← lookupUnlocked_fst]
    rfl
  constructor
  · intro hsome
    by_cases hmem : key ∈ keys
    · rw [if_pos hmem] at hsome
      obtain ⟨before, after, heq⟩ := List.append_of_mem hmem
      exact ⟨before, after, heq, by rw [hget, hsome]⟩
    · rw [if_neg hmem] at hsome
      cases hsome
  · rintro ⟨before, after, rfl, hsome⟩
    rw [hget] at hsome
    rw [if_pos (List.mem_append_right _ List.mem_cons_self)]
    exact Except.ok.inj hsome

end SoulCoreKit.Cache.MemoryCache
