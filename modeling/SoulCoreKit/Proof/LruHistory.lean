import SoulCoreKit.Cache.LruSpec

/-!
# Reads return the latest put

The list of the abstract cache and the events of its run say the same about every key: an entry in
the list is the latest put of its key, and a key whose latest put is not in the list was lost to a
read after its deadline.
-/

namespace SoulCoreKit.Cache.Lru

open MemoryCache (Op)

variable {K V : Type} [DecidableEq K] {p : Policy V} {l : List (Entry K V)}
  {history : List (Event K V)} {readings : List Time} {key : K}

/-- The list agrees with the events so far, given the readings of the clock so far. -/
structure Agrees (l : List (Entry K V)) (history : List (Event K V)) (readings : List Time) :
    Prop where
  nodup : (l.map Entry.key).Nodup
  present : ∀ key entry, Recency.find Entry.key key l = some entry →
    latestPut key history = some (entry.value, entry.deadline)
  absent : ∀ key value deadline, Recency.find Entry.key key l = none →
    latestPut key history = some (value, deadline) → ∃ past ∈ readings, expired deadline past = true

theorem agrees_empty : Agrees ([] : List (Entry K V)) [] [] where
  nodup := List.nodup_nil
  present := by simp [Recency.find]
  absent := by simp [latestPut]

theorem Agrees.append_readings (hagrees : Agrees l history readings) (later : List Time) :
    Agrees l history (readings ++ later) where
  nodup := hagrees.nodup
  present := hagrees.present
  absent key value deadline hfind hlatest := by
    obtain ⟨past, hpast, hexpired⟩ := hagrees.absent key value deadline hfind hlatest
    exact ⟨past, List.mem_append_left _ hpast, hexpired⟩

theorem latestPut_append (key : K) (history events : List (Event K V)) :
    latestPut key (history ++ events) = events.foldl (Event.update key) (latestPut key history) :=
  List.foldl_append

theorem foldl_evicted (key : K) (dropped : List K) (held : Option (V × Deadline)) :
    (dropped.map (Event.evicted (V := V))).foldl (Event.update key) held =
      if key ∈ dropped then none else held := by
  induction dropped generalizing held with
  | nil => simp
  | cons first dropped ih =>
      rw [List.map_cons, List.foldl_cons, ih]
      by_cases hrest : key ∈ dropped
      · simp [hrest]
      · by_cases hfirst : first = key
        · simp [Event.update, hfirst]
        · simp [Event.update, hrest, hfirst, Ne.symm hfirst]

theorem latestPut_evicted (key : K) (history : List (Event K V)) (dropped : List K) :
    latestPut key (history ++ dropped.map .evicted) =
      if key ∈ dropped then none else latestPut key history := by
  rw [latestPut_append, foldl_evicted]

theorem Agrees.without (hagrees : Agrees l history readings) (key : K)
    {history' : List (Event K V)} {readings' : List Time}
    (hother : ∀ other, other ≠ key → latestPut other history' = latestPut other history)
    (hlost : ∀ value deadline, latestPut key history' = some (value, deadline) →
      ∃ past ∈ readings', expired deadline past = true)
    (hreadings : ∀ past ∈ readings, past ∈ readings') :
    Agrees (Recency.without Entry.key key l) history' readings' where
  nodup := Recency.nodup_without hagrees.nodup key
  present other entry hfind := by
    have hne : other ≠ key := by
      rintro rfl
      rw [Recency.find_without_self] at hfind
      exact absurd hfind (by simp)
    rw [Recency.find_without_of_ne hne] at hfind
    rw [hother other hne]
    exact hagrees.present other entry hfind
  absent other value deadline hfind hlatest := by
    by_cases heq : other = key
    · subst heq
      exact hlost value deadline hlatest
    · rw [Recency.find_without_of_ne heq] at hfind
      rw [hother other heq] at hlatest
      obtain ⟨past, hpast, hexpired⟩ := hagrees.absent other value deadline hfind hlatest
      exact ⟨past, hreadings past hpast, hexpired⟩

/-- The list after an entry came to the front, when the events make it the latest put of its key. -/
theorem Agrees.moveToFront (hagrees : Agrees l history readings) (entry : Entry K V)
    {history' : List (Event K V)}
    (hother : ∀ other, other ≠ entry.key → latestPut other history' = latestPut other history)
    (hlatest : latestPut entry.key history' = some (entry.value, entry.deadline)) :
    Agrees (Recency.moveToFront Entry.key entry l) history' readings where
  nodup := Recency.nodup_moveToFront hagrees.nodup entry
  present other found hfind := by
    by_cases heq : other = entry.key
    · subst heq
      rw [Recency.find_moveToFront_self] at hfind
      rw [← Option.some.inj hfind]
      exact hlatest
    · rw [Recency.find_moveToFront_of_ne heq] at hfind
      rw [hother other heq]
      exact hagrees.present other found hfind
  absent other value deadline hfind hput := by
    have hne : other ≠ entry.key := by
      rintro rfl
      rw [Recency.find_moveToFront_self] at hfind
      exact absurd hfind (by simp)
    rw [Recency.find_moveToFront_of_ne hne] at hfind
    rw [hother other hne] at hput
    exact hagrees.absent other value deadline hfind hput

theorem read_of_none {now : Time} (hfind : Recency.find Entry.key key l = none) :
    read l key now = (none, l) := by
  unfold read
  rw [hfind]

theorem read_of_expired {now : Time} {entry : Entry K V}
    (hfind : Recency.find Entry.key key l = some entry)
    (hexpired : expired entry.deadline now = true) :
    read l key now = (none, Recency.without Entry.key key l) := by
  unfold read
  rw [hfind]
  exact if_pos hexpired

theorem read_of_live {now : Time} {entry : Entry K V}
    (hfind : Recency.find Entry.key key l = some entry)
    (hlive : ¬ expired entry.deadline now = true) :
    read l key now = (some entry.value, Recency.moveToFront Entry.key entry l) := by
  unfold read
  rw [hfind]
  exact if_neg hlive

theorem Agrees.read (hagrees : Agrees l history readings) (key : K) (now : Time) :
    Agrees (read l key now).2 history (readings ++ [now]) := by
  cases hfind : Recency.find Entry.key key l with
  | none =>
      rw [read_of_none hfind]
      exact hagrees.append_readings [now]
  | some entry =>
      have hkey := Recency.key_of_find hfind
      have hlatest := hagrees.present key entry hfind
      by_cases hexpired : expired entry.deadline now = true
      · rw [read_of_expired hfind hexpired]
        refine hagrees.without key (fun _ _ => rfl) ?_ fun past => List.mem_append_left _
        intro value deadline hput
        rw [hlatest] at hput
        obtain ⟨-, rfl⟩ := Prod.mk.inj (Option.some.inj hput)
        exact ⟨now, by simp, hexpired⟩
      · rw [read_of_live hfind hexpired]
        exact (hagrees.moveToFront entry (fun _ _ => rfl) (hkey ▸ hlatest)).append_readings [now]

theorem Agrees.readMany (hagrees : Agrees l history readings) (keys : List (K × Time))
    (result : UnorderedMap K V) :
    Agrees (readMany keys result l).2 history (readings ++ keys.map (·.2)) := by
  induction keys generalizing l readings result with
  | nil => simpa [Lru.readMany] using hagrees
  | cons first keys ih =>
      obtain ⟨key, now⟩ := first
      have hnext := hagrees.read key now
      have hreadings : readings ++ ((key, now) :: keys).map (·.2) =
          readings ++ [now] ++ keys.map (·.2) := by simp
      rw [hreadings]
      unfold Lru.readMany
      split
      · rename_i l' heq
        rw [heq] at hnext
        exact ih hnext result
      · rename_i value l' heq
        rw [heq] at hnext
        exact ih hnext _

theorem Agrees.evict (hagrees : Agrees l history readings) {kept dropped : List (Entry K V)}
    (hsplit : l = kept ++ dropped) :
    Agrees kept (history ++ dropped.map (.evicted ·.key)) readings := by
  subst hsplit
  have hnodup := hagrees.nodup
  rw [List.map_append, List.nodup_append] at hnodup
  have hkeys : dropped.map (fun entry => Event.evicted (V := V) entry.key) =
      (dropped.map Entry.key).map .evicted := by
    rw [List.map_map]
    rfl
  have hkept : ∀ other entry, Recency.find Entry.key other kept = some entry →
      Recency.find Entry.key other (kept ++ dropped) = some entry := by
    intro other entry hfind
    unfold Recency.find at hfind ⊢
    rw [List.find?_append, hfind]
    rfl
  rw [hkeys]
  constructor
  · exact hnodup.1
  · intro other entry hfind
    have hmem : other ∈ kept.map Entry.key := by
      rw [← Recency.find_isSome_iff, hfind]
      rfl
    rw [latestPut_evicted, if_neg]
    · exact hagrees.present other entry (hkept other entry hfind)
    · intro hdropped
      exact hnodup.2.2 other hmem other hdropped rfl
  · intro other value deadline hfind hlatest
    rw [latestPut_evicted] at hlatest
    split_ifs at hlatest with hdropped
    apply hagrees.absent other value deadline _ hlatest
    rw [Recency.find_eq_none_iff] at hfind ⊢
    rw [List.map_append, List.mem_append]
    exact not_or.mpr ⟨hfind, hdropped⟩

theorem latestPut_put_self (history : List (Event K V)) (key : K) (value : V)
    (deadline : Deadline) :
    latestPut key (history ++ [.put key value deadline]) = some (value, deadline) := by
  simp [latestPut_append, Event.update]

theorem latestPut_put_of_ne (history : List (Event K V)) {key other : K} (hne : other ≠ key)
    (value : V) (deadline : Deadline) :
    latestPut other (history ++ [.put key value deadline]) = latestPut other history := by
  simp [latestPut_append, Event.update, Ne.symm hne]

theorem Agrees.store (hagrees : Agrees l history readings) (p : Policy V) (deadline : Deadline)
    (pair : K × V) :
    Agrees (p.store deadline l pair) (history ++ p.storeEvents deadline l pair) readings := by
  obtain ⟨key, value⟩ := pair
  unfold Policy.store Policy.storeEvents
  cases hfind : Recency.find Entry.key key l with
  | some entry =>
      apply hagrees.moveToFront
      · intro other hne
        exact latestPut_put_of_ne history hne value deadline
      · exact latestPut_put_self history key value deadline
  | none =>
      simp only
      set admits := p.admits (K := K) (p.size value)
      have hroom := hagrees.evict (Recency.eq_shrink_append_drop admits l)
      have habsent := Recency.without_of_find_none (Recency.find_shrink_of_none hfind admits)
      have hfront := hroom.moveToFront (⟨key, value, p.size value, deadline⟩ : Entry K V)
        (fun other hne => latestPut_put_of_ne _ hne value deadline)
        (latestPut_put_self _ key value deadline)
      unfold Recency.moveToFront at hfront
      rw [habsent, List.append_assoc] at hfront
      exact hfront

theorem Agrees.storeMany (hagrees : Agrees l history readings) (p : Policy V)
    (deadline : Deadline) (pairs : List (K × V)) :
    Agrees (pairs.foldl (p.store deadline) l) (history ++ p.storeManyEvents deadline l pairs)
      readings := by
  induction pairs generalizing l history with
  | nil => simpa [Policy.storeManyEvents] using hagrees
  | cons pair pairs ih =>
      have hnext := ih (hagrees.store p deadline pair)
      rw [List.append_assoc] at hnext
      exact hnext

theorem Agrees.removed (hagrees : Agrees l history readings) (key : K) :
    Agrees (Recency.without Entry.key key l) (history ++ [.removed key]) readings := by
  apply hagrees.without key _ _ fun _ hpast => hpast
  · intro other hne
    simp [latestPut_append, Event.update, Ne.symm hne]
  · intro value deadline hlatest
    simp [latestPut_append, Event.update] at hlatest

theorem agrees_cleared (history : List (Event K V)) (readings : List Time) :
    Agrees ([] : List (Entry K V)) (history ++ [.cleared]) readings where
  nodup := List.nodup_nil
  present := by simp [Recency.find]
  absent := by simp [latestPut_append, Event.update]

theorem Agrees.step (hagrees : Agrees l history readings) (p : Policy V) (op : Op K V) :
    Agrees (p.step l op) (history ++ p.events l op) (readings ++ op.readings) := by
  cases op with
  | get key now =>
      simpa [Policy.step, Policy.exec, Policy.events, Op.readings] using hagrees.read key now
  | put key value ttl now =>
      exact (hagrees.store p (p.deadline ttl now) (key, value)).append_readings [now]
  | remove key =>
      have hremoved := hagrees.removed key
      simp only [Policy.step, Policy.exec, Policy.events, Op.readings, List.append_nil]
      split
      · rename_i hfind
        have hsame := Recency.without_of_find_none hfind
        exact hsame ▸ hremoved
      · exact hremoved
  | contains key now =>
      simp only [Policy.step, Policy.exec, Policy.events, Op.readings, List.append_nil]
      have hread := hagrees.read key now
      split
      · exact hagrees.append_readings [now]
      · rename_i entry hfind
        split_ifs with hexpired
        · rw [read_of_expired hfind hexpired] at hread
          exact hread
        · exact hagrees.append_readings [now]
  | clear => exact agrees_cleared history _
  | getMany keys =>
      simpa [Policy.step, Policy.exec, Policy.events, Op.readings] using hagrees.readMany keys ∅
  | putMany entries ttl now =>
      exact (hagrees.storeMany p (p.deadline ttl now) entries).append_readings [now]

theorem Agrees.run (hagrees : Agrees l history readings) (p : Policy V) (ops : List (Op K V)) :
    Agrees (SoulCoreKit.run p.step l ops) (history ++ p.history l ops)
      (readings ++ ops.flatMap Op.readings) := by
  induction ops generalizing l history readings with
  | nil => simpa [Policy.history] using hagrees
  | cons op ops ih =>
      have hnext := ih (hagrees.step p op)
      rw [List.append_assoc, List.append_assoc] at hnext
      simpa [Policy.history] using hnext

/-- A read no earlier than the readings so far returns what the events say. -/
theorem Agrees.read_eq_served (hagrees : Agrees l history readings) (key : K) {now : Time}
    (hlater : ∀ past ∈ readings, past ≤ now) :
    (Lru.read l key now).1 = served (latestPut key history) now := by
  cases hfind : Recency.find Entry.key key l with
  | some entry =>
      rw [hagrees.present key entry hfind]
      unfold served
      by_cases hexpired : expired entry.deadline now = true
      · rw [read_of_expired hfind hexpired]
        exact (if_pos hexpired).symm
      · rw [read_of_live hfind hexpired]
        exact (if_neg hexpired).symm
  | none =>
      rw [read_of_none hfind]
      cases hlatest : latestPut key history with
      | none => rfl
      | some put =>
          obtain ⟨value, deadline⟩ := put
          obtain ⟨past, hpast, hexpired⟩ := hagrees.absent key value deadline hfind hlatest
          exact (if_pos (expired_mono (hlater past hpast) hexpired)).symm

end SoulCoreKit.Cache.Lru
