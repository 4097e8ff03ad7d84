import SoulCoreKit.Proof.MemoryCacheInvariant

/-!
# Times to live

A cache honours the TTLs it is given when no read past the deadline of the latest put of a key
returns a value for the key. The words fit every class that implements the interface. A user of the
class knows the state only by the calls that led to it, so what a state owes is said about them.

The memory cache honours its TTLs: no entry outlives the deadline of its key.
-/

namespace SoulCoreKit.Cache

variable {K V : Type} [DecidableEq K]

/-! ### The contract -/

/-- The TTL argument under which the call puts the key, if it puts it. -/
def Call.ttlFor (key : K) : Call K V → Option (Option Millis)
  | .put other _ ttl => if other = key then some ttl else none
  | .putMany entries ttl => if key ∈ entries then some ttl else none
  | _ => none

/-- The deadline of a value put now: none unless the TTL is positive. -/
def deadlineOf (now : Time) (ttl : Option Millis) : Deadline :=
  match ttl with
  | none => ⊤
  | some ttl => if ttl ≤ 0 then ⊤ else ((now + ttl * 1000000 : Int) : Deadline)

/-- The deadline of the key after the call. -/
def Timed.deadline (key : K) (before : Deadline) (label : Timed K V) : Deadline :=
  match label.call.ttlFor key with
  | none => before
  | some ttl => deadlineOf label.now ttl

/-- The deadline the latest put of the key set. -/
def latestDeadline (history : List (Timed K V)) (key : K) : Deadline :=
  run (Timed.deadline key) ⊤ history

/-- The call is a read that returns a value for the key. -/
def Call.serves (key : K) : Call K V → Reply K V → Bool
  | .get other, .value (.ok (some _)) => other = key
  | .getMany _, .values (.ok hits) => key ∈ hits
  | _, _ => false

theorem Call.serves_get_of_ne {key other : K} (hne : other ≠ key) (reply : Reply K V) :
    (Call.get other : Call K V).serves key reply = false := by
  unfold serves
  split
  · rename_i heq
    rw [← Call.get.inj heq]
    exact decide_eq_false hne
  · rename_i heq
    exact absurd heq (by simp)
  · rfl

def Call.positiveTtl : Call K V → Bool
  | .put _ _ (some ttl) => 0 < ttl
  | .putMany _ (some ttl) => 0 < ttl
  | _ => false

def Reply.isOk : Reply K V → Bool
  | .value result => result.isOk
  | .done result => result.isOk
  | .found result => result.isOk
  | .values result => result.isOk

namespace ICache

/-- A put under a positive TTL succeeds. -/
def Accepts (cls : ICache K V) (state : cls.State) (label : Timed K V) : Prop :=
  label.call.positiveTtl = true → (cls.exec state label).1.isOk = true

/-- No read past the deadline of the latest put of a key returns a value for it. Nothing is asked
once a put under a TTL has been refused. -/
def HonoursTtl (cls : ICache K V) (start : cls.State) : Prop :=
  ∀ (calls : List (Timed K V)) (label : Timed K V) (key : K),
    (calls ++ [label]).Pairwise (fun first second => first.now ≤ second.now) →
    Along cls.step cls.Accepts start calls →
    expired (latestDeadline calls key) label.now = true →
    label.call.serves key (cls.exec (run cls.step start calls) label).1 = false

/-- The state is reached by calls made until now, and the cache owes each key at most the given
deadline. -/
def Owes (cls : ICache K V) (start : cls.State) (deadline : K → Deadline) (now : Time)
    (state : cls.State) : Prop :=
  ∃ calls : List (Timed K V),
    state = run cls.step start calls ∧
      Along cls.step cls.Accepts start calls ∧
      calls.Pairwise (fun first second => first.now ≤ second.now) ∧
      (∀ label ∈ calls, label.now ≤ now) ∧
      ∀ key, latestDeadline calls key ≤ deadline key

variable {cls : ICache K V} {start state : cls.State} {deadline deadline' : K → Deadline}
  {now later : Time}

theorem owes_start (cls : ICache K V) (start : cls.State) (now : Time) :
    cls.Owes start (fun _ => ⊤) now start :=
  ⟨[], rfl, trivial, List.Pairwise.nil, by simp, fun _ => le_top⟩

theorem Owes.mono (howes : cls.Owes start deadline now state)
    (hdeadline : ∀ key, deadline key ≤ deadline' key) (hlater : now ≤ later) :
    cls.Owes start deadline' later state := by
  obtain ⟨calls, hstate, haccepts, hsorted, hbound, howed⟩ := howes
  refine ⟨calls, hstate, haccepts, hsorted, ?_, ?_⟩
  · intro label hlabel
    exact (hbound label hlabel).trans hlater
  · intro key
    exact (howed key).trans (hdeadline key)

theorem deadline_mono {before before' : Deadline} (hle : before ≤ before') (key : K)
    (label : Timed K V) : label.deadline key before ≤ label.deadline key before' := by
  unfold Timed.deadline
  split
  · exact hle
  · exact le_rfl

omit [DecidableEq K] in
theorem pairwise_concat {calls : List (Timed K V)} {label : Timed K V}
    (hsorted : calls.Pairwise fun first second => first.now ≤ second.now)
    (hbound : ∀ call ∈ calls, call.now ≤ label.now) :
    (calls ++ [label]).Pairwise fun first second => first.now ≤ second.now := by
  rw [List.pairwise_append]
  refine ⟨hsorted, List.pairwise_singleton _ _, ?_⟩
  intro first hfirst second hsecond
  rw [List.mem_singleton.mp hsecond]
  exact hbound first hfirst

theorem Owes.step (howes : cls.Owes start deadline now state) {label : Timed K V}
    (hnow : label.now = now) (haccept : cls.Accepts state label)
    (hdeadline : ∀ key, label.deadline key (deadline key) ≤ deadline' key) :
    cls.Owes start deadline' now (cls.step state label) := by
  obtain ⟨calls, rfl, haccepts, hsorted, hbound, howed⟩ := howes
  subst hnow
  refine ⟨calls ++ [label], (run_concat calls label).symm, ?_, pairwise_concat hsorted hbound,
    ?_, ?_⟩
  · exact (along_concat calls label).mpr ⟨haccepts, haccept⟩
  · intro call hcall
    rcases List.mem_append.mp hcall with hcall | hcall
    · exact hbound call hcall
    · rw [List.mem_singleton.mp hcall]
  · intro key
    calc latestDeadline (calls ++ [label]) key
        = label.deadline key (latestDeadline calls key) := run_concat calls label
      _ ≤ label.deadline key (deadline key) := deadline_mono (howed key) key label
      _ ≤ deadline' key := hdeadline key

theorem expired_of_le {first second : Deadline} (hle : first ≤ second)
    (hexpired : expired second now = true) : expired first now = true := by
  rw [expired_iff_lt] at hexpired ⊢
  exact hle.trans_lt hexpired

theorem Owes.not_served (howes : cls.Owes start deadline now state)
    (hhonours : cls.HonoursTtl start) {label : Timed K V} (hnow : label.now = now) {key : K}
    (hexpired : expired (deadline key) now = true) :
    label.call.serves key (cls.exec state label).1 = false := by
  obtain ⟨calls, rfl, haccepts, hsorted, hbound, howed⟩ := howes
  subst hnow
  exact hhonours calls label key (pairwise_concat hsorted hbound) haccepts
    (expired_of_le (howed key) hexpired)

end ICache

/-! ### The memory cache honours its TTLs -/

namespace MemoryCache

variable {c : MemoryCache K V} {deadline : K → Deadline} {now : Time}

/-- No entry outlives the deadline of its key. -/
def Dated (deadline : K → Deadline) (c : MemoryCache K V) : Prop :=
  ∀ key entry, c.entries.lookup key = some entry → entry.expireTime ≤ deadline key

theorem dated_iff_every :
    Dated deadline c ↔ Every (fun key _ expireTime => expireTime ≤ deadline key) c := Iff.rfl

theorem Dated.mono {deadline' : K → Deadline} (hdated : Dated deadline c)
    (hle : ∀ key, deadline key ≤ deadline' key) : Dated deadline' c := by
  intro key entry hlookup
  exact (hdated key entry hlookup).trans (hle key)

theorem Dated.storeUnlocked (hdated : Dated deadline c) (key : K) (value : V) (entrySize : SizeT)
    (expireTime : Deadline) :
    Dated (Function.update deadline key expireTime)
      (c.storeUnlocked key value entrySize expireTime) := by
  rw [dated_iff_every] at hdated ⊢
  refine hdated.storeUnlocked entrySize ?_ ?_
  · intro other _ _ hne hle
    rwa [Function.update_of_ne hne]
  · rw [Function.update_self]

theorem Dated.storeMany (hdated : Dated deadline c) (estimateSize : V → SizeT)
    (expireTime : Deadline) (entries : List (K × V)) :
    Dated (fun key => if key ∈ entries.map Prod.fst then expireTime else deadline key)
      (entries.foldl (fun c entry =>
        c.storeUnlocked entry.1 entry.2 (estimateSize entry.2) expireTime) c) := by
  rw [dated_iff_every] at hdated ⊢
  refine hdated.storeMany estimateSize ?_ ?_
  · intro key _ _ hnot hle
    rwa [if_neg hnot]
  · intro entry hentry
    rw [if_pos (List.mem_map_of_mem hentry)]

theorem Dated.lookupUnlocked_of_expired (hdated : Dated deadline c) {key : K}
    (hexpired : expired (deadline key) now = true) : (c.lookupUnlocked key now).1 = none := by
  cases hfound : (c.lookupUnlocked key now).1 with
  | none => rfl
  | some value =>
      obtain ⟨expireTime, hle, hlive⟩ := (dated_iff_every.mp hdated).lookupUnlocked_some hfound
      rw [ICache.expired_of_le hle hexpired] at hlive
      cases hlive

theorem Dated.getManyLoop (hdated : Dated deadline c) (keys : List K) (now : Time) :
    let found := getManyLoop (keys.map fun key => (key, now)) ∅ c
    Dated deadline found.2 ∧ ∀ key, expired (deadline key) now = true → key ∉ found.1 := by
  have hnone : ∀ key (value : V), (∅ : UnorderedMap K V).lookup key = some value →
      expired (deadline key) now = false := by
    intro key value hlookup
    rw [Finmap.lookup_empty] at hlookup
    cases hlookup
  have hlive : ∀ key time (value : V) expireTime, (key, time) ∈ keys.map (fun key => (key, now)) →
      expireTime ≤ deadline key → expired expireTime time = false → expired (deadline key) now = false := by
    intro key time value expireTime hmem hle hlive
    obtain ⟨_, _, hpair⟩ := List.mem_map.mp hmem
    obtain ⟨rfl, rfl⟩ := Prod.mk.inj hpair
    rw [Bool.eq_false_iff] at hlive ⊢
    exact fun hexpired => hlive (ICache.expired_of_le hle hexpired)
  have hloop := (dated_iff_every.mp hdated).getManyLoop hnone hlive
  refine ⟨hloop.1, ?_⟩
  intro key hexpired hmem
  obtain ⟨value, hlookup⟩ := Finmap.mem_iff.mp hmem
  rw [hloop.2 key value hlookup] at hexpired
  cases hexpired

theorem computeExpireTime_le (config : Config) (ttl : Option Millis) (now : Time) :
    computeExpireTime config ttl now ≤ deadlineOf now ttl := by
  cases ttl with
  | none => exact le_top
  | some ttl =>
      unfold computeExpireTime deadlineOf
      rw [Option.getD_some]
      dsimp only
      split_ifs
      · exact le_rfl
      · exact WithTop.coe_le_coe.mpr (Time.after_le now (ttl * 1000000))

theorem mem_map_fst_ordered {order : List K} {m : UnorderedMap K V} {key : K}
    (henum : UnorderedMap.Enumerates order m) :
    key ∈ (order.filterMap fun key => (m.lookup key).map fun value => (key, value)).map Prod.fst ↔
      key ∈ m := by
  have horder : key ∈ order ↔ key ∈ m := by
    rw [← List.mem_toFinset, henum.2, Finmap.mem_keys]
  simp only [List.mem_map, List.mem_filterMap, Option.map_eq_some_iff, Prod.exists]
  constructor
  · rintro ⟨key', value, ⟨other, hother, value', hlookup, heq⟩, rfl⟩
    obtain ⟨rfl, rfl⟩ := Prod.mk.inj heq
    exact Finmap.mem_of_lookup_eq_some hlookup
  · intro hmem
    obtain ⟨value, hlookup⟩ := Finmap.mem_iff.mp hmem
    exact ⟨key, value, ⟨key, horder.mpr hmem, value, hlookup, rfl⟩, rfl⟩

section Honours

variable (estimateSize : V → SizeT) {visit : UnorderedMap K V → List K}

theorem Dated.step (hvisit : ∀ m : UnorderedMap K V, UnorderedMap.Enumerates (visit m) m)
    (hdated : Dated deadline c) (label : Timed K V) :
    Dated (fun key => label.deadline key (deadline key))
      ((toICache estimateSize visit).step c label) := by
  obtain ⟨now, call⟩ := label
  cases call with
  | get key => exact (dated_iff_every.mp hdated).lookupUnlocked key now
  | put key value ttl =>
      apply (hdated.storeUnlocked key value (estimateSize value)
        (computeExpireTime c.config ttl now)).mono
      intro other
      by_cases heq : other = key
      · subst heq
        simpa [Timed.deadline, Call.ttlFor] using computeExpireTime_le c.config ttl now
      · simp [Timed.deadline, Call.ttlFor, heq, Ne.symm heq]
  | remove key =>
      exact ((dated_iff_every.mp hdated).remove key).mono fun _ _ _ hand => hand.2
  | contains key => exact (dated_iff_every.mp hdated).contains key now
  | clear => exact dated_iff_every.mpr (every_empty rfl)
  | getMany keys =>
      exact (hdated.getManyLoop keys now).1
  | putMany entries ttl =>
      apply (hdated.storeMany estimateSize (computeExpireTime c.config ttl now) _).mono
      intro key
      by_cases hmem : key ∈ entries
      · rw [if_pos ((mem_map_fst_ordered (hvisit entries)).mpr hmem)]
        simpa [Timed.deadline, Call.ttlFor, hmem] using computeExpireTime_le c.config ttl now
      · rw [if_neg ((mem_map_fst_ordered (hvisit entries)).not.mpr hmem)]
        simp [Timed.deadline, Call.ttlFor, hmem]

theorem Dated.run (hvisit : ∀ m : UnorderedMap K V, UnorderedMap.Enumerates (visit m) m)
    (config : Config) (calls : List (Timed K V)) :
    Dated (latestDeadline calls)
      (SoulCoreKit.run (toICache estimateSize visit).step ({ config } : MemoryCache K V) calls) := by
  induction calls using List.reverseRecOn with
  | nil =>
      intro key entry hlookup
      exact absurd hlookup (by simp)
  | append_singleton calls label ih =>
      rw [run_concat]
      apply (ih.step estimateSize hvisit label).mono
      intro key
      exact (run_concat calls label).ge

theorem honoursTtl (hvisit : ∀ m : UnorderedMap K V, UnorderedMap.Enumerates (visit m) m)
    (config : Config) : (toICache estimateSize visit).HonoursTtl ({ config } : MemoryCache K V) := by
  intro calls label key _ _ hexpired
  have hdated := Dated.run estimateSize hvisit config calls
  obtain ⟨now, call⟩ := label
  cases call with
  | get other =>
      by_cases heq : other = key
      · subst heq
        have hmiss : (((SoulCoreKit.run (toICache estimateSize visit).step
            ({ config } : MemoryCache K V) calls).lookupUnlocked other now).1) = none :=
          hdated.lookupUnlocked_of_expired hexpired
        simp only [ICache.exec, get, hmiss]
        rfl
      · exact Call.serves_get_of_ne heq _
  | getMany keys =>
      have hmiss := (hdated.getManyLoop keys now).2 key hexpired
      exact decide_eq_false hmiss
  | put other value ttl => rfl
  | remove other => rfl
  | contains other => rfl
  | clear => rfl
  | putMany entries ttl => rfl

end Honours

end MemoryCache

end SoulCoreKit.Cache
