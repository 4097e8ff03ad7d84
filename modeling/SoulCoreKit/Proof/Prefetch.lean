import SoulCoreKit.Proof.BrokerStep

/-!
# The prefetch bound

The broker keeps the number of unacknowledged deliveries of a consumer under the name of its queue,
while the deliveries themselves outlive the consumer. Two steps confuse one consumer with the next:
settling a tag that an earlier consumer received lowers the counter of the current one, and a
dispatch pass that began under an earlier consumer raises the counter of the current one for a
delivery the earlier one receives. Short of these two, the counter is exact and the bound follows.
-/

namespace SoulCoreKit.Mq.Broker

open UnorderedMap

def deliveredTo (consumer : Nat) (_tag : Int) (entry : UnackedMessage) : Nat :=
  if entry.consumer = consumer then 1 else 0

/-- The number of outstanding entries the consumer received. -/
def consumerCount (b : Broker) (consumer : Nat) : Nat :=
  total (deliveredTo consumer) b.unacked

/-- Every current consumer's counter is the number of outstanding entries it received, and that
number is within its prefetch count. -/
def PrefetchOk (b : Broker) : Prop :=
  ∀ queue info, b.consumers.lookup queue = some info →
    info.unackedCount = consumerCount b info.id ∧
      (consumerCount b info.id : Int) ≤ info.prefetchCount

/-- The step does not confuse consumers: a settling step covers no tag that an earlier consumer of a
queue received, unless it covers all that the current one received as well, and a dispatch pass hands
out a message only while the consumer it copied is the current one. -/
def CountsOwn (b : Broker) (op : Op) : Prop :=
  match op with
  | .dispatchNext =>
      ∀ d front rest info, b.dispatching = some d →
        b.queues.lookup d.queue = some (front :: rest) →
        b.consumers.lookup d.queue = some info → info.unackedCount < d.prefetchCount →
        info.id = d.consumer
  | _ =>
      ∀ queue info, b.consumers.lookup queue = some info →
        (∀ tag entry, b.unacked.lookup tag = some entry → op.covers tag = true →
          entry.queue = queue → entry.consumer = info.id) ∨
        ∀ tag entry, b.unacked.lookup tag = some entry → entry.consumer = info.id →
          op.covers tag = true

/-! ### Whose delivery is whose -/

/-- Between passes the dispatch thread remembers a consumer that existed, and if that consumer is
still registered then for this queue and with this prefetch count. -/
def Remembers (b : Broker) (d : Dispatching) : Prop :=
  d.consumer < b.subscribed ∧ ∀ queue info, b.consumers.lookup queue = some info →
    info.id = d.consumer → queue = d.queue ∧ info.prefetchCount = d.prefetchCount

/-- Identities are given out once, and a current consumer received messages of its own queue
only. -/
structure Linked (b : Broker) : Prop where
  sound : b.Sound
  id_lt : ∀ queue info, b.consumers.lookup queue = some info → info.id < b.subscribed
  id_inj : ∀ queue queue' info info', b.consumers.lookup queue = some info →
    b.consumers.lookup queue' = some info' → info.id = info'.id → queue = queue'
  consumer_lt : ∀ tag entry, b.unacked.lookup tag = some entry → entry.consumer < b.subscribed
  queue_eq : ∀ tag entry queue info, b.unacked.lookup tag = some entry →
    b.consumers.lookup queue = some info → entry.consumer = info.id → entry.queue = queue
  remembers : ∀ d, b.dispatching = some d → b.Remembers d

/-- The consumers of `b'` are among those of `b`, up to their counters. -/
def ConsumersFrom (b b' : Broker) : Prop :=
  ∀ queue info', b'.consumers.lookup queue = some info' →
    ∃ info, b.consumers.lookup queue = some info ∧ info'.id = info.id ∧
      info'.prefetchCount = info.prefetchCount

variable {b b' : Broker}

theorem consumersFrom_of_eq (hconsumers : b'.consumers = b.consumers) : ConsumersFrom b b' :=
  fun _ info' hlookup => ⟨info', hconsumers ▸ hlookup, rfl, rfl⟩

theorem ConsumersFrom.trans {b'' : Broker} (hfirst : ConsumersFrom b b')
    (hsecond : ConsumersFrom b' b'') : ConsumersFrom b b'' := by
  intro queue info'' hlookup
  obtain ⟨info', hinfo', hid', hprefetch'⟩ := hsecond queue info'' hlookup
  obtain ⟨info, hinfo, hid, hprefetch⟩ := hfirst queue info' hinfo'
  exact ⟨info, hinfo, hid'.trans hid, hprefetch'.trans hprefetch⟩

theorem Remembers.of_consumersFrom {d : Dispatching} (hremembers : b.Remembers d)
    (hconsumers : ConsumersFrom b b') (hsubscribed : b'.subscribed = b.subscribed) :
    b'.Remembers d := by
  refine ⟨hsubscribed ▸ hremembers.1, ?_⟩
  intro queue info' hlookup hid
  obtain ⟨info, hinfo, hid', hprefetch⟩ := hconsumers queue info' hlookup
  have hold := hremembers.2 queue info hinfo (hid'.symm.trans hid)
  exact ⟨hold.1, hprefetch.trans hold.2⟩

/-- What an outstanding entry has to satisfy for the links to hold. -/
def EntryLinked (b : Broker) (entry : UnackedMessage) : Prop :=
  entry.consumer < b.subscribed ∧ ∀ queue info, b.consumers.lookup queue = some info →
    entry.consumer = info.id → entry.queue = queue

/-- An update that forgets consumers or changes their counters keeps the links if its entries and
the dispatch thread's memory had them before. -/
theorem Linked.of_consumersFrom (hlinked : b.Linked) (hsound : b'.Sound)
    (hconsumers : ConsumersFrom b b') (hsubscribed : b'.subscribed = b.subscribed)
    (hunacked : ∀ tag entry, b'.unacked.lookup tag = some entry → b.EntryLinked entry)
    (hdispatching : ∀ d, b'.dispatching = some d → b.Remembers d) : b'.Linked where
  sound := hsound
  id_lt queue info' hlookup := by
    obtain ⟨info, hinfo, hid, -⟩ := hconsumers queue info' hlookup
    rw [hid, hsubscribed]
    exact hlinked.id_lt queue info hinfo
  id_inj queue queue' info₁ info₂ hlookup hlookup' heq := by
    obtain ⟨first, hfirst, hid, -⟩ := hconsumers queue info₁ hlookup
    obtain ⟨second, hsecond, hid', -⟩ := hconsumers queue' info₂ hlookup'
    exact hlinked.id_inj queue queue' first second hfirst hsecond (by rw [← hid, ← hid', heq])
  consumer_lt tag entry hlookup := by
    rw [hsubscribed]
    exact (hunacked tag entry hlookup).1
  queue_eq tag entry queue info' hentry hlookup heq := by
    obtain ⟨info, hinfo, hid, -⟩ := hconsumers queue info' hlookup
    exact (hunacked tag entry hentry).2 queue info hinfo (heq.trans hid)
  remembers d hd := (hdispatching d hd).of_consumersFrom hconsumers hsubscribed

theorem Linked.entryLinked (hlinked : b.Linked) {tag : Int} {entry : UnackedMessage}
    (hlookup : b.unacked.lookup tag = some entry) : b.EntryLinked entry :=
  ⟨hlinked.consumer_lt tag entry hlookup, fun queue info hinfo =>
    hlinked.queue_eq tag entry queue info hlookup hinfo⟩

theorem PrefetchOk.congr (hconsumers : b'.consumers = b.consumers)
    (hunacked : b'.unacked = b.unacked) : b'.PrefetchOk ↔ b.PrefetchOk := by
  unfold PrefetchOk consumerCount
  rw [hconsumers, hunacked]

/-! ### Settling -/

def forQueue (queue : String) (_tag : Int) (entry : UnackedMessage) : Nat :=
  if entry.queue = queue then 1 else 0

/-- The counter lowered by a number of releases, down to zero. -/
def lowered (info : ConsumerInfo) (releases : Nat) : ConsumerInfo :=
  { info with unackedCount := max 0 (info.unackedCount - releases) }

/-- What releasing an entry of a queue does to the record of a consumer: the counter is lowered by
one, down to zero. -/
def released (source queue : String) (info : ConsumerInfo) : ConsumerInfo :=
  if queue = source ∧ info.unackedCount > 0 then
    { info with unackedCount := info.unackedCount - 1 }
  else
    info

theorem released_id (source queue : String) (info : ConsumerInfo) :
    (released source queue info).id = info.id := by
  unfold released
  split <;> rfl

theorem released_prefetchCount (source queue : String) (info : ConsumerInfo) :
    (released source queue info).prefetchCount = info.prefetchCount := by
  unfold released
  split <;> rfl

theorem released_eq_lowered (source queue : String) {info : ConsumerInfo}
    (hcount : 0 ≤ info.unackedCount) :
    released source queue info = lowered info (if source = queue then 1 else 0) := by
  unfold released lowered
  by_cases heq : queue = source
  · by_cases hpos : info.unackedCount > 0
    · rw [if_pos ⟨heq, hpos⟩, if_pos heq.symm, max_eq_right (by push_cast; omega)]
      rfl
    · rw [if_neg (fun h => hpos h.2), if_pos heq.symm, max_eq_left (by push_cast; omega)]
      have hzero : info.unackedCount = 0 := by omega
      rw [← hzero]
  · rw [if_neg (fun h => heq h.1), if_neg (Ne.symm heq), max_eq_right (by push_cast; omega)]
    simp

theorem lookup_releaseConsumer (b : Broker) (source queue : String) :
    (b.releaseConsumer source).consumers.lookup queue =
      (b.consumers.lookup queue).map (released source queue) := by
  unfold releaseConsumer released
  by_cases heq : queue = source
  · subst heq
    cases hlookup : b.consumers.lookup queue with
    | none => simp [hlookup]
    | some info =>
        by_cases hpos : info.unackedCount > 0
        · simp [hpos]
        · simp [hlookup, hpos]
  · cases hlookup : b.consumers.lookup source with
    | none => simp [heq]
    | some info =>
        by_cases hpos : info.unackedCount > 0
        · simp [hpos, heq, Finmap.lookup_insert_of_ne _ heq]
        · simp [hpos, heq]

theorem lookup_nackOne (requeue : Bool) {tag : Int} {entry : UnackedMessage}
    (hlookup : b.unacked.lookup tag = some entry) (queue : String) :
    (b.nackOne requeue tag).consumers.lookup queue =
      (b.consumers.lookup queue).map (released entry.queue queue) := by
  unfold nackOne
  rw [hlookup]
  cases requeue with
  | false => exact lookup_releaseConsumer _ entry.queue queue
  | true =>
      simp only [if_true]
      rw [lookup_releaseConsumer, requeueFront_consumers]

theorem lookup_nackOne_consumers (requeue : Bool) (tag : Int) {queue : String}
    {info : ConsumerInfo} (hinfo : b.consumers.lookup queue = some info)
    (hcount : 0 ≤ info.unackedCount) :
    (b.nackOne requeue tag).consumers.lookup queue =
      some (lowered info (weightAt (forQueue queue) b.unacked tag)) := by
  cases hlookup : b.unacked.lookup tag with
  | none =>
      rw [nackOne_of_lookup_none requeue hlookup, hinfo, weightAt_of_lookup_none _ hlookup]
      simp [lowered, hcount]
  | some entry =>
      rw [lookup_nackOne requeue hlookup, hinfo, Option.map_some, released_eq_lowered _ _ hcount,
        weightAt_of_lookup _ hlookup]
      rfl

/-- Settling a list of tags lowers a consumer's counter by the number of entries for its queue among
them, down to zero. -/
theorem lookup_foldl_nackOne_consumers (requeue : Bool) {tags : List Int} (hnodup : tags.Nodup)
    {queue : String} {info : ConsumerInfo} (hinfo : b.consumers.lookup queue = some info)
    (hcount : 0 ≤ info.unackedCount) :
    (tags.foldl (nackOne requeue) b).consumers.lookup queue =
      some (lowered info (tags.map (weightAt (forQueue queue) b.unacked)).sum) := by
  induction tags generalizing b info with
  | nil => simp [lowered, hinfo, hcount]
  | cons tag tags ih =>
      obtain ⟨hnotMem, hnodup'⟩ := List.nodup_cons.mp hnodup
      have hfirst := lookup_nackOne_consumers requeue tag hinfo hcount
      have hsame : tags.map (weightAt (forQueue queue) (b.nackOne requeue tag).unacked) =
          tags.map (weightAt (forQueue queue) b.unacked) := by
        apply List.map_congr_left
        intro other hother
        rw [nackOne_unacked, weightAt_erase_of_ne]
        rintro rfl
        exact hnotMem hother
      rw [List.foldl_cons, ih hnodup' hfirst (le_max_left _ _), hsame, List.map_cons,
        List.sum_cons]
      generalize (tags.map (weightAt (forQueue queue) b.unacked)).sum = rest
      unfold lowered
      congr 2
      push_cast
      omega

theorem consumersFrom_nackOne (requeue : Bool) (tag : Int) :
    ConsumersFrom b (b.nackOne requeue tag) := by
  cases hentry : b.unacked.lookup tag with
  | none =>
      rw [nackOne_of_lookup_none requeue hentry]
      exact consumersFrom_of_eq rfl
  | some entry =>
      intro queue info' hlookup
      rw [lookup_nackOne requeue hentry, Option.map_eq_some_iff] at hlookup
      obtain ⟨info, hinfo, rfl⟩ := hlookup
      exact ⟨info, hinfo, released_id _ _ _, released_prefetchCount _ _ _⟩

theorem consumersFrom_foldl_nackOne (requeue : Bool) (tags : List Int) :
    ConsumersFrom b (tags.foldl (nackOne requeue) b) := by
  induction tags generalizing b with
  | nil => exact consumersFrom_of_eq rfl
  | cons tag tags ih => exact (consumersFrom_nackOne requeue tag).trans ih

theorem Linked.settle (hlinked : b.Linked) {op : Op} (hsettles : op.settles = true) :
    (b.step op).Linked := by
  have hsound := hlinked.sound.step op
  rw [step_of_settles hlinked.sound.connected hsettles] at hsound ⊢
  refine hlinked.of_consumersFrom hsound (consumersFrom_foldl_nackOne _ _) (by simp) ?_ ?_
  · intro tag entry hlookup
    rw [foldl_nackOne_lookup] at hlookup
    split at hlookup
    · exact absurd hlookup (by simp)
    · exact hlinked.entryLinked hlookup
  · intro d hd
    rw [foldl_nackOne_dispatching] at hd
    exact hlinked.remembers d hd

/-- The outstanding entries the step covers that the consumer received. -/
def coveredOwn (b : Broker) (op : Op) (consumer : Nat) : Nat :=
  total (fun tag entry => if op.covers tag then deliveredTo consumer tag entry else 0) b.unacked

/-- The outstanding entries the step covers that come from the queue. -/
def coveredFrom (b : Broker) (op : Op) (queue : String) : Nat :=
  total (fun tag entry => if op.covers tag then forQueue queue tag entry else 0) b.unacked

theorem Linked.own_le_from (hlinked : b.Linked) (op : Op) {queue : String} {info : ConsumerInfo}
    (hinfo : b.consumers.lookup queue = some info) (tag : Int) (entry : UnackedMessage)
    (hentry : b.unacked.lookup tag = some entry) :
    (if op.covers tag then deliveredTo info.id tag entry else 0) ≤
      if op.covers tag then forQueue queue tag entry else 0 := by
  unfold deliveredTo forQueue
  by_cases hown : entry.consumer = info.id
  · simp [hlinked.queue_eq tag entry queue info hentry hinfo hown]
    split_ifs <;> omega
  · simp [hown]

theorem Linked.coveredOwn_eq_iff (hlinked : b.Linked) (op : Op) {queue : String}
    {info : ConsumerInfo} (hinfo : b.consumers.lookup queue = some info) :
    b.coveredOwn op info.id = b.coveredFrom op queue ↔
      ∀ tag entry, b.unacked.lookup tag = some entry → op.covers tag = true →
        entry.queue = queue → entry.consumer = info.id := by
  unfold coveredOwn coveredFrom
  rw [total_eq_total_iff (hlinked.own_le_from op hinfo)]
  refine forall_congr' fun tag => forall_congr' fun entry => forall_congr' fun hentry => ?_
  have hqueue := hlinked.queue_eq tag entry queue info hentry hinfo
  unfold deliveredTo forQueue
  by_cases hcovers : op.covers tag = true
  · by_cases hown : entry.consumer = info.id
    · simp [hcovers, hown, hqueue hown]
    · simp [hcovers, hown]
  · simp [hcovers]

theorem coveredOwn_eq_consumerCount_iff (b : Broker) (op : Op) (consumer : Nat) :
    b.coveredOwn op consumer = consumerCount b consumer ↔
      ∀ tag entry, b.unacked.lookup tag = some entry → entry.consumer = consumer →
        op.covers tag = true := by
  unfold coveredOwn consumerCount
  rw [total_eq_total_iff]
  · refine forall_congr' fun tag => forall_congr' fun entry => forall_congr' fun _ => ?_
    unfold deliveredTo
    by_cases hcovers : op.covers tag = true
    · simp [hcovers]
    · simp [hcovers]
  · intro tag entry _
    split_ifs
    · exact le_rfl
    · exact Nat.zero_le _

/-- A settling step lowers a consumer's counter by the entries of its queue it covers. -/
theorem lookup_settle (hlinked : b.Linked) {op : Op} (henabled : b.Enabled op)
    (hsettles : op.settles = true) {queue : String} {info : ConsumerInfo}
    (hinfo : b.consumers.lookup queue = some info) (hcount : 0 ≤ info.unackedCount) :
    (b.step op).consumers.lookup queue = some (lowered info (b.coveredFrom op queue)) := by
  unfold coveredFrom
  rw [step_of_settles hlinked.sound.connected hsettles, ← sum_weightAt_settledTags _ henabled]
  exact lookup_foldl_nackOne_consumers _ (nodup_settledTags henabled) hinfo hcount

theorem consumerCount_settle (hlinked : b.Linked) {op : Op} (henabled : b.Enabled op)
    (hsettles : op.settles = true) (consumer : Nat) :
    consumerCount (b.step op) consumer + b.coveredOwn op consumer = consumerCount b consumer := by
  unfold coveredOwn
  rw [step_of_settles hlinked.sound.connected hsettles, ← sum_weightAt_settledTags _ henabled]
  exact foldl_nackOne_total _ _ _ (nodup_settledTags henabled)

/-- The counters stay exact exactly when no current consumer pays for an earlier one's tag. -/
theorem settle_prefetchOk_iff (hlinked : b.Linked) (hok : b.PrefetchOk) {op : Op}
    (henabled : b.Enabled op) (hsettles : op.settles = true) :
    (b.step op).PrefetchOk ↔ ∀ queue info, b.consumers.lookup queue = some info →
      (∀ tag entry, b.unacked.lookup tag = some entry → op.covers tag = true →
        entry.queue = queue → entry.consumer = info.id) ∨
      ∀ tag entry, b.unacked.lookup tag = some entry → entry.consumer = info.id →
        op.covers tag = true := by
  -- the counter loses the entries of the queue, the count those of the consumer, which are fewer
  have hone : ∀ queue info, b.consumers.lookup queue = some info →
      (b.step op).consumers.lookup queue = some (lowered info (b.coveredFrom op queue)) ∧
        consumerCount (b.step op) info.id + b.coveredOwn op info.id = consumerCount b info.id ∧
        b.coveredOwn op info.id ≤ b.coveredFrom op queue := by
    intro queue info hinfo
    have hcount := (hok queue info hinfo).1
    exact ⟨lookup_settle hlinked henabled hsettles hinfo (by omega),
      consumerCount_settle hlinked henabled hsettles info.id,
      total_le_total (hlinked.own_le_from op hinfo)⟩
  constructor
  · intro hafter queue info hinfo
    obtain ⟨hlookup, hcountAfter, hle⟩ := hone queue info hinfo
    have hcount := hok queue info hinfo
    have hnew := (hafter queue _ hlookup).1
    simp only [lowered] at hnew
    rw [← hlinked.coveredOwn_eq_iff op hinfo, ← coveredOwn_eq_consumerCount_iff]
    omega
  · intro hcond queue info' hlookup'
    obtain ⟨info, hinfo, -, -⟩ : ∃ info, b.consumers.lookup queue = some info ∧ _ := by
      rw [step_of_settles hlinked.sound.connected hsettles] at hlookup'
      exact consumersFrom_foldl_nackOne _ _ queue info' hlookup'
    obtain ⟨hlookup, hcountAfter, hle⟩ := hone queue info hinfo
    obtain rfl := Option.some.inj (hlookup.symm.trans hlookup')
    have hcount := hok queue info hinfo
    have hcase := hcond queue info hinfo
    rw [← hlinked.coveredOwn_eq_iff op hinfo, ← coveredOwn_eq_consumerCount_iff] at hcase
    simp only [lowered]
    omega

/-! ### Handing out a message -/

theorem consumersFrom_deliver {d : Dispatching} {front : QueuedMessage}
    {rest : List QueuedMessage} {info : ConsumerInfo}
    (hinfo : b.consumers.lookup d.queue = some info) :
    ConsumersFrom b (b.deliver d front rest info) := by
  intro queue info' hlookup
  simp only [deliver] at hlookup
  rcases lookup_insert_cases hlookup with ⟨rfl, rfl⟩ | ⟨-, hold⟩
  · exact ⟨info, hinfo, rfl, rfl⟩
  · exact ⟨info', hold, rfl, rfl⟩

theorem Linked.dispatchOne (hlinked : b.Linked) {d : Dispatching} (hremembers : b.Remembers d) :
    (b.dispatchOne d).2.Linked := by
  have hsound := hlinked.sound.dispatchOne d
  rcases b.dispatchOne_cases d with ⟨heq, -⟩ | ⟨front, rest, info, -, hinfo, -, heq⟩
  · rw [heq] at hsound ⊢
    exact hlinked.of_consumersFrom hsound (consumersFrom_of_eq rfl) rfl
      (fun _ _ hlookup => hlinked.entryLinked hlookup) (by simp)
  · rw [heq] at hsound ⊢
    refine hlinked.of_consumersFrom hsound (consumersFrom_deliver hinfo) rfl ?_ ?_
    · intro tag entry hlookup
      simp only [deliver] at hlookup
      rcases lookup_insert_cases hlookup with ⟨rfl, rfl⟩ | ⟨-, hold⟩
      · exact ⟨hremembers.1, fun queue info' hinfo' hid => (hremembers.2 queue info' hinfo' hid.symm).1.symm⟩
      · exact hlinked.entryLinked hold
    · intro d' hd'
      obtain rfl := Option.some.inj hd'
      exact hremembers

/-- A delivery keeps the counters exact exactly when it is counted for the consumer that receives
it. -/
theorem deliver_prefetchOk_iff (hlinked : b.Linked) (hok : b.PrefetchOk) {d : Dispatching}
    (hremembers : b.Remembers d) {front : QueuedMessage} {rest : List QueuedMessage}
    {info : ConsumerInfo} (hinfo : b.consumers.lookup d.queue = some info)
    (hroom : info.unackedCount < d.prefetchCount) :
    (b.deliver d front rest info).PrefetchOk ↔ info.id = d.consumer := by
  have hcount : ∀ consumer, consumerCount (b.deliver d front rest info) consumer =
      (if d.consumer = consumer then 1 else 0) + consumerCount b consumer :=
    fun consumer => total_insert_of_notMem (deliveredTo consumer) hlinked.sound.notMem_unacked
  have hold := hok d.queue info hinfo
  constructor
  · intro hafter
    have hnew := (hafter d.queue { info with unackedCount := info.unackedCount + 1 }
      (Finmap.lookup_insert _)).1
    rw [hcount] at hnew
    by_contra hne
    rw [if_neg (Ne.symm hne)] at hnew
    simp only at hnew
    omega
  · intro hid queue info' hlookup
    simp only [deliver] at hlookup
    rw [hcount]
    rcases lookup_insert_cases hlookup with ⟨rfl, rfl⟩ | ⟨heq, hold⟩
    · have hprefetch := (hremembers.2 d.queue info hinfo hid).2
      rw [if_pos hid.symm]
      push_cast
      omega
    · have hne : d.consumer ≠ info'.id := by
        intro hsame
        exact heq (hremembers.2 queue info' hold hsame.symm).1
      rw [if_neg hne, zero_add]
      exact hok queue info' hold

theorem remembers_of_lookup (hlinked : b.Linked) {queue : String} {info : ConsumerInfo}
    (hinfo : b.consumers.lookup queue = some info) :
    b.Remembers { queue, callback := info.callback, prefetchCount := info.prefetchCount,
                  consumer := info.id } := by
  refine ⟨hlinked.id_lt queue info hinfo, ?_⟩
  intro queue' info' hinfo' hid
  obtain rfl := hlinked.id_inj queue' queue info' info hinfo' hinfo hid
  obtain rfl := Option.some.inj (hinfo'.symm.trans hinfo)
  exact ⟨rfl, rfl⟩

/-! ### Subscribing and cancelling -/

theorem Linked.subscribe (hlinked : b.Linked) {queue : String} {info : ConsumerInfo}
    (hid : info.id = b.subscribed) :
    Linked { b with consumers := b.consumers.insert queue info, subscribed := b.subscribed + 1 } := by
  constructor
  · exact hlinked.sound.of_frame rfl rfl rfl fun _ hmem => hmem
  · intro queue' info' hlookup
    rcases lookup_insert_cases hlookup with ⟨rfl, rfl⟩ | ⟨-, hold⟩
    · simp only
      omega
    · have hlt := hlinked.id_lt queue' info' hold
      simp only
      omega
  · intro queue₁ queue₂ info₁ info₂ hlookup₁ hlookup₂ heq
    rcases lookup_insert_cases hlookup₁ with ⟨rfl, rfl⟩ | ⟨-, hold₁⟩
    · rcases lookup_insert_cases hlookup₂ with ⟨rfl, rfl⟩ | ⟨-, hold₂⟩
      · rfl
      · have hlt := hlinked.id_lt queue₂ info₂ hold₂
        omega
    · rcases lookup_insert_cases hlookup₂ with ⟨rfl, rfl⟩ | ⟨-, hold₂⟩
      · have hlt := hlinked.id_lt queue₁ info₁ hold₁
        omega
      · exact hlinked.id_inj queue₁ queue₂ info₁ info₂ hold₁ hold₂ heq
  · intro tag entry hlookup
    exact (hlinked.consumer_lt tag entry hlookup).trans (Nat.lt_succ_self _)
  · intro tag entry queue' info' hentry hlookup heq
    rcases lookup_insert_cases hlookup with ⟨rfl, rfl⟩ | ⟨-, hold⟩
    · have hlt := hlinked.consumer_lt tag entry hentry
      omega
    · exact hlinked.queue_eq tag entry queue' info' hentry hold heq
  · intro d hd
    have hold := hlinked.remembers d hd
    refine ⟨hold.1.trans (Nat.lt_succ_self _), ?_⟩
    intro queue' info' hlookup heq
    rcases lookup_insert_cases hlookup with ⟨rfl, rfl⟩ | ⟨-, hlookup'⟩
    · have hlt := hold.1
      omega
    · exact hold.2 queue' info' hlookup' heq

theorem PrefetchOk.subscribe (hlinked : b.Linked) (hok : b.PrefetchOk) {queue : String}
    {info : ConsumerInfo} (hcount : info.unackedCount = 0) (hprefetch : 0 ≤ info.prefetchCount)
    (hid : info.id = b.subscribed) :
    PrefetchOk
      { b with consumers := b.consumers.insert queue info, subscribed := b.subscribed + 1 } := by
  intro queue' info' hlookup
  rcases lookup_insert_cases hlookup with ⟨rfl, rfl⟩ | ⟨-, hold⟩
  · have hnone : total (deliveredTo info'.id) b.unacked = 0 := by
      apply total_eq_zero
      intro tag entry hentry
      have hlt := hlinked.consumer_lt tag entry hentry
      exact if_neg (by omega)
    unfold consumerCount
    rw [hnone]
    exact ⟨hcount, hprefetch⟩
  · exact hok queue' info' hold

/-! ### One step and whole runs -/

theorem linked_initial : initial.Linked where
  sound := sound_initial
  id_lt := by simp [initial, connect]
  id_inj := by simp [initial, connect]
  consumer_lt := by simp [initial, connect]
  queue_eq := by simp [initial, connect]
  remembers := by simp [initial, connect]

theorem Linked.of_same (hlinked : b.Linked) (hsound : b'.Sound)
    (hconsumers : b'.consumers = b.consumers) (hsubscribed : b'.subscribed = b.subscribed)
    (hunacked : b'.unacked = b.unacked) (hdispatching : b'.dispatching = b.dispatching) :
    b'.Linked :=
  hlinked.of_consumersFrom hsound (consumersFrom_of_eq hconsumers) hsubscribed
    (fun _ _ hlookup => hlinked.entryLinked (hunacked ▸ hlookup))
    (fun d hd => hlinked.remembers d (hdispatching ▸ hd))

/-- A step that covers nothing and is no dispatch pass confuses nobody. -/
theorem countsOwn_of_covers_none {op : Op} (hcovers : ∀ tag, op.covers tag = false)
    (hne : op ≠ .dispatchNext) : b.CountsOwn op := by
  cases op with
  | dispatchNext => exact absurd rfl hne
  | _ =>
      intro queue info _
      left
      intro tag entry _ hcover
      rw [hcovers tag] at hcover
      exact absurd hcover (by decide)

/-- The step keeps the links, and from exact counters it reaches exact counters if and only if it
does not confuse consumers. -/
def Tracks (b : Broker) (op : Op) : Prop :=
  (b.step op).Linked ∧ (b.PrefetchOk → ((b.step op).PrefetchOk ↔ b.CountsOwn op))

theorem Linked.tracks_of_settles (hlinked : b.Linked) {op : Op} (henabled : b.Enabled op)
    (hsettles : op.settles = true) : b.Tracks op := by
  refine ⟨hlinked.settle hsettles, fun hok => ?_⟩
  rw [settle_prefetchOk_iff hlinked hok henabled hsettles]
  cases op with
  | dispatchNext => exact absurd hsettles (by decide)
  | _ => rfl

theorem Linked.tracks_of_same (hlinked : b.Linked) {op : Op} (hcovers : ∀ tag, op.covers tag = false)
    (hne : op ≠ .dispatchNext) (hconsumers : (b.step op).consumers = b.consumers)
    (hsubscribed : (b.step op).subscribed = b.subscribed)
    (hunacked : (b.step op).unacked = b.unacked)
    (hdispatching : (b.step op).dispatching = b.dispatching) : b.Tracks op := by
  have hsound := hlinked.sound.step op
  refine ⟨hlinked.of_same hsound hconsumers hsubscribed hunacked hdispatching, fun hok => ?_⟩
  rw [PrefetchOk.congr hconsumers hunacked]
  exact iff_of_true hok (countsOwn_of_covers_none hcovers hne)

theorem Linked.tracks_of_routing (hlinked : b.Linked) {op : Op} (hrouting : routing op = true)
    (hcovers : ∀ tag, op.covers tag = false) (hne : op ≠ .dispatchNext) : b.Tracks op := by
  obtain ⟨exchanges, bindings, heq⟩ := exists_step_of_routing hlinked.sound.connected hrouting
  apply hlinked.tracks_of_same hcovers hne <;> rw [heq]

theorem Linked.tracks_publish (hlinked : b.Linked) (message : AmqpMessage) :
    b.Tracks (.publish message) := by
  obtain ⟨queues, routed, heq⟩ :=
    b.exists_routeMessage message message.exchange message.routingKey
  have hstep : b.step (.publish message) = { b with queues, routed } := by
    simp only [step, publish]
    rw [if_neg (not_not.mpr hlinked.sound.connected)]
    exact heq
  apply hlinked.tracks_of_same (fun _ => rfl) (by simp) <;> rw [hstep]

theorem Linked.tracks_consume (hlinked : b.Linked) (queue : String) (callback : Option Callback)
    (prefetchCount : Int) : b.Tracks (.consume queue callback prefetchCount) := by
  rcases step_consume hlinked.sound.connected queue callback prefetchCount with
    heq | ⟨info, hcount, hprefetch, hid, heq⟩
  · apply hlinked.tracks_of_same (fun _ => rfl) (by simp) <;> rw [heq]
  · unfold Tracks
    rw [heq]
    refine ⟨hlinked.subscribe hid, fun hok => iff_of_true ?_ ?_⟩
    · exact PrefetchOk.subscribe hlinked hok hcount hprefetch hid
    · exact countsOwn_of_covers_none (fun _ => rfl) (by simp)

theorem Linked.tracks_cancelConsume (hlinked : b.Linked) (queue : String) :
    b.Tracks (.cancelConsume queue) := by
  have hsound := hlinked.sound.step (.cancelConsume queue)
  have hold : ∀ queue' info, (b.consumers.erase queue).lookup queue' = some info →
      b.consumers.lookup queue' = some info := by
    intro queue' info hlookup
    by_cases heq : queue' = queue
    · subst heq
      rw [Finmap.lookup_erase] at hlookup
      exact absurd hlookup (by simp)
    · rwa [Finmap.lookup_erase_ne heq] at hlookup
  unfold Tracks
  rw [step_cancelConsume hlinked.sound.connected queue] at hsound ⊢
  constructor
  · exact hlinked.of_consumersFrom hsound
      (fun queue' info hlookup => ⟨info, hold queue' info hlookup, rfl, rfl⟩) rfl
      (fun _ _ hlookup => hlinked.entryLinked hlookup) hlinked.remembers
  · intro hok
    exact iff_of_true (fun queue' info hlookup => hok queue' info (hold queue' info hlookup))
      (countsOwn_of_covers_none (fun _ => rfl) (by simp))

/-- A pass that enters a queue copies the current consumer, so it counts for the right one. -/
theorem Linked.tracks_dispatchStart (hlinked : b.Linked) (queueName : String) :
    b.Tracks (.dispatchStart queueName) := by
  cases hinfo : b.consumers.lookup queueName with
  | none =>
      apply hlinked.tracks_of_same (fun _ => rfl) (by simp) <;> simp [step, dispatchStart, hinfo]
  | some info =>
      have hremembers := remembers_of_lookup hlinked hinfo
      unfold Tracks
      simp only [step, dispatchStart, hinfo]
      refine ⟨hlinked.dispatchOne hremembers, fun hok => iff_of_true ?_
        (countsOwn_of_covers_none (fun _ => rfl) (by simp))⟩
      rcases b.dispatchOne_cases _ with ⟨heq, -⟩ | ⟨front, rest, info', -, hinfo', hroom, heq⟩
      · rw [heq]
        exact hok
      · rw [heq, deliver_prefetchOk_iff hlinked hok hremembers hinfo' hroom]
        rw [Option.some.inj (hinfo'.symm.trans hinfo)]

/-- A later pass counts for the current consumer, which need not be the one it copied. -/
theorem Linked.tracks_dispatchNext (hlinked : b.Linked) : b.Tracks .dispatchNext := by
  unfold Tracks
  cases hd : b.dispatching with
  | none =>
      have hstep : b.step .dispatchNext = b := by simp [step, dispatchNext, hd]
      rw [hstep]
      refine ⟨hlinked, fun hok => iff_of_true hok ?_⟩
      intro d front rest info hdispatching
      rw [hd] at hdispatching
      exact absurd hdispatching (by simp)
  | some d =>
      have hremembers := hlinked.remembers d hd
      have hstep : b.step .dispatchNext = (b.dispatchOne d).2 := by
        simp [step, dispatchNext, hd]
      rw [hstep]
      refine ⟨hlinked.dispatchOne hremembers, fun hok => ?_⟩
      rcases b.dispatchOne_cases d with
        ⟨heq, hfull⟩ | ⟨front, rest, info, hqueue, hinfo, hroom, heq⟩
      · rw [heq]
        refine iff_of_true hok ?_
        intro d' front rest info hd' hqueue hinfo hroom
        rw [hd] at hd'
        obtain rfl := Option.some.inj hd'
        exact absurd (hfull front rest info hqueue hinfo) (not_le.mpr hroom)
      · rw [heq, deliver_prefetchOk_iff hlinked hok hremembers hinfo hroom]
        constructor
        · intro hid d' front' rest' info' hd' _ hinfo' _
          rw [hd] at hd'
          obtain rfl := Option.some.inj hd'
          rw [← hid, Option.some.inj (hinfo'.symm.trans hinfo)]
        · intro hown
          exact hown d front rest info hd hqueue hinfo hroom

theorem Linked.tracks (hlinked : b.Linked) {op : Op} (henabled : b.Enabled op) : b.Tracks op := by
  cases op with
  | declareExchange name type durable autoDelete =>
      exact hlinked.tracks_of_routing rfl (fun _ => rfl) (by simp)
  | bindQueue queue exchange routingKey =>
      exact hlinked.tracks_of_routing rfl (fun _ => rfl) (by simp)
  | unbindQueue queue exchange routingKey =>
      exact hlinked.tracks_of_routing rfl (fun _ => rfl) (by simp)
  | declareQueue name uuid =>
      rcases b.step_declareQueue name uuid with heq | ⟨queueName, -, heq⟩
      · apply hlinked.tracks_of_same (fun _ => rfl) (by simp) <;> rw [heq]
      · apply hlinked.tracks_of_same (fun _ => rfl) (by simp) <;> rw [heq]
  | publish message => exact hlinked.tracks_publish message
  | consume queue callback prefetchCount =>
      exact hlinked.tracks_consume queue callback prefetchCount
  | cancelConsume queue => exact hlinked.tracks_cancelConsume queue
  | ack deliveryTag multiple order => exact hlinked.tracks_of_settles henabled rfl
  | nack deliveryTag requeue multiple order => exact hlinked.tracks_of_settles henabled rfl
  | reject deliveryTag requeue => exact hlinked.tracks_of_settles henabled rfl
  | dispatchStart queueName => exact hlinked.tracks_dispatchStart queueName
  | dispatchNext => exact hlinked.tracks_dispatchNext

/-- The prefetch bound holds all along a run exactly if no step of it confuses consumers. -/
theorem prefetchOk_iff_countsOwn {ops : List Op} (hrun : Along step Enabled initial ops) :
    (∀ n, (run step initial (ops.take n)).PrefetchOk) ↔ Along step CountsOwn initial ops := by
  have hstart : initial.PrefetchOk := by
    intro queue info hinfo
    simp [initial, connect] at hinfo
  apply always_iff_along (I := Linked) hrun linked_initial hstart
  · intro b op hlinked henabled
    exact (hlinked.tracks henabled).1
  · intro b op hlinked henabled hok
    exact (hlinked.tracks henabled).2 hok

/-- Three messages on one queue, whose consumer is replaced by one of the same prefetch count while
the first message is outstanding. The second consumer receives the second message. -/
def replacedRun : List Op :=
  [.declareExchange "ex" .direct true false, .declareQueue "q" "", .bindQueue "q" "ex" "k",
    .publish { exchange := "ex", routingKey := "k" },
    .publish { exchange := "ex", routingKey := "k" },
    .publish { exchange := "ex", routingKey := "k" },
    .consume "q" (some 0) 1, .dispatchStart "q", .dispatchNext,
    .consume "q" (some 1) 1, .dispatchStart "q"]

theorem along_replacedRun : Along step Enabled initial replacedRun :=
  ⟨trivial, trivial, trivial, trivial, trivial, trivial, trivial, rfl, trivial, trivial, rfl,
    trivial⟩

theorem prefetchOk_replacedRun : (run step initial replacedRun).PrefetchOk := by
  refine (prefetchOk_iff_countsOwn along_replacedRun).mpr ?_ 11
  refine ⟨?_, ?_, ?_, ?_, ?_, ?_, ?_, ?_, ?_, ?_, ?_, trivial⟩
  case refine_9 =>
    intro d front rest info hd _ hinfo _
    obtain rfl : ⟨"q", 0, 1, 0⟩ = d := Option.some.inj hd
    obtain rfl : ⟨0, 1, 1, 0⟩ = info := Option.some.inj hinfo
    rfl
  all_goals exact countsOwn_of_covers_none (fun _ => rfl) (by simp)

/-- Acknowledging the first consumer's delivery after that lets the second consumer hold two. -/
theorem late_ack_exceeds_prefetch :
    ¬ ∀ ops, Along step Enabled initial ops → ∀ n, (run step initial (ops.take n)).PrefetchOk := by
  intro hclaim
  have hrun : Along step Enabled initial (replacedRun ++ [.ack 1 false [], .dispatchNext]) := by
    rw [along_append]
    exact ⟨along_replacedRun, nofun, trivial, trivial⟩
  have hok := hclaim _ hrun 13
  have hover := (hok "q" ⟨1, 1, 1, 1⟩ (by decide)).2
  exact absurd hover (by decide)

end SoulCoreKit.Mq.Broker
