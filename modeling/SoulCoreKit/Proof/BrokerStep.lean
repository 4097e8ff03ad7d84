import SoulCoreKit.Mq.Broker

/-!
# What the pieces of a broker step change

The methods are assembled from four updates: pushing a copy, settling one tag, handing out the front
of a queue, and the counter update of a consumer. Each is described once, field by field, and the
invariants are proved from these descriptions.
-/

namespace SoulCoreKit.Mq.Broker

open UnorderedMap

/-- The counter update touches the consumers and nothing else. -/
theorem exists_releaseConsumer (b : Broker) (queue : String) :
    ∃ consumers, b.releaseConsumer queue = { b with consumers } := by
  unfold releaseConsumer
  split
  · exact ⟨b.consumers, rfl⟩
  · split
    · exact ⟨_, rfl⟩
    · exact ⟨b.consumers, rfl⟩

section ReleaseConsumer

variable (b : Broker) (queue : String)

@[simp]
theorem releaseConsumer_connected : (b.releaseConsumer queue).connected = b.connected := by
  obtain ⟨consumers, heq⟩ := b.exists_releaseConsumer queue
  rw [heq]

@[simp]
theorem releaseConsumer_nextDeliveryTag :
    (b.releaseConsumer queue).nextDeliveryTag = b.nextDeliveryTag := by
  obtain ⟨consumers, heq⟩ := b.exists_releaseConsumer queue
  rw [heq]

@[simp]
theorem releaseConsumer_queues : (b.releaseConsumer queue).queues = b.queues := by
  obtain ⟨consumers, heq⟩ := b.exists_releaseConsumer queue
  rw [heq]

@[simp]
theorem releaseConsumer_unacked : (b.releaseConsumer queue).unacked = b.unacked := by
  obtain ⟨consumers, heq⟩ := b.exists_releaseConsumer queue
  rw [heq]

@[simp]
theorem releaseConsumer_dispatching : (b.releaseConsumer queue).dispatching = b.dispatching := by
  obtain ⟨consumers, heq⟩ := b.exists_releaseConsumer queue
  rw [heq]

@[simp]
theorem releaseConsumer_routed : (b.releaseConsumer queue).routed = b.routed := by
  obtain ⟨consumers, heq⟩ := b.exists_releaseConsumer queue
  rw [heq]

@[simp]
theorem releaseConsumer_subscribed : (b.releaseConsumer queue).subscribed = b.subscribed := by
  obtain ⟨consumers, heq⟩ := b.exists_releaseConsumer queue
  rw [heq]

end ReleaseConsumer

theorem ackOne_eq_nackOne : ackOne = nackOne false := by
  funext b tag
  unfold ackOne nackOne
  cases b.unacked.lookup tag <;> rfl

theorem nackOne_of_lookup_none {b : Broker} {tag : Int} (requeue : Bool)
    (hlookup : b.unacked.lookup tag = none) : b.nackOne requeue tag = b := by
  simp [nackOne, hlookup]

section RequeueFront

variable (b : Broker) (entry : UnackedMessage)

@[simp]
theorem requeueFront_unacked : (b.requeueFront entry).unacked = b.unacked := by
  unfold requeueFront
  split <;> rfl

@[simp]
theorem requeueFront_routed : (b.requeueFront entry).routed = b.routed := by
  unfold requeueFront
  split <;> rfl

@[simp]
theorem requeueFront_consumers : (b.requeueFront entry).consumers = b.consumers := by
  unfold requeueFront
  split <;> rfl

@[simp]
theorem requeueFront_dispatching : (b.requeueFront entry).dispatching = b.dispatching := by
  unfold requeueFront
  split <;> rfl

@[simp]
theorem requeueFront_subscribed : (b.requeueFront entry).subscribed = b.subscribed := by
  unfold requeueFront
  split <;> rfl

theorem le_requeueFront_nextDeliveryTag :
    b.nextDeliveryTag ≤ (b.requeueFront entry).nextDeliveryTag := by
  unfold requeueFront
  split
  · exact le_rfl
  · simp

theorem mem_requeueFront_queues {queue : String} :
    queue ∈ (b.requeueFront entry).queues ↔ queue ∈ b.queues := by
  unfold requeueFront
  split
  · rfl
  · rename_i hlookup
    rw [Finmap.mem_insert]
    constructor
    · rintro (rfl | hmem)
      · exact Finmap.mem_of_lookup_eq_some hlookup
      · exact hmem
    · exact Or.inr

end RequeueFront

section NackOne

variable (requeue : Bool) (b : Broker) (tag : Int)

@[simp]
theorem nackOne_unacked : (b.nackOne requeue tag).unacked = b.unacked.erase tag := by
  cases hlookup : b.unacked.lookup tag with
  | none => rw [nackOne_of_lookup_none requeue hlookup, erase_of_lookup_none hlookup]
  | some entry => cases requeue <;> simp [nackOne, hlookup]

@[simp]
theorem nackOne_routed : (b.nackOne requeue tag).routed = b.routed := by
  unfold nackOne
  split
  · rfl
  · cases requeue <;> simp

@[simp]
theorem nackOne_dispatching : (b.nackOne requeue tag).dispatching = b.dispatching := by
  unfold nackOne
  split
  · rfl
  · cases requeue <;> simp

@[simp]
theorem nackOne_subscribed : (b.nackOne requeue tag).subscribed = b.subscribed := by
  unfold nackOne
  split
  · rfl
  · cases requeue <;> simp

theorem nackOne_false_queues : (b.nackOne false tag).queues = b.queues := by
  unfold nackOne
  split <;> simp

theorem nackOne_false_nextDeliveryTag :
    (b.nackOne false tag).nextDeliveryTag = b.nextDeliveryTag := by
  unfold nackOne
  split <;> simp

theorem nackOne_true_queues {b : Broker} {tag : Int} {entry : UnackedMessage}
    {messages : List QueuedMessage} (hlookup : b.unacked.lookup tag = some entry)
    (hmessages : b.queues.lookup entry.queue = some messages) :
    (b.nackOne true tag).queues = b.queues.insert entry.queue
      ({ entry.msg with deliveryTag := b.nextDeliveryTag } :: messages) := by
  simp [nackOne, hlookup, requeueFront, hmessages]

theorem le_nackOne_nextDeliveryTag :
    b.nextDeliveryTag ≤ (b.nackOne requeue tag).nextDeliveryTag := by
  unfold nackOne
  split
  · exact le_rfl
  · rename_i entry hlookup
    cases requeue with
    | false => simp
    | true =>
        simpa using le_requeueFront_nextDeliveryTag { b with unacked := b.unacked.erase tag } entry

theorem mem_nackOne_queues {queue : String} :
    queue ∈ (b.nackOne requeue tag).queues ↔ queue ∈ b.queues := by
  unfold nackOne
  split
  · rfl
  · rename_i entry hlookup
    cases requeue with
    | false => simp
    | true =>
        simpa using mem_requeueFront_queues { b with unacked := b.unacked.erase tag } entry

end NackOne

/-! ### Steps that move no message -/

/-- Steps that change the routing tables only. -/
def routing : Op → Bool
  | .declareExchange _ _ _ _ => true
  | .bindQueue _ _ _ => true
  | .unbindQueue _ _ _ => true
  | _ => false

theorem exists_step_of_routing {b : Broker} {op : Op} (hconnected : b.connected = true)
    (hrouting : routing op = true) :
    ∃ exchanges bindings, b.step op = { b with exchanges, bindings } := by
  have hself : ∃ exchanges bindings, b = { b with exchanges, bindings } :=
    ⟨b.exchanges, b.bindings, rfl⟩
  cases op with
  | declareExchange name type durable autoDelete =>
      simp only [step, declareExchange]
      rw [if_neg (not_not.mpr hconnected)]
      split_ifs
      · exact hself
      · exact hself
      · exact ⟨_, _, rfl⟩
  | bindQueue queue exchange routingKey =>
      simp only [step, bindQueue]
      rw [if_neg (not_not.mpr hconnected)]
      split
      · exact hself
      · by_cases hmem : queue ∈ b.queues
        · rw [if_neg (not_not.mpr hmem)]
          exact ⟨_, _, rfl⟩
        · rw [if_pos hmem]
          exact hself
  | unbindQueue queue exchange routingKey =>
      simp only [step, unbindQueue]
      rw [if_neg (not_not.mpr hconnected)]
      by_cases hmem : (⟨queue, exchange, routingKey⟩ : BindingInfo) ∈ b.bindings
      · rw [if_neg (not_not.mpr hmem)]
        split_ifs
        · exact ⟨_, _, rfl⟩
        · split
          · exact ⟨_, _, rfl⟩
          · exact ⟨_, _, rfl⟩
      · rw [if_pos hmem]
        exact hself
  | _ => simp [routing] at hrouting

/-- A consumer starts with a zero counter, a prefetch count that is not negative, and an identity of
its own. -/
theorem step_consume {b : Broker} (hconnected : b.connected = true) (queue : String)
    (callback : Option Callback) (prefetchCount : Int) :
    b.step (.consume queue callback prefetchCount) = b ∨
      ∃ info : ConsumerInfo, info.unackedCount = 0 ∧ 0 ≤ info.prefetchCount ∧
        info.id = b.subscribed ∧
        b.step (.consume queue callback prefetchCount) =
          { b with consumers := b.consumers.insert queue info, subscribed := b.subscribed + 1 } := by
  simp only [step, consume]
  rw [if_neg (not_not.mpr hconnected)]
  cases callback with
  | none => exact Or.inl rfl
  | some callback =>
      by_cases hmem : queue ∈ b.queues
      · right
        simp only [hmem, not_true, if_false]
        refine ⟨_, rfl, ?_, rfl, rfl⟩
        split_ifs with hpos
        · exact hpos.le
        · exact (by decide : (0 : Int) ≤ intMax)
      · left
        simp [hmem]

theorem step_cancelConsume {b : Broker} (hconnected : b.connected = true) (queue : String) :
    b.step (.cancelConsume queue) = { b with consumers := b.consumers.erase queue } := by
  simp only [step, cancelConsume]
  rw [if_neg (not_not.mpr hconnected)]

/-- Steps that move no message and declare no queue. -/
def quiet : Op → Bool
  | .consume _ _ _ => true
  | .cancelConsume _ => true
  | op => routing op

theorem exists_step_of_quiet {b : Broker} {op : Op} (hconnected : b.connected = true)
    (hquiet : quiet op = true) :
    ∃ exchanges bindings consumers subscribed,
      b.step op = { b with exchanges, bindings, consumers, subscribed } := by
  have htables : routing op = true → ∃ exchanges bindings consumers subscribed,
      b.step op = { b with exchanges, bindings, consumers, subscribed } := by
    intro hrouting
    obtain ⟨exchanges, bindings, heq⟩ := exists_step_of_routing hconnected hrouting
    exact ⟨exchanges, bindings, b.consumers, b.subscribed, heq⟩
  cases op with
  | consume queue callback prefetchCount =>
      rcases step_consume hconnected queue callback prefetchCount with heq | ⟨info, -, -, -, heq⟩
      · exact ⟨b.exchanges, b.bindings, b.consumers, b.subscribed, heq⟩
      · exact ⟨_, _, _, _, heq⟩
  | cancelConsume queue => exact ⟨_, _, _, _, step_cancelConsume hconnected queue⟩
  | _ => exact htables hquiet

theorem step_declareQueue (b : Broker) (name uuid : String) :
    b.step (.declareQueue name uuid) = b ∨
      ∃ queueName, queueName ∉ b.queues ∧
        b.step (.declareQueue name uuid) = { b with queues := b.queues.insert queueName [] } := by
  simp only [step, declareQueue]
  by_cases hconnected : b.connected = true
  · simp only [hconnected, not_true, if_false]
    by_cases hmem : (if name = "" then generateQueueName uuid else name) ∈ b.queues
    · simp [hmem]
    · right
      exact ⟨_, hmem, by simp [hmem]⟩
  · simp [hconnected]

/-! ### Handing out a message -/

/-- The state after the front of a queue went out to the dispatch thread's consumer. -/
def deliver (b : Broker) (d : Dispatching) (front : QueuedMessage) (rest : List QueuedMessage)
    (info : ConsumerInfo) : Broker :=
  { b with
    queues := b.queues.insert d.queue rest
    nextDeliveryTag := b.nextDeliveryTag + 1
    unacked := b.unacked.insert b.nextDeliveryTag
      { deliveryTag := b.nextDeliveryTag
        queue := d.queue
        msg := { front with deliveryTag := b.nextDeliveryTag }
        consumer := d.consumer }
    consumers := b.consumers.insert d.queue { info with unackedCount := info.unackedCount + 1 }
    dispatching := some d }

/-- A pass leaves the loop only when it has no message, no consumer or no room, and delivers
otherwise. -/
theorem dispatchOne_cases (b : Broker) (d : Dispatching) :
    ((b.dispatchOne d).2 = { b with dispatching := none } ∧
      ∀ front rest info, b.queues.lookup d.queue = some (front :: rest) →
        b.consumers.lookup d.queue = some info → d.prefetchCount ≤ info.unackedCount) ∨
      ∃ front rest info, b.queues.lookup d.queue = some (front :: rest) ∧
        b.consumers.lookup d.queue = some info ∧ info.unackedCount < d.prefetchCount ∧
        (b.dispatchOne d).2 = b.deliver d front rest info := by
  unfold dispatchOne
  cases hqueue : b.queues.lookup d.queue with
  | none => exact Or.inl ⟨rfl, by simp⟩
  | some queue =>
      cases queue with
      | nil => exact Or.inl ⟨rfl, by simp⟩
      | cons front rest =>
          cases hconsumer : b.consumers.lookup d.queue with
          | none => exact Or.inl ⟨rfl, by simp⟩
          | some info =>
              by_cases hfull : info.unackedCount ≥ d.prefetchCount
              · left
                simp only [hfull, if_true, true_and]
                intro _ _ info' _ hinfo'
                exact Option.some.inj hinfo' ▸ hfull
              · right
                refine ⟨front, rest, info, rfl, rfl, not_le.mp hfull, ?_⟩
                simp only [hfull, if_false]
                rfl

theorem dispatchOne_routed (b : Broker) (d : Dispatching) :
    (b.dispatchOne d).2.routed = b.routed := by
  rcases b.dispatchOne_cases d with ⟨heq, -⟩ | ⟨front, rest, info, -, -, -, heq⟩
  · rw [heq]
  · rw [heq]
    rfl

/-- Routing a message leaves the consumers, the outstanding entries and the dispatch thread alone. -/
theorem exists_routeMessage (b : Broker) (message : AmqpMessage) (exchange routingKey : String) :
    ∃ queues routed, b.routeMessage message exchange routingKey = { b with queues, routed } := by
  unfold routeMessage
  generalize b.targetQueues exchange routingKey = targets
  induction targets generalizing b with
  | nil => exact ⟨b.queues, b.routed, rfl⟩
  | cons queueName targets ih =>
      obtain ⟨queues, routed, heq⟩ := ih (b.pushCopy message exchange routingKey queueName)
      rw [List.foldl_cons, heq]
      unfold pushCopy
      split
      · exact ⟨queues, routed, rfl⟩
      · exact ⟨queues, routed, rfl⟩

/-! ### Settling tags -/

/-- The tags a settling step works through, in order. -/
def settledTags (b : Broker) : Op → List Int
  | .ack deliveryTag multiple order =>
      if multiple then order.filter (· ≤ deliveryTag)
      else if deliveryTag ∈ b.unacked then [deliveryTag] else []
  | .nack deliveryTag _ multiple order =>
      if multiple then order.filter (· ≤ deliveryTag) else [deliveryTag]
  | .reject deliveryTag _ => [deliveryTag]
  | _ => []

theorem step_of_settles {b : Broker} {op : Op} (hconnected : b.connected = true)
    (hsettles : op.settles = true) :
    b.step op = (b.settledTags op).foldl (nackOne (!op.discards)) b := by
  cases op with
  | ack deliveryTag multiple order =>
      cases multiple with
      | true => simp [step, ack, settledTags, Op.discards, hconnected, ackOne_eq_nackOne]
      | false =>
          by_cases hmem : deliveryTag ∈ b.unacked
          · simp [step, ack, settledTags, Op.discards, hconnected, hmem, ackOne_eq_nackOne]
          · simp [step, ack, settledTags, hconnected, hmem]
  | nack deliveryTag requeue multiple order =>
      cases multiple <;> simp [step, nack, settledTags, Op.discards, hconnected]
  | reject deliveryTag requeue =>
      simp [step, reject, nack, settledTags, Op.discards, hconnected]
  | _ => simp [Op.settles] at hsettles

@[simp]
theorem foldl_nackOne_routed (requeue : Bool) (b : Broker) (tags : List Int) :
    (tags.foldl (nackOne requeue) b).routed = b.routed := by
  induction tags generalizing b with
  | nil => rfl
  | cons tag tags ih => rw [List.foldl_cons, ih, nackOne_routed]

@[simp]
theorem foldl_nackOne_dispatching (requeue : Bool) (b : Broker) (tags : List Int) :
    (tags.foldl (nackOne requeue) b).dispatching = b.dispatching := by
  induction tags generalizing b with
  | nil => rfl
  | cons tag tags ih => rw [List.foldl_cons, ih, nackOne_dispatching]

@[simp]
theorem foldl_nackOne_subscribed (requeue : Bool) (b : Broker) (tags : List Int) :
    (tags.foldl (nackOne requeue) b).subscribed = b.subscribed := by
  induction tags generalizing b with
  | nil => rfl
  | cons tag tags ih => rw [List.foldl_cons, ih, nackOne_subscribed]

theorem foldl_nackOne_false_queues (b : Broker) (tags : List Int) :
    (tags.foldl (nackOne false) b).queues = b.queues := by
  induction tags generalizing b with
  | nil => rfl
  | cons tag tags ih => rw [List.foldl_cons, ih, nackOne_false_queues]

theorem foldl_nackOne_false_nextDeliveryTag (b : Broker) (tags : List Int) :
    (tags.foldl (nackOne false) b).nextDeliveryTag = b.nextDeliveryTag := by
  induction tags generalizing b with
  | nil => rfl
  | cons tag tags ih => rw [List.foldl_cons, ih, nackOne_false_nextDeliveryTag]

theorem foldl_nackOne_lookup (requeue : Bool) (b : Broker) (tags : List Int) (tag : Int) :
    (tags.foldl (nackOne requeue) b).unacked.lookup tag =
      if tag ∈ tags then none else b.unacked.lookup tag := by
  induction tags generalizing b with
  | nil => simp
  | cons first tags ih =>
      rw [List.foldl_cons, ih, nackOne_unacked]
      by_cases hmem : tag ∈ tags
      · simp [hmem]
      · by_cases heq : tag = first
        · subst heq
          simp [hmem]
        · simp [hmem, heq, Finmap.lookup_erase_ne heq]

/-- Settled tags add up: what the total over the outstanding entries loses is the weight of the tags
worked through. -/
theorem foldl_nackOne_total {M : Type} [AddCommMonoid M] (weight : Int → UnackedMessage → M)
    (requeue : Bool) (b : Broker) {tags : List Int} (hnodup : tags.Nodup) :
    total weight (tags.foldl (nackOne requeue) b).unacked +
      (tags.map (weightAt weight b.unacked)).sum = total weight b.unacked := by
  induction tags generalizing b with
  | nil => simp
  | cons tag tags ih =>
      obtain ⟨hnotMem, hnodup'⟩ := List.nodup_cons.mp hnodup
      have hrest := ih (b.nackOne requeue tag) hnodup'
      have hsame : tags.map (weightAt weight (b.nackOne requeue tag).unacked) =
          tags.map (weightAt weight b.unacked) := by
        apply List.map_congr_left
        intro other hother
        rw [nackOne_unacked, weightAt_erase_of_ne]
        rintro rfl
        exact hnotMem hother
      rw [hsame, nackOne_unacked] at hrest
      rw [List.foldl_cons, List.map_cons, List.sum_cons, ← total_erase weight b.unacked tag,
        ← hrest, add_assoc, add_comm (weightAt weight b.unacked tag)]

theorem covers_of_mem_settledTags {b : Broker} {op : Op} {tag : Int}
    (hmem : tag ∈ b.settledTags op) : op.covers tag = true := by
  cases op with
  | ack deliveryTag multiple order =>
      cases multiple with
      | true =>
          simp only [settledTags, if_true, List.mem_filter] at hmem
          simpa [Op.covers] using hmem.2
      | false =>
          by_cases hout : deliveryTag ∈ b.unacked
          · simp_all [settledTags, Op.covers]
          · simp_all [settledTags]
  | nack deliveryTag requeue multiple order =>
      cases multiple with
      | true =>
          simp only [settledTags, if_true, List.mem_filter] at hmem
          simpa [Op.covers] using hmem.2
      | false => simp_all [settledTags, Op.covers]
  | reject deliveryTag requeue => simp_all [settledTags, Op.covers]
  | _ => simp [settledTags] at hmem

theorem mem_settledTags_of_covers {b : Broker} {op : Op} (henabled : b.Enabled op) {tag : Int}
    (hcovers : op.covers tag = true) (hmem : tag ∈ b.unacked) : tag ∈ b.settledTags op := by
  have hvisited : ∀ order : List Int, Enumerates order b.unacked → tag ∈ order := by
    intro order henum
    rw [← List.mem_toFinset, henum.2, Finmap.mem_keys]
    exact hmem
  cases op with
  | ack deliveryTag multiple order =>
      cases multiple with
      | true => exact List.mem_filter.mpr ⟨hvisited order (henabled rfl), hcovers⟩
      | false =>
          obtain rfl : tag = deliveryTag := of_decide_eq_true hcovers
          simp [settledTags, hmem]
  | nack deliveryTag requeue multiple order =>
      cases multiple with
      | true => exact List.mem_filter.mpr ⟨hvisited order (henabled rfl), hcovers⟩
      | false =>
          obtain rfl : tag = deliveryTag := of_decide_eq_true hcovers
          exact List.mem_singleton_self _
  | reject deliveryTag requeue =>
      obtain rfl : tag = deliveryTag := of_decide_eq_true hcovers
      exact List.mem_singleton_self _
  | _ => cases hcovers

theorem nodup_settledTags {b : Broker} {op : Op} (henabled : b.Enabled op) :
    (b.settledTags op).Nodup := by
  cases op with
  | ack deliveryTag multiple order =>
      cases multiple with
      | true => exact (henabled rfl).1.filter _
      | false =>
          simp only [settledTags, Bool.false_eq_true, if_false]
          split <;> simp
  | nack deliveryTag requeue multiple order =>
      cases multiple with
      | true => exact (henabled rfl).1.filter _
      | false => simp [settledTags]
  | _ => simp [settledTags]

/-- The weight a settling step takes off is that of the outstanding entries it covers. -/
theorem sum_weightAt_settledTags {M : Type} [AddCommMonoid M] (weight : Int → UnackedMessage → M)
    {b : Broker} {op : Op} (henabled : b.Enabled op) :
    ((b.settledTags op).map (weightAt weight b.unacked)).sum =
      total (fun tag entry => if op.covers tag then weight tag entry else 0) b.unacked := by
  have hmultiple : ∀ (order : List Int) (deliveryTag : Int), Enumerates order b.unacked →
      ((order.filter (· ≤ deliveryTag)).map (weightAt weight b.unacked)).sum =
        total (fun tag entry => if tag ≤ deliveryTag then weight tag entry else 0) b.unacked := by
    intro order deliveryTag henum
    rw [← henum.sum_weightAt, sum_map_filter]
    congr 1
    apply List.map_congr_left
    intro tag _
    cases hlookup : b.unacked.lookup tag <;> simp [weightAt, hlookup]
  cases op with
  | ack deliveryTag multiple order =>
      cases multiple with
      | true => simpa [settledTags, Op.covers] using hmultiple order deliveryTag (henabled rfl)
      | false =>
          by_cases hmem : deliveryTag ∈ b.unacked
          · simp [settledTags, Op.covers, hmem, total_ite_eq]
          · have hnone := Finmap.lookup_eq_none.mpr hmem
            simp [settledTags, Op.covers, hmem, total_ite_eq, weightAt_of_lookup_none weight hnone]
  | nack deliveryTag requeue multiple order =>
      cases multiple with
      | true => simpa [settledTags, Op.covers] using hmultiple order deliveryTag (henabled rfl)
      | false => simp [settledTags, Op.covers, total_ite_eq]
  | reject deliveryTag requeue => simp [settledTags, Op.covers, total_ite_eq]
  | _ => simp [settledTags, Op.covers, total]

/-! ### The shape every reachable broker keeps -/

/-- Outstanding tags are below the next one to be handed out, and the queue an outstanding message
came from still exists. -/
structure Sound (b : Broker) : Prop where
  connected : b.connected = true
  tag_lt : ∀ tag entry, b.unacked.lookup tag = some entry → tag < b.nextDeliveryTag
  queue_mem : ∀ tag entry, b.unacked.lookup tag = some entry → entry.queue ∈ b.queues

theorem sound_initial : initial.Sound where
  connected := rfl
  tag_lt := by simp [initial, connect]
  queue_mem := by simp [initial, connect]

theorem Sound.notMem_unacked {b : Broker} (hsound : b.Sound) : b.nextDeliveryTag ∉ b.unacked := by
  intro hmem
  obtain ⟨entry, hlookup⟩ := Finmap.mem_iff.mp hmem
  exact lt_irrefl _ (hsound.tag_lt _ _ hlookup)

/-- An update that keeps the outstanding entries, the tag counter and the queues keeps the shape. -/
theorem Sound.of_frame {b b' : Broker} (hsound : b.Sound) (hconnected : b'.connected = b.connected)
    (hunacked : b'.unacked = b.unacked) (htag : b'.nextDeliveryTag = b.nextDeliveryTag)
    (hqueues : ∀ queue, queue ∈ b.queues → queue ∈ b'.queues) : b'.Sound where
  connected := hconnected.trans hsound.connected
  tag_lt tag entry hlookup := by
    rw [htag]
    exact hsound.tag_lt tag entry (hunacked ▸ hlookup)
  queue_mem tag entry hlookup := hqueues _ (hsound.queue_mem tag entry (hunacked ▸ hlookup))

theorem Sound.pushCopy {b : Broker} (hsound : b.Sound) (message : AmqpMessage)
    (exchange routingKey queueName : String) :
    (b.pushCopy message exchange routingKey queueName).Sound := by
  unfold Broker.pushCopy
  split
  · exact hsound
  · refine hsound.of_frame rfl rfl rfl ?_
    intro queue hmem
    exact Finmap.mem_insert.mpr (Or.inr hmem)

theorem Sound.routeMessage {b : Broker} (hsound : b.Sound) (message : AmqpMessage)
    (exchange routingKey : String) : (b.routeMessage message exchange routingKey).Sound := by
  unfold Broker.routeMessage
  generalize b.targetQueues exchange routingKey = targets
  induction targets generalizing b with
  | nil => exact hsound
  | cons queueName targets ih => exact ih (hsound.pushCopy message exchange routingKey queueName)

theorem nackOne_connected (requeue : Bool) (b : Broker) (tag : Int) :
    (b.nackOne requeue tag).connected = b.connected := by
  unfold nackOne requeueFront
  split
  · rfl
  · cases requeue
    · simp
    · simp only [if_true, releaseConsumer_connected]
      split <;> rfl

theorem Sound.nackOne {b : Broker} (hsound : b.Sound) (requeue : Bool) (tag : Int) :
    (b.nackOne requeue tag).Sound where
  connected := (nackOne_connected requeue b tag).trans hsound.connected
  tag_lt other entry hlookup := by
    rw [nackOne_unacked] at hlookup
    by_cases heq : other = tag
    · subst heq
      simp at hlookup
    · rw [Finmap.lookup_erase_ne heq] at hlookup
      exact (hsound.tag_lt _ _ hlookup).trans_le (le_nackOne_nextDeliveryTag requeue b tag)
  queue_mem other entry hlookup := by
    rw [nackOne_unacked] at hlookup
    rw [mem_nackOne_queues]
    by_cases heq : other = tag
    · subst heq
      simp at hlookup
    · rw [Finmap.lookup_erase_ne heq] at hlookup
      exact hsound.queue_mem _ _ hlookup

theorem Sound.foldl_nackOne {b : Broker} (hsound : b.Sound) (requeue : Bool) (tags : List Int) :
    (tags.foldl (Broker.nackOne requeue) b).Sound := by
  induction tags generalizing b with
  | nil => exact hsound
  | cons tag tags ih => exact ih (hsound.nackOne requeue tag)

theorem Sound.deliver {b : Broker} (hsound : b.Sound) (d : Dispatching) (front : QueuedMessage)
    (rest : List QueuedMessage) (info : ConsumerInfo) : (b.deliver d front rest info).Sound where
  connected := hsound.connected
  tag_lt tag entry hlookup := by
    simp only [Broker.deliver] at hlookup ⊢
    rcases lookup_insert_cases hlookup with ⟨rfl, -⟩ | ⟨-, hold⟩
    · omega
    · have hlt := hsound.tag_lt _ _ hold
      omega
  queue_mem tag entry hlookup := by
    simp only [Broker.deliver] at hlookup ⊢
    rw [Finmap.mem_insert]
    rcases lookup_insert_cases hlookup with ⟨-, rfl⟩ | ⟨-, hold⟩
    · exact Or.inl rfl
    · exact Or.inr (hsound.queue_mem _ _ hold)

theorem Sound.dispatchOne {b : Broker} (hsound : b.Sound) (d : Dispatching) :
    (b.dispatchOne d).2.Sound := by
  rcases b.dispatchOne_cases d with ⟨heq, -⟩ | ⟨front, rest, info, -, -, -, heq⟩
  · rw [heq]
    exact hsound.of_frame rfl rfl rfl fun _ hmem => hmem
  · rw [heq]
    exact hsound.deliver d front rest info

theorem Sound.step {b : Broker} (hsound : b.Sound) (op : Op) : (b.step op).Sound := by
  have hquiet : quiet op = true → (b.step op).Sound := by
    intro hquiet
    obtain ⟨exchanges, bindings, consumers, subscribed, heq⟩ :=
      exists_step_of_quiet hsound.connected hquiet
    rw [heq]
    exact hsound.of_frame rfl rfl rfl fun _ hmem => hmem
  have hsettles : op.settles = true → (b.step op).Sound := by
    intro hsettles
    rw [step_of_settles hsound.connected hsettles]
    exact hsound.foldl_nackOne _ _
  cases op with
  | declareQueue name uuid =>
      rcases b.step_declareQueue name uuid with heq | ⟨queueName, -, heq⟩
      · rwa [heq]
      · rw [heq]
        refine hsound.of_frame rfl rfl rfl ?_
        intro queue hmem
        exact Finmap.mem_insert.mpr (Or.inr hmem)
  | publish message =>
      simp only [Broker.step, publish, hsound.connected, not_true, if_false]
      exact hsound.routeMessage message _ _
  | dispatchStart queueName =>
      simp only [Broker.step, dispatchStart]
      split
      · exact hsound
      · exact hsound.dispatchOne _
  | dispatchNext =>
      simp only [Broker.step, dispatchNext]
      split
      · exact hsound
      · exact hsound.dispatchOne _
  | ack deliveryTag multiple order => exact hsettles rfl
  | nack deliveryTag requeue multiple order => exact hsettles rfl
  | reject deliveryTag requeue => exact hsettles rfl
  | _ => exact hquiet rfl

end SoulCoreKit.Mq.Broker
