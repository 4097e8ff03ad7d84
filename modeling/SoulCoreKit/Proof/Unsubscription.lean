import SoulCoreKit.Proof.BrokerStep
import SoulCoreKit.Mq.RabbitMQConsumer

/-!
# Unsubscribing takes effect

The consumer remembers one queue for each topic, and the backend keeps one consumer for each queue. As
long as a subscription neither replaces the queue of its own topic nor the consumer of another one, the
two maps say the same: the topics that are subscribed to are those that have a consumer. The dispatch
thread holds a third copy, the callback it took when it entered the queue, and calls it while there is
any consumer for the queue; so this one must be for the same topic.
-/

namespace SoulCoreKit.Mq

open UnorderedMap

namespace Broker

/-! ### The callbacks of the backend -/

variable {b : Broker}

/-- The callback of the consumer for the queue. -/
def callbackOn (b : Broker) (queue : String) : Option Callback :=
  (b.consumers.lookup queue).map ConsumerInfo.callback

theorem callbackOn_congr {b' : Broker} (hconsumers : b'.consumers = b.consumers) (queue : String) :
    b'.callbackOn queue = b.callbackOn queue := by
  rw [callbackOn, hconsumers, callbackOn]

theorem callbackOn_of_insert {b' : Broker} {info info' : ConsumerInfo} {queue : String}
    (hconsumers : b'.consumers = b.consumers.insert queue info')
    (hlookup : b.consumers.lookup queue = some info) (hcallback : info'.callback = info.callback)
    (other : String) : b'.callbackOn other = b.callbackOn other := by
  rw [callbackOn, callbackOn, hconsumers]
  by_cases heq : other = queue
  · subst heq
    rw [Finmap.lookup_insert, hlookup, Option.map_some, Option.map_some, hcallback]
  · rw [Finmap.lookup_insert_of_ne _ heq]

theorem callbackOn_releaseConsumer (b : Broker) (queue other : String) :
    (b.releaseConsumer queue).callbackOn other = b.callbackOn other := by
  unfold releaseConsumer
  cases hlookup : b.consumers.lookup queue with
  | none => rfl
  | some info =>
    dsimp only
    split
    · exact callbackOn_of_insert rfl hlookup (by rfl) other
    · rfl

theorem callbackOn_nackOne (requeue : Bool) (b : Broker) (tag : Int) (queue : String) :
    (b.nackOne requeue tag).callbackOn queue = b.callbackOn queue := by
  unfold nackOne
  cases b.unacked.lookup tag with
  | none => rfl
  | some entry =>
    dsimp only
    rw [callbackOn_releaseConsumer]
    cases requeue with
    | false => rfl
    | true => exact callbackOn_congr (by simp) queue

theorem callbackOn_foldl_nackOne (requeue : Bool) (b : Broker) (tags : List Int) (queue : String) :
    (tags.foldl (nackOne requeue) b).callbackOn queue = b.callbackOn queue := by
  induction tags generalizing b with
  | nil => rfl
  | cons tag tags ih => rw [List.foldl_cons, ih, callbackOn_nackOne]

theorem callbackOn_dispatchOne (b : Broker) (d : Dispatching) (queue : String) :
    (b.dispatchOne d).2.callbackOn queue = b.callbackOn queue := by
  obtain ⟨heq, -⟩ | ⟨front, rest, info, -, hlookup, -, heq⟩ := b.dispatchOne_cases d
  · rw [heq]
    rfl
  · rw [heq]
    exact callbackOn_of_insert rfl hlookup (by rfl) queue

/-- Only the consumer's own calls set and remove callbacks. -/
theorem callbackOn_step (hconnected : b.connected = true) {op : Op} (hexternal : op.external = true)
    (queue : String) : (b.step op).callbackOn queue = b.callbackOn queue := by
  have hsettles : op.settles = true → (b.step op).callbackOn queue = b.callbackOn queue := by
    intro hsettles
    rw [step_of_settles hconnected hsettles, callbackOn_foldl_nackOne]
  have hrouting : routing op = true → (b.step op).callbackOn queue = b.callbackOn queue := by
    intro hrouting
    obtain ⟨exchanges, bindings, heq⟩ := exists_step_of_routing hconnected hrouting
    rw [heq]
    rfl
  cases op with
  | consume | cancelConsume => cases hexternal
  | declareExchange | bindQueue | unbindQueue => exact hrouting rfl
  | ack | nack | reject => exact hsettles rfl
  | declareQueue name uuid =>
    obtain heq | ⟨queueName, -, heq⟩ := b.step_declareQueue name uuid
    · rw [heq]
    · rw [heq]
      rfl
  | publish message =>
    simp only [step, publish, hconnected, not_true, if_false]
    obtain ⟨queues, routed, heq⟩ := b.exists_routeMessage message message.exchange message.routingKey
    rw [heq]
    rfl
  | dispatchStart queueName =>
    simp only [step, dispatchStart]
    cases b.consumers.lookup queueName with
    | none => rfl
    | some info => exact callbackOn_dispatchOne b _ queue
  | dispatchNext =>
    simp only [step, dispatchNext]
    cases b.dispatching with
    | none => rfl
    | some d => exact callbackOn_dispatchOne b d queue

theorem dispatching_dispatchOne (b : Broker) (d : Dispatching) {d' : Dispatching}
    (hdispatching : (b.dispatchOne d).2.dispatching = some d') : d' = d := by
  obtain ⟨heq, -⟩ | ⟨front, rest, info, -, -, -, heq⟩ := b.dispatchOne_cases d
  · rw [heq] at hdispatching
    cases hdispatching
  · rw [heq] at hdispatching
    exact (Option.some.inj hdispatching).symm

/-- The dispatch thread keeps its copy of the callback, or takes that of the consumer. -/
theorem dispatching_step (hconnected : b.connected = true) (op : Op) {d : Dispatching}
    (hdispatching : (b.step op).dispatching = some d) :
    b.dispatching = some d ∨ b.callbackOn d.queue = some d.callback := by
  have hsettles : op.settles = true → b.dispatching = some d := by
    intro hsettles
    rwa [step_of_settles hconnected hsettles, foldl_nackOne_dispatching] at hdispatching
  have hquiet : quiet op = true → b.dispatching = some d := by
    intro hquiet
    obtain ⟨exchanges, bindings, consumers, subscribed, heq⟩ := exists_step_of_quiet hconnected hquiet
    rwa [heq] at hdispatching
  cases op with
  | declareExchange | bindQueue | unbindQueue | consume | cancelConsume => exact .inl (hquiet rfl)
  | ack | nack | reject => exact .inl (hsettles rfl)
  | declareQueue name uuid =>
    obtain heq | ⟨queueName, -, heq⟩ := b.step_declareQueue name uuid
    · rw [heq] at hdispatching
      exact .inl hdispatching
    · rw [heq] at hdispatching
      exact .inl hdispatching
  | publish message =>
    simp only [step, publish, hconnected, not_true, if_false] at hdispatching
    obtain ⟨queues, routed, heq⟩ := b.exists_routeMessage message message.exchange message.routingKey
    rw [heq] at hdispatching
    exact .inl hdispatching
  | dispatchStart queueName =>
    simp only [step, dispatchStart] at hdispatching
    cases hlookup : b.consumers.lookup queueName with
    | none =>
      rw [hlookup] at hdispatching
      exact .inl hdispatching
    | some info =>
      rw [hlookup] at hdispatching
      obtain rfl := dispatching_dispatchOne b _ hdispatching
      exact .inr (by rw [callbackOn, hlookup, Option.map_some])
  | dispatchNext =>
    simp only [step, dispatchNext] at hdispatching
    cases hcopy : b.dispatching with
    | none =>
      rw [hcopy] at hdispatching
      rw [← hcopy]
      exact .inl hdispatching
    | some d' =>
      rw [hcopy] at hdispatching
      exact .inl (congrArg some (dispatching_dispatchOne b d' hdispatching).symm)

/-! ### No queue without a name -/

theorem mem_insert_of_lookup {V : Type} {m : UnorderedMap String V} {key : String} {old new : V}
    (hlookup : m.lookup key = some old) {other : String} : other ∈ m.insert key new ↔ other ∈ m := by
  rw [Finmap.mem_insert, or_iff_right_of_imp]
  rintro rfl
  exact Finmap.mem_of_lookup_eq_some hlookup

theorem generateQueueName_ne_empty (uuid : String) : generateQueueName uuid ≠ "" := by
  intro hempty
  have hlength := congrArg String.length hempty
  simp [generateQueueName] at hlength

theorem declared_ne_empty (name uuid : String) :
    (if name = "" then generateQueueName uuid else name) ≠ "" := by
  split_ifs with hempty
  · exact generateQueueName_ne_empty uuid
  · exact hempty

theorem mem_foldl_nackOne_queues (requeue : Bool) (b : Broker) (tags : List Int) (queue : String) :
    queue ∈ (tags.foldl (nackOne requeue) b).queues ↔ queue ∈ b.queues := by
  induction tags generalizing b with
  | nil => rfl
  | cons tag tags ih => rw [List.foldl_cons, ih, mem_nackOne_queues]

theorem mem_foldl_pushCopy_queues (message : AmqpMessage) (exchange routingKey : String) (b : Broker)
    (targets : List String) (queue : String) :
    queue ∈ (targets.foldl (pushCopy message exchange routingKey) b).queues ↔ queue ∈ b.queues := by
  induction targets generalizing b with
  | nil => rfl
  | cons target targets ih =>
    rw [List.foldl_cons, ih]
    unfold pushCopy
    cases hlookup : b.queues.lookup target with
    | none => rfl
    | some copies => exact mem_insert_of_lookup hlookup

theorem mem_dispatchOne_queues (b : Broker) (d : Dispatching) (queue : String) :
    queue ∈ (b.dispatchOne d).2.queues ↔ queue ∈ b.queues := by
  obtain ⟨heq, -⟩ | ⟨front, rest, info, hlookup, -, -, heq⟩ := b.dispatchOne_cases d
  · rw [heq]
  · rw [heq]
    exact mem_insert_of_lookup hlookup

theorem empty_notMem_queues_step (hconnected : b.connected = true) (hnotMem : "" ∉ b.queues) (op : Op) :
    "" ∉ (b.step op).queues := by
  have hsettles : op.settles = true → "" ∉ (b.step op).queues := by
    intro hsettles
    rw [step_of_settles hconnected hsettles, mem_foldl_nackOne_queues]
    exact hnotMem
  have hquiet : quiet op = true → "" ∉ (b.step op).queues := by
    intro hquiet
    obtain ⟨exchanges, bindings, consumers, subscribed, heq⟩ := exists_step_of_quiet hconnected hquiet
    rw [heq]
    exact hnotMem
  cases op with
  | declareExchange | bindQueue | unbindQueue | consume | cancelConsume => exact hquiet rfl
  | ack | nack | reject => exact hsettles rfl
  | declareQueue name uuid =>
    change "" ∉ (b.declareQueue name uuid).2.queues
    rw [declareQueue, if_neg (not_not.mpr hconnected)]
    by_cases hmem : (if name = "" then generateQueueName uuid else name) ∈ b.queues
    · rw [if_pos hmem]
      exact hnotMem
    · rw [if_neg hmem]
      dsimp only
      rw [Finmap.mem_insert, not_or]
      exact ⟨(declared_ne_empty name uuid).symm, hnotMem⟩
  | publish message =>
    simp only [step, publish, hconnected, not_true, if_false]
    rw [routeMessage, mem_foldl_pushCopy_queues]
    exact hnotMem
  | dispatchStart queueName =>
    simp only [step, dispatchStart]
    cases b.consumers.lookup queueName with
    | none => exact hnotMem
    | some info =>
      rw [mem_dispatchOne_queues]
      exact hnotMem
  | dispatchNext =>
    simp only [step, dispatchNext]
    cases b.dispatching with
    | none => exact hnotMem
    | some d =>
      rw [mem_dispatchOne_queues]
      exact hnotMem

theorem bindQueue_ok {queue exchange routingKey : String}
    (hok : (b.bindQueue queue exchange routingKey).1 = .ok ()) :
    exchange ∈ b.exchanges ∧ queue ∈ b.queues := by
  unfold bindQueue at hok
  split at hok
  · cases hok
  · cases hlookup : b.exchanges.lookup exchange with
    | none =>
      rw [hlookup] at hok
      cases hok
    | some info =>
      rw [hlookup] at hok
      dsimp only at hok
      split at hok
      · cases hok
      · rename_i hqueue
        exact ⟨Finmap.mem_of_lookup_eq_some hlookup, not_not.mp hqueue⟩

theorem consume_error {queue : String} {callback : Option Callback} {prefetchCount : Int} {error : Error}
    (herror : (b.consume queue callback prefetchCount).1 = .error error) :
    (b.consume queue callback prefetchCount).2 = b := by
  unfold consume at herror ⊢
  split at herror
  · rename_i hconnected
    rw [if_pos hconnected]
  · rename_i hconnected
    rw [if_neg hconnected]
    cases callback with
    | none => rfl
    | some callback =>
      dsimp only at herror ⊢
      split at herror
      · rename_i hqueue
        rw [if_pos hqueue]
      · cases herror

/-- The backend has the same consumers, and the dispatch thread the same copy. -/
structure Untouched (b b' : Broker) : Prop where
  sound : b'.Sound
  callbackOn : ∀ queue, b'.callbackOn queue = b.callbackOn queue
  dispatching : b'.dispatching = b.dispatching
  named : "" ∉ b'.queues

theorem untouched_of_step (hsound : b.Sound) (hnamed : "" ∉ b.queues) {op : Op}
    (hexternal : op.external = true) (hdispatching : (b.step op).dispatching = b.dispatching) :
    Untouched b (b.step op) :=
  ⟨hsound.step op, callbackOn_step hsound.connected hexternal, hdispatching,
    empty_notMem_queues_step hsound.connected hnamed op⟩

theorem untouched_declareQueue (hsound : b.Sound) (hnamed : "" ∉ b.queues) (name uuid : String) :
    Untouched b (b.declareQueue name uuid).2 := by
  apply @untouched_of_step b hsound hnamed (.declareQueue name uuid) rfl
  obtain heq | ⟨queueName, -, heq⟩ := b.step_declareQueue name uuid
  · rw [heq]
  · rw [heq]

theorem declareQueue_exchanges (b : Broker) (name uuid : String) :
    (b.declareQueue name uuid).2.exchanges = b.exchanges := by
  change (b.step (.declareQueue name uuid)).exchanges = b.exchanges
  obtain heq | ⟨queueName, -, heq⟩ := b.step_declareQueue name uuid
  · rw [heq]
  · rw [heq]

theorem untouched_bindQueue (hsound : b.Sound) (hnamed : "" ∉ b.queues)
    (queue exchange routingKey : String) : Untouched b (b.bindQueue queue exchange routingKey).2 := by
  apply @untouched_of_step b hsound hnamed (.bindQueue queue exchange routingKey) rfl
  obtain ⟨exchanges, bindings, heq⟩ :=
    @exists_step_of_routing b (.bindQueue queue exchange routingKey) hsound.connected rfl
  rw [heq]

theorem Untouched.trans {b' b'' : Broker} (hfirst : Untouched b b') (hsecond : Untouched b' b'') :
    Untouched b b'' :=
  ⟨hsecond.sound, fun queue => (hsecond.callbackOn queue).trans (hfirst.callbackOn queue),
    hsecond.dispatching.trans hfirst.dispatching, hsecond.named⟩

/-- The callback is now that of the queue's consumer. -/
structure Consuming (b : Broker) (queue : String) (callback : Callback) (b' : Broker) : Prop where
  sound : b'.Sound
  callbackOn : ∀ other, b'.callbackOn other = if other = queue then some callback else b.callbackOn other
  dispatching : b'.dispatching = b.dispatching
  named : "" ∉ b'.queues

theorem consuming_consume (hsound : b.Sound) (hnamed : "" ∉ b.queues) {queue : String}
    {callback : Callback} {prefetchCount : Int}
    (hok : (b.consume queue (some callback) prefetchCount).1 = .ok ()) :
    Consuming b queue callback (b.consume queue (some callback) prefetchCount).2 := by
  refine ⟨hsound.step (.consume queue (some callback) prefetchCount), fun other => ?_, ?_,
    empty_notMem_queues_step hsound.connected hnamed (.consume queue (some callback) prefetchCount)⟩
  · unfold consume at hok ⊢
    by_cases hqueue : queue ∉ b.queues
    · simp only [hsound.connected, not_true, if_false, if_pos hqueue] at hok
      cases hok
    · simp only [hsound.connected, not_true, if_false, if_neg hqueue, callbackOn]
      by_cases heq : other = queue
      · subst heq
        rw [Finmap.lookup_insert, Option.map_some, if_pos rfl]
      · rw [Finmap.lookup_insert_of_ne _ heq, if_neg heq]
  · obtain ⟨exchanges, bindings, consumers, subscribed, heq⟩ := @exists_step_of_quiet b
      (.consume queue (some callback) prefetchCount) hsound.connected rfl
    change (b.step (.consume queue (some callback) prefetchCount)).dispatching = b.dispatching
    rw [heq]

end Broker

namespace RabbitMQConsumer

variable {consumer : RabbitMQConsumer}

/-! ### What unsubscribing should achieve -/

/-- The topic that a closure was made for. -/
def topicOf (consumer : RabbitMQConsumer) (closure : Callback) : Option String :=
  consumer.registered[closure]?.map Registration.topic

/-- The front message of the queue goes to a callback of the topic when the dispatch thread comes to the
queue, if the prefetch count admits another message. -/
def Receives (consumer : RabbitMQConsumer) (topic queueName : String) : Prop :=
  ∃ info, consumer.backend.consumers.lookup queueName = some info ∧
    ∀ front rest, consumer.backend.queues.lookup queueName = some (front :: rest) →
      info.unackedCount < info.prefetchCount →
      ∃ registration message,
        consumer.invoked (.backend ⟨.dispatchStart queueName, rfl⟩) = some (registration, message) ∧
          registration.topic = topic ∧ message.topic = front.exchange ∧
          message.routingKey = front.routingKey ∧ message.body = front.message.body ∧
          message.messageId = front.message.messageId

/-- From a successful `unsubscribe` to the next subscription to the topic, no step invokes a callback of
the topic, and the other topics receive the messages of their queues. -/
def Effective (steps : List ConsumerStep) : Prop :=
  ∀ topic before after, steps = before ++ .unsubscribe topic :: after →
    ((run step initial before).unsubscribe topic).1 = .ok () →
    (∀ later ∈ after, later.subscribesTo topic = false) →
    (∀ next registration message,
      (run step initial steps).invoked next = some (registration, message) →
        registration.topic ≠ topic) ∧
    ∀ other queueName, other ≠ topic →
      (run step initial steps).mSubscriptions.lookup other = some queueName →
        (run step initial steps).Receives other queueName

/-- The subscription does not replace the queue of its topic or the consumer of another one, and the
dispatch thread does not drain the queue for another one. -/
def Free (consumer : RabbitMQConsumer) (topic queueName : String) : Prop :=
  topic ∈ consumer.backend.exchanges → queueName ≠ "" →
    (∀ other, consumer.mSubscriptions.lookup topic = some other → other = queueName) ∧
    (∀ other, consumer.mSubscriptions.lookup other = some queueName → other = topic) ∧
    ∀ d, consumer.backend.dispatching = some d → d.queue = queueName →
      consumer.topicOf d.callback = some topic

/-- Every subscription is free. -/
def Proper (consumer : RabbitMQConsumer) : ConsumerStep → Prop
  | .subscribe topic _ uuid => consumer.Free topic (generateQueueName topic uuid)
  | .subscribeTo topic queueName _ _ => consumer.Free topic queueName
  | _ => True

/-! ### One subscription -/

/-- What holds of the connection in every run. -/
structure Usable (consumer : RabbitMQConsumer) : Prop where
  alive : consumer.alive = true
  sound : consumer.backend.Sound
  named : "" ∉ consumer.backend.queues

/-- A subscription fails and leaves the maps alone, or sets the consumer of the queue. -/
theorem subscribeTo_cases (husable : consumer.Usable) (topic queueName : String) (callback : Callback)
    (uuid : String) :
    (∃ error backend, consumer.backend.Untouched backend ∧
      consumer.subscribeTo topic queueName callback uuid =
        (.error error, { consumer with backend })) ∨
    (topic ∈ consumer.backend.exchanges ∧ queueName ≠ "" ∧
      ∃ backend, consumer.backend.Consuming queueName consumer.registered.length backend ∧
        consumer.subscribeTo topic queueName callback uuid = (.ok (), { consumer with
          backend
          mSubscriptions := consumer.mSubscriptions.insert topic queueName
          registered := consumer.registered ++ [⟨topic, callback⟩] })) := by
  obtain ⟨halive, hsound, hnamed⟩ := husable
  have hdeclared := Broker.untouched_declareQueue hsound hnamed queueName uuid
  have hexchanges := consumer.backend.declareQueue_exchanges queueName uuid
  unfold subscribeTo
  rw [if_neg (not_not.mpr ⟨halive, hsound.connected⟩)]
  cases hdeclare : consumer.backend.declareQueue queueName uuid with
  | mk result declared =>
  rw [hdeclare] at hdeclared hexchanges
  cases result with
  | error error => exact .inl ⟨error, declared, hdeclared, rfl⟩
  | ok name =>
    have hbound := hdeclared.trans
      (Broker.untouched_bindQueue hdeclared.sound hdeclared.named queueName topic topic)
    have hok := @Broker.bindQueue_ok declared queueName topic topic
    dsimp only at hbound hok hexchanges ⊢
    cases hbind : declared.bindQueue queueName topic topic with
    | mk result bound =>
    rw [hbind] at hbound hok
    cases result with
    | error error => exact .inl ⟨error, bound, hbound, rfl⟩
    | ok value =>
      obtain ⟨htopic, hqueue⟩ := hok rfl
      have hconsuming := @Broker.consuming_consume bound hbound.sound hbound.named queueName
        consumer.registered.length consumer.mPrefetchCount
      have herror := @Broker.consume_error bound queueName (some consumer.registered.length)
        consumer.mPrefetchCount
      dsimp only
      cases hconsume : bound.consume queueName (some consumer.registered.length)
        consumer.mPrefetchCount with
      | mk result backend =>
      rw [hconsume] at hconsuming herror
      cases result with
      | error error =>
        obtain rfl := herror rfl
        exact .inl ⟨error, _, hbound, rfl⟩
      | ok value =>
        obtain ⟨hsound', hcallbackOn, hdispatching, hnamed'⟩ := hconsuming rfl
        refine .inr ⟨hexchanges ▸ htopic, ?_, backend, ⟨hsound', fun other => ?_, ?_, hnamed'⟩, rfl⟩
        · rintro rfl
          exact hdeclared.named hqueue
        · rw [hcallbackOn, hbound.callbackOn]
        · exact hdispatching.trans hbound.dispatching

/-! ### The two maps agree -/

/-- Each subscribed topic has a consumer of its own, no other queue has one, and the dispatch thread
holds a callback of the topic that the queue belongs to. -/
structure Agree (consumer : RabbitMQConsumer) : Prop where
  usable : consumer.Usable
  subscribed : ∀ topic queueName, consumer.mSubscriptions.lookup topic = some queueName →
    ∃ closure, consumer.backend.callbackOn queueName = some closure ∧
      consumer.topicOf closure = some topic
  consumers : ∀ queueName closure, consumer.backend.callbackOn queueName = some closure →
    ∃ topic, consumer.mSubscriptions.lookup topic = some queueName
  copied : ∀ d, consumer.backend.dispatching = some d → ∀ closure,
    consumer.backend.callbackOn d.queue = some closure →
      consumer.topicOf d.callback = consumer.topicOf closure

/-- A queue that a topic has delivers to the callback of that topic. -/
theorem Agree.topicOf_eq (hagree : consumer.Agree) {topic queueName : String} {closure : Callback}
    (hlookup : consumer.mSubscriptions.lookup topic = some queueName)
    (hclosure : consumer.backend.callbackOn queueName = some closure) :
    consumer.topicOf closure = some topic := by
  obtain ⟨same, hsame, htopic⟩ := hagree.subscribed topic queueName hlookup
  obtain rfl := Option.some.inj (hclosure.symm.trans hsame)
  exact htopic

/-- Every consumer of a queue is one of a topic that has the queue. -/
theorem Agree.exists_topic (hagree : consumer.Agree) {queueName : String} {closure : Callback}
    (hclosure : consumer.backend.callbackOn queueName = some closure) :
    ∃ topic, consumer.mSubscriptions.lookup topic = some queueName ∧
      consumer.topicOf closure = some topic := by
  obtain ⟨topic, hlookup⟩ := hagree.consumers queueName closure hclosure
  exact ⟨topic, hlookup, hagree.topicOf_eq hlookup hclosure⟩

theorem Agree.congr {backend : Broker} (hagree : consumer.Agree)
    (hsound : backend.Sound) (hnamed : "" ∉ backend.queues)
    (hcallbackOn : ∀ queue, backend.callbackOn queue = consumer.backend.callbackOn queue)
    (hcopied : ∀ d, backend.dispatching = some d → consumer.backend.dispatching = some d ∨
      consumer.backend.callbackOn d.queue = some d.callback) :
    Agree { consumer with backend } := by
  refine ⟨⟨hagree.usable.alive, hsound, hnamed⟩, ?_, ?_, ?_⟩
  · intro topic queueName hlookup
    obtain ⟨closure, hclosure, htopic⟩ := hagree.subscribed topic queueName hlookup
    exact ⟨closure, (hcallbackOn queueName).trans hclosure, htopic⟩
  · intro queueName closure hclosure
    exact hagree.consumers queueName closure ((hcallbackOn queueName).symm.trans hclosure)
  · intro d hd closure hclosure
    have hclosure' := (hcallbackOn d.queue).symm.trans hclosure
    obtain hold | hnew := hcopied d hd
    · exact hagree.copied d hold closure hclosure'
    · rw [hnew, Option.some.injEq] at hclosure'
      rw [hclosure']

theorem topicOf_append {closure : Callback} {topic : String} (registration : Registration)
    (htopic : consumer.topicOf closure = some topic) :
    ((consumer.registered ++ [registration])[closure]?.map Registration.topic) = some topic := by
  obtain ⟨old, hold, rfl⟩ := Option.map_eq_some_iff.mp htopic
  rw [List.getElem?_append_left (List.getElem?_eq_some_iff.mp hold).1, hold, Option.map_some]

theorem Agree.subscribeTo (hagree : consumer.Agree) {topic queueName : String}
    (hfree : consumer.Free topic queueName) (callback : Callback) (uuid : String) :
    (consumer.subscribeTo topic queueName callback uuid).2.Agree := by
  obtain ⟨error, backend, hsame, heq⟩ | ⟨htopic, hname, backend, hconsuming, heq⟩ :=
    subscribeTo_cases hagree.usable topic queueName callback uuid
  · rw [heq]
    exact hagree.congr hsame.sound hsame.named hsame.callbackOn
      fun d hd => .inl (hsame.dispatching.symm.trans hd)
  · rw [heq]
    obtain ⟨hold, hshared, hdraining⟩ := hfree htopic hname
    have hself : ((consumer.registered ++ [⟨topic, callback⟩])[consumer.registered.length]?.map
        Registration.topic) = some topic := by
      rw [List.getElem?_concat_length, Option.map_some]
    refine ⟨⟨hagree.usable.alive, hconsuming.sound, hconsuming.named⟩, ?_, ?_, ?_⟩
    · intro other otherQueue hlookup
      dsimp only at hlookup ⊢
      rw [hconsuming.callbackOn]
      rcases lookup_insert_cases hlookup with ⟨rfl, rfl⟩ | ⟨hother, hkept⟩
      · exact ⟨_, if_pos rfl, hself⟩
      · have hne : otherQueue ≠ queueName := fun heq => hother (hshared other (heq ▸ hkept))
        obtain ⟨closure, hclosure, hof⟩ := hagree.subscribed other otherQueue hkept
        exact ⟨closure, (if_neg hne).trans hclosure, topicOf_append _ hof⟩
    · intro otherQueue closure hclosure
      dsimp only at hclosure ⊢
      rw [hconsuming.callbackOn] at hclosure
      by_cases hother : otherQueue = queueName
      · exact ⟨topic, by rw [hother, Finmap.lookup_insert]⟩
      · rw [if_neg hother] at hclosure
        obtain ⟨other, hlookup⟩ := hagree.consumers otherQueue closure hclosure
        refine ⟨other, ?_⟩
        rw [Finmap.lookup_insert_of_ne, hlookup]
        rintro rfl
        exact hother (hold otherQueue hlookup)
    · intro d hd closure hclosure
      dsimp only at hd hclosure
      rw [hconsuming.dispatching] at hd
      rw [hconsuming.callbackOn] at hclosure
      by_cases hother : d.queue = queueName
      · rw [if_pos hother, Option.some.injEq] at hclosure
        subst hclosure
        exact (topicOf_append _ (hdraining d hd hother)).trans hself.symm
      · rw [if_neg hother] at hclosure
        obtain ⟨other, -, hof⟩ := hagree.exists_topic hclosure
        have hcopied := hagree.copied d hd closure hclosure
        exact (topicOf_append _ (hcopied.trans hof)).trans (topicOf_append _ hof).symm

theorem Agree.unsubscribe (hagree : consumer.Agree) (topic : String) :
    (consumer.unsubscribe topic).2.Agree := by
  unfold RabbitMQConsumer.unsubscribe
  cases hlookup : consumer.mSubscriptions.lookup topic with
  | none => exact hagree
  | some queueName =>
    obtain ⟨halive, hsound, hnamed⟩ := hagree.usable
    have hcancel : (consumer.backend.cancelConsume queueName).2 =
        { consumer.backend with consumers := consumer.backend.consumers.erase queueName } :=
      Broker.step_cancelConsume hsound.connected queueName
    dsimp only
    rw [if_pos ⟨halive, hsound.connected⟩]
    have hcallbackOn : ∀ other, (consumer.backend.cancelConsume queueName).2.callbackOn other =
        if other = queueName then none else consumer.backend.callbackOn other := by
      intro other
      rw [hcancel, Broker.callbackOn, Broker.callbackOn]
      by_cases heq : other = queueName
      · rw [if_pos heq, heq, Finmap.lookup_erase, Option.map_none]
      · rw [if_neg heq, Finmap.lookup_erase_ne heq]
    refine ⟨⟨halive, hsound.step (.cancelConsume queueName),
      Broker.empty_notMem_queues_step hsound.connected hnamed (.cancelConsume queueName)⟩, ?_, ?_, ?_⟩
    · intro other otherQueue hother
      obtain ⟨closure, hclosure, hof⟩ :=
        hagree.subscribed other otherQueue (lookup_of_lookup_erase hother)
      refine ⟨closure, ?_, hof⟩
      rw [hcallbackOn, if_neg, hclosure]
      -- the queue is not the one that was cancelled: that one was for another topic
      rintro rfl
      obtain rfl := Option.some.inj (hof.symm.trans (hagree.topicOf_eq hlookup hclosure))
      rw [Finmap.lookup_erase] at hother
      cases hother
    · intro otherQueue closure hclosure
      dsimp only at hclosure ⊢
      rw [hcallbackOn] at hclosure
      split_ifs at hclosure with heq
      obtain ⟨other, hother⟩ := hagree.consumers otherQueue closure hclosure
      refine ⟨other, ?_⟩
      rw [Finmap.lookup_erase_ne, hother]
      rintro rfl
      rw [hlookup, Option.some.injEq] at hother
      exact heq hother.symm
    · intro d hd closure hclosure
      dsimp only at hd hclosure
      rw [hcallbackOn] at hclosure
      split_ifs at hclosure with heq
      rw [hcancel] at hd
      exact hagree.copied d hd closure hclosure

theorem agree_initial : initial.Agree where
  usable := ⟨rfl, Broker.sound_initial, Finmap.notMem_empty⟩
  subscribed topic queueName hlookup := by
    rw [initial, Finmap.lookup_empty] at hlookup
    cases hlookup
  consumers queueName closure hclosure := by
    simp [Broker.callbackOn, initial, Broker.initial, Broker.connect] at hclosure
  copied d hd := by
    simp [initial, Broker.initial, Broker.connect] at hd

theorem Agree.step (hagree : consumer.Agree) {label : ConsumerStep} (hproper : consumer.Proper label) :
    (consumer.step label).Agree := by
  cases label with
  | subscribe topic callback uuid => exact hagree.subscribeTo hproper callback uuid
  | subscribeTo topic queueName callback uuid => exact hagree.subscribeTo hproper callback uuid
  | unsubscribe topic => exact hagree.unsubscribe topic
  | backend op =>
    obtain ⟨-, hsound, hnamed⟩ := hagree.usable
    exact hagree.congr (hsound.step op.val)
      (Broker.empty_notMem_queues_step hsound.connected hnamed op.val)
      (Broker.callbackOn_step hsound.connected op.property)
      fun d hd => Broker.dispatching_step hsound.connected op.val hd

/-! ### Dispatching -/

/-- A pass that invokes a callback invokes the copied one, and there is a consumer for the queue. -/
theorem dispatchOne_invokes {b : Broker} {d : Dispatching} {closure : Callback} {delivery : AmqpDelivery}
    (hinvoked : (b.dispatchOne d).1 = some (closure, delivery)) :
    closure = d.callback ∧ ∃ current, b.callbackOn d.queue = some current := by
  unfold Broker.dispatchOne at hinvoked
  split at hinvoked
  · cases hinvoked
  · cases hinvoked
  · split at hinvoked
    · cases hinvoked
    · rename_i info hlookup
      dsimp only at hinvoked
      split at hinvoked
      · cases hinvoked
      · rw [Option.some.injEq, Prod.mk.injEq] at hinvoked
        exact ⟨hinvoked.1.symm, info.callback, by rw [Broker.callbackOn, hlookup, Option.map_some]⟩

theorem received_topic {invocation : Option (Callback × AmqpDelivery)} {registration : Registration}
    {message : ConsumeMessage}
    (hreceived : consumer.received invocation = some (registration, message)) :
    ∃ closure delivery, invocation = some (closure, delivery) ∧
      consumer.topicOf closure = some registration.topic := by
  cases invocation with
  | none => cases hreceived
  | some invocation =>
    obtain ⟨closure, delivery⟩ := invocation
    obtain ⟨found, hfound, heq⟩ := Option.map_eq_some_iff.mp hreceived
    rw [Prod.mk.injEq] at heq
    exact ⟨closure, delivery, rfl, by rw [topicOf, hfound, Option.map_some, heq.1]⟩

/-- Whatever a step invokes is a callback of a topic that is subscribed to. -/
theorem Agree.invoked (hagree : consumer.Agree) {label : ConsumerStep} {registration : Registration}
    {message : ConsumeMessage} (hinvoked : consumer.invoked label = some (registration, message)) :
    ∃ queueName, consumer.mSubscriptions.lookup registration.topic = some queueName := by
  have hpass : ∀ d closure delivery, (consumer.backend.dispatchOne d).1 = some (closure, delivery) →
      consumer.topicOf closure = some registration.topic →
      (∀ current, consumer.backend.callbackOn d.queue = some current →
        consumer.topicOf d.callback = consumer.topicOf current) →
      ∃ queueName, consumer.mSubscriptions.lookup registration.topic = some queueName := by
    intro d closure delivery hpass htopic hcopied
    obtain ⟨rfl, current, hcurrent⟩ := dispatchOne_invokes hpass
    obtain ⟨topic, hlookup, hof⟩ := hagree.exists_topic hcurrent
    rw [hcopied current hcurrent, hof, Option.some.injEq] at htopic
    exact ⟨d.queue, htopic ▸ hlookup⟩
  cases label with
  | subscribe | subscribeTo | unsubscribe => cases hinvoked
  | backend op =>
    obtain ⟨op, hexternal⟩ := op
    cases op with
    | dispatchStart queueName =>
      obtain ⟨closure, delivery, hstart, htopic⟩ := received_topic hinvoked
      unfold Broker.dispatchStart at hstart
      cases hlookup : consumer.backend.consumers.lookup queueName with
      | none =>
        rw [hlookup] at hstart
        cases hstart
      | some info =>
        rw [hlookup] at hstart
        apply hpass _ closure delivery hstart htopic
        intro current hcurrent
        rw [Broker.callbackOn, hlookup, Option.map_some, Option.some.injEq] at hcurrent
        rw [hcurrent]
    | dispatchNext =>
      obtain ⟨closure, delivery, hnext, htopic⟩ := received_topic hinvoked
      unfold Broker.dispatchNext at hnext
      cases hdispatching : consumer.backend.dispatching with
      | none =>
        rw [hdispatching] at hnext
        cases hnext
      | some d =>
        rw [hdispatching] at hnext
        exact hpass d closure delivery hnext htopic (hagree.copied d hdispatching)
    | _ => cases hinvoked

theorem Agree.receives (hagree : consumer.Agree) {topic queueName : String}
    (hlookup : consumer.mSubscriptions.lookup topic = some queueName) :
    consumer.Receives topic queueName := by
  obtain ⟨closure, hclosure, htopic⟩ := hagree.subscribed topic queueName hlookup
  obtain ⟨info, hinfo, rfl⟩ := Option.map_eq_some_iff.mp hclosure
  obtain ⟨registration, hregistration, rfl⟩ := Option.map_eq_some_iff.mp htopic
  refine ⟨info, hinfo, fun front rest hqueue hroom => ?_⟩
  simp only [RabbitMQConsumer.invoked, Broker.dispatchStart, hinfo, Broker.dispatchOne, hqueue,
    if_neg (not_le.mpr hroom), ge_iff_le, received, hregistration, Option.map_some]
  exact ⟨registration, _, rfl, rfl, rfl, rfl, rfl, rfl⟩

/-! ### Runs -/

theorem lookup_step_of_not_subscribesTo {label : ConsumerStep} {topic : String}
    (hother : label.subscribesTo topic = false) (husable : consumer.Usable)
    (hnone : consumer.mSubscriptions.lookup topic = none) :
    (consumer.step label).mSubscriptions.lookup topic = none := by
  have hsubscribe : ∀ other queueName callback uuid, other ≠ topic →
      (consumer.subscribeTo other queueName callback uuid).2.mSubscriptions.lookup topic = none := by
    intro other queueName callback uuid hne
    obtain ⟨error, backend, -, heq⟩ | ⟨-, -, backend, -, heq⟩ :=
      subscribeTo_cases husable other queueName callback uuid
    · rw [heq]
      exact hnone
    · rw [heq]
      exact (Finmap.lookup_insert_of_ne _ hne.symm).trans hnone
  cases label with
  | subscribe other callback uuid => exact hsubscribe other _ callback uuid (of_decide_eq_false hother)
  | subscribeTo other queueName callback uuid =>
    exact hsubscribe other queueName callback uuid (of_decide_eq_false hother)
  | unsubscribe other =>
    change (consumer.unsubscribe other).2.mSubscriptions.lookup topic = none
    unfold RabbitMQConsumer.unsubscribe
    cases consumer.mSubscriptions.lookup other with
    | none => exact hnone
    | some queueName =>
      by_cases heq : topic = other
      · rw [heq]
        exact Finmap.lookup_erase _ _
      · exact (Finmap.lookup_erase_ne heq).trans hnone
  | backend op => exact hnone

theorem lookup_run_of_not_subscribesTo {topic : String} {steps : List ConsumerStep}
    (hproper : Along step Proper consumer steps) (hagree : consumer.Agree)
    (hnone : consumer.mSubscriptions.lookup topic = none)
    (hothers : ∀ label ∈ steps, label.subscribesTo topic = false) :
    (run step consumer steps).mSubscriptions.lookup topic = none := by
  induction steps generalizing consumer with
  | nil => exact hnone
  | cons label steps ih =>
    obtain ⟨hother, hothers⟩ := List.forall_mem_cons.mp hothers
    exact ih hproper.2 (hagree.step hproper.1)
      (lookup_step_of_not_subscribesTo hother hagree.usable hnone) hothers

theorem lookup_unsubscribe {topic : String} (hok : (consumer.unsubscribe topic).1 = .ok ()) :
    (consumer.unsubscribe topic).2.mSubscriptions.lookup topic = none := by
  unfold RabbitMQConsumer.unsubscribe at hok ⊢
  cases hlookup : consumer.mSubscriptions.lookup topic with
  | none =>
    rw [hlookup] at hok
    cases hok
  | some queueName => exact Finmap.lookup_erase _ _

/-- Along every run of free subscriptions and arbitrary other steps, unsubscribing takes effect in every
state reached. -/
theorem effective_of_proper {steps : List ConsumerStep} (hproper : Along step Proper initial steps)
    (n : Nat) : Effective (steps.take n) := by
  intro topic before after hsplit hok hothers
  have hagree : (run step initial (steps.take n)).Agree :=
    hproper.always agree_initial (fun _ _ hstate hlabel => hstate.step hlabel) n
  refine ⟨fun next registration message hinvoked htopic => ?_, ?_⟩
  · obtain ⟨queueName, hlookup⟩ := hagree.invoked hinvoked
    have halong := hproper.take n
    rw [hsplit, along_append] at halong
    obtain ⟨hbefore, -, hafter⟩ := halong
    have hstate := hbefore.induction agree_initial fun _ _ hstate hlabel => hstate.step hlabel
    have hnone := lookup_run_of_not_subscribesTo hafter (hstate.unsubscribe topic)
      (lookup_unsubscribe hok) hothers
    rw [hsplit, run_append, run_cons, htopic] at hlookup
    cases hlookup.symm.trans hnone
  · exact fun other queueName _ hlookup => hagree.receives hlookup

/-- One subscription, which is ended again. -/
def endedRun : List ConsumerStep :=
  [.backend ⟨.declareExchange "news" .direct true false, rfl⟩, .subscribeTo "news" "inbox" 0 "",
    .backend ⟨.publish { exchange := "news", routingKey := "news" }, rfl⟩, .unsubscribe "news"]

theorem effective_endedRun : Effective endedRun := by
  refine @effective_of_proper endedRun
    ⟨trivial, fun _ _ => ⟨?_, ?_, ?_⟩, trivial, trivial, trivial⟩ 4
  · intro other hlookup
    cases hlookup
  · intro other hlookup
    cases hlookup
  · intro d hd
    cases hd

/-- Two subscriptions to one topic, of which only the second is ended. -/
def resubscribedRun : List ConsumerStep :=
  [.backend ⟨.declareExchange "news" .direct true false, rfl⟩, .subscribe "news" 0 "11111111",
    .subscribe "news" 1 "22222222", .unsubscribe "news",
    .backend ⟨.publish { exchange := "news", routingKey := "news" }, rfl⟩]

theorem not_effective_resubscribed : ¬ ∀ steps, Effective steps := by
  intro hclaim
  have hsilent := (hclaim resubscribedRun "news" (resubscribedRun.take 3) (resubscribedRun.drop 4) rfl
    (by decide +kernel) (by decide +kernel)).1
    (.backend ⟨.dispatchStart "news_queue_11111111", rfl⟩) ⟨"news", 0⟩
    { topic := "news", routingKey := "news", body := [], messageId := "", correlationId := "",
      deliveryTag := 1 } (by decide +kernel)
  exact hsilent rfl

end RabbitMQConsumer

end SoulCoreKit.Mq
