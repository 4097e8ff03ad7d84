import SoulCoreKit.Proof.Bindings
import SoulCoreKit.Proof.TopicMatch

/-!
# One copy for each queue

A publish should leave one copy of the message on every queue that some binding sends it to. The
delivery loop works through a list of queues, and counting is all there is to it: a queue gets as many
copies as it has places in that list. For a fanout exchange the list is the set of bound queues. For
the other types it holds a queue once for each binding that the code's test accepts, and nothing keeps
a queue from having two of them.
-/

namespace SoulCoreKit.Mq.Broker

open UnorderedMap

/-- A binding takes a message with the routing key, as AMQP 0.9.1 has it. -/
def Takes : ExchangeType → String → String → Prop
  | .direct, bindingKey, routingKey => bindingKey = routingKey
  | .fanout, _, _ => True
  | .topic, bindingKey, routingKey => TopicMatches (splitWords bindingKey) (splitWords routingKey)
  | .headers, _, _ => False

/-- The test that `routeMessage` makes of one binding. -/
def accepts : ExchangeType → String → String → Bool
  | .direct, bindingKey, routingKey => bindingKey = routingKey
  | .fanout, _, _ => true
  | .topic, bindingKey, routingKey => matchTopicPattern bindingKey routingKey
  | .headers, _, _ => false

/-- Some binding of the queue to the exchange takes the message. -/
def HasMatch (b : Broker) (type : ExchangeType) (exchange routingKey queueName : String) : Prop :=
  ∃ binding ∈ b.bindings, binding.exchange = exchange ∧ binding.queue = queueName ∧
    Takes type binding.routingKey routingKey

/-- One copy of the message is new at the end of each queue with a matching binding, and every other
queue is as it was. -/
def DeliversOnce (b : Broker) (type : ExchangeType) (message : AmqpMessage)
    (exchange routingKey : String) (after : Broker) : Prop :=
  ∀ queueName,
    (b.HasMatch type exchange routingKey queueName → ∃ queue copy,
      b.queues.lookup queueName = some queue ∧
      after.queues.lookup queueName =
        some (queue ++ [{ message := message, exchange, routingKey, copy }])) ∧
    (¬ b.HasMatch type exchange routingKey queueName →
      after.queues.lookup queueName = b.queues.lookup queueName)

/-- The queues of the bindings that the test accepts, one place for each binding. -/
def acceptedQueues (b : Broker) (type : ExchangeType) (exchange routingKey : String) : List String :=
  (b.bindings.filter fun binding =>
    binding.exchange = exchange ∧ accepts type binding.routingKey routingKey).map (·.queue)

/-- No queue has two bindings that the test accepts, and each queue with a matching binding has
one. -/
def AcceptedOnce (b : Broker) (type : ExchangeType) (exchange routingKey : String) : Prop :=
  (b.acceptedQueues type exchange routingKey).Nodup ∧
    ∀ queueName, b.HasMatch type exchange routingKey queueName →
      queueName ∈ b.acceptedQueues type exchange routingKey

variable {b : Broker} {type : ExchangeType} {exchange routingKey : String}

theorem takes_of_accepts {bindingKey : String} (haccepts : accepts type bindingKey routingKey = true) :
    Takes type bindingKey routingKey := by
  cases type with
  | direct => exact (decide_eq_true_iff (p := bindingKey = routingKey)).mp haccepts
  | fanout => trivial
  | topic => exact matchTopicPattern_sound haccepts
  | headers => exact absurd haccepts Bool.false_ne_true

theorem mem_acceptedQueues {queueName : String} :
    queueName ∈ b.acceptedQueues type exchange routingKey ↔ ∃ binding ∈ b.bindings,
      binding.exchange = exchange ∧ binding.queue = queueName ∧
        accepts type binding.routingKey routingKey = true := by
  unfold acceptedQueues
  simp only [List.mem_map, List.mem_filter, decide_eq_true_eq]
  constructor
  · rintro ⟨binding, ⟨hmem, hexchange, haccepts⟩, hqueue⟩
    exact ⟨binding, hmem, hexchange, hqueue, haccepts⟩
  · rintro ⟨binding, hmem, hexchange, hqueue, haccepts⟩
    exact ⟨binding, ⟨hmem, hexchange, haccepts⟩, hqueue⟩

theorem hasMatch_of_mem_acceptedQueues {queueName : String}
    (hmem : queueName ∈ b.acceptedQueues type exchange routingKey) :
    b.HasMatch type exchange routingKey queueName := by
  obtain ⟨binding, hbinding, hexchange, hqueue, haccepts⟩ := mem_acceptedQueues.mp hmem
  exact ⟨binding, hbinding, hexchange, hqueue, takes_of_accepts haccepts⟩

/-! ### Counting copies -/

section Targets

variable {targets : List String}

/-- What the delivery loop does to a list of queues meets the claim where each queue stands in the list
once if it has a matching binding, and not at all otherwise. -/
theorem deliversOnce_foldl_iff (message : AmqpMessage)
    (hexists : ∀ queueName, b.HasMatch type exchange routingKey queueName → queueName ∈ b.queues)
    (htargets : ∀ queueName ∈ targets, b.HasMatch type exchange routingKey queueName) :
    b.DeliversOnce type message exchange routingKey
        (targets.foldl (pushCopy message exchange routingKey) b) ↔
      targets.Nodup ∧
        ∀ queueName, b.HasMatch type exchange routingKey queueName → queueName ∈ targets := by
  constructor
  · intro hdelivers
    have hcount : ∀ queueName, b.HasMatch type exchange routingKey queueName →
        targets.count queueName = 1 := by
      intro queueName hmatch
      obtain ⟨queue, copy, hqueue, hafter⟩ := (hdelivers queueName).1 hmatch
      obtain ⟨names, hlength, hnames⟩ :=
        lookup_foldl_pushCopy b message exchange routingKey targets hqueue
      rw [hnames, Option.some.injEq, List.append_cancel_left_eq] at hafter
      have hone := congrArg List.length hafter
      rw [List.length_map, hlength] at hone
      exact hone
    refine ⟨List.nodup_iff_count_le_one.mpr fun queueName => ?_, fun queueName hmatch => ?_⟩
    · by_cases hmem : queueName ∈ targets
      · exact (hcount queueName (htargets queueName hmem)).le
      · rw [List.count_eq_zero_of_not_mem hmem]
        exact Nat.zero_le 1
    · apply List.count_pos_iff.mp
      rw [hcount queueName hmatch]
      exact Nat.one_pos
  · rintro ⟨hnodup, hall⟩ queueName
    refine ⟨fun hmatch => ?_, fun hnone => ?_⟩
    · obtain ⟨queue, hqueue⟩ := Finmap.mem_iff.mp (hexists queueName hmatch)
      have hcount := List.count_eq_one_of_mem hnodup (hall queueName hmatch)
      obtain ⟨copy, hcopy⟩ :=
        lookup_foldl_pushCopy_of_count_eq_one b message exchange routingKey hcount hqueue
      exact ⟨queue, copy, hqueue, hcopy⟩
    · exact lookup_foldl_pushCopy_of_notMem b message exchange routingKey fun hmem =>
        hnone (htargets queueName hmem)

end Targets

theorem targetQueues_of_ne_fanout {info : ExchangeInfo}
    (hlookup : b.exchanges.lookup exchange = some info) (hfanout : info.type ≠ .fanout) :
    b.targetQueues exchange routingKey = b.acceptedQueues info.type exchange routingKey := by
  unfold targetQueues acceptedQueues
  rw [hlookup]
  dsimp only
  cases htype : info.type with
  | direct => simp [accepts]
  | fanout => exact absurd htype hfanout
  | topic => rfl
  | headers => simp [accepts]

theorem hasMatch_fanout_iff {queueName : String} :
    b.HasMatch .fanout exchange routingKey queueName ↔ b.Bound queueName exchange := by
  constructor
  · rintro ⟨binding, hmem, hexchange, hqueue, -⟩
    exact ⟨binding, hmem, hqueue, hexchange⟩
  · rintro ⟨binding, hmem, hqueue, hexchange⟩
    exact ⟨binding, hmem, hexchange, hqueue, trivial⟩

theorem BindingsAgree.deliversOnce_iff (hagree : b.BindingsAgree) {info : ExchangeInfo}
    (hlookup : b.exchanges.lookup exchange = some info) (message : AmqpMessage)
    (routingKey : String) :
    b.DeliversOnce info.type message exchange routingKey
        (b.routeMessage message exchange routingKey) ↔
      info.type = .fanout ∨ b.AcceptedOnce info.type exchange routingKey := by
  have hexists : ∀ queueName, b.HasMatch info.type exchange routingKey queueName →
      queueName ∈ b.queues := by
    rintro queueName ⟨binding, hmem, -, rfl, -⟩
    exact hagree.queue_mem binding hmem
  unfold routeMessage
  by_cases hfanout : info.type = .fanout
  · -- the set of bound queues repeats nothing and has what the list has
    have htargets : b.targetQueues exchange routingKey = info.boundQueues := by
      unfold targetQueues
      rw [hlookup]
      dsimp only
      rw [hfanout]
    have hbound : ∀ queueName,
        b.HasMatch info.type exchange routingKey queueName ↔ queueName ∈ info.boundQueues := by
      intro queueName
      rw [hfanout, hasMatch_fanout_iff, hagree.bound exchange info hlookup]
    rw [htargets, deliversOnce_foldl_iff message hexists fun queueName => (hbound queueName).mpr]
    exact iff_of_true
      ⟨hagree.nodup exchange info hlookup, fun queueName => (hbound queueName).mp⟩ (.inl hfanout)
  · rw [targetQueues_of_ne_fanout hlookup hfanout, deliversOnce_foldl_iff message hexists
      fun queueName => hasMatch_of_mem_acceptedQueues, or_iff_right hfanout]
    rfl

/-- **One copy for each queue.** After every sequence of calls, `routeMessage` leaves one copy on each
queue with a matching binding and none elsewhere exactly if the exchange is a fanout exchange, or the
bindings that the code's test accepts are of different queues and leave out no queue that has a matching
one. -/
theorem routeMessage_deliversOnce_iff (ops : List Op) :
    let b := run step initial ops
    ∀ message exchange routingKey info, b.exchanges.lookup exchange = some info →
      info.type ≠ .headers →
        (b.DeliversOnce info.type message exchange routingKey
            (b.routeMessage message exchange routingKey) ↔
          info.type = .fanout ∨ b.AcceptedOnce info.type exchange routingKey) := by
  intro b message exchange routingKey info hlookup _
  exact (sound_and_bindingsAgree_run ops).2.deliversOnce_iff hlookup message routingKey

theorem routeMessage_deliversOnce_iff_reboundRun :
    (run step initial reboundRun).DeliversOnce .fanout { exchange := "news", routingKey := "c" } "news"
      "c" ((run step initial reboundRun).routeMessage { exchange := "news", routingKey := "c" } "news"
        "c") :=
  (routeMessage_deliversOnce_iff reboundRun { exchange := "news", routingKey := "c" } "news" "c"
    { type := .fanout, durable := true, autoDelete := false, boundQueues := ["inbox"] }
    (by decide +kernel) (by decide)).mpr (.inl rfl)

/-- One binding, declared twice. -/
def boundTwiceRun : List Op :=
  [.declareExchange "ex" .direct true false, .declareQueue "q" "", .bindQueue "q" "ex" "key",
    .bindQueue "q" "ex" "key"]

/-- A queue that was bound twice with the same key gets the message twice. -/
theorem routeMessage_delivers_twice :
    ¬ ∀ (ops : List Op) (message : AmqpMessage) (exchange routingKey : String) (info : ExchangeInfo),
      (run step initial ops).exchanges.lookup exchange = some info → info.type ≠ .headers →
        (run step initial ops).DeliversOnce info.type message exchange routingKey
          ((run step initial ops).routeMessage message exchange routingKey) := by
  intro hclaim
  have hlookup : (run step initial boundTwiceRun).exchanges.lookup "ex" =
      some { type := .direct, durable := true, autoDelete := false, boundQueues := ["q"] } := by
    decide +kernel
  have hdelivers := hclaim boundTwiceRun { exchange := "ex", routingKey := "key" } "ex" "key" _ hlookup
    (by decide)
  rw [(sound_and_bindingsAgree_run boundTwiceRun).2.deliversOnce_iff hlookup] at hdelivers
  obtain hfanout | ⟨hnodup, -⟩ := hdelivers
  · exact absurd hfanout (by decide)
  · exact absurd hnodup (by decide)

end SoulCoreKit.Mq.Broker
