import Mathlib.Data.List.Nodup
import SoulCoreKit.Proof.BrokerStep

/-!
# Bindings and the set of bound queues

The bindings are a list that may repeat an entry, and each exchange keeps beside it the set of the
queues bound to it. `bindQueue` adds to both, and `unbindQueue` takes a queue out of the set only when
the list has no binding of it to the exchange left; no other step touches either. So the set is always
what the list says, and a fanout exchange, which is routed by the set, reaches the queues that the list
binds.
-/

namespace SoulCoreKit.Mq.Broker

open UnorderedMap

/-- The list has a binding of the queue to the exchange, whatever its routing key. -/
def Bound (b : Broker) (queue exchange : String) : Prop :=
  ∃ binding ∈ b.bindings, binding.queue = queue ∧ binding.exchange = exchange

/-- The set of each exchange is what the list says, and what is bound exists. -/
structure BindingsAgree (b : Broker) : Prop where
  bound : ∀ exchange info, b.exchanges.lookup exchange = some info →
    ∀ queue, queue ∈ info.boundQueues ↔ b.Bound queue exchange
  nodup : ∀ exchange info, b.exchanges.lookup exchange = some info → info.boundQueues.Nodup
  exchange_mem : ∀ binding ∈ b.bindings, binding.exchange ∈ b.exchanges
  queue_mem : ∀ binding ∈ b.bindings, binding.queue ∈ b.queues

/-- Each queue bound to the exchange of the message gets one copy of it at its end, and every other
queue stays as it is. -/
def FansOut (b : Broker) (message : AmqpMessage) (after : Broker) : Prop :=
  ∀ queueName,
    (b.Bound queueName message.exchange → ∃ queue copy, b.queues.lookup queueName = some queue ∧
      after.queues.lookup queueName = some (queue ++
        [{ message, exchange := message.exchange, routingKey := message.routingKey, copy }])) ∧
    (¬ b.Bound queueName message.exchange →
      after.queues.lookup queueName = b.queues.lookup queueName)

/-! ### Steps that leave the tables alone -/

variable {b : Broker}

theorem exists_nackOne (requeue : Bool) (b : Broker) (tag : Int) :
    ∃ nextDeliveryTag queues consumers unacked, b.nackOne requeue tag =
      { b with nextDeliveryTag, queues, consumers, unacked } := by
  unfold nackOne
  cases b.unacked.lookup tag with
  | none => exact ⟨_, _, _, _, rfl⟩
  | some entry =>
    dsimp only
    generalize hrequeued : (if requeue = true then
      requeueFront { b with unacked := b.unacked.erase tag } entry
      else { b with unacked := b.unacked.erase tag }) = requeued
    obtain ⟨consumers, hreleased⟩ := exists_releaseConsumer requeued entry.queue
    rw [hreleased, ← hrequeued]
    cases requeue with
    | false => exact ⟨_, _, _, _, rfl⟩
    | true =>
      simp only [if_true, requeueFront]
      cases b.queues.lookup entry.queue with
      | none => exact ⟨_, _, _, _, rfl⟩
      | some queue => exact ⟨_, _, _, _, rfl⟩

/-- The tables of `after` are those of `b`, and no queue is gone. -/
structure SameTables (b after : Broker) : Prop where
  exchanges : after.exchanges = b.exchanges
  bindings : after.bindings = b.bindings
  queues : ∀ queue ∈ b.queues, queue ∈ after.queues

theorem SameTables.refl (b : Broker) : SameTables b b := ⟨rfl, rfl, fun _ hmem => hmem⟩

theorem SameTables.foldl {A : Type} {update : Broker → A → Broker}
    (hupdate : ∀ b a, SameTables b (update b a)) (b : Broker) (as : List A) :
    SameTables b (as.foldl update b) := by
  induction as generalizing b with
  | nil => exact SameTables.refl b
  | cons a as ih =>
    obtain ⟨hexchanges, hbindings, hqueues⟩ := hupdate b a
    obtain ⟨hexchanges', hbindings', hqueues'⟩ := ih (update b a)
    exact ⟨hexchanges'.trans hexchanges, hbindings'.trans hbindings,
      fun queue hmem => hqueues' queue (hqueues queue hmem)⟩

theorem sameTables_nackOne (requeue : Bool) (b : Broker) (tag : Int) :
    SameTables b (b.nackOne requeue tag) := by
  obtain ⟨nextDeliveryTag, queues, consumers, unacked, heq⟩ := exists_nackOne requeue b tag
  refine ⟨by rw [heq], by rw [heq], fun queue hmem => ?_⟩
  rw [mem_nackOne_queues]
  exact hmem

theorem sameTables_pushCopy (message : AmqpMessage) (exchange routingKey : String) (b : Broker)
    (queueName : String) : SameTables b (b.pushCopy message exchange routingKey queueName) := by
  unfold pushCopy
  split
  · exact SameTables.refl b
  · exact ⟨rfl, rfl, fun _ hmem => Finmap.mem_insert.mpr (.inr hmem)⟩

theorem sameTables_dispatchOne (b : Broker) (d : Dispatching) : SameTables b (b.dispatchOne d).2 := by
  obtain ⟨heq, -⟩ | ⟨front, rest, info, -, -, -, heq⟩ := b.dispatchOne_cases d
  · rw [heq]
    exact ⟨rfl, rfl, fun _ hmem => hmem⟩
  · rw [heq]
    exact ⟨rfl, rfl, fun _ hmem => Finmap.mem_insert.mpr (.inr hmem)⟩

theorem sameTables_step (hconnected : b.connected = true) {op : Op} (hrouting : routing op = false) :
    SameTables b (b.step op) := by
  have hsettles : op.settles = true → SameTables b (b.step op) := by
    intro hsettles
    rw [step_of_settles hconnected hsettles]
    exact SameTables.foldl (sameTables_nackOne _) b _
  cases op with
  | declareExchange | bindQueue | unbindQueue => cases hrouting
  | declareQueue name uuid =>
    obtain heq | ⟨queueName, -, heq⟩ := b.step_declareQueue name uuid
    · rw [heq]
      exact SameTables.refl b
    · rw [heq]
      exact ⟨rfl, rfl, fun _ hmem => Finmap.mem_insert.mpr (.inr hmem)⟩
  | publish message =>
    simp only [step, publish, hconnected, not_true, if_false]
    exact SameTables.foldl (sameTables_pushCopy message _ _) b _
  | consume queue callback prefetchCount =>
    obtain heq | ⟨info, -, -, -, heq⟩ := step_consume hconnected queue callback prefetchCount
    · rw [heq]
      exact SameTables.refl b
    · rw [heq]
      exact ⟨rfl, rfl, fun _ hmem => hmem⟩
  | cancelConsume queue =>
    rw [step_cancelConsume hconnected queue]
    exact ⟨rfl, rfl, fun _ hmem => hmem⟩
  | ack | nack | reject => exact hsettles rfl
  | dispatchStart queueName =>
    simp only [step, dispatchStart]
    cases b.consumers.lookup queueName with
    | none => exact SameTables.refl b
    | some info => exact sameTables_dispatchOne b _
  | dispatchNext =>
    simp only [step, dispatchNext]
    cases b.dispatching with
    | none => exact SameTables.refl b
    | some d => exact sameTables_dispatchOne b d

theorem BindingsAgree.congr {after : Broker} (hagree : b.BindingsAgree) (hsame : SameTables b after) :
    after.BindingsAgree := by
  obtain ⟨hexchanges, hbindings, hqueues⟩ := hsame
  refine ⟨?_, ?_, ?_, ?_⟩
  · unfold Bound
    rw [hexchanges, hbindings]
    exact hagree.bound
  · rw [hexchanges]
    exact hagree.nodup
  · rw [hexchanges, hbindings]
    exact hagree.exchange_mem
  · rw [hbindings]
    exact fun binding hmem => hqueues _ (hagree.queue_mem binding hmem)

/-! ### Steps that change the tables -/

theorem bound_insert {b : Broker} {bindings : List BindingInfo} {queue exchange routingKey : String}
    (hbindings : bindings = b.bindings ++ [⟨queue, exchange, routingKey⟩]) (other otherExchange : String) :
    (∃ binding ∈ bindings, binding.queue = other ∧ binding.exchange = otherExchange) ↔
      b.Bound other otherExchange ∨ (queue = other ∧ exchange = otherExchange) := by
  rw [hbindings]
  constructor
  · rintro ⟨binding, hmem, hbinding⟩
    obtain hold | hnew := List.mem_append.mp hmem
    · exact .inl ⟨binding, hold, hbinding⟩
    · rw [List.mem_singleton] at hnew
      subst hnew
      exact .inr hbinding
  · rintro (⟨binding, hmem, hbinding⟩ | hbinding)
    · exact ⟨binding, List.mem_append_left _ hmem, hbinding⟩
    · exact ⟨_, List.mem_append_right _ (List.mem_singleton_self _), hbinding⟩

theorem BindingsAgree.declareExchange (hagree : b.BindingsAgree) (name : String) (type : ExchangeType)
    (durable autoDelete : Bool) : (b.declareExchange name type durable autoDelete).2.BindingsAgree := by
  unfold Broker.declareExchange
  split
  · exact hagree
  · split
    · exact hagree
    · split
      · exact hagree
      · rename_i hmem
        refine ⟨?_, ?_, ?_, hagree.queue_mem⟩
        · refine forall_lookup_insert hagree.bound fun queue => ?_
          -- nothing is bound to an exchange that did not exist
          refine ⟨fun hnil => absurd hnil List.not_mem_nil, ?_⟩
          rintro ⟨binding, hbinding, -, rfl⟩
          exact absurd (hagree.exchange_mem binding hbinding) hmem
        · exact forall_lookup_insert (P := fun _ (info : ExchangeInfo) => info.boundQueues.Nodup) hagree.nodup
            List.nodup_nil
        · exact fun binding hbinding => Finmap.mem_insert.mpr (.inr (hagree.exchange_mem binding hbinding))

theorem BindingsAgree.bindQueue (hagree : b.BindingsAgree) (queue exchange routingKey : String) :
    (b.bindQueue queue exchange routingKey).2.BindingsAgree := by
  unfold Broker.bindQueue
  split
  · exact hagree
  · cases hlookup : b.exchanges.lookup exchange with
    | none => exact hagree
    | some info =>
      dsimp only
      split
      · exact hagree
      · rename_i hqueue
        rw [not_not] at hqueue
        refine ⟨?_, ?_, ?_, ?_⟩
        · intro otherExchange otherInfo hother other
          change _ ↔ ∃ binding ∈ b.bindings ++ _, _
          rw [bound_insert rfl]
          rcases lookup_insert_cases hother with ⟨rfl, rfl⟩ | ⟨heq, hold⟩
          · rw [List.mem_insert_iff, hagree.bound otherExchange info hlookup]
            constructor
            · rintro (rfl | hbound)
              · exact .inr ⟨rfl, rfl⟩
              · exact .inl hbound
            · rintro (hbound | ⟨rfl, -⟩)
              · exact .inr hbound
              · exact .inl rfl
          · rw [hagree.bound otherExchange otherInfo hold]
            exact ⟨.inl, fun hbound => hbound.resolve_right fun hnew => heq hnew.2.symm⟩
        · exact forall_lookup_insert (P := fun _ (info : ExchangeInfo) => info.boundQueues.Nodup) hagree.nodup
            (hagree.nodup exchange info hlookup).insert
        · intro binding hbinding
          rw [Finmap.mem_insert]
          obtain hold | hnew := List.mem_append.mp hbinding
          · exact .inr (hagree.exchange_mem binding hold)
          · rw [List.mem_singleton] at hnew
            subst hnew
            exact .inl rfl
        · intro binding hbinding
          obtain hold | hnew := List.mem_append.mp hbinding
          · exact hagree.queue_mem binding hold
          · rw [List.mem_singleton] at hnew
            subst hnew
            exact hqueue

/-- What is bound once the bindings of one queue, exchange and routing key are gone. -/
theorem bound_filter (b : Broker) (removed : BindingInfo) {queue exchange : String}
    (hother : ¬ (queue = removed.queue ∧ exchange = removed.exchange)) :
    Bound { b with bindings := b.bindings.filter (· ≠ removed) } queue exchange ↔
      b.Bound queue exchange := by
  constructor
  · rintro ⟨binding, hmem, hbinding⟩
    exact ⟨binding, List.mem_of_mem_filter hmem, hbinding⟩
  · rintro ⟨binding, hmem, rfl, rfl⟩
    refine ⟨binding, List.mem_filter.mpr ⟨hmem, ?_⟩, rfl, rfl⟩
    rw [decide_eq_true_eq]
    rintro rfl
    exact hother ⟨rfl, rfl⟩

/-- A broker without one of its bindings, where the sets are as before: the exchange is gone, or still has
the queue bound to it. -/
theorem BindingsAgree.filter (hagree : b.BindingsAgree) {removed : BindingInfo}
    (hstill : ∀ info, b.exchanges.lookup removed.exchange = some info →
      Bound { b with bindings := b.bindings.filter (· ≠ removed) } removed.queue removed.exchange) :
    BindingsAgree { b with bindings := b.bindings.filter (· ≠ removed) } := by
  refine ⟨fun exchange info hlookup queue => ?_, hagree.nodup,
    fun binding hmem => hagree.exchange_mem binding (List.mem_of_mem_filter hmem),
    fun binding hmem => hagree.queue_mem binding (List.mem_of_mem_filter hmem)⟩
  rw [hagree.bound exchange info hlookup]
  by_cases hsame : queue = removed.queue ∧ exchange = removed.exchange
  · obtain ⟨rfl, rfl⟩ := hsame
    obtain ⟨binding, hmem, hbinding⟩ := hstill info hlookup
    exact iff_of_true ⟨binding, List.mem_of_mem_filter hmem, hbinding⟩ (hstill info hlookup)
  · exact (bound_filter b removed hsame).symm

theorem BindingsAgree.erase (hagree : b.BindingsAgree) {removed : BindingInfo} {info : ExchangeInfo}
    (hlookup : b.exchanges.lookup removed.exchange = some info)
    (hunbound : ¬ Bound { b with bindings := b.bindings.filter (· ≠ removed) } removed.queue
      removed.exchange) :
    BindingsAgree { b with
      bindings := b.bindings.filter (· ≠ removed)
      exchanges := b.exchanges.insert removed.exchange
        { info with boundQueues := info.boundQueues.erase removed.queue } } := by
  have hnodup := hagree.nodup removed.exchange info hlookup
  refine ⟨?_, ?_, ?_, fun binding hmem => hagree.queue_mem binding (List.mem_of_mem_filter hmem)⟩
  · intro exchange other hother queue
    rcases lookup_insert_cases hother with ⟨rfl, rfl⟩ | ⟨hexchange, hold⟩
    · rw [hnodup.mem_erase_iff, hagree.bound removed.exchange info hlookup]
      by_cases hqueue : queue = removed.queue
      · subst hqueue
        exact iff_of_false (fun hmem => hmem.1 rfl) hunbound
      · rw [and_iff_right hqueue]
        exact (bound_filter b removed fun hsame => hqueue hsame.1).symm
    · rw [hagree.bound exchange other hold]
      exact (bound_filter b removed fun hsame => hexchange hsame.2).symm
  · exact forall_lookup_insert (P := fun _ (info : ExchangeInfo) => info.boundQueues.Nodup) hagree.nodup
      (hnodup.erase removed.queue)
  · exact fun binding hmem =>
      Finmap.mem_insert.mpr (.inr (hagree.exchange_mem binding (List.mem_of_mem_filter hmem)))

theorem BindingsAgree.unbindQueue (hagree : b.BindingsAgree) (queue exchange routingKey : String) :
    (b.unbindQueue queue exchange routingKey).2.BindingsAgree := by
  unfold Broker.unbindQueue
  split
  · exact hagree
  · split
    · exact hagree
    · set removed : BindingInfo := ⟨queue, exchange, routingKey⟩
      dsimp only
      split
      · rename_i hleft
        simp only [List.any_eq_true, decide_eq_true_eq] at hleft
        obtain ⟨kept, hkept, hexchange, hqueue⟩ := hleft
        exact hagree.filter fun _ _ => ⟨kept, hkept, hqueue, hexchange⟩
      · rename_i hnone
        have hunbound : ¬ Bound { b with bindings := b.bindings.filter (· ≠ removed) } queue exchange := by
          rintro ⟨binding, hmem, hqueue, hexchange⟩
          exact hnone (List.any_eq_true.mpr ⟨binding, hmem, decide_eq_true ⟨hexchange, hqueue⟩⟩)
        cases hlookup : b.exchanges.lookup exchange with
        | none =>
          refine hagree.filter fun info hinfo => ?_
          rw [show removed.exchange = exchange from rfl, hlookup] at hinfo
          cases hinfo
        | some info => exact hagree.erase hlookup hunbound

theorem bindingsAgree_initial : initial.BindingsAgree where
  bound exchange info hlookup := by
    rw [initial, connect, Finmap.lookup_empty] at hlookup
    cases hlookup
  nodup exchange info hlookup := by
    rw [initial, connect, Finmap.lookup_empty] at hlookup
    cases hlookup
  exchange_mem _ hmem := absurd hmem List.not_mem_nil
  queue_mem _ hmem := absurd hmem List.not_mem_nil

theorem BindingsAgree.step (hagree : b.BindingsAgree) (hconnected : b.connected = true) (op : Op) :
    (b.step op).BindingsAgree := by
  cases hrouting : routing op with
  | false => exact hagree.congr (sameTables_step hconnected hrouting)
  | true =>
    cases op with
    | declareExchange name type durable autoDelete =>
      exact hagree.declareExchange name type durable autoDelete
    | bindQueue queue exchange routingKey => exact hagree.bindQueue queue exchange routingKey
    | unbindQueue queue exchange routingKey => exact hagree.unbindQueue queue exchange routingKey
    | _ => cases hrouting

theorem sound_and_bindingsAgree_run (ops : List Op) :
    (run Broker.step initial ops).Sound ∧ (run Broker.step initial ops).BindingsAgree :=
  run_induction (P := fun b : Broker => b.Sound ∧ b.BindingsAgree)
    ⟨sound_initial, bindingsAgree_initial⟩
    (fun _ op hb => ⟨hb.1.step op, hb.2.step hb.1.connected op⟩) ops

/-! ### Publishing to a fanout exchange -/

theorem lookup_pushCopy_of_ne (b : Broker) (message : AmqpMessage) (exchange routingKey : String)
    {queueName other : String} (hne : other ≠ queueName) :
    (b.pushCopy message exchange routingKey queueName).queues.lookup other = b.queues.lookup other := by
  unfold pushCopy
  split
  · rfl
  · exact Finmap.lookup_insert_of_ne _ hne

theorem lookup_foldl_pushCopy_of_notMem (b : Broker) (message : AmqpMessage)
    (exchange routingKey : String) {targets : List String} {queueName : String}
    (hnotMem : queueName ∉ targets) :
    (targets.foldl (pushCopy message exchange routingKey) b).queues.lookup queueName =
      b.queues.lookup queueName := by
  induction targets generalizing b with
  | nil => rfl
  | cons target targets ih =>
    rw [List.mem_cons, not_or] at hnotMem
    rw [List.foldl_cons, ih _ hnotMem.2, lookup_pushCopy_of_ne b message exchange routingKey hnotMem.1]

theorem lookup_foldl_pushCopy_of_none (b : Broker) (message : AmqpMessage)
    (exchange routingKey : String) (targets : List String) {queueName : String}
    (hnone : b.queues.lookup queueName = none) :
    (targets.foldl (pushCopy message exchange routingKey) b).queues.lookup queueName = none := by
  induction targets generalizing b with
  | nil => exact hnone
  | cons target targets ih =>
    refine ih _ ?_
    by_cases heq : queueName = target
    · subst heq
      rw [pushCopy, hnone]
      exact hnone
    · rw [lookup_pushCopy_of_ne b message exchange routingKey heq, hnone]

theorem lookup_foldl_pushCopy (b : Broker) (message : AmqpMessage) (exchange routingKey : String)
    (targets : List String) {queueName : String} {queue : List QueuedMessage}
    (hlookup : b.queues.lookup queueName = some queue) :
    ∃ names : List Nat, names.length = targets.count queueName ∧
      (targets.foldl (pushCopy message exchange routingKey) b).queues.lookup queueName =
        some (queue ++ names.map fun copy => { message := message, exchange, routingKey, copy }) := by
  induction targets generalizing b queue with
  | nil => exact ⟨[], rfl, by simpa using hlookup⟩
  | cons target targets ih =>
    rw [List.foldl_cons]
    by_cases heq : queueName = target
    · subst heq
      have hpushed : (b.pushCopy message exchange routingKey queueName).queues.lookup queueName =
          some (queue ++ [{ message, exchange, routingKey, copy := b.routed.length }]) := by
        rw [pushCopy, hlookup]
        exact Finmap.lookup_insert _
      obtain ⟨names, hlength, hafter⟩ := ih _ hpushed
      refine ⟨b.routed.length :: names, ?_, ?_⟩
      · rw [List.length_cons, hlength, List.count_cons_self]
      · rw [hafter, List.append_assoc]
        rfl
    · have hkept := (lookup_pushCopy_of_ne b message exchange routingKey heq).trans hlookup
      obtain ⟨names, hlength, hafter⟩ := ih _ hkept
      exact ⟨names, by rw [hlength, List.count_cons_of_ne (Ne.symm heq)], hafter⟩

theorem lookup_foldl_pushCopy_of_count_eq_one (b : Broker) (message : AmqpMessage)
    (exchange routingKey : String) {targets : List String} {queueName : String}
    {queue : List QueuedMessage} (hcount : targets.count queueName = 1)
    (hlookup : b.queues.lookup queueName = some queue) :
    ∃ copy, (targets.foldl (pushCopy message exchange routingKey) b).queues.lookup queueName =
      some (queue ++ [{ message := message, exchange, routingKey, copy }]) := by
  obtain ⟨names, hlength, hafter⟩ :=
    lookup_foldl_pushCopy b message exchange routingKey targets hlookup
  obtain ⟨copy, rfl⟩ := List.length_eq_one_iff.mp (hlength.trans hcount)
  exact ⟨copy, hafter⟩

theorem BindingsAgree.fansOut (hagree : b.BindingsAgree) (hconnected : b.connected = true)
    {message : AmqpMessage} {info : ExchangeInfo}
    (hlookup : b.exchanges.lookup message.exchange = some info) (htype : info.type = .fanout) :
    (b.publish message).1 = .ok () ∧ b.FansOut message (b.publish message).2 := by
  have htargets : b.targetQueues message.exchange message.routingKey = info.boundQueues := by
    rw [targetQueues, hlookup]
    dsimp only
    rw [htype]
  have hpublish : b.publish message = (.ok (), info.boundQueues.foldl
      (pushCopy message message.exchange message.routingKey) b) := by
    rw [publish, if_neg (not_not.mpr hconnected), routeMessage, htargets]
  rw [hpublish]
  refine ⟨rfl, fun queueName => ⟨fun hbound => ?_, fun hunbound => ?_⟩⟩
  · have hmem : queueName ∈ info.boundQueues := (hagree.bound _ info hlookup queueName).mpr hbound
    obtain ⟨binding, hbinding, rfl, -⟩ := hbound
    obtain ⟨queue, hqueue⟩ := Finmap.mem_iff.mp (hagree.queue_mem binding hbinding)
    obtain ⟨copy, hcopy⟩ := lookup_foldl_pushCopy_of_count_eq_one b message message.exchange
      message.routingKey (List.count_eq_one_of_mem (hagree.nodup _ info hlookup) hmem) hqueue
    exact ⟨queue, copy, hqueue, hcopy⟩
  · apply lookup_foldl_pushCopy_of_notMem
    rw [hagree.bound _ info hlookup]
    exact hunbound

/-- After every sequence of calls the set of bound queues of each exchange is what the list of bindings
says, whatever is bound exists, and a publish to a fanout exchange reaches the bound queues, each once. -/
theorem bindings_agree_and_fan_out (ops : List Op) :
    let b := run step initial ops
    b.BindingsAgree ∧ ∀ message info, b.exchanges.lookup message.exchange = some info →
      info.type = .fanout →
        (b.publish message).1 = .ok () ∧ b.FansOut message (b.publish message).2 := by
  intro b
  have hinv := sound_and_bindingsAgree_run ops
  exact ⟨hinv.2, fun message info hlookup htype => hinv.2.fansOut hinv.1.connected hlookup htype⟩

/-- A queue bound twice, and once unbound again. -/
def reboundRun : List Op :=
  [.declareExchange "news" .fanout true false, .declareQueue "inbox" "", .bindQueue "inbox" "news" "a",
    .bindQueue "inbox" "news" "b", .unbindQueue "inbox" "news" "a"]

theorem bindings_agree_and_fan_out_reboundRun :
    FansOut (run step initial reboundRun) { exchange := "news", routingKey := "" }
      ((run step initial reboundRun).publish { exchange := "news", routingKey := "" }).2 :=
  ((bindings_agree_and_fan_out reboundRun).2 { exchange := "news", routingKey := "" }
    { type := .fanout, durable := true, autoDelete := false, boundQueues := ["inbox"] }
    (by decide +kernel) rfl).2

end SoulCoreKit.Mq.Broker
