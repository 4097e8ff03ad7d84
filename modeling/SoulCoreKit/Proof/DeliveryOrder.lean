import SoulCoreKit.Proof.Bindings
import SoulCoreKit.Proof.Conservation

/-!
# Deliveries in order

Along a run in which nothing is requeued, a message goes through its queue once: it enters at the end
when it is routed and leaves at the front when it is handed out, under the next tag. The history of a
run is read off its labels, as what its steps hand out and what they let into each queue, and four facts
about it are kept by one more step. A step either hands out one message, and then settles nothing and
lets nothing in, or it hands out nothing; all four facts follow from this one distinction.
-/

namespace SoulCoreKit.Mq

/-- The step puts messages back: it is a `nack` or a `reject` with requeueing. -/
def Op.requeues (op : Op) : Bool := op.settles && !op.discards

namespace Broker

open UnorderedMap

/-- What the consumer's callback is given in a dispatch step, if anything. -/
def deliveryOf (b : Broker) : Op → Option AmqpDelivery
  | .dispatchStart queueName => (b.dispatchStart queueName).1.map (·.2)
  | .dispatchNext => b.dispatchNext.1.map (·.2)
  | _ => none

/-- The messages routed to the queue in a step, one for each place among the targets. -/
def arrivalsOf (queueName : String) (b : Broker) : Op → List AmqpMessage
  | .publish message =>
      if queueName ∈ b.queues then
        List.replicate ((b.targetQueues message.exchange message.routingKey).count queueName) message
      else
        []
  | _ => []

/-- The deliveries of a run, in order. -/
def deliveries (start : Broker) (ops : List Op) : List AmqpDelivery :=
  outputs step (fun b op => (b.deliveryOf op).toList) start ops

/-- The messages routed to the queue in a run, in order. -/
def arrivals (queueName : String) (start : Broker) (ops : List Op) : List AmqpMessage :=
  outputs step (arrivalsOf queueName) start ops

/-- The messages that wait in the queue. -/
def waiting (b : Broker) (queueName : String) : List AmqpMessage :=
  ((b.queues.lookup queueName).getD []).map (·.message)

/-- Some step delivered under the tag, and no later step of the run settled it. -/
def DeliveredUnsettled (start : Broker) (ops : List Op) (tag : Int) : Prop :=
  ∃ before op after delivery, ops = before ++ op :: after ∧
    (run step start before).deliveryOf op = some delivery ∧ delivery.deliveryTag = tag ∧
    ∀ later ∈ after, later.covers tag = false

/-- What the dispatch thread's consumer is given of the front of a queue. -/
def handed (b : Broker) (d : Dispatching) (front : QueuedMessage) : AmqpDelivery :=
  { deliveryTag := b.nextDeliveryTag
    redelivered := false
    exchange := front.exchange
    routingKey := front.routingKey
    queue := d.queue
    message := front.message }

/-- The step hands out the front of a queue, and does nothing else. -/
structure HandsOut (b : Broker) (op : Op) (d : Dispatching) (front : QueuedMessage)
    (rest : List QueuedMessage) (info : ConsumerInfo) : Prop where
  delivery : b.deliveryOf op = some (b.handed d front)
  queue : b.queues.lookup d.queue = some (front :: rest)
  step : b.step op = b.deliver d front rest info
  covers : ∀ tag, op.covers tag = false
  arrivals : ∀ queueName, b.arrivalsOf queueName op = []

/-- The step hands nothing out: it forgets the tags it covers and lets arrivals into the queues. -/
structure HandsOutNothing (b : Broker) (op : Op) : Prop where
  delivery : b.deliveryOf op = none
  tag : (b.step op).nextDeliveryTag = b.nextDeliveryTag
  unacked : ∀ tag, (b.step op).unacked.lookup tag =
    if op.covers tag then none else b.unacked.lookup tag
  waiting : ∀ queueName, (b.step op).waiting queueName =
    b.waiting queueName ++ b.arrivalsOf queueName op

variable {b : Broker} {op : Op}

/-! ### One step -/

/-- A step that settles nothing and lets nothing in, and keeps the queues, the tags and the outstanding
entries. -/
theorem HandsOutNothing.of_frame (hdelivery : b.deliveryOf op = none)
    (hcovers : ∀ tag, op.covers tag = false) (harrivals : ∀ queueName, b.arrivalsOf queueName op = [])
    (htag : (b.step op).nextDeliveryTag = b.nextDeliveryTag)
    (hunacked : (b.step op).unacked = b.unacked) (hqueues : (b.step op).queues = b.queues) :
    b.HandsOutNothing op where
  delivery := hdelivery
  tag := htag
  unacked tag := by
    rw [hunacked, hcovers]
    rfl
  waiting queueName := by
    rw [Broker.waiting, hqueues, harrivals, List.append_nil]
    rfl

theorem dispatchOne_eq (b : Broker) (d : Dispatching) :
    b.dispatchOne d = (none, { b with dispatching := none }) ∨
      ∃ front rest info, b.queues.lookup d.queue = some (front :: rest) ∧
        b.dispatchOne d = (some (d.callback, b.handed d front), b.deliver d front rest info) := by
  unfold dispatchOne
  cases hqueue : b.queues.lookup d.queue with
  | none => exact .inl rfl
  | some queue =>
    cases queue with
    | nil => exact .inl rfl
    | cons front rest =>
      cases hconsumer : b.consumers.lookup d.queue with
      | none => exact .inl rfl
      | some info =>
        dsimp only
        split
        · exact .inl rfl
        · exact .inr ⟨front, rest, info, rfl, rfl⟩

theorem handsOut_cases_of_dispatch (result : Option (Callback × AmqpDelivery) × Broker)
    (hresult : result = (none, b) ∨ ∃ d, result = b.dispatchOne d)
    (hdelivery : b.deliveryOf op = result.1.map (·.2)) (hstep : b.step op = result.2)
    (hcovers : ∀ tag, op.covers tag = false) (harrivals : ∀ queueName, b.arrivalsOf queueName op = []) :
    b.HandsOutNothing op ∨ ∃ d front rest info, b.HandsOut op d front rest info := by
  have hnothing : ∀ dispatching, result = (none, { b with dispatching }) → b.HandsOutNothing op := by
    intro dispatching hresult
    rw [hresult] at hdelivery hstep
    exact .of_frame hdelivery hcovers harrivals (by rw [hstep]) (by rw [hstep]) (by rw [hstep])
  obtain hnone | ⟨d, hresult⟩ := hresult
  · exact .inl (hnothing b.dispatching hnone)
  · obtain heq | ⟨front, rest, info, hqueue, heq⟩ := b.dispatchOne_eq d
    · exact .inl (hnothing none (hresult.trans heq))
    · rw [hresult, heq] at hdelivery hstep
      exact .inr ⟨d, front, rest, info, hdelivery, hqueue, hstep, hcovers, harrivals⟩

theorem handsOutNothing_of_settles (hsound : b.Sound) (henabled : b.Enabled op)
    (hsettles : op.settles = true) (hdiscards : op.discards = true) : b.HandsOutNothing op := by
  have hstep : b.step op = (b.settledTags op).foldl (nackOne false) b := by
    rw [step_of_settles hsound.connected hsettles, hdiscards]
    rfl
  refine ⟨?_, ?_, fun tag => ?_, fun queueName => ?_⟩
  · cases op <;> first | rfl | exact absurd hsettles Bool.false_ne_true
  · rw [hstep, foldl_nackOne_false_nextDeliveryTag]
  · rw [hstep, foldl_nackOne_lookup]
    cases hcovers : op.covers tag with
    | false =>
      rw [if_neg, if_neg Bool.false_ne_true]
      intro hmem
      rw [covers_of_mem_settledTags hmem] at hcovers
      cases hcovers
    | true =>
      rw [if_pos rfl, ite_eq_left_iff]
      intro hnotMem
      exact Finmap.lookup_eq_none.mpr fun hmem =>
        hnotMem (mem_settledTags_of_covers henabled hcovers hmem)
  · have hnone : b.arrivalsOf queueName op = [] := by
      cases op <;> first | rfl | exact absurd hsettles Bool.false_ne_true
    rw [waiting, hstep, foldl_nackOne_false_queues, hnone, List.append_nil]
    rfl

theorem handsOutNothing_publish (hsound : b.Sound) (message : AmqpMessage) :
    b.HandsOutNothing (.publish message) := by
  obtain ⟨queues, routed, hroute⟩ :=
    b.exists_routeMessage message message.exchange message.routingKey
  have hstep : b.step (.publish message) =
      b.routeMessage message message.exchange message.routingKey := by
    rw [step, publish, if_neg (not_not.mpr hsound.connected)]
  refine ⟨rfl, by rw [hstep, hroute], fun tag => by rw [hstep, hroute]; rfl, fun queueName => ?_⟩
  rw [waiting, hstep, routeMessage, waiting, arrivalsOf]
  cases hlookup : b.queues.lookup queueName with
  | none =>
    rw [lookup_foldl_pushCopy_of_none b message _ _ _ hlookup, if_neg (Finmap.lookup_eq_none.mp hlookup)]
    rfl
  | some queue =>
    obtain ⟨names, hlength, hafter⟩ := lookup_foldl_pushCopy b message message.exchange
      message.routingKey (b.targetQueues message.exchange message.routingKey) hlookup
    rw [hafter, if_pos (Finmap.mem_of_lookup_eq_some hlookup), Option.getD_some, Option.getD_some,
      List.map_append, List.map_map, ← hlength, ← List.map_const']
    rfl

theorem handsOutNothing_declareQueue (b : Broker) (name uuid : String) :
    b.HandsOutNothing (.declareQueue name uuid) := by
  obtain hstep | ⟨queueName, hfresh, hstep⟩ := b.step_declareQueue name uuid
  · exact .of_frame rfl (fun _ => rfl) (fun _ => rfl) (by rw [hstep]) (by rw [hstep]) (by rw [hstep])
  · refine ⟨rfl, by rw [hstep], fun tag => by rw [hstep]; rfl, fun other => ?_⟩
    have hnone : b.arrivalsOf other (.declareQueue name uuid) = [] := rfl
    rw [waiting, hstep, waiting, hnone, List.append_nil]
    dsimp only
    by_cases heq : other = queueName
    · subst heq
      rw [Finmap.lookup_insert, Finmap.lookup_eq_none.mpr hfresh]
      rfl
    · rw [Finmap.lookup_insert_of_ne _ heq]

/-- A step that requeues nothing hands out one message or none. -/
theorem handsOut_cases (hsound : b.Sound) (henabled : b.Enabled op) (hkeeps : op.requeues = false) :
    b.HandsOutNothing op ∨ ∃ d front rest info, b.HandsOut op d front rest info := by
  have hsettling : op.settles = true → b.HandsOutNothing op := by
    intro hsettles
    refine handsOutNothing_of_settles hsound henabled hsettles ?_
    rw [Op.requeues, hsettles, Bool.true_and, Bool.not_eq_false'] at hkeeps
    exact hkeeps
  have hquieting : quiet op = true → b.deliveryOf op = none → (∀ tag, op.covers tag = false) →
      (∀ queueName, b.arrivalsOf queueName op = []) → b.HandsOutNothing op := by
    intro hquiet hdelivery hcovers harrivals
    obtain ⟨exchanges, bindings, consumers, subscribed, hstep⟩ :=
      exists_step_of_quiet hsound.connected hquiet
    exact .of_frame hdelivery hcovers harrivals (by rw [hstep]) (by rw [hstep]) (by rw [hstep])
  cases op with
  | ack | nack | reject => exact .inl (hsettling rfl)
  | declareExchange | bindQueue | unbindQueue | consume | cancelConsume =>
    exact .inl (hquieting rfl rfl (fun _ => rfl) (fun _ => rfl))
  | declareQueue name uuid => exact .inl (b.handsOutNothing_declareQueue name uuid)
  | publish message => exact .inl (handsOutNothing_publish hsound message)
  | dispatchStart queueName =>
    refine handsOut_cases_of_dispatch (b.dispatchStart queueName) ?_ rfl rfl (fun _ => rfl)
      fun _ => rfl
    unfold dispatchStart
    cases b.consumers.lookup queueName with
    | none => exact .inl rfl
    | some info => exact .inr ⟨_, rfl⟩
  | dispatchNext =>
    refine handsOut_cases_of_dispatch b.dispatchNext ?_ rfl rfl (fun _ => rfl) fun _ => rfl
    unfold dispatchNext
    cases b.dispatching with
    | none => exact .inl rfl
    | some d => exact .inr ⟨d, rfl⟩

/-! ### Histories -/

theorem deliveries_concat (start : Broker) (ops : List Op) (op : Op) :
    deliveries start (ops ++ [op]) =
      deliveries start ops ++ ((run step start ops).deliveryOf op).toList :=
  outputs_concat _ ops op

theorem arrivals_concat (queueName : String) (start : Broker) (ops : List Op) (op : Op) :
    arrivals queueName start (ops ++ [op]) =
      arrivals queueName start ops ++ (run step start ops).arrivalsOf queueName op :=
  outputs_concat _ ops op

theorem deliveredUnsettled_concat {start : Broker} {ops : List Op} {tag : Int} :
    DeliveredUnsettled start (ops ++ [op]) tag ↔
      (∃ delivery, (run step start ops).deliveryOf op = some delivery ∧ delivery.deliveryTag = tag) ∨
        (DeliveredUnsettled start ops tag ∧ op.covers tag = false) := by
  constructor
  · rintro ⟨before, op', after, delivery, heq, hdelivery, htag, hlater⟩
    obtain rfl | ⟨after, last, rfl⟩ := List.eq_nil_or_concat' after
    · obtain ⟨rfl, hlast⟩ := List.append_inj' heq rfl
      obtain rfl := List.head_eq_of_cons_eq hlast
      exact .inl ⟨delivery, hdelivery, htag⟩
    · rw [← List.cons_append, ← List.append_assoc] at heq
      obtain ⟨rfl, hlast⟩ := List.append_inj' heq rfl
      obtain rfl := List.head_eq_of_cons_eq hlast
      refine .inr ⟨⟨before, op', after, delivery, rfl, hdelivery, htag, fun later hmem => ?_⟩, ?_⟩
      · exact hlater later (List.mem_append_left _ hmem)
      · exact hlater _ (List.mem_append_right _ (List.mem_singleton_self _))
  · rintro (⟨delivery, hdelivery, htag⟩ |
      ⟨⟨before, op', after, delivery, rfl, hdelivery, htag, hlater⟩, hcovers⟩)
    · exact ⟨ops, op, [], delivery, rfl, hdelivery, htag, fun _ hmem => absurd hmem List.not_mem_nil⟩
    · refine ⟨before, op', after ++ [op], delivery, ?_, hdelivery, htag, fun later hmem => ?_⟩
      · rw [List.append_assoc, List.cons_append]
      · obtain hmem | hmem := List.mem_append.mp hmem
        · exact hlater later hmem
        · rw [List.mem_singleton.mp hmem]
          exact hcovers

/-- What a history says of the state it ends in. -/
structure Accounted (ops : List Op) : Prop where
  sound : (run step initial ops).Sound
  increasing : ((deliveries initial ops).map (·.deliveryTag)).Pairwise (· < ·)
  lt_next : ∀ delivery ∈ deliveries initial ops,
    delivery.deliveryTag < (run step initial ops).nextDeliveryTag
  unacked : ∀ tag, tag ∈ (run step initial ops).unacked ↔ DeliveredUnsettled initial ops tag
  fifo : ∀ queueName, ((deliveries initial ops).filter (·.queue = queueName)).map (·.message) ++
    (run step initial ops).waiting queueName = arrivals queueName initial ops

variable {ops : List Op}

theorem Accounted.concat_nothing (haccounted : Accounted ops)
    (hstep : (run step initial ops).HandsOutNothing op) : Accounted (ops ++ [op]) := by
  have hsame : deliveries initial (ops ++ [op]) = deliveries initial ops := by
    rw [deliveries_concat, hstep.delivery]
    exact List.append_nil _
  refine ⟨?_, ?_, ?_, fun tag => ?_, fun queueName => ?_⟩
  · rw [run_concat]
    exact haccounted.sound.step op
  · rw [hsame]
    exact haccounted.increasing
  · rw [hsame, run_concat, hstep.tag]
    exact haccounted.lt_next
  · rw [run_concat, deliveredUnsettled_concat, ← haccounted.unacked, hstep.delivery,
      Finmap.mem_iff, Finmap.mem_iff, hstep.unacked]
    cases op.covers tag with
    | true => simp
    | false => simp
  · rw [hsame, run_concat, hstep.waiting, arrivals_concat, ← haccounted.fifo, List.append_assoc]

theorem Accounted.concat_handsOut (haccounted : Accounted ops) {d : Dispatching}
    {front : QueuedMessage} {rest : List QueuedMessage} {info : ConsumerInfo}
    (hstep : (run step initial ops).HandsOut op d front rest info) : Accounted (ops ++ [op]) := by
  set b := run step initial ops with hb
  have hmore : deliveries initial (ops ++ [op]) = deliveries initial ops ++ [b.handed d front] := by
    rw [deliveries_concat, ← hb, hstep.delivery]
    rfl
  have hrun : run step initial (ops ++ [op]) = b.deliver d front rest info := by
    rw [run_concat, ← hb, hstep.step]
  refine ⟨?_, ?_, ?_, fun tag => ?_, fun queueName => ?_⟩
  · rw [run_concat]
    exact haccounted.sound.step op
  · rw [hmore, List.map_append, List.pairwise_append]
    refine ⟨haccounted.increasing, List.pairwise_singleton _ _, ?_⟩
    simp only [List.mem_map, List.map_cons, List.map_nil, List.mem_singleton]
    rintro _ ⟨delivery, hmem, rfl⟩ _ rfl
    exact haccounted.lt_next delivery hmem
  · rw [hmore, hrun]
    intro delivery hmem
    change delivery.deliveryTag < b.nextDeliveryTag + 1
    obtain hmem | hmem := List.mem_append.mp hmem
    · have hlt := haccounted.lt_next delivery hmem
      rw [← hb] at hlt
      omega
    · rw [List.mem_singleton.mp hmem]
      exact Int.lt_succ b.nextDeliveryTag
  · rw [hrun, deliveredUnsettled_concat, ← haccounted.unacked, ← hb, hstep.delivery, hstep.covers,
      and_iff_left rfl]
    change tag ∈ b.unacked.insert b.nextDeliveryTag _ ↔ _
    rw [Finmap.mem_insert]
    refine or_congr_left ⟨?_, ?_⟩
    · rintro rfl
      exact ⟨_, rfl, rfl⟩
    · rintro ⟨delivery, hdelivery, rfl⟩
      rw [← Option.some.inj hdelivery]
      rfl
  · rw [hmore, hrun, arrivals_concat, ← hb, hstep.arrivals, List.append_nil, ← haccounted.fifo, ← hb,
      List.filter_append, List.map_append, List.append_assoc, List.append_cancel_left_eq, waiting, waiting]
    change _ ++ List.map _ (((b.queues.insert d.queue rest).lookup queueName).getD []) = _
    by_cases heq : d.queue = queueName
    · subst heq
      rw [Finmap.lookup_insert, hstep.queue]
      simp [handed]
    · rw [Finmap.lookup_insert_of_ne _ (Ne.symm heq)]
      simp [handed, heq]

theorem accounted_nil : Accounted [] where
  sound := sound_initial
  increasing := .nil
  lt_next _ hmem := absurd hmem List.not_mem_nil
  unacked tag := by
    refine iff_of_false (fun hmem => Finmap.notMem_empty hmem) ?_
    rintro ⟨before, op, after, delivery, heq, -⟩
    exact List.append_ne_nil_of_right_ne_nil before (List.cons_ne_nil op after) heq.symm
  fifo queueName := by
    rw [waiting, run_nil, initial, connect, Finmap.lookup_empty]
    rfl

/-! ### One acknowledgement for each tag -/

/-- The tag was handed out and is settled. -/
def Settled (b : Broker) (tag : Int) : Prop := tag ∉ b.unacked ∧ tag < b.nextDeliveryTag

theorem ack_eq_ok_iff (hsound : b.Sound) {tag : Int} {order : List Int} :
    (b.ack tag false order).1 = .ok () ↔ tag ∈ b.unacked := by
  rw [ack, if_neg (not_not.mpr hsound.connected), if_neg Bool.false_ne_true]
  by_cases hmem : tag ∈ b.unacked
  · rw [if_neg (not_not.mpr hmem)]
    exact iff_of_true rfl hmem
  · rw [if_pos hmem]
    exact iff_of_false (fun hok => by cases hok) hmem

theorem Settled.step {tag : Int} (hsettled : b.Settled tag) (hsound : b.Sound)
    (henabled : b.Enabled op) (hkeeps : op.requeues = false) : (b.step op).Settled tag := by
  obtain ⟨hnotMem, hlt⟩ := hsettled
  obtain hnothing | ⟨d, front, rest, info, hhands⟩ := handsOut_cases hsound henabled hkeeps
  · refine ⟨Finmap.lookup_eq_none.mp ?_, by rw [hnothing.tag]; exact hlt⟩
    rw [hnothing.unacked, Finmap.lookup_eq_none.mpr hnotMem, ite_self]
  · rw [hhands.step]
    refine ⟨fun hmem => ?_, Int.lt_add_one_of_le hlt.le⟩
    obtain heq | hmem := Finmap.mem_insert.mp hmem
    · exact hlt.ne heq
    · exact hnotMem hmem

theorem settled_ack (hsound : b.Sound) {tag : Int} {order : List Int}
    (hok : (b.ack tag false order).1 = .ok ()) : (b.step (.ack tag false order)).Settled tag := by
  have hmem := (ack_eq_ok_iff hsound).mp hok
  obtain ⟨entry, hlookup⟩ := Finmap.mem_iff.mp hmem
  have hnothing : b.HandsOutNothing (.ack tag false order) :=
    handsOutNothing_of_settles hsound (fun hmultiple => absurd hmultiple Bool.false_ne_true) rfl rfl
  refine ⟨Finmap.lookup_eq_none.mp ?_, ?_⟩
  · have hcovers : (Op.ack tag false order).covers tag = true := decide_eq_true rfl
    rw [hnothing.unacked, if_pos hcovers]
  · rw [hnothing.tag]
    exact hsound.tag_lt tag entry hlookup

/-- What may happen in a run without requeueing. -/
def Forward (b : Broker) (op : Op) : Prop := b.Enabled op ∧ op.requeues = false

theorem accounted {ops : List Op} (hrun : Along Broker.step Forward initial ops) : Accounted ops := by
  refine hrun.history accounted_nil fun ops op haccounted _ hforward => ?_
  obtain hnothing | ⟨d, front, rest, info, hhands⟩ :=
    handsOut_cases haccounted.sound hforward.1 hforward.2
  · exact haccounted.concat_nothing hnothing
  · exact haccounted.concat_handsOut hhands

theorem ack_once {before mid after : List Op} {tag : Int} {order order' : List Int}
    (hrun : Along Broker.step Forward initial
      (before ++ .ack tag false order :: (mid ++ .ack tag false order' :: after)))
    (hok : ((run Broker.step initial before).ack tag false order).1 = .ok ()) :
    ((run Broker.step initial (before ++ .ack tag false order :: mid)).ack tag false order').1 ≠ .ok () := by
  obtain ⟨hbefore, hrest⟩ := (along_append before _).mp hrun
  obtain ⟨-, hmid⟩ := hrest
  obtain ⟨hmid, -⟩ := (along_append mid _).mp hmid
  have hsound := (accounted hbefore).sound
  have hend := hmid.induction (P := fun b : Broker => b.Sound ∧ b.Settled tag)
    ⟨hsound.step _, settled_ack hsound hok⟩
    fun b op hb hforward => ⟨hb.1.step op, hb.2.step hb.1 hforward.1 hforward.2⟩
  rw [run_append, run_cons, Ne, ack_eq_ok_iff hend.1]
  exact hend.2.1

/-- **Delivery order.** In every run without requeueing the tags of the deliveries increase, the map
`m_unacked` holds exactly the tags delivered and not settled since, of two acknowledgements of one tag
the second fails if the first succeeded, and what was delivered of a queue, followed by what waits in
it, is what was routed to it, in that order. -/
theorem deliveries_in_order {ops : List Op} (hrun : Along Broker.step Forward initial ops) :
    ((deliveries initial ops).map (·.deliveryTag)).Pairwise (· < ·) ∧
    (∀ tag, tag ∈ (run Broker.step initial ops).unacked ↔ DeliveredUnsettled initial ops tag) ∧
    (∀ before mid after tag order order',
      ops = before ++ .ack tag false order :: (mid ++ .ack tag false order' :: after) →
      ((run Broker.step initial before).ack tag false order).1 = .ok () →
      ((run Broker.step initial (before ++ .ack tag false order :: mid)).ack tag false order').1
        ≠ .ok ()) ∧
    (∀ queueName, ((deliveries initial ops).filter (·.queue = queueName)).map (·.message) ++
      (run Broker.step initial ops).waiting queueName = arrivals queueName initial ops) := by
  have haccounted := accounted hrun
  refine ⟨haccounted.increasing, haccounted.unacked, ?_, haccounted.fifo⟩
  rintro before mid after tag order order' rfl hok
  exact ack_once hrun hok

theorem deliveries_in_order_deliveredRun :
    (deliveries initial deliveredRun).map (·.message) ++
        (run Broker.step initial deliveredRun).waiting "q" =
      [{ exchange := "ex", routingKey := "key" }] := by
  have hrun : Along Broker.step Forward initial deliveredRun :=
    ⟨⟨trivial, rfl⟩, ⟨trivial, rfl⟩, ⟨trivial, rfl⟩, ⟨trivial, rfl⟩, ⟨trivial, rfl⟩, ⟨rfl, rfl⟩, trivial⟩
  exact (deliveries_in_order hrun).2.2.2 "q"

end Broker

end SoulCoreKit.Mq
