import SoulCoreKit.Proof.BrokerStep

/-!
# Message conservation

A copy pushed onto a queue is counted: once for each position of the queue that holds it, once for
each outstanding entry that carries it, and once for each step that discarded it. No step changes
the sum of the three counts, except that pushing a copy raises it by one for the new copy. A copy's
name is its place in the log, so the sum is one for a copy and the queue it was routed to, and zero
for every other queue.
-/

namespace SoulCoreKit.Mq.Broker

open UnorderedMap

/-- How often the copy stands in the queue. -/
def queueCount (b : Broker) (queue : String) (copy : Nat) : Nat :=
  (((b.queues.lookup queue).getD []).map (·.copy)).count copy

def carries (queue : String) (copy : Nat) (_tag : Int) (entry : UnackedMessage) : Nat :=
  if entry.queue = queue ∧ entry.msg.copy = copy then 1 else 0

/-- How many outstanding entries carry the copy for the queue. -/
def outstandingCount (b : Broker) (queue : String) (copy : Nat) : Nat :=
  total (carries queue copy) b.unacked

/-- One if the log says the copy was pushed onto the queue. -/
def routedCount (b : Broker) (queue : String) (copy : Nat) : Nat :=
  if b.routed[copy]? = some queue then 1 else 0

/-- How many outstanding entries for the queue the step discards with this copy. -/
def discardedCount (b : Broker) (op : Op) (queue : String) (copy : Nat) : Nat :=
  total (fun tag entry => if op.discards ∧ op.covers tag then carries queue copy tag entry else 0)
    b.unacked

/-- The copy was outstanding under a tag that an `ack`, or a `nack` or `reject` without requeueing,
covered. -/
def Finished (start : Broker) (ops : List Op) (queue : String) (copy : Nat) : Prop :=
  ∃ before op after tag entry, ops = before ++ op :: after ∧ op.discards = true ∧
    op.covers tag = true ∧ (run step start before).unacked.lookup tag = some entry ∧
    entry.queue = queue ∧ entry.msg.copy = copy

variable {b : Broker} (queue : String) (copy : Nat)

/-! ### One update at a time -/

theorem queueCount_insert (queueName : String) (messages : List QueuedMessage) :
    queueCount { b with queues := b.queues.insert queueName messages } queue copy =
      if queue = queueName then (messages.map (·.copy)).count copy else queueCount b queue copy := by
  by_cases heq : queue = queueName
  · subst heq
    simp [queueCount]
  · simp [queueCount, heq, Finmap.lookup_insert_of_ne _ heq]

/-- Counted over queues, outstanding entries and discards, the update adds the copies it routes and
loses none. -/
def Conserves (b b' : Broker) (discarded : Nat) (queue : String) (copy : Nat) : Prop :=
  queueCount b' queue copy + outstandingCount b' queue copy + discarded +
      routedCount b queue copy =
    queueCount b queue copy + outstandingCount b queue copy + routedCount b' queue copy

theorem pushCopy_conserves (message : AmqpMessage) (exchange routingKey queueName : String) :
    Conserves b (b.pushCopy message exchange routingKey queueName) 0 queue copy := by
  unfold pushCopy
  cases hlookup : b.queues.lookup queueName with
  | none => exact rfl
  | some messages =>
      set pushed : QueuedMessage := { message, exchange, routingKey, copy := b.routed.length }
        with hpushed
      have hqueue : queueCount { b with queues := b.queues.insert queueName (messages ++ [pushed]) }
          queue copy = queueCount b queue copy +
            if queue = queueName ∧ copy = b.routed.length then 1 else 0 := by
        rw [queueCount_insert]
        by_cases heq : queue = queueName
        · subst heq
          by_cases hcopy : copy = b.routed.length
          · simp [queueCount, hlookup, hcopy, hpushed]
          · simp [queueCount, hlookup, hcopy, hpushed, Ne.symm hcopy]
        · simp [heq]
      have hrouted : (if (b.routed ++ [queueName])[copy]? = some queue then 1 else 0) =
          routedCount b queue copy +
            if queue = queueName ∧ copy = b.routed.length then 1 else 0 := by
        unfold routedCount
        rcases lt_trichotomy copy b.routed.length with hlt | heq | hgt
        · rw [List.getElem?_append_left hlt]
          simp [hlt.ne]
        · subst heq
          simp [eq_comm]
        · rw [List.getElem?_eq_none (by simp; omega), List.getElem?_eq_none (by omega)]
          simp [hgt.ne']
      change queueCount { b with queues := b.queues.insert queueName (messages ++ [pushed]) }
            queue copy + outstandingCount b queue copy + 0 + routedCount b queue copy =
        queueCount b queue copy + outstandingCount b queue copy +
          if (b.routed ++ [queueName])[copy]? = some queue then 1 else 0
      omega

theorem routeMessage_conserves (message : AmqpMessage) (exchange routingKey : String) :
    Conserves b (b.routeMessage message exchange routingKey) 0 queue copy := by
  unfold routeMessage
  generalize b.targetQueues exchange routingKey = targets
  induction targets generalizing b with
  | nil => exact rfl
  | cons queueName targets ih =>
      have hfirst := @pushCopy_conserves b queue copy message exchange routingKey queueName
      have hrest := @ih (b.pushCopy message exchange routingKey queueName)
      rw [List.foldl_cons]
      unfold Conserves at hfirst hrest ⊢
      omega

/-- Requeueing moves a copy from the outstanding entries to its own queue. -/
theorem nackOne_true_count (hsound : b.Sound) (tag : Int) :
    queueCount (b.nackOne true tag) queue copy + outstandingCount (b.nackOne true tag) queue copy =
      queueCount b queue copy + outstandingCount b queue copy := by
  cases hlookup : b.unacked.lookup tag with
  | none => rw [nackOne_of_lookup_none true hlookup]
  | some entry =>
      obtain ⟨messages, hmessages⟩ := Finmap.mem_iff.mp (hsound.queue_mem tag entry hlookup)
      have hout : outstandingCount (b.nackOne true tag) queue copy +
          carries queue copy tag entry = outstandingCount b queue copy := by
        unfold outstandingCount
        rw [nackOne_unacked, ← weightAt_of_lookup (carries queue copy) hlookup]
        exact total_erase _ _ _
      have hqueue : queueCount (b.nackOne true tag) queue copy =
          queueCount b queue copy + carries queue copy tag entry := by
        unfold queueCount carries
        rw [nackOne_true_queues hlookup hmessages]
        by_cases heq : queue = entry.queue
        · subst heq
          by_cases hcopy : entry.msg.copy = copy
          · simp [hmessages, hcopy]
          · simp [hmessages, hcopy]
        · simp [Finmap.lookup_insert_of_ne _ heq, Ne.symm heq]
      omega

theorem foldl_nackOne_true_count (hsound : b.Sound) (tags : List Int) :
    queueCount (tags.foldl (nackOne true) b) queue copy +
        outstandingCount (tags.foldl (nackOne true) b) queue copy =
      queueCount b queue copy + outstandingCount b queue copy := by
  induction tags generalizing b with
  | nil => rfl
  | cons tag tags ih =>
      rw [List.foldl_cons, ih (hsound.nackOne true tag)]
      exact nackOne_true_count queue copy hsound tag

theorem foldl_nackOne_false_queueCount (tags : List Int) :
    queueCount (tags.foldl (nackOne false) b) queue copy = queueCount b queue copy := by
  unfold queueCount
  rw [foldl_nackOne_false_queues]

theorem dispatchOne_conserves (hsound : b.Sound) (d : Dispatching) :
    Conserves b (b.dispatchOne d).2 0 queue copy := by
  unfold Conserves
  have hrouted : routedCount (b.dispatchOne d).2 queue copy = routedCount b queue copy := by
    unfold routedCount
    rw [dispatchOne_routed]
  rw [hrouted]
  rcases b.dispatchOne_cases d with ⟨heq, -⟩ | ⟨front, rest, info, hqueue, -, -, heq⟩
  · rw [heq]
    rfl
  · rw [heq]
    have hout : outstandingCount (b.deliver d front rest info) queue copy =
        (if d.queue = queue ∧ front.copy = copy then 1 else 0) + outstandingCount b queue copy :=
      total_insert_of_notMem (carries queue copy) hsound.notMem_unacked
    have hleft : queueCount b queue copy = queueCount (b.deliver d front rest info) queue copy +
        if d.queue = queue ∧ front.copy = copy then 1 else 0 := by
      unfold queueCount deliver
      by_cases hsame : queue = d.queue
      · subst hsame
        by_cases hcopy : front.copy = copy
        · simp [hqueue, hcopy]
        · simp [hqueue, hcopy]
      · simp [Finmap.lookup_insert_of_ne _ hsame, Ne.symm hsame]
    omega

theorem settle_conserves (hsound : b.Sound) {op : Op} (henabled : b.Enabled op)
    (hsettles : op.settles = true) :
    Conserves b (b.step op) (discardedCount b op queue copy) queue copy := by
  rw [step_of_settles hsound.connected hsettles]
  have hrouted : routedCount ((b.settledTags op).foldl (nackOne (!op.discards)) b) queue copy =
      routedCount b queue copy := by
    unfold routedCount
    rw [foldl_nackOne_routed]
  unfold Conserves
  rw [hrouted]
  cases hdiscards : op.discards with
  | false =>
      have hnone : discardedCount b op queue copy = 0 := by
        apply total_eq_zero
        intro tag entry _
        simp [hdiscards]
      have hcount := foldl_nackOne_true_count queue copy hsound (b.settledTags op)
      simp only [Bool.not_false]
      omega
  | true =>
      have hqueue := @foldl_nackOne_false_queueCount b queue copy (b.settledTags op)
      have hout : outstandingCount ((b.settledTags op).foldl (nackOne false) b) queue copy +
          discardedCount b op queue copy = outstandingCount b queue copy := by
        have htotal := foldl_nackOne_total (carries queue copy) false b
          (nodup_settledTags henabled)
        rw [sum_weightAt_settledTags _ henabled] at htotal
        unfold outstandingCount discardedCount
        simpa [hdiscards] using htotal
      simp only [Bool.not_true]
      omega

/-! ### One step and whole runs -/

theorem discardedCount_of_not_settles {op : Op} (hsettles : op.settles = false) :
    discardedCount b op queue copy = 0 := by
  apply total_eq_zero
  intro tag entry _
  cases op <;> simp_all [Op.settles, Op.discards]

theorem step_conserves (hsound : b.Sound) {op : Op} (henabled : b.Enabled op) :
    Conserves b (b.step op) (discardedCount b op queue copy) queue copy := by
  cases hsettles : op.settles with
  | true => exact settle_conserves queue copy hsound henabled hsettles
  | false =>
      rw [discardedCount_of_not_settles queue copy hsettles]
      cases hquiet : quiet op with
      | true =>
          obtain ⟨exchanges, bindings, consumers, subscribed, heq⟩ :=
            exists_step_of_quiet hsound.connected hquiet
          rw [heq]
          exact rfl
      | false =>
          cases op with
          | declareQueue name uuid =>
              rcases b.step_declareQueue name uuid with heq | ⟨queueName, hfresh, heq⟩
              · rw [heq]
                exact rfl
              · rw [heq]
                have hnone := Finmap.lookup_eq_none.mpr hfresh
                have hqueue : queueCount { b with queues := b.queues.insert queueName [] }
                    queue copy = queueCount b queue copy := by
                  rw [queueCount_insert]
                  by_cases hsame : queue = queueName
                  · subst hsame
                    simp [queueCount, hnone]
                  · simp [hsame]
                unfold Conserves
                rw [hqueue]
                rfl
          | publish message =>
              simp only [step, publish, hsound.connected, not_true, if_false]
              exact routeMessage_conserves queue copy message _ _
          | dispatchStart queueName =>
              simp only [step, dispatchStart]
              split
              · exact rfl
              · exact dispatchOne_conserves queue copy hsound _
          | dispatchNext =>
              simp only [step, dispatchNext]
              split
              · exact rfl
              · exact dispatchOne_conserves queue copy hsound _
          | _ => simp_all [quiet, routing, Op.settles]

/-- How often the steps of a run discard the copy. -/
def discardedTotal (queue : String) (copy : Nat) : Broker → List Op → Nat
  | _, [] => 0
  | b, op :: ops => discardedCount b op queue copy + discardedTotal queue copy (b.step op) ops

theorem discardedTotal_cons (op : Op) (ops : List Op) :
    discardedTotal queue copy b (op :: ops) =
      discardedCount b op queue copy + discardedTotal queue copy (b.step op) ops := rfl

theorem run_conserves (hsound : b.Sound) {ops : List Op} (hrun : Along step Enabled b ops) :
    Conserves b (run step b ops) (discardedTotal queue copy b ops) queue copy := by
  induction ops generalizing b with
  | nil => exact rfl
  | cons op ops ih =>
      have hfirst := step_conserves queue copy hsound hrun.1
      have hrest := ih (hsound.step op) hrun.2
      rw [run_cons, discardedTotal_cons]
      unfold Conserves at *
      omega

theorem discardedCount_pos_iff {op : Op} :
    0 < discardedCount b op queue copy ↔ ∃ tag entry, op.discards = true ∧ op.covers tag = true ∧
      b.unacked.lookup tag = some entry ∧ entry.queue = queue ∧ entry.msg.copy = copy := by
  constructor
  · intro hpos
    by_contra hnone
    push Not at hnone
    refine hpos.ne' (total_eq_zero ?_)
    intro tag entry hlookup
    by_cases hsettled : op.discards = true ∧ op.covers tag = true
    · have hne := hnone tag entry hsettled.1 hsettled.2 hlookup
      rw [if_pos hsettled]
      exact if_neg fun hcarries => hne hcarries.1 hcarries.2
    · rw [if_neg hsettled]
  · rintro ⟨tag, entry, hdiscards, hcovers, hlookup, hqueue, hcopy⟩
    unfold discardedCount
    rw [total_eq_add_erase _ hlookup, if_pos ⟨hdiscards, hcovers⟩]
    have hone : carries queue copy tag entry = 1 := if_pos ⟨hqueue, hcopy⟩
    omega

theorem discardedTotal_pos_iff {ops : List Op} :
    0 < discardedTotal queue copy b ops ↔ Finished b ops queue copy := by
  induction ops generalizing b with
  | nil => simp [discardedTotal, Finished]
  | cons op ops ih =>
      have hsplit : 0 < discardedTotal queue copy b (op :: ops) ↔
          0 < discardedCount b op queue copy ∨ 0 < discardedTotal queue copy (b.step op) ops := by
        rw [discardedTotal_cons]
        omega
      rw [hsplit, ih, discardedCount_pos_iff]
      constructor
      · rintro (⟨tag, entry, hdiscards, hcovers, hlookup, hqueue, hcopy⟩ |
          ⟨before, op', after, tag, entry, rfl, hrest⟩)
        · exact ⟨[], op, ops, tag, entry, rfl, hdiscards, hcovers, hlookup, hqueue, hcopy⟩
        · exact ⟨op :: before, op', after, tag, entry, rfl, hrest⟩
      · rintro ⟨before, op', after, tag, entry, heq, hrest⟩
        cases before with
        | nil =>
            obtain ⟨rfl, rfl⟩ := List.cons.inj heq
            exact Or.inl ⟨tag, entry, hrest⟩
        | cons first before =>
            obtain ⟨rfl, rfl⟩ := List.cons.inj heq
            exact Or.inr ⟨before, op', after, tag, entry, rfl, hrest⟩

/-! ### Steps that cover nothing outstanding -/

theorem foldl_nackOne_of_absent (requeue : Bool) {tags : List Int}
    (habsent : ∀ tag ∈ tags, tag ∉ b.unacked) : tags.foldl (nackOne requeue) b = b := by
  induction tags with
  | nil => rfl
  | cons tag tags ih =>
      have hnone := Finmap.lookup_eq_none.mpr (habsent tag List.mem_cons_self)
      rw [List.foldl_cons, nackOne_of_lookup_none requeue hnone]
      exact ih fun other hother => habsent other (List.mem_cons_of_mem _ hother)

theorem step_of_covers_absent (hsound : b.Sound) {op : Op} (hsettles : op.settles = true)
    (habsent : ∀ tag, op.covers tag = true → tag ∉ b.unacked) : b.step op = b := by
  rw [step_of_settles hsound.connected hsettles]
  exact foldl_nackOne_of_absent _ fun tag hmem => habsent tag (covers_of_mem_settledTags hmem)

theorem lookup_step_of_not_covers (hsound : b.Sound) {op : Op} (hsettles : op.settles = true)
    {tag : Int} (hcovers : op.covers tag = false) :
    (b.step op).unacked.lookup tag = b.unacked.lookup tag := by
  rw [step_of_settles hsound.connected hsettles, foldl_nackOne_lookup, if_neg]
  intro hmem
  rw [covers_of_mem_settledTags hmem] at hcovers
  exact absurd hcovers (by decide)

/-- **Conservation.** After any run, a copy that was routed to a queue is in exactly one place: one
position of that queue, one outstanding entry for that queue, or discarded by a step that covered
its tag; it is nowhere for another queue, and nothing else is anywhere. A settling step that covers
no outstanding tag changes nothing, and no settling step moves an entry it does not cover. -/
theorem copies_conserved {ops : List Op} (hrun : Along step Enabled initial ops) :
    (∀ queue copy,
      if (run step initial ops).routed[copy]? = some queue then
        (queueCount (run step initial ops) queue copy = 1 ∧
          outstandingCount (run step initial ops) queue copy = 0 ∧
          ¬ Finished initial ops queue copy) ∨
        (queueCount (run step initial ops) queue copy = 0 ∧
          outstandingCount (run step initial ops) queue copy = 1 ∧
          ¬ Finished initial ops queue copy) ∨
        (queueCount (run step initial ops) queue copy = 0 ∧
          outstandingCount (run step initial ops) queue copy = 0 ∧
          Finished initial ops queue copy)
      else
        queueCount (run step initial ops) queue copy = 0 ∧
          outstandingCount (run step initial ops) queue copy = 0 ∧
          ¬ Finished initial ops queue copy) ∧
    (∀ op : Op, op.settles = true →
      (∀ tag, op.covers tag = true → tag ∉ (run step initial ops).unacked) →
      (run step initial ops).step op = run step initial ops) ∧
    (∀ (op : Op) (tag : Int), op.settles = true → op.covers tag = false →
      ((run step initial ops).step op).unacked.lookup tag =
        (run step initial ops).unacked.lookup tag) := by
  have hsound : (run step initial ops).Sound :=
    hrun.induction sound_initial fun _ op hstate _ => hstate.step op
  refine ⟨?_, fun op => step_of_covers_absent hsound, fun op tag hsettles hcovers =>
    lookup_step_of_not_covers hsound hsettles hcovers⟩
  intro queue copy
  have hcount := run_conserves queue copy sound_initial hrun
  have hstart : queueCount initial queue copy = 0 ∧ outstandingCount initial queue copy = 0 ∧
      routedCount initial queue copy = 0 := by
    simp [queueCount, outstandingCount, routedCount, initial, connect]
  have hfinished := @discardedTotal_pos_iff initial queue copy ops
  unfold Conserves at hcount
  rw [hstart.1, hstart.2.1, hstart.2.2] at hcount
  split
  · rename_i hrouted
    have hone : routedCount (run step initial ops) queue copy = 1 := if_pos hrouted
    rw [← hfinished]
    omega
  · rename_i hrouted
    have hzero : routedCount (run step initial ops) queue copy = 0 := if_neg hrouted
    rw [← hfinished]
    omega

/-- One message is published to a bound queue and delivered to its consumer under tag 1. -/
def deliveredRun : List Op :=
  [.declareExchange "ex" .direct true false, .declareQueue "q" "", .bindQueue "q" "ex" "key",
    .publish { exchange := "ex", routingKey := "key" }, .consume "q" (some 0) 1,
    .dispatchStart "q"]

theorem along_deliveredRun : Along step Enabled initial deliveredRun :=
  ⟨trivial, trivial, trivial, trivial, trivial, rfl, trivial⟩

theorem along_deliveredRun_ack (deliveryTag : Int) :
    Along step Enabled initial (deliveredRun ++ [.ack deliveryTag true [1]]) := by
  rw [along_concat]
  exact ⟨along_deliveredRun, fun _ => by decide⟩

theorem copies_conserved_deliveredRun_ack :
    queueCount (run step initial (deliveredRun ++ [.ack 1 true [1]])) "q" 0 = 0 ∧
      outstandingCount (run step initial (deliveredRun ++ [.ack 1 true [1]])) "q" 0 = 0 ∧
      Finished initial (deliveredRun ++ [.ack 1 true [1]]) "q" 0 := by
  have hconserved := (copies_conserved (along_deliveredRun_ack 1)).1 "q" 0
  rw [if_pos (by decide)] at hconserved
  rcases hconserved with ⟨hqueue, -, -⟩ | ⟨-, hout, -⟩ | hfinished
  · exact absurd hqueue (by decide)
  · exact absurd hout (by decide)
  · exact hfinished

/-- A multiple acknowledgement of tag 2, which is not outstanding, discards the copy under tag 1. -/
theorem ack_multiple_of_absent_tag :
    ¬ ∀ (ops : List Op) (tag : Int) (multiple : Bool) (order : List Int),
      Along step Enabled initial (ops ++ [.ack tag multiple order]) →
      tag ∉ (run step initial ops).unacked →
      ∀ queue copy, outstandingCount (run step initial (ops ++ [.ack tag multiple order])) queue copy
        = outstandingCount (run step initial ops) queue copy := by
  intro hclaim
  have hsame := hclaim deliveredRun 2 true [1] (along_deliveredRun_ack 2) (by decide) "q" 0
  exact absurd hsame (by decide)

end SoulCoreKit.Mq.Broker
