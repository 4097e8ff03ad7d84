import Mathlib.Data.List.Forall2
import SoulCoreKit.Proof.Conservation

/-!
# The order of requeued messages

A multiple `nack` collects the tags it covers in the order in which `m_unacked` visits them and pushes
their messages onto the fronts of the queues, one after the other. So the messages of one queue stand
there in the reverse of that order, and the order of their deliveries comes back exactly if the map
visits them from the latest delivery to the earliest. Nothing makes it do so.

That the messages of a queue can be told apart is what the argument needs of the reachable states: a
copy is outstanding under one tag at most.
-/

namespace SoulCoreKit.Mq.Broker

open UnorderedMap

/-- An outstanding tag of the queue that a multiple refusal up to `deliveryTag` covers. -/
def covered (b : Broker) (deliveryTag : Int) (queueName : String) (tag : Int) : Bool :=
  tag ≤ deliveryTag && (b.unacked.lookup tag).any (·.queue = queueName)

/-- The message outstanding under the tag, with whatever tag it has now. -/
def Requeues (b : Broker) (queueName : String) (tag : Int) (qmsg : QueuedMessage) : Prop :=
  ∃ entry fresh, b.unacked.lookup tag = some entry ∧ entry.queue = queueName ∧
    qmsg = { entry.msg with deliveryTag := fresh }

/-- In each queue the covered messages stand before those that waited, in the order of their tags. -/
def RequeuesInOrder (b : Broker) (deliveryTag : Int) (after : Broker) : Prop :=
  ∀ queueName queue, b.queues.lookup queueName = some queue →
    ∃ tags front, tags.Pairwise (· < ·) ∧
      (∀ tag, tag ∈ tags ↔ b.covered deliveryTag queueName tag = true) ∧
      List.Forall₂ (b.Requeues queueName) tags front ∧
      after.queues.lookup queueName = some (front ++ queue)

/-- The map visits the covered tags of each queue from the latest to the earliest. -/
def VisitsLatestFirst (b : Broker) (deliveryTag : Int) (order : List Int) : Prop :=
  ∀ queueName, (order.filter (b.covered deliveryTag queueName)).Pairwise (· > ·)

/-- No queue has two covered tags. -/
def CoversOneEach (b : Broker) (deliveryTag : Int) : Prop :=
  ∀ queueName tag tag', b.covered deliveryTag queueName tag = true →
    b.covered deliveryTag queueName tag' = true → tag = tag'

variable {b : Broker} {queueName : String}

theorem covered_iff {deliveryTag tag : Int} :
    b.covered deliveryTag queueName tag = true ↔ tag ≤ deliveryTag ∧
      ∃ entry, b.unacked.lookup tag = some entry ∧ entry.queue = queueName := by
  simp [covered, Option.any_eq_true]

theorem mem_order_of_covered {order : List Int} (henum : Enumerates order b.unacked)
    {deliveryTag tag : Int} (hcovered : b.covered deliveryTag queueName tag = true) : tag ∈ order := by
  obtain ⟨-, entry, hlookup, -⟩ := covered_iff.mp hcovered
  rw [← List.mem_toFinset, henum.2, Finmap.mem_keys]
  exact Finmap.mem_of_lookup_eq_some hlookup

/-! ### What the loop leaves in a queue -/

/-- The messages of the queue that were worked through stand at its front, the last one first. -/
theorem lookup_foldl_nackOne_true (hsound : b.Sound) {queue : List QueuedMessage}
    (hqueue : b.queues.lookup queueName = some queue) {visited : List Int} (hnodup : visited.Nodup) :
    ∃ front, List.Forall₂ (b.Requeues queueName)
        (visited.filter fun tag => (b.unacked.lookup tag).any (·.queue = queueName)).reverse front ∧
      (visited.foldl (nackOne true) b).queues.lookup queueName = some (front ++ queue) := by
  induction visited using List.reverseRecOn with
  | nil => exact ⟨[], .nil, hqueue⟩
  | append_singleton visited tag ih =>
    obtain ⟨hvisited, -, hapart⟩ := List.nodup_append.mp hnodup
    obtain ⟨front, hfront, hafter⟩ := ih hvisited
    have hsame : (visited.foldl (nackOne true) b).unacked.lookup tag = b.unacked.lookup tag := by
      rw [foldl_nackOne_lookup, if_neg]
      exact fun hmem => hapart tag hmem tag (List.mem_singleton_self tag) rfl
    rw [List.foldl_append, List.filter_append, List.reverse_append, List.foldl_cons, List.foldl_nil]
    cases hlookup : b.unacked.lookup tag with
    | none =>
      refine ⟨front, ?_, ?_⟩
      · simpa [hlookup] using hfront
      · rw [nackOne_of_lookup_none true (hsame.trans hlookup)]
        exact hafter
    | some entry =>
      have hentry := hsame.trans hlookup
      obtain ⟨messages, hmessages⟩ := Finmap.mem_iff.mp
        ((hsound.foldl_nackOne true visited).queue_mem tag entry hentry)
      rw [nackOne_true_queues hentry hmessages]
      by_cases heq : entry.queue = queueName
      · subst heq
        rw [hafter, Option.some.injEq] at hmessages
        subst hmessages
        refine ⟨_ :: front, ?_, Finmap.lookup_insert _⟩
        have htag : [tag].filter (fun tag => (b.unacked.lookup tag).any (·.queue = entry.queue)) =
            [tag] := by simp [hlookup]
        rw [htag]
        exact .cons ⟨entry, _, hlookup, rfl, rfl⟩ hfront
      · refine ⟨front, ?_, ?_⟩
        · simpa [hlookup, heq] using hfront
        · rw [Finmap.lookup_insert_of_ne _ (Ne.symm heq)]
          exact hafter

theorem lookup_nack_multiple (hsound : b.Sound) {queue : List QueuedMessage}
    (hqueue : b.queues.lookup queueName = some queue) {order : List Int} (hnodup : order.Nodup)
    (deliveryTag : Int) :
    ∃ front, List.Forall₂ (b.Requeues queueName)
        (order.filter (b.covered deliveryTag queueName)).reverse front ∧
      (b.nack deliveryTag true true order).2.queues.lookup queueName = some (front ++ queue) := by
  obtain ⟨front, hfront, hafter⟩ :=
    lookup_foldl_nackOne_true hsound hqueue (hnodup.filter (· ≤ deliveryTag))
  have hcovered : (order.filter (· ≤ deliveryTag)).filter
      (fun tag => (b.unacked.lookup tag).any (·.queue = queueName)) =
        order.filter (b.covered deliveryTag queueName) := by
    rw [List.filter_filter]
    exact List.filter_congr fun tag _ => Bool.and_comm _ _
  refine ⟨front, hcovered ▸ hfront, ?_⟩
  rw [nack, if_neg (not_not.mpr hsound.connected), if_pos rfl]
  exact hafter

/-! ### One tag for each copy -/

theorem outstandingCount_le_one {ops : List Op} (hrun : Along step Enabled initial ops) (copy : Nat) :
    outstandingCount (run step initial ops) queueName copy ≤ 1 := by
  have hcount := run_conserves queueName copy sound_initial hrun
  have hstart : queueCount initial queueName copy = 0 ∧ outstandingCount initial queueName copy = 0 ∧
      routedCount initial queueName copy = 0 := by
    simp [queueCount, outstandingCount, routedCount, initial, connect]
  have hrouted : routedCount (run step initial ops) queueName copy ≤ 1 := by
    unfold routedCount
    split <;> omega
  unfold Conserves at hcount
  omega

theorem leftUnique_requeues (hone : ∀ copy, outstandingCount b queueName copy ≤ 1) :
    Relator.LeftUnique (b.Requeues queueName) := by
  rintro tag tag' qmsg ⟨entry, fresh, hlookup, hqueue, rfl⟩ ⟨entry', fresh', hlookup', hqueue', hsame⟩
  by_contra hne
  have hcopy : entry'.msg.copy = entry.msg.copy := (congrArg QueuedMessage.copy hsame).symm
  have hlookupErased : (b.unacked.erase tag).lookup tag' = some entry' := by
    rw [Finmap.lookup_erase_ne (Ne.symm hne), hlookup']
  have hcount := hone entry.msg.copy
  unfold outstandingCount at hcount
  rw [total_eq_add_erase _ hlookup, total_eq_add_erase _ hlookupErased, carries, carries,
    if_pos ⟨hqueue, rfl⟩, if_pos ⟨hqueue', hcopy⟩] at hcount
  omega

/-! ### When the order comes back -/

theorem requeuesInOrder_iff (hsound : b.Sound)
    (hone : ∀ queueName copy, outstandingCount b queueName copy ≤ 1) {order : List Int}
    (henum : Enumerates order b.unacked) (deliveryTag : Int) :
    b.RequeuesInOrder deliveryTag (b.nack deliveryTag true true order).2 ↔
      b.VisitsLatestFirst deliveryTag order := by
  constructor
  · intro hordered queueName
    by_cases hmem : queueName ∈ b.queues
    · obtain ⟨queue, hqueue⟩ := Finmap.mem_iff.mp hmem
      obtain ⟨front, hfront, hafter⟩ := lookup_nack_multiple hsound hqueue henum.1 deliveryTag
      obtain ⟨tags, front', hsorted, -, hfront', hafter'⟩ := hordered queueName queue hqueue
      rw [hafter, Option.some.injEq, List.append_cancel_right_eq] at hafter'
      subst hafter'
      have htags := List.left_unique_forall₂' (leftUnique_requeues (hone queueName)) hfront hfront'
      rw [← htags, List.pairwise_reverse] at hsorted
      exact hsorted
    · have hnone : order.filter (b.covered deliveryTag queueName) = [] := by
        refine List.filter_eq_nil_iff.mpr fun tag _ hcovered => ?_
        obtain ⟨-, entry, hlookup, rfl⟩ := covered_iff.mp hcovered
        exact hmem (hsound.queue_mem tag entry hlookup)
      rw [hnone]
      exact .nil
  · intro hvisits queueName queue hqueue
    obtain ⟨front, hfront, hafter⟩ := lookup_nack_multiple hsound hqueue henum.1 deliveryTag
    refine ⟨_, front, List.pairwise_reverse.mpr (hvisits queueName), fun tag => ?_, hfront, hafter⟩
    rw [List.mem_reverse, List.mem_filter, and_iff_right_iff_imp]
    exact mem_order_of_covered henum

theorem enumerates_reverse {order : List Int} (henum : Enumerates order b.unacked) :
    Enumerates order.reverse b.unacked :=
  ⟨List.nodup_reverse.mpr henum.1, by rw [List.toFinset_reverse, henum.2]⟩

theorem exists_enumerates (b : Broker) : ∃ order, Enumerates order b.unacked :=
  ⟨b.unacked.keys.toList, Finset.nodup_toList _, Finset.toList_toFinset _⟩

/-- Every visiting order will do only if there is nothing to order. -/
theorem visitsLatestFirst_all_iff (deliveryTag : Int) :
    (∀ order, Enumerates order b.unacked → b.VisitsLatestFirst deliveryTag order) ↔
      b.CoversOneEach deliveryTag := by
  constructor
  · intro hall queueName tag tag' hcovered hcovered'
    obtain ⟨order, henum⟩ := b.exists_enumerates
    have hdown := hall order henum queueName
    -- the reversed order is as good a visiting order
    have hup := hall _ (enumerates_reverse henum) queueName
    rw [List.filter_reverse, List.pairwise_reverse] at hup
    have hnone : (order.filter (b.covered deliveryTag queueName)).Pairwise fun _ _ => False :=
      (hdown.and hup).imp fun hboth => absurd hboth.1 (not_lt_of_gt hboth.2)
    have hsymm : Std.Symm fun _ _ : Int => False := ⟨fun _ _ hfalse => hfalse⟩
    by_contra hne
    exact hnone.forall
      (List.mem_filter.mpr ⟨mem_order_of_covered henum hcovered, hcovered⟩)
      (List.mem_filter.mpr ⟨mem_order_of_covered henum hcovered', hcovered'⟩) hne
  · intro hone order henum queueName
    refine List.Pairwise.imp_of_mem ?_ (henum.1.filter _)
    intro tag tag' hmem hmem' hne
    exact absurd (hone queueName tag tag' (List.mem_filter.mp hmem).2 (List.mem_filter.mp hmem').2) hne

/-- **The order of requeued messages.** In every reachable state, a multiple `nack` with requeueing puts
the covered messages of each queue back in the order of their deliveries, before those that waited,
exactly if the map visits the covered tags of each queue from the latest to the earliest; and whatever
the map's order, exactly if no queue has two of them. -/
theorem nack_requeuesInOrder_iff {ops : List Op} (hrun : Along step Enabled initial ops)
    (deliveryTag : Int) :
    let b := run step initial ops
    (∀ order, Enumerates order b.unacked →
      (b.RequeuesInOrder deliveryTag (b.nack deliveryTag true true order).2 ↔
        b.VisitsLatestFirst deliveryTag order)) ∧
    ((∀ order, Enumerates order b.unacked →
        b.RequeuesInOrder deliveryTag (b.nack deliveryTag true true order).2) ↔
      b.CoversOneEach deliveryTag) := by
  intro b
  have hsound : b.Sound := hrun.induction sound_initial fun _ op hstate _ => hstate.step op
  have hiff : ∀ order, Enumerates order b.unacked →
      (b.RequeuesInOrder deliveryTag (b.nack deliveryTag true true order).2 ↔
        b.VisitsLatestFirst deliveryTag order) := fun order henum =>
    requeuesInOrder_iff hsound (fun _ copy => outstandingCount_le_one hrun copy) henum deliveryTag
  refine ⟨hiff, ?_⟩
  rw [← visitsLatestFirst_all_iff]
  exact forall₂_congr hiff

/-- Two messages of one queue are out, under the tags 1 and 2. -/
def twoOutRun : List Op :=
  [.declareExchange "ex" .direct true false, .declareQueue "q" "", .bindQueue "q" "ex" "key",
    .publish { exchange := "ex", routingKey := "key", messageId := "first" },
    .publish { exchange := "ex", routingKey := "key", messageId := "second" }, .consume "q" (some 0) 2,
    .dispatchStart "q", .dispatchNext]

theorem along_twoOutRun : Along step Enabled initial twoOutRun :=
  ⟨trivial, trivial, trivial, trivial, trivial, trivial, rfl, trivial, trivial⟩

theorem nack_requeuesInOrder_iff_twoOutRun :
    (run step initial twoOutRun).RequeuesInOrder 2
      ((run step initial twoOutRun).nack 2 true true [2, 1]).2 :=
  ((nack_requeuesInOrder_iff along_twoOutRun 2).1 [2, 1] (by decide +kernel)).mpr fun _ =>
    List.Pairwise.filter _ (by decide)

/-- A map that visits the earlier tag first puts the later message before the earlier one. -/
theorem nack_reverses_order :
    ¬ ∀ (ops : List Op) (deliveryTag : Int) (order : List Int), Along step Enabled initial ops →
      Enumerates order (run step initial ops).unacked →
        (run step initial ops).RequeuesInOrder deliveryTag
          ((run step initial ops).nack deliveryTag true true order).2 := by
  intro hclaim
  have henum : Enumerates [1, 2] (run step initial twoOutRun).unacked := by decide +kernel
  have hordered := hclaim twoOutRun 2 [1, 2] along_twoOutRun henum
  have hsound : (run step initial twoOutRun).Sound :=
    along_twoOutRun.induction sound_initial fun _ op hstate _ => hstate.step op
  rw [requeuesInOrder_iff hsound (fun _ copy => outstandingCount_le_one along_twoOutRun copy) henum]
    at hordered
  exact absurd (hordered "q") (by decide +kernel)

end SoulCoreKit.Mq.Broker
