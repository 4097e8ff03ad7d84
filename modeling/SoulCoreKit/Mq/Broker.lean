import SoulCoreKit.Lib.UnorderedMap
import SoulCoreKit.Lib.Run
import SoulCoreKit.Core.Result
import Mathlib.Data.List.Basic

/-!
# The in-memory AMQP broker

`InMemoryAmqpBackend` as a machine whose steps are its critical sections. Every public method takes
the lock once and is one step. The dispatch thread takes it again after each callback, so one pass
of its inner loop is one step, and the callback and prefetch count it copied on entering the queue
are part of the state between passes.

Three things are recorded that no branch of the source reads: the name of each message copy, which
is its position in `routed`, the log of the queues copies were pushed onto; the identity of each
consumer, one per successful `consume`; and, in each unacknowledged entry, the consumer whose
callback received it.
-/

namespace SoulCoreKit.Mq

/-! ### Topic patterns

`matchTopicPattern` and the AMQP 0.9.1 relation it is meant to decide. Routing keys and patterns are words
separated by dots; `QString::split` with `Qt::KeepEmptyParts` keeps the empty ones, so the empty string is
one empty word. -/

/-- `QString::split('.', Qt::KeepEmptyParts)`. -/
def splitWords (text : String) : List String :=
  (text.toList.splitOn '.').map String.ofList

/-- The scan of `matchTopicPattern`, from `patternParts[pi]` and `keyParts[ki]` on. The first two
equations are the return after the loop, where one trailing `#` may still be skipped. -/
def scanTopic : List String → List String → Bool
  | [], keyParts => keyParts.isEmpty
  | p :: patternParts, [] => p == "#" && patternParts.isEmpty
  | p :: patternParts, k :: keyParts =>
      if p = "#" then
        match patternParts with
        | [] => true
        | nextP :: _ =>
            match (k :: keyParts).dropWhile (· != nextP) with
            | [] => false
            -- `pi++` moves onto `nextP` itself, `ki++` past the key word equal to it
            | _ :: keyRest => scanTopic patternParts keyRest
      else if p = "*" then
        scanTopic patternParts keyParts
      else if p = k then
        scanTopic patternParts keyParts
      else
        false

/-- `InMemoryAmqpBackend::matchTopicPattern`. -/
def matchTopicPattern (pattern key : String) : Bool :=
  if pattern = key then
    true
  else if pattern = "" ∨ key = "" then
    false
  else
    scanTopic (splitWords pattern) (splitWords key)

/-- Topic matching as AMQP 0.9.1 defines it: `*` stands for exactly one word, `#` for any number of
words, and every other pattern word for itself. -/
inductive TopicMatches : List String → List String → Prop where
  | nil : TopicMatches [] []
  | star (word : String) {pattern key : List String} :
      TopicMatches pattern key → TopicMatches ("*" :: pattern) (word :: key)
  | hash (words : List String) {pattern key : List String} :
      TopicMatches pattern key → TopicMatches ("#" :: pattern) (words ++ key)
  | word {word : String} {pattern key : List String} (hstar : word ≠ "*") (hhash : word ≠ "#") :
      TopicMatches pattern key → TopicMatches (word :: pattern) (word :: key)

/-- No pattern word but the last is `#`. -/
def HashOnlyLast (pattern : List String) : Prop := "#" ∉ pattern.dropLast

instance (pattern : List String) : Decidable (HashOnlyLast pattern) :=
  inferInstanceAs (Decidable (_ ∉ _))

/-! ### The broker -/

inductive ExchangeType where
  | direct
  | fanout
  | topic
  | headers
  deriving DecidableEq, Repr

structure AmqpMessage where
  exchange : String
  routingKey : String
  body : List UInt8 := []
  messageId : String := ""
  correlationId : String := ""
  replyTo : String := ""
  deliveryMode : Int := 2
  priority : Int := 0
  contentType : String := ""
  contentEncoding : String := ""
  timestamp : Int := 0
  deriving DecidableEq, Repr

structure AmqpDelivery where
  deliveryTag : Int
  redelivered : Bool
  exchange : String
  routingKey : String
  queue : String
  message : AmqpMessage
  deriving DecidableEq, Repr

/-- A callback object, by name: what it does shows as later steps of the machine. -/
abbrev Callback := Nat

/-- The set of bound queues is a list without repetitions. -/
structure ExchangeInfo where
  type : ExchangeType := .direct
  durable : Bool := true
  autoDelete : Bool := false
  boundQueues : List String := []
  deriving DecidableEq, Repr

structure BindingInfo where
  queue : String
  exchange : String
  routingKey : String
  deriving DecidableEq, Repr

structure QueuedMessage where
  deliveryTag : Int := 0
  message : AmqpMessage
  exchange : String
  routingKey : String
  copy : Nat
  deriving DecidableEq, Repr

structure ConsumerInfo where
  callback : Callback
  prefetchCount : Int := 1
  unackedCount : Int := 0
  id : Nat
  deriving DecidableEq, Repr

structure UnackedMessage where
  deliveryTag : Int := 0
  queue : String
  msg : QueuedMessage
  consumer : Nat
  deriving DecidableEq, Repr

/-- The locals of `dispatchLoop` while it drains one queue: they are copied once, before the inner
loop, and kept across callbacks. -/
structure Dispatching where
  queue : String
  callback : Callback
  prefetchCount : Int
  consumer : Nat
  deriving DecidableEq, Repr

structure Broker where
  connected : Bool := false
  nextDeliveryTag : Int := 1
  exchanges : UnorderedMap String ExchangeInfo := ∅
  queues : UnorderedMap String (List QueuedMessage) := ∅
  bindings : List BindingInfo := []
  consumers : UnorderedMap String ConsumerInfo := ∅
  unacked : UnorderedMap Int UnackedMessage := ∅
  dispatching : Option Dispatching := none
  routed : List String := []
  subscribed : Nat := 0

namespace Broker

def notConnected : Error := ⟨.notConnected, "InMemoryAmqpBackend: not connected"⟩

def connect (b : Broker) : Result Unit × Broker := (.ok (), { b with connected := true })

def declareExchange (b : Broker) (name : String) (type : ExchangeType)
    (durable autoDelete : Bool) : Result Unit × Broker :=
  if ¬ b.connected then
    (.error notConnected, b)
  else if name = "" then
    (.error ⟨.invalidArgument, "InMemoryAmqpBackend: exchange name must not be empty"⟩, b)
  else if name ∈ b.exchanges then
    (.ok (), b)
  else
    (.ok (), { b with exchanges := b.exchanges.insert name { type, durable, autoDelete } })

/-- `generateQueueName`, from the text of the fresh UUID. -/
def generateQueueName (uuid : String) : String :=
  "amq.gen-" ++ String.ofList (uuid.toList.take 22)

def declareQueue (b : Broker) (name uuid : String) : Result String × Broker :=
  if ¬ b.connected then
    (.error notConnected, b)
  else
    let queueName := if name = "" then generateQueueName uuid else name
    if queueName ∈ b.queues then
      (.ok queueName, b)
    else
      (.ok queueName, { b with queues := b.queues.insert queueName [] })

def bindQueue (b : Broker) (queue exchange routingKey : String) : Result Unit × Broker :=
  if ¬ b.connected then
    (.error notConnected, b)
  else
    match b.exchanges.lookup exchange with
    | none =>
        (.error ⟨.notFound, "InMemoryAmqpBackend: exchange '" ++ exchange ++ "' not found"⟩, b)
    | some info =>
        if queue ∉ b.queues then
          (.error ⟨.notFound, "InMemoryAmqpBackend: queue '" ++ queue ++ "' not found"⟩, b)
        else
          (.ok (), { b with
            bindings := b.bindings ++ [⟨queue, exchange, routingKey⟩]
            exchanges := b.exchanges.insert exchange
              { info with boundQueues := info.boundQueues.insert queue } })

def unbindQueue (b : Broker) (queue exchange routingKey : String) : Result Unit × Broker :=
  if ¬ b.connected then
    (.error notConnected, b)
  else if ⟨queue, exchange, routingKey⟩ ∉ b.bindings then
    (.error ⟨.notFound, "InMemoryAmqpBackend: binding not found"⟩, b)
  else
    let bindings := b.bindings.filter (· ≠ ⟨queue, exchange, routingKey⟩)
    let b := { b with bindings }
    if bindings.any fun binding => binding.exchange = exchange ∧ binding.queue = queue then
      (.ok (), b)
    else
      match b.exchanges.lookup exchange with
      | none => (.ok (), b)
      | some info =>
          (.ok (), { b with
            exchanges := b.exchanges.insert exchange
              { info with boundQueues := info.boundQueues.erase queue } })

/-- The target queues of `routeMessage`, one for each binding that matches. -/
def targetQueues (b : Broker) (exchangeName routingKey : String) : List String :=
  match b.exchanges.lookup exchangeName with
  | none => []
  | some ex =>
      match ex.type with
      | .direct =>
          (b.bindings.filter fun binding =>
            binding.exchange = exchangeName ∧ binding.routingKey = routingKey).map (·.queue)
      | .fanout => ex.boundQueues
      | .topic =>
          (b.bindings.filter fun binding =>
            binding.exchange = exchangeName ∧
              matchTopicPattern binding.routingKey routingKey).map (·.queue)
      | .headers => []

/-- One pass of the delivery loop of `routeMessage`: the copy is named after its place in the
log. -/
def pushCopy (message : AmqpMessage) (exchange routingKey : String) (b : Broker)
    (queueName : String) : Broker :=
  match b.queues.lookup queueName with
  | none => b
  | some queue =>
      { b with
        queues := b.queues.insert queueName
          (queue ++ [{ message, exchange, routingKey, copy := b.routed.length }])
        routed := b.routed ++ [queueName] }

def routeMessage (b : Broker) (message : AmqpMessage) (exchangeName routingKey : String) : Broker :=
  (b.targetQueues exchangeName routingKey).foldl (pushCopy message exchangeName routingKey) b

def publish (b : Broker) (message : AmqpMessage) : Result Unit × Broker :=
  if ¬ b.connected then
    (.error notConnected, b)
  else
    (.ok (), b.routeMessage message message.exchange message.routingKey)

def intMax : Int := 2147483647

def consume (b : Broker) (queue : String) (callback : Option Callback) (prefetchCount : Int) :
    Result Unit × Broker :=
  if ¬ b.connected then
    (.error notConnected, b)
  else
    match callback with
    | none =>
        (.error ⟨.invalidArgument, "InMemoryAmqpBackend: consume callback must not be null"⟩, b)
    | some callback =>
        if queue ∉ b.queues then
          (.error ⟨.notFound, "InMemoryAmqpBackend: queue '" ++ queue ++ "' not found"⟩, b)
        else
          (.ok (), { b with
            consumers := b.consumers.insert queue
              { callback
                prefetchCount := if prefetchCount > 0 then prefetchCount else intMax
                unackedCount := 0
                id := b.subscribed }
            subscribed := b.subscribed + 1 })

def cancelConsume (b : Broker) (queue : String) : Result Unit × Broker :=
  if ¬ b.connected then
    (.error notConnected, b)
  else
    (.ok (), { b with consumers := b.consumers.erase queue })

/-- The counter update that follows every erased unacknowledged entry. -/
def releaseConsumer (b : Broker) (queue : String) : Broker :=
  match b.consumers.lookup queue with
  | none => b
  | some info =>
      if info.unackedCount > 0 then
        { b with consumers :=
            b.consumers.insert queue { info with unackedCount := info.unackedCount - 1 } }
      else
        b

def ackOne (b : Broker) (tag : Int) : Broker :=
  match b.unacked.lookup tag with
  | none => b
  | some entry => releaseConsumer { b with unacked := b.unacked.erase tag } entry.queue

/-- The last argument is the order in which the loop of a multiple acknowledgement visits
`m_unacked`. -/
def ack (b : Broker) (deliveryTag : Int) (multiple : Bool) (order : List Int) :
    Result Unit × Broker :=
  if ¬ b.connected then
    (.error notConnected, b)
  else if multiple then
    (.ok (), (order.filter (· ≤ deliveryTag)).foldl ackOne b)
  else if deliveryTag ∉ b.unacked then
    (.error ⟨.notFound, "InMemoryAmqpBackend: delivery tag not found"⟩, b)
  else
    (.ok (), b.ackOne deliveryTag)

/-- The requeueing of `nackOne`: back to the front of the queue, under a fresh tag. -/
def requeueFront (b : Broker) (entry : UnackedMessage) : Broker :=
  match b.queues.lookup entry.queue with
  | none => b
  | some queue =>
      { b with
        queues := b.queues.insert entry.queue
          ({ entry.msg with deliveryTag := b.nextDeliveryTag } :: queue)
        nextDeliveryTag := b.nextDeliveryTag + 1 }

def nackOne (requeue : Bool) (b : Broker) (tag : Int) : Broker :=
  match b.unacked.lookup tag with
  | none => b
  | some entry =>
      let erased := { b with unacked := b.unacked.erase tag }
      let requeued := if requeue then erased.requeueFront entry else erased
      requeued.releaseConsumer entry.queue

def nack (b : Broker) (deliveryTag : Int) (requeue multiple : Bool) (order : List Int) :
    Result Unit × Broker :=
  if ¬ b.connected then
    (.error notConnected, b)
  else if multiple then
    (.ok (), (order.filter (· ≤ deliveryTag)).foldl (nackOne requeue) b)
  else
    (.ok (), b.nackOne requeue deliveryTag)

def reject (b : Broker) (deliveryTag : Int) (requeue : Bool) : Result Unit × Broker :=
  b.nack deliveryTag requeue false []

/-- One pass of the inner loop of `dispatchLoop`: leave it when the queue is empty, the consumer is
gone or the copied prefetch count is reached, else hand the front message to the copied callback. -/
def dispatchOne (b : Broker) (d : Dispatching) : Option (Callback × AmqpDelivery) × Broker :=
  let leave := (none, { b with dispatching := none })
  match b.queues.lookup d.queue with
  | none => leave
  | some [] => leave
  | some (front :: rest) =>
      match b.consumers.lookup d.queue with
      | none => leave
      | some info =>
          if info.unackedCount ≥ d.prefetchCount then
            leave
          else
            let tag := b.nextDeliveryTag
            let qmsg := { front with deliveryTag := tag }
            let delivery :=
              { deliveryTag := tag
                redelivered := false
                exchange := qmsg.exchange
                routingKey := qmsg.routingKey
                queue := d.queue
                message := qmsg.message }
            (some (d.callback, delivery), { b with
              queues := b.queues.insert d.queue rest
              nextDeliveryTag := tag + 1
              unacked := b.unacked.insert tag
                { deliveryTag := tag, queue := d.queue, msg := qmsg, consumer := d.consumer }
              consumers := b.consumers.insert d.queue
                { info with unackedCount := info.unackedCount + 1 }
              dispatching := some d })

/-- The outer loop of `dispatchLoop` reaches a queue: copy the consumer's callback and prefetch
count and make the first pass. -/
def dispatchStart (b : Broker) (queueName : String) :
    Option (Callback × AmqpDelivery) × Broker :=
  match b.consumers.lookup queueName with
  | none => (none, b)
  | some info =>
      b.dispatchOne
        { queue := queueName
          callback := info.callback
          prefetchCount := info.prefetchCount
          consumer := info.id }

/-- The lock is taken again after a callback: the next pass over the same queue. -/
def dispatchNext (b : Broker) : Option (Callback × AmqpDelivery) × Broker :=
  match b.dispatching with
  | none => (none, b)
  | some d => b.dispatchOne d

end Broker

inductive Op where
  | declareExchange (name : String) (type : ExchangeType) (durable autoDelete : Bool)
  | declareQueue (name uuid : String)
  | bindQueue (queue exchange routingKey : String)
  | unbindQueue (queue exchange routingKey : String)
  | publish (message : AmqpMessage)
  | consume (queue : String) (callback : Option Callback) (prefetchCount : Int)
  | cancelConsume (queue : String)
  | ack (deliveryTag : Int) (multiple : Bool) (order : List Int)
  | nack (deliveryTag : Int) (requeue multiple : Bool) (order : List Int)
  | reject (deliveryTag : Int) (requeue : Bool)
  | dispatchStart (queueName : String)
  | dispatchNext

namespace Broker

def step (b : Broker) : Op → Broker
  | .declareExchange name type durable autoDelete =>
      (b.declareExchange name type durable autoDelete).2
  | .declareQueue name uuid => (b.declareQueue name uuid).2
  | .bindQueue queue exchange routingKey => (b.bindQueue queue exchange routingKey).2
  | .unbindQueue queue exchange routingKey => (b.unbindQueue queue exchange routingKey).2
  | .publish message => (b.publish message).2
  | .consume queue callback prefetchCount => (b.consume queue callback prefetchCount).2
  | .cancelConsume queue => (b.cancelConsume queue).2
  | .ack deliveryTag multiple order => (b.ack deliveryTag multiple order).2
  | .nack deliveryTag requeue multiple order => (b.nack deliveryTag requeue multiple order).2
  | .reject deliveryTag requeue => (b.reject deliveryTag requeue).2
  | .dispatchStart queueName => (b.dispatchStart queueName).2
  | .dispatchNext => b.dispatchNext.2

def initial : Broker := (connect {}).2

/-- What the runtime guarantees of a step: a loop over `m_unacked` visits every entry once, and the
dispatch thread enters a queue only when it has left the one before. -/
def Enabled (b : Broker) : Op → Prop
  | .ack _ multiple order => multiple = true → UnorderedMap.Enumerates order b.unacked
  | .nack _ _ multiple order => multiple = true → UnorderedMap.Enumerates order b.unacked
  | .dispatchStart _ => b.dispatching = none
  | _ => True

end Broker

/-- The step settles tags: it is an `ack`, a `nack` or a `reject`. -/
def Op.settles : Op → Bool
  | .ack _ _ _ => true
  | .nack _ _ _ _ => true
  | .reject _ _ => true
  | _ => false

/-- The tags an acknowledgement or refusal covers. -/
def Op.covers : Op → Int → Bool
  | .ack deliveryTag multiple _, tag => if multiple then tag ≤ deliveryTag else tag = deliveryTag
  | .nack deliveryTag _ multiple _, tag =>
      if multiple then tag ≤ deliveryTag else tag = deliveryTag
  | .reject deliveryTag _, tag => tag = deliveryTag
  | _, _ => false

/-- The step is an `ack`, or a `nack` or `reject` without requeueing. -/
def Op.discards : Op → Bool
  | .ack _ _ _ => true
  | .nack _ requeue _ _ => !requeue
  | .reject _ requeue => !requeue
  | _ => false

end SoulCoreKit.Mq
