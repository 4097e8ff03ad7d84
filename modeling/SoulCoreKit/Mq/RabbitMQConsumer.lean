import SoulCoreKit.Mq.Broker

/-!
# The consumer of the in-memory broker

`RabbitMQConsumer` over `InMemoryAmqpBackend`. Each call holds the consumer's lock throughout and takes
the backend's lock inside it, so a call is one step between the backend's own steps. A connection that
is connected has a backend, so the branch without one is left out. `registered` numbers the closures that
wrap the callbacks, in the order of their creation; the source has no such list.
-/

namespace SoulCoreKit.Mq

structure ConsumeMessage where
  topic : String
  routingKey : String
  body : List UInt8
  messageId : String
  correlationId : String
  deliveryTag : Int := 0
  deriving DecidableEq, Repr

/-- A callback with the topic it was subscribed to. -/
structure Registration where
  topic : String
  callback : Callback
  deriving DecidableEq, Repr

/-- `alive` tells whether the weak pointer to the connection still locks. -/
structure RabbitMQConsumer where
  alive : Bool := true
  backend : Broker
  mSubscriptions : UnorderedMap String String := ∅
  mPrefetchCount : Int := 1
  registered : List Registration := []

namespace RabbitMQConsumer

def generateQueueName (topic uuid : String) : String :=
  topic ++ "_queue_" ++ String.ofList (uuid.toList.take 8)

/-- `subscribe` with a queue name; `uuid` is for the backend, which names a queue without a name. -/
def subscribeTo (consumer : RabbitMQConsumer) (topic queueName : String) (callback : Callback)
    (uuid : String) : Result Unit × RabbitMQConsumer :=
  if ¬ (consumer.alive ∧ consumer.backend.connected) then
    (.error ⟨.networkError, "RabbitMQ consumer connection not available"⟩, consumer)
  else
    match consumer.backend.declareQueue queueName uuid with
    | (.error error, backend) => (.error error, { consumer with backend })
    | (.ok _, backend) =>
        match backend.bindQueue queueName topic topic with
        | (.error error, backend) => (.error error, { consumer with backend })
        | (.ok _, backend) =>
            match backend.consume queueName (some consumer.registered.length)
                consumer.mPrefetchCount with
            | (.error error, backend) => (.error error, { consumer with backend })
            | (.ok _, backend) =>
                (.ok (), { consumer with
                  backend
                  mSubscriptions := consumer.mSubscriptions.insert topic queueName
                  registered := consumer.registered ++ [⟨topic, callback⟩] })

/-- `subscribe` without a queue name: every call makes up a new one. -/
def subscribe (consumer : RabbitMQConsumer) (topic : String) (callback : Callback) (uuid : String) :
    Result Unit × RabbitMQConsumer :=
  consumer.subscribeTo topic (generateQueueName topic uuid) callback uuid

/-- The result of `cancelConsume` is not looked at. -/
def unsubscribe (consumer : RabbitMQConsumer) (topic : String) : Result Unit × RabbitMQConsumer :=
  match consumer.mSubscriptions.lookup topic with
  | none => (.error ⟨.notFound, "Subscription not found for topic: " ++ topic⟩, consumer)
  | some queueName =>
      let backend :=
        if consumer.alive ∧ consumer.backend.connected then
          (consumer.backend.cancelConsume queueName).2
        else consumer.backend
      (.ok (), { consumer with
        backend
        mSubscriptions := consumer.mSubscriptions.erase topic })

/-- What a closure does with a delivery: it calls its callback with the message. -/
def received (consumer : RabbitMQConsumer) :
    Option (Callback × AmqpDelivery) → Option (Registration × ConsumeMessage)
  | none => none
  | some (closure, delivery) =>
      consumer.registered[closure]?.map fun registration =>
        (registration,
          { topic := delivery.exchange
            routingKey := delivery.routingKey
            body := delivery.message.body
            messageId := delivery.message.messageId
            correlationId := delivery.message.correlationId
            deliveryTag := delivery.deliveryTag })

end RabbitMQConsumer

/-- The step is not one of the two that a consumer makes on the backend by itself. -/
def Op.external : Op → Bool
  | .consume _ _ _ => false
  | .cancelConsume _ => false
  | _ => true

/-- A call of the consumer, or a step of the backend: a call of a producer or of a callback, or a pass of
the dispatch thread. -/
inductive ConsumerStep where
  | subscribe (topic : String) (callback : Callback) (uuid : String)
  | subscribeTo (topic queueName : String) (callback : Callback) (uuid : String)
  | unsubscribe (topic : String)
  | backend (op : { op : Op // op.external = true })

namespace RabbitMQConsumer

def step (consumer : RabbitMQConsumer) : ConsumerStep → RabbitMQConsumer
  | .subscribe topic callback uuid => (consumer.subscribe topic callback uuid).2
  | .subscribeTo topic queueName callback uuid => (consumer.subscribeTo topic queueName callback uuid).2
  | .unsubscribe topic => (consumer.unsubscribe topic).2
  | .backend op => { consumer with backend := consumer.backend.step op.val }

/-- The callback that a step invokes, with its message. -/
def invoked (consumer : RabbitMQConsumer) : ConsumerStep → Option (Registration × ConsumeMessage)
  | .backend ⟨.dispatchStart queueName, _⟩ =>
      consumer.received (consumer.backend.dispatchStart queueName).1
  | .backend ⟨.dispatchNext, _⟩ => consumer.received consumer.backend.dispatchNext.1
  | _ => none

/-- A consumer of a new connection. -/
def initial : RabbitMQConsumer := { backend := Broker.initial }

end RabbitMQConsumer

/-- The step subscribes to the topic. -/
def ConsumerStep.subscribesTo : ConsumerStep → String → Bool
  | .subscribe other _ _, topic => other = topic
  | .subscribeTo other _ _ _, topic => other = topic
  | _, _ => false

end SoulCoreKit.Mq
