import TsCommons.Foundations.InsertionSet
import Mathlib.Algebra.Order.Ring.Rat
import Mathlib.Data.List.Perm.Basic

/-!
# The RabbitMQ event consumer

What `handleMessage` does with a delivery up to the call of the handler, when
the handler has succeeded and when something has failed are functions of their
own.  The calls that it makes on the channel are its actions.
-/

namespace TsCommons.MessagingRabbitmq

open Foundations

structure EventEnvelope (E T : Type) where
  eventId : E
  eventType : T
deriving DecidableEq

/-- The content is absent if it is no JSON text or is `null`, and the count is
the header `x-retry-count`. -/
structure Message (E T : Type) where
  content : Option (EventEnvelope E T)
  retryCount : Option ℕ
deriving DecidableEq

structure RabbitMQConfig where
  enableDLQ : Bool
  maxRetries : ℕ
  retryDelay : ℚ
deriving DecidableEq

structure RabbitMQConsumerOptions where
  enableRetry : Option Bool
  maxRetries : Option ℕ
  retryDelay : Option ℚ
deriving DecidableEq

/-- The exchange of the events, and that with the dead-letter suffix. -/
inductive Exchange
  | main
  | dlq
deriving DecidableEq

inductive Action (E T : Type)
  | ack
  | nack
  | publish (exchange : Exchange) (message : Message E T)
deriving DecidableEq

structure RabbitMQEventConsumer (E T : Type) where
  config : RabbitMQConfig
  options : RabbitMQConsumerOptions
  handlers : List T
  processedMessages : InsertionSet E
deriving DecidableEq

/-- A message that is published after a delay in milliseconds. -/
structure Republication (E T : Type) where
  message : Message E T
  delay : ℚ
deriving DecidableEq

/-- What becomes of a delivery before a handler is called. -/
inductive Receipt (E T : Type)
  | acknowledged
  | handled (envelope : EventEnvelope E T)
  | failed
deriving DecidableEq

@[irreducible] def processedLimit : ℕ := 10000

namespace RabbitMQEventConsumer

variable {E T : Type} [DecidableEq E] [DecidableEq T]

/-- `handleMessage` up to the call of the handler. -/
def receive (consumer : RabbitMQEventConsumer E T) (msg : Message E T) :
    Receipt E T :=
  match msg.content with
  | none => .failed
  | some envelope =>
      if envelope.eventId ∈ consumer.processedMessages then .acknowledged
      else if envelope.eventType ∉ consumer.handlers then .acknowledged
      else .handled envelope

/-- The set with the event, and without its first one if it is too large. -/
def remember (processedMessages : InsertionSet E) (eventId : E) :
    InsertionSet E :=
  let processedMessages := processedMessages.add eventId
  if processedMessages.size > processedLimit then
    match processedMessages.elements with
    | [] => processedMessages
    | firstItem :: _ => processedMessages.delete firstItem
  else processedMessages

/-- `handleMessage` after the handler has succeeded, before it acknowledges
the message. -/
def markProcessed (consumer : RabbitMQEventConsumer E T) (eventId : E) :
    RabbitMQEventConsumer E T :=
  { consumer with
    processedMessages := remember consumer.processedMessages eventId }

omit [DecidableEq E] [DecidableEq T]

def getRetryCount (msg : Message E T) : ℕ := msg.retryCount.getD 0

def maxRetries (consumer : RabbitMQEventConsumer E T) : ℕ :=
  consumer.options.maxRetries.getD consumer.config.maxRetries

def shouldRetry (consumer : RabbitMQEventConsumer E T) (msg : Message E T) :
    Bool :=
  consumer.options.enableRetry.getD true = true &&
    getRetryCount msg < consumer.maxRetries

def retryMessage (consumer : RabbitMQEventConsumer E T) (msg : Message E T) :
    List (Action E T) × Option (Republication E T) :=
  let retryDelay :=
    consumer.options.retryDelay.getD consumer.config.retryDelay
  ([.nack], some
    { message := { msg with retryCount := some (getRetryCount msg + 1) }
      delay := retryDelay * 2 ^ getRetryCount msg })

def sendToDeadLetterQueue (consumer : RabbitMQEventConsumer E T)
    (msg : Message E T) : List (Action E T) :=
  if consumer.config.enableDLQ = false then [.nack]
  else [.publish .dlq msg, .ack]

/-- `handleMessage` after an error: what it does at once and what it leaves to
a timer. -/
def handleError (consumer : RabbitMQEventConsumer E T) (msg : Message E T) :
    List (Action E T) × Option (Republication E T) :=
  if consumer.shouldRetry msg = true then consumer.retryMessage msg
  else (consumer.sendToDeadLetterQueue msg, none)

/-- The argument `x-dead-letter-exchange` of the queue. -/
def buildQueueArguments (consumer : RabbitMQEventConsumer E T) :
    Option Exchange :=
  if consumer.config.enableDLQ = false then none else some .dlq

end RabbitMQEventConsumer

section Receipts

variable {E T : Type} [DecidableEq E] [DecidableEq T]
  {consumer : RabbitMQEventConsumer E T} {msg : Message E T}
  {envelope : EventEnvelope E T} {eventId : E}

theorem content_of_receive
    (hreceive : consumer.receive msg = .handled envelope) :
    msg.content = some envelope := by
  unfold RabbitMQEventConsumer.receive at hreceive
  split at hreceive
  · cases hreceive
  · rename_i other hcontent
    split_ifs at hreceive
    cases hreceive
    exact hcontent

theorem receive_of_handler (hcontent : msg.content = some envelope)
    (hnew : envelope.eventId ∉ consumer.processedMessages)
    (hhandler : envelope.eventType ∈ consumer.handlers) :
    consumer.receive msg = .handled envelope := by
  simp only [RabbitMQEventConsumer.receive, hcontent, if_neg hnew,
    not_not.mpr hhandler, if_false]

omit [DecidableEq T] in
theorem mem_of_mem_remember {processed : InsertionSet E}
    (hmem : eventId ∈
      RabbitMQEventConsumer.remember processed envelope.eventId) :
    eventId = envelope.eventId ∨ eventId ∈ processed := by
  unfold RabbitMQEventConsumer.remember at hmem
  dsimp only at hmem
  split at hmem
  · split at hmem
    · exact InsertionSet.mem_add.mp hmem
    · exact InsertionSet.mem_add.mp (InsertionSet.mem_delete.mp hmem).1
  · exact InsertionSet.mem_add.mp hmem

end Receipts

/-! ## Acknowledgements -/

/-- The action acknowledges or rejects the delivery. -/
def Action.settles {E T : Type} : Action E T → Bool
  | .ack => true
  | .nack => true
  | .publish _ _ => false

/-- An error leads to exactly one acknowledgement or rejection. -/
theorem countP_settles_handleError {E T : Type}
    (consumer : RabbitMQEventConsumer E T) (msg : Message E T) :
    (consumer.handleError msg).1.countP Action.settles = 1 := by
  unfold RabbitMQEventConsumer.handleError
  split
  · rfl
  · unfold RabbitMQEventConsumer.sendToDeadLetterQueue
    split
    · rfl
    · rfl

/-- One of the deliveries under way is taken out. -/
theorem countP_eraseIdx {D : Type} (test : D → Bool) {deliveries : List D}
    {position : ℕ} {delivery : D}
    (hget : deliveries[position]? = some delivery) :
    deliveries.countP test =
      (deliveries.eraseIdx position).countP test +
        if test delivery = true then 1 else 0 := by
  obtain ⟨hlt, hget⟩ := List.getElem?_eq_some_iff.mp hget
  have hperm := List.getElem_cons_eraseIdx_perm hlt
  rw [hget] at hperm
  rw [← hperm.countP_eq, List.countP_cons]

end TsCommons.MessagingRabbitmq
