import TsCommons.Foundations.Execution
import TsCommons.MessagingRabbitmq.RabbitMQEventConsumer
import Mathlib.Data.List.Count

/-!
# Dead-lettering by the RabbitMQ consumer

The consumer with its queue at the broker.  A delivery that is rejected goes to
the dead-letter exchange of the queue, and what is published to the main
exchange comes back to the queue.  A message is to reach the dead-letter
exchange once if all attempts to handle it fail, and never if one succeeds.
-/

namespace TsCommons.MessagingRabbitmq.DeadLettering

open Foundations

variable {E T : Type} [DecidableEq E] [DecidableEq T]

/-- `published` are the envelopes of the messages that were published,
`handling` the deliveries whose handler has been called, `delayed` the copies
that timers hold, and `dead` what the dead-letter exchange has received.  The
last three are the events of the calls of the handler, of those that succeeded,
and of the failures that were retried. -/
structure State (E T : Type) where
  consumer : RabbitMQEventConsumer E T
  published : List (EventEnvelope E T)
  queue : List (Message E T)
  handling : List (Message E T)
  delayed : List (Message E T)
  dead : List (Message E T)
  attempts : List E
  succeeded : List E
  retried : List E
deriving DecidableEq

omit [DecidableEq E] [DecidableEq T] in
def State.initial (config : RabbitMQConfig)
    (options : RabbitMQConsumerOptions) (handlers : List T) : State E T where
  consumer := ⟨config, options, handlers, .empty⟩
  published := []
  queue := []
  handling := []
  delayed := []
  dead := []
  attempts := []
  succeeded := []
  retried := []

inductive Label (E T : Type)
  | publish (envelope : EventEnvelope E T) (retryCount : Option ℕ)
  | deliver (position : ℕ)
  | succeed (position : ℕ)
  | fail (position : ℕ)
  | fire (position : ℕ)
deriving DecidableEq

namespace State

omit [DecidableEq E] [DecidableEq T] in
/-- The broker routes what becomes of a delivery. -/
def act (state : State E T) (message : Message E T) :
    Action E T → State E T
  | .ack => state
  | .nack =>
      match state.consumer.buildQueueArguments with
      | some .dlq => { state with dead := state.dead ++ [message] }
      | _ => state
  | .publish .dlq copy => { state with dead := state.dead ++ [copy] }
  | .publish .main copy => { state with queue := state.queue ++ [copy] }

omit [DecidableEq E] [DecidableEq T] in
/-- A failed delivery is rejected or dead-lettered, and a retry waits for its
timer. -/
def handleError (state : State E T) (message : Message E T) : State E T :=
  let (actions, republication) := state.consumer.handleError message
  let state := actions.foldl (fun state action => state.act message action)
    state
  match republication with
  | none => state
  | some republication =>
      { state with
        delayed := state.delayed ++ [republication.message]
        retried := state.retried ++
          (message.content.map EventEnvelope.eventId).toList }

def deliver (state : State E T) (position : ℕ) (message : Message E T) :
    State E T :=
  let next := { state with queue := state.queue.eraseIdx position }
  match state.consumer.receive message with
  | .acknowledged => next.act message .ack
  | .handled envelope =>
      { next with
        handling := state.handling ++ [message]
        attempts := state.attempts ++ [envelope.eventId] }
  | .failed => next.handleError message

def succeed (state : State E T) (position : ℕ) (message : Message E T)
    (envelope : EventEnvelope E T) : State E T :=
  { state with
    consumer := state.consumer.markProcessed envelope.eventId
    handling := state.handling.eraseIdx position
    succeeded := state.succeeded ++ [envelope.eventId] }.act message .ack

omit [DecidableEq E] [DecidableEq T] in
def fail (state : State E T) (position : ℕ) (message : Message E T) :
    State E T :=
  { state with handling := state.handling.eraseIdx position }.handleError
    message

omit [DecidableEq E] [DecidableEq T] in
/-- The timer of a retry publishes its copy to the main exchange. -/
def fire (state : State E T) (position : ℕ) (message : Message E T) :
    State E T :=
  { state with delayed := state.delayed.eraseIdx position }.act message
    (.publish .main message)

end State

/-- Every event is published once. -/
def step (state : State E T) : Label E T → Option (State E T)
  | .publish envelope retryCount =>
      if envelope.eventId ∈ state.published.map EventEnvelope.eventId then none
      else
        some { state with
          published := state.published ++ [envelope]
          queue := state.queue ++ [⟨some envelope, retryCount⟩] }
  | .deliver position =>
      (state.queue[position]?).map (state.deliver position)
  | .succeed position =>
      (state.handling[position]?).bind fun message =>
        message.content.map (state.succeed position message)
  | .fail position => (state.handling[position]?).map (state.fail position)
  | .fire position => (state.delayed[position]?).map (state.fire position)

variable {config : RabbitMQConfig} {options : RabbitMQConsumerOptions}
  {handlers : List T} {state next : State E T} {label : Label E T}
  {position : ℕ} {message : Message E T} {eventId : E}
  {envelope : EventEnvelope E T}

/-! ## One message -/

omit [DecidableEq T] in
/-- The message carries the event. -/
def isOf (eventId : E) (message : Message E T) : Bool :=
  message.content.any fun envelope => envelope.eventId = eventId

omit [DecidableEq T] in
/-- The copies of the message that are still to be handled. -/
def State.live (state : State E T) (eventId : E) : ℕ :=
  state.queue.countP (isOf eventId) + state.handling.countP (isOf eventId) +
    state.delayed.countP (isOf eventId)

omit [DecidableEq T] in
/-- How often the dead-letter exchange has received the message. -/
def State.deadLetters (state : State E T) (eventId : E) : ℕ :=
  state.dead.countP (isOf eventId)

omit [DecidableEq T] in
/-- The dead-letter exchange has received the message once if all attempts
have failed, and not at all if one has succeeded. -/
def DeadLettersOnce (state : State E T) (eventId : E) : Prop :=
  (eventId ∈ state.succeeded → state.deadLetters eventId = 0) ∧
    (eventId ∉ state.succeeded → state.deadLetters eventId = 1)

omit [DecidableEq T] in
/-- A failed attempt of the message has no retries left. -/
def FailsForGood (eventId : E) (state : State E T) : Label E T → Prop
  | .fail position => ∀ message ∈ state.handling[position]?,
      isOf eventId message = true → state.consumer.shouldRetry message = false
  | _ => True

instance (eventId : E) (state : State E T) (label : Label E T) :
    Decidable (FailsForGood eventId state label) :=
  match label with
  | .fail position =>
      inferInstanceAs (Decidable (∀ message ∈ state.handling[position]?,
        isOf eventId message = true →
          state.consumer.shouldRetry message = false))
  | .publish _ _ => inferInstanceAs (Decidable True)
  | .deliver _ => inferInstanceAs (Decidable True)
  | .succeed _ => inferInstanceAs (Decidable True)
  | .fire _ => inferInstanceAs (Decidable True)

/-! ## What becomes of a failed delivery -/

omit [DecidableEq E] [DecidableEq T] in
theorem handleError_of_retry
    (hdlq : state.consumer.config.enableDLQ = true)
    (hretry : state.consumer.shouldRetry message = true) :
    state.handleError message =
      { state with
        dead := state.dead ++ [message]
        delayed := state.delayed ++ [{ message with
          retryCount :=
            some (RabbitMQEventConsumer.getRetryCount message + 1) }]
        retried := state.retried ++
          (message.content.map EventEnvelope.eventId).toList } := by
  simp [State.handleError, RabbitMQEventConsumer.handleError, hretry,
    RabbitMQEventConsumer.retryMessage, State.act,
    RabbitMQEventConsumer.buildQueueArguments, hdlq]

omit [DecidableEq E] [DecidableEq T] in
theorem handleError_of_not_retry
    (hdlq : state.consumer.config.enableDLQ = true)
    (hretry : state.consumer.shouldRetry message = false) :
    state.handleError message =
      { state with dead := state.dead ++ [message] } := by
  simp [State.handleError, RabbitMQEventConsumer.handleError, hretry,
    RabbitMQEventConsumer.sendToDeadLetterQueue, State.act, hdlq]

omit [DecidableEq T] in
theorem isOf_iff :
    isOf eventId message = true ↔
      ∃ envelope, message.content = some envelope ∧
        envelope.eventId = eventId := by
  simp [isOf, Option.any_eq_true]

omit [DecidableEq T] in
theorem isOf_of_content (hcontent : message.content = some envelope) :
    isOf eventId message = decide (envelope.eventId = eventId) := by
  rw [isOf, hcontent]
  rfl

omit [DecidableEq E] [DecidableEq T] in
theorem fail_of_not_retry (hdlq : state.consumer.config.enableDLQ = true)
    (hretry : state.consumer.shouldRetry message = false) :
    state.fail position message =
      { state with
        handling := state.handling.eraseIdx position
        dead := state.dead ++ [message] } :=
  handleError_of_not_retry hdlq hretry

omit [DecidableEq E] [DecidableEq T] in
theorem fail_of_retry (hdlq : state.consumer.config.enableDLQ = true)
    (hretry : state.consumer.shouldRetry message = true)
    (hcontent : message.content = some envelope) :
    state.fail position message =
      { state with
        handling := state.handling.eraseIdx position
        dead := state.dead ++ [message]
        delayed := state.delayed ++ [{ message with
          retryCount :=
            some (RabbitMQEventConsumer.getRetryCount message + 1) }]
        retried := state.retried ++ [envelope.eventId] } := by
  have hids : (message.content.map EventEnvelope.eventId).toList =
      [envelope.eventId] := by
    rw [hcontent]
    rfl
  rw [← hids]
  exact handleError_of_retry hdlq hretry

omit [DecidableEq T] in
theorem failsForGood_iff (eventId : E)
    (hget : state.handling[position]? = some message) :
    FailsForGood eventId state (.fail position) ↔
      (isOf eventId message = true →
        state.consumer.shouldRetry message = false) := by
  constructor
  · exact fun hgood => hgood message hget
  · intro hgood other hother
    rw [Option.mem_def, hget] at hother
    rw [← Option.some.inj hother]
    exact hgood

/-! ## Steps of other messages -/

omit [DecidableEq E] [DecidableEq T] in
def State.copies (state : State E T) : List (Message E T) :=
  state.queue ++ state.handling ++ state.delayed

omit [DecidableEq E] [DecidableEq T] in
theorem mem_copies :
    message ∈ state.copies ↔
      message ∈ state.queue ∨ message ∈ state.handling ∨
        message ∈ state.delayed := by
  rw [State.copies, List.mem_append, List.mem_append, or_assoc]

omit [DecidableEq E] [DecidableEq T] in
theorem copies_eraseQueue (state : State E T) (position : ℕ) :
    { state with queue := state.queue.eraseIdx position }.copies ⊆
      state.copies :=
  (((List.eraseIdx_sublist _ _).append (.refl _)).append (.refl _)).subset

omit [DecidableEq E] [DecidableEq T] in
theorem copies_eraseHandling (state : State E T) (position : ℕ) :
    { state with handling := state.handling.eraseIdx position }.copies ⊆
      state.copies :=
  (((List.Sublist.refl _).append (List.eraseIdx_sublist _ _)).append
    (.refl _)).subset

omit [DecidableEq E] [DecidableEq T] in
theorem copies_eraseDelayed (state : State E T) (position : ℕ) :
    { state with delayed := state.delayed.eraseIdx position }.copies ⊆
      state.copies :=
  ((List.Sublist.refl _).append (List.eraseIdx_sublist _ _)).subset

omit [DecidableEq E] [DecidableEq T] in
theorem copies_toHandling (hget : state.queue[position]? = some message) :
    { state with
      queue := state.queue.eraseIdx position
      handling := state.handling ++ [message] }.copies ⊆ state.copies := by
  intro copy hmem
  rcases mem_copies.mp hmem with hqueue | hhandling | hdelayed
  · exact mem_copies.mpr (.inl (List.mem_of_mem_eraseIdx hqueue))
  · rcases List.mem_append.mp hhandling with hold | hnew
    · exact mem_copies.mpr (.inr (.inl hold))
    · rw [List.mem_singleton.mp hnew]
      exact mem_copies.mpr (.inl (List.mem_of_getElem? hget))
  · exact mem_copies.mpr (.inr (.inr hdelayed))

omit [DecidableEq E] [DecidableEq T] in
theorem copies_fire (hget : state.delayed[position]? = some message) :
    (state.fire position message).copies ⊆ state.copies := by
  intro copy hmem
  rcases mem_copies.mp hmem with hqueue | hhandling | hdelayed
  · rcases List.mem_append.mp hqueue with hold | hnew
    · exact mem_copies.mpr (.inl hold)
    · rw [List.mem_singleton.mp hnew]
      exact mem_copies.mpr (.inr (.inr (List.mem_of_getElem? hget)))
  · exact mem_copies.mpr (.inr (.inl hhandling))
  · exact mem_copies.mpr (.inr (.inr (List.mem_of_mem_eraseIdx hdelayed)))

omit [DecidableEq T] in
/-- The step leaves alone what concerns the message. -/
structure Unaffected (eventId : E) (state next : State E T) : Prop where
  maxRetries : next.consumer.maxRetries = state.consumer.maxRetries
  remembered : eventId ∈ next.consumer.processedMessages →
    eventId ∈ state.consumer.processedMessages
  published : (next.published.map EventEnvelope.eventId).count eventId =
    (state.published.map EventEnvelope.eventId).count eventId
  copies : ∀ message ∈ next.copies, isOf eventId message = true →
    message ∈ state.copies
  queue : next.queue.countP (isOf eventId) =
    state.queue.countP (isOf eventId)
  handling : next.handling.countP (isOf eventId) =
    state.handling.countP (isOf eventId)
  delayed : next.delayed.countP (isOf eventId) =
    state.delayed.countP (isOf eventId)
  dead : next.deadLetters eventId = state.deadLetters eventId
  attempts : next.attempts.count eventId = state.attempts.count eventId
  succeeded : next.succeeded.count eventId = state.succeeded.count eventId
  retried : next.retried.count eventId = state.retried.count eventId

omit [DecidableEq T] in
theorem Unaffected.trans {middle : State E T}
    (hfirst : Unaffected eventId state middle)
    (hsecond : Unaffected eventId middle next) :
    Unaffected eventId state next where
  maxRetries := hsecond.maxRetries.trans hfirst.maxRetries
  remembered := hfirst.remembered ∘ hsecond.remembered
  published := hsecond.published.trans hfirst.published
  copies message hmem hof :=
    hfirst.copies message (hsecond.copies message hmem hof) hof
  queue := hsecond.queue.trans hfirst.queue
  handling := hsecond.handling.trans hfirst.handling
  delayed := hsecond.delayed.trans hfirst.delayed
  dead := hsecond.dead.trans hfirst.dead
  attempts := hsecond.attempts.trans hfirst.attempts
  succeeded := hsecond.succeeded.trans hfirst.succeeded
  retried := hsecond.retried.trans hfirst.retried

omit [DecidableEq T] in
theorem countP_concat_of_not {messages : List (Message E T)}
    (hother : isOf eventId message = false) :
    (messages ++ [message]).countP (isOf eventId) =
      messages.countP (isOf eventId) := by
  rw [List.countP_append, List.countP_singleton, hother]
  rfl

omit [DecidableEq T] in
theorem countP_eraseIdx_of_not {messages : List (Message E T)}
    (hget : messages[position]? = some message)
    (hother : isOf eventId message = false) :
    (messages.eraseIdx position).countP (isOf eventId) =
      messages.countP (isOf eventId) := by
  rw [countP_eraseIdx (isOf eventId) hget, hother]
  rfl

omit [DecidableEq T] in
theorem unaffected_handleError
    (hdlq : state.consumer.config.enableDLQ = true)
    (hother : isOf eventId message = false) :
    Unaffected eventId state (state.handleError message) := by
  cases hretry : state.consumer.shouldRetry message with
  | false =>
      rw [handleError_of_not_retry hdlq hretry]
      exact ⟨rfl, id, rfl, fun _ hmem _ => hmem, rfl, rfl, rfl,
        countP_concat_of_not hother, rfl, rfl, rfl⟩
  | true =>
      rw [handleError_of_retry hdlq hretry]
      refine ⟨rfl, id, rfl, ?_, rfl, rfl, countP_concat_of_not hother,
        countP_concat_of_not hother, rfl, rfl, ?_⟩
      · intro copy hmem hof
        rcases List.mem_append.mp hmem with hold | hdelayed
        · exact List.mem_append_left _ hold
        · rcases List.mem_append.mp hdelayed with hold | hnew
          · exact List.mem_append_right _ hold
          · rw [List.mem_singleton.mp hnew] at hof
            exact absurd (hother.symm.trans hof) Bool.false_ne_true
      · have hcount : (message.content.map
            EventEnvelope.eventId).toList.count eventId = 0 := by
          apply List.count_eq_zero.mpr
          intro hmem
          rw [Option.mem_toList, Option.map_eq_some_iff] at hmem
          exact absurd (hother.symm.trans (isOf_iff.mpr hmem))
            Bool.false_ne_true
        rw [List.count_append, hcount]
        rfl

omit [DecidableEq T] in
theorem unaffected_eraseQueue (hget : state.queue[position]? = some message)
    (hother : isOf eventId message = false) :
    Unaffected eventId state
      { state with queue := state.queue.eraseIdx position } := by
  exact ⟨rfl, id, rfl, fun _ hmem _ => copies_eraseQueue state position hmem,
    countP_eraseIdx_of_not hget hother, rfl, rfl, rfl, rfl, rfl, rfl⟩

omit [DecidableEq T] in
theorem unaffected_eraseHandling
    (hget : state.handling[position]? = some message)
    (hother : isOf eventId message = false) :
    Unaffected eventId state
      { state with handling := state.handling.eraseIdx position } := by
  exact ⟨rfl, id, rfl,
    fun _ hmem _ => copies_eraseHandling state position hmem, rfl,
    countP_eraseIdx_of_not hget hother, rfl, rfl, rfl, rfl, rfl⟩

omit [DecidableEq T] in
theorem unaffected_eraseDelayed
    (hget : state.delayed[position]? = some message)
    (hother : isOf eventId message = false) :
    Unaffected eventId state
      { state with delayed := state.delayed.eraseIdx position } := by
  exact ⟨rfl, id, rfl,
    fun _ hmem _ => copies_eraseDelayed state position hmem, rfl, rfl,
    countP_eraseIdx_of_not hget hother, rfl, rfl, rfl, rfl⟩

omit [DecidableEq T] in
theorem unaffected_enqueue (state : State E T)
    (hother : isOf eventId message = false) :
    Unaffected eventId state
      { state with queue := state.queue ++ [message] } := by
  refine ⟨rfl, id, rfl, fun copy hmem hof => ?_, countP_concat_of_not hother,
    rfl, rfl, rfl, rfl, rfl, rfl⟩
  have hne : copy ≠ message := by
    rintro rfl
    exact absurd (hother.symm.trans hof) Bool.false_ne_true
  simpa [State.copies, hne] using hmem

omit [DecidableEq T] in
theorem count_concat_of_ne {eventIds : List E} {other : E}
    (hne : other ≠ eventId) :
    (eventIds ++ [other]).count eventId = eventIds.count eventId := by
  rw [List.count_append, List.count_singleton, if_neg (by simpa using hne)]
  rfl

omit [DecidableEq T] in
theorem ne_of_not_isOf (hcontent : message.content = some envelope)
    (hother : isOf eventId message = false) : envelope.eventId ≠ eventId := by
  rw [isOf_of_content hcontent] at hother
  exact of_decide_eq_false hother

theorem unaffected_deliver (hdlq : state.consumer.config.enableDLQ = true)
    (hget : state.queue[position]? = some message)
    (hother : isOf eventId message = false) :
    Unaffected eventId state (state.deliver position message) := by
  have herase := unaffected_eraseQueue hget hother
  unfold State.deliver
  split
  · exact herase
  · rename_i envelope hreceive
    have hne := ne_of_not_isOf (content_of_receive hreceive) hother
    apply herase.trans
    refine ⟨rfl, id, rfl, fun copy hmem hof => ?_, rfl,
      countP_concat_of_not hother, rfl, rfl, count_concat_of_ne hne, rfl,
      rfl⟩
    have hcopy : copy ≠ message := by
      rintro rfl
      exact absurd (hother.symm.trans hof) Bool.false_ne_true
    simpa [State.copies, hcopy] using hmem
  · exact herase.trans (unaffected_handleError hdlq hother)

omit [DecidableEq T] in
theorem unaffected_succeed (hget : state.handling[position]? = some message)
    (hcontent : message.content = some envelope)
    (hother : isOf eventId message = false) :
    Unaffected eventId state (state.succeed position message envelope) := by
  have hne := ne_of_not_isOf hcontent hother
  apply (unaffected_eraseHandling hget hother).trans
  refine ⟨rfl, fun hmem => ?_, rfl, fun _ hmem _ => hmem, rfl, rfl, rfl, rfl,
    rfl, count_concat_of_ne hne, rfl⟩
  rcases mem_of_mem_remember hmem with heq | hold
  · exact absurd heq.symm hne
  · exact hold

omit [DecidableEq T] in
theorem unaffected_fail (hdlq : state.consumer.config.enableDLQ = true)
    (hget : state.handling[position]? = some message)
    (hother : isOf eventId message = false) :
    Unaffected eventId state (state.fail position message) :=
  (unaffected_eraseHandling hget hother).trans
    (unaffected_handleError hdlq hother)

omit [DecidableEq T] in
theorem unaffected_fire (hget : state.delayed[position]? = some message)
    (hother : isOf eventId message = false) :
    Unaffected eventId state (state.fire position message) :=
  (unaffected_eraseDelayed hget hother).trans (unaffected_enqueue _ hother)

omit [DecidableEq T] in
theorem unaffected_publish (state : State E T)
    (hne : envelope.eventId ≠ eventId) (retryCount : Option ℕ) :
    Unaffected eventId state
      { state with
        published := state.published ++ [envelope]
        queue := state.queue ++ [⟨some envelope, retryCount⟩] } := by
  have hother : isOf eventId (⟨some envelope, retryCount⟩ : Message E T) =
      false := decide_eq_false hne
  apply (unaffected_enqueue state hother).trans
  refine ⟨rfl, id, ?_, fun _ hmem _ => hmem, rfl, rfl, rfl, rfl, rfl, rfl,
    rfl⟩
  rw [List.map_append]
  exact count_concat_of_ne hne

end TsCommons.MessagingRabbitmq.DeadLettering
