import TsCommons.Foundations.InsertionMap
import TsCommons.Foundations.JsonRoundTrip

/-!
# The EventBridge consumer

A poll gets a batch of messages from the queue and processes one after the
other.  A body that is no JSON text and a handler that fails concern their own
message only.  A body whose value is `null`, or has no `detail`, ends the whole
poll.
-/

namespace TsCommons.MessagingEventbridge

open Foundations

variable {N H : Type}

/-- A parsed value, or `undefined`. -/
abbrev Value (N : Type) := Option (Json N)

namespace Value

/-- `null` and `undefined`, whose properties cannot be read. -/
def isNullish : Value N → Bool
  | none => true
  | some .null => true
  | some _ => false

/-- A property of a value that is not nullish. -/
def member (key : String) : Value N → Value N
  | some (.object fields) => InsertionMap.lookup key.toList fields
  | _ => none

def property (key : String) (value : Value N) : Option (Value N) :=
  if value.isNullish then none else some (value.member key)

def text : Value N → Option Text
  | some (.string text) => some text
  | _ => none

/-- `value ?? other`. -/
def orElse (value : Value N) (other : Json N) : Json N :=
  match value with
  | none => other
  | some .null => other
  | some present => present

/-- `typeof value === 'object' && value !== null`. -/
def record : Value N → Value N
  | some (.object fields) => some (.object fields)
  | some (.array items) => some (.array items)
  | _ => none

/-- How a set compares its elements.  Objects come from different bodies. -/
def same [BEq N] : Value N → Value N → Bool
  | none, none => true
  | some .null, some .null => true
  | some (.bool left), some (.bool right) => left == right
  | some (.number left), some (.number right) => left == right
  | some (.string left), some (.string right) => left == right
  | _, _ => false

end Value

structure EventEnvelope (N : Type) where
  eventId : Value N
  eventType : Text
  eventVersion : Text
  timestamp : Json N
  payload : Json N
  correlationId : Option Text
  causationId : Option Text
  tenantId : Option Text
  metadata : Value N

/-- A message of the queue, whether its handler would succeed, and the time
at which it is processed. -/
structure Message where
  body : Option Text
  receiptHandle : Option Text
  succeeds : Bool
  now : Text

inductive Effect (N H : Type)
  | handed (handler : H) (envelope : EventEnvelope N)
  | deleted (receiptHandle : Text)

/-- What is read off a parsed body first. -/
structure Event (N : Type) where
  sqsMessage : Value N
  eventType : Value N
  detail : Value N
  eventId : Value N

namespace Event

def read (sqsMessage : Value N) : Option (Event N) := do
  let eventType ← sqsMessage.property "detail-type"
  let detail ← sqsMessage.property "detail"
  let ownId ← detail.property "eventId"
  let eventId := match ownId.text with
    | some text => some (.string text)
    | none => sqsMessage.member "id"
  return ⟨sqsMessage, eventType, detail, eventId⟩

def envelope (event : Event N) (eventType now : Text) : EventEnvelope N where
  eventId := event.eventId
  eventType := eventType
  eventVersion := (event.detail.member "eventVersion").text.getD "1.0".toList
  timestamp :=
    match (event.detail.member "timestamp").text with
    | some text => .string text
    | none => (event.sqsMessage.member "time").orElse (.string now)
  payload :=
    (event.detail.member "payload").orElse (event.detail.getD .null)
  correlationId := (event.detail.member "correlationId").text
  causationId := (event.detail.member "causationId").text
  tenantId := (event.detail.member "tenantId").text
  metadata := (event.detail.member "metadata").record

end Event

@[irreducible] def maxDedupSize : ℕ := 10000

structure EventBridgeEventConsumer (N H : Type) where
  handlers : InsertionMap Text H
  processedIds : List (Value N)

namespace EventBridgeEventConsumer

variable [BEq N]

def isProcessed (consumer : EventBridgeEventConsumer N H)
    (eventId : Value N) : Bool :=
  consumer.processedIds.any (·.same eventId)

def evict : List (Value N) → List (Value N)
  | some _ :: rest => rest
  | ids => ids

def trackProcessedId (consumer : EventBridgeEventConsumer N H)
    (eventId : Value N) : EventBridgeEventConsumer N H :=
  let ids :=
    if maxDedupSize ≤ consumer.processedIds.length then
      evict consumer.processedIds
    else consumer.processedIds
  { consumer with
    processedIds :=
      if ids.any (·.same eventId) then ids else ids ++ [eventId] }

/-- The names under which handlers are registered are texts. -/
def handlerOf (consumer : EventBridgeEventConsumer N H)
    (eventType : Value N) : Option (Text × H) := do
  let name ← eventType.text
  let handler ← consumer.handlers.get name
  return (name, handler)

/-- The part of `processMessage` after the event id has been read. -/
def dispatch (consumer : EventBridgeEventConsumer N H) (message : Message)
    (receiptHandle : Text) (event : Event N) :
    EventBridgeEventConsumer N H × List (Effect N H) :=
  if consumer.isProcessed event.eventId then
    (consumer, [.deleted receiptHandle])
  else
    match consumer.handlerOf event.eventType with
    | none => (consumer, [.deleted receiptHandle])
    | some (eventType, handler) =>
        let handed :=
          Effect.handed handler (event.envelope eventType message.now)
        if message.succeeds then
          (consumer.trackProcessedId event.eventId,
            [handed, .deleted receiptHandle])
        else (consumer, [handed])

/-- `none` when an error leaves the function. -/
def processMessage (parse : Text → Option (Json N))
    (consumer : EventBridgeEventConsumer N H) (message : Message) :
    Option (EventBridgeEventConsumer N H × List (Effect N H)) :=
  match message.body, message.receiptHandle with
  | some body, some receiptHandle =>
      match parse body with
      | none => some (consumer, [])
      | some value =>
          (Event.read (some value)).map
            (consumer.dispatch message receiptHandle)
  | _, _ => some (consumer, [])

/-- An error that leaves `processMessage` is caught outside of the loop. -/
def poll (parse : Text → Option (Json N)) :
    EventBridgeEventConsumer N H → List Message →
      EventBridgeEventConsumer N H × List (Effect N H)
  | consumer, [] => (consumer, [])
  | consumer, message :: rest =>
      match consumer.processMessage parse message with
      | none => (consumer, [])
      | some (next, effects) =>
          let (last, others) := poll parse next rest
          (last, effects ++ others)

end EventBridgeEventConsumer

/-! ## What a batch asks for -/

namespace Message

/-- An object with an object under `detail`, and a handle to delete it by. -/
def WellFormed (parse : Text → Option (Json N)) (message : Message) : Prop :=
  message.receiptHandle.isSome ∧
    ∃ fields detail, message.body.bind parse = some (.object fields) ∧
      InsertionMap.lookup "detail".toList fields = some (.object detail)

/-- The event of a message, by itself. -/
def event (parse : Text → Option (Json N)) (message : Message) :
    Option (Text × Event N) := do
  let body ← message.body
  let receiptHandle ← message.receiptHandle
  let value ← parse body
  let event ← Event.read (some value)
  return (receiptHandle, event)

/-- A JSON text whose value has no `detail`, or `null` there. -/
def Throws (parse : Text → Option (Json N)) (message : Message) : Prop :=
  message.receiptHandle.isSome ∧
    (message.body.bind parse).any fun value =>
      (Value.member "detail" (some value)).isNullish

end Message

namespace EventBridgeEventConsumer

variable [BEq N]

/-- The handler for a new event of a subscribed type. -/
def due (consumer : EventBridgeEventConsumer N H) (event : Event N) :
    Option (Text × H) :=
  if consumer.isProcessed event.eventId then none
  else consumer.handlerOf event.eventType

/-- The message is deleted when its event is a duplicate or not subscribed, or
was handled. -/
def outcome (consumer : EventBridgeEventConsumer N H) (message : Message)
    (receiptHandle : Text) (event : Event N) : List (Effect N H) :=
  (consumer.due event).toList.map (fun (eventType, handler) =>
      .handed handler (event.envelope eventType message.now)) ++
    if (consumer.due event).isNone || message.succeeds then
      [.deleted receiptHandle]
    else []

def next (consumer : EventBridgeEventConsumer N H) (message : Message)
    (event : Event N) : EventBridgeEventConsumer N H :=
  if (consumer.due event).isSome && message.succeeds then
    consumer.trackProcessedId event.eventId
  else consumer

/-- Every message that has an event gets its outcome, and later messages are
judged by the events processed before them. -/
def expected (parse : Text → Option (Json N)) :
    EventBridgeEventConsumer N H → List Message → List (Effect N H)
  | _, [] => []
  | consumer, message :: rest =>
      match message.event parse with
      | none => expected parse consumer rest
      | some (receiptHandle, event) =>
          consumer.outcome message receiptHandle event ++
            expected parse (consumer.next message event) rest

end EventBridgeEventConsumer

variable {parse : Text → Option (Json N)} {message : Message}

theorem Value.member_of_isNullish {value : Value N}
    (hnullish : value.isNullish = true) (key : String) :
    value.member key = none := by
  match value, hnullish with
  | none, _ => rfl
  | some .null, _ => rfl

theorem Event.read_eq_none_iff {value : Value N} :
    Event.read value = none ↔ (value.member "detail").isNullish = true := by
  simp only [Event.read, Value.property, Option.bind_eq_bind]
  cases hvalue : value.isNullish with
  | true => simp [Value.member_of_isNullish hvalue, Value.isNullish]
  | false =>
      cases hdetail : (value.member "detail").isNullish with
      | true => simp [hdetail]
      | false => simp [hdetail]

namespace Message

theorem event_of_parse {body receiptHandle : Text} {value : Json N}
    (hbody : message.body = some body)
    (hhandle : message.receiptHandle = some receiptHandle)
    (hparse : parse body = some value) :
    message.event parse =
      (Event.read (some value)).map (receiptHandle, ·) := by
  rw [event, hbody, hhandle]
  simp only [Option.bind_eq_bind, Option.bind_some, hparse]
  cases Event.read (some value) with
  | none => rfl
  | some event => rfl

theorem isSome_event (hformed : message.WellFormed parse) :
    (message.event parse).isSome = true := by
  obtain ⟨hhandle, fields, detail, hvalue, hdetail⟩ := hformed
  obtain ⟨receiptHandle, hhandle⟩ := Option.isSome_iff_exists.mp hhandle
  obtain ⟨body, hbody, hparse⟩ := Option.bind_eq_some_iff.mp hvalue
  have hread : Event.read (some (.object fields)) ≠ none := by
    rw [Ne, Event.read_eq_none_iff, Value.member, hdetail]
    exact Bool.false_ne_true
  rw [event_of_parse hbody hhandle hparse, Option.isSome_map]
  exact Option.isSome_iff_ne_none.mpr hread

theorem event_of_throws (hthrows : message.Throws parse) :
    message.event parse = none := by
  obtain ⟨hhandle, hany⟩ := hthrows
  obtain ⟨receiptHandle, hhandle⟩ := Option.isSome_iff_exists.mp hhandle
  obtain ⟨value, hvalue, hnullish⟩ := (Option.any_eq_true _ _).mp hany
  obtain ⟨body, hbody, hparse⟩ := Option.bind_eq_some_iff.mp hvalue
  rw [event_of_parse hbody hhandle hparse,
    Event.read_eq_none_iff.mpr hnullish, Option.map_none]

end Message

namespace EventBridgeEventConsumer

variable [BEq N] {consumer : EventBridgeEventConsumer N H}

theorem processMessage_of_parse {body receiptHandle : Text} {value : Json N}
    (hbody : message.body = some body)
    (hhandle : message.receiptHandle = some receiptHandle)
    (hparse : parse body = some value) :
    consumer.processMessage parse message =
      (Event.read (some value)).map
        (consumer.dispatch message receiptHandle) := by
  simp only [processMessage, hbody, hhandle, hparse]

theorem processMessage_of_throws (hthrows : message.Throws parse) :
    consumer.processMessage parse message = none := by
  obtain ⟨hhandle, hany⟩ := hthrows
  obtain ⟨receiptHandle, hhandle⟩ := Option.isSome_iff_exists.mp hhandle
  obtain ⟨value, hvalue, hnullish⟩ := (Option.any_eq_true _ _).mp hany
  obtain ⟨body, hbody, hparse⟩ := Option.bind_eq_some_iff.mp hvalue
  rw [processMessage_of_parse hbody hhandle hparse,
    Event.read_eq_none_iff.mpr hnullish, Option.map_none]

theorem processMessage_of_event {receiptHandle : Text} {event : Event N}
    (hevent : message.event parse = some (receiptHandle, event)) :
    consumer.processMessage parse message =
      some (consumer.dispatch message receiptHandle event) := by
  simp only [Message.event, Option.bind_eq_bind, Option.pure_def,
    Option.bind_eq_some_iff, Option.some.injEq, Prod.mk.injEq] at hevent
  obtain ⟨body, hbody, _, hhandle, value, hparse, _, hread, rfl, rfl⟩ :=
    hevent
  rw [processMessage_of_parse hbody hhandle hparse, hread, Option.map_some]

/-- Without a body, a handle or a JSON text there is nothing to do. -/
theorem processMessage_of_skipped (hevent : message.event parse = none)
    (hthrows : ¬message.Throws parse) :
    consumer.processMessage parse message = some (consumer, []) := by
  unfold processMessage
  split
  · rename_i body receiptHandle hbody hhandle
    split
    · rfl
    · rename_i value hparse
      have hread : Event.read (some value) = none := by
        rw [Message.event_of_parse hbody hhandle hparse] at hevent
        exact Option.map_eq_none_iff.mp hevent
      refine absurd ⟨?_, ?_⟩ hthrows
      · rw [hhandle, Option.isSome_some]
      · rw [hbody, Option.bind_some, hparse, Option.any_some]
        exact Event.read_eq_none_iff.mp hread
  · rfl

theorem dispatch_eq (receiptHandle : Text) (event : Event N) :
    consumer.dispatch message receiptHandle event =
      (consumer.next message event,
        consumer.outcome message receiptHandle event) := by
  unfold dispatch next outcome due
  split
  · rfl
  · cases hhandler : consumer.handlerOf event.eventType with
    | none => rfl
    | some found =>
        cases hsucceeds : message.succeeds with
        | false => rfl
        | true => rfl

theorem outcome_ne_nil (receiptHandle : Text) (event : Event N) :
    consumer.outcome message receiptHandle event ≠ [] := by
  unfold outcome
  cases consumer.due event with
  | none => exact List.cons_ne_nil _ _
  | some found => exact List.cons_ne_nil _ _

theorem expected_eq_nil_iff {batch : List Message} :
    consumer.expected parse batch = [] ↔
      ∀ message ∈ batch, message.event parse = none := by
  induction batch with
  | nil => simp [expected]
  | cons message rest ih =>
      rw [expected, List.forall_mem_cons]
      cases hevent : message.event parse with
      | none => simpa using ih
      | some found =>
          obtain ⟨receiptHandle, event⟩ := found
          simp [outcome_ne_nil]

theorem poll_cons_of_event {receiptHandle : Text} {event : Event N}
    (hevent : message.event parse = some (receiptHandle, event))
    (rest : List Message) :
    (consumer.poll parse (message :: rest)).2 =
      consumer.outcome message receiptHandle event ++
        ((consumer.next message event).poll parse rest).2 := by
  rw [poll, processMessage_of_event hevent, dispatch_eq]

/-- The messages that have an event are handed to their handlers and deleted
one by one, those before a message that throws in full, and none after it. -/
theorem poll_eq_expected_iff (batch : List Message) :
    (consumer.poll parse batch).2 = consumer.expected parse batch ↔
      batch.Pairwise fun message later =>
        message.Throws parse → later.event parse = none := by
  induction batch generalizing consumer with
  | nil => simp [poll, expected]
  | cons message rest ih =>
      rw [List.pairwise_cons]
      by_cases hthrows : message.Throws parse
      · have hpoll : (consumer.poll parse (message :: rest)).2 = [] := by
          rw [poll, processMessage_of_throws hthrows]
        have hexpected : consumer.expected parse (message :: rest) =
            consumer.expected parse rest := by
          rw [expected, Message.event_of_throws hthrows]
        rw [hpoll, hexpected, eq_comm, expected_eq_nil_iff]
        constructor
        · intro hnone
          exact ⟨fun later hlater _ => hnone later hlater,
            List.pairwise_of_forall_mem_list
              fun _ _ later hlater _ => hnone later hlater⟩
        · intro hpairwise later hlater
          exact hpairwise.1 later hlater hthrows
      · have hhead : ∀ later ∈ rest,
            message.Throws parse → later.event parse = none :=
          fun _ _ hthrows' => absurd hthrows' hthrows
        rw [and_iff_right hhead, expected]
        cases hevent : message.event parse with
        | none =>
            rw [poll, processMessage_of_skipped hevent hthrows]
            exact ih
        | some found =>
            obtain ⟨receiptHandle, event⟩ := found
            rw [poll_cons_of_event hevent]
            exact List.append_cancel_left_eq _ _ _ |>.to_iff.trans ih

end EventBridgeEventConsumer

/-- Well-formed messages have an event, and a poll gives every event of the
batch its outcome if and only if none comes after a message whose body is a
JSON text with no `detail`. -/
theorem hasEvent_and_poll_eq_expected_iff [BEq N]
    (parse : Text → Option (Json N))
    (consumer : EventBridgeEventConsumer N H) (batch : List Message) :
    (∀ message : Message, message.WellFormed parse →
      (message.event parse).isSome = true) ∧
    ((consumer.poll parse batch).2 = consumer.expected parse batch ↔
      batch.Pairwise fun message later =>
        message.Throws parse → later.event parse = none) :=
  ⟨fun _ => Message.isSome_event, consumer.poll_eq_expected_iff batch⟩

section Sample

def orderCreated : Json ℕ :=
  .object [("detail-type".toList, .string "OrderCreated".toList),
    ("id".toList, .string "e-1".toList), ("detail".toList, .object [])]

def sampleBatch : List Message :=
  [⟨some "null".toList, some "first".toList, true, []⟩,
    ⟨some (Json.stringify Json.decimal orderCreated), some "second".toList,
      true, []⟩]

def sampleConsumer : EventBridgeEventConsumer ℕ ℕ where
  handlers := InsertionMap.empty.set "OrderCreated".toList 0
  processedIds := []

theorem not_poll_eq_expected :
    ¬∀ (consumer : EventBridgeEventConsumer ℕ ℕ) (batch : List Message),
      (consumer.poll (Json.parse Json.decimal) batch).2 =
        consumer.expected (Json.parse Json.decimal) batch := by
  intro hall
  have hlength := congrArg List.length (hall sampleConsumer sampleBatch)
  revert hlength
  decide +kernel

end Sample

end TsCommons.MessagingEventbridge
