import TsCommons.MessagingRabbitmq.Deduplication

/-!
# The Kafka event consumer

The members of a consumer group handle the messages of their partitions one
after another and commit an offset when a message is dealt with.  Partitions
are assigned and revoked at any time, handlers and commits fail, and members
crash.  What lies below a committed offset has been dealt with, and a member
handles an event once, unless as many others as it remembers lie in between.
-/

namespace TsCommons.MessagingKafka

open Foundations MessagingRabbitmq

variable {E T : Type}

/-- What `handleMessage` reads of a message: each field may be undefined. -/
abbrev Envelope (E T : Type) := EventEnvelope (Option E) (Option T)

/-- The value of a message: null, or a text with what `JSON.parse` makes of it,
which is absent if it throws or gives `null`. -/
inductive Content (E T : Type)
  | null
  | text (parsed : Option (Envelope E T))
deriving DecidableEq

/-- `JSON.parse(message.value?.toString() ?? '{}')`. -/
def Content.parse : Content E T → Option (Envelope E T)
  | .null => some ⟨none, none⟩
  | .text parsed => parsed

structure KafkaEventConsumer (E T : Type) where
  autoCommit : Bool
  handlers : List T
  processedMessages : InsertionSet (Option E)

namespace KafkaEventConsumer

variable [DecidableEq E]

/-- `handleMessage` up to the call of the handler. -/
def receive [DecidableEq T] (consumer : KafkaEventConsumer E T)
    (message : Content E T) : Receipt (Option E) (Option T) :=
  match message.parse with
  | none => .failed
  | some envelope =>
      if envelope.eventId ∈ consumer.processedMessages then .acknowledged
      else if envelope.eventType ∉ consumer.handlers.map some then
        .acknowledged
      else .handled envelope

/-- `handleMessage` after the handler has succeeded, before it commits. -/
def markProcessed (consumer : KafkaEventConsumer E T)
    (eventId : Option E) : KafkaEventConsumer E T :=
  { consumer with
    processedMessages :=
      RabbitMQEventConsumer.remember consumer.processedMessages eventId }

end KafkaEventConsumer

/-! ## The group -/

/-- A message that a member deals with, and the assignment of the partition
under which it was fetched. -/
structure Fetched where
  partition : ℕ
  offset : ℕ
  assignment : ℕ
deriving DecidableEq

inductive Stage (E T : Type)
  | idle
  | handling (message : Fetched) (envelope : Envelope E T)
  | committing (message : Fetched)
deriving DecidableEq

/-- The partitions with what the group has committed, and the members.  A
partition belongs to one member at a time; its position is the offset that is
fetched next.  `completions` are the events that a member has handled since it
started, and `succeeded` all that were ever handled. -/
structure State (E T : Type) where
  log : ℕ → List (Content E T)
  committed : ℕ → ℕ
  owner : ℕ → Option ℕ
  assignments : ℕ → ℕ
  position : ℕ → ℕ
  consumers : ℕ → KafkaEventConsumer E T
  stages : ℕ → Stage E T
  completions : ℕ → List (Option E)
  succeeded : List (Option E)

inductive Label (E T : Type)
  | produce (partition : ℕ) (message : Content E T)
  | assign (member partition : ℕ)
  | revoke (partition : ℕ)
  | fetch (member partition : ℕ)
  | handlerSucceeds (member : ℕ)
  | handlerFails (member : ℕ)
  | commitOffsets (member : ℕ) (arrives : Bool)
  | autoCommits (partition : ℕ)
  | restart (member : ℕ)

namespace State

def initial (autoCommit : Bool) (handlers : List T) : State E T where
  log := fun _ => []
  committed := fun _ => 0
  owner := fun _ => none
  assignments := fun _ => 0
  position := fun _ => 0
  consumers := fun _ => ⟨autoCommit, handlers, .empty⟩
  stages := fun _ => .idle
  completions := fun _ => []
  succeeded := []

def setStage (state : State E T) (member : ℕ) (stage : Stage E T) :
    State E T :=
  { state with stages := Function.update state.stages member stage }

@[simp] theorem stages_setStage (state : State E T) (member : ℕ)
    (stage : Stage E T) :
    (state.setStage member stage).stages =
      Function.update state.stages member stage := rfl

/-- The partition is still the member's, as it was when it was fetched. -/
def Owns (state : State E T) (member : ℕ) (message : Fetched) : Prop :=
  state.owner message.partition = some member ∧
    state.assignments message.partition = message.assignment

instance (state : State E T) (member : ℕ) (message : Fetched) :
    Decidable (state.Owns member message) :=
  inferInstanceAs (Decidable (_ ∧ _))

/-- The group goes on behind the message. -/
def advance (state : State E T) (message : Fetched) : State E T :=
  { state with
    position :=
      Function.update state.position message.partition (message.offset + 1) }

@[simp] theorem position_advance (state : State E T) (message : Fetched) :
    (state.advance message).position =
      Function.update state.position message.partition
        (message.offset + 1) := rfl

/-- The end of `handleMessage`: the offset is committed unless the client does
that by itself. -/
def finish (state : State E T) (member : ℕ) (message : Fetched) : State E T :=
  if (state.consumers member).autoCommit = false then
    state.setStage member (.committing message)
  else if state.Owns member message then
    (state.advance message).setStage member .idle
  else state.setStage member .idle

/-- The broker refuses the offset of a partition that is the member's no
more. -/
def commit (state : State E T) (member : ℕ) (message : Fetched)
    (arrives : Bool) : State E T :=
  if arrives = true ∧ state.Owns member message then
    { (state.advance message).setStage member .idle with
      committed := Function.update state.committed message.partition
        (message.offset + 1) }
  else state.setStage member .idle

def assign (state : State E T) (member partition : ℕ) : State E T :=
  { state with
    owner := Function.update state.owner partition (some member)
    assignments := Function.update state.assignments partition
      (state.assignments partition + 1)
    position := Function.update state.position partition
      (state.committed partition) }

def restart (state : State E T) (member : ℕ) : State E T :=
  { state with
    owner := fun partition =>
      if state.owner partition = some member then none
      else state.owner partition
    consumers := Function.update state.consumers member
      { state.consumers member with processedMessages := .empty }
    stages := Function.update state.stages member .idle
    completions := Function.update state.completions member [] }

variable [DecidableEq E]

def fetch [DecidableEq T] (state : State E T) (member partition : ℕ)
    (message : Content E T) : State E T :=
  let fetched : Fetched :=
    ⟨partition, state.position partition, state.assignments partition⟩
  match (state.consumers member).receive message with
  | .failed => state
  | .acknowledged => state.finish member fetched
  | .handled envelope => state.setStage member (.handling fetched envelope)

def succeed (state : State E T) (member : ℕ) (message : Fetched)
    (envelope : Envelope E T) : State E T :=
  { state with
    consumers := Function.update state.consumers member
      ((state.consumers member).markProcessed envelope.eventId)
    completions := Function.update state.completions member
      (state.completions member ++ [envelope.eventId])
    succeeded := state.succeeded ++ [envelope.eventId] }.finish member message

end State

variable [DecidableEq E] [DecidableEq T]

def step (state : State E T) : Label E T → Option (State E T)
  | .produce partition message =>
      some { state with
        log := Function.update state.log partition
          (state.log partition ++ [message]) }
  | .assign member partition =>
      if state.owner partition = none then some (state.assign member partition)
      else none
  | .revoke partition =>
      some { state with owner := Function.update state.owner partition none }
  | .fetch member partition =>
      if state.stages member = .idle ∧ state.owner partition = some member then
        ((state.log partition)[state.position partition]?).map
          (state.fetch member partition)
      else none
  | .handlerSucceeds member =>
      match state.stages member with
      | .handling message envelope =>
          some (state.succeed member message envelope)
      | _ => none
  | .handlerFails member =>
      match state.stages member with
      | .handling _ _ => some (state.setStage member .idle)
      | _ => none
  | .commitOffsets member arrives =>
      match state.stages member with
      | .committing message => some (state.commit member message arrives)
      | _ => none
  | .autoCommits partition =>
      if (state.owner partition).any (fun member =>
          (state.consumers member).autoCommit) = true then
        some { state with
          committed := Function.update state.committed partition
            (state.position partition) }
      else none
  | .restart member => some (state.restart member)

/-! ## What has been dealt with -/

omit [DecidableEq E] [DecidableEq T]

/-- The message at the offset is read as the envelope. -/
def Reads (state : State E T) (partition offset : ℕ)
    (envelope : Envelope E T) : Prop :=
  ∃ content, (state.log partition)[offset]? = some content ∧
    content.parse = some envelope

/-- The message at the offset can be read, and its event has been handled if
there is a handler for it. -/
def DealtWith (handlers : List T) (state : State E T)
    (partition offset : ℕ) : Prop :=
  ∃ envelope, Reads state partition offset envelope ∧
    (envelope.eventType ∈ handlers.map some →
      envelope.eventId ∈ state.succeeded)

def Stage.message : Stage E T → Option Fetched
  | .idle => none
  | .handling message _ => some message
  | .committing message => some message

structure Invariant (handlers : List T) (state : State E T) : Prop where
  subscribed : ∀ member, (state.consumers member).handlers = handlers
  remembered : ∀ member eventId,
    eventId ∈ (state.consumers member).processedMessages →
      eventId ∈ state.succeeded
  committed : ∀ partition offset, offset < state.committed partition →
    DealtWith handlers state partition offset
  position : ∀ partition member, state.owner partition = some member →
    ∀ offset < state.position partition,
      DealtWith handlers state partition offset
  placed : ∀ member message, (state.stages member).message = some message →
    message.assignment ≤ state.assignments message.partition ∧
      (state.Owns member message →
        state.position message.partition = message.offset)
  handling : ∀ member message envelope,
    state.stages member = .handling message envelope →
      Reads state message.partition message.offset envelope
  committing : ∀ member message, state.stages member = .committing message →
    DealtWith handlers state message.partition message.offset

section Delivery

variable {handlers : List T} {state next : State E T} {label : Label E T}
  {member partition offset : ℕ} {message : Fetched}
  {envelope : Envelope E T}

theorem DealtWith.mono (hdealt : DealtWith handlers state partition offset)
    (hlog : ∀ content, (state.log partition)[offset]? = some content →
      (next.log partition)[offset]? = some content)
    (hsucceeded : ∀ eventId ∈ state.succeeded, eventId ∈ next.succeeded) :
    DealtWith handlers next partition offset := by
  obtain ⟨envelope, ⟨content, hcontent, hparse⟩, hhandled⟩ := hdealt
  exact ⟨envelope, ⟨content, hlog _ hcontent, hparse⟩,
    fun htype => hsucceeded _ (hhandled htype)⟩

theorem initial_invariant (autoCommit : Bool) (handlers : List T) :
    Invariant handlers (State.initial autoCommit handlers : State E T) where
  subscribed _ := rfl
  remembered _ _ hmem := nomatch hmem
  committed _ _ hlt := nomatch hlt
  position _ _ howner := nomatch howner
  placed _ _ hmessage := nomatch hmessage
  handling _ _ _ hstage := nomatch hstage
  committing _ _ hstage := nomatch hstage

theorem Invariant.produce (hinv : Invariant handlers state) (partition : ℕ)
    (content : Content E T) :
    Invariant handlers { state with
      log := Function.update state.log partition
        (state.log partition ++ [content]) } := by
  have hlog : ∀ (other offset : ℕ) (found : Content E T),
      (state.log other)[offset]? = some found →
      (Function.update state.log partition
        (state.log partition ++ [content]) other)[offset]? = some found := by
    intro other offset found hfound
    by_cases hother : other = partition
    · subst other
      rw [Function.update_self, List.getElem?_append_left
        (List.getElem?_eq_some_iff.mp hfound).1]
      exact hfound
    · rw [Function.update_of_ne hother]
      exact hfound
  have hdealt : ∀ {other offset}, DealtWith handlers state other offset →
      DealtWith handlers { state with
        log := Function.update state.log partition
          (state.log partition ++ [content]) } other offset :=
    fun hbefore => hbefore.mono (hlog _ _) fun _ hmem => hmem
  exact
    { subscribed := hinv.subscribed
      remembered := hinv.remembered
      committed := fun other offset hlt =>
        hdealt (hinv.committed other offset hlt)
      position := fun other owner howner offset hlt =>
        hdealt (hinv.position other owner howner offset hlt)
      placed := hinv.placed
      handling := fun other message envelope hstage =>
        have ⟨found, hfound, hparse⟩ :=
          hinv.handling other message envelope hstage
        ⟨found, hlog _ _ _ hfound, hparse⟩
      committing := fun other message hstage =>
        hdealt (hinv.committing other message hstage) }

/-- A member that goes on to a stage of the same message, or to none. -/
theorem Invariant.setStage (hinv : Invariant handlers state)
    {stage : Stage E T}
    (hplaced : ∀ message, stage.message = some message →
      message.assignment ≤ state.assignments message.partition ∧
        (state.Owns member message →
          state.position message.partition = message.offset))
    (hhandling : ∀ message envelope, stage = .handling message envelope →
      Reads state message.partition message.offset envelope)
    (hcommitting : ∀ message, stage = .committing message →
      DealtWith handlers state message.partition message.offset) :
    Invariant handlers (state.setStage member stage) where
  subscribed := hinv.subscribed
  remembered := hinv.remembered
  committed := hinv.committed
  position := hinv.position
  placed := by
    intro other message hmessage
    by_cases hother : other = member
    · subst other
      rw [State.stages_setStage, Function.update_self] at hmessage
      exact hplaced message hmessage
    · rw [State.stages_setStage, Function.update_of_ne hother] at hmessage
      exact hinv.placed other message hmessage
  handling := by
    intro other message envelope hstage
    by_cases hother : other = member
    · subst other
      rw [State.stages_setStage, Function.update_self] at hstage
      exact hhandling message envelope hstage
    · rw [State.stages_setStage, Function.update_of_ne hother] at hstage
      exact hinv.handling other message envelope hstage
  committing := by
    intro other message hstage
    by_cases hother : other = member
    · subst other
      rw [State.stages_setStage, Function.update_self] at hstage
      exact hcommitting message hstage
    · rw [State.stages_setStage, Function.update_of_ne hother] at hstage
      exact hinv.committing other message hstage

theorem Invariant.setIdle (hinv : Invariant handlers state) (member : ℕ) :
    Invariant handlers (state.setStage member .idle) :=
  hinv.setStage nofun nofun nofun

theorem Invariant.advance (hinv : Invariant handlers state)
    (howns : state.Owns member message)
    (hposition : state.position message.partition = message.offset)
    (hdealt : DealtWith handlers state message.partition message.offset) :
    Invariant handlers ((state.advance message).setStage member .idle) where
  subscribed := hinv.subscribed
  remembered := hinv.remembered
  committed := hinv.committed
  position := by
    intro other owner howner offset hlt
    change offset < (state.advance message).position other at hlt
    rw [State.position_advance] at hlt
    by_cases hother : other = message.partition
    · subst hother
      rw [Function.update_self] at hlt
      rcases Nat.lt_succ_iff_lt_or_eq.mp hlt with hbefore | heq
      · exact hinv.position _ owner howner offset
          (hposition.symm ▸ hbefore)
      · rw [heq]
        exact hdealt
    · rw [Function.update_of_ne hother] at hlt
      exact hinv.position other owner howner offset hlt
  placed := by
    intro other found hfound
    by_cases hmember : other = member
    · subst other
      rw [State.stages_setStage, Function.update_self] at hfound
      cases hfound
    · rw [State.stages_setStage, Function.update_of_ne hmember] at hfound
      obtain ⟨hassignment, hplace⟩ := hinv.placed other found hfound
      refine ⟨hassignment, fun hother => ?_⟩
      have hne : found.partition ≠ message.partition := by
        intro heq
        have howner : state.owner found.partition = some other := hother.1
        rw [heq, howns.1] at howner
        exact hmember (Option.some.inj howner).symm
      change (state.advance message).position found.partition = found.offset
      rw [State.position_advance, Function.update_of_ne hne]
      exact hplace hother
  handling := (hinv.setIdle member).handling
  committing := (hinv.setIdle member).committing

theorem Invariant.finish (hinv : Invariant handlers state)
    (hassignment : message.assignment ≤ state.assignments message.partition)
    (hposition : state.Owns member message →
      state.position message.partition = message.offset)
    (hdealt : DealtWith handlers state message.partition message.offset) :
    Invariant handlers (state.finish member message) := by
  unfold State.finish
  split
  · apply hinv.setStage
    · intro other hother
      cases hother
      exact ⟨hassignment, hposition⟩
    · exact nofun
    · intro other hother
      cases hother
      exact hdealt
  · split
    next howns => exact hinv.advance howns (hposition howns) hdealt
    next => exact hinv.setIdle member

theorem Invariant.commit (hinv : Invariant handlers state)
    (hstage : state.stages member = .committing message) (arrives : Bool) :
    Invariant handlers (state.commit member message arrives) := by
  unfold State.commit
  split
  next howns =>
    have hmessage : (state.stages member).message = some message := by
      rw [hstage]
      rfl
    have hposition := (hinv.placed member message hmessage).2 howns.2
    have hdealt := hinv.committing member message hstage
    have hadvanced := hinv.advance howns.2 hposition hdealt
    refine { hadvanced with committed := ?_ }
    intro other offset hlt
    dsimp only at hlt
    by_cases hother : other = message.partition
    · subst hother
      rw [Function.update_self] at hlt
      apply hadvanced.position _ member howns.2.1
      change offset < (state.advance message).position message.partition
      rw [State.position_advance, Function.update_self]
      exact hlt
    · rw [Function.update_of_ne hother] at hlt
      exact hinv.committed other offset hlt
  next => exact hinv.setIdle member

theorem Invariant.assign (hinv : Invariant handlers state)
    (member partition : ℕ) :
    Invariant handlers (state.assign member partition) where
  subscribed := hinv.subscribed
  remembered := hinv.remembered
  committed := hinv.committed
  position := by
    intro other owner howner offset hlt
    rw [State.assign] at howner hlt
    dsimp only at howner hlt
    by_cases hother : other = partition
    · subst other
      rw [Function.update_self] at hlt
      exact hinv.committed partition offset hlt
    · rw [Function.update_of_ne hother] at howner hlt
      exact hinv.position other owner howner offset hlt
  placed := by
    intro other message hmessage
    obtain ⟨hassignment, hplace⟩ := hinv.placed other message hmessage
    unfold State.Owns
    rw [State.assign]
    dsimp only
    by_cases hpartition : message.partition = partition
    · rw [← hpartition, Function.update_self, Function.update_self]
      refine ⟨hassignment.trans (Nat.le_succ _), fun howns => ?_⟩
      have hequal := howns.2
      omega
    · rw [Function.update_of_ne hpartition, Function.update_of_ne hpartition,
        Function.update_of_ne hpartition]
      exact ⟨hassignment, hplace⟩
  handling := hinv.handling
  committing := hinv.committing

/-- Partitions may be taken from their members. -/
theorem Invariant.disown (hinv : Invariant handlers state)
    (owner : ℕ → Option ℕ)
    (howner : ∀ partition member, owner partition = some member →
      state.owner partition = some member) :
    Invariant handlers { state with owner := owner } :=
  { hinv with
    position := fun partition member hmember =>
      hinv.position partition member (howner partition member hmember)
    placed := fun member message hmessage =>
      ⟨(hinv.placed member message hmessage).1, fun howns =>
        (hinv.placed member message hmessage).2
          ⟨howner _ _ howns.1, howns.2⟩⟩ }

theorem Invariant.restart (hinv : Invariant handlers state) (member : ℕ) :
    Invariant handlers (state.restart member) := by
  have hdisowned := (hinv.setIdle member).disown
    (fun partition =>
      if state.owner partition = some member then none
      else state.owner partition)
    (fun partition other hother =>
      (Option.ite_none_left_eq_some.mp hother).2)
  refine { hdisowned with subscribed := ?_, remembered := ?_ }
  · intro other
    rw [State.restart]
    dsimp only
    by_cases hother : other = member
    · subst other
      rw [Function.update_self]
      exact hinv.subscribed _
    · rw [Function.update_of_ne hother]
      exact hinv.subscribed other
  · intro other eventId hmem
    rw [State.restart] at hmem
    dsimp only at hmem
    by_cases hother : other = member
    · subst other
      rw [Function.update_self] at hmem
      cases hmem
    · rw [Function.update_of_ne hother] at hmem
      exact hinv.remembered other eventId hmem

theorem dealtWith_of_receive [DecidableEq E] [DecidableEq T]
    (hinv : Invariant handlers state) {content : Content E T}
    (hcontent : (state.log partition)[offset]? = some content)
    (hreceive : (state.consumers member).receive content = .acknowledged) :
    DealtWith handlers state partition offset := by
  unfold KafkaEventConsumer.receive at hreceive
  split at hreceive
  · cases hreceive
  · rename_i envelope hparse
    refine ⟨envelope, ⟨content, hcontent, hparse⟩, fun htype => ?_⟩
    split at hreceive
    next hmem => exact hinv.remembered member _ hmem
    next =>
      rw [hinv.subscribed member, if_neg (not_not.mpr htype)] at hreceive
      cases hreceive

theorem content_of_receive [DecidableEq E] [DecidableEq T]
    {consumer : KafkaEventConsumer E T} {content : Content E T}
    (hreceive : consumer.receive content = .handled envelope) :
    content.parse = some envelope ∧
      envelope.eventId ∉ consumer.processedMessages := by
  unfold KafkaEventConsumer.receive at hreceive
  split at hreceive
  · cases hreceive
  · rename_i hparse
    split_ifs at hreceive with hmem htype
    cases hreceive
    exact ⟨hparse, hmem⟩

theorem Invariant.fetch [DecidableEq E] [DecidableEq T]
    (hinv : Invariant handlers state) {content : Content E T}
    (hcontent : (state.log partition)[state.position partition]? =
      some content) :
    Invariant handlers (state.fetch member partition content) := by
  unfold State.fetch
  dsimp only
  split
  next => exact hinv
  next hreceive =>
    exact hinv.finish le_rfl (fun _ => rfl)
      (dealtWith_of_receive hinv hcontent hreceive)
  next envelope hreceive =>
    obtain ⟨hparse, -⟩ := content_of_receive hreceive
    apply hinv.setStage
    · intro message hmessage
      cases hmessage
      exact ⟨le_rfl, fun _ => rfl⟩
    · intro message found hstage
      cases hstage
      exact ⟨content, hcontent, hparse⟩
    · exact nofun

/-- The event of a message whose handler has succeeded. -/
theorem Invariant.succeed [DecidableEq E] (hinv : Invariant handlers state)
    (hstage : state.stages member = .handling message envelope) :
    Invariant handlers (state.succeed member message envelope) := by
  have hmessage : (state.stages member).message = some message := by
    rw [hstage]
    rfl
  have hdealt : ∀ {other offset : ℕ}, DealtWith handlers state other offset →
      DealtWith handlers { state with
        succeeded := state.succeeded ++ [envelope.eventId] } other offset :=
    fun hbefore => hbefore.mono (fun _ hcontent => hcontent)
      fun _ hmem => List.mem_append_left _ hmem
  obtain ⟨hassignment, hposition⟩ := hinv.placed member message hmessage
  unfold State.succeed
  apply Invariant.finish
  · refine
      { subscribed := ?_
        remembered := ?_
        committed := fun other offset hlt =>
          hdealt (hinv.committed other offset hlt)
        position := fun other owner howner offset hlt =>
          hdealt (hinv.position other owner howner offset hlt)
        placed := hinv.placed
        handling := hinv.handling
        committing := fun other found hfound =>
          hdealt (hinv.committing other found hfound) }
    · intro other
      dsimp only
      by_cases hother : other = member
      · subst other
        rw [Function.update_self]
        exact hinv.subscribed _
      · rw [Function.update_of_ne hother]
        exact hinv.subscribed other
    · intro other eventId hmem
      dsimp only at hmem ⊢
      by_cases hother : other = member
      · subst other
        rw [Function.update_self] at hmem
        rcases mem_of_mem_remember hmem with heq | hbefore
        · exact List.mem_append_right _ (List.mem_singleton.mpr heq)
        · exact List.mem_append_left _ (hinv.remembered _ _ hbefore)
      · rw [Function.update_of_ne hother] at hmem
        exact List.mem_append_left _ (hinv.remembered other eventId hmem)
  · exact hassignment
  · exact hposition
  · exact ⟨envelope, hinv.handling member message envelope hstage,
      fun _ => List.mem_append_right _ List.mem_cons_self⟩

theorem Invariant.step [DecidableEq E] [DecidableEq T]
    (hinv : Invariant handlers state) (hstep : step state label = some next) :
    Invariant handlers next := by
  cases label with
  | produce partition content =>
      cases hstep
      exact hinv.produce partition content
  | assign member partition =>
      obtain ⟨-, hassign⟩ := Option.ite_none_right_eq_some.mp hstep
      cases hassign
      exact hinv.assign member partition
  | revoke partition =>
      cases hstep
      apply hinv.disown
      intro other member howner
      by_cases hother : other = partition
      · subst other
        rw [Function.update_self] at howner
        cases howner
      · rw [Function.update_of_ne hother] at howner
        exact howner
  | fetch member partition =>
      obtain ⟨-, hfetch⟩ := Option.ite_none_right_eq_some.mp hstep
      obtain ⟨content, hcontent, rfl⟩ := Option.map_eq_some_iff.mp hfetch
      exact hinv.fetch hcontent
  | handlerSucceeds member =>
      simp only [MessagingKafka.step] at hstep
      split at hstep
      next message envelope hstage =>
        cases hstep
        exact hinv.succeed hstage
      next => cases hstep
  | handlerFails member =>
      simp only [MessagingKafka.step] at hstep
      split at hstep
      next =>
        cases hstep
        exact hinv.setIdle member
      next => cases hstep
  | commitOffsets member arrives =>
      simp only [MessagingKafka.step] at hstep
      split at hstep
      next message hstage =>
        cases hstep
        exact hinv.commit hstage arrives
      next => cases hstep
  | autoCommits partition =>
      obtain ⟨hauto, heq⟩ := Option.ite_none_right_eq_some.mp hstep
      cases heq
      obtain ⟨member, howner, -⟩ := (Option.any_eq_true _ _).mp hauto
      refine { hinv with committed := ?_ }
      intro other offset hlt
      dsimp only at hlt
      by_cases hother : other = partition
      · subst other
        rw [Function.update_self] at hlt
        exact hinv.position _ member howner offset hlt
      · rw [Function.update_of_ne hother] at hlt
        exact hinv.committed other offset hlt
  | restart member =>
      cases hstep
      exact hinv.restart member

/-- Whatever is committed has been dealt with: the messages below a committed
offset can be read, and their events have been handled if they have a handler,
whatever is assigned, revoked, refused or lost on the way. -/
theorem dealtWith_of_lt_committed [DecidableEq E] [DecidableEq T]
    (autoCommit : Bool) (handlers : List T) {labels : List (Label E T)}
    (hrun : exec MessagingKafka.step (State.initial autoCommit handlers)
      labels = some state) {partition offset : ℕ}
    (hlt : offset < state.committed partition) :
    DealtWith handlers state partition offset :=
  (exec_invariant (fun _ _ _ hinv hstep => hinv.step hstep)
    (initial_invariant autoCommit handlers) hrun).committed partition offset
      hlt

end Delivery

/-- A commit is refused, so that the order comes again, and is committed
without being handled again.  The value of the second message is null: it has
no handler and is committed too. -/
def refusedCommit : List (Label ℕ String) :=
  [.produce 0 (.text (some ⟨some 7, some "OrderPlaced"⟩)), .produce 0 .null,
    .assign 1 0, .fetch 1 0, .handlerSucceeds 1, .commitOffsets 1 false,
    .fetch 1 0, .commitOffsets 1 true, .fetch 1 0, .commitOffsets 1 true]

def orders : State ℕ String := State.initial false ["OrderPlaced"]

theorem dealtWith_of_refusedCommit :
    ((exec step orders refusedCommit).map fun state =>
        (state.committed 0, state.succeeded)) = some (2, [some 7]) ∧
      ∀ state, exec step orders refusedCommit = some state →
        ∀ offset < 2, DealtWith ["OrderPlaced"] state 0 offset := by
  have hlast : ((exec step orders refusedCommit).map fun state =>
      (state.committed 0, state.succeeded)) = some (2, [some 7]) := by
    decide +kernel
  refine ⟨hlast, fun state hrun offset hoffset => ?_⟩
  apply dealtWith_of_lt_committed false ["OrderPlaced"] hrun
  rw [hrun, Option.map_some] at hlast
  have hcommitted : state.committed 0 = 2 :=
    congrArg Prod.fst (Option.some.inj hlast)
  omega

/-! ## Events are handled once -/

variable [DecidableEq E]

/-- The events that a member has handled since it started, each of them once
unless as many others as it remembers lie in between. -/
structure HandlesOnce (state : State E T) : Prop where
  remembered : ∀ member, (state.consumers member).processedMessages.elements =
    Deduplication.window (state.completions member)
  once : ∀ member,
    AtEvery Deduplication.FarFromEarlier (state.completions member)
  fresh : ∀ member message envelope,
    state.stages member = .handling message envelope →
      envelope.eventId ∉ (state.consumers member).processedMessages

/-- No handler is called and none succeeds. -/
structure KeepsMembers (state next : State E T) : Prop where
  consumers : next.consumers = state.consumers
  completions : next.completions = state.completions
  handling : ∀ member message envelope,
    next.stages member = .handling message envelope →
      state.stages member = .handling message envelope

section Once

variable {state next : State E T} {label : Label E T} {member : ℕ}
  {message : Fetched} {envelope : Envelope E T}

omit [DecidableEq E] in
theorem keepsMembers_setStage {stage : Stage E T}
    (hstage : ∀ message envelope, stage ≠ .handling message envelope) :
    KeepsMembers state (state.setStage member stage) where
  consumers := rfl
  completions := rfl
  handling := by
    intro other message envelope hhandling
    rw [State.stages_setStage] at hhandling
    by_cases hother : other = member
    · subst other
      rw [Function.update_self] at hhandling
      exact absurd hhandling (hstage message envelope)
    · rw [Function.update_of_ne hother] at hhandling
      exact hhandling

omit [DecidableEq E] in
theorem keepsMembers_finish (state : State E T) (member : ℕ)
    (message : Fetched) :
    KeepsMembers state (state.finish member message) := by
  unfold State.finish
  split
  · exact keepsMembers_setStage nofun
  · split
    · have hkeeps : KeepsMembers state (state.setStage member .idle) :=
        keepsMembers_setStage nofun
      exact ⟨rfl, rfl, hkeeps.handling⟩
    · exact keepsMembers_setStage nofun

omit [DecidableEq E] in
/-- The handler is no longer under way. -/
theorem handling_finish (state : State E T) (member : ℕ)
    (message found : Fetched) (envelope : Envelope E T) :
    (state.finish member message).stages member ≠
      .handling found envelope := by
  unfold State.finish
  split
  · rw [State.stages_setStage, Function.update_self]
    exact nofun
  · split <;>
    · rw [State.stages_setStage, Function.update_self]
      exact nofun

omit [DecidableEq E] in
theorem keepsMembers_commit (state : State E T) (member : ℕ)
    (message : Fetched) (arrives : Bool) :
    KeepsMembers state (state.commit member message arrives) := by
  have hkeeps : KeepsMembers state (state.setStage member .idle) :=
    keepsMembers_setStage nofun
  unfold State.commit
  split
  · exact ⟨rfl, rfl, hkeeps.handling⟩
  · exact hkeeps

theorem HandlesOnce.keepsMembers (honce : HandlesOnce state)
    (hkeeps : KeepsMembers state next) : HandlesOnce next where
  remembered other := by
    rw [hkeeps.consumers, hkeeps.completions]
    exact honce.remembered other
  once other := by
    rw [hkeeps.completions]
    exact honce.once other
  fresh other message envelope hstage := by
    rw [hkeeps.consumers]
    exact honce.fresh other message envelope
      (hkeeps.handling other message envelope hstage)

theorem initial_handlesOnce (autoCommit : Bool) (handlers : List T) :
    HandlesOnce (State.initial autoCommit handlers : State E T) where
  remembered _ := List.drop_nil.symm
  once _ := atEvery_nil
  fresh _ _ _ hstage := nomatch hstage

theorem HandlesOnce.fetch [DecidableEq T] (honce : HandlesOnce state)
    (partition : ℕ) (content : Content E T) :
    HandlesOnce (state.fetch member partition content) := by
  unfold State.fetch
  dsimp only
  split
  next => exact honce
  next => exact honce.keepsMembers (keepsMembers_finish state member _)
  next envelope hreceive =>
    obtain ⟨-, hfresh⟩ := content_of_receive hreceive
    refine ⟨honce.remembered, honce.once, ?_⟩
    intro other message found hstage
    rw [State.stages_setStage] at hstage
    by_cases hother : other = member
    · subst other
      rw [Function.update_self] at hstage
      cases hstage
      exact hfresh
    · rw [Function.update_of_ne hother] at hstage
      exact honce.fresh other message found hstage

theorem HandlesOnce.succeed (honce : HandlesOnce state)
    (hstage : state.stages member = .handling message envelope) :
    HandlesOnce (state.succeed member message envelope) := by
  have hfresh := honce.fresh member message envelope hstage
  have hremembered := honce.remembered member
  have hsize : (state.consumers member).processedMessages.size =
      (Deduplication.window (state.completions member)).length :=
    congrArg List.length hremembered
  have hle : (state.consumers member).processedMessages.size ≤
      processedLimit := by
    rw [hsize, Deduplication.length_window]
    exact Nat.min_le_right _ _
  have hnodup := (state.consumers member).processedMessages.nodup
  rw [hremembered] at hnodup
  have hfar : Deduplication.FarFromEarlier (state.completions member)
      envelope.eventId := by
    rw [Deduplication.farFromEarlier_iff hnodup, ← hremembered]
    exact hfresh
  have hwindow : (RabbitMQEventConsumer.remember
      (state.consumers member).processedMessages envelope.eventId).elements =
        Deduplication.window
          (state.completions member ++ [envelope.eventId]) := by
    rw [Deduplication.elements_remember hfresh hle, hsize, hremembered,
      ← Deduplication.window_concat]
  unfold State.succeed
  obtain ⟨hconsumers, hcompletions, hhandling⟩ :=
    keepsMembers_finish { state with
      consumers := Function.update state.consumers member
        ((state.consumers member).markProcessed envelope.eventId)
      completions := Function.update state.completions member
        (state.completions member ++ [envelope.eventId])
      succeeded := state.succeeded ++ [envelope.eventId] } member message
  constructor
  · intro other
    rw [hconsumers, hcompletions]
    dsimp only
    by_cases hother : other = member
    · subst other
      rw [Function.update_self, Function.update_self]
      exact hwindow
    · rw [Function.update_of_ne hother, Function.update_of_ne hother]
      exact honce.remembered other
  · intro other
    rw [hcompletions]
    dsimp only
    by_cases hother : other = member
    · subst other
      rw [Function.update_self]
      exact (honce.once _).concat hfar
    · rw [Function.update_of_ne hother]
      exact honce.once other
  · intro other found event hfound
    rw [hconsumers]
    dsimp only
    by_cases hother : other = member
    · subst other
      exact absurd hfound (handling_finish _ _ _ _ _)
    · rw [Function.update_of_ne hother]
      exact honce.fresh other found event (hhandling other found event hfound)

theorem HandlesOnce.restart (honce : HandlesOnce state) (member : ℕ) :
    HandlesOnce (state.restart member) := by
  unfold State.restart
  constructor
  · intro other
    dsimp only
    by_cases hother : other = member
    · subst other
      rw [Function.update_self, Function.update_self]
      exact List.drop_nil.symm
    · rw [Function.update_of_ne hother, Function.update_of_ne hother]
      exact honce.remembered other
  · intro other
    dsimp only
    by_cases hother : other = member
    · subst other
      rw [Function.update_self]
      exact atEvery_nil
    · rw [Function.update_of_ne hother]
      exact honce.once other
  · intro other message envelope hstage
    dsimp only at hstage ⊢
    by_cases hother : other = member
    · subst other
      rw [Function.update_self] at hstage
      cases hstage
    · rw [Function.update_of_ne hother] at hstage ⊢
      exact honce.fresh other message envelope hstage

theorem HandlesOnce.step [DecidableEq T] (honce : HandlesOnce state)
    (hstep : step state label = some next) : HandlesOnce next := by
  cases label with
  | produce partition content =>
      cases hstep
      exact honce.keepsMembers ⟨rfl, rfl, fun _ _ _ hstage => hstage⟩
  | assign member partition =>
      obtain ⟨-, hassign⟩ := Option.ite_none_right_eq_some.mp hstep
      cases hassign
      exact honce.keepsMembers ⟨rfl, rfl, fun _ _ _ hstage => hstage⟩
  | revoke partition =>
      cases hstep
      exact honce.keepsMembers ⟨rfl, rfl, fun _ _ _ hstage => hstage⟩
  | fetch member partition =>
      obtain ⟨-, hfetch⟩ := Option.ite_none_right_eq_some.mp hstep
      obtain ⟨content, -, rfl⟩ := Option.map_eq_some_iff.mp hfetch
      exact honce.fetch partition content
  | handlerSucceeds member =>
      simp only [MessagingKafka.step] at hstep
      split at hstep
      next message envelope hstage =>
        cases hstep
        exact honce.succeed hstage
      next => cases hstep
  | handlerFails member =>
      simp only [MessagingKafka.step] at hstep
      split at hstep
      next =>
        cases hstep
        exact honce.keepsMembers (keepsMembers_setStage nofun)
      next => cases hstep
  | commitOffsets member arrives =>
      simp only [MessagingKafka.step] at hstep
      split at hstep
      next message hstage =>
        cases hstep
        exact honce.keepsMembers
          (keepsMembers_commit state member message arrives)
      next => cases hstep
  | autoCommits partition =>
      obtain ⟨-, hcommit⟩ := Option.ite_none_right_eq_some.mp hstep
      cases hcommit
      exact honce.keepsMembers ⟨rfl, rfl, fun _ _ _ hstage => hstage⟩
  | restart member =>
      cases hstep
      exact honce.restart member

/-- A member handles an event once between two restarts, unless it handles as
many others as it remembers in between, however often the message is fetched
again. -/
theorem handlesOnce_run [DecidableEq T] (autoCommit : Bool)
    (handlers : List T) {labels : List (Label E T)}
    (hrun : exec MessagingKafka.step (State.initial autoCommit handlers)
      labels = some state) (member : ℕ) :
    AtEvery Deduplication.FarFromEarlier (state.completions member) :=
  (exec_invariant (fun _ _ _ honce hstep => honce.step hstep)
    (initial_handlesOnce autoCommit handlers) hrun).once member

end Once

theorem handlesOnce_of_refusedCommit :
    (exec step orders refusedCommit).isSome = true ∧
      ∀ state, exec step orders refusedCommit = some state →
        AtEvery Deduplication.FarFromEarlier (state.completions 1) :=
  ⟨by decide +kernel, fun _ hrun => handlesOnce_run false _ hrun 1⟩

end TsCommons.MessagingKafka
