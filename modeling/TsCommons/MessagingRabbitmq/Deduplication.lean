import TsCommons.Foundations.Execution
import TsCommons.Foundations.Since
import TsCommons.MessagingRabbitmq.RabbitMQEventConsumer
import Mathlib.Data.List.Dedup
import Mathlib.Data.List.Perm.Subperm

/-!
# Deduplication by the RabbitMQ consumer

Deliveries are handled without waiting for each other.  The handler is to
succeed for an event once, unless as many other events as are remembered
complete in between, and each delivery is to be acknowledged or rejected once.
-/

namespace TsCommons.MessagingRabbitmq.Deduplication

open Foundations

variable {E T : Type} [DecidableEq E] [DecidableEq T]

/-- A delivery whose handler has been called and has not settled. -/
structure Pending (E T : Type) where
  delivery : ℕ
  message : Message E T
  envelope : EventEnvelope E T
deriving DecidableEq

/-- The deliveries are numbered in the order of their arrival, and
`completions` are the events for which the handler has succeeded. -/
structure State (E T : Type) where
  consumer : RabbitMQEventConsumer E T
  deliveries : ℕ
  pending : List (Pending E T)
  settled : List ℕ
  completions : List E
deriving DecidableEq

omit [DecidableEq E] [DecidableEq T] in
def State.initial (config : RabbitMQConfig)
    (options : RabbitMQConsumerOptions) (handlers : List T) : State E T where
  consumer := ⟨config, options, handlers, .empty⟩
  deliveries := 0
  pending := []
  settled := []
  completions := []

inductive Label (E T : Type)
  | deliver (message : Message E T)
  | succeed (position : ℕ)
  | fail (position : ℕ)
deriving DecidableEq

namespace State

omit [DecidableEq E] [DecidableEq T] in
/-- The channel gets the actions for a delivery. -/
def act (state : State E T) (delivery : ℕ) (actions : List (Action E T)) :
    State E T :=
  { state with
    settled := state.settled ++
      List.replicate (actions.countP Action.settles) delivery }

def deliver (state : State E T) (message : Message E T) : State E T :=
  let next := { state with deliveries := state.deliveries + 1 }
  match state.consumer.receive message with
  | .acknowledged => next.act state.deliveries [.ack]
  | .handled envelope =>
      { next with
        pending := state.pending ++
          [⟨state.deliveries, message, envelope⟩] }
  | .failed =>
      next.act state.deliveries (state.consumer.handleError message).1

def succeed (state : State E T) (position : ℕ) (pending : Pending E T) :
    State E T :=
  { state with
    consumer := state.consumer.markProcessed pending.envelope.eventId
    pending := state.pending.eraseIdx position
    completions := state.completions ++ [pending.envelope.eventId]
    }.act pending.delivery [.ack]

omit [DecidableEq E] [DecidableEq T] in
def fail (state : State E T) (position : ℕ) (pending : Pending E T) :
    State E T :=
  { state with pending := state.pending.eraseIdx position }.act
    pending.delivery (state.consumer.handleError pending.message).1

end State

def step (state : State E T) : Label E T → Option (State E T)
  | .deliver message => some (state.deliver message)
  | .succeed position =>
      (state.pending[position]?).map (state.succeed position)
  | .fail position => (state.pending[position]?).map (state.fail position)

/-- Since the event completed before, as many other events have completed as
are remembered. -/
def FarFromEarlier (earlier : List E) (eventId : E) : Prop :=
  ∀ before middle, earlier = before ++ eventId :: middle →
    processedLimit ≤ (middle.filter fun other => other ≠ eventId).dedup.length

/-- Every delivery is under way or has been settled once. -/
structure DeliveryLaw (state : State E T) : Prop where
  once : AtEvery FarFromEarlier state.completions
  settled : ∀ delivery < state.deliveries,
    state.settled.count delivery +
      (state.pending.map Pending.delivery).count delivery = 1

/-- No event completes that is still remembered. -/
def CompletesNew (state : State E T) : Label E T → Prop
  | .succeed position => ∀ pending ∈ state.pending[position]?,
      pending.envelope.eventId ∉ state.consumer.processedMessages
  | _ => True

instance (state : State E T) (label : Label E T) :
    Decidable (CompletesNew state label) :=
  match label with
  | .succeed position =>
      inferInstanceAs (Decidable (∀ pending ∈ state.pending[position]?,
        pending.envelope.eventId ∉ state.consumer.processedMessages))
  | .deliver _ => inferInstanceAs (Decidable True)
  | .fail _ => inferInstanceAs (Decidable True)

/-! ## The events that are remembered -/

section Window

variable {processed : InsertionSet E} {eventId : E} {earlier : List E}

theorem elements_remember (hnew : eventId ∉ processed)
    (hsize : processed.size ≤ processedLimit) :
    (RabbitMQEventConsumer.remember processed eventId).elements =
      (processed.elements ++ [eventId]).drop
        (processed.size + 1 - processedLimit) := by
  have hadd : (processed.add eventId).elements =
      processed.elements ++ [eventId] := if_neg hnew
  have hlength : (processed.add eventId).size = processed.size + 1 := by
    rw [InsertionSet.size, hadd, List.length_append]
    rfl
  rw [RabbitMQEventConsumer.remember, hlength]
  split
  · rename_i hlarge
    have hdrop : processed.size + 1 - processedLimit = 1 := by omega
    rw [hdrop, ← hadd]
    have hnodup := (processed.add eventId).nodup
    cases helements : (processed.add eventId).elements with
    | nil => exact helements
    | cons first rest =>
        rw [helements, List.nodup_cons] at hnodup
        have hdelete : ((processed.add eventId).delete first).elements =
            (first :: rest).filter (· ≠ first) := by
          rw [← helements]
          rfl
        rw [hdelete, List.filter_cons_of_neg (by simp)]
        apply List.filter_eq_self.mpr
        intro other hother
        exact decide_eq_true fun heq => hnodup.1 (heq ▸ hother)
  · rename_i hsmall
    have hdrop : processed.size + 1 - processedLimit = 0 := by omega
    rw [hdrop, hadd]
    rfl

/-- The events that completed last. -/
def window (earlier : List E) : List E :=
  earlier.drop (earlier.length - processedLimit)

omit [DecidableEq E] in
theorem length_window (earlier : List E) :
    (window earlier).length = min earlier.length processedLimit := by
  rw [window, List.length_drop]
  omega

omit [DecidableEq E] in
theorem window_concat (earlier : List E) (eventId : E) :
    window (earlier ++ [eventId]) =
      (window earlier ++ [eventId]).drop
        ((window earlier).length + 1 - processedLimit) := by
  have happend : window earlier ++ [eventId] =
      (earlier ++ [eventId]).drop (earlier.length - processedLimit) := by
    rw [List.drop_append_of_le_length (Nat.sub_le _ _), window]
  rw [happend, List.drop_drop, window, List.length_append, length_window]
  congr 1
  rw [List.length_singleton]
  omega

/-- An event is far from where it completed before if and only if it is not
among those that completed last. -/
theorem farFromEarlier_iff (hnodup : (window earlier).Nodup) :
    FarFromEarlier earlier eventId ↔ eventId ∉ window earlier := by
  constructor
  · intro hfar hmem
    obtain ⟨recent, middle, hsplit⟩ := List.append_of_mem hmem
    have hmiddle := hfar
      (earlier.take (earlier.length - processedLimit) ++ recent) middle
      (by rw [List.append_assoc, ← hsplit, window, List.take_append_drop])
    have hdedup := (List.dedup_sublist (middle.filter fun other =>
      other ≠ eventId)).length_le
    have hfilter := List.length_filter_le (fun other => other ≠ eventId)
      middle
    have hlength := congrArg List.length hsplit
    rw [length_window, List.length_append, List.length_cons] at hlength
    omega
  · rintro hnew before middle rfl
    have hshort : processedLimit ≤ middle.length := by
      by_contra hlt
      apply hnew
      rw [window, List.drop_append_of_le_length
        (by rw [List.length_append, List.length_cons]; omega)]
      exact List.mem_append_right _ List.mem_cons_self
    have hsub : window (before ++ eventId :: middle) ⊆
        (middle.filter fun other => other ≠ eventId).dedup := by
      intro other hother
      have hne : other ≠ eventId := fun heq => hnew (heq ▸ hother)
      rw [List.mem_dedup, List.mem_filter]
      refine ⟨?_, decide_eq_true hne⟩
      have hdrop : window (before ++ eventId :: middle) =
          middle.drop (middle.length - processedLimit) := by
        rw [window, List.append_cons]
        rw [List.drop_append, List.drop_eq_nil_of_le, List.nil_append]
        · congr 1
          simp only [List.length_append, List.length_cons, List.length_nil]
          omega
        · simp only [List.length_append, List.length_cons, List.length_nil]
          omega
      rw [hdrop] at hother
      exact List.mem_of_mem_drop hother
    have hle := (hnodup.subperm hsub).length_le
    rw [length_window, List.length_append, List.length_cons] at hle
    omega

end Window

/-! ## Deliveries -/

section Deliveries

variable {state next : State E T} {label : Label E T} {position : ℕ}
  {pending : Pending E T}

omit [DecidableEq E] [DecidableEq T]

/-- How often the delivery is under way or settled. -/
def State.accounts (state : State E T) (delivery : ℕ) : ℕ :=
  state.settled.count delivery +
    (state.pending.map Pending.delivery).count delivery

theorem accounts_act (state : State E T) (delivery other : ℕ)
    {actions : List (Action E T)}
    (hone : actions.countP Action.settles = 1) :
    (state.act delivery actions).accounts other =
      state.accounts other + if delivery = other then 1 else 0 := by
  rw [State.accounts, State.act, hone, List.count_append,
    List.count_replicate, State.accounts]
  simp only [beq_iff_eq]
  omega

/-- A delivery that is settled is no longer under way. -/
theorem accounts_settle (hpending : state.pending[position]? = some pending)
    {actions : List (Action E T)}
    (hone : actions.countP Action.settles = 1)
    (consumer : RabbitMQEventConsumer E T) (completions : List E)
    (delivery : ℕ) :
    ({ state with
        consumer := consumer
        pending := state.pending.eraseIdx position
        completions := completions }.act pending.delivery actions).accounts
      delivery = state.accounts delivery := by
  have hcount := countP_eraseIdx (fun other => other.delivery == delivery)
    hpending
  rw [accounts_act _ _ _ hone]
  simp only [beq_iff_eq] at hcount
  simp only [State.accounts, List.count_eq_countP, List.countP_map,
    Function.comp_def, hcount]
  omega

variable [DecidableEq E] [DecidableEq T]

theorem accounts_deliver (state : State E T) (message : Message E T)
    (delivery : ℕ) :
    (state.deliver message).accounts delivery =
      state.accounts delivery +
        if state.deliveries = delivery then 1 else 0 := by
  unfold State.deliver
  split
  · exact accounts_act _ _ _ rfl
  · rename_i envelope
    simp only [State.accounts, List.map_append, List.count_append,
      List.map_cons, List.map_nil, List.count_singleton, beq_iff_eq]
    omega
  · exact accounts_act _ _ _ (countP_settles_handleError _ _)

theorem deliver_keeps (state : State E T) (message : Message E T) :
    (state.deliver message).consumer = state.consumer ∧
      (state.deliver message).completions = state.completions ∧
      (state.deliver message).deliveries = state.deliveries + 1 := by
  unfold State.deliver
  split
  · exact ⟨rfl, rfl, rfl⟩
  · exact ⟨rfl, rfl, rfl⟩
  · exact ⟨rfl, rfl, rfl⟩

/-! ## What holds in every run whose handlers complete new events -/

structure Invariant (state : State E T) : Prop where
  remembered : state.consumer.processedMessages.elements =
    window state.completions
  once : AtEvery FarFromEarlier state.completions
  settled : ∀ delivery, state.accounts delivery =
    if delivery < state.deliveries then 1 else 0

omit [DecidableEq T] in
theorem invariant_initial (config : RabbitMQConfig)
    (options : RabbitMQConsumerOptions) (handlers : List T) :
    Invariant (State.initial config options handlers : State E T) :=
  ⟨List.drop_nil.symm, atEvery_nil, fun _ => rfl⟩

omit [DecidableEq T] in
theorem Invariant.far_iff (hinv : Invariant state) (eventId : E) :
    FarFromEarlier state.completions eventId ↔
      eventId ∉ state.consumer.processedMessages := by
  have hnodup := state.consumer.processedMessages.nodup
  rw [hinv.remembered] at hnodup
  rw [farFromEarlier_iff hnodup, ← hinv.remembered]
  rfl

theorem Invariant.deliver (hinv : Invariant state) (message : Message E T) :
    Invariant (state.deliver message) := by
  obtain ⟨hconsumer, hcompletions, hdeliveries⟩ :=
    deliver_keeps state message
  refine ⟨?_, ?_, fun delivery => ?_⟩
  · rw [hconsumer, hcompletions]
    exact hinv.remembered
  · rw [hcompletions]
    exact hinv.once
  · rw [accounts_deliver, hinv.settled, hdeliveries]
    split_ifs <;> omega

omit [DecidableEq T] in
theorem Invariant.succeed (hinv : Invariant state)
    (hpending : state.pending[position]? = some pending)
    (hnew : pending.envelope.eventId ∉ state.consumer.processedMessages) :
    Invariant (state.succeed position pending) := by
  refine ⟨?_, hinv.once.concat ((hinv.far_iff _).mpr hnew),
    fun delivery => ?_⟩
  · have hsize : state.consumer.processedMessages.size =
        (window state.completions).length :=
      congrArg List.length hinv.remembered
    have hle : state.consumer.processedMessages.size ≤ processedLimit := by
      rw [hsize, length_window]
      exact Nat.min_le_right _ _
    exact (elements_remember hnew hle).trans
      (by rw [hsize, hinv.remembered, ← window_concat]; rfl)
  · exact (accounts_settle hpending rfl _ _ delivery).trans
      (hinv.settled delivery)

theorem Invariant.step (hinv : Invariant state)
    (hnew : CompletesNew state label)
    (hstep : step state label = some next) : Invariant next := by
  cases label with
  | deliver message =>
      cases hstep
      exact hinv.deliver message
  | succeed position =>
      obtain ⟨pending, hpending, rfl⟩ := Option.map_eq_some_iff.mp hstep
      exact hinv.succeed hpending (hnew pending hpending)
  | fail position =>
      obtain ⟨pending, hpending, rfl⟩ := Option.map_eq_some_iff.mp hstep
      refine ⟨hinv.remembered, hinv.once, fun delivery => ?_⟩
      exact (accounts_settle hpending (countP_settles_handleError _ _) _ _
        delivery).trans (hinv.settled delivery)

omit [DecidableEq T] in
theorem Invariant.law (hinv : Invariant state) : DeliveryLaw state :=
  ⟨hinv.once, fun delivery hlt =>
    (hinv.settled delivery).trans (if_pos hlt)⟩

theorem not_deliveryLaw_of_step (hinv : Invariant state)
    (hnot : ¬ CompletesNew state label)
    (hstep : Deduplication.step state label = some next) :
    ¬ DeliveryLaw next := by
  intro hlaw
  apply hnot
  cases label with
  | succeed position =>
      obtain ⟨pending, hpending, rfl⟩ := Option.map_eq_some_iff.mp hstep
      intro other hother
      rw [Option.mem_def, hpending] at hother
      cases hother
      exact (hinv.far_iff _).mp (hlaw.once _ _ [] rfl)
  | deliver message => trivial
  | fail position => trivial

/-- Events complete once, unless as many others as are remembered complete in
between, and deliveries are settled once, in every state of a run if and only
if the handler succeeds only for events that are not remembered. -/
theorem deliveryLaw_iff_completesNew {config : RabbitMQConfig}
    {options : RabbitMQConsumerOptions} {handlers : List T}
    {labels : List (Label E T)}
    (hrun : exec Deduplication.step (State.initial config options handlers)
      labels = some state) :
    Throughout Deduplication.step DeliveryLaw
        (State.initial config options handlers) labels ↔
      StepsMeet Deduplication.step CompletesNew
        (State.initial config options handlers) labels :=
  throughout_iff_stepsMeet (I := Invariant)
    (fun _ hinv => hinv.law)
    (fun _ _ _ hinv hnew hstep => hinv.step hnew hstep)
    (fun _ _ _ hinv hnot hstep => not_deliveryLaw_of_step hinv hnot hstep)
    (invariant_initial config options handlers) hrun

end Deliveries

/-- A consumer of orders with the defaults of every option. -/
def ordersConsumer : State ℕ String :=
  State.initial ⟨true, 3, 5000⟩ ⟨none, none, none⟩ ["OrderPlaced"]

/-- An order of its own event. -/
def orderPlaced (eventId : ℕ) : Message ℕ String :=
  ⟨some ⟨eventId, "OrderPlaced"⟩, none⟩

theorem deliveryLaw_iff_completesNew_samples :
    Throughout Deduplication.step DeliveryLaw ordersConsumer
        [.deliver (orderPlaced 7), .deliver (orderPlaced 8), .succeed 1,
          .succeed 0, .deliver (orderPlaced 7)] ∧
      ¬ Throughout Deduplication.step DeliveryLaw ordersConsumer
        [.deliver (orderPlaced 7), .deliver (orderPlaced 7), .succeed 1,
          .succeed 0] := by
  have hafter : (exec Deduplication.step ordersConsumer
      [.deliver (orderPlaced 7), .deliver (orderPlaced 8), .succeed 1,
        .succeed 0, .deliver (orderPlaced 7)]).isSome := by
    decide +kernel
  have htogether : (exec Deduplication.step ordersConsumer
      [.deliver (orderPlaced 7), .deliver (orderPlaced 7), .succeed 1,
        .succeed 0]).isSome := by
    decide +kernel
  obtain ⟨_, hafter⟩ := Option.isSome_iff_exists.mp hafter
  obtain ⟨_, htogether⟩ := Option.isSome_iff_exists.mp htogether
  constructor
  · apply (deliveryLaw_iff_completesNew hafter).mpr
    decide +kernel
  · intro hlaw
    have hmeet := (deliveryLaw_iff_completesNew htogether).mp hlaw
    exact absurd hmeet (by decide +kernel)

/-- Of two deliveries of an event that are handled together, both succeed. -/
theorem not_deliveryLaw_of_duplicates :
    ∃ state, exec Deduplication.step ordersConsumer
        [.deliver (orderPlaced 7), .deliver (orderPlaced 7), .succeed 0,
          .succeed 0] = some state ∧
      state.completions = [7, 7] ∧ ¬ DeliveryLaw state := by
  have hends : (exec Deduplication.step ordersConsumer
      [.deliver (orderPlaced 7), .deliver (orderPlaced 7), .succeed 0,
        .succeed 0]).any (fun state => decide
          (state.completions = [7, 7])) = true := by
    decide +kernel
  obtain ⟨state, hrun, hfacts⟩ := (Option.any_eq_true _ _).mp hends
  have hcompletions := of_decide_eq_true hfacts
  refine ⟨state, hrun, hcompletions, fun hlaw => ?_⟩
  have hnone := hlaw.once [7] 7 [] hcompletions [] [] rfl
  exact absurd hnone (by decide +kernel)

end TsCommons.MessagingRabbitmq.Deduplication
