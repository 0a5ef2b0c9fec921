import TsCommons.MessagingRabbitmq.DeadLettering
import Mathlib.Data.List.Induction

/-!
# Retries and dead letters

The copies of a message are accounted for: each of them is live, has succeeded
or was dead-lettered.  A retry rejects the delivery, which sends it to the
dead-letter exchange, and makes one more copy.
-/

namespace TsCommons.MessagingRabbitmq.DeadLettering

open Foundations

variable {E T : Type} [DecidableEq E] [DecidableEq T]
  {config : RabbitMQConfig} {options : RabbitMQConsumerOptions}
  {handlers : List T} {state next : State E T} {label : Label E T}
  {position : ℕ} {message : Message E T} {eventId : E}
  {envelope : EventEnvelope E T}

/-! ## The accounts of a message -/

omit [DecidableEq T] in
/-- Every published copy is live, has succeeded or was dead-lettered, and every
retry has made one more of them. -/
structure Accounts (eventId : E) (state : State E T) : Prop where
  counts : ∀ message ∈ state.copies, isOf eventId message = true →
    state.retried.count eventId ≤
      RabbitMQEventConsumer.getRetryCount message
  remembered : eventId ∈ state.consumer.processedMessages →
    0 < state.succeeded.count eventId
  copies : state.live eventId + state.succeeded.count eventId +
      state.deadLetters eventId =
    state.retried.count eventId +
      (state.published.map EventEnvelope.eventId).count eventId
  attempts : state.attempts.count eventId =
    state.handling.countP (isOf eventId) + state.succeeded.count eventId +
      state.deadLetters eventId
  retried : state.retried.count eventId ≤ state.deadLetters eventId
  bound : state.retried.count eventId ≤ state.consumer.maxRetries
  fresh : (state.published.map EventEnvelope.eventId).count eventId = 0 →
    state.retried.count eventId = 0
  single : (state.published.map EventEnvelope.eventId).count eventId ≤ 1

omit [DecidableEq T] in
theorem Accounts.of_unaffected (haccounts : Accounts eventId state)
    (hsame : Unaffected eventId state next) : Accounts eventId next where
  counts message hmem hof := by
    rw [hsame.retried]
    exact haccounts.counts message (hsame.copies message hmem hof) hof
  remembered hmem := by
    rw [hsame.succeeded]
    exact haccounts.remembered (hsame.remembered hmem)
  copies := by
    rw [State.live, hsame.queue, hsame.handling, hsame.delayed,
      hsame.succeeded, hsame.dead, hsame.retried, hsame.published]
    exact haccounts.copies
  attempts := by
    rw [hsame.attempts, hsame.handling, hsame.succeeded, hsame.dead]
    exact haccounts.attempts
  retried := by
    rw [hsame.retried, hsame.dead]
    exact haccounts.retried
  bound := by
    rw [hsame.retried, hsame.maxRetries]
    exact haccounts.bound
  fresh := by
    rw [hsame.published, hsame.retried]
    exact haccounts.fresh
  single := by
    rw [hsame.published]
    exact haccounts.single

omit [DecidableEq T] in
theorem countP_concat_of_isOf (messages : List (Message E T))
    (hof : isOf eventId message = true) :
    (messages ++ [message]).countP (isOf eventId) =
      messages.countP (isOf eventId) + 1 := by
  rw [List.countP_append, List.countP_singleton, if_pos hof]

omit [DecidableEq T] in
theorem countP_eraseIdx_of_isOf {messages : List (Message E T)}
    (hget : messages[position]? = some message)
    (hof : isOf eventId message = true) :
    messages.countP (isOf eventId) =
      (messages.eraseIdx position).countP (isOf eventId) + 1 := by
  rw [countP_eraseIdx (isOf eventId) hget, if_pos hof]

omit [DecidableEq T] in
theorem count_concat_self (eventIds : List E) (eventId : E) :
    (eventIds ++ [eventId]).count eventId = eventIds.count eventId + 1 := by
  rw [List.count_append, List.count_singleton_self]

omit [DecidableEq T] in
theorem Accounts.publish (haccounts : Accounts envelope.eventId state)
    (hnew : envelope.eventId ∉ state.published.map EventEnvelope.eventId)
    (retryCount : Option ℕ) :
    Accounts envelope.eventId
      { state with
        published := state.published ++ [envelope]
        queue := state.queue ++ [⟨some envelope, retryCount⟩] } := by
  have hzero := List.count_eq_zero.mpr hnew
  have hfresh := haccounts.fresh hzero
  have hpublished : ((state.published ++ [envelope]).map
      EventEnvelope.eventId).count envelope.eventId = 1 := by
    rw [List.map_append, List.map_singleton, count_concat_self, hzero]
  have hcopies := haccounts.copies
  have hof : isOf envelope.eventId
      (⟨some envelope, retryCount⟩ : Message E T) = true :=
    decide_eq_true rfl
  have hqueue := countP_concat_of_isOf state.queue hof
  refine ⟨fun _ _ _ => ?_, haccounts.remembered, ?_, haccounts.attempts,
    haccounts.retried, haccounts.bound, fun _ => hfresh, hpublished.le⟩
  · rw [hfresh]
    exact Nat.zero_le _
  · simp only [State.live, State.deadLetters] at hcopies ⊢
    omega

theorem Accounts.deliver (haccounts : Accounts eventId state)
    (hget : state.queue[position]? = some message)
    (hof : isOf eventId message = true)
    (hreceive : state.consumer.receive message = .handled envelope) :
    Accounts eventId (state.deliver position message) := by
  have hqueue := countP_eraseIdx_of_isOf hget hof
  have hhandling := countP_concat_of_isOf state.handling hof
  have hid : envelope.eventId = eventId := by
    rw [isOf_of_content (content_of_receive hreceive)] at hof
    exact of_decide_eq_true hof
  have hattempts := count_concat_self state.attempts eventId
  have hcopies := haccounts.copies
  have hbefore := haccounts.attempts
  have hnext : state.deliver position message =
      { state with
        queue := state.queue.eraseIdx position
        handling := state.handling ++ [message]
        attempts := state.attempts ++ [eventId] } := by
    simp only [State.deliver, hreceive, hid]
  rw [hnext]
  refine ⟨fun copy hmem hcopy => ?_, haccounts.remembered, ?_, ?_,
    haccounts.retried, haccounts.bound, haccounts.fresh, haccounts.single⟩
  · exact haccounts.counts copy (copies_toHandling hget hmem) hcopy
  · simp only [State.live, State.deadLetters] at hcopies ⊢
    omega
  · simp only [State.deadLetters] at hbefore ⊢
    omega

omit [DecidableEq T] in
theorem Accounts.succeed (haccounts : Accounts eventId state)
    (hget : state.handling[position]? = some message)
    (hcontent : message.content = some envelope)
    (hof : isOf eventId message = true) :
    Accounts eventId (state.succeed position message envelope) := by
  have hhandling := countP_eraseIdx_of_isOf hget hof
  have hid : envelope.eventId = eventId := by
    rw [isOf_of_content hcontent] at hof
    exact of_decide_eq_true hof
  have hsucceeded : (state.succeed position message envelope).succeeded.count
      eventId = state.succeeded.count eventId + 1 := by
    rw [← hid]
    exact count_concat_self _ _
  have hcopies := haccounts.copies
  have hbefore := haccounts.attempts
  refine ⟨fun copy hmem hcopy => ?_, fun _ => by omega, ?_, ?_,
    haccounts.retried, haccounts.bound, haccounts.fresh, haccounts.single⟩
  · exact haccounts.counts copy (copies_eraseHandling state position hmem)
      hcopy
  · rw [hsucceeded]
    simp only [State.live, State.deadLetters, State.succeed, State.act]
      at hcopies ⊢
    omega
  · rw [hsucceeded]
    simp only [State.deadLetters, State.succeed, State.act] at hbefore ⊢
    omega

omit [DecidableEq T] in
theorem Accounts.fire (haccounts : Accounts eventId state)
    (hget : state.delayed[position]? = some message)
    (hof : isOf eventId message = true) :
    Accounts eventId (state.fire position message) := by
  have hdelayed := countP_eraseIdx_of_isOf hget hof
  have hqueue := countP_concat_of_isOf state.queue hof
  have hcopies := haccounts.copies
  refine ⟨fun copy hmem hcopy => ?_, haccounts.remembered, ?_,
    haccounts.attempts, haccounts.retried, haccounts.bound, haccounts.fresh,
    haccounts.single⟩
  · exact haccounts.counts copy (copies_fire hget hmem) hcopy
  · simp only [State.live, State.deadLetters, State.fire, State.act]
      at hcopies ⊢
    omega

omit [DecidableEq T] in
theorem Accounts.fail_for_good (haccounts : Accounts eventId state)
    (hdlq : state.consumer.config.enableDLQ = true)
    (hget : state.handling[position]? = some message)
    (hof : isOf eventId message = true)
    (hretry : state.consumer.shouldRetry message = false) :
    Accounts eventId (state.fail position message) := by
  have hhandling := countP_eraseIdx_of_isOf hget hof
  have hdead := countP_concat_of_isOf state.dead hof
  have hcopies := haccounts.copies
  have hbefore := haccounts.attempts
  have hretried := haccounts.retried
  rw [fail_of_not_retry hdlq hretry]
  refine ⟨fun copy hmem hcopy => ?_, haccounts.remembered, ?_, ?_, ?_,
    haccounts.bound, haccounts.fresh, haccounts.single⟩
  · exact haccounts.counts copy (copies_eraseHandling state position hmem)
      hcopy
  · simp only [State.live, State.deadLetters] at hcopies ⊢
    omega
  · simp only [State.deadLetters] at hbefore ⊢
    omega
  · simp only [State.deadLetters] at hretried ⊢
    omega

omit [DecidableEq T] in
theorem countP_pos_of_mem {messages : List (Message E T)}
    (hmem : message ∈ messages) (hof : isOf eventId message = true) :
    0 < messages.countP (isOf eventId) :=
  List.countP_pos_iff.mpr ⟨message, hmem, hof⟩

omit [DecidableEq T] in
/-- A failure that is retried is dead-lettered as well. -/
theorem Accounts.fail_retried (haccounts : Accounts eventId state)
    (hdlq : state.consumer.config.enableDLQ = true)
    (hget : state.handling[position]? = some message)
    (hof : isOf eventId message = true)
    (hretry : state.consumer.shouldRetry message = true) :
    Accounts eventId (state.fail position message) ∧
      (state.fail position message).retried.count eventId =
        state.retried.count eventId + 1 := by
  obtain ⟨envelope, hcontent, rfl⟩ := isOf_iff.mp hof
  have hcount := haccounts.counts message
    (mem_copies.mpr (.inr (.inl (List.mem_of_getElem? hget)))) hof
  have hlt : RabbitMQEventConsumer.getRetryCount message <
      state.consumer.maxRetries :=
    of_decide_eq_true (Bool.and_eq_true_iff.mp hretry).2
  have hhandling := countP_eraseIdx_of_isOf hget hof
  have hdead := countP_concat_of_isOf state.dead hof
  have hofNext : isOf envelope.eventId { message with
      retryCount := some (RabbitMQEventConsumer.getRetryCount message + 1) } =
        true := hof
  have hnext := countP_concat_of_isOf state.delayed hofNext
  have hmore := count_concat_self state.retried envelope.eventId
  have hcopies := haccounts.copies
  have hbefore := haccounts.attempts
  have hretried := haccounts.retried
  have hsingle := haccounts.single
  simp only [State.live, State.deadLetters] at hcopies hbefore hretried
  rw [fail_of_retry hdlq hretry hcontent]
  refine ⟨⟨fun copy hmem hcopy => ?_, haccounts.remembered, ?_, ?_, ?_, ?_,
    fun hzero => ?_, haccounts.single⟩, hmore⟩
  · rcases mem_copies.mp hmem with hqueue | hhandling | hdelayed
    · have hpos : 0 < state.queue.countP (isOf envelope.eventId) :=
        countP_pos_of_mem hqueue hcopy
      omega
    · have hpos : 0 < (state.handling.eraseIdx position).countP
          (isOf envelope.eventId) := countP_pos_of_mem hhandling hcopy
      omega
    · rcases List.mem_append.mp hdelayed with hold | hnew
      · have hpos : 0 < state.delayed.countP (isOf envelope.eventId) :=
          countP_pos_of_mem hold hcopy
        omega
      · rw [List.mem_singleton.mp hnew, hmore]
        exact Nat.succ_le_succ hcount
  · simp only [State.live, State.deadLetters]
    omega
  · simp only [State.deadLetters]
    omega
  · simp only [State.deadLetters]
    omega
  · exact hmore.le.trans (Nat.lt_of_le_of_lt hcount hlt)
  · have hpublished : (state.published.map EventEnvelope.eventId).count
        envelope.eventId = 0 := hzero
    omega

/-! ## All messages -/

omit [DecidableEq E] [DecidableEq T] in
/-- Every event is published once, live copies stand for published messages,
and the consumer keeps its settings. -/
structure Known (config : RabbitMQConfig)
    (options : RabbitMQConsumerOptions) (handlers : List T)
    (state : State E T) : Prop where
  config : state.consumer.config = config
  options : state.consumer.options = options
  handlers : state.consumer.handlers = handlers
  nodup : (state.published.map EventEnvelope.eventId).Nodup
  published : ∀ message ∈ state.copies, ∀ envelope ∈ message.content,
    envelope ∈ state.published

omit [DecidableEq E] [DecidableEq T] in
theorem Known.of_copies {middle : State E T}
    (hknown : Known config options handlers state)
    (hconsumer : middle.consumer = state.consumer)
    (hpublished : middle.published = state.published)
    (hcopies : ∀ message ∈ middle.copies,
      ∃ old ∈ state.copies, message.content = old.content) :
    Known config options handlers middle := by
  refine ⟨?_, ?_, ?_, ?_, fun message hmem envelope henvelope => ?_⟩
  · rw [hconsumer]
    exact hknown.config
  · rw [hconsumer]
    exact hknown.options
  · rw [hconsumer]
    exact hknown.handlers
  · rw [hpublished]
    exact hknown.nodup
  · obtain ⟨old, hold, hcontent⟩ := hcopies message hmem
    rw [hcontent] at henvelope
    rw [hpublished]
    exact hknown.published old hold envelope henvelope

omit [DecidableEq E] [DecidableEq T] in
/-- The delivery that is handled here is no longer among the copies. -/
theorem Known.handleError {middle : State E T}
    (hknown : Known config options handlers state)
    (hdlq : config.enableDLQ = true) (hmessage : message ∈ state.copies)
    (hconsumer : middle.consumer = state.consumer)
    (hpublished : middle.published = state.published)
    (hcopies : middle.copies ⊆ state.copies) :
    Known config options handlers (middle.handleError message) := by
  have hdlq' : middle.consumer.config.enableDLQ = true := by
    rw [hconsumer, hknown.config]
    exact hdlq
  cases hretry : middle.consumer.shouldRetry message with
  | false =>
      rw [handleError_of_not_retry hdlq' hretry]
      exact hknown.of_copies hconsumer hpublished
        fun copy hmem => ⟨copy, hcopies hmem, rfl⟩
  | true =>
      rw [handleError_of_retry hdlq' hretry]
      refine hknown.of_copies hconsumer hpublished fun copy hmem => ?_
      rw [State.copies, ← List.append_assoc] at hmem
      rcases List.mem_append.mp hmem with hold | hnew
      · exact ⟨copy, hcopies hold, rfl⟩
      · rw [List.mem_singleton.mp hnew]
        exact ⟨message, hmessage, rfl⟩

theorem Known.deliver (hknown : Known config options handlers state)
    (hdlq : config.enableDLQ = true)
    (hget : state.queue[position]? = some message) :
    Known config options handlers (state.deliver position message) := by
  have hmessage : message ∈ state.copies :=
    mem_copies.mpr (.inl (List.mem_of_getElem? hget))
  have herase := copies_eraseQueue state position
  unfold State.deliver
  split
  · exact hknown.of_copies rfl rfl fun copy hmem => ⟨copy, herase hmem, rfl⟩
  · exact hknown.of_copies rfl rfl
      fun copy hmem => ⟨copy, copies_toHandling hget hmem, rfl⟩
  · exact hknown.handleError hdlq hmessage rfl rfl herase

theorem Known.step (hknown : Known config options handlers state)
    (hdlq : config.enableDLQ = true)
    (hstep : step state label = some next) :
    Known config options handlers next := by
  cases label with
  | publish envelope retryCount =>
      simp only [DeadLettering.step] at hstep
      split at hstep
      · cases hstep
      · rename_i hnew
        cases hstep
        refine ⟨hknown.config, hknown.options, hknown.handlers, ?_, ?_⟩
        · rw [List.map_append, List.map_singleton, ← List.concat_eq_append]
          exact hknown.nodup.concat hnew
        intro message hmem other hother
        rcases mem_copies.mp hmem with hqueue | hrest
        · rcases List.mem_append.mp hqueue with hold | hnew
          · exact List.mem_append_left _ (hknown.published message
              (mem_copies.mpr (.inl hold)) other hother)
          · rw [List.mem_singleton.mp hnew] at hother
            rw [← Option.some.inj hother]
            exact List.mem_append_right _ List.mem_cons_self
        · exact List.mem_append_left _ (hknown.published message
            (mem_copies.mpr (.inr hrest)) other hother)
  | deliver position =>
      obtain ⟨message, hget, rfl⟩ := Option.map_eq_some_iff.mp hstep
      exact hknown.deliver hdlq hget
  | succeed position =>
      obtain ⟨message, hget, hnext⟩ := Option.bind_eq_some_iff.mp hstep
      obtain ⟨envelope, -, rfl⟩ := Option.map_eq_some_iff.mp hnext
      refine ⟨hknown.config, hknown.options, hknown.handlers, hknown.nodup, ?_⟩
      exact fun copy hmem =>
        hknown.published copy (copies_eraseHandling state position hmem)
  | fail position =>
      obtain ⟨message, hget, rfl⟩ := Option.map_eq_some_iff.mp hstep
      exact hknown.handleError hdlq
        (mem_copies.mpr (.inr (.inl (List.mem_of_getElem? hget)))) rfl rfl
        (copies_eraseHandling state position)
  | fire position =>
      obtain ⟨message, hget, rfl⟩ := Option.map_eq_some_iff.mp hstep
      exact hknown.of_copies rfl rfl
        fun copy hmem => ⟨copy, copies_fire hget hmem, rfl⟩

omit [DecidableEq T] in
/-- Messages of the event have a handler. -/
def Registered (handlers : List T) (eventId : E) (state : State E T) : Prop :=
  ∀ envelope ∈ state.published, envelope.eventId = eventId →
    envelope.eventType ∈ handlers

omit [DecidableEq E] [DecidableEq T] in
theorem published_act (state : State E T) (message : Message E T)
    (action : Action E T) :
    (state.act message action).published = state.published := by
  unfold State.act
  split
  · rfl
  · split <;> rfl
  · rfl
  · rfl

omit [DecidableEq E] [DecidableEq T] in
theorem published_handleError (state : State E T) (message : Message E T) :
    (state.handleError message).published = state.published := by
  have hactions : ∀ actions : List (Action E T),
      (actions.foldl (fun state action => state.act message action)
        state).published = state.published := by
    intro actions
    induction actions using List.reverseRec with
    | nil => rfl
    | append_singleton actions last ih =>
        rw [List.foldl_concat, published_act, ih]
  unfold State.handleError
  dsimp only
  split
  · exact hactions _
  · exact hactions _

theorem published_deliver (state : State E T) (position : ℕ)
    (message : Message E T) :
    (state.deliver position message).published = state.published := by
  unfold State.deliver
  split
  · rfl
  · rfl
  · exact published_handleError _ _

theorem published_of_step (hstep : step state label = some next) :
    state.published ⊆ next.published := by
  cases label with
  | publish envelope retryCount =>
      simp only [DeadLettering.step] at hstep
      split at hstep
      · cases hstep
      · cases hstep
        exact List.subset_append_left _ _
  | deliver position =>
      obtain ⟨message, -, rfl⟩ := Option.map_eq_some_iff.mp hstep
      rw [published_deliver]
      exact List.Subset.refl _
  | succeed position =>
      obtain ⟨message, -, hnext⟩ := Option.bind_eq_some_iff.mp hstep
      obtain ⟨envelope, -, rfl⟩ := Option.map_eq_some_iff.mp hnext
      exact List.Subset.refl _
  | fail position =>
      obtain ⟨message, -, rfl⟩ := Option.map_eq_some_iff.mp hstep
      rw [State.fail, published_handleError]
      exact List.Subset.refl _
  | fire position =>
      obtain ⟨message, -, rfl⟩ := Option.map_eq_some_iff.mp hstep
      exact List.Subset.refl _

/-- While a copy is live, the message has not been processed. -/
theorem receive_of_accounts (hknown : Known config options handlers state)
    (hregistered : Registered handlers eventId state)
    (haccounts : Accounts eventId state)
    (hget : state.queue[position]? = some message)
    (hof : isOf eventId message = true) :
    ∃ envelope, state.consumer.receive message = .handled envelope := by
  obtain ⟨envelope, hcontent, rfl⟩ := isOf_iff.mp hof
  have hmem := List.mem_of_getElem? hget
  have hpublished := hknown.published message (mem_copies.mpr (.inl hmem))
    envelope hcontent
  refine ⟨envelope, receive_of_handler hcontent (fun hprocessed => ?_) ?_⟩
  · have hpos := countP_pos_of_mem hmem hof
    have hsucceeded := haccounts.remembered hprocessed
    have hcopies := haccounts.copies
    have hretried := haccounts.retried
    have hsingle := haccounts.single
    rw [State.live] at hcopies
    omega
  · rw [hknown.handlers]
    exact hregistered envelope hpublished rfl

omit [DecidableEq T] in
/-- The step keeps the accounts of a message, and retries it exactly where a
failure is not for good. -/
structure Advances (eventId : E) (state : State E T) (label : Label E T)
    (next : State E T) : Prop where
  accounts : Accounts eventId next
  kept : FailsForGood eventId state label →
    next.retried.count eventId = state.retried.count eventId
  more : ¬ FailsForGood eventId state label →
    next.retried.count eventId = state.retried.count eventId + 1

omit [DecidableEq T] in
theorem Accounts.advances (hnext : Accounts eventId next)
    (hgood : FailsForGood eventId state label)
    (hkept : next.retried.count eventId = state.retried.count eventId) :
    Advances eventId state label next :=
  ⟨hnext, fun _ => hkept, fun hnot => absurd hgood hnot⟩

omit [DecidableEq T] in
theorem Accounts.advances_of_unaffected (haccounts : Accounts eventId state)
    (hsame : Unaffected eventId state next)
    (hgood : FailsForGood eventId state label) :
    Advances eventId state label next :=
  (haccounts.of_unaffected hsame).advances hgood hsame.retried

theorem Accounts.advances_deliver
    (hknown : Known config options handlers state)
    (hdlq : state.consumer.config.enableDLQ = true)
    (hregistered : Registered handlers eventId state)
    (haccounts : Accounts eventId state)
    (hget : state.queue[position]? = some message) :
    Advances eventId state (.deliver position)
      (state.deliver position message) := by
  cases hof : isOf eventId message with
  | false =>
      exact haccounts.advances_of_unaffected
        (unaffected_deliver hdlq hget hof) trivial
  | true =>
      obtain ⟨envelope, hreceive⟩ :=
        receive_of_accounts hknown hregistered haccounts hget hof
      refine (haccounts.deliver hget hof hreceive).advances trivial ?_
      simp only [State.deliver, hreceive]

omit [DecidableEq T] in
theorem Accounts.advances_fail (haccounts : Accounts eventId state)
    (hdlq : state.consumer.config.enableDLQ = true)
    (hget : state.handling[position]? = some message) :
    Advances eventId state (.fail position)
      (state.fail position message) := by
  have hfails := failsForGood_iff eventId hget
  cases hof : isOf eventId message with
  | false =>
      refine haccounts.advances_of_unaffected (unaffected_fail hdlq hget hof)
        (hfails.mpr fun htrue => ?_)
      exact absurd (hof.symm.trans htrue) Bool.false_ne_true
  | true =>
      cases hretry : state.consumer.shouldRetry message with
      | false =>
          refine (haccounts.fail_for_good hdlq hget hof hretry).advances
            (hfails.mpr fun _ => hretry) ?_
          exact congrArg (fun state => state.retried.count eventId)
            (fail_of_not_retry hdlq hretry)
      | true =>
          obtain ⟨hnext, hmore⟩ := haccounts.fail_retried hdlq hget hof hretry
          refine ⟨hnext, fun hgood => ?_, fun _ => hmore⟩
          exact absurd ((hfails.mp hgood hof).symm.trans hretry)
            Bool.false_ne_true

theorem Accounts.step (hknown : Known config options handlers state)
    (hdlq : config.enableDLQ = true)
    (hregistered : Registered handlers eventId state)
    (haccounts : Accounts eventId state)
    (hstep : step state label = some next) :
    Advances eventId state label next := by
  have hdlq' : state.consumer.config.enableDLQ = true := by
    rw [hknown.config]
    exact hdlq
  cases label with
  | publish envelope retryCount =>
      simp only [DeadLettering.step] at hstep
      split at hstep
      · cases hstep
      · rename_i hnew
        cases hstep
        by_cases heq : envelope.eventId = eventId
        · subst heq
          exact (haccounts.publish hnew retryCount).advances trivial rfl
        · exact haccounts.advances_of_unaffected
            (unaffected_publish state heq retryCount) trivial
  | deliver position =>
      obtain ⟨message, hget, rfl⟩ := Option.map_eq_some_iff.mp hstep
      exact haccounts.advances_deliver hknown hdlq' hregistered hget
  | succeed position =>
      obtain ⟨message, hget, hnext⟩ := Option.bind_eq_some_iff.mp hstep
      obtain ⟨envelope, hcontent, rfl⟩ := Option.map_eq_some_iff.mp hnext
      cases hof : isOf eventId message with
      | false =>
          exact haccounts.advances_of_unaffected
            (unaffected_succeed hget hcontent hof) trivial
      | true =>
          exact (haccounts.succeed hget hcontent hof).advances trivial rfl
  | fail position =>
      obtain ⟨message, hget, rfl⟩ := Option.map_eq_some_iff.mp hstep
      exact haccounts.advances_fail hdlq' hget
  | fire position =>
      obtain ⟨message, hget, rfl⟩ := Option.map_eq_some_iff.mp hstep
      cases hof : isOf eventId message with
      | false =>
          exact haccounts.advances_of_unaffected (unaffected_fire hget hof)
            trivial
      | true => exact (haccounts.fire hget hof).advances trivial rfl

/-! ## Whole runs -/

omit [DecidableEq E] [DecidableEq T] in
theorem known_initial (config : RabbitMQConfig)
    (options : RabbitMQConsumerOptions) (handlers : List T) :
    Known config options handlers
      (State.initial config options handlers : State E T) :=
  ⟨rfl, rfl, rfl, List.nodup_nil, fun _ hmem => (nomatch hmem)⟩

omit [DecidableEq T] in
theorem accounts_initial (config : RabbitMQConfig)
    (options : RabbitMQConsumerOptions) (handlers : List T) (eventId : E) :
    Accounts eventId (State.initial config options handlers : State E T) where
  counts _ hmem := nomatch hmem
  remembered hmem := nomatch hmem
  copies := rfl
  attempts := rfl
  retried := Nat.le_refl 0
  bound := Nat.zero_le _
  fresh _ := rfl
  single := Nat.zero_le 1

/-- The accounts hold at the end of a run, and nothing is retried in it if and
only if every failure is for good. -/
theorem accounts_of_run (hdlq : config.enableDLQ = true)
    (hknown : Known config options handlers state)
    (haccounts : Accounts eventId state) {labels : List (Label E T)}
    {last : State E T}
    (hregistered : Throughout DeadLettering.step (Registered handlers eventId)
      state labels)
    (hrun : exec DeadLettering.step state labels = some last) :
    Accounts eventId last ∧
      (last.retried.count eventId = 0 ↔
        state.retried.count eventId = 0 ∧
          StepsMeet DeadLettering.step (FailsForGood eventId) state
            labels) := by
  induction labels generalizing state with
  | nil =>
      cases hrun
      exact ⟨haccounts, (and_iff_left trivial).symm⟩
  | cons label rest ih =>
      obtain ⟨next, hnext, hrest⟩ := exec_cons_eq_some.mp hrun
      obtain ⟨hnextAccounts, hsame, hmore⟩ :=
        haccounts.step hknown hdlq hregistered.head hnext
      obtain ⟨hlast, hiff⟩ := ih (hknown.step hdlq hnext) hnextAccounts
        (hregistered.2 next hnext) hrest
      refine ⟨hlast, hiff.trans ?_⟩
      constructor
      · rintro ⟨hzero, hmeet⟩
        have hgood : FailsForGood eventId state label := by
          by_contra hnot
          rw [hmore hnot] at hzero
          cases hzero
        refine ⟨(hsame hgood).symm.trans hzero, hgood, fun other hother => ?_⟩
        rw [hnext] at hother
        cases hother
        exact hmeet
      · rintro ⟨hzero, hgood, hmeet⟩
        exact ⟨(hsame hgood).trans hzero, hmeet next hnext⟩

omit [DecidableEq E] [DecidableEq T] in
theorem registered_of_mem (hknown : Known config options handlers state)
    (hmem : envelope ∈ state.published)
    (hhandler : envelope.eventType ∈ handlers) :
    Registered handlers envelope.eventId state := by
  intro other hother heq
  rw [List.inj_on_of_nodup_map hknown.nodup hother hmem heq]
  exact hhandler

omit [DecidableEq T] in
/-- Of a message that has been handled, every retry has left one copy too many
at the dead-letter exchange. -/
theorem Accounts.deadLettersOnce_iff (haccounts : Accounts eventId state)
    (hpublished : eventId ∈ state.published.map EventEnvelope.eventId)
    (hdone : state.live eventId = 0) :
    DeadLettersOnce state eventId ↔ state.retried.count eventId = 0 := by
  have hcopies := haccounts.copies
  have hretried := haccounts.retried
  have hsingle := haccounts.single
  have hpos := List.count_pos_iff.mpr hpublished
  rw [DeadLettersOnce, ← List.count_pos_iff]
  omega

/-- The handler is attempted at most once more than the retries allow; and a
message that has been handled reached the dead-letter exchange once if all
attempts failed, and never if one succeeded, if and only if none of its failed
attempts was retried. -/
theorem attempts_le_and_deadLettersOnce_iff
    (hdlq : config.enableDLQ = true) {labels : List (Label E T)}
    (hrun : exec DeadLettering.step (State.initial config options handlers)
      labels = some state)
    (hmem : envelope ∈ state.published)
    (hhandler : envelope.eventType ∈ handlers) :
    state.attempts.count envelope.eventId ≤
        options.maxRetries.getD config.maxRetries + 1 ∧
      (state.live envelope.eventId = 0 →
        (DeadLettersOnce state envelope.eventId ↔
          StepsMeet DeadLettering.step (FailsForGood envelope.eventId)
            (State.initial config options handlers) labels)) := by
  have hknown : Known config options handlers state :=
    exec_invariant (fun _ _ _ hknown hstep => hknown.step hdlq hstep)
      (known_initial config options handlers) hrun
  have hregistered : Throughout DeadLettering.step
      (Registered handlers envelope.eventId)
      (State.initial config options handlers) labels := by
    apply (throughout_iff_last _ hrun).mpr
    · exact registered_of_mem hknown hmem hhandler
    · exact fun _ _ _ hstep hlast other hother =>
        hlast other (published_of_step hstep hother)
  obtain ⟨haccounts, hiff⟩ := accounts_of_run hdlq
    (known_initial config options handlers)
    (accounts_initial config options handlers envelope.eventId) hregistered
    hrun
  have hpublished := List.mem_map_of_mem (f := EventEnvelope.eventId) hmem
  constructor
  · have hattempts := haccounts.attempts
    have hcopies := haccounts.copies
    have hretried := haccounts.retried
    have hsingle := haccounts.single
    have hbound := haccounts.bound
    rw [RabbitMQEventConsumer.maxRetries, hknown.config, hknown.options]
      at hbound
    rw [State.live] at hcopies
    omega
  · intro hdone
    rw [haccounts.deadLettersOnce_iff hpublished hdone, hiff]
    exact and_iff_right rfl

omit [DecidableEq T] in
instance (state : State E T) (eventId : E) :
    Decidable (DeadLettersOnce state eventId) :=
  inferInstanceAs (Decidable ((_ ∈ _ → _ = _) ∧ (_ ∉ _ → _ = _)))

/-- A consumer of orders with the defaults of every option but the number of
retries. -/
def ordersQueue (maxRetries : ℕ) : State ℕ String :=
  State.initial ⟨true, 3, 5000⟩ ⟨none, some maxRetries, none⟩ ["OrderPlaced"]

def order : EventEnvelope ℕ String := ⟨7, "OrderPlaced"⟩

/-- The first attempt to handle the order fails. -/
def failsFirst : List (Label ℕ String) :=
  [.publish order none, .deliver 0, .fail 0]

/-- The copy of the order comes back and is handled. -/
def succeedsThen : List (Label ℕ String) :=
  [.fire 0, .deliver 0, .succeed 0]

theorem attempts_le_and_deadLettersOnce_iff_samples :
    (∃ state, exec DeadLettering.step (ordersQueue 0) failsFirst =
        some state ∧ DeadLettersOnce state 7) ∧
      ∃ state, exec DeadLettering.step (ordersQueue 1)
        (failsFirst ++ succeedsThen) = some state ∧
        state.attempts.count 7 ≤ 2 ∧ ¬ DeadLettersOnce state 7 := by
  have hfails : (exec DeadLettering.step (ordersQueue 0) failsFirst).any
      (fun state => decide (order ∈ state.published ∧
        state.live 7 = 0)) = true := by
    decide +kernel
  have hretries : (exec DeadLettering.step (ordersQueue 1)
      (failsFirst ++ succeedsThen)).any (fun state => decide
        (order ∈ state.published ∧ state.live 7 = 0)) = true := by
    decide +kernel
  obtain ⟨last, hfails, hlast⟩ := (Option.any_eq_true _ _).mp hfails
  obtain ⟨state, hretries, hfacts⟩ := (Option.any_eq_true _ _).mp hretries
  obtain ⟨hlastPublished, hlastDone⟩ := of_decide_eq_true hlast
  obtain ⟨hpublished, hdone⟩ := of_decide_eq_true hfacts
  refine ⟨⟨last, hfails, ?_⟩, state, hretries, ?_⟩
  · apply ((attempts_le_and_deadLettersOnce_iff rfl hfails hlastPublished
      List.mem_cons_self).2 hlastDone).mpr
    decide +kernel
  · obtain ⟨hattempts, hiff⟩ := attempts_le_and_deadLettersOnce_iff rfl
      hretries hpublished List.mem_cons_self
    refine ⟨hattempts, fun honce => ?_⟩
    exact absurd ((hiff hdone).mp honce) (by decide +kernel)

/-- An order whose second attempt succeeds is in the dead-letter exchange, and
one whose attempts all fail is there twice. -/
theorem not_deadLettersOnce_of_retry :
    (∃ state, exec DeadLettering.step (ordersQueue 1)
        (failsFirst ++ succeedsThen) = some state ∧
      7 ∈ state.succeeded ∧ state.deadLetters 7 = 1 ∧
      ¬ DeadLettersOnce state 7) ∧
    ∃ state, exec DeadLettering.step (ordersQueue 1)
        (failsFirst ++ [.fire 0, .deliver 0, .fail 0]) = some state ∧
      7 ∉ state.succeeded ∧ state.deadLetters 7 = 2 ∧
      ¬ DeadLettersOnce state 7 := by
  have hsucceeds : (exec DeadLettering.step (ordersQueue 1)
      (failsFirst ++ succeedsThen)).any (fun state => decide
        (7 ∈ state.succeeded ∧ state.deadLetters 7 = 1 ∧
          ¬ DeadLettersOnce state 7)) = true := by
    decide +kernel
  have hfails : (exec DeadLettering.step (ordersQueue 1)
      (failsFirst ++ [.fire 0, .deliver 0, .fail 0])).any (fun state => decide
        (7 ∉ state.succeeded ∧ state.deadLetters 7 = 2 ∧
          ¬ DeadLettersOnce state 7)) = true := by
    decide +kernel
  obtain ⟨succeeded, hsucceeds, hfacts⟩ :=
    (Option.any_eq_true _ _).mp hsucceeds
  obtain ⟨failed, hfails, hother⟩ := (Option.any_eq_true _ _).mp hfails
  exact ⟨⟨succeeded, hsucceeds, of_decide_eq_true hfacts⟩, failed, hfails,
    of_decide_eq_true hother⟩

end TsCommons.MessagingRabbitmq.DeadLettering
