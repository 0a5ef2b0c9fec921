import TsCommons.Outbox.Relay

/-!
# Overlapping cycles and double publication

A cycle hands over the copies of its snapshot without asking the store again.
As long as no cycle takes up a message that another cycle still holds, a
message that has been published is never handed over again.
-/

namespace TsCommons.Outbox

open Foundations

variable {Ev : Type}

/-- In a log, newest first: nothing is handed over after it has succeeded. -/
def NoHandOverAfterSuccess (log : List Event) : Prop :=
  ∀ newer id older, log = newer ++ .succeeded id :: older →
    ∀ time, .handed id time ∉ newer

theorem noHandOverAfterSuccess_cons {log : List Event} {event : Event}
    (hlog : NoHandOverAfterSuccess log)
    (hevent : ∀ id time, event = .handed id time → .succeeded id ∉ log) :
    NoHandOverAfterSuccess (event :: log) := by
  intro newer id older heq time hmem
  cases newer with
  | nil => simp at hmem
  | cons first newer =>
      simp only [List.cons_append, List.cons.injEq] at heq
      obtain ⟨rfl, htail⟩ := heq
      rw [List.mem_cons] at hmem
      rcases hmem with hfirst | hnewer
      · apply hevent id time hfirst.symm
        rw [htail]
        simp
      · exact hlog newer id older htail time hnewer

/-- A cycle takes up no message that another cycle still holds, and messages
are saved under new ids. -/
def TakesNothingHeld (options : OutboxRelayOptions) (state : State Ev) :
    Label Ev → Prop
  | .runOnce _ =>
      ∀ other, ∀ held ∈ (state.cycles other).held,
        ∀ message ∈ state.store.getUnpublished options.batchSize,
          held.id ≠ message.id
  | .save message => state.store.find message.id = none
  | _ => True

/-- No two cycles hold one message; and a message that has succeeded is stored
as published, or still with the cycle that published it. -/
structure PublishInvariant (state : State Ev) : Prop where
  disjoint : ∀ cycle other, cycle ≠ other →
    ∀ message ∈ (state.cycles cycle).held,
      ∀ message' ∈ (state.cycles other).held, message.id ≠ message'.id
  nodup : ∀ cycle, ((state.cycles cycle).held.map OutboxMessage.id).Nodup
  stored : ∀ cycle, ∀ message ∈ (state.cycles cycle).held,
    ∃ stored, state.store.find message.id = some stored
  unpublished : ∀ cycle, ∀ message ∈ (state.cycles cycle).pending,
    .succeeded message.id ∉ state.log
  succeeded : ∀ id, .succeeded id ∈ state.log →
    (∃ stored, state.store.find id = some stored ∧
      stored.publishedAt ≠ none) ∨
    ∃ cycle message rest hadFailures,
      state.cycles cycle = .answered message (.ok ()) rest hadFailures ∧
        message.id = id
  log : NoHandOverAfterSuccess state.log

variable {options : OutboxRelayOptions} {state next : State Ev}
  {label : Label Ev}

theorem initial_publishInvariant (now : ℚ) (store : InMemoryOutboxStore Ev)
    (metrics : Option OutboxRelayMetrics) :
    PublishInvariant (State.initial now store metrics) := by
  constructor <;>
    simp [State.initial, CycleProgress.held, CycleProgress.pending,
      NoHandOverAfterSuccess]

namespace PublishInvariant

/-- What the steps that take up no message keep. -/
theorem step_held (hinv : PublishInvariant state)
    (hstep : Step options state label next)
    (hfresh : ∀ message, label = .save message →
      state.store.find message.id = none)
    (hlabel : ∀ cycle, label ≠ .runOnce cycle) :
    (∀ cycle other, cycle ≠ other →
      ∀ message ∈ (next.cycles cycle).held,
        ∀ message' ∈ (next.cycles other).held, message.id ≠ message'.id) ∧
    (∀ cycle, ((next.cycles cycle).held.map OutboxMessage.id).Nodup) ∧
    ∀ cycle, ∀ message ∈ (next.cycles cycle).held,
      ∃ stored, next.store.find message.id = some stored := by
  have hheld := fun other => (hstep.held hlabel other).2
  refine ⟨?_, ?_, ?_⟩
  · intro cycle other hne message hmessage message' hmessage'
    exact hinv.disjoint cycle other hne message
      ((hheld cycle).subset hmessage) message' ((hheld other).subset hmessage')
  · intro cycle
    exact (hinv.nodup cycle).sublist ((hheld cycle).map _)
  · intro cycle message hmessage
    obtain ⟨stored, hfind⟩ := hinv.stored cycle message
      ((hheld cycle).subset hmessage)
    obtain ⟨stored', hfind', _⟩ := hstep.find hfresh hfind
    exact ⟨stored', hfind'⟩

/-- A cycle that has published a message marks it in its next step. -/
theorem answered_cases {cycle : ℕ} {message : OutboxMessage Ev}
    {rest : List (OutboxMessage Ev)} {hadFailures : Bool}
    (hstep : Step options state label next)
    (hcycle : state.cycles cycle =
      .answered message (.ok ()) rest hadFailures) :
    next.cycles cycle = .answered message (.ok ()) rest hadFailures ∨
      next.store = state.store.markAsPublished message.id state.clock := by
  have hkeeps : ∀ other progress progress',
      state.cycles other = progress' →
      progress' ≠ .answered message (.ok ()) rest hadFailures →
      Function.update state.cycles other progress cycle =
        .answered message (.ok ()) rest hadFailures := by
    intro other progress progress' hother hne
    rw [Function.update_of_ne, hcycle]
    intro heq
    subst other
    exact hne (hother.symm.trans hcycle)
  cases hstep with
  | tick now hclock => exact .inl hcycle
  | save message => exact .inl hcycle
  | runOnce other hother => exact .inl (hkeeps other _ _ hother (by simp))
  | deadLetter other _ _ _ hother _ =>
      exact .inl (hkeeps other _ _ hother (by simp))
  | backOff other _ _ _ hother _ _ =>
      exact .inl (hkeeps other _ _ hother (by simp))
  | handOver other _ _ _ hother _ _ =>
      exact .inl (hkeeps other _ _ hother (by simp))
  | succeed other _ _ _ hother =>
      exact .inl (hkeeps other _ _ hother (by simp))
  | fail other _ _ _ _ hother =>
      exact .inl (hkeeps other _ _ hother (by simp))
  | markPublished other message' rest' hadFailures' hother =>
      by_cases heq : other = cycle
      · subst other
        rw [hcycle] at hother
        cases hother
        exact .inr rfl
      · left
        rw [← hcycle]
        exact Function.update_of_ne (Ne.symm heq) ..
  | markFailed other _ _ _ _ hother =>
      exact .inl (hkeeps other _ _ hother (by simp))
  | record other _ _ _ hother =>
      exact .inl (hkeeps other _ _ hother (by simp))
  | finish other _ hother => exact .inl (hkeeps other _ _ hother (by simp))

/-- A message that has succeeded stays with its cycle until it is stored as
published, and then stays published. -/
theorem succeeded_step (hinv : PublishInvariant state)
    (hstep : Step options state label next)
    (hfresh : ∀ message, label = .save message →
      state.store.find message.id = none)
    {id : String} (hsucceeded : .succeeded id ∈ state.log) :
    (∃ stored, next.store.find id = some stored ∧
      stored.publishedAt ≠ none) ∨
    ∃ cycle message rest hadFailures,
      next.cycles cycle = .answered message (.ok ()) rest hadFailures ∧
        message.id = id := by
  rcases hinv.succeeded id hsucceeded with
    ⟨stored, hfind, hpublished⟩ |
      ⟨cycle, message, rest, hadFailures, hcycle, rfl⟩
  · obtain ⟨stored', hfind', hkeeps⟩ := hstep.find hfresh hfind
    exact .inl ⟨stored', hfind', hkeeps hpublished⟩
  · rcases answered_cases hstep hcycle with hnext | hstore
    · exact .inr ⟨cycle, message, rest, hadFailures, hnext, rfl⟩
    · obtain ⟨stored, hfind⟩ := hinv.stored cycle message
        (by simp [hcycle, CycleProgress.held])
      refine .inl ⟨stored.published state.clock, ?_, by
        simp [OutboxMessage.published]⟩
      rw [hstore, InMemoryOutboxStore.find_markAsPublished, if_pos rfl, hfind]
      rfl

/-- The message of a cycle that waits for the publisher is held by no other
cycle, and only once by its own. -/
theorem not_mem_pending_of_publishing (hinv : PublishInvariant state)
    {cycle other : ℕ} {message message' : OutboxMessage Ev}
    {rest : List (OutboxMessage Ev)} {hadFailures : Bool}
    (hcycle : state.cycles cycle = .publishing message rest hadFailures)
    (hmessage' : message' ∈ (state.cycles other).pending) :
    message'.id ≠ message.id := by
  by_cases heq : other = cycle
  · subst other
    have hnodup := hinv.nodup cycle
    rw [hcycle, CycleProgress.held, List.map_cons, List.nodup_cons] at hnodup
    rw [hcycle, CycleProgress.pending] at hmessage'
    intro hid
    exact hnodup.1 (hid ▸ List.mem_map_of_mem hmessage')
  · exact hinv.disjoint other cycle heq message'
      ((CycleProgress.pending_sublist_held _).subset hmessage') message
      (by simp [hcycle, CycleProgress.held])

theorem step_of_not_runOnce (hinv : PublishInvariant state)
    (hstep : Step options state label next)
    (hfresh : ∀ message, label = .save message →
      state.store.find message.id = none)
    (hlabel : ∀ cycle, label ≠ .runOnce cycle) :
    PublishInvariant next := by
  obtain ⟨hdisjoint, hnodup, hstored⟩ := hinv.step_held hstep hfresh hlabel
  have hpending := fun other => (hstep.held hlabel other).1
  constructor
  · exact hdisjoint
  · exact hnodup
  · exact hstored
  · intro cycle message hmessage hsucceeded
    have hold := hinv.unpublished cycle message
      ((hpending cycle).subset hmessage)
    rcases hstep.log_cases with hlog | ⟨_, _, _, _, _, hlog⟩ |
      ⟨other, message', rest, hadFailures, outcome, hother, _, hlog⟩
    · exact hold (hlog ▸ hsucceeded)
    · rw [hlog, List.mem_cons] at hsucceeded
      simp [hold] at hsucceeded
    · have hne := hinv.not_mem_pending_of_publishing hother
        ((hpending cycle).subset hmessage)
      rw [hlog, List.mem_cons] at hsucceeded
      cases outcome <;> simp [hold, hne] at hsucceeded
  · intro id hsucceeded
    rcases hstep.log_cases with hlog | ⟨_, _, _, _, _, hlog⟩ |
      ⟨other, message', rest, hadFailures, outcome, _, hnext, hlog⟩
    · exact hinv.succeeded_step hstep hfresh (hlog ▸ hsucceeded)
    · rw [hlog, List.mem_cons] at hsucceeded
      exact hinv.succeeded_step hstep hfresh (by simpa using hsucceeded)
    · rw [hlog, List.mem_cons] at hsucceeded
      rcases hsucceeded with hnew | hold
      · cases outcome with
        | ok _ =>
            rw [Event.succeeded.injEq] at hnew
            exact .inr ⟨other, message', rest, hadFailures, hnext, hnew.symm⟩
        | error error => simp at hnew
      · exact hinv.succeeded_step hstep hfresh hold
  · rcases hstep.log_cases with hlog |
      ⟨cycle, message, rest, hadFailures, hcycle, hlog⟩ |
      ⟨_, _, _, _, outcome, _, _, hlog⟩
    · rw [hlog]
      exact hinv.log
    · rw [hlog]
      apply noHandOverAfterSuccess_cons hinv.log
      intro id time heq
      rw [Event.handed.injEq] at heq
      rw [← heq.1]
      exact hinv.unpublished cycle message
        (by simp [hcycle, CycleProgress.pending])
    · rw [hlog]
      apply noHandOverAfterSuccess_cons hinv.log
      intro id time heq
      cases outcome <;> simp at heq

/-- A cycle that begins takes up unpublished messages that no other cycle
holds, so none of them has succeeded. -/
theorem runOnce (hinv : PublishInvariant state) {cycle : ℕ}
    (hcycle : state.cycles cycle = .notStarted)
    (htakes : ∀ other, ∀ held ∈ (state.cycles other).held,
      ∀ message ∈ state.store.getUnpublished options.batchSize,
        held.id ≠ message.id) :
    PublishInvariant (state.advance cycle
      (.looping (state.store.getUnpublished options.batchSize) false)) := by
  have hself : (state.advance cycle (.looping
      (state.store.getUnpublished options.batchSize) false)).cycles cycle =
      .looping (state.store.getUnpublished options.batchSize) false :=
    Function.update_self ..
  have hother : ∀ other, other ≠ cycle →
      (state.advance cycle (.looping
        (state.store.getUnpublished options.batchSize) false)).cycles other =
        state.cycles other :=
    fun other hne => Function.update_of_ne hne ..
  constructor
  · intro first second hne message hmessage message' hmessage'
    by_cases hfirst : first = cycle
    · subst first
      rw [hself] at hmessage
      rw [hother second (Ne.symm hne)] at hmessage'
      exact Ne.symm (htakes second message' hmessage' message hmessage)
    · rw [hother first hfirst] at hmessage
      by_cases hsecond : second = cycle
      · subst second
        rw [hself] at hmessage'
        exact htakes first message hmessage message' hmessage'
      · rw [hother second hsecond] at hmessage'
        exact hinv.disjoint first second hne message hmessage message'
          hmessage'
  · intro other
    by_cases heq : other = cycle
    · subst other
      rw [hself]
      exact state.store.nodup_getUnpublished options.batchSize
    · rw [hother other heq]
      exact hinv.nodup other
  · intro other message hmessage
    by_cases heq : other = cycle
    · subst other
      rw [hself] at hmessage
      exact ⟨message,
        (InMemoryOutboxStore.find_of_mem_getUnpublished hmessage).1⟩
    · rw [hother other heq] at hmessage
      exact hinv.stored other message hmessage
  · intro other message hmessage hsucceeded
    by_cases heq : other = cycle
    · subst other
      rw [hself] at hmessage
      obtain ⟨hfind, hunpublished⟩ :=
        InMemoryOutboxStore.find_of_mem_getUnpublished hmessage
      rcases hinv.succeeded message.id hsucceeded with
        ⟨stored, hstored, hpublished⟩ |
        ⟨holder, message', rest, hadFailures, hholder, hid⟩
      · rw [hfind, Option.some.injEq] at hstored
        exact hpublished (hstored ▸ hunpublished)
      · exact htakes holder message' (by simp [hholder, CycleProgress.held])
          message hmessage hid
    · rw [hother other heq] at hmessage
      exact hinv.unpublished other message hmessage hsucceeded
  · intro id hsucceeded
    rcases hinv.succeeded id hsucceeded with hstored |
      ⟨holder, message, rest, hadFailures, hholder, hid⟩
    · exact .inl hstored
    · have hne : holder ≠ cycle := by
        intro heq
        rw [heq, hcycle] at hholder
        contradiction
      exact .inr ⟨holder, message, rest, hadFailures,
        (hother holder hne).trans hholder, hid⟩
  · exact hinv.log

theorem step (hinv : PublishInvariant state)
    (htakes : TakesNothingHeld options state label)
    (hstep : options.step state label = some next) :
    PublishInvariant next := by
  have hcases := step_of_eq_some hstep
  by_cases hlabel : ∃ cycle, label = .runOnce cycle
  · obtain ⟨cycle, rfl⟩ := hlabel
    cases hcases with
    | runOnce _ hcycle => exact hinv.runOnce hcycle htakes
  · refine hinv.step_of_not_runOnce hcases ?_ (not_exists.mp hlabel)
    intro message hsave
    subst label
    exact htakes

end PublishInvariant

theorem publishInvariant_of_takesNothingHeld {now : ℚ}
    {store : InMemoryOutboxStore Ev} {metrics : Option OutboxRelayMetrics}
    {labels : List (Label Ev)}
    (hrun : exec options.step (State.initial now store metrics) labels =
      some state)
    (hmeet : StepsMeet options.step (TakesNothingHeld options)
      (State.initial now store metrics) labels) :
    PublishInvariant state :=
  exec_invariant_of_stepsMeet
    (fun _ _ _ hinv htakes hstep => hinv.step htakes hstep)
    (initial_publishInvariant now store metrics) hmeet hrun

/-- If no cycle takes up a message that another one still holds, no message is
handed to the publisher after a publish call for it has succeeded. -/
theorem noHandOverAfterSuccess_of_takesNothingHeld
    (options : OutboxRelayOptions) (now : ℚ) (store : InMemoryOutboxStore Ev)
    (metrics : Option OutboxRelayMetrics) (labels : List (Label Ev))
    (state : State Ev)
    (hrun : exec options.step (State.initial now store metrics) labels =
      some state)
    (hmeet : StepsMeet options.step (TakesNothingHeld options)
      (State.initial now store metrics) labels) :
    NoHandOverAfterSuccess state.log :=
  (publishInvariant_of_takesNothingHeld hrun hmeet).log

/-! ## Two cycles and one message -/

def orderPlaced : OutboxMessage String where
  id := "msg-1"
  eventEnvelope := "OrderPlaced"
  createdAt := 0
  publishedAt := none
  attempts := 0
  lastAttemptAt := none
  error := none

def oneMessage : State String :=
  State.initial 0 (InMemoryOutboxStore.empty.save orderPlaced) (some {})

/-- A cycle publishes the message and marks it. -/
def publishes (cycle : ℕ) : List (Label String) :=
  [.resume cycle, .publishSettles cycle (.ok ()), .resume cycle]

/-- The second cycle begins when the first one has marked its message. -/
theorem noHandOverAfterSuccess_of_takesNothingHeld_twoCycles :
    ∃ state,
      exec ({} : OutboxRelayOptions).step oneMessage
        ((.runOnce 0 :: publishes 0) ++ [.runOnce 1, .resume 1, .resume 0]) =
          some state ∧
      state.log = [.succeeded "msg-1", .handed "msg-1" 0] ∧
      NoHandOverAfterSuccess state.log := by
  have hsome : ((exec ({} : OutboxRelayOptions).step oneMessage
      ((.runOnce 0 :: publishes 0) ++ [.runOnce 1, .resume 1, .resume 0])).map
        fun state => state.log) =
      some [.succeeded "msg-1", .handed "msg-1" 0] := by
    decide +kernel
  obtain ⟨state, hrun, hlog⟩ := Option.map_eq_some_iff.mp hsome
  have hempty : ((exec ({} : OutboxRelayOptions).step oneMessage
      (.runOnce 0 :: publishes 0)).map fun state =>
        state.store.getUnpublished 100) = some [] := by
    decide +kernel
  have hmeet : StepsMeet ({} : OutboxRelayOptions).step
      (TakesNothingHeld {}) oneMessage
      ((.runOnce 0 :: publishes 0) ++ [.runOnce 1, .resume 1, .resume 0]) := by
    refine StepsMeet.append ⟨?_, fun _ _ => ?_⟩ fun middle hmiddle => ?_
    · intro other held hheld
      simp [oneMessage, State.initial, CycleProgress.held] at hheld
    · apply StepsMeet.of_forall_mem
      intro label hlabel state
      simp only [publishes, List.mem_cons, List.not_mem_nil, or_false]
        at hlabel
      rcases hlabel with rfl | rfl | rfl <;> trivial
    · rw [hmiddle, Option.map_some, Option.some.injEq] at hempty
      refine ⟨?_, fun _ _ => ⟨trivial, fun _ _ => ⟨trivial,
        fun _ _ => trivial⟩⟩⟩
      intro other held _ message hmessage
      rw [hempty] at hmessage
      simp at hmessage
  exact ⟨state, hrun, hlog, noHandOverAfterSuccess_of_takesNothingHeld {} 0
    _ _ _ state hrun hmeet⟩

/-- Two cycles take up the same message and publish it one after the
other. -/
theorem handed_over_after_success :
    ∃ state,
      exec ({} : OutboxRelayOptions).step oneMessage
        (.runOnce 0 :: .runOnce 1 :: (publishes 0 ++ publishes 1)) =
          some state ∧
      state.log = [.succeeded "msg-1", .handed "msg-1" 0,
        .succeeded "msg-1", .handed "msg-1" 0] ∧
      ¬ NoHandOverAfterSuccess state.log := by
  have hsome : ((exec ({} : OutboxRelayOptions).step oneMessage
      (.runOnce 0 :: .runOnce 1 :: (publishes 0 ++ publishes 1))).map
        fun state => state.log) =
      some [.succeeded "msg-1", .handed "msg-1" 0,
        .succeeded "msg-1", .handed "msg-1" 0] := by
    decide +kernel
  obtain ⟨state, hrun, hlog⟩ := Option.map_eq_some_iff.mp hsome
  refine ⟨state, hrun, hlog, fun hnever => ?_⟩
  rw [hlog] at hnever
  exact hnever [.succeeded "msg-1", .handed "msg-1" 0] "msg-1"
    [.handed "msg-1" 0] rfl 0 (by simp)

end TsCommons.Outbox
