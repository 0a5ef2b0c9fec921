import TsCommons.EventSourcing.Delivery

/-!
# Deliveries that are not made good

A step that does not keep the law costs a handler a call, gives it one too
many or puts its calls out of order.  Handlers that return at once do not make
up for that: they only run the loops of the appends to their ends, and there
the law fails.
-/

namespace TsCommons.EventSourcing.Subscriptions

open Foundations

variable {H Ev : Type*} [DecidableEq H] {state next : State H Ev}
  {handlers : List H} {delivery : Delivery H Ev} {handler : H}

/-! ## Running the loops to their ends -/

/-- The steps of loops whose handlers return at once. -/
def Quiet (label : Label H Ev) : Prop :=
  label = .proceed ∨ label = .returns

omit [DecidableEq H] in
theorem quiet_of_mem_quietCalls {remaining : ℕ} {label : Label H Ev}
    (hmem : label ∈ quietCalls remaining) : Quiet label := by
  induction remaining with
  | zero => cases hmem
  | succ remaining ih =>
      rcases List.mem_cons.mp hmem with rfl | hrest
      · exact .inl rfl
      · rcases List.mem_cons.mp hrest with rfl | hlater
        · exact .inr rfl
        · exact ih hlater

omit [DecidableEq H] in
theorem quiet_of_mem_quietLoops {subscribed remaining : ℕ}
    {label : Label H Ev} (hmem : label ∈ quietLoops subscribed remaining) :
    Quiet label := by
  induction remaining with
  | zero => exact .inl (List.mem_singleton.mp hmem)
  | succ remaining ih =>
      rcases List.mem_append.mp hmem with hcalls | hrest
      · exact quiet_of_mem_quietCalls hcalls
      · rcases List.mem_cons.mp hrest with rfl | hlater
        · exact .inl rfl
        · exact ih hlater

theorem quiet_cases {label : Label H Ev} (hquiet : Quiet label)
    (hstep : step state label = some next) :
    (∃ delivery rest, state.active = delivery :: rest ∧
      next = state.proceed delivery rest) ∨
    next = { state with looping := true } := by
  rcases step_cases hstep with ⟨handler, rfl, -⟩ | ⟨handler, rfl, -⟩ |
    ⟨streamId, events, expectedVersion, rfl, -⟩ |
    ⟨delivery, rest, -, -, hactive, hnext⟩ | ⟨-, -, -, hnext⟩ |
    ⟨delivery, rest, rfl, -⟩
  · simp [Quiet] at hquiet
  · simp [Quiet] at hquiet
  · simp [Quiet] at hquiet
  · exact .inl ⟨delivery, rest, hactive, hnext⟩
  · exact .inr hnext
  · simp [Quiet] at hquiet

/-- The loops of the last append come to the next event. -/
theorem canReach_nextEvent {rest : List (Delivery H Ev)} {event : Ev × ℕ}
    {later : List (Ev × ℕ)} (hactive : state.active = delivery :: rest)
    (hlooping : state.looping = true)
    (hpending : delivery.pending = event :: later) :
    ∃ next, CanReach step Quiet state next ∧
      next.active = { delivery with pending := later, index := 0 } :: rest ∧
      next.looping = true := by
  by_cases hle : delivery.index ≤ state.store.handlers.length
  · have hcalls := exec_quietCalls hactive hlooping hpending
      (Nat.add_sub_cancel' hle)
    refine ⟨_, CanReach.trans
      ⟨_, fun _ => quiet_of_mem_quietCalls, hcalls⟩
      (CanReach.of_step (.inl rfl)
        (step_proceed_of_end rfl hlooping hpending (Nat.le_refl _))), rfl, ?_⟩
    exact hlooping
  · have hend : state.store.handlers.length ≤ delivery.index := by omega
    exact ⟨_, CanReach.of_step (.inl rfl)
      (step_proceed_of_end hactive hlooping hpending hend), rfl, hlooping⟩

/-- The loops of the last append come to their end. -/
theorem canReach_finish {rest : List (Delivery H Ev)}
    (hactive : state.active = delivery :: rest)
    (hlooping : state.looping = true) :
    ∃ next, CanReach step Quiet state next ∧ next.active = rest := by
  induction hpending : delivery.pending generalizing state delivery with
  | nil =>
      have hstep : step state .proceed = some (state.finish delivery rest) := by
        simp only [step, hactive, hlooping, if_true, State.proceed, hpending]
      exact ⟨_, CanReach.of_step (.inl rfl) hstep, rfl⟩
  | cons event later ih =>
      obtain ⟨middle, hbefore, hkept, hloops⟩ :=
        canReach_nextEvent hactive hlooping hpending
      obtain ⟨next, hafter, hrest⟩ := ih hkept hloops rfl
      exact ⟨next, hbefore.trans hafter, hrest⟩

theorem canReach_end (state : State H Ev) :
    ∃ last, CanReach step Quiet state last ∧ last.active = [] := by
  induction hactive : state.active generalizing state with
  | nil => exact ⟨state, .refl _ _ _, hactive⟩
  | cons delivery rest ih =>
      have hloops : CanReach step Quiet state
          { state with looping := true } := by
        cases hlooping : state.looping with
        | true =>
            rw [← hlooping]
            exact .refl _ _ _
        | false =>
            apply CanReach.of_step (.inr rfl)
            simp [step, hlooping, hactive]
      have hrunning : ({ state with looping := true } : State H Ev).active =
          delivery :: rest := hactive
      obtain ⟨middle, hfinish, hrest⟩ := canReach_finish hrunning rfl
      obtain ⟨last, hend, hdone⟩ := ih middle hrest
      exact ⟨last, (hloops.trans hfinish).trans hend, hdone⟩

/-! ## Calls that are missing or too many -/

/-- How often the loops of an append will have called a handler, if the
handlers do not change again. -/
def expected (state : State H Ev) (delivery : Delivery H Ev) (handler : H) :
    ℕ :=
  (callsTo handler delivery state.calls).length +
    toCome state.store.handlers delivery handler

/-- A handler that stays is called another number of times than there are
events. -/
def Amiss (state : State H Ev) : Prop :=
  (∃ delivery ∈ state.active, ∃ handler ∈ delivery.staying,
    expected state delivery handler ≠ delivery.events.length) ∨
  ∃ delivery ∈ state.ended, ∃ handler ∈ delivery.staying,
    (callsTo handler delivery state.calls).length ≠ delivery.events.length

theorem expected_nextEvent {rest : List (Delivery H Ev)} {event : Ev × ℕ}
    {later : List (Ev × ℕ)} (hpending : delivery.pending = event :: later)
    (hend : state.store.handlers.length ≤ delivery.index) (handler : H) :
    expected (state.nextEvent delivery rest later)
        { delivery with pending := later, index := 0 } handler =
      expected state delivery handler := by
  have hcalls := toCome_nextEvent hpending hend handler
  simp only [expected, State.nextEvent, hcalls]
  rfl

theorem expected_call {rest : List (Delivery H Ev)} {event : Ev × ℕ}
    {later : List (Ev × ℕ)} (hpending : delivery.pending = event :: later)
    (hhandler : state.store.handlers[delivery.index]? = some handler)
    (other : H) :
    expected (state.call delivery rest event handler)
        { delivery with index := delivery.index + 1 } other =
      expected state delivery other := by
  have hcalls := toCome_call hpending hhandler other
  simp only [expected, State.call, hcalls]
  rw [callsTo_concat, List.length_append]
  have hsame : callsTo other { delivery with index := delivery.index + 1 }
      state.calls = callsTo other delivery state.calls :=
    callsTo_congr rfl other state.calls
  rw [hsame]
  by_cases heq : handler = other
  · simp only [heq, true_and, if_true, List.length_singleton]
    omega
  · simp only [heq, false_and, if_false, List.length_nil]
    omega

theorem Amiss.proceed (hamiss : Amiss state) (hnum : Numbering state)
    {rest : List (Delivery H Ev)}
    (hactive : state.active = delivery :: rest) :
    Amiss (state.proceed delivery rest) := by
  rcases proceed_cases state delivery rest with ⟨hpending, hnext⟩ |
    ⟨event, later, hpending, hend, hnext⟩ |
    ⟨event, later, handler, hpending, hhandler, hnext⟩
  · rw [hnext]
    rcases hamiss with ⟨other, hother, recipient, hstays, hne⟩ |
      ⟨other, hother, recipient, hstays, hne⟩
    · rw [hactive] at hother
      rcases List.mem_cons.mp hother with rfl | hold
      · refine .inr ⟨other, List.mem_append_right _ List.mem_cons_self,
          recipient, hstays, ?_⟩
        simpa only [expected, toCome, hpending, Nat.add_zero,
          State.finish] using hne
      · exact .inl ⟨other, hold, recipient, hstays, hne⟩
    · exact .inr ⟨other, List.mem_append_left _ hother, recipient, hstays,
        hne⟩
  · rw [hnext]
    rcases hamiss with ⟨other, hother, recipient, hstays, hne⟩ | hended
    · rw [hactive] at hother
      rcases List.mem_cons.mp hother with rfl | hold
      · refine .inl ⟨_, List.mem_cons_self, recipient, hstays, ?_⟩
        rw [expected_nextEvent hpending hend]
        exact hne
      · exact .inl ⟨other, List.mem_cons_of_mem _ hold, recipient, hstays,
          hne⟩
    · exact .inr hended
  · rw [hnext]
    have hdiffers : ∀ other ∈ rest ++ state.ended, delivery.id ≠ other.id :=
      fun other hother => hnum.id_ne hactive hother
    rcases hamiss with ⟨other, hother, recipient, hstays, hne⟩ |
      ⟨other, hother, recipient, hstays, hne⟩
    · rw [hactive] at hother
      rcases List.mem_cons.mp hother with rfl | hold
      · refine .inl ⟨_, List.mem_cons_self, recipient, hstays, ?_⟩
        rw [expected_call hpending hhandler]
        exact hne
      · refine .inl ⟨other, List.mem_cons_of_mem _ hold, recipient, hstays,
          ?_⟩
        simp only [expected, State.call]
        rw [callsTo_concat_of_ne (hdiffers other
          (List.mem_append_left _ hold))]
        exact hne
    · refine .inr ⟨other, hother, recipient, hstays, ?_⟩
      simp only [State.call]
      rw [callsTo_concat_of_ne (hdiffers other
        (List.mem_append_right _ hother))]
      exact hne

/-- Handlers that return at once do not make up for a call. -/
theorem Amiss.violation (hamiss : Amiss state) (hnum : Numbering state) :
    ∃ last, CanReach step Quiet state last ∧ ¬ DeliveryLaw last := by
  obtain ⟨last, hreaches, hactive⟩ := canReach_end state
  refine ⟨last, hreaches, fun hlaw => ?_⟩
  have hlast : Amiss last ∧ Numbering last := by
    apply hreaches.invariant (I := fun state => Amiss state ∧ Numbering state)
      _ ⟨hamiss, hnum⟩
    intro state label next hinv hquiet hstep
    refine ⟨?_, hinv.2.step hstep⟩
    rcases quiet_cases hquiet hstep with ⟨delivery, rest, hactive, rfl⟩ | rfl
    · exact hinv.1.proceed hinv.2 hactive
    · exact hinv.1
  rcases hlast.1 with ⟨delivery, hdelivery, -⟩ |
    ⟨delivery, hdelivery, handler, hstays, hne⟩
  · rw [hactive] at hdelivery
    cases hdelivery
  · exact hne (congrArg List.length (hlaw.once delivery hdelivery handler
      hstays))

/-! ## Calls out of order -/

/-- The append as it began, with the handlers that still stay. -/
def Delivery.begun (delivery : Delivery H Ev) : Delivery H Ev :=
  { delivery with pending := delivery.events, index := 0 }

/-- What handlers that return at once leave as it is. -/
structure Persists (state last : State H Ev) : Prop where
  begun : (last.begun.map Delivery.begun).Perm
    (state.begun.map Delivery.begun)
  calls : state.calls <+: last.calls

omit [DecidableEq H] in
theorem Persists.refl (state : State H Ev) : Persists state state :=
  ⟨List.Perm.refl _, List.prefix_rfl⟩

omit [DecidableEq H] in
theorem Persists.trans {middle last : State H Ev}
    (hbefore : Persists state middle) (hafter : Persists middle last) :
    Persists state last :=
  ⟨hafter.begun.trans hbefore.begun, hbefore.calls.trans hafter.calls⟩

omit [DecidableEq H] in
theorem Persists.proceed {rest : List (Delivery H Ev)}
    (hactive : state.active = delivery :: rest) :
    Persists state (state.proceed delivery rest) := by
  rcases proceed_cases state delivery rest with ⟨-, hnext⟩ |
    ⟨event, later, -, -, hnext⟩ | ⟨event, later, handler, -, -, hnext⟩
  · rw [hnext]
    exact ⟨(begun_finish hactive).map Delivery.begun, List.prefix_rfl⟩
  · rw [hnext]
    constructor
    · simp only [State.begun, State.nextEvent, hactive, List.cons_append,
        List.map_cons, Delivery.begun, List.Perm.refl]
    · exact List.prefix_rfl
  · rw [hnext]
    constructor
    · simp only [State.begun, State.call, hactive, List.cons_append,
        List.map_cons, Delivery.begun, List.Perm.refl]
    · exact List.prefix_append _ _

theorem persists_of_canReach {last : State H Ev}
    (hreaches : CanReach step Quiet state last) : Persists state last := by
  apply hreaches.invariant (I := Persists state) _ (Persists.refl state)
  intro middle label next hbefore hquiet hstep
  rcases quiet_cases hquiet hstep with ⟨delivery, rest, hactive, rfl⟩ | rfl
  · exact hbefore.trans (.proceed hactive)
  · exact ⟨hbefore.begun, hbefore.calls⟩

omit [DecidableEq H] in
theorem Persists.kept {last : State H Ev} (hpersists : Persists state last)
    (hdelivery : delivery ∈ state.begun) :
    ∃ kept ∈ last.begun, kept.begun = delivery.begun :=
  List.mem_map.mp (hpersists.begun.mem_iff.mpr
    (List.mem_map_of_mem hdelivery))

/-- What is owed to a handler that stays comes too late once it has been
called for a later event of the stream. -/
theorem not_deliveryLaw_of_late (hnum : Numbering state)
    (hactive : state.active = []) {upper : Delivery H Ev}
    (hupper : upper ∈ state.ended) (hdelivery : delivery ∈ state.ended)
    (hstream : upper.streamId = delivery.streamId)
    (hstays : handler ∈ upper.staying) (hkept : handler ∈ delivery.staying)
    {before after : List (Call H Ev)} (hcalls : before ++ after = state.calls)
    {first event : Ev × ℕ} (hfirst : first ∈ callsTo handler upper before)
    (hevent : event ∈ delivery.events) (hle : event.2 ≤ first.2)
    (howed : event ∉ callsTo handler delivery before) :
    ¬ DeliveryLaw state := by
  intro hlaw
  have honce := hlaw.once delivery hdelivery handler hkept
  rw [← hcalls, callsTo_append] at honce
  have hafter : event ∈ callsTo handler delivery after := by
    rw [← honce] at hevent
    exact (List.mem_append.mp hevent).resolve_left howed
  obtain ⟨early, hearly, ⟨hto, hmade⟩, rfl⟩ := mem_callsTo.mp hfirst
  obtain ⟨late, hlate, ⟨htoLate, hmadeLate⟩, rfl⟩ := mem_callsTo.mp hafter
  have hordered := hlaw.ordered
  rw [← hcalls] at hordered
  have hsequence := (List.pairwise_append.mp hordered).2.2 early hearly late
    hlate
  have hbegun : state.begun = state.ended := by
    rw [State.begun, hactive, List.nil_append]
  have hstreamOf : ∀ call ∈ state.calls, ∀ maker ∈ state.ended,
      call.append = maker.id → call.streamId = maker.streamId := by
    intro call hcall maker hmaker hid
    obtain ⟨other, hother, hsame, hstream, -⟩ := hnum.called call hcall
    rw [← hbegun] at hmaker
    rw [hstream, hnum.eq_of_id hmaker hother (hid.symm.trans hsame)]
  have hlt : early.event.2 < late.event.2 := by
    apply hsequence
    · exact ⟨upper, hupper, hmade.symm, hto ▸ hstays⟩
    · exact ⟨delivery, hdelivery, hmadeLate.symm, htoLate ▸ hkept⟩
    · rw [hto, htoLate]
    · rw [hstreamOf early _ upper hupper hmade,
        hstreamOf late _ delivery hdelivery hmadeLate, hstream]
      · rw [← hcalls]
        exact List.mem_append_right _ hlate
      · rw [← hcalls]
        exact List.mem_append_left _ hearly
  omega

theorem Due.mem_handlers (hdue : Due handlers delivery)
    (hstays : handler ∈ delivery.staying)
    (howed : owed handlers delivery handler ≠ []) : handler ∈ handlers := by
  by_contra hnot
  have hall : handlers.count handler = 0 := List.count_eq_zero_of_not_mem hnot
  have hround := count_unvisited_le handlers delivery.index handler
  have hcalls := hdue handler hstays
  apply howed
  apply List.length_eq_zero_iff.mp
  rw [← hcalls]
  unfold toCome
  cases delivery.pending with
  | nil => rfl
  | cons event later =>
      simp only [hall, Nat.mul_zero, Nat.add_zero]
      omega

/-- What is owed to a handler is not what it was called with. -/
theorem Owing.not_mem_callsTo (howing : Owing state) (hnum : Numbering state)
    (hdelivery : delivery ∈ state.active)
    (hstays : handler ∈ delivery.staying) {event : Ev × ℕ}
    (hevent : event ∈ owed state.store.handlers delivery handler) :
    event ∉ callsTo handler delivery state.calls := by
  intro hcalled
  have hincreasing := hnum.increasing delivery
    (List.mem_append_left _ hdelivery)
  rw [← howing.owing delivery hdelivery handler hstays] at hincreasing
  have hlt := (List.pairwise_append.mp hincreasing).2.2 event hcalled event
    hevent
  exact Nat.lt_irrefl _ hlt

/-- The loops of a new append call each handler for each of its events, and
only they call handlers meanwhile. -/
theorem canReach_delivered (state : State H Ev)
    (store : InMemoryEventStore H Ev) (streamId : String)
    (events : List Ev) :
    ∃ middle made, CanReach step Quiet (state.deliver store streamId events)
        middle ∧
      middle.calls = state.calls ++ made ∧
      (∀ call ∈ made, call.append = state.appends) ∧
      ∀ handler ∈ store.handlers,
        ∀ event ∈ events.zipIdx (state.store.content streamId).length,
          ⟨handler, state.appends, streamId, event⟩ ∈ made := by
  have hstarted : (state.deliver store streamId events).active =
      ⟨state.appends, streamId,
        events.zipIdx (state.store.content streamId).length,
        events.zipIdx (state.store.content streamId).length, 0,
        store.handlers⟩ :: state.active := rfl
  obtain ⟨middle, hrun, -, -, -, hcalls⟩ := exec_quietLoops hstarted rfl rfl
  refine ⟨middle, _, ⟨_, fun _ => quiet_of_mem_quietLoops, hrun⟩, hcalls, ?_,
    ?_⟩
  · intro call hcall
    obtain ⟨event, -, hmade⟩ := List.mem_flatMap.mp hcall
    obtain ⟨handler, -, rfl⟩ := List.mem_map.mp hmade
    rfl
  · intro handler hsubscribed event hevent
    exact List.mem_flatMap.mpr
      ⟨event, hevent, List.mem_map_of_mem hsubscribed⟩

/-- When events are appended to a stream of which an event is still owed to a
handler that stays, the loops of the new append call it first. -/
theorem late_deliver (hinv : Invariant state)
    {store : InMemoryEventStore H Ev} {streamId : String} {events : List Ev}
    (hhandlers : store.handlers = state.store.handlers)
    (hcontent : ∀ other, store.content other =
      if other = streamId then state.store.content streamId ++ events
      else state.store.content other)
    (hevents : events ≠ []) (hdelivery : delivery ∈ state.active)
    (hstream : delivery.streamId = streamId)
    (hstays : handler ∈ delivery.staying)
    (howed : owed state.store.handlers delivery handler ≠ []) :
    ∃ last, CanReach step Quiet (state.deliver store streamId events) last ∧
      ¬ DeliveryLaw last := by
  have hbegun : delivery ∈ state.begun := List.mem_append_left _ hdelivery
  have hnum : Numbering (state.deliver store streamId events) :=
    hinv.numbering.deliver hcontent
  obtain ⟨middle, made, hloops, hcalls, hmakes, hmade⟩ :=
    canReach_delivered state store streamId events
  obtain ⟨last, hends, hactive⟩ := canReach_end middle
  have hreaches := hloops.trans hends
  have hlast : Numbering last :=
    hreaches.invariant (fun _ _ _ hnum _ hstep => hnum.step hstep) hnum
  have hpersists := persists_of_canReach hreaches
  obtain ⟨after, hafter⟩ := (persists_of_canReach hends).calls
  obtain ⟨upper, hupper, hnew⟩ := hpersists.kept List.mem_cons_self
  obtain ⟨kept, hkept, hsame⟩ :=
    hpersists.kept (List.mem_cons_of_mem _ hbegun)
  have hended : last.begun = last.ended := by
    rw [State.begun, hactive, List.nil_append]
  rw [hended] at hupper hkept
  simp only [Delivery.begun, Delivery.mk.injEq] at hnew hsame
  obtain ⟨hid, hstreamId, -, -, -, hstaying⟩ := hnew
  obtain ⟨hidKept, hstreamKept, heventsKept, -, -, hstayingKept⟩ := hsame
  have hsubscribed : handler ∈ store.handlers := by
    rw [hhandlers]
    exact (hinv.owing.due delivery hdelivery).mem_handlers hstays howed
  obtain ⟨first, rest, rfl⟩ := List.exists_cons_of_ne_nil hevents
  have hfirst : (first, (state.store.content streamId).length) ∈
      callsTo handler upper middle.calls := by
    rw [hcalls]
    exact mem_callsTo.mpr ⟨_, List.mem_append_right _
      (hmade handler hsubscribed _ List.mem_cons_self),
      ⟨rfl, hid.symm⟩, rfl⟩
  obtain ⟨event, hevent⟩ := List.exists_mem_of_ne_nil _ howed
  have hlate : event ∈ delivery.events :=
    (hinv.numbering.suffix delivery hdelivery).mem
      (mem_pending_of_mem_owed hevent)
  have hposition := hinv.numbering.position_lt hbegun hlate
  rw [hstream] at hposition
  have hother : ∀ call ∈ made, call.append ≠ delivery.id := by
    intro call hcall
    rw [hmakes call hcall]
    exact (Nat.ne_of_lt (hinv.numbering.fresh delivery hbegun)).symm
  have hbefore : callsTo handler kept middle.calls =
      callsTo handler delivery state.calls := by
    rw [callsTo_congr hidKept, hcalls, callsTo_append,
      callsTo_eq_nil handler hother, List.append_nil]
  refine ⟨last, hreaches, not_deliveryLaw_of_late hlast hactive hupper hkept ?_
    ?_ ?_ hafter hfirst ?_ (Nat.le_of_lt hposition) ?_⟩
  · rw [hstreamId, hstreamKept, hstream]
  · rw [hstaying]
    exact hsubscribed
  · rw [hstayingKept]
    exact hstays
  · rw [heventsKept]
    exact hlate
  · rw [hbefore]
    exact hinv.owing.not_mem_callsTo hinv.numbering hdelivery hstays hevent

/-! ## Steps that do not keep the law -/

/-- Only the loops that run may have come to the end of their events. -/
structure Waiting (state : State H Ev) : Prop where
  beneath : ∀ delivery ∈ state.active.tail, delivery.pending ≠ []
  called : state.looping = false →
    ∀ delivery ∈ state.active, delivery.pending ≠ []

omit [DecidableEq H] in
theorem waiting_initial : Waiting (State.initial : State H Ev) := by
  constructor <;> simp [State.initial]

omit [DecidableEq H] in
theorem Waiting.finish (hwaiting : Waiting state)
    {rest : List (Delivery H Ev)}
    (hactive : state.active = delivery :: rest) :
    Waiting (state.finish delivery rest) := by
  have hbeneath := hwaiting.beneath
  rw [hactive, List.tail_cons] at hbeneath
  constructor
  · exact fun other hother => hbeneath other (List.mem_of_mem_tail hother)
  · exact fun _ => hbeneath

omit [DecidableEq H] in
theorem Waiting.proceed (hwaiting : Waiting state)
    {rest : List (Delivery H Ev)} (hlooping : state.looping = true)
    (hactive : state.active = delivery :: rest) :
    Waiting (state.proceed delivery rest) := by
  have hbeneath := hwaiting.beneath
  rw [hactive, List.tail_cons] at hbeneath
  rcases proceed_cases state delivery rest with ⟨-, hnext⟩ |
    ⟨event, later, -, -, hnext⟩ | ⟨event, later, handler, hpending, -, hnext⟩
  · rw [hnext]
    exact hwaiting.finish hactive
  · rw [hnext]
    refine ⟨hbeneath, fun hidle => ?_⟩
    rw [State.nextEvent, hlooping] at hidle
    cases hidle
  · rw [hnext]
    refine ⟨hbeneath, fun _ other hother => ?_⟩
    rcases List.mem_cons.mp hother with rfl | hold
    · simp [hpending]
    · exact hbeneath other hold

theorem Waiting.step (hwaiting : Waiting state) {label : Label H Ev}
    (hstep : Subscriptions.step state label = some next) :
    Waiting next := by
  rcases step_cases hstep with ⟨handler, rfl, -, rfl⟩ |
    ⟨handler, rfl, -, rfl⟩ |
    ⟨streamId, events, expectedVersion, rfl, hidle,
      ⟨error, -, rfl⟩ | ⟨store, hwrite, rfl⟩⟩ |
    ⟨delivery, rest, rfl, hlooping, hactive, rfl⟩ | ⟨rfl, -, -, rfl⟩ |
    ⟨delivery, rest, rfl, -, hactive, rfl⟩
  · exact ⟨hwaiting.beneath, hwaiting.called⟩
  · constructor
    · intro kept hkept
      rw [← List.map_tail] at hkept
      obtain ⟨delivery, hdelivery, rfl⟩ := List.mem_map.mp hkept
      exact hwaiting.beneath delivery hdelivery
    · intro hidle kept hkept
      obtain ⟨delivery, hdelivery, rfl⟩ := List.mem_map.mp hkept
      exact hwaiting.called hidle delivery hdelivery
  · exact hwaiting
  · refine ⟨hwaiting.called hidle, fun hlooping => ?_⟩
    cases hlooping
  · exact hwaiting.proceed hlooping hactive
  · refine ⟨hwaiting.beneath, fun hlooping => ?_⟩
    cases hlooping
  · exact hwaiting.finish hactive

/-- While the law is kept, a handler that stays is called as often as there
are events. -/
theorem Owing.expected_eq (howing : Owing state)
    (hdelivery : delivery ∈ state.active)
    (hstays : handler ∈ delivery.staying) :
    expected state delivery handler = delivery.events.length := by
  rw [← howing.owing delivery hdelivery handler hstays, List.length_append,
    ← howing.due delivery hdelivery handler hstays]
  rfl

theorem toCome_subscribe (hbusy : delivery.pending ≠ [])
    (hloops : ¬ (handlers.length < delivery.index ∧
      delivery.pending.tail = [])) :
    toCome handlers delivery handler <
      toCome (handlers ++ [handler]) delivery handler := by
  obtain ⟨event, later, hpending⟩ := List.exists_cons_of_ne_nil hbusy
  simp only [toCome, hpending]
  have hround : later.length * (handlers ++ [handler]).count handler =
      later.length * handlers.count handler + later.length := by
    rw [List.count_append, List.count_singleton_self, Nat.mul_succ]
  rw [hround, unvisited_push, List.count_append]
  by_cases hle : delivery.index ≤ handlers.length
  · rw [if_pos hle, List.count_singleton_self]
    omega
  · have hlater : later ≠ [] := by
      intro hnil
      apply hloops
      rw [hpending, List.tail_cons]
      exact ⟨Nat.lt_of_not_le hle, hnil⟩
    have hpos := List.length_pos_iff.mpr hlater
    omega

theorem toCome_unsubscribe {skipped : H} (hbusy : delivery.pending ≠ [])
    (hbehind : handlers.idxOf handler < delivery.index)
    (hnext : handlers[delivery.index]? = some skipped)
    (hne : skipped ≠ handler) :
    toCome (handlers.eraseIdx (handlers.idxOf handler))
        (delivery.leave handler) skipped <
      toCome handlers delivery skipped := by
  obtain ⟨event, later, hpending⟩ := List.exists_cons_of_ne_nil hbusy
  have hround := count_unvisited_splice_behind handlers hbehind skipped
  rw [if_pos hnext] at hround
  have hall : (handlers.eraseIdx (handlers.idxOf handler)).count skipped =
      handlers.count skipped := by
    rw [← List.erase_eq_eraseIdx_of_idxOf rfl, List.count_erase_of_ne hne]
  simp only [toCome, Delivery.leave, hpending]
  rw [hall, hround]
  omega

theorem amiss_subscribe (hinv : Invariant state) (hwaiting : Waiting state)
    (hidle : state.looping = false)
    (hnot : ¬ KeepsLaw state (.subscribe handler)) :
    Amiss { state with store := state.store.subscribe handler } := by
  simp only [KeepsLaw, not_forall] at hnot
  obtain ⟨delivery, hdelivery, hstays, hloops⟩ := hnot
  refine .inl ⟨delivery, hdelivery, handler, hstays, ?_⟩
  have hmore : toCome state.store.handlers delivery handler <
      toCome (state.store.handlers ++ [handler]) delivery handler :=
    toCome_subscribe (hwaiting.called hidle delivery hdelivery) hloops
  rw [← hinv.owing.expected_eq hdelivery hstays]
  exact Nat.ne_of_gt (Nat.add_lt_add_left hmore _)

theorem amiss_unsubscribe (hinv : Invariant state) (hwaiting : Waiting state)
    (hidle : state.looping = false)
    (hnot : ¬ KeepsLaw state (.unsubscribe handler)) :
    Amiss { state with
      store := state.store.unsubscribe handler
      active := state.active.map (Delivery.leave handler) } := by
  simp only [KeepsLaw, not_forall, not_not] at hnot
  obtain ⟨delivery, hdelivery, hbehind, skipped, hnext, hstays⟩ := hnot
  obtain ⟨hkept, hne⟩ := mem_leave.mp hstays
  refine .inl ⟨_, List.mem_map_of_mem hdelivery, skipped, hstays, ?_⟩
  have hless := toCome_unsubscribe
    (hwaiting.called hidle delivery hdelivery) hbehind hnext hne
  have hevents : (delivery.leave handler).events.length =
      expected state delivery skipped :=
    (hinv.owing.expected_eq hdelivery hkept).symm
  have hcalls : callsTo skipped (delivery.leave handler) state.calls =
      callsTo skipped delivery state.calls := callsTo_congr rfl _ _
  rw [hevents]
  simp only [expected, InMemoryEventStore.handlers_unsubscribe, hcalls]
  exact Nat.ne_of_lt (Nat.add_lt_add_left hless _)

theorem amiss_finish (hinv : Invariant state)
    {rest : List (Delivery H Ev)}
    (hactive : state.active = delivery :: rest)
    (hnot : ¬ Settled state.store.handlers delivery) :
    Amiss (state.finish delivery rest) := by
  have hdelivery : delivery ∈ state.active := by simp [hactive]
  simp only [Settled, not_forall] at hnot
  obtain ⟨handler, hstays, howed⟩ := hnot
  refine .inr ⟨delivery, List.mem_append_right _ List.mem_cons_self, handler,
    hstays, ?_⟩
  have hpos := List.length_pos_iff.mpr howed
  rw [← hinv.owing.owing delivery hdelivery handler hstays,
    List.length_append]
  simp only [State.finish]
  omega

theorem amiss_deliver (hnum : Numbering state)
    {store : InMemoryEventStore H Ev} {streamId : String} {events : List Ev}
    (hevents : events ≠ []) (hnot : ¬ store.handlers.Nodup) :
    Amiss (state.deliver store streamId events) := by
  obtain ⟨handler, hcount⟩ : ∃ handler, 1 < store.handlers.count handler := by
    rw [List.nodup_iff_count_le_one] at hnot
    simpa only [not_forall, Nat.not_le] using hnot
  have hstays : handler ∈ store.handlers :=
    List.count_pos_iff.mp (Nat.lt_of_succ_lt hcount)
  refine .inl ⟨_, List.mem_cons_self, handler, hstays, ?_⟩
  have hpos := List.length_pos_iff.mpr hevents
  simp only [expected, State.deliver]
  rw [toCome_of_index_eq_zero rfl, callsTo_eq_nil handler fun call hcall =>
    Nat.ne_of_lt (hnum.append_lt hcall)]
  simp only [List.length_nil, Nat.zero_add, List.length_zipIdx]
  exact Nat.ne_of_gt ((Nat.lt_mul_iff_one_lt_right hpos).mpr hcount)

theorem keepsLaw_of_write_error {streamId : String} {events : List Ev}
    {expectedVersion : ℤ} {error : ConcurrencyError}
    (hwrite : state.store.write streamId events expectedVersion =
      .error error) :
    KeepsLaw state (.append streamId events expectedVersion) := by
  intro hversion
  obtain ⟨rfl, hdiffers⟩ := InMemoryEventStore.error_of_write hwrite
  exact absurd hversion hdiffers

/-- After a step that does not keep the law, the law fails once handlers that
return at once have run the loops to their ends. -/
theorem violation_of_not_keepsLaw (hinv : Invariant state)
    (hwaiting : Waiting state) {label : Label H Ev}
    (hnot : ¬ KeepsLaw state label) (hstep : step state label = some next) :
    ∃ last, CanReach step Quiet next last ∧ ¬ DeliveryLaw last := by
  have hnum := hinv.numbering.step hstep
  rcases step_cases hstep with ⟨handler, rfl, hidle, rfl⟩ |
    ⟨handler, rfl, hidle, rfl⟩ |
    ⟨streamId, events, expectedVersion, rfl, -,
      ⟨error, hwrite, rfl⟩ | ⟨store, hwrite, rfl⟩⟩ |
    ⟨delivery, rest, rfl, -, hactive, rfl⟩ | ⟨rfl, -, -, rfl⟩ |
    ⟨delivery, rest, rfl, -, hactive, rfl⟩
  · exact (amiss_subscribe hinv hwaiting hidle hnot).violation hnum
  · exact (amiss_unsubscribe hinv hwaiting hidle hnot).violation hnum
  · exact absurd (keepsLaw_of_write_error hwrite) hnot
  · simp only [KeepsLaw, Classical.not_imp] at hnot
    obtain ⟨-, hevents, hnot⟩ := hnot
    have hhandlers := InMemoryEventStore.handlers_of_write hwrite
    by_cases hnodup : state.store.handlers.Nodup
    · simp only [hnodup, true_and, not_forall, Settled] at hnot
      obtain ⟨delivery, hdelivery, hstream, handler, hstays, howed⟩ := hnot
      exact late_deliver hinv hhandlers
        (InMemoryEventStore.content_of_write hwrite) hevents hdelivery
        hstream hstays howed
    · rw [← hhandlers] at hnodup
      exact (amiss_deliver hinv.numbering hevents hnodup).violation hnum
  · exact absurd trivial hnot
  · exact absurd trivial hnot
  · have hsettled : ¬ Settled state.store.handlers delivery := by
      simpa [KeepsLaw, hactive] using hnot
    exact (amiss_finish hinv hactive hsettled).violation hnum

/-! ## The law in runs -/

/-- Whatever the handlers do while events are delivered to them: if each step
of the run keeps the law, then every handler that has stayed subscribed
through an append was called once for each of its events, and such handlers
were called for the events of one stream in the order in which these stand in
it.  After a step that does not keep the law, handlers that return at once
lead to a state in which the law fails. -/
theorem deliveryLaw_of_keepsLaw {labels : List (Label H Ev)}
    (hmeet : StepsMeet step KeepsLaw (State.initial : State H Ev) labels)
    (hrun : exec step State.initial labels = some state) :
    (DeliveryLaw state ∧
      ∀ delivery ∈ state.ended, ∀ event ∈ delivery.events,
        (state.store.content delivery.streamId)[event.2]? = some event.1) ∧
    ∀ (label : Label H Ev) (next : State H Ev),
      step state label = some next → ¬ KeepsLaw state label →
        ∃ last, CanReach step Quiet next last ∧ ¬ DeliveryLaw last := by
  have hinv : Invariant state :=
    exec_invariant_of_stepsMeet
      (fun _ _ _ hinv hkeeps hstep => hinv.step hkeeps hstep)
      invariant_initial hmeet hrun
  have hwaiting : Waiting state :=
    exec_invariant (fun _ _ _ hwaiting hstep => hwaiting.step hstep)
      waiting_initial hrun
  refine ⟨⟨hinv.deliveryLaw, fun delivery hdelivery => ?_⟩, ?_⟩
  · exact hinv.numbering.placed delivery (List.mem_append_right _ hdelivery)
  · intro label next hstep hnot
    exact violation_of_not_keepsLaw hinv hwaiting hnot hstep

/-- While the second of two events is delivered, the first handler subscribes
a third one, and the second one appends to the stream again. -/
def appendWhileDelivered : List (Label ℕ ℕ) :=
  [.subscribe 0, .subscribe 1, .append "s" [10, 11] 0,
    .proceed, .returns, .proceed, .returns, .proceed,
    .proceed, .subscribe 2, .returns, .proceed, .append "s" [12] 2,
    .proceed, .returns, .proceed, .returns, .proceed, .returns, .proceed,
    .proceed, .returns, .proceed, .returns, .proceed, .proceed]

/-- The first of two handlers unsubscribes itself when it is called. -/
def unsubscribeItself : List (Label ℕ ℕ) :=
  [.subscribe 0, .subscribe 1, .append "s" [10] 0, .proceed, .unsubscribe 0,
    .returns, .proceed, .proceed]

theorem deliveryLaw_of_keepsLaw_appendWhileDelivered :
    (∃ state : State ℕ ℕ,
      exec step State.initial appendWhileDelivered = some state ∧
      state.ended.map Delivery.id = [1, 0] ∧
      (state.calls.filter (·.handler = 1)).map Call.event =
        [(10, 0), (11, 1), (12, 2)] ∧
      DeliveryLaw state) ∧
    ∃ state next last : State ℕ ℕ,
      exec step State.initial (unsubscribeItself.take 4) = some state ∧
      step state (.unsubscribe 0) = some next ∧
      CanReach step Quiet next last ∧ ¬ DeliveryLaw last := by
  have hmeet : StepsMeet step KeepsLaw (State.initial : State ℕ ℕ)
      appendWhileDelivered := by
    decide +kernel
  have hends : ∃ state : State ℕ ℕ,
      exec step State.initial appendWhileDelivered = some state ∧
      state.ended.map Delivery.id = [1, 0] ∧
      (state.calls.filter (·.handler = 1)).map Call.event =
        [(10, 0), (11, 1), (12, 2)] := by
    refine ⟨_, rfl, ?_⟩
    decide +kernel
  have hmeetBefore : StepsMeet step KeepsLaw (State.initial : State ℕ ℕ)
      (unsubscribeItself.take 4) := by
    decide +kernel
  have hcalled : ∃ state next : State ℕ ℕ,
      exec step State.initial (unsubscribeItself.take 4) = some state ∧
      step state (.unsubscribe 0) = some next ∧
      ¬ KeepsLaw state (.unsubscribe 0) := by
    refine ⟨_, _, rfl, rfl, ?_⟩
    decide +kernel
  obtain ⟨state, hrun, hended, hcalls⟩ := hends
  obtain ⟨before, next, hrunBefore, hstep, hnot⟩ := hcalled
  obtain ⟨last, hreaches, hlast⟩ :=
    (deliveryLaw_of_keepsLaw hmeetBefore hrunBefore).2 _ next hstep hnot
  constructor
  · exact ⟨state, hrun, hended, hcalls,
      (deliveryLaw_of_keepsLaw hmeet hrun).1.1⟩
  · exact ⟨before, next, last, hrunBefore, hstep, hreaches, hlast⟩

/-- The second handler, which stays subscribed, is not called at all: the
removal moves it out of the way of the loop. -/
theorem not_deliveryLaw_unsubscribeItself :
    ∃ (state : State ℕ ℕ) (delivery : Delivery ℕ ℕ),
      exec step State.initial unsubscribeItself = some state ∧
      state.ended = [delivery] ∧ delivery.staying = [1] ∧
      delivery.events = [(10, 0)] ∧
      callsTo 1 delivery state.calls = [] ∧ ¬ DeliveryLaw state := by
  refine ⟨_, _, rfl, rfl, rfl, rfl, rfl, ?_⟩
  intro hlaw
  have honce := hlaw.once _ List.mem_cons_self 1 List.mem_cons_self
  exact absurd honce (by decide)

end TsCommons.EventSourcing.Subscriptions
