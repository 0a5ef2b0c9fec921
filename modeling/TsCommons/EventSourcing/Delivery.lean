import TsCommons.EventSourcing.Subscriptions

/-!
# What the subscribers receive

Every handler that stays subscribed through an append is called once for each
of its events, in the order of the stream, in every run whose steps keep off
four things: a second subscription of a handler that stays, a removal behind
the loops that moves a handler that stays out of their way, an append to a
stream whose earlier events are still owed, and a throw before all is
delivered.
-/

namespace TsCommons.EventSourcing.Subscriptions

open Foundations

variable {H Ev : Type*} {state next : State H Ev}
  {handlers : List H} {delivery kept : Delivery H Ev} {handler : H}

/-! ## Lists of appends -/

theorem exists_of_forall₂ {α β : Type*} {R : α → β → Prop} {left : List α}
    {right : List β} (hall : List.Forall₂ R left right) {y : β}
    (hmem : y ∈ right) : ∃ x ∈ left, R x y := by
  induction hall with
  | nil => cases hmem
  | @cons x z left right hhead hrest ih =>
      rcases List.mem_cons.mp hmem with rfl | htail
      · exact ⟨x, List.mem_cons_self, hhead⟩
      · obtain ⟨w, hw, hrel⟩ := ih htail
        exact ⟨w, List.mem_cons_of_mem x hw, hrel⟩

theorem exists_of_forall₂_left {α β : Type*} {R : α → β → Prop}
    {left : List α} {right : List β} (hall : List.Forall₂ R left right)
    {x : α} (hmem : x ∈ left) : ∃ y ∈ right, R x y :=
  exists_of_forall₂ (List.Forall₂.flip hall) hmem

theorem pairwise_of_forall₂ {α β : Type*} {R : α → β → Prop}
    {P : α → α → Prop} {Q : β → β → Prop}
    (himp : ∀ a b c d, R a c → R b d → P a b → Q c d)
    {left : List α} {right : List β} (hall : List.Forall₂ R left right)
    (hpairs : left.Pairwise P) : right.Pairwise Q := by
  induction hall with
  | nil => exact List.Pairwise.nil
  | cons hhead hrest ih =>
      obtain ⟨hfirst, hpairs⟩ := List.pairwise_cons.mp hpairs
      apply List.Pairwise.cons _ (ih hpairs)
      intro y hy
      obtain ⟨x, hx, hrel⟩ := exists_of_forall₂ hrest hy
      exact himp _ _ _ _ hhead hrel (hfirst x hx)

theorem map_id_of_continues {before after : List (Delivery H Ev)}
    (hall : List.Forall₂ Continues before after) :
    after.map Delivery.id = before.map Delivery.id := by
  induction hall with
  | nil => rfl
  | cons hhead hrest ih => rw [List.map_cons, List.map_cons, hhead.id, ih]

theorem Stays.of_continues {before after : List (Delivery H Ev)}
    (hall : List.Forall₂ Continues before after) {call : Call H Ev}
    (hstays : Stays after call) : Stays before call := by
  obtain ⟨kept, hkept, hid, hmem⟩ := hstays
  obtain ⟨delivery, hdelivery, hcontinues⟩ := exists_of_forall₂ hall hkept
  exact ⟨delivery, hdelivery, hcontinues.id.symm.trans hid,
    hcontinues.staying hmem⟩

/-- The appends that have begun, those that are being delivered first. -/
def State.begun (state : State H Ev) : List (Delivery H Ev) :=
  state.active ++ state.ended

theorem begun_continues
    (hactive : List.Forall₂ Continues state.active next.active)
    (hended : next.ended = state.ended) :
    List.Forall₂ Continues state.begun next.begun := by
  unfold State.begun
  rw [hended]
  apply List.rel_append hactive
  exact List.forall₂_same.mpr fun delivery _ => Continues.refl delivery

theorem begun_finish {rest : List (Delivery H Ev)}
    (hactive : state.active = delivery :: rest) :
    (state.finish delivery rest).begun.Perm state.begun := by
  simp only [State.begun, State.finish, hactive]
  rw [← List.append_assoc]
  exact List.perm_append_singleton delivery (rest ++ state.ended)

theorem Stays.of_finish {rest : List (Delivery H Ev)}
    (hactive : state.active = delivery :: rest) {call : Call H Ev}
    (hstays : Stays (state.finish delivery rest).begun call) :
    Stays state.begun call := by
  obtain ⟨other, hother, hcall⟩ := hstays
  exact ⟨other, (begun_finish hactive).mem_iff.mp hother, hcall⟩

theorem calls_continue {rest : List (Delivery H Ev)}
    (hactive : state.active = delivery :: rest) (event : Ev × ℕ)
    (handler : H) :
    List.Forall₂ Continues state.active
      (state.call delivery rest event handler).active := by
  rw [hactive]
  apply List.Forall₂.cons
  · exact ⟨rfl, rfl, rfl, List.suffix_rfl, List.Subset.refl _⟩
  · exact List.forall₂_same.mpr fun other _ => Continues.refl other

theorem InSequence.mono {before after : List (Delivery H Ev)}
    (hmono : ∀ call, Stays after call → Stays before call)
    {earlier later : Call H Ev} (hsequence : InSequence before earlier later) :
    InSequence after earlier later :=
  fun hearlier hlater =>
    hsequence (hmono earlier hearlier) (hmono later hlater)

/-! ## Positions -/

/-- The appends that have begun are told apart by their ids, and their events
stand in their streams at the positions that they are numbered with. -/
structure Numbering (state : State H Ev) : Prop where
  distinct : (state.begun.map Delivery.id).Nodup
  fresh : ∀ delivery ∈ state.begun, delivery.id < state.appends
  placed : ∀ delivery ∈ state.begun, ∀ event ∈ delivery.events,
    (state.store.content delivery.streamId)[event.2]? = some event.1
  increasing : ∀ delivery ∈ state.begun,
    delivery.events.Pairwise (·.2 < ·.2)
  suffix : ∀ delivery ∈ state.active, delivery.pending <:+ delivery.events
  called : ∀ call ∈ state.calls, ∃ delivery ∈ state.begun,
    call.append = delivery.id ∧ call.streamId = delivery.streamId ∧
      call.event ∈ delivery.events

theorem numbering_initial : Numbering (State.initial : State H Ev) := by
  constructor <;> simp [State.initial, State.begun]

theorem Numbering.continues (hnum : Numbering state)
    (hcontent : ∀ streamId,
      next.store.content streamId = state.store.content streamId)
    (hactive : List.Forall₂ Continues state.active next.active)
    (hended : next.ended = state.ended)
    (happends : next.appends = state.appends)
    (hcalls : ∀ call ∈ next.calls, call ∈ state.calls ∨
      ∃ delivery ∈ state.active, call.append = delivery.id ∧
        call.streamId = delivery.streamId ∧ call.event ∈ delivery.pending) :
    Numbering next := by
  have hbegun := begun_continues hactive hended
  constructor
  · rw [map_id_of_continues hbegun]
    exact hnum.distinct
  · intro kept hkept
    obtain ⟨delivery, hdelivery, hsame⟩ := exists_of_forall₂ hbegun hkept
    rw [hsame.id, happends]
    exact hnum.fresh delivery hdelivery
  · intro kept hkept event hevent
    obtain ⟨delivery, hdelivery, hsame⟩ := exists_of_forall₂ hbegun hkept
    rw [hsame.events] at hevent
    rw [hsame.streamId, hcontent]
    exact hnum.placed delivery hdelivery event hevent
  · intro kept hkept
    obtain ⟨delivery, hdelivery, hsame⟩ := exists_of_forall₂ hbegun hkept
    rw [hsame.events]
    exact hnum.increasing delivery hdelivery
  · intro kept hkept
    obtain ⟨delivery, hdelivery, hsame⟩ := exists_of_forall₂ hactive hkept
    rw [hsame.events]
    exact hsame.pending.trans (hnum.suffix delivery hdelivery)
  · intro call hcall
    have hmade : ∃ delivery ∈ state.begun, call.append = delivery.id ∧
        call.streamId = delivery.streamId ∧
          call.event ∈ delivery.events := by
      rcases hcalls call hcall with hold | ⟨delivery, hdelivery, hid,
        hstream, hevent⟩
      · exact hnum.called call hold
      · exact ⟨delivery, List.mem_append_left _ hdelivery, hid, hstream,
          (hnum.suffix delivery hdelivery).mem hevent⟩
    obtain ⟨delivery, hdelivery, hid, hstream, hevent⟩ := hmade
    obtain ⟨kept, hkept, hsame⟩ := exists_of_forall₂_left hbegun hdelivery
    refine ⟨kept, hkept, hid.trans hsame.id.symm,
      hstream.trans hsame.streamId.symm, ?_⟩
    rw [hsame.events]
    exact hevent

theorem Numbering.finish (hnum : Numbering state)
    {rest : List (Delivery H Ev)}
    (hactive : state.active = delivery :: rest) :
    Numbering (state.finish delivery rest) := by
  have hperm := begun_finish hactive
  constructor
  · exact ((hperm.map Delivery.id).nodup_iff).mpr hnum.distinct
  · intro other hother
    exact hnum.fresh other (hperm.mem_iff.mp hother)
  · intro other hother
    exact hnum.placed other (hperm.mem_iff.mp hother)
  · intro other hother
    exact hnum.increasing other (hperm.mem_iff.mp hother)
  · intro other hother
    apply hnum.suffix other
    rw [hactive]
    exact List.mem_cons_of_mem delivery hother
  · intro call hcall
    obtain ⟨other, hother, hmade⟩ := hnum.called call hcall
    exact ⟨other, hperm.mem_iff.mpr hother, hmade⟩

theorem Numbering.append_lt (hnum : Numbering state) {call : Call H Ev}
    (hcall : call ∈ state.calls) : call.append < state.appends := by
  obtain ⟨delivery, hdelivery, hid, -, -⟩ := hnum.called call hcall
  rw [hid]
  exact hnum.fresh delivery hdelivery

theorem Numbering.position_lt (hnum : Numbering state)
    (hdelivery : delivery ∈ state.begun) {event : Ev × ℕ}
    (hevent : event ∈ delivery.events) :
    event.2 < (state.store.content delivery.streamId).length :=
  (List.getElem?_eq_some_iff.mp
    (hnum.placed delivery hdelivery event hevent)).choose

theorem placed_zipIdx (content events : List Ev) :
    ∀ event ∈ events.zipIdx content.length,
      (content ++ events)[event.2]? = some event.1 := by
  intro event hevent
  obtain ⟨hle, -, hfirst⟩ := List.mem_zipIdx hevent
  rw [List.getElem?_append_right hle, hfirst]
  exact List.getElem?_eq_getElem _

theorem increasing_zipIdx (events : List Ev) (start : ℕ) :
    (events.zipIdx start).Pairwise (·.2 < ·.2) := by
  have hpositions : ((events.zipIdx start).map Prod.snd).Pairwise (· < ·) := by
    rw [List.zipIdx_map_snd]
    exact List.pairwise_lt_range'
  exact List.pairwise_map.mp hpositions

theorem Numbering.deliver (hnum : Numbering state)
    {store : InMemoryEventStore H Ev} {streamId : String} {events : List Ev}
    (hcontent : ∀ other, store.content other =
      if other = streamId then state.store.content streamId ++ events
      else state.store.content other) :
    Numbering (state.deliver store streamId events) := by
  have hgrows : ∀ other,
      state.store.content other <+: store.content other := by
    intro other
    rw [hcontent]
    by_cases hother : other = streamId
    · rw [if_pos hother, hother]
      exact List.prefix_append _ _
    · simp only [if_neg hother, List.prefix_rfl]
  constructor
  · simp only [State.begun, State.deliver, List.cons_append, List.map_cons]
    apply List.nodup_cons.mpr
    refine ⟨?_, hnum.distinct⟩
    intro hmem
    obtain ⟨delivery, hdelivery, hid⟩ := List.mem_map.mp hmem
    exact absurd hid (Nat.ne_of_lt (hnum.fresh delivery hdelivery))
  · intro delivery hdelivery
    rcases List.mem_cons.mp hdelivery with rfl | hold
    · exact Nat.lt_succ_self _
    · exact Nat.lt_succ_of_lt (hnum.fresh delivery hold)
  · intro delivery hdelivery event hevent
    rcases List.mem_cons.mp hdelivery with rfl | hold
    · simp only [State.deliver, hcontent, if_true]
      exact placed_zipIdx _ _ event hevent
    · have hplaced := hnum.placed delivery hold event hevent
      obtain ⟨hlt, -⟩ := List.getElem?_eq_some_iff.mp hplaced
      obtain ⟨more, hmore⟩ := hgrows delivery.streamId
      simp only [State.deliver, ← hmore]
      rw [List.getElem?_append_left hlt, hplaced]
  · intro delivery hdelivery
    rcases List.mem_cons.mp hdelivery with rfl | hold
    · exact increasing_zipIdx _ _
    · exact hnum.increasing delivery hold
  · intro delivery hdelivery
    rcases List.mem_cons.mp hdelivery with rfl | hold
    · exact List.suffix_rfl
    · exact hnum.suffix delivery hold
  · intro call hcall
    obtain ⟨delivery, hdelivery, hmade⟩ := hnum.called call hcall
    exact ⟨delivery, List.mem_cons_of_mem _ hdelivery, hmade⟩

theorem Stays.of_deliver (hnum : Numbering state)
    {store : InMemoryEventStore H Ev} {streamId : String} {events : List Ev}
    {call : Call H Ev} (hcall : call ∈ state.calls)
    (hstays : Stays (state.deliver store streamId events).begun call) :
    Stays state.begun call := by
  obtain ⟨delivery, hdelivery, hid, hmem⟩ := hstays
  rcases List.mem_cons.mp hdelivery with rfl | hold
  · exact absurd hid.symm (Nat.ne_of_lt (hnum.append_lt hcall))
  · exact ⟨delivery, hold, hid, hmem⟩

/-- The other appends that have begun have other ids than the last one. -/
theorem Numbering.id_ne (hnum : Numbering state)
    {rest : List (Delivery H Ev)}
    (hactive : state.active = delivery :: rest) {other : Delivery H Ev}
    (hother : other ∈ rest ++ state.ended) : delivery.id ≠ other.id := by
  have hdistinct := hnum.distinct
  unfold State.begun at hdistinct
  rw [hactive, List.cons_append, List.map_cons, List.nodup_cons] at hdistinct
  intro heq
  rw [heq] at hdistinct
  exact hdistinct.1 (List.mem_map_of_mem hother)

/-- The appends that have begun are told apart by their ids. -/
theorem Numbering.eq_of_id (hnum : Numbering state)
    {other : Delivery H Ev} (hdelivery : delivery ∈ state.begun)
    (hother : other ∈ state.begun) (hid : delivery.id = other.id) :
    delivery = other :=
  List.inj_on_of_nodup_map hnum.distinct hdelivery hother hid

/-- The events that are pending stand in the order of the stream. -/
theorem Numbering.increasing_pending (hnum : Numbering state)
    (hdelivery : delivery ∈ state.active) :
    delivery.pending.Pairwise (·.2 < ·.2) := by
  have hbegun : delivery ∈ state.begun := List.mem_append_left _ hdelivery
  exact (hnum.increasing delivery hbegun).sublist
    (hnum.suffix delivery hdelivery).sublist

/-- A call that counts is one to a handler that stays for the append that runs
now. -/
theorem Numbering.stays_of_call (hnum : Numbering state)
    {rest : List (Delivery H Ev)}
    (hactive : state.active = delivery :: rest) {call : Call H Ev}
    (hid : call.append = delivery.id) (hcounts : Stays state.begun call) :
    call.handler ∈ delivery.staying := by
  obtain ⟨other, hother, hsame, hmem⟩ := hcounts
  rw [hid] at hsame
  unfold State.begun at hother
  rw [hactive] at hother
  rcases List.mem_cons.mp hother with rfl | hrest
  · exact hmem
  · exact absurd hsame.symm (hnum.id_ne hactive hrest)

theorem Numbering.proceed (hnum : Numbering state)
    {rest : List (Delivery H Ev)}
    (hactive : state.active = delivery :: rest) :
    Numbering (state.proceed delivery rest) := by
  rcases proceed_cases state delivery rest with ⟨-, hnext⟩ |
    ⟨event, later, hpending, -, hnext⟩ |
    ⟨event, later, handler, hpending, -, hnext⟩
  · rw [hnext]
    exact hnum.finish hactive
  · rw [hnext]
    apply hnum.continues
    · exact fun _ => rfl
    · rw [hactive]
      apply List.Forall₂.cons (.nextEvent hpending)
      exact List.forall₂_same.mpr fun other _ => Continues.refl other
    · rfl
    · rfl
    · exact fun call hcall => .inl hcall
  · rw [hnext]
    apply hnum.continues
    · exact fun _ => rfl
    · exact calls_continue hactive event handler
    · rfl
    · rfl
    · intro call hcall
      rcases List.mem_append.mp hcall with hold | hnew
      · exact .inl hold
      · rw [List.mem_singleton.mp hnew]
        refine .inr ⟨delivery, ?_, rfl, rfl, ?_⟩
        · rw [hactive]
          exact List.mem_cons_self
        · rw [hpending]
          exact List.mem_cons_self

variable [DecidableEq H]

theorem Numbering.step (hnum : Numbering state) {label : Label H Ev}
    (hstep : Subscriptions.step state label = some next) :
    Numbering next := by
  have hsame : List.Forall₂ Continues state.active state.active :=
    List.forall₂_same.mpr fun other _ => Continues.refl other
  rcases step_cases hstep with ⟨handler, rfl, -, rfl⟩ |
    ⟨handler, rfl, -, rfl⟩ |
    ⟨streamId, events, expectedVersion, rfl, -,
      ⟨error, -, rfl⟩ | ⟨store, hwrite, rfl⟩⟩ |
    ⟨delivery, rest, rfl, -, hactive, rfl⟩ | ⟨rfl, -, -, rfl⟩ |
    ⟨delivery, rest, rfl, -, hactive, rfl⟩
  · exact hnum.continues
      (fun _ => InMemoryEventStore.content_subscribe _ _ _)
      hsame rfl rfl fun call hcall => .inl hcall
  · apply hnum.continues
    · exact fun _ => InMemoryEventStore.content_unsubscribe _ _ _
    · rw [List.forall₂_map_right_iff]
      exact List.forall₂_same.mpr fun other _ => Continues.leave other handler
    · rfl
    · rfl
    · exact fun call hcall => .inl hcall
  · exact hnum
  · exact hnum.deliver (InMemoryEventStore.content_of_write hwrite)
  · exact hnum.proceed hactive
  · exact hnum.continues (fun _ => rfl) hsame rfl rfl
      fun call hcall => .inl hcall
  · exact hnum.finish hactive

/-! ## Every event once -/

theorem callsTo_congr (hid : kept.id = delivery.id) (handler : H)
    (calls : List (Call H Ev)) :
    callsTo handler kept calls = callsTo handler delivery calls := by
  unfold callsTo
  rw [hid]

theorem callsTo_concat (handler : H) (delivery : Delivery H Ev)
    (calls : List (Call H Ev)) (call : Call H Ev) :
    callsTo handler delivery (calls ++ [call]) =
      callsTo handler delivery calls ++
        if call.handler = handler ∧ call.append = delivery.id then
          [call.event]
        else [] := by
  unfold callsTo
  by_cases hcall : call.handler = handler ∧ call.append = delivery.id
  · simp [hcall]
  · simp [hcall]

theorem callsTo_append (handler : H) (delivery : Delivery H Ev)
    (before after : List (Call H Ev)) :
    callsTo handler delivery (before ++ after) =
      callsTo handler delivery before ++ callsTo handler delivery after := by
  unfold callsTo
  rw [List.filter_append, List.map_append]

theorem mem_callsTo {event : Ev × ℕ} {calls : List (Call H Ev)} :
    event ∈ callsTo handler delivery calls ↔
      ∃ call ∈ calls, (call.handler = handler ∧ call.append = delivery.id) ∧
        call.event = event := by
  simp only [callsTo, List.mem_map, List.mem_filter, decide_eq_true_eq,
    and_assoc]

theorem callsTo_concat_of_ne {call : Call H Ev}
    (hne : call.append ≠ delivery.id) (handler : H)
    (calls : List (Call H Ev)) :
    callsTo handler delivery (calls ++ [call]) =
      callsTo handler delivery calls := by
  rw [callsTo_concat, if_neg fun hcall => hne hcall.2, List.append_nil]

theorem callsTo_eq_nil (handler : H) {calls : List (Call H Ev)}
    (hother : ∀ call ∈ calls, call.append ≠ delivery.id) :
    callsTo handler delivery calls = [] := by
  apply List.eq_nil_iff_forall_not_mem.mpr
  intro event hevent
  obtain ⟨call, hcall, hmade, -⟩ := mem_callsTo.mp hevent
  exact hother call hcall hmade.2

/-- A handler that is called is one call nearer to the end. -/
theorem toCome_call {event : Ev × ℕ} {later : List (Ev × ℕ)}
    (hpending : delivery.pending = event :: later)
    (hhandler : handlers[delivery.index]? = some handler) (other : H) :
    toCome handlers delivery other =
      toCome handlers { delivery with index := delivery.index + 1 } other +
        if handler = other then 1 else 0 := by
  simp only [toCome, hpending]
  rw [count_unvisited_next hhandler other, Nat.add_right_comm]

/-- When a handler has been called of which no more calls are to come than
events are owed to it, it is owed the later events only. -/
theorem owed_called {event : Ev × ℕ} {later : List (Ev × ℕ)}
    (hpending : delivery.pending = event :: later)
    (hhandler : handlers[delivery.index]? = some handler)
    (hdue : toCome handlers delivery handler =
      (owed handlers delivery handler).length) :
    owed handlers delivery handler = event :: later ∧
    owed handlers { delivery with index := delivery.index + 1 } handler =
      later := by
  have hbefore : owed handlers delivery handler = event :: later := by
    unfold owed
    rw [unvisited_eq_cons hhandler, if_pos List.mem_cons_self, hpending]
  refine ⟨hbefore, ?_⟩
  have hsubscribed : 0 < handlers.count handler :=
    List.count_pos_iff.mpr (List.mem_of_getElem? hhandler)
  have hrounds : later.length ≤ later.length * handlers.count handler :=
    Nat.le_mul_of_pos_right _ hsubscribed
  have hnext := count_unvisited_next hhandler handler
  rw [if_pos rfl] at hnext
  simp only [toCome, hpending] at hdue
  rw [hbefore, List.length_cons, hnext] at hdue
  have hpassed : handler ∉ unvisited handlers (delivery.index + 1) := by
    rw [← List.count_pos_iff]
    omega
  simp only [owed, hpending, if_neg hpassed, List.tail_cons]

theorem owed_call_other {other : H}
    (hhandler : handlers[delivery.index]? = some handler)
    (hne : other ≠ handler) :
    owed handlers { delivery with index := delivery.index + 1 } other =
      owed handlers delivery other := by
  unfold owed
  simp only [← List.count_pos_iff, count_unvisited_next hhandler other,
    if_neg hne.symm, Nat.add_zero]

theorem owed_call_suffix {event : Ev × ℕ} {later : List (Ev × ℕ)}
    (hpending : delivery.pending = event :: later)
    (hhandler : handlers[delivery.index]? = some handler) {other : H}
    (hdue : toCome handlers delivery other =
      (owed handlers delivery other).length) :
    owed handlers { delivery with index := delivery.index + 1 } other <:+
      owed handlers delivery other := by
  by_cases heq : other = handler
  · subst other
    obtain ⟨hbefore, hafter⟩ := owed_called hpending hhandler hdue
    rw [hbefore, hafter]
    exact List.suffix_cons event later
  · simp only [owed_call_other hhandler heq, List.suffix_rfl]

theorem Due.call {event : Ev × ℕ} {later : List (Ev × ℕ)}
    (hdue : Due handlers delivery)
    (hpending : delivery.pending = event :: later)
    (hhandler : handlers[delivery.index]? = some handler) :
    Due handlers { delivery with index := delivery.index + 1 } := by
  intro other hstays
  have hbefore := hdue other hstays
  have hcalls := toCome_call hpending hhandler other
  by_cases heq : other = handler
  · subst other
    obtain ⟨howed, hafter⟩ := owed_called hpending hhandler hbefore
    rw [howed, List.length_cons] at hbefore
    rw [if_pos rfl] at hcalls
    rw [hafter]
    omega
  · rw [if_neg (Ne.symm heq), Nat.add_zero] at hcalls
    rw [owed_call_other hhandler heq, ← hcalls, hbefore]

theorem Due.deliver (hindex : delivery.index = 0)
    (hstaying : delivery.staying = handlers)
    (hready : delivery.pending ≠ [] → handlers.Nodup) :
    Due handlers delivery := by
  intro handler hstays
  rw [hstaying] at hstays
  rw [toCome_of_index_eq_zero hindex]
  unfold owed
  rw [hindex, unvisited_zero, if_pos hstays]
  by_cases hpending : delivery.pending = []
  · rw [hpending, List.length_nil, Nat.zero_mul]
  · rw [List.count_eq_one_of_mem (hready hpending) hstays, Nat.mul_one]

/-- What a handler that stays was called with and what it is owed are the
events of the append. -/
structure Owing (state : State H Ev) : Prop where
  due : ∀ delivery ∈ state.active, Due state.store.handlers delivery
  owing : ∀ delivery ∈ state.active, ∀ handler ∈ delivery.staying,
    callsTo handler delivery state.calls ++
        owed state.store.handlers delivery handler = delivery.events
  once : ∀ delivery ∈ state.ended, ∀ handler ∈ delivery.staying,
    callsTo handler delivery state.calls = delivery.events

theorem owing_initial : Owing (State.initial : State H Ev) := by
  constructor <;> simp [State.initial]

theorem Owing.keeps (howing : Owing state)
    {store : InMemoryEventStore H Ev} {active : List (Delivery H Ev)}
    {looping : Bool}
    (hactive : List.Forall₂ (Keeps state.store.handlers store.handlers)
      state.active active) :
    Owing { state with
      store := store, active := active, looping := looping } := by
  constructor
  · intro kept hkept handler hstays
    obtain ⟨delivery, hdelivery, hkeeps⟩ := exists_of_forall₂ hactive hkept
    rw [hkeeps.coming handler hstays, hkeeps.owing handler hstays]
    exact howing.due delivery hdelivery handler (hkeeps.staying hstays)
  · intro kept hkept handler hstays
    obtain ⟨delivery, hdelivery, hkeeps⟩ := exists_of_forall₂ hactive hkept
    rw [callsTo_congr hkeeps.id, hkeeps.owing handler hstays, hkeeps.events]
    exact howing.owing delivery hdelivery handler (hkeeps.staying hstays)
  · exact howing.once

theorem Owing.deliver (howing : Owing state) (hnum : Numbering state)
    {store : InMemoryEventStore H Ev} {streamId : String} {events : List Ev}
    (hhandlers : store.handlers = state.store.handlers)
    (hready : events ≠ [] → state.store.handlers.Nodup) :
    Owing (state.deliver store streamId events) := by
  constructor
  · intro delivery hdelivery
    simp only [State.deliver, hhandlers] at hdelivery ⊢
    rcases List.mem_cons.mp hdelivery with rfl | hold
    · apply Due.deliver rfl rfl
      intro hpending
      apply hready
      intro hnil
      simp [hnil] at hpending
    · exact howing.due delivery hold
  · intro delivery hdelivery handler hstays
    simp only [State.deliver, hhandlers] at hdelivery ⊢
    rcases List.mem_cons.mp hdelivery with rfl | hold
    · rw [callsTo_eq_nil handler fun call hcall =>
        Nat.ne_of_lt (hnum.append_lt hcall)]
      unfold owed
      rw [unvisited_zero, if_pos hstays, List.nil_append]
    · exact howing.owing delivery hold handler hstays
  · exact howing.once

theorem Owing.finish (howing : Owing state) {rest : List (Delivery H Ev)}
    (hactive : state.active = delivery :: rest)
    (hsettled : Settled state.store.handlers delivery) :
    Owing (state.finish delivery rest) := by
  obtain ⟨hdue, howing, honce⟩ := howing
  rw [hactive] at hdue howing
  constructor
  · intro other hother
    exact hdue other (List.mem_cons_of_mem _ hother)
  · intro other hother
    exact howing other (List.mem_cons_of_mem _ hother)
  · intro other hother handler hstays
    rcases List.mem_append.mp hother with hold | hnew
    · exact honce other hold handler hstays
    · rw [List.mem_singleton] at hnew
      subst other
      have hevents := howing delivery List.mem_cons_self handler hstays
      rw [hsettled handler hstays, List.append_nil] at hevents
      exact hevents

theorem Owing.call (howing : Owing state) (hnum : Numbering state)
    {rest : List (Delivery H Ev)} {event : Ev × ℕ} {later : List (Ev × ℕ)}
    (hactive : state.active = delivery :: rest)
    (hpending : delivery.pending = event :: later)
    (hhandler : state.store.handlers[delivery.index]? = some handler) :
    Owing (state.call delivery rest event handler) := by
  have hne : ∀ other ∈ rest ++ state.ended, delivery.id ≠ other.id :=
    fun other hother => hnum.id_ne hactive hother
  have hmem : delivery ∈ state.active := by simp [hactive]
  have hdue := howing.due delivery hmem
  have hrest : ∀ other ∈ rest, other ∈ state.active := by
    intro other hother
    rw [hactive]
    exact List.mem_cons_of_mem delivery hother
  constructor
  · intro other hother
    rcases List.mem_cons.mp hother with rfl | hold
    · exact hdue.call hpending hhandler
    · exact howing.due other (hrest other hold)
  · intro other hother recipient hstays
    rcases List.mem_cons.mp hother with rfl | hold
    · have hsame : callsTo recipient
          { delivery with index := delivery.index + 1 } state.calls =
            callsTo recipient delivery state.calls :=
        callsTo_congr rfl recipient state.calls
      apply Eq.trans _ (howing.owing delivery hmem recipient hstays)
      simp only [State.call]
      rw [callsTo_concat, hsame]
      by_cases heq : recipient = handler
      · subst recipient
        obtain ⟨hbefore, hafter⟩ :=
          owed_called hpending hhandler (hdue handler hstays)
        rw [if_pos ⟨rfl, rfl⟩, hbefore, hafter, List.append_assoc]
        rfl
      · rw [if_neg fun hcall => heq hcall.1.symm, List.append_nil,
          owed_call_other hhandler heq]
    · simp only [State.call]
      rw [callsTo_concat_of_ne (hne other (List.mem_append_left _ hold))]
      exact howing.owing other (hrest other hold) recipient hstays
  · intro other hother recipient hstays
    simp only [State.call]
    rw [callsTo_concat_of_ne (hne other (List.mem_append_right _ hother))]
    exact howing.once other hother recipient hstays

theorem Owing.effect (howing : Owing state) (hnum : Numbering state)
    (heffect : Effect state next) : Owing next := by
  cases heffect with
  | keeps hactive => exact howing.keeps hactive
  | delivers hhandlers hready =>
      exact howing.deliver hnum hhandlers fun hsome => (hready hsome).1
  | finishes hactive hsettled => exact howing.finish hactive hsettled
  | calls hactive hpending hhandler =>
      exact howing.call hnum hactive hpending hhandler

/-! ## Every event in its turn -/

theorem mem_pending_of_mem_owed {event : Ev × ℕ}
    (hmem : event ∈ owed handlers delivery handler) :
    event ∈ delivery.pending := by
  unfold owed at hmem
  by_cases hunvisited : handler ∈ unvisited handlers delivery.index
  · rwa [if_pos hunvisited] at hmem
  · rw [if_neg hunvisited] at hmem
    exact List.mem_of_mem_tail hmem

/-- What a handler is owed comes after what it was called with, and the
appends beneath one to the same stream owe nothing. -/
structure InOrder (state : State H Ev) : Prop where
  nested : state.active.Pairwise fun upper lower =>
    upper.streamId = lower.streamId → upper.pending ≠ [] →
      Settled state.store.handlers lower
  ahead : ∀ delivery ∈ state.active, ∀ handler ∈ delivery.staying,
    ∀ call ∈ state.calls, Stays state.begun call → call.handler = handler →
      call.streamId = delivery.streamId →
        ∀ event ∈ owed state.store.handlers delivery handler,
          call.event.2 < event.2
  ordered : state.calls.Pairwise (InSequence state.begun)

theorem inOrder_initial : InOrder (State.initial : State H Ev) := by
  constructor <;> simp [State.initial]

theorem InOrder.keeps (horder : InOrder state)
    {store : InMemoryEventStore H Ev} {active : List (Delivery H Ev)}
    {looping : Bool}
    (hactive : List.Forall₂ (Keeps state.store.handlers store.handlers)
      state.active active) :
    InOrder { state with
      store := store, active := active, looping := looping } := by
  have hbegun : List.Forall₂ Continues state.begun
      { state with
        store := store, active := active, looping := looping }.begun :=
    begun_continues (hactive.imp fun _ _ hkeeps => hkeeps.toContinues) rfl
  constructor
  · apply pairwise_of_forall₂ _ hactive horder.nested
    intro upper lower upper' lower' hupper hlower hnested hstream hpending
      handler hstays
    rw [hlower.owing handler hstays]
    apply hnested _ (hupper.pending_ne_nil hpending) handler
      (hlower.staying hstays)
    rw [← hupper.streamId, ← hlower.streamId]
    exact hstream
  · intro kept hkept handler hstays call hcall hcounts hto hstream
    obtain ⟨delivery, hdelivery, hkeeps⟩ := exists_of_forall₂ hactive hkept
    rw [hkeeps.owing handler hstays]
    apply horder.ahead delivery hdelivery handler (hkeeps.staying hstays)
      call hcall (hcounts.of_continues hbegun) hto
    rw [hstream, hkeeps.streamId]
  · exact horder.ordered.imp fun hsequence =>
      hsequence.mono fun _ hcounts => hcounts.of_continues hbegun

theorem InOrder.deliver (horder : InOrder state) (hnum : Numbering state)
    {store : InMemoryEventStore H Ev} {streamId : String} {events : List Ev}
    (hhandlers : store.handlers = state.store.handlers)
    (hready : events ≠ [] →
      ∀ delivery ∈ state.active, delivery.streamId = streamId →
        Settled state.store.handlers delivery) :
    InOrder (state.deliver store streamId events) := by
  constructor
  · simp only [State.deliver, hhandlers]
    apply List.Pairwise.cons _ horder.nested
    intro lower hlower hstream hpending
    apply hready _ lower hlower hstream.symm
    intro hnil
    simp [hnil] at hpending
  · intro delivery hdelivery handler hstays call hcall hcounts hto hstream
      event hevent
    simp only [State.deliver, hhandlers] at hdelivery hevent
    rcases List.mem_cons.mp hdelivery with rfl | hold
    · obtain ⟨maker, hmaker, -, hsame, hmade⟩ := hnum.called call hcall
      have hposition := hnum.position_lt hmaker hmade
      have hnumbered := mem_pending_of_mem_owed hevent
      have hstart := (List.mem_zipIdx hnumbered).1
      rw [← hsame, hstream] at hposition
      exact Nat.lt_of_lt_of_le hposition hstart
    · exact horder.ahead delivery hold handler hstays call hcall
        (hcounts.of_deliver hnum hcall) hto hstream event hevent
  · simp only [State.deliver]
    apply horder.ordered.imp_of_mem
    intro earlier later hearlier hlater hsequence hcounts hcountsLater
    exact hsequence (hcounts.of_deliver hnum hearlier)
      (hcountsLater.of_deliver hnum hlater)

theorem InOrder.finish (horder : InOrder state)
    {rest : List (Delivery H Ev)}
    (hactive : state.active = delivery :: rest) :
    InOrder (state.finish delivery rest) := by
  constructor
  · have hnested := horder.nested
    rw [hactive] at hnested
    exact (List.pairwise_cons.mp hnested).2
  · intro other hother handler hstays call hcall hcounts
    apply horder.ahead other _ handler hstays call hcall
      (hcounts.of_finish hactive)
    rw [hactive]
    exact List.mem_cons_of_mem delivery hother
  · exact horder.ordered.imp fun hsequence =>
      hsequence.mono fun _ hcounts => hcounts.of_finish hactive

theorem InOrder.call (horder : InOrder state) (howing : Owing state)
    (hnum : Numbering state) {rest : List (Delivery H Ev)} {event : Ev × ℕ}
    {later : List (Ev × ℕ)} (hactive : state.active = delivery :: rest)
    (hpending : delivery.pending = event :: later)
    (hhandler : state.store.handlers[delivery.index]? = some handler) :
    InOrder (state.call delivery rest event handler) := by
  have hbegun : List.Forall₂ Continues state.begun
      (state.call delivery rest event handler).begun :=
    begun_continues (calls_continue hactive event handler) rfl
  have hmem : delivery ∈ state.active := by simp [hactive]
  have hbusy : delivery.pending ≠ [] := by simp [hpending]
  have hdue := howing.due delivery hmem
  have hrest : ∀ other ∈ rest, other ∈ state.active := by
    intro other hother
    rw [hactive]
    exact List.mem_cons_of_mem delivery hother
  have hnested := horder.nested
  rw [hactive, List.pairwise_cons] at hnested
  constructor
  · exact List.pairwise_cons.mpr hnested
  · intro other hother recipient hstays call hcall hcounts hto hstream
      owing howes
    have hcounts := hcounts.of_continues hbegun
    rcases List.mem_append.mp hcall with hold | hnew
    · rcases List.mem_cons.mp hother with rfl | hbelow
      · apply horder.ahead delivery hmem recipient hstays call hold hcounts
          hto hstream
        have hsuffix := owed_call_suffix hpending hhandler
          (hdue recipient hstays)
        exact hsuffix.mem howes
      · exact horder.ahead other (hrest other hbelow) recipient hstays call
          hold hcounts hto hstream owing howes
    · rw [List.mem_singleton] at hnew
      subst call
      rcases List.mem_cons.mp hother with rfl | hbelow
      · simp only at hto
        subst recipient
        obtain ⟨-, hafter⟩ :=
          owed_called hpending hhandler (hdue handler hstays)
        simp only [State.call, hafter] at howes
        have hsorted := hnum.increasing_pending hmem
        rw [hpending] at hsorted
        exact (List.pairwise_cons.mp hsorted).1 owing howes
      · have hsettled := hnested.1 other hbelow hstream hbusy
        have hnone : owing ∈ owed state.store.handlers other recipient :=
          howes
        rw [hsettled recipient hstays] at hnone
        cases hnone
  · simp only [State.call]
    apply List.pairwise_append.mpr
    refine ⟨horder.ordered.imp fun hsequence => hsequence.mono fun _ hcounts =>
      hcounts.of_continues hbegun, List.pairwise_singleton _ _, ?_⟩
    intro call hcall latest hlatest hcounts hcountsLatest hto hstream
    rw [List.mem_singleton] at hlatest
    subst latest
    have hstays := hnum.stays_of_call hactive rfl
      (hcountsLatest.of_continues hbegun)
    apply horder.ahead delivery hmem handler hstays call hcall
      (hcounts.of_continues hbegun) hto hstream
    rw [(owed_called hpending hhandler (hdue handler hstays)).1]
    exact List.mem_cons_self

theorem InOrder.effect (horder : InOrder state) (howing : Owing state)
    (hnum : Numbering state) (heffect : Effect state next) :
    InOrder next := by
  cases heffect with
  | keeps hactive => exact horder.keeps hactive
  | delivers hhandlers hready =>
      exact horder.deliver hnum hhandlers fun hsome => (hready hsome).2
  | finishes hactive hsettled => exact horder.finish hactive
  | calls hactive hpending hhandler =>
      exact horder.call howing hnum hactive hpending hhandler

/-! ## The law -/

structure Invariant (state : State H Ev) : Prop where
  numbering : Numbering state
  owing : Owing state
  inOrder : InOrder state

theorem invariant_initial : Invariant (State.initial : State H Ev) :=
  ⟨numbering_initial, owing_initial, inOrder_initial⟩

theorem Invariant.step (hinv : Invariant state) {label : Label H Ev}
    (hkeeps : KeepsLaw state label)
    (hstep : Subscriptions.step state label = some next) :
    Invariant next := by
  have heffect := effect_of_step hinv.owing.due hkeeps hstep
  exact ⟨hinv.numbering.step hstep,
    hinv.owing.effect hinv.numbering heffect,
    hinv.inOrder.effect hinv.owing hinv.numbering heffect⟩

theorem Invariant.deliveryLaw (hinv : Invariant state) :
    DeliveryLaw state := by
  refine ⟨hinv.owing.once, ?_⟩
  apply hinv.inOrder.ordered.imp
  intro earlier later hsequence
  apply hsequence.mono
  intro call hcounts
  obtain ⟨delivery, hdelivery, hcall⟩ := hcounts
  exact ⟨delivery, List.mem_append_right _ hdelivery, hcall⟩

end TsCommons.EventSourcing.Subscriptions
