import TsCommons.EventSourcing.EventStore
import TsCommons.Foundations.Execution
import TsCommons.Foundations.LiveIteration
import Mathlib.Data.List.Forall2

/-!
# Delivery to the subscribers of the event store

`append` runs its two loops over the list of the handlers itself, and a
handler that is called may subscribe, unsubscribe and append before it
returns.  The appends that are being delivered form a stack, of which the last
one runs: either its loops are in control, or the handler that they have
called.  Code outside of any handler runs when the stack is empty.
-/

namespace TsCommons.EventSourcing.Subscriptions

open Foundations

variable {H Ev : Type*} [DecidableEq H]

/-- An append that is being delivered.  Its events stand with their positions
in the stream; `pending` are those that the outer loop has not finished, the
first of which the inner loop delivers to the handler at `index` next.  The
handlers of `staying` have been subscribed since before the append. -/
structure Delivery (H Ev : Type*) where
  id : ℕ
  streamId : String
  events : List (Ev × ℕ)
  pending : List (Ev × ℕ)
  index : ℕ
  staying : List H
deriving DecidableEq

/-- A call of a handler by the loops of an append. -/
structure Call (H Ev : Type*) where
  handler : H
  append : ℕ
  streamId : String
  event : Ev × ℕ
deriving DecidableEq

structure State (H Ev : Type*) where
  store : InMemoryEventStore H Ev
  active : List (Delivery H Ev)
  looping : Bool
  ended : List (Delivery H Ev)
  calls : List (Call H Ev)
  appends : ℕ

def State.initial : State H Ev := ⟨.new, [], false, [], [], 0⟩

inductive Label (H Ev : Type*)
  | subscribe (handler : H)
  | unsubscribe (handler : H)
  | append (streamId : String) (events : List Ev) (expectedVersion : ℤ)
  | proceed
  | returns
  | throws
deriving DecidableEq

/-- The handler is no longer one that stays. -/
def Delivery.leave (handler : H) (delivery : Delivery H Ev) : Delivery H Ev :=
  { delivery with staying := delivery.staying.filter (· ≠ handler) }

/-- The state in which the loops of a new append start. -/
def State.deliver (state : State H Ev) (store : InMemoryEventStore H Ev)
    (streamId : String) (events : List Ev) : State H Ev :=
  let numbered := events.zipIdx (state.store.content streamId).length
  { state with
    store := store
    active := ⟨state.appends, streamId, numbered, numbered, 0,
      store.handlers⟩ :: state.active
    looping := true
    appends := state.appends + 1 }

/-- The state after the last append has ended, by returning or by throwing
what its handler has thrown. -/
def State.finish (state : State H Ev) (delivery : Delivery H Ev)
    (rest : List (Delivery H Ev)) : State H Ev :=
  { state with
    active := rest
    looping := false
    ended := state.ended ++ [delivery] }

/-- The state in which the handler that the loops of the last append have
reached is called with the event. -/
def State.call (state : State H Ev) (delivery : Delivery H Ev)
    (rest : List (Delivery H Ev)) (event : Ev × ℕ) (handler : H) :
    State H Ev :=
  { state with
    active := { delivery with index := delivery.index + 1 } :: rest
    looping := false
    calls := state.calls ++
      [⟨handler, delivery.id, delivery.streamId, event⟩] }

/-- The state in which the loops of the last append go on with the events
after the first one that is pending. -/
def State.nextEvent (state : State H Ev) (delivery : Delivery H Ev)
    (rest : List (Delivery H Ev)) (later : List (Ev × ℕ)) : State H Ev :=
  { state with
    active := { delivery with pending := later, index := 0 } :: rest }

/-- One round of the loops of the last append. -/
def State.proceed (state : State H Ev) (delivery : Delivery H Ev)
    (rest : List (Delivery H Ev)) : State H Ev :=
  match delivery.pending with
  | [] => state.finish delivery rest
  | event :: later =>
      match state.store.handlers[delivery.index]? with
      | none => state.nextEvent delivery rest later
      | some handler => state.call delivery rest event handler

def step (state : State H Ev) : Label H Ev → Option (State H Ev)
  | .subscribe handler =>
      if state.looping then none
      else some { state with store := state.store.subscribe handler }
  | .unsubscribe handler =>
      if state.looping then none
      else some { state with
        store := state.store.unsubscribe handler
        active := state.active.map (Delivery.leave handler) }
  | .append streamId events expectedVersion =>
      if state.looping then none
      else
        match state.store.write streamId events expectedVersion with
        | .error _ => some state
        | .ok store => some (state.deliver store streamId events)
  | .proceed =>
      match state.active with
      | [] => none
      | delivery :: rest =>
          if state.looping then some (state.proceed delivery rest) else none
  | .returns =>
      if state.looping ∨ state.active = [] then none
      else some { state with looping := true }
  | .throws =>
      match state.active with
      | [] => none
      | delivery :: rest =>
          if state.looping then none else some (state.finish delivery rest)

/-! ## What is owed to a handler -/

/-- The calls to a handler by the loops of an append, in order. -/
def callsTo (handler : H) (delivery : Delivery H Ev)
    (calls : List (Call H Ev)) : List (Ev × ℕ) :=
  (calls.filter fun call =>
    call.handler = handler ∧ call.append = delivery.id).map Call.event

/-- What the loops of an append have still to deliver to a handler that
stays, if the handlers do not change again. -/
def owed (handlers : List H) (delivery : Delivery H Ev) (handler : H) :
    List (Ev × ℕ) :=
  if handler ∈ unvisited handlers delivery.index then delivery.pending
  else delivery.pending.tail

/-- How often the loops of an append will call a handler, if the handlers do
not change again. -/
def toCome (handlers : List H) (delivery : Delivery H Ev) (handler : H) : ℕ :=
  match delivery.pending with
  | [] => 0
  | _ :: later =>
      (unvisited handlers delivery.index).count handler +
        later.length * handlers.count handler

/-- Nothing more is owed to the handlers that stay. -/
def Settled (handlers : List H) (delivery : Delivery H Ev) : Prop :=
  ∀ handler ∈ delivery.staying, owed handlers delivery handler = []

instance Settled.decidable [DecidableEq Ev] (handlers : List H)
    (delivery : Delivery H Ev) : Decidable (Settled handlers delivery) :=
  inferInstanceAs (Decidable (∀ handler ∈ delivery.staying,
    owed handlers delivery handler = []))

/-- A call to a handler that stays for the append it is made by. -/
def Stays (deliveries : List (Delivery H Ev)) (call : Call H Ev) : Prop :=
  ∃ delivery ∈ deliveries,
    delivery.id = call.append ∧ call.handler ∈ delivery.staying

/-- Of two calls to one handler for events of one stream, both by appends
that it stays for, the earlier one is for the earlier event. -/
def InSequence (deliveries : List (Delivery H Ev))
    (earlier later : Call H Ev) : Prop :=
  Stays deliveries earlier → Stays deliveries later →
    earlier.handler = later.handler → earlier.streamId = later.streamId →
      earlier.event.2 < later.event.2

/-- Every handler that has stayed subscribed through an append was called
once for each of its events, and the calls to such a handler for the events of
one stream have been made in the order of the stream. -/
structure DeliveryLaw (state : State H Ev) : Prop where
  once : ∀ delivery ∈ state.ended, ∀ handler ∈ delivery.staying,
    callsTo handler delivery state.calls = delivery.events
  ordered : state.calls.Pairwise (InSequence state.ended)

/-- The steps that keep the law.  When a handler is subscribed again, the
loops of the appends that it stays for do not come to its second place; when
one is taken out of the list behind the loops of an append, the next one in
the list is not one that stays; handlers are distinct when an event is
appended, and the appends to the same stream that are being delivered owe
nothing more; and a handler throws only when its append owes nothing more. -/
def KeepsLaw (state : State H Ev) : Label H Ev → Prop
  | .subscribe handler =>
      ∀ delivery ∈ state.active, handler ∈ delivery.staying →
        state.store.handlers.length < delivery.index ∧
          delivery.pending.tail = []
  | .unsubscribe handler =>
      ∀ delivery ∈ state.active,
        state.store.handlers.idxOf handler < delivery.index →
          ∀ skipped ∈ state.store.handlers[delivery.index]?,
            skipped ∉ (delivery.leave handler).staying
  | .append streamId events expectedVersion =>
      ((state.store.content streamId).length : ℤ) = expectedVersion →
        events ≠ [] →
          state.store.handlers.Nodup ∧
          ∀ delivery ∈ state.active, delivery.streamId = streamId →
            Settled state.store.handlers delivery
  | .throws =>
      ∀ delivery ∈ state.active.head?, Settled state.store.handlers delivery
  | .proceed => True
  | .returns => True

instance KeepsLaw.decidable [DecidableEq Ev] (state : State H Ev) :
    (label : Label H Ev) → Decidable (KeepsLaw state label)
  | .subscribe handler =>
      inferInstanceAs (Decidable (∀ delivery ∈ state.active,
        handler ∈ delivery.staying →
          state.store.handlers.length < delivery.index ∧
            delivery.pending.tail = []))
  | .unsubscribe handler =>
      inferInstanceAs (Decidable (∀ delivery ∈ state.active,
        state.store.handlers.idxOf handler < delivery.index →
          ∀ skipped ∈ state.store.handlers[delivery.index]?,
            skipped ∉ (delivery.leave handler).staying))
  | .append streamId events expectedVersion =>
      inferInstanceAs (Decidable (
        ((state.store.content streamId).length : ℤ) = expectedVersion →
          events ≠ [] →
            state.store.handlers.Nodup ∧
            ∀ delivery ∈ state.active, delivery.streamId = streamId →
              Settled state.store.handlers delivery))
  | .throws =>
      inferInstanceAs (Decidable (∀ delivery ∈ state.active.head?,
        Settled state.store.handlers delivery))
  | .proceed => inferInstanceAs (Decidable True)
  | .returns => inferInstanceAs (Decidable True)

variable {state next : State H Ev} {handlers : List H}
  {delivery : Delivery H Ev} {handler : H}

/-! ## What a step does -/

omit [DecidableEq H] in
theorem proceed_cases (state : State H Ev) (delivery : Delivery H Ev)
    (rest : List (Delivery H Ev)) :
    (delivery.pending = [] ∧
      state.proceed delivery rest = state.finish delivery rest) ∨
    (∃ event later, delivery.pending = event :: later ∧
      state.store.handlers.length ≤ delivery.index ∧
      state.proceed delivery rest = state.nextEvent delivery rest later) ∨
    ∃ event later handler, delivery.pending = event :: later ∧
      state.store.handlers[delivery.index]? = some handler ∧
      state.proceed delivery rest =
        state.call delivery rest event handler := by
  unfold State.proceed
  cases hpending : delivery.pending with
  | nil => exact .inl ⟨rfl, rfl⟩
  | cons event later =>
      cases hhandler : state.store.handlers[delivery.index]? with
      | none =>
          exact .inr (.inl ⟨event, later, rfl,
            List.getElem?_eq_none_iff.mp hhandler, rfl⟩)
      | some handler =>
          exact .inr (.inr ⟨event, later, handler, rfl, rfl, rfl⟩)

theorem step_cases {label : Label H Ev}
    (hstep : step state label = some next) :
    (∃ handler, label = .subscribe handler ∧ state.looping = false ∧
      next = { state with store := state.store.subscribe handler }) ∨
    (∃ handler, label = .unsubscribe handler ∧ state.looping = false ∧
      next = { state with
        store := state.store.unsubscribe handler
        active := state.active.map (Delivery.leave handler) }) ∨
    (∃ streamId events expectedVersion,
      label = .append streamId events expectedVersion ∧
      state.looping = false ∧
      ((∃ error,
        state.store.write streamId events expectedVersion = .error error ∧
        next = state) ∨
      ∃ store,
        state.store.write streamId events expectedVersion = .ok store ∧
        next = state.deliver store streamId events)) ∨
    (∃ delivery rest, label = .proceed ∧ state.looping = true ∧
      state.active = delivery :: rest ∧
      next = state.proceed delivery rest) ∨
    (label = .returns ∧ state.looping = false ∧ state.active ≠ [] ∧
      next = { state with looping := true }) ∨
    ∃ delivery rest, label = .throws ∧ state.looping = false ∧
      state.active = delivery :: rest ∧
      next = state.finish delivery rest := by
  cases label with
  | subscribe handler =>
      simp only [step, Option.ite_none_left_eq_some, Option.some.injEq,
        Bool.not_eq_true] at hstep
      exact .inl ⟨handler, rfl, hstep.1, hstep.2.symm⟩
  | unsubscribe handler =>
      simp only [step, Option.ite_none_left_eq_some, Option.some.injEq,
        Bool.not_eq_true] at hstep
      exact .inr (.inl ⟨handler, rfl, hstep.1, hstep.2.symm⟩)
  | append streamId events expectedVersion =>
      simp only [step, Option.ite_none_left_eq_some,
        Bool.not_eq_true] at hstep
      obtain ⟨hidle, hstep⟩ := hstep
      refine .inr (.inr (.inl
        ⟨streamId, events, expectedVersion, rfl, hidle, ?_⟩))
      split at hstep
      next error hwrite =>
        cases hstep
        exact .inl ⟨error, hwrite, rfl⟩
      next store hwrite =>
        cases hstep
        exact .inr ⟨store, hwrite, rfl⟩
  | proceed =>
      simp only [step] at hstep
      split at hstep
      next => contradiction
      next delivery rest hactive =>
        simp only [Option.ite_none_right_eq_some,
          Option.some.injEq] at hstep
        exact .inr (.inr (.inr (.inl
          ⟨delivery, rest, rfl, hstep.1, hactive, hstep.2.symm⟩)))
  | returns =>
      simp only [step, Option.ite_none_left_eq_some, Option.some.injEq,
        not_or, Bool.not_eq_true] at hstep
      exact .inr (.inr (.inr (.inr (.inl
        ⟨rfl, hstep.1.1, hstep.1.2, hstep.2.symm⟩))))
  | throws =>
      simp only [step] at hstep
      split at hstep
      next => contradiction
      next delivery rest hactive =>
        simp only [Option.ite_none_left_eq_some, Option.some.injEq,
          Bool.not_eq_true] at hstep
        exact .inr (.inr (.inr (.inr (.inr
          ⟨delivery, rest, rfl, hstep.1, hactive, hstep.2.symm⟩))))

/-! ## What becomes of an append -/

/-- What an append stays the same in while it is delivered. -/
structure Continues (delivery kept : Delivery H Ev) : Prop where
  id : kept.id = delivery.id
  streamId : kept.streamId = delivery.streamId
  events : kept.events = delivery.events
  pending : kept.pending <:+ delivery.pending
  staying : kept.staying ⊆ delivery.staying

omit [DecidableEq H] in
theorem Continues.refl (delivery : Delivery H Ev) :
    Continues delivery delivery :=
  ⟨rfl, rfl, rfl, List.suffix_rfl, List.Subset.refl _⟩

omit [DecidableEq H] in
theorem Continues.pending_ne_nil {delivery kept : Delivery H Ev}
    (hcontinues : Continues delivery kept) (hpending : kept.pending ≠ []) :
    delivery.pending ≠ [] := by
  intro hnil
  have hsuffix := hcontinues.pending
  rw [hnil, List.suffix_nil] at hsuffix
  exact hpending hsuffix

@[simp] theorem mem_leave {other : H} :
    other ∈ (delivery.leave handler).staying ↔
      other ∈ delivery.staying ∧ other ≠ handler := by
  simp [Delivery.leave]

theorem Continues.leave (delivery : Delivery H Ev) (handler : H) :
    Continues delivery (delivery.leave handler) :=
  ⟨rfl, rfl, rfl, List.suffix_rfl, List.filter_subset_self _⟩

omit [DecidableEq H] in
theorem Continues.nextEvent {event : Ev × ℕ} {later : List (Ev × ℕ)}
    (hpending : delivery.pending = event :: later) :
    Continues delivery { delivery with pending := later, index := 0 } := by
  refine ⟨rfl, rfl, rfl, ?_, List.Subset.refl _⟩
  rw [hpending]
  exact List.suffix_cons event later

/-- What becomes of an append for which no handler is called in a step. -/
structure Keeps (before after : List H) (delivery kept : Delivery H Ev) :
    Prop extends Continues delivery kept where
  coming : ∀ handler ∈ kept.staying,
    toCome after kept handler = toCome before delivery handler
  owing : ∀ handler ∈ kept.staying,
    owed after kept handler = owed before delivery handler

theorem Keeps.refl (handlers : List H) (delivery : Delivery H Ev) :
    Keeps handlers handlers delivery delivery :=
  ⟨Continues.refl delivery, fun _ _ => rfl, fun _ _ => rfl⟩

theorem owed_eq_of_count {before after : List H}
    (hcount : (unvisited after delivery.index).count handler =
      (unvisited before delivery.index).count handler) :
    owed after delivery handler = owed before delivery handler := by
  unfold owed
  simp only [← List.count_pos_iff, hcount]

theorem toCome_eq_of_count {before after : List H}
    (hcount : (unvisited after delivery.index).count handler =
      (unvisited before delivery.index).count handler)
    (hall : delivery.pending.tail ≠ [] →
      after.count handler = before.count handler) :
    toCome after delivery handler = toCome before delivery handler := by
  unfold toCome
  cases hpending : delivery.pending with
  | nil => rfl
  | cons event later =>
      simp only [hpending, List.tail_cons] at hall
      by_cases hlater : later = []
      · simp only [hlater, hcount, List.length_nil, Nat.zero_mul]
      · simp only [hcount, hall hlater]

/-- Unless the loops come to its second place, a handler that is subscribed
again is owed what it was. -/
theorem Keeps.subscribe
    (hpast : handler ∈ delivery.staying →
      handlers.length < delivery.index ∧ delivery.pending.tail = []) :
    Keeps handlers (handlers ++ [handler]) delivery delivery := by
  have hcount : ∀ other ∈ delivery.staying,
      (unvisited (handlers ++ [handler]) delivery.index).count other =
        (unvisited handlers delivery.index).count other := by
    intro other hstays
    rw [unvisited_push]
    by_cases hle : delivery.index ≤ handlers.length
    · have hne : handler ≠ other := by
        intro heq
        subst other
        exact Nat.not_lt.mpr hle (hpast hstays).1
      simp [hle, hne]
    · rw [if_neg hle, List.append_nil]
  have hall : ∀ other ∈ delivery.staying, delivery.pending.tail ≠ [] →
      (handlers ++ [handler]).count other = handlers.count other := by
    intro other hstays hlater
    have hne : handler ≠ other := by
      intro heq
      subst other
      exact hlater (hpast hstays).2
    simp [hne]
  constructor
  · exact Continues.refl delivery
  · intro other hstays
    exact toCome_eq_of_count (hcount other hstays) (hall other hstays)
  · intro other hstays
    exact owed_eq_of_count (hcount other hstays)

/-- Unless the loops pass over a handler that stays, the handlers that stay
are owed what they were. -/
theorem Keeps.unsubscribe
    (hskipped : handlers.idxOf handler < delivery.index →
      ∀ skipped ∈ handlers[delivery.index]?,
        skipped ∉ (delivery.leave handler).staying) :
    Keeps handlers (handlers.eraseIdx (handlers.idxOf handler)) delivery
      (delivery.leave handler) := by
  have hall : ∀ other ∈ (delivery.leave handler).staying,
      (handlers.eraseIdx (handlers.idxOf handler)).count other =
        handlers.count other := by
    intro other hother
    rw [← List.erase_eq_eraseIdx_of_idxOf rfl,
      List.count_erase_of_ne (mem_leave.mp hother).2]
  have hcount : ∀ other ∈ (delivery.leave handler).staying,
      (unvisited (handlers.eraseIdx (handlers.idxOf handler))
          delivery.index).count other =
        (unvisited handlers delivery.index).count other := by
    intro other hother
    have hne := (mem_leave.mp hother).2
    by_cases hbehind : handlers.idxOf handler < delivery.index
    · have hnext : ¬ handlers[delivery.index]? = some other :=
        fun hnext => hskipped hbehind other hnext hother
      have hcount := count_unvisited_splice_behind handlers hbehind other
      rw [if_neg hnext, Nat.add_zero] at hcount
      exact hcount.symm
    · by_cases hmem : handler ∈ handlers
      · have hcount := count_unvisited_splice_ahead
          (Nat.le_of_not_lt hbehind) (List.getElem?_idxOf hmem) other
        rw [if_neg (Ne.symm hne), Nat.add_zero] at hcount
        exact hcount.symm
      · rw [List.idxOf_eq_length_iff.mpr hmem,
          List.eraseIdx_of_length_le (Nat.le_refl _)]
  constructor
  · exact Continues.leave delivery handler
  · intro other hother
    exact toCome_eq_of_count (hcount other hother) fun _ => hall other hother
  · intro other hother
    exact owed_eq_of_count (hcount other hother)

theorem toCome_of_index_eq_zero (hindex : delivery.index = 0)
    (handler : H) :
    toCome handlers delivery handler =
      delivery.pending.length * handlers.count handler := by
  unfold toCome
  cases delivery.pending with
  | nil => exact (Nat.zero_mul _).symm
  | cons event later =>
      rw [hindex, unvisited_zero, List.length_cons, Nat.succ_mul, Nat.add_comm]

/-- When the inner loop has come to the end of the list, as many calls are
still to come as before. -/
theorem toCome_nextEvent {event : Ev × ℕ} {later : List (Ev × ℕ)}
    (hpending : delivery.pending = event :: later)
    (hend : handlers.length ≤ delivery.index) (handler : H) :
    toCome handlers { delivery with pending := later, index := 0 } handler =
      toCome handlers delivery handler := by
  rw [toCome_of_index_eq_zero rfl]
  simp only [toCome, hpending, unvisited_eq_nil hend, List.count_nil,
    Nat.zero_add]

/-- A handler that stands in the list is owed the next event when the inner
loop has come to the end of the list. -/
theorem owed_nextEvent {event : Ev × ℕ} {later : List (Ev × ℕ)}
    (hpending : delivery.pending = event :: later)
    (hend : handlers.length ≤ delivery.index) (hmem : handler ∈ handlers) :
    owed handlers { delivery with pending := later, index := 0 } handler =
      owed handlers delivery handler := by
  unfold owed
  rw [unvisited_eq_nil hend, unvisited_zero, if_pos hmem,
    if_neg List.not_mem_nil, hpending, List.tail_cons]

/-- As many calls of a handler that stays are to come as events are owed to
it. -/
def Due (handlers : List H) (delivery : Delivery H Ev) : Prop :=
  ∀ handler ∈ delivery.staying,
    toCome handlers delivery handler = (owed handlers delivery handler).length

theorem Keeps.nextEvent {event : Ev × ℕ} {later : List (Ev × ℕ)}
    (hpending : delivery.pending = event :: later)
    (hend : handlers.length ≤ delivery.index) (hdue : Due handlers delivery) :
    Keeps handlers handlers delivery
      { delivery with pending := later, index := 0 } := by
  constructor
  · exact Continues.nextEvent hpending
  · intro handler _
    exact toCome_nextEvent hpending hend handler
  · intro handler hstays
    by_cases hlater : later = []
    · subst later
      simp only [owed, hpending, unvisited_eq_nil hend, List.not_mem_nil,
        if_false, List.tail_cons, ite_self, List.tail_nil]
    · apply owed_nextEvent hpending hend
      have hcalls := hdue handler hstays
      simp only [toCome, owed, hpending, unvisited_eq_nil hend,
        List.count_nil, Nat.zero_add, List.not_mem_nil, if_false,
        List.tail_cons] at hcalls
      apply List.count_pos_iff.mp
      apply Nat.pos_of_ne_zero
      intro hzero
      rw [hzero, Nat.mul_zero] at hcalls
      exact hlater (List.length_eq_zero_iff.mp hcalls.symm)

theorem settled_of_pending_eq_nil (hpending : delivery.pending = []) :
    Settled handlers delivery := by
  intro handler _
  unfold owed
  rw [hpending, List.tail_nil, ite_self]

/-- What a step that keeps the law does: no handler is called and nothing
owed changes; the loops of a new append start; an append ends that owes
nothing; or a handler is called. -/
inductive Effect (state : State H Ev) : State H Ev → Prop
  | keeps {store : InMemoryEventStore H Ev} {active : List (Delivery H Ev)}
      {looping : Bool}
      (hactive : List.Forall₂ (Keeps state.store.handlers store.handlers)
        state.active active) :
      Effect state
        { state with store := store, active := active, looping := looping }
  | delivers {store : InMemoryEventStore H Ev} {streamId : String}
      {events : List Ev}
      (hhandlers : store.handlers = state.store.handlers)
      (hready : events ≠ [] → state.store.handlers.Nodup ∧
        ∀ delivery ∈ state.active, delivery.streamId = streamId →
          Settled state.store.handlers delivery) :
      Effect state (state.deliver store streamId events)
  | finishes {delivery : Delivery H Ev} {rest : List (Delivery H Ev)}
      (hactive : state.active = delivery :: rest)
      (hsettled : Settled state.store.handlers delivery) :
      Effect state (state.finish delivery rest)
  | calls {delivery : Delivery H Ev} {rest : List (Delivery H Ev)}
      {event : Ev × ℕ} {later : List (Ev × ℕ)} {handler : H}
      (hactive : state.active = delivery :: rest)
      (hpending : delivery.pending = event :: later)
      (hhandler : state.store.handlers[delivery.index]? = some handler) :
      Effect state (state.call delivery rest event handler)

theorem keeps_refl (handlers : List H) (active : List (Delivery H Ev)) :
    List.Forall₂ (Keeps handlers handlers) active active :=
  List.forall₂_same.mpr fun delivery _ => Keeps.refl handlers delivery

theorem effect_of_proceed
    (hdue : ∀ delivery ∈ state.active, Due state.store.handlers delivery)
    {rest : List (Delivery H Ev)}
    (hactive : state.active = delivery :: rest) :
    Effect state (state.proceed delivery rest) := by
  rcases proceed_cases state delivery rest with ⟨hpending, hnext⟩ |
    ⟨event, later, hpending, hend, hnext⟩ |
    ⟨event, later, handler, hpending, hhandler, hnext⟩
  · rw [hnext]
    exact .finishes hactive (settled_of_pending_eq_nil hpending)
  · rw [hnext]
    apply Effect.keeps
    rw [hactive] at hdue ⊢
    exact .cons (.nextEvent hpending hend (hdue _ List.mem_cons_self))
      (keeps_refl _ rest)
  · rw [hnext]
    exact .calls hactive hpending hhandler

theorem effect_of_step {label : Label H Ev}
    (hdue : ∀ delivery ∈ state.active, Due state.store.handlers delivery)
    (hkeeps : KeepsLaw state label) (hstep : step state label = some next) :
    Effect state next := by
  rcases step_cases hstep with ⟨handler, rfl, -, rfl⟩ |
    ⟨handler, rfl, -, rfl⟩ |
    ⟨streamId, events, expectedVersion, rfl, -,
      ⟨error, -, rfl⟩ | ⟨store, hwrite, rfl⟩⟩ |
    ⟨delivery, rest, rfl, -, hactive, rfl⟩ | ⟨rfl, -, -, rfl⟩ |
    ⟨delivery, rest, rfl, -, hactive, rfl⟩
  · apply Effect.keeps
    apply List.forall₂_same.mpr
    intro delivery hdelivery
    exact .subscribe (hkeeps delivery hdelivery)
  · apply Effect.keeps
    rw [List.forall₂_map_right_iff, InMemoryEventStore.handlers_unsubscribe]
    apply List.forall₂_same.mpr
    intro delivery hdelivery
    exact .unsubscribe (hkeeps delivery hdelivery)
  · exact .keeps (keeps_refl _ _)
  · apply Effect.delivers
    · exact InMemoryEventStore.handlers_of_write hwrite
    · exact hkeeps (InMemoryEventStore.write_eq_ok_iff.mp hwrite).1
  · exact effect_of_proceed hdue hactive
  · exact .keeps (keeps_refl _ _)
  · apply Effect.finishes hactive
    exact hkeeps delivery (by simp [hactive])

/-! ## Handlers that return at once -/

/-- The loops call a handler, which returns without calling the store, as
often as there are handlers. -/
def quietCalls : ℕ → List (Label H Ev)
  | 0 => []
  | remaining + 1 => .proceed :: .returns :: quietCalls remaining

/-- The loops of an append with handlers that return at once. -/
def quietLoops (handlers : ℕ) : ℕ → List (Label H Ev)
  | 0 => [.proceed]
  | remaining + 1 =>
      quietCalls handlers ++ .proceed :: quietLoops handlers remaining

theorem step_proceed_of_end {rest : List (Delivery H Ev)} {event : Ev × ℕ}
    {later : List (Ev × ℕ)} (hactive : state.active = delivery :: rest)
    (hlooping : state.looping = true)
    (hpending : delivery.pending = event :: later)
    (hend : state.store.handlers.length ≤ delivery.index) :
    step state .proceed = some (state.nextEvent delivery rest later) := by
  simp only [step, hactive, hlooping, if_true, State.proceed, hpending,
    List.getElem?_eq_none hend]

theorem exec_quietCalls {rest : List (Delivery H Ev)} {event : Ev × ℕ}
    {later : List (Ev × ℕ)} {remaining : ℕ}
    (hactive : state.active = delivery :: rest)
    (hlooping : state.looping = true)
    (hpending : delivery.pending = event :: later)
    (hremaining :
      delivery.index + remaining = state.store.handlers.length) :
    exec step state (quietCalls remaining) = some { state with
      active :=
        { delivery with index := state.store.handlers.length } :: rest
      calls := state.calls ++
        (unvisited state.store.handlers delivery.index).map fun handler =>
          ⟨handler, delivery.id, delivery.streamId, event⟩ } := by
  induction remaining generalizing state delivery with
  | zero =>
      rw [Nat.add_zero] at hremaining
      rw [unvisited_eq_nil (Nat.le_of_eq hremaining.symm), ← hremaining,
        List.map_nil, List.append_nil, ← hactive]
      rfl
  | succ remaining ih =>
      have hlt : delivery.index < state.store.handlers.length := by omega
      have hhandler := List.getElem?_eq_getElem hlt
      have hproceed : step state .proceed = some
          (state.call delivery rest event
            state.store.handlers[delivery.index]) := by
        simp only [step, hactive, hlooping, if_true, State.proceed, hpending,
          hhandler]
      apply exec_cons_eq_some.mpr
      refine ⟨_, hproceed, ?_⟩
      apply exec_cons_eq_some.mpr
      refine ⟨_, rfl, ?_⟩
      have hnext : { delivery with index := delivery.index + 1 }.pending =
          event :: later := hpending
      rw [ih rfl rfl hnext]
      · simp only [State.call, unvisited_eq_cons hhandler, List.map_cons,
          List.append_assoc, List.singleton_append, hlooping]
      · simp only [State.call]
        omega

theorem exec_quietLoops {rest : List (Delivery H Ev)}
    (hactive : state.active = delivery :: rest)
    (hlooping : state.looping = true) (hindex : delivery.index = 0) :
    ∃ next, exec step state (quietLoops state.store.handlers.length
        delivery.pending.length) = some next ∧
      next.store = state.store ∧ next.active = rest ∧ next.looping = false ∧
      next.calls = state.calls ++ delivery.pending.flatMap fun event =>
        state.store.handlers.map fun handler =>
          ⟨handler, delivery.id, delivery.streamId, event⟩ := by
  induction hpending : delivery.pending generalizing state delivery with
  | nil =>
      refine ⟨state.finish delivery rest, ?_, rfl, rfl, rfl, ?_⟩
      · apply exec_cons_eq_some.mpr
        simp [step, hactive, hlooping, State.proceed, hpending]
      · simp [State.finish]
  | cons event later ih =>
      have hcalls := exec_quietCalls hactive hlooping hpending
        (by rw [hindex, Nat.zero_add])
      rw [hindex, unvisited_zero] at hcalls
      have hnext : ({ state with
          active := { delivery with pending := later, index := 0 } :: rest
          calls := state.calls ++ state.store.handlers.map fun handler =>
            ⟨handler, delivery.id, delivery.streamId, event⟩ } :
            State H Ev).active =
          { delivery with pending := later, index := 0 } :: rest := rfl
      obtain ⟨next, hrun, hstore, hrest, hdone, hdelivered⟩ :=
        ih hnext hlooping rfl rfl
      refine ⟨next, ?_, hstore, hrest, hdone, ?_⟩
      · apply exec_append_eq_some.mpr
        refine ⟨_, hcalls, ?_⟩
        apply exec_cons_eq_some.mpr
        exact ⟨_, step_proceed_of_end rfl hlooping hpending (Nat.le_refl _),
          hrun⟩
      · rw [hdelivered, List.flatMap_cons, List.append_assoc]

/-- With handlers that return at once, an append makes the calls that `append`
of the store tells, and returns to its caller. -/
theorem exec_append_of_quiet (hidle : state.looping = false)
    {streamId : String} {events : List Ev} {expectedVersion : ℤ}
    {store : InMemoryEventStore H Ev} {calls : List (H × Ev)}
    (happend : state.store.append streamId events expectedVersion =
      .ok (store, calls)) :
    ∃ next, exec step state (.append streamId events expectedVersion ::
        quietLoops store.handlers.length events.length) = some next ∧
      next.store = store ∧ next.active = state.active ∧
      next.looping = false ∧
      next.calls.map (fun call => (call.handler, call.event.1)) =
        state.calls.map (fun call => (call.handler, call.event.1)) ++
          calls := by
  obtain ⟨hwrite, rfl⟩ :=
    InMemoryEventStore.append_eq_ok_iff.mp happend
  have hstart : step state (.append streamId events expectedVersion) =
      some (state.deliver store streamId events) := by
    simp [step, hidle, hwrite]
  have hactive : (state.deliver store streamId events).active =
      ⟨state.appends, streamId,
        events.zipIdx (state.store.content streamId).length,
        events.zipIdx (state.store.content streamId).length, 0,
        store.handlers⟩ :: state.active := rfl
  obtain ⟨next, hrun, hstore, hrest, hdone, hcalls⟩ :=
    exec_quietLoops hactive rfl rfl
  refine ⟨next, ?_, hstore, hrest, hdone, ?_⟩
  · apply exec_cons_eq_some.mpr
    refine ⟨_, hstart, ?_⟩
    simpa [State.deliver] using hrun
  · have hevents : events = (events.zipIdx
        (state.store.content streamId).length).map Prod.fst :=
      (List.zipIdx_map_fst _ _).symm
    rw [hcalls, List.map_append, InMemoryEventStore.deliveries,
      ← InMemoryEventStore.handlers_of_write hwrite]
    congr 1
    conv_rhs => rw [hevents, List.flatMap_map]
    simp only [List.map_flatMap, List.map_map, Function.comp_def,
      State.deliver]

end TsCommons.EventSourcing.Subscriptions
