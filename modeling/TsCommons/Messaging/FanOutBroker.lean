import TsCommons.Foundations.Execution
import TsCommons.Foundations.MapData
import Mathlib.Data.List.Nodup

/-!
# The fan-out broker

A published message goes to the handlers of all subscribers, one after the
other, while others subscribe and unsubscribe.  The function that `subscribe`
returns deletes whatever is registered under its id, so that a late call of it
takes out a later subscriber.
-/

namespace TsCommons.Messaging

open Foundations

structure FanOutSubscriber (I H : Type) where
  id : I
  handler : H
deriving DecidableEq

structure FanOutBroker (I H : Type) where
  subscribers : MapData I (FanOutSubscriber I H)

namespace FanOutBroker

variable {I H M : Type}

def empty : FanOutBroker I H := ⟨.empty⟩

variable [DecidableEq I]

/-- The function that is returned is a call of `unsubscribe` with the id. -/
def addSubscriber (broker : FanOutBroker I H) (id : I) (handler : H) :
    FanOutBroker I H :=
  ⟨broker.subscribers.set id ⟨id, handler⟩⟩

def unsubscribe (broker : FanOutBroker I H) (id : I) : FanOutBroker I H :=
  ⟨broker.subscribers.delete id⟩

/-! ## Runs -/

/-- A call of `addSubscriber`: it is live until another one is made for its
id or the function that it returned is called. -/
structure Registration (I : Type) where
  id : I
  live : Bool
deriving DecidableEq

/-- A call of `publish` when `started` registrations had been made.  `calls`
are the registrations whose handlers its loop has called. -/
structure Publish (M : Type) where
  envelope : M
  started : ℕ
  cursor : ℕ
  calls : List ℕ
  ended : Bool
deriving DecidableEq

/-- The handler of a registration is its number. -/
structure State (I M : Type) where
  broker : FanOutBroker I ℕ
  registrations : List (Registration I)
  publishes : List (Publish M)

def State.initial : State I M := ⟨.empty, [], []⟩

/-- `returns` and `throws` are about the handler that a call of `publish` has
called last, or the promise that it has returned. -/
inductive Label (I M : Type)
  | subscribe (id : I)
  | unsubscribe (number : ℕ)
  | publish (envelope : M)
  | returns (index : ℕ)
  | throws (index : ℕ)

/-- The loop of a call of `publish` goes on to the next subscriber. -/
def Publish.advance (publish : Publish M) (broker : FanOutBroker I ℕ) :
    Publish M :=
  match broker.subscribers.next publish.cursor with
  | none => { publish with ended := true }
  | some ((_, subscriber), cursor) =>
      { publish with
        cursor := cursor
        calls := publish.calls ++ [subscriber.handler] }

/-- The registration is no longer live. -/
def Registration.close (registration : Registration I) : Registration I :=
  { registration with live := false }

def Registration.closeFor (id : I) (registration : Registration I) :
    Registration I :=
  if registration.id = id then registration.close else registration

def State.running (state : State I M) (index : ℕ) : Option (Publish M) :=
  state.publishes[index]?.filter fun publish => !publish.ended

def step (state : State I M) : Label I M → Option (State I M)
  | .subscribe id =>
      some { state with
        broker := state.broker.addSubscriber id state.registrations.length
        registrations :=
          state.registrations.map (Registration.closeFor id) ++
            [⟨id, true⟩] }
  | .unsubscribe number =>
      state.registrations[number]?.map fun registration =>
        { state with
          broker := state.broker.unsubscribe registration.id
          registrations :=
            state.registrations.set number registration.close }
  | .publish envelope =>
      some { state with
        publishes := state.publishes ++
          [Publish.advance ⟨envelope, state.registrations.length, 0, [], false⟩
            state.broker] }
  | .returns index =>
      (state.running index).map fun publish =>
        { state with
          publishes :=
            state.publishes.set index (publish.advance state.broker) }
  | .throws index =>
      (state.running index).map fun publish =>
        { state with
          publishes :=
            state.publishes.set index { publish with ended := true } }

/-- The registrations that are live, made before the call of `publish` and not
called by it. -/
def State.owed (state : State I M) (publish : Publish M) : List ℕ :=
  (List.range publish.started).filter fun number =>
    state.registrations[number]?.any Registration.live &&
      number ∉ publish.calls

structure FanOutLaw (state : State I M) : Prop where
  kept : ∀ number id, state.registrations[number]? = some ⟨id, true⟩ →
    state.broker.subscribers.get id = some ⟨id, number⟩
  only : ∀ id subscriber,
    state.broker.subscribers.get id = some subscriber →
      state.registrations[subscriber.handler]? = some ⟨id, true⟩
  delivered : ∀ publish ∈ state.publishes, publish.ended = true →
    state.owed publish = []
  once : ∀ publish ∈ state.publishes, publish.calls.Nodup

/-- No other registration of its id is live when the function of one is
called that is not; a handler throws only if its message is not owed to
others. -/
def KeepsOthers (state : State I M) : Label I M → Prop
  | .unsubscribe number =>
      ∀ registration ∈ state.registrations[number]?,
        registration.live = true ∨
          ∀ other ∈ state.registrations, other.id = registration.id →
            other.live = false
  | .throws index =>
      ∀ publish ∈ state.publishes[index]?, state.owed publish = []
  | _ => True

instance (state : State I M) (label : Label I M) :
    Decidable (KeepsOthers state label) :=
  match label with
  | .unsubscribe number =>
      inferInstanceAs (Decidable (
        ∀ registration ∈ state.registrations[number]?,
          registration.live = true ∨
            ∀ other ∈ state.registrations, other.id = registration.id →
              other.live = false))
  | .throws index =>
      inferInstanceAs (Decidable (
        ∀ publish ∈ state.publishes[index]?, state.owed publish = []))
  | .subscribe _ => inferInstanceAs (Decidable True)
  | .publish _ => inferInstanceAs (Decidable True)
  | .returns _ => inferInstanceAs (Decidable True)

variable {state next : State I M} {label : Label I M} {id : I}
  {number index : ℕ} {registration : Registration I} {publish : Publish M}

omit [DecidableEq I] in
theorem mem_owed :
    number ∈ state.owed publish ↔ number < publish.started ∧
      (∃ id, state.registrations[number]? = some ⟨id, true⟩) ∧
        number ∉ publish.calls := by
  simp only [State.owed, List.mem_filter, List.mem_range, Bool.and_eq_true,
    decide_eq_true_eq, Option.any_eq_true]
  refine and_congr_right fun _ => and_congr_left fun _ => ?_
  constructor
  · rintro ⟨⟨id, live⟩, hget, rfl⟩
    exact ⟨id, hget⟩
  · rintro ⟨id, hget⟩
    exact ⟨_, hget, rfl⟩

/-! ## The invariant -/

/-- A call of `publish` that goes on will still come to those that it owes the
message to, and to none that it has called. -/
structure Runs (state : State I M) (publish : Publish M) : Prop where
  owed : ∀ number id, number ∈ state.owed publish →
    state.registrations[number]? = some ⟨id, true⟩ →
      (id, ⟨id, number⟩) ∈
        state.broker.subscribers.remaining publish.cursor
  called : ∀ entry ∈ state.broker.subscribers.remaining publish.cursor,
    entry.2.handler ∉ publish.calls

structure Accounts (state : State I M) (publish : Publish M) : Prop where
  delivered : publish.ended = true → state.owed publish = []
  once : publish.calls.Nodup
  past : ∀ number ∈ publish.calls, number < state.registrations.length
  started : publish.started ≤ state.registrations.length
  runs : publish.ended = false → Runs state publish

structure Invariant (state : State I M) : Prop where
  kept : ∀ number id, state.registrations[number]? = some ⟨id, true⟩ →
    state.broker.subscribers.get id = some ⟨id, number⟩
  only : ∀ id subscriber,
    state.broker.subscribers.get id = some subscriber →
      state.registrations[subscriber.handler]? = some ⟨id, true⟩
  accounts : ∀ publish ∈ state.publishes, Accounts state publish

theorem Invariant.law (hinv : Invariant state) : FanOutLaw state where
  kept := hinv.kept
  only := hinv.only
  delivered publish hpublish := (hinv.accounts publish hpublish).delivered
  once publish hpublish := (hinv.accounts publish hpublish).once

theorem invariant_initial : Invariant (State.initial : State I M) where
  kept _ _ hget := by cases hget
  only _ _ hget := by cases hget
  accounts _ hpublish := by cases hpublish

/-! ## The loop of `publish` -/

omit [DecidableEq I] in
theorem advance_of_none {broker : FanOutBroker I ℕ}
    (hnext : broker.subscribers.next publish.cursor = none) :
    publish.advance broker = { publish with ended := true } := by
  rw [Publish.advance, hnext]

omit [DecidableEq I] in
theorem advance_of_some {broker : FanOutBroker I ℕ} {key : I}
    {subscriber : FanOutSubscriber I ℕ} {cursor : ℕ}
    (hnext : broker.subscribers.next publish.cursor =
      some ((key, subscriber), cursor)) :
    publish.advance broker = { publish with
      cursor := cursor
      calls := publish.calls ++ [subscriber.handler] } := by
  rw [Publish.advance, hnext]

omit [DecidableEq I] in
/-- A loop that comes to its end owes the message to nobody. -/
theorem Accounts.atEnd (haccounts : Accounts state publish)
    (hopen : publish.ended = false)
    (hnext : state.broker.subscribers.next publish.cursor = none) :
    Accounts state { publish with ended := true } := by
  refine ⟨fun _ => ?_, haccounts.once, haccounts.past, haccounts.started,
    fun hended => by cases hended⟩
  refine List.eq_nil_iff_forall_not_mem.mpr fun number hnumber => ?_
  obtain ⟨-, ⟨id, hlive⟩, -⟩ := mem_owed.mp hnumber
  have hmem := (haccounts.runs hopen).owed number id hnumber hlive
  rw [MapData.remaining_of_next_eq_none hnext] at hmem
  cases hmem

/-- A loop goes on to a subscriber that it has not called. -/
theorem Invariant.accounts_call (hinv : Invariant state)
    (haccounts : Accounts state publish) (hopen : publish.ended = false)
    {key : I} {subscriber : FanOutSubscriber I ℕ} {cursor : ℕ}
    (hnext : state.broker.subscribers.next publish.cursor =
      some ((key, subscriber), cursor)) :
    Accounts state { publish with
      cursor := cursor
      calls := publish.calls ++ [subscriber.handler] } := by
  obtain ⟨howed, hcalled⟩ := haccounts.runs hopen
  have hremaining := MapData.remaining_of_next hnext
  have hhead : (key, subscriber) ∈
      state.broker.subscribers.remaining publish.cursor := by
    rw [hremaining]
    exact List.mem_cons_self
  have hlive :=
    hinv.only key subscriber (MapData.get_of_mem_remaining hhead)
  have hkeys :=
    MapData.nodup_remaining state.broker.subscribers publish.cursor
  rw [hremaining, List.map_cons] at hkeys
  refine ⟨fun hended => ?_, ?_, fun number hnumber => ?_,
    haccounts.started, fun _ => ⟨fun number id hnumber hid => ?_,
      fun entry hentry hmem => ?_⟩⟩
  · rw [hopen] at hended
    cases hended
  · rw [← List.concat_eq_append]
    exact haccounts.once.concat (hcalled _ hhead)
  · obtain hold | hnew := List.mem_append.mp hnumber
    · exact haccounts.past number hold
    · rw [List.mem_singleton.mp hnew]
      exact (List.getElem?_eq_some_iff.mp hlive).1
  · obtain ⟨hstarted, hnumberLive, hnot⟩ := mem_owed.mp hnumber
    rw [List.mem_append, List.mem_singleton, not_or] at hnot
    have hmem := howed number id
      (mem_owed.mpr ⟨hstarted, hnumberLive, hnot.1⟩) hid
    rw [hremaining] at hmem
    refine (List.mem_cons.mp hmem).resolve_left fun heq => ?_
    cases heq
    exact hnot.2 rfl
  · have hlater : entry ∈
        state.broker.subscribers.remaining publish.cursor := by
      rw [hremaining]
      exact List.mem_cons_of_mem _ hentry
    obtain hold | hnew := List.mem_append.mp hmem
    · exact hcalled entry hlater hold
    · have hentryLive := hinv.only entry.1 entry.2
        (MapData.get_of_mem_remaining hlater)
      rw [List.mem_singleton.mp hnew, hlive, Option.some.injEq,
        Registration.mk.injEq] at hentryLive
      refine (List.nodup_cons.mp hkeys).1 ?_
      rw [hentryLive.1]
      exact List.mem_map.mpr ⟨entry, hentry, rfl⟩

theorem Invariant.advance (hinv : Invariant state)
    (haccounts : Accounts state publish) (hopen : publish.ended = false) :
    Accounts state (publish.advance state.broker) := by
  cases hnext : state.broker.subscribers.next publish.cursor with
  | none =>
      rw [advance_of_none hnext]
      exact haccounts.atEnd hopen hnext
  | some found =>
      obtain ⟨⟨key, subscriber⟩, cursor⟩ := found
      rw [advance_of_some hnext]
      exact hinv.accounts_call haccounts hopen hnext

theorem Invariant.accounts_publish (hinv : Invariant state) (envelope : M) :
    Accounts state ⟨envelope, state.registrations.length, 0, [], false⟩ := by
  refine ⟨Bool.noConfusion, .nil, List.forall_mem_nil _, Nat.le_refl _,
    fun _ => ⟨fun number id _ hlive => ?_, fun _ _ => List.not_mem_nil⟩⟩
  exact MapData.mem_remaining_zero.mpr (hinv.kept number id hlive)

/-! ## Registrations -/

theorem live_subscribe {registrations : List (Registration I)} {other : I} :
    (registrations.map (Registration.closeFor id) ++
        [⟨id, true⟩])[number]? = some ⟨other, true⟩ ↔
      number = registrations.length ∧ other = id ∨
        registrations[number]? = some ⟨other, true⟩ ∧ other ≠ id := by
  obtain hlt | heq | hgt := Nat.lt_trichotomy number registrations.length
  · rw [List.getElem?_append_left (by simpa using hlt), List.getElem?_map,
      or_iff_right fun hboth => Nat.ne_of_lt hlt hboth.1]
    cases hget : registrations[number]? with
    | none => simp
    | some registration =>
        obtain ⟨key, live⟩ := registration
        by_cases hkey : key = id
        · simp [Registration.closeFor, Registration.close, hkey, eq_comm]
          exact fun heq _ => heq
        · simp [Registration.closeFor, hkey]
          rintro rfl rfl
          exact hkey
  · have hnone : registrations[number]? = none :=
      List.getElem?_eq_none_iff.mpr (Nat.le_of_eq heq.symm)
    rw [List.getElem?_append_right (by simp [heq]), hnone]
    simp [heq, eq_comm]
  · have hnone : registrations[number]? = none :=
      List.getElem?_eq_none_iff.mpr (Nat.le_of_lt hgt)
    rw [List.getElem?_append_right (by simpa using Nat.le_of_lt hgt), hnone,
      or_iff_left (by simp)]
    have hpos : number - registrations.length ≠ 0 := by omega
    cases hoffset : number - registrations.length with
    | zero => exact absurd hoffset hpos
    | succ offset => simp [hoffset, Nat.ne_of_gt hgt]

omit [DecidableEq I] in
theorem live_unsubscribe {other : I} {found : ℕ} :
    (state.registrations.set number registration.close)[found]? =
        some ⟨other, true⟩ ↔
      found ≠ number ∧ state.registrations[found]? = some ⟨other, true⟩ := by
  rw [List.getElem?_set]
  by_cases heq : number = found
  · rw [if_pos heq]
    refine iff_of_false (fun hsome => ?_) fun hboth => hboth.1 heq.symm
    split at hsome
    · cases hsome
    · cases hsome
  · rw [if_neg heq, and_iff_right (Ne.symm heq)]

/-- A step by which no registration of the past becomes live, and the entries
of those that stay live keep their places. -/
structure Carries (state next : State I M) (cursor : ℕ) : Prop where
  length : state.registrations.length ≤ next.registrations.length
  live : ∀ number < state.registrations.length, ∀ id,
    next.registrations[number]? = some ⟨id, true⟩ →
      state.registrations[number]? = some ⟨id, true⟩ ∧
        ∀ subscriber,
          (id, subscriber) ∈ state.broker.subscribers.remaining cursor →
            (id, subscriber) ∈ next.broker.subscribers.remaining cursor
  new : ∀ entry ∈ next.broker.subscribers.remaining cursor,
    entry ∈ state.broker.subscribers.remaining cursor ∨
      state.registrations.length ≤ entry.2.handler

omit [DecidableEq I] in
theorem Accounts.carry (haccounts : Accounts state publish)
    (hcarries : Carries state next publish.cursor) :
    Accounts next publish := by
  have howed : ∀ number ∈ next.owed publish, number ∈ state.owed publish := by
    intro number hnumber
    obtain ⟨hstarted, ⟨id, hlive⟩, hnot⟩ := mem_owed.mp hnumber
    have hlt := Nat.lt_of_lt_of_le hstarted haccounts.started
    exact mem_owed.mpr
      ⟨hstarted, ⟨id, (hcarries.live number hlt id hlive).1⟩, hnot⟩
  refine ⟨fun hended => ?_, haccounts.once, fun number hnumber => ?_,
    Nat.le_trans haccounts.started hcarries.length, fun hopen => ?_⟩
  · refine List.eq_nil_iff_forall_not_mem.mpr fun number hnumber => ?_
    have hold := howed number hnumber
    rw [haccounts.delivered hended] at hold
    cases hold
  · exact Nat.lt_of_lt_of_le (haccounts.past number hnumber) hcarries.length
  · obtain ⟨hruns, hcalled⟩ := haccounts.runs hopen
    refine ⟨fun number id hnumber hlive => ?_, fun entry hentry hmem => ?_⟩
    · have hlt := Nat.lt_of_lt_of_le (mem_owed.mp hnumber).1
        haccounts.started
      obtain ⟨hwasLive, hstays⟩ := hcarries.live number hlt id hlive
      exact hstays _ (hruns number id (howed number hnumber) hwasLive)
    · obtain hold | hnew := hcarries.new entry hentry
      · exact hcalled entry hold hmem
      · exact Nat.not_lt_of_ge hnew (haccounts.past _ hmem)

theorem Invariant.subscribe (hinv : Invariant state) (id : I) :
    Invariant { state with
      broker := state.broker.addSubscriber id state.registrations.length
      registrations :=
        state.registrations.map (Registration.closeFor id) ++
          [⟨id, true⟩] } := by
  refine ⟨fun number other hlive => ?_, fun other subscriber hget => ?_,
    fun publish hpublish => (hinv.accounts publish hpublish).carry
      ⟨by simp, fun number hlt other hlive => ?_, fun entry hentry => ?_⟩⟩
  · simp only [addSubscriber, MapData.get_set]
    obtain ⟨rfl, rfl⟩ | ⟨hold, hne⟩ := live_subscribe.mp hlive
    · rw [if_pos rfl]
    · rw [if_neg hne]
      exact hinv.kept number other hold
  · simp only [addSubscriber, MapData.get_set] at hget
    refine live_subscribe.mpr ?_
    split at hget
    · rename_i heq
      cases hget
      exact .inl ⟨rfl, heq⟩
    · rename_i hne
      exact .inr ⟨hinv.only other subscriber hget, hne⟩
  · obtain ⟨heq, -⟩ | ⟨hold, hne⟩ := live_subscribe.mp hlive
    · exact absurd heq (Nat.ne_of_lt hlt)
    · exact ⟨hold, fun subscriber hmem =>
        (MapData.mem_remaining_set hne).mpr hmem⟩
  · by_cases heq : entry.1 = id
    · have hvalue := MapData.eq_of_mem_remaining_set hentry heq
      rw [hvalue]
      exact .inr (Nat.le_refl _)
    · exact .inl ((MapData.mem_remaining_set heq).mp hentry)

/-- A registration that stays live is not under the id that is deleted. -/
theorem Invariant.id_ne (hinv : Invariant state)
    (hget : state.registrations[number]? = some registration)
    (hkeeps : registration.live = true ∨
      ∀ other ∈ state.registrations, other.id = registration.id →
        other.live = false)
    {found : ℕ} {other : I} (hne : found ≠ number)
    (hlive : state.registrations[found]? = some ⟨other, true⟩) :
    other ≠ registration.id := by
  rintro rfl
  obtain hown | hnone := hkeeps
  · obtain ⟨id, live⟩ := registration
    cases hown
    have hsame := (hinv.kept number id hget).symm.trans
      (hinv.kept found id hlive)
    simp only [Option.some.injEq, FanOutSubscriber.mk.injEq,
      true_and] at hsame
    exact hne hsame.symm
  · exact Bool.noConfusion
      (hnone _ (List.mem_of_getElem? hlive) rfl)

theorem Invariant.unsubscribe (hinv : Invariant state)
    (hget : state.registrations[number]? = some registration)
    (hkeeps : registration.live = true ∨
      ∀ other ∈ state.registrations, other.id = registration.id →
        other.live = false) :
    Invariant { state with
      broker := state.broker.unsubscribe registration.id
      registrations := state.registrations.set number registration.close } := by
  refine ⟨fun found other hlive => ?_, fun other subscriber hmap => ?_,
    fun publish hpublish => (hinv.accounts publish hpublish).carry
      ⟨by simp, fun found hlt other hlive => ?_, fun entry hentry => ?_⟩⟩
  · obtain ⟨hne, hold⟩ := live_unsubscribe.mp hlive
    simp only [FanOutBroker.unsubscribe, MapData.get_delete,
      if_neg (hinv.id_ne hget hkeeps hne hold)]
    exact hinv.kept found other hold
  · simp only [FanOutBroker.unsubscribe, MapData.get_delete] at hmap
    split at hmap
    · cases hmap
    · rename_i hne
      have hold := hinv.only other subscriber hmap
      refine live_unsubscribe.mpr ⟨?_, hold⟩
      rintro heq
      rw [heq, hget, Option.some.injEq] at hold
      rw [hold] at hne
      exact hne rfl
  · obtain ⟨hne, hold⟩ := live_unsubscribe.mp hlive
    exact ⟨hold, fun subscriber hmem => MapData.mem_remaining_delete.mpr
      ⟨hmem, hinv.id_ne hget hkeeps hne hold⟩⟩
  · exact .inl (MapData.mem_remaining_delete.mp hentry).1

theorem Invariant.withPublishes (hinv : Invariant state)
    {publishes : List (Publish M)}
    (haccounts : ∀ publish ∈ publishes, Accounts state publish) :
    Invariant { state with publishes := publishes } :=
  ⟨hinv.kept, hinv.only, fun publish hpublish =>
    (haccounts publish hpublish).carry
      ⟨Nat.le_refl _, fun _ _ _ hlive => ⟨hlive, fun _ hmem => hmem⟩,
        fun _ hentry => .inl hentry⟩⟩

/-! ## Steps -/

omit [DecidableEq I] in
theorem running_eq_some :
    state.running index = some publish ↔
      state.publishes[index]? = some publish ∧ publish.ended = false := by
  rw [State.running, Option.filter_eq_some_iff, Bool.not_eq_true']

theorem Invariant.step (hinv : Invariant state)
    (hkeeps : KeepsOthers state label)
    (hstep : step state label = some next) : Invariant next := by
  cases label with
  | subscribe id =>
      cases hstep
      exact hinv.subscribe id
  | unsubscribe number =>
      obtain ⟨registration, hget, rfl⟩ := Option.map_eq_some_iff.mp hstep
      exact hinv.unsubscribe hget (hkeeps registration hget)
  | publish envelope =>
      cases hstep
      refine hinv.withPublishes fun publish hpublish => ?_
      obtain hold | hnew := List.mem_append.mp hpublish
      · exact hinv.accounts publish hold
      · rw [List.mem_singleton.mp hnew]
        exact hinv.advance (hinv.accounts_publish envelope) rfl
  | returns index =>
      obtain ⟨publish, hrunning, rfl⟩ := Option.map_eq_some_iff.mp hstep
      obtain ⟨hget, hopen⟩ := running_eq_some.mp hrunning
      refine hinv.withPublishes fun other hother => ?_
      obtain hold | rfl := List.mem_or_eq_of_mem_set hother
      · exact hinv.accounts other hold
      · exact hinv.advance
          (hinv.accounts publish (List.mem_of_getElem? hget)) hopen
  | throws index =>
      obtain ⟨publish, hrunning, rfl⟩ := Option.map_eq_some_iff.mp hstep
      obtain ⟨hget, hopen⟩ := running_eq_some.mp hrunning
      refine hinv.withPublishes fun other hother => ?_
      obtain hold | rfl := List.mem_or_eq_of_mem_set hother
      · exact hinv.accounts other hold
      · obtain ⟨-, honce, hpast, hstarted, -⟩ :=
          hinv.accounts publish (List.mem_of_getElem? hget)
        exact ⟨fun _ => hkeeps publish hget, honce, hpast, hstarted,
          Bool.noConfusion⟩

/-- A function of an earlier registration takes out a live one, or a handler
throws while its message is owed to others. -/
theorem not_law_of_step (hnot : ¬KeepsOthers state label)
    (hstep : step state label = some next) : ¬FanOutLaw next := by
  intro hlaw
  apply hnot
  cases label with
  | subscribe id => trivial
  | publish envelope => trivial
  | returns index => trivial
  | unsubscribe number =>
      obtain ⟨registration, hget, rfl⟩ := Option.map_eq_some_iff.mp hstep
      intro found hfound
      cases Option.mem_unique hfound hget
      refine or_iff_not_imp_left.mpr fun hclosed other hother hid => ?_
      by_contra hlive
      obtain ⟨place, hplace⟩ := List.mem_iff_getElem?.mp hother
      have hother' : state.registrations[place]? =
          some ⟨registration.id, true⟩ := by
        rw [hplace, Option.some.injEq, ← hid, ← Bool.not_eq_false _ |>.mp hlive]
      have hne : place ≠ number := by
        rintro rfl
        rw [hother', Option.some.injEq] at hget
        rw [← hget] at hclosed
        exact hclosed rfl
      have hkept := hlaw.kept place registration.id
        (live_unsubscribe.mpr ⟨hne, hother'⟩)
      simp [unsubscribe, MapData.get_delete] at hkept
  | throws index =>
      obtain ⟨publish, hrunning, rfl⟩ := Option.map_eq_some_iff.mp hstep
      obtain ⟨hget, hopen⟩ := running_eq_some.mp hrunning
      intro found hfound
      cases Option.mem_unique hfound hget
      obtain ⟨hlt, -⟩ := List.getElem?_eq_some_iff.mp hget
      exact hlaw.delivered { publish with ended := true }
        (List.mem_iff_getElem?.mpr ⟨index, by simp [hlt]⟩) rfl

/-- In a run, the live registrations are those of the broker and each gets
every message that was published since it was made, once, if and only if no
function of another registration takes one out and no handler throws while its
message is owed to others. -/
theorem fanOutLaw_iff_keepsOthers {labels : List (Label I M)}
    (hrun : exec step State.initial labels = some state) :
    Throughout step FanOutLaw State.initial labels ↔
      StepsMeet step KeepsOthers State.initial labels :=
  throughout_iff_stepsMeet (I := Invariant)
    (fun _ hinv => hinv.law)
    (fun _ _ _ hinv hkeeps hstep => hinv.step hkeeps hstep)
    (fun _ _ _ _ hnot hstep => not_law_of_step hnot hstep)
    invariant_initial hrun

/-- Two registrations for one id, of which the function of one is called
before a message is published. -/
def registerTwice (number : ℕ) : List (Label ℕ ℕ) :=
  [.subscribe 7, .subscribe 7, .unsubscribe number, .publish 0]

theorem fanOutLaw_iff_keepsOthers_samples :
    Throughout step FanOutLaw State.initial
        (registerTwice 1 ++ [.unsubscribe 1, .subscribe 7, .publish 1,
          .returns 1]) ∧
      ¬Throughout step FanOutLaw State.initial (registerTwice 0) := by
  have hlatest : (exec step State.initial
      (registerTwice 1 ++ [.unsubscribe 1, .subscribe 7, .publish 1,
        .returns 1])).isSome := by
    decide +kernel
  have hearlier : (exec step State.initial (registerTwice 0)).isSome := by
    decide +kernel
  obtain ⟨_, hlatest⟩ := Option.isSome_iff_exists.mp hlatest
  obtain ⟨_, hearlier⟩ := Option.isSome_iff_exists.mp hearlier
  constructor
  · apply (fanOutLaw_iff_keepsOthers hlatest).mpr
    decide +kernel
  · intro hlaw
    have hmeet := (fanOutLaw_iff_keepsOthers hearlier).mp hlaw
    exact absurd hmeet (by decide +kernel)

/-- The function of the first registration takes out the second one, which
does not get the message. -/
theorem not_fanOutLaw_of_stale_unsubscribe :
    ∃ state, exec step State.initial (registerTwice 0) = some state ∧
      state.registrations[1]? = some ⟨7, true⟩ ∧
      state.broker.subscribers.get 7 = none ∧
      state.publishes.map Publish.calls = [[]] ∧ ¬FanOutLaw state := by
  have hends : (exec step State.initial (registerTwice 0)).any
      (fun state => decide
        (state.registrations[1]? = some ⟨7, true⟩ ∧
          state.broker.subscribers.get 7 = none ∧
          state.publishes.map Publish.calls = [[]])) = true := by
    decide +kernel
  obtain ⟨state, hrun, hfacts⟩ := (Option.any_eq_true _ _).mp hends
  obtain ⟨hlive, hnone, hcalls⟩ := of_decide_eq_true hfacts
  refine ⟨state, hrun, hlive, hnone, hcalls, fun hlaw => ?_⟩
  have hkept := hlaw.kept 1 7 hlive
  rw [hnone] at hkept
  cases hkept

end FanOutBroker

end TsCommons.Messaging
