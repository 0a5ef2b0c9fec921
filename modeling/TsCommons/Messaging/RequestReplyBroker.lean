import TsCommons.Foundations.Execution
import TsCommons.Foundations.InsertionMap

/-!
# The request-reply broker

A request waits under its correlation id until a reply is delivered for it, it
is cancelled, or its timer fires.  The timer of a request deletes whatever
entry stands under the id when it fires, so it may be that of a later request:
ids must not be used again while a request is pending.
-/

namespace TsCommons.Messaging

open Foundations

structure EventEnvelope (R : Type) where
  correlationId : Option String
  payload : R
deriving DecidableEq

/-- What a call of `awaitReply` captures: the number of the call stands for
its promise and its timer. -/
structure Waiter where
  request : ℕ
  correlationId : String
  timeoutMs : ℕ
deriving DecidableEq

inductive Outcome (R : Type)
  | resolved (reply : EventEnvelope R)
  | rejected (message : String)
deriving DecidableEq

/-- `timers` are the timers that are set and have neither fired nor been
cleared; `settled` are the calls that settle promises, in their order. -/
structure State (R : Type) where
  pending : InsertionMap String Waiter
  timers : List Waiter
  settled : List (Waiter × Outcome R)
  requests : ℕ

variable {R : Type}

def State.initial : State R := ⟨.empty, [], [], 0⟩

def Waiter.timeoutMessage (waiter : Waiter) : String :=
  "Reply for correlationId \"" ++ waiter.correlationId ++
    "\" timed out after " ++ toString waiter.timeoutMs ++ "ms"

namespace State

def awaitReply (state : State R) (correlationId : String)
    (timeoutMs : Option ℕ) : State R :=
  let waiter : Waiter := ⟨state.requests, correlationId, timeoutMs.getD 5000⟩
  { state with
    timers := state.timers ++ [waiter]
    pending := state.pending.set correlationId waiter
    requests := state.requests + 1 }

def clearTimeout (state : State R) (waiter : Waiter) : State R :=
  { state with timers := state.timers.filter (· ≠ waiter) }

def settle (state : State R) (waiter : Waiter) (outcome : Outcome R) :
    State R :=
  { state with settled := state.settled ++ [(waiter, outcome)] }

/-- The body of the timer that `awaitReply` sets. -/
def expire (state : State R) (waiter : Waiter) : State R :=
  { state.clearTimeout waiter with
    pending := state.pending.delete waiter.correlationId }.settle waiter
      (.rejected waiter.timeoutMessage)

/-- The state afterwards, and whether a request was matched. -/
def deliver (state : State R) (reply : EventEnvelope R) : State R × Bool :=
  match reply.correlationId with
  | none => (state, false)
  | some correlationId =>
      match state.pending.get correlationId with
      | none => (state, false)
      | some waiter =>
          (({ state with
              pending := state.pending.delete correlationId }.clearTimeout
                waiter).settle waiter (.resolved reply), true)

def cancel (state : State R) (correlationId : String) : State R :=
  match state.pending.get correlationId with
  | none => state
  | some waiter =>
      { state.clearTimeout waiter with
        pending := state.pending.delete correlationId }

def pendingCount (state : State R) : ℕ := state.pending.size

/-- The loop runs over the keys while `cancel` deletes the one it is at. -/
def clearAll (state : State R) : State R :=
  state.pending.keys.foldl cancel state

end State

inductive Label (R : Type)
  | awaitReply (correlationId : String) (timeoutMs : Option ℕ)
  | deliver (reply : EventEnvelope R)
  | cancel (correlationId : String)
  | clearAll
  | expire (waiter : Waiter)
deriving DecidableEq

def step (state : State R) : Label R → Option (State R)
  | .awaitReply correlationId timeoutMs =>
      some (state.awaitReply correlationId timeoutMs)
  | .deliver reply => some (state.deliver reply).1
  | .cancel correlationId => some (state.cancel correlationId)
  | .clearAll => some state.clearAll
  | .expire waiter =>
      if waiter ∈ state.timers then some (state.expire waiter) else none

/-- Whatever happens next: no promise has been settled twice; a delivery is
answered with `true` exactly if it resolves a request that waits under the
reply's correlation id, and changes nothing otherwise; a timer that fires and
a cancellation take out no entry of another request; and a reply for a request
that waits resolves it. -/
structure ReplyLaw (state : State R) : Prop where
  once : (state.settled.map Prod.fst).Nodup
  delivers : ∀ reply, (state.deliver reply).2 = true ↔
    ∃ waiter ∈ state.timers,
      reply.correlationId = some waiter.correlationId ∧
        (state.deliver reply).1.settled =
          state.settled ++ [(waiter, .resolved reply)]
  refuses : ∀ reply, (state.deliver reply).2 = false →
    (state.deliver reply).1 = state
  expires : ∀ waiter ∈ state.timers, ∀ correlationId other,
    state.pending.get correlationId = some other → other ≠ waiter →
      (state.expire waiter).pending.get correlationId = some other
  cancels : ∀ cancelled correlationId other,
    state.pending.get correlationId = some other →
      other.correlationId ≠ cancelled →
        (state.cancel cancelled).pending.get correlationId = some other
  resolves : ∀ waiter ∈ state.timers, ∀ reply,
    reply.correlationId = some waiter.correlationId →
      (waiter, .resolved reply) ∈ (state.deliver reply).1.settled

/-- A request is not made under the correlation id of one that is pending. -/
def NoReuse (state : State R) : Label R → Prop
  | .awaitReply correlationId _ => state.pending.get correlationId = none
  | _ => True

instance NoReuse.decidable (state : State R) :
    (label : Label R) → Decidable (NoReuse state label)
  | .awaitReply correlationId _ =>
      inferInstanceAs (Decidable (state.pending.get correlationId = none))
  | .deliver _ => inferInstanceAs (Decidable True)
  | .cancel _ => inferInstanceAs (Decidable True)
  | .clearAll => inferInstanceAs (Decidable True)
  | .expire _ => inferInstanceAs (Decidable True)

variable {state next : State R} {waiter other : Waiter}
  {correlationId : String} {reply : EventEnvelope R}

/-! ## What an operation does -/

/-- The entry under the correlation id of a request and its timer are gone. -/
def State.drop (state : State R) (waiter : Waiter) : State R :=
  { state.clearTimeout waiter with
    pending := state.pending.delete waiter.correlationId }

@[simp] theorem mem_timers_drop :
    other ∈ (state.drop waiter).timers ↔
      other ∈ state.timers ∧ other ≠ waiter := by
  simp [State.drop, State.clearTimeout]

@[simp] theorem pending_drop :
    (state.drop waiter).pending.get correlationId =
      if correlationId = waiter.correlationId then none
      else state.pending.get correlationId :=
  state.pending.get_delete waiter.correlationId correlationId

theorem deliver_cases (state : State R) (reply : EventEnvelope R) :
    (state.deliver reply = (state, false) ∧
      ∀ correlationId, reply.correlationId = some correlationId →
        state.pending.get correlationId = none) ∨
    ∃ correlationId waiter, reply.correlationId = some correlationId ∧
      state.pending.get correlationId = some waiter ∧
      state.deliver reply = (({ state with
        pending := state.pending.delete correlationId }.clearTimeout
          waiter).settle waiter (.resolved reply), true) := by
  unfold State.deliver
  cases hreply : reply.correlationId with
  | none => exact .inl ⟨rfl, by simp⟩
  | some correlationId =>
      cases hpending : state.pending.get correlationId with
      | none =>
          refine .inl ⟨by simp only [hpending], ?_⟩
          intro other hother
          cases hother
          exact hpending
      | some waiter =>
          exact .inr ⟨correlationId, waiter, rfl, hpending,
            by simp only [hpending]⟩

/-- An entry of the map is that of a request with its correlation id, whose
timer is set. -/
def Registered (state : State R) : Prop :=
  ∀ correlationId waiter,
    state.pending.get correlationId = some waiter →
      waiter ∈ state.timers ∧ waiter.correlationId = correlationId

theorem Registered.deliver_eq (hregistered : Registered state)
    (hreply : reply.correlationId = some correlationId)
    (hpending : state.pending.get correlationId = some waiter) :
    state.deliver reply =
      ((state.drop waiter).settle waiter (.resolved reply), true) := by
  obtain ⟨-, rfl⟩ := hregistered correlationId waiter hpending
  simp only [State.deliver, hreply, hpending]
  rfl

theorem Registered.cancel_eq (hregistered : Registered state)
    (hpending : state.pending.get correlationId = some waiter) :
    state.cancel correlationId = state.drop waiter := by
  obtain ⟨-, rfl⟩ := hregistered correlationId waiter hpending
  simp only [State.cancel, hpending]
  rfl

/-! ## Requests that hold their entries -/

/-- A request whose timer is set stands under its correlation id, and is not
among those whose promises have been settled. -/
structure Invariant (state : State R) : Prop where
  registered : Registered state
  held : ∀ waiter ∈ state.timers,
    state.pending.get waiter.correlationId = some waiter
  fresh : ∀ waiter ∈ state.timers, waiter.request < state.requests
  once : (state.settled.map Prod.fst).Nodup
  settled : ∀ waiter ∈ state.settled.map Prod.fst,
    waiter ∉ state.timers ∧ waiter.request < state.requests

theorem invariant_initial : Invariant (State.initial : State R) := by
  constructor <;> simp [State.initial, Registered]

theorem Invariant.awaitReply (hinv : Invariant state) (timeoutMs : Option ℕ)
    (hfree : state.pending.get correlationId = none) :
    Invariant (state.awaitReply correlationId timeoutMs) := by
  constructor
  · intro key waiter hget
    simp only [State.awaitReply, InsertionMap.get_set] at hget ⊢
    by_cases hkey : key = correlationId
    · rw [if_pos hkey, Option.some.injEq] at hget
      subst waiter
      exact ⟨List.mem_append_right _ List.mem_cons_self, hkey.symm⟩
    · rw [if_neg hkey] at hget
      obtain ⟨htimer, hid⟩ := hinv.registered key waiter hget
      exact ⟨List.mem_append_left _ htimer, hid⟩
  · intro waiter hwaiter
    simp only [State.awaitReply, InsertionMap.get_set] at hwaiter ⊢
    rcases List.mem_append.mp hwaiter with hold | hnew
    · have hheld := hinv.held waiter hold
      have hother : waiter.correlationId ≠ correlationId := by
        intro heq
        rw [heq, hfree] at hheld
        cases hheld
      rw [if_neg hother]
      exact hheld
    · rw [List.mem_singleton.mp hnew, if_pos rfl]
  · intro waiter hwaiter
    rcases List.mem_append.mp hwaiter with hold | hnew
    · exact Nat.lt_succ_of_lt (hinv.fresh waiter hold)
    · rw [List.mem_singleton.mp hnew]
      exact Nat.lt_succ_self _
  · exact hinv.once
  · intro waiter hwaiter
    obtain ⟨hout, hrequest⟩ := hinv.settled waiter hwaiter
    refine ⟨?_, Nat.lt_succ_of_lt hrequest⟩
    intro htimer
    rcases List.mem_append.mp htimer with hold | hnew
    · exact hout hold
    · rw [List.mem_singleton.mp hnew] at hrequest
      exact Nat.lt_irrefl _ hrequest

theorem Invariant.drop (hinv : Invariant state)
    (hwaiter : waiter ∈ state.timers) : Invariant (state.drop waiter) := by
  constructor
  · intro key other hget
    rw [pending_drop] at hget
    by_cases hkey : key = waiter.correlationId
    · rw [if_pos hkey] at hget
      cases hget
    · rw [if_neg hkey] at hget
      obtain ⟨htimer, hid⟩ := hinv.registered key other hget
      refine ⟨mem_timers_drop.mpr ⟨htimer, ?_⟩, hid⟩
      intro heq
      rw [heq] at hid
      exact hkey hid.symm
  · intro other hother
    obtain ⟨htimer, hne⟩ := mem_timers_drop.mp hother
    have hkey : other.correlationId ≠ waiter.correlationId := by
      intro heq
      have hheld := hinv.held other htimer
      rw [heq, hinv.held waiter hwaiter, Option.some.injEq] at hheld
      exact hne hheld.symm
    rw [pending_drop, if_neg hkey]
    exact hinv.held other htimer
  · exact fun other hother => hinv.fresh other (mem_timers_drop.mp hother).1
  · exact hinv.once
  · intro other hother
    obtain ⟨hout, hrequest⟩ := hinv.settled other hother
    exact ⟨fun hdrop => hout (mem_timers_drop.mp hdrop).1, hrequest⟩

theorem Invariant.settle (hinv : Invariant state)
    (hout : waiter ∉ state.timers) (hrequest : waiter.request < state.requests)
    (hunsettled : waiter ∉ state.settled.map Prod.fst)
    (outcome : Outcome R) : Invariant (state.settle waiter outcome) := by
  refine ⟨hinv.registered, hinv.held, hinv.fresh, ?_, ?_⟩
  · rw [State.settle, List.map_append]
    apply List.nodup_append.mpr
    refine ⟨hinv.once, List.nodup_singleton _, ?_⟩
    intro left hleft right hright heq
    rw [List.map_singleton, List.mem_singleton] at hright
    rw [heq, hright] at hleft
    exact hunsettled hleft
  · intro other hother
    rw [State.settle, List.map_append] at hother
    rcases List.mem_append.mp hother with hold | hnew
    · exact hinv.settled other hold
    · rw [List.map_singleton, List.mem_singleton] at hnew
      rw [hnew]
      exact ⟨hout, hrequest⟩

theorem Invariant.settle_drop (hinv : Invariant state)
    (hwaiter : waiter ∈ state.timers) (outcome : Outcome R) :
    Invariant ((state.drop waiter).settle waiter outcome) := by
  apply (hinv.drop hwaiter).settle
  · exact fun hout => (mem_timers_drop.mp hout).2 rfl
  · exact hinv.fresh waiter hwaiter
  · exact fun hsettled => (hinv.settled waiter hsettled).1 hwaiter

theorem Invariant.cancel (hinv : Invariant state) (correlationId : String) :
    Invariant (state.cancel correlationId) := by
  cases hpending : state.pending.get correlationId with
  | none => simpa only [State.cancel, hpending] using hinv
  | some waiter =>
      rw [hinv.registered.cancel_eq hpending]
      exact hinv.drop (hinv.registered correlationId waiter hpending).1

theorem Invariant.cancel_all (hinv : Invariant state) (keys : List String) :
    Invariant (keys.foldl State.cancel state) := by
  induction keys generalizing state with
  | nil => exact hinv
  | cons key rest ih => exact ih (hinv.cancel key)

theorem Invariant.step (hinv : Invariant state) {label : Label R}
    (hnew : NoReuse state label) (hstep : step state label = some next) :
    Invariant next := by
  cases label with
  | awaitReply correlationId timeoutMs =>
      cases hstep
      exact hinv.awaitReply timeoutMs hnew
  | deliver reply =>
      cases hstep
      rcases deliver_cases state reply with ⟨hnone, -⟩ |
        ⟨correlationId, waiter, hreply, hpending, -⟩
      · rw [hnone]
        exact hinv
      · rw [hinv.registered.deliver_eq hreply hpending]
        exact hinv.settle_drop
          (hinv.registered correlationId waiter hpending).1 _
  | cancel correlationId =>
      cases hstep
      exact hinv.cancel correlationId
  | clearAll =>
      cases hstep
      exact hinv.cancel_all _
  | expire waiter =>
      simp only [Messaging.step, Option.ite_none_right_eq_some,
        Option.some.injEq] at hstep
      obtain ⟨hwaiter, rfl⟩ := hstep
      exact hinv.settle_drop hwaiter _

/-! ## The law -/

theorem Invariant.law (hinv : Invariant state) : ReplyLaw state := by
  have hdelivered : ∀ waiter ∈ state.timers, ∀ reply,
      reply.correlationId = some waiter.correlationId →
        state.deliver reply =
          ((state.drop waiter).settle waiter (.resolved reply), true) := by
    intro waiter hwaiter reply hreply
    exact hinv.registered.deliver_eq hreply (hinv.held waiter hwaiter)
  constructor
  · exact hinv.once
  · intro reply
    constructor
    · intro htrue
      rcases deliver_cases state reply with ⟨hnone, -⟩ |
        ⟨correlationId, waiter, hreply, hpending, -⟩
      · rw [hnone] at htrue
        cases htrue
      · obtain ⟨hwaiter, rfl⟩ :=
          hinv.registered correlationId waiter hpending
        refine ⟨waiter, hwaiter, hreply, ?_⟩
        rw [hdelivered waiter hwaiter reply hreply]
        rfl
    · rintro ⟨waiter, hwaiter, hreply, -⟩
      rw [hdelivered waiter hwaiter reply hreply]
  · intro reply hfalse
    rcases deliver_cases state reply with ⟨hnone, -⟩ |
      ⟨correlationId, waiter, -, -, hsome⟩
    · rw [hnone]
    · rw [hsome] at hfalse
      cases hfalse
  · intro waiter hwaiter key other hget hne
    have hkey : key ≠ waiter.correlationId := by
      intro heq
      rw [heq, hinv.held waiter hwaiter, Option.some.injEq] at hget
      exact hne hget.symm
    have hexpired :
        (state.expire waiter).pending = (state.drop waiter).pending := rfl
    rw [hexpired, pending_drop, if_neg hkey]
    exact hget
  · intro cancelled key other hget hne
    cases hpending : state.pending.get cancelled with
    | none => simpa only [State.cancel, hpending] using hget
    | some waiter =>
        obtain ⟨-, hid⟩ := hinv.registered cancelled waiter hpending
        obtain ⟨-, hother⟩ := hinv.registered key other hget
        rw [hinv.registered.cancel_eq hpending, pending_drop, hid, ← hother,
          if_neg hne, hother]
        exact hget
  · intro waiter hwaiter reply hreply
    rw [hdelivered waiter hwaiter reply hreply]
    exact List.mem_append_right _ List.mem_cons_self

/-- When a request is made under the id of a pending one, the timer of the
latter takes out its entry. -/
theorem not_law_awaitReply (hregistered : Registered state)
    (hfresh : ∀ waiter ∈ state.timers, waiter.request < state.requests)
    (hpending : state.pending.get correlationId = some waiter)
    (timeoutMs : Option ℕ) :
    ¬ ReplyLaw (state.awaitReply correlationId timeoutMs) := by
  obtain ⟨hwaiter, hid⟩ := hregistered correlationId waiter hpending
  intro hlaw
  have hkept := hlaw.expires waiter (List.mem_append_left _ hwaiter)
    correlationId _ (InsertionMap.get_set_self _ _ _)
  have hne : (⟨state.requests, correlationId, timeoutMs.getD 5000⟩ : Waiter) ≠
      waiter := by
    intro heq
    have hlt := hfresh waiter hwaiter
    rw [← heq] at hlt
    exact Nat.lt_irrefl _ hlt
  have hgone : ((state.awaitReply correlationId timeoutMs).expire
      waiter).pending.get correlationId = none := by
    rw [← hid]
    exact InsertionMap.get_delete_self _ _
  rw [hgone] at hkept
  exact absurd (hkept hne) (by simp)

theorem not_law_of_reuse (hinv : Invariant state) {label : Label R}
    (hreuse : ¬ NoReuse state label)
    (hstep : Messaging.step state label = some next) : ¬ ReplyLaw next := by
  cases label with
  | awaitReply correlationId timeoutMs =>
      cases hstep
      obtain ⟨waiter, hpending⟩ := Option.ne_none_iff_exists'.mp hreuse
      exact not_law_awaitReply hinv.registered hinv.fresh hpending timeoutMs
  | deliver reply => exact absurd trivial hreuse
  | cancel correlationId => exact absurd trivial hreuse
  | clearAll => exact absurd trivial hreuse
  | expire waiter => exact absurd trivial hreuse

/-- Requests are settled once and by their own replies and timers, whatever
happens next in a state of the run, if and only if no request is made under a
correlation id under which one is pending. -/
theorem replyLaw_iff_noReuse {labels : List (Label R)}
    (hrun : exec step State.initial labels = some state) :
    Throughout step ReplyLaw (State.initial : State R) labels ↔
      StepsMeet step NoReuse (State.initial : State R) labels :=
  throughout_iff_stepsMeet (fun _ hinv => hinv.law)
    (fun _ _ _ hinv hnew hstep => hinv.step hnew hstep)
    (fun _ _ _ hinv hreuse hstep => not_law_of_reuse hinv hreuse hstep)
    invariant_initial hrun

/-- A second request under the id of the first, which was answered. -/
def askAgainAnswered : List (Label ℕ) :=
  [.awaitReply "c" (some 10), .deliver ⟨some "c", 1⟩,
    .awaitReply "c" (some 1000), .awaitReply "d" none,
    .expire ⟨1, "c", 1000⟩]

/-- A second request under the id of the first, which still waits. -/
def askAgainPending : List (Label ℕ) :=
  [.awaitReply "c" (some 10), .awaitReply "c" (some 1000)]

theorem replyLaw_iff_noReuse_samples :
    Throughout step ReplyLaw State.initial askAgainAnswered ∧
      ¬ Throughout step ReplyLaw State.initial askAgainPending := by
  have hanswered : ∃ state : State ℕ,
      exec step State.initial askAgainAnswered = some state := ⟨_, rfl⟩
  have hpending : ∃ state : State ℕ,
      exec step State.initial askAgainPending = some state := ⟨_, rfl⟩
  obtain ⟨_, hanswered⟩ := hanswered
  obtain ⟨_, hpending⟩ := hpending
  constructor
  · apply (replyLaw_iff_noReuse hanswered).mpr
    decide +kernel
  · intro hlaw
    have hmeet := (replyLaw_iff_noReuse hpending).mp hlaw
    exact absurd hmeet (by decide +kernel)

/-- The timer of the first request takes out the entry of the second, whose
reply is then not delivered although it comes in time. -/
theorem not_replyLaw_askAgainPending :
    ∃ state next : State ℕ,
      exec step State.initial askAgainPending = some state ∧
      step state (.expire ⟨0, "c", 10⟩) = some next ∧
      state.pending.get "c" = some ⟨1, "c", 1000⟩ ∧
      next.pending.get "c" = none ∧
      next.timers = [⟨1, "c", 1000⟩] ∧
      (next.deliver ⟨some "c", 1⟩).2 = false ∧
      ¬ ReplyLaw state ∧ ¬ ReplyLaw next := by
  refine ⟨_, _, rfl, rfl, rfl, rfl, rfl, rfl, ?_, ?_⟩
  · intro hlaw
    have hkept := hlaw.expires ⟨0, "c", 10⟩ (by decide) "c" ⟨1, "c", 1000⟩ rfl
      (by decide)
    exact absurd hkept (by decide +kernel)
  · intro hlaw
    have hresolved := hlaw.resolves ⟨1, "c", 1000⟩ (by decide) ⟨some "c", 1⟩ rfl
    exact absurd hresolved (by decide +kernel)

end TsCommons.Messaging
