import TsCommons.Foundations.Execution
import Mathlib.Data.ENat.Basic
import Mathlib.Data.List.Nodup
import Mathlib.Data.List.Perm.Basic

/-!
# The bulkhead

A call of `execute` awaits a slot and then its function.  The promise of a
slot resolves at once, or when a finishing call hands its slot over; the call
then goes on in a promise job of its own, and these jobs run in the order in
which they were queued.  Both limits may be `Infinity`.
-/

namespace TsCommons.Resilience.Bulkhead

open Foundations

def BulkheadRejectedError.message : String :=
  "Bulkhead queue is full — request rejected"

/-- A call gets the number of calls begun before it. -/
inductive Label (V Err : Type)
  | execute
  | runJob
  | fnSettles (call : ℕ) (outcome : Except Err V)

/-- What the bulkhead does, and what its calls answer: the outcome of their
function, or a `BulkheadRejectedError` with its message. -/
inductive Effect (V Err : Type)
  | accepted (call : ℕ)
  | rejected (call : ℕ) (message : String)
  | admitted (call : ℕ)
  | started (call : ℕ)
  | finished (call : ℕ) (outcome : Except Err V)

/-- `queue` holds the calls whose `resolve` waits for a slot, `jobs` the calls
with a slot that have yet to go on, and `running` those whose function runs.
`begun` and `log`, newest first, are history. -/
structure State (V Err : Type) where
  maxConcurrent : ℕ∞
  maxQueue : ℕ∞
  active : ℕ
  queue : List ℕ
  jobs : List ℕ
  running : List ℕ
  begun : ℕ
  log : List (Effect V Err)

variable {V Err : Type}

namespace State

def initial (maxConcurrent maxQueue : ℕ∞) : State V Err where
  maxConcurrent := maxConcurrent
  maxQueue := maxQueue
  active := 0
  queue := []
  jobs := []
  running := []
  begun := 0
  log := []

def getActiveCount (state : State V Err) : ℕ := state.active

def getQueueSize (state : State V Err) : ℕ := state.queue.length

/-- The promise of a slot resolves. -/
def resolveSlot (state : State V Err) (call : ℕ) : State V Err :=
  { state with
    jobs := state.jobs ++ [call]
    log := .admitted call :: state.log }

def acquireSlot (state : State V Err) (call : ℕ) : State V Err :=
  if (state.active : ℕ∞) < state.maxConcurrent then
    { state with
      active := state.active + 1
      log := .accepted call :: state.log }.resolveSlot call
  else if state.maxQueue ≤ (state.queue.length : ℕ∞) then
    { state with
      log := .rejected call BulkheadRejectedError.message :: state.log }
  else
    { state with
      queue := state.queue ++ [call]
      log := .accepted call :: state.log }

def releaseSlot (state : State V Err) : State V Err :=
  match state.queue with
  | next :: rest => { state with queue := rest }.resolveSlot next
  | [] => { state with active := state.active - 1 }

def execute (state : State V Err) : State V Err :=
  { state.acquireSlot state.begun with begun := state.begun + 1 }

def start (state : State V Err) (call : ℕ) (rest : List ℕ) : State V Err :=
  { state with
    jobs := rest
    running := state.running ++ [call]
    log := .started call :: state.log }

/-- The `finally` block runs before the call answers. -/
def fnSettles (state : State V Err) (call : ℕ) (outcome : Except Err V) :
    State V Err :=
  { state with
    running := state.running.erase call
    log := .finished call outcome :: state.log }.releaseSlot

end State

def step (state : State V Err) : Label V Err → Option (State V Err)
  | .execute => some state.execute
  | .runJob =>
      match state.jobs with
      | [] => none
      | call :: rest => some (state.start call rest)
  | .fnSettles call outcome =>
      if call ∈ state.running then some (state.fnSettles call outcome)
      else none

variable {state next : State V Err}

/-- What a step can be: a call takes a free slot, is rejected or waits, runs
its function, or finishes and gives its slot back or hands it over. -/
theorem step_cases {label : Label V Err}
    (hstep : step state label = some next) :
    ((state.active : ℕ∞) < state.maxConcurrent ∧
      next = { state with
        active := state.active + 1
        jobs := state.jobs ++ [state.begun]
        begun := state.begun + 1
        log := .admitted state.begun :: .accepted state.begun ::
          state.log }) ∨
    (state.maxConcurrent ≤ (state.active : ℕ∞) ∧
      state.maxQueue ≤ (state.queue.length : ℕ∞) ∧
      next = { state with
        begun := state.begun + 1
        log := .rejected state.begun BulkheadRejectedError.message ::
          state.log }) ∨
    (state.maxConcurrent ≤ (state.active : ℕ∞) ∧
      (state.queue.length : ℕ∞) < state.maxQueue ∧
      next = { state with
        queue := state.queue ++ [state.begun]
        begun := state.begun + 1
        log := .accepted state.begun :: state.log }) ∨
    (∃ call rest, state.jobs = call :: rest ∧
      next = state.start call rest) ∨
    ∃ call outcome, call ∈ state.running ∧
      ((state.queue = [] ∧
        next = { state with
          active := state.active - 1
          running := state.running.erase call
          log := .finished call outcome :: state.log }) ∨
      ∃ waiting rest, state.queue = waiting :: rest ∧
        next = { state with
          queue := rest
          jobs := state.jobs ++ [waiting]
          running := state.running.erase call
          log := .admitted waiting :: .finished call outcome ::
            state.log }) := by
  cases label with
  | execute =>
      simp only [step, Option.some.injEq] at hstep
      subst next
      unfold State.execute State.acquireSlot
      by_cases hslot : (state.active : ℕ∞) < state.maxConcurrent
      · left
        rw [if_pos hslot]
        exact ⟨hslot, rfl⟩
      · right
        rw [if_neg hslot]
        have hbusy := not_lt.mp hslot
        by_cases hroom : state.maxQueue ≤ (state.queue.length : ℕ∞)
        · left
          rw [if_pos hroom]
          exact ⟨hbusy, hroom, rfl⟩
        · right
          left
          rw [if_neg hroom]
          exact ⟨hbusy, not_le.mp hroom, rfl⟩
  | runJob =>
      right
      right
      right
      left
      cases hjobs : state.jobs with
      | nil => simp [step, hjobs] at hstep
      | cons call rest =>
          simp only [step, hjobs, Option.some.injEq] at hstep
          exact ⟨call, rest, rfl, hstep.symm⟩
  | fnSettles call outcome =>
      simp only [step, Option.ite_none_right_eq_some,
        Option.some.injEq] at hstep
      obtain ⟨hrunning, rfl⟩ := hstep
      right
      right
      right
      right
      refine ⟨call, outcome, hrunning, ?_⟩
      unfold State.fnSettles State.releaseSlot
      cases hqueue : state.queue with
      | nil =>
          left
          exact ⟨rfl, rfl⟩
      | cons waiting rest =>
          right
          exact ⟨waiting, rest, rfl, rfl⟩

/-! ## What the log says -/

namespace Effect

@[simp] def acceptedCall : Effect V Err → Option ℕ
  | .accepted call => some call
  | _ => none

@[simp] def rejectedCall : Effect V Err → Option ℕ
  | .rejected call _ => some call
  | _ => none

@[simp] def admittedCall : Effect V Err → Option ℕ
  | .admitted call => some call
  | _ => none

@[simp] def startedCall : Effect V Err → Option ℕ
  | .started call => some call
  | _ => none

@[simp] def finishedCall : Effect V Err → Option ℕ
  | .finished call _ => some call
  | _ => none

end Effect

/-- The calls that the log has an effect of this kind for, oldest first. -/
def callsWith (kind : Effect V Err → Option ℕ) (log : List (Effect V Err)) :
    List ℕ :=
  (log.filterMap kind).reverse

@[simp] theorem callsWith_nil (kind : Effect V Err → Option ℕ) :
    callsWith kind [] = [] := rfl

@[simp] theorem callsWith_cons (kind : Effect V Err → Option ℕ)
    (effect : Effect V Err) (log : List (Effect V Err)) :
    callsWith kind (effect :: log) =
      callsWith kind log ++ (kind effect).toList := by
  cases hkind : kind effect <;> simp [callsWith, hkind]

abbrev acceptedCalls (log : List (Effect V Err)) : List ℕ :=
  callsWith Effect.acceptedCall log

abbrev rejectedCalls (log : List (Effect V Err)) : List ℕ :=
  callsWith Effect.rejectedCall log

/-- The calls that have been given a slot. -/
abbrev admittedCalls (log : List (Effect V Err)) : List ℕ :=
  callsWith Effect.admittedCall log

/-- The calls whose function has been run. -/
abbrev startedCalls (log : List (Effect V Err)) : List ℕ :=
  callsWith Effect.startedCall log

abbrev finishedCalls (log : List (Effect V Err)) : List ℕ :=
  callsWith Effect.finishedCall log

/-- The calls that have a slot and have not finished. -/
def unfinishedCalls (log : List (Effect V Err)) : List ℕ :=
  (admittedCalls log).filter fun call => call ∉ finishedCalls log

/-! ## Slots -/

/-- The counter counts the calls with a slot, and calls wait only while every
slot is taken. -/
structure SlotInvariant (maxConcurrent maxQueue : ℕ∞)
    (state : State V Err) : Prop where
  slots : state.maxConcurrent = maxConcurrent
  room : state.maxQueue = maxQueue
  active : state.active = state.jobs.length + state.running.length
  active_le : (state.active : ℕ∞) ≤ maxConcurrent
  queue_le : (state.queue.length : ℕ∞) ≤ maxQueue
  full : state.queue ≠ [] → (state.active : ℕ∞) = maxConcurrent

theorem slotInvariant_initial (maxConcurrent maxQueue : ℕ∞) :
    SlotInvariant maxConcurrent maxQueue
      (State.initial maxConcurrent maxQueue : State V Err) := by
  constructor <;> simp [State.initial]

theorem SlotInvariant.step {maxConcurrent maxQueue : ℕ∞}
    (hinv : SlotInvariant maxConcurrent maxQueue state)
    {label : Label V Err}
    (hstep : Bulkhead.step state label = some next) :
    SlotInvariant maxConcurrent maxQueue next := by
  obtain ⟨hslots, hroom, hactive, hactiveLe, hqueueLe, hfull⟩ := hinv
  subst hslots hroom
  rcases step_cases hstep with ⟨hfree, rfl⟩ | ⟨-, -, rfl⟩ |
    ⟨hbusy, hwaits, rfl⟩ | ⟨call, rest, hjobs, rfl⟩ |
    ⟨call, outcome, hrunning, ⟨hqueue, rfl⟩ | ⟨waiting, rest, hqueue, rfl⟩⟩
  · constructor
    · exact rfl
    · exact rfl
    · simp only [List.length_append, List.length_singleton]
      omega
    · exact Order.add_one_le_of_lt hfree
    · exact hqueueLe
    · intro hwaiting
      exact absurd (hfull hwaiting) hfree.ne
  · exact ⟨rfl, rfl, hactive, hactiveLe, hqueueLe, hfull⟩
  · constructor
    · exact rfl
    · exact rfl
    · exact hactive
    · exact hactiveLe
    · rw [List.length_append, List.length_singleton]
      exact Order.add_one_le_of_lt hwaits
    · intro _
      exact le_antisymm hactiveLe hbusy
  · refine ⟨rfl, rfl, ?_, hactiveLe, hqueueLe, hfull⟩
    rw [hjobs, List.length_cons] at hactive
    simp only [State.start, List.length_append, List.length_singleton]
    omega
  · have hlength := List.length_erase_of_mem hrunning
    have hpos := List.length_pos_of_mem hrunning
    constructor
    · exact rfl
    · exact rfl
    · simp only [hlength]
      omega
    · apply le_trans _ hactiveLe
      exact_mod_cast Nat.sub_le _ _
    · exact hqueueLe
    · intro hwaiting
      exact absurd hqueue hwaiting
  · have hlength := List.length_erase_of_mem hrunning
    have hpos := List.length_pos_of_mem hrunning
    rw [hqueue] at hqueueLe
    constructor
    · exact rfl
    · exact rfl
    · simp only [List.length_append, List.length_singleton, hlength]
      omega
    · exact hactiveLe
    · apply le_trans _ hqueueLe
      exact_mod_cast Nat.le_succ _
    · intro _
      apply hfull
      simp [hqueue]

/-! ## The order of the calls -/

/-- Every call that is not rejected is, in the order of arrival, one whose
function has been run, one that is about to run it, or one that waits. -/
structure OrderInvariant (state : State V Err) : Prop where
  admitted : admittedCalls state.log = startedCalls state.log ++ state.jobs
  accepted : acceptedCalls state.log =
    admittedCalls state.log ++ state.queue
  started : (startedCalls state.log).Perm
    (finishedCalls state.log ++ state.running)
  sorted : (acceptedCalls state.log).Pairwise (· < ·)
  begun : ∀ call, call < state.begun ↔
    call ∈ acceptedCalls state.log ∨ call ∈ rejectedCalls state.log

theorem orderInvariant_initial (maxConcurrent maxQueue : ℕ∞) :
    OrderInvariant
      (State.initial maxConcurrent maxQueue : State V Err) := by
  constructor <;>
    simp [State.initial, admittedCalls, startedCalls, acceptedCalls,
      finishedCalls, rejectedCalls]

/-- A call that arrives comes behind all the others. -/
theorem OrderInvariant.sorted_append (hinv : OrderInvariant state) :
    (acceptedCalls state.log ++ [state.begun]).Pairwise (· < ·) := by
  apply List.pairwise_append.mpr
  refine ⟨hinv.sorted, List.pairwise_singleton _ _, ?_⟩
  intro call hcall other hother
  rw [List.mem_singleton.mp hother]
  exact (hinv.begun call).mpr (.inl hcall)

theorem OrderInvariant.step {maxConcurrent maxQueue : ℕ∞}
    (hinv : OrderInvariant state)
    (hslots : SlotInvariant maxConcurrent maxQueue state)
    {label : Label V Err}
    (hstep : Bulkhead.step state label = some next) :
    OrderInvariant next := by
  have hsorted := hinv.sorted_append
  obtain ⟨hadmitted, haccepted, hstarted, hkept, hbegun⟩ := hinv
  have hnext : ∀ call, call < state.begun + 1 ↔
      (call ∈ acceptedCalls state.log ∨ call ∈ rejectedCalls state.log) ∨
        call = state.begun := by
    intro call
    rw [Nat.lt_succ_iff_lt_or_eq, hbegun call]
  rcases step_cases hstep with ⟨hfree, rfl⟩ | ⟨-, -, rfl⟩ |
    ⟨hbusy, hwaits, rfl⟩ | ⟨call, rest, hjobs, rfl⟩ |
    ⟨call, outcome, hrunning, ⟨hqueue, rfl⟩ | ⟨waiting, rest, hqueue, rfl⟩⟩
  · have hqueue : state.queue = [] := by
      by_contra hwaiting
      have hfull := hslots.full hwaiting
      rw [← hslots.slots] at hfull
      exact hfree.ne hfull
    rw [hqueue, List.append_nil] at haccepted
    constructor
    · simp [hadmitted]
    · simp [haccepted, hqueue]
    · simpa using hstarted
    · simpa using hsorted
    · intro call
      rw [hnext]
      simp
      tauto
  · constructor
    · simpa using hadmitted
    · simpa using haccepted
    · simpa using hstarted
    · simpa using hkept
    · intro call
      rw [hnext]
      simp
      tauto
  · constructor
    · simpa using hadmitted
    · simp [haccepted]
    · simpa using hstarted
    · simpa using hsorted
    · intro call
      rw [hnext]
      simp
      tauto
  · constructor
    · rw [hjobs] at hadmitted
      simp [State.start, hadmitted]
    · simpa [State.start] using haccepted
    · have hmore := hstarted.append_right [call]
      simpa [State.start] using hmore
    · simpa [State.start] using hkept
    · intro other
      simpa [State.start] using hbegun other
  · have herase := hstarted.trans
      ((List.perm_cons_erase hrunning).append_left _)
    constructor
    · simpa using hadmitted
    · simpa using haccepted
    · simpa using herase
    · simpa using hkept
    · intro other
      simpa using hbegun other
  · have herase := hstarted.trans
      ((List.perm_cons_erase hrunning).append_left _)
    rw [hqueue] at haccepted
    constructor
    · simp [hadmitted]
    · simp [haccepted]
    · simpa using herase
    · simpa using hkept
    · intro other
      simpa using hbegun other

/-! ## What follows -/

/-- Every function that was run has settled, and no promise job is left. -/
def State.Quiescent (state : State V Err) : Prop :=
  state.jobs = [] ∧ state.running = []

theorem unfinishedCalls_length (hinv : OrderInvariant state) :
    (unfinishedCalls state.log).length =
      state.jobs.length + state.running.length := by
  have hsorted : (admittedCalls state.log).Nodup := by
    have hkept := hinv.sorted
    rw [hinv.accepted] at hkept
    exact (List.pairwise_append.mp hkept).1.imp fun hlt => hlt.ne
  have hperm : (admittedCalls state.log).Perm
      (finishedCalls state.log ++ (state.running ++ state.jobs)) := by
    rw [hinv.admitted, ← List.append_assoc]
    exact hinv.started.append_right state.jobs
  have hnodup := (hperm.nodup_iff).mp hsorted
  rw [List.nodup_append] at hnodup
  have hfilter := hperm.filter fun call => call ∉ finishedCalls state.log
  rw [List.filter_append] at hfilter
  have hnone : ((finishedCalls state.log).filter fun call =>
      call ∉ finishedCalls state.log) = [] := by
    apply List.filter_eq_nil_iff.mpr
    intro call hcall
    simpa using hcall
  have hall : ((state.running ++ state.jobs).filter fun call =>
      call ∉ finishedCalls state.log) = state.running ++ state.jobs := by
    apply List.filter_eq_self.mpr
    intro call hcall
    simp only [decide_eq_true_eq]
    intro hfinished
    exact hnodup.2.2 call hfinished call hcall rfl
  rw [hnone, hall, List.nil_append] at hfilter
  rw [unfinishedCalls, hfilter.length_eq, List.length_append]
  omega

/-- A call that has arrived last is rejected only when all the slots are taken
and the queue is full. -/
theorem full_of_rejected {maxConcurrent maxQueue : ℕ∞}
    (hslots : SlotInvariant maxConcurrent maxQueue state)
    (horder : OrderInvariant state)
    (hstep : step state .execute = some next)
    (hrejected : state.begun ∈ rejectedCalls next.log) :
    (state.active : ℕ∞) = maxConcurrent ∧
      (state.queue.length : ℕ∞) = maxQueue := by
  have hnew : state.begun ∉ rejectedCalls state.log := by
    intro hmem
    exact lt_irrefl _ ((horder.begun state.begun).mpr (.inr hmem))
  simp only [step, Option.some.injEq] at hstep
  subst next
  unfold State.execute State.acquireSlot at hrejected
  rw [hslots.slots, hslots.room] at hrejected
  by_cases hslot : (state.active : ℕ∞) < maxConcurrent
  · rw [if_pos hslot] at hrejected
    simp only [State.resolveSlot, callsWith_cons] at hrejected
    simp [hnew] at hrejected
  · rw [if_neg hslot] at hrejected
    by_cases hroom : maxQueue ≤ (state.queue.length : ℕ∞)
    · exact ⟨le_antisymm hslots.active_le (not_lt.mp hslot),
        le_antisymm hslots.queue_le hroom⟩
    · rw [if_neg hroom] at hrejected
      simp [hnew] at hrejected

/-- When the bulkhead has come to rest, every call that was not rejected has
run its function. -/
theorem startedCalls_of_quiescent {maxConcurrent maxQueue : ℕ∞}
    (hpos : 1 ≤ maxConcurrent)
    (hslots : SlotInvariant maxConcurrent maxQueue state)
    (horder : OrderInvariant state) (hquiescent : state.Quiescent) :
    startedCalls state.log = acceptedCalls state.log := by
  obtain ⟨hjobs, hrunning⟩ := hquiescent
  have hactive : state.active = 0 := by
    rw [hslots.active, hjobs, hrunning]
    rfl
  have hqueue : state.queue = [] := by
    by_contra hwaiting
    have hfull := hslots.full hwaiting
    rw [← hfull, hactive] at hpos
    exact absurd hpos (by decide)
  rw [horder.accepted, horder.admitted, hjobs, hqueue, List.append_nil,
    List.append_nil]

/-- However calls arrive, start and settle: the counter counts the calls that
have a slot and have not finished, and stays within `maxConcurrent`; the queue
stays within `maxQueue`, and is empty unless all slots are taken; a call is
rejected only when both are full; the others run their functions in the order
in which they have arrived, each at most once, and once when the bulkhead has
come to rest. -/
theorem bulkhead_keeps_limits {maxConcurrent maxQueue : ℕ∞}
    (hpos : 1 ≤ maxConcurrent) {labels : List (Label V Err)}
    (hrun : exec step (State.initial maxConcurrent maxQueue) labels =
      some state) :
    (unfinishedCalls state.log).length = state.active ∧
    (state.active : ℕ∞) ≤ maxConcurrent ∧
    (state.queue.length : ℕ∞) ≤ maxQueue ∧
    (state.queue ≠ [] → (state.active : ℕ∞) = maxConcurrent) ∧
    (∀ next, step state .execute = some next →
      state.begun ∈ rejectedCalls next.log →
        (state.active : ℕ∞) = maxConcurrent ∧
          (state.queue.length : ℕ∞) = maxQueue) ∧
    startedCalls state.log <+: acceptedCalls state.log ∧
    (acceptedCalls state.log).Pairwise (· < ·) ∧
    ∀ call < state.begun, call ∉ rejectedCalls state.log →
      (startedCalls state.log).count call ≤ 1 ∧
      (state.Quiescent → (startedCalls state.log).count call = 1) := by
  have hinv : SlotInvariant maxConcurrent maxQueue state ∧
      OrderInvariant state :=
    exec_invariant
      (I := fun state => SlotInvariant maxConcurrent maxQueue state ∧
        OrderInvariant state)
      (fun _ _ _ hinv hstep =>
        ⟨hinv.1.step hstep, hinv.2.step hinv.1 hstep⟩)
      ⟨slotInvariant_initial maxConcurrent maxQueue,
        orderInvariant_initial maxConcurrent maxQueue⟩ hrun
  obtain ⟨hslots, horder⟩ := hinv
  have hinitial : startedCalls state.log <+: acceptedCalls state.log := by
    rw [horder.accepted, horder.admitted, List.append_assoc]
    exact List.prefix_append _ _
  have hnodup : (acceptedCalls state.log).Nodup :=
    horder.sorted.imp fun hlt => hlt.ne
  refine ⟨?_, hslots.active_le, hslots.queue_le, hslots.full,
    fun next hstep hrejected => full_of_rejected hslots horder hstep hrejected,
    hinitial, horder.sorted, fun call hcall hkept => ⟨?_, fun hrest => ?_⟩⟩
  · rw [unfinishedCalls_length horder, hslots.active]
  · exact List.nodup_iff_count_le_one.mp
      (hinitial.sublist.nodup hnodup) call
  · have haccepted : call ∈ acceptedCalls state.log :=
      ((horder.begun call).mp hcall).resolve_right hkept
    rw [startedCalls_of_quiescent hpos hslots horder hrest]
    exact List.count_eq_one_of_mem hnodup haccepted

/-- One slot and one place in the queue: the second call waits and the third
one is rejected. -/
def threeCalls : List (Label ℕ String) :=
  [.execute, .execute, .execute, .runJob, .fnSettles 0 (.error "down"),
    .runJob, .fnSettles 1 (.ok 7)]

theorem bulkhead_keeps_limits_threeCalls :
    ∃ state, exec step (State.initial 1 1) threeCalls = some state ∧
      startedCalls state.log = [0, 1] ∧
      rejectedCalls state.log = [2] ∧
      (startedCalls state.log).count 1 = 1 := by
  have hends : (exec step (State.initial 1 1) threeCalls).map (fun state =>
      (startedCalls state.log, rejectedCalls state.log, state.begun,
        state.jobs, state.running)) = some ([0, 1], [2], 3, [], []) := by
    decide +kernel
  obtain ⟨state, hrun, hfacts⟩ := Option.map_eq_some_iff.mp hends
  simp only [Prod.mk.injEq] at hfacts
  obtain ⟨hstarted, hrejected, hbegun, hjobs, hrunning⟩ := hfacts
  refine ⟨state, hrun, hstarted, hrejected, ?_⟩
  have honce := (bulkhead_keeps_limits le_rfl hrun).2.2.2.2.2.2.2 1
    (by rw [hbegun]; decide) (by rw [hrejected]; decide)
  exact honce.2 ⟨hjobs, hrunning⟩

end TsCommons.Resilience.Bulkhead
