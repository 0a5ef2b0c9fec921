import TsCommons.Foundations.Execution
import Mathlib.Data.ENat.Basic

/-!
# The backpressure queue

Every item that has been enqueued has been dequeued, drained or dropped, or is
still in the queue, and the items leave in the order in which they have
arrived.  A queue without room for a single item that evicts its oldest one
for a new one counts an eviction of nothing and is over its bound.
-/

namespace TsCommons.Streams

open Foundations

inductive BackpressureStrategy
  | dropNewest
  | dropOldest
  | buffer
deriving DecidableEq

structure BackpressureQueue (T : Type) where
  items : List T
  maxSize : ℕ∞
  strategy : BackpressureStrategy
  droppedCount : ℕ
deriving DecidableEq

namespace BackpressureQueue

variable {T : Type}

def new (maxSize : ℕ∞) (strategy : BackpressureStrategy) :
    BackpressureQueue T :=
  ⟨[], maxSize, strategy, 0⟩

def applyPressure (queue : BackpressureQueue T) (item : T) :
    BackpressureQueue T :=
  if queue.strategy = .dropNewest then
    { queue with droppedCount := queue.droppedCount + 1 }
  else
    { queue with
      items := queue.items.tail ++ [item]
      droppedCount := queue.droppedCount + 1 }

def enqueue (queue : BackpressureQueue T) (item : T) : BackpressureQueue T :=
  if queue.strategy = .buffer then
    { queue with items := queue.items ++ [item] }
  else if queue.items.length < queue.maxSize then
    { queue with items := queue.items ++ [item] }
  else queue.applyPressure item

def dequeue (queue : BackpressureQueue T) :
    Option T × BackpressureQueue T :=
  (queue.items.head?, { queue with items := queue.items.tail })

def drain (queue : BackpressureQueue T) : List T × BackpressureQueue T :=
  (queue.items, { queue with items := [] })

def size (queue : BackpressureQueue T) : ℕ := queue.items.length

def isFull (queue : BackpressureQueue T) : Bool :=
  queue.strategy ≠ .buffer && queue.maxSize ≤ queue.items.length

/-! ## Runs -/

inductive Call (T : Type)
  | enqueue (item : T)
  | dequeue
  | drain
deriving DecidableEq

def Call.isEnqueue : Call T → Bool
  | .enqueue _ => true
  | .dequeue => false
  | .drain => false

/-- A queue, with the items that have been enqueued, those that `dequeue` and
`drain` have returned, and how many each of the two has returned. -/
structure State (T : Type) where
  queue : BackpressureQueue T
  arrived : List T
  departed : List T
  dequeued : ℕ
  drained : ℕ
deriving DecidableEq

def State.initial (maxSize : ℕ∞) (strategy : BackpressureStrategy) :
    State T :=
  ⟨new maxSize strategy, [], [], 0, 0⟩

def next (state : State T) : Call T → State T
  | .enqueue item =>
      { state with
        queue := state.queue.enqueue item
        arrived := state.arrived ++ [item] }
  | .dequeue =>
      let (item, queue) := state.queue.dequeue
      { state with
        queue := queue
        departed := state.departed ++ item.toList
        dequeued := state.dequeued + item.toList.length }
  | .drain =>
      let (items, queue) := state.queue.drain
      { state with
        queue := queue
        departed := state.departed ++ items
        drained := state.drained + items.length }

def step (state : State T) (call : Call T) : Option (State T) :=
  some (next state call)

/-- Nothing is lost but what is counted as dropped, a queue that drops is
within its bound, and the items that have left it and those in it stand in the
order of their arrival. -/
structure Law (state : State T) : Prop where
  conserved : state.arrived.length =
    state.dequeued + state.drained + state.queue.droppedCount +
      state.queue.size
  bounded : state.queue.strategy ≠ .buffer →
    (state.queue.size : ℕ∞) ≤ state.queue.maxSize
  ordered : (state.departed ++ state.queue.items).Sublist state.arrived

/-- An item is dropped only for an item that arrives at a full queue: the
latter, or the one that has been in the queue longest. -/
def Drops (queue after : BackpressureQueue T) : Call T → Prop
  | .enqueue item =>
      if queue.isFull then
        after.droppedCount = queue.droppedCount + 1 ∧
          match queue.strategy with
          | .dropNewest => after.items = queue.items
          | .dropOldest => ∃ oldest rest,
              queue.items = oldest :: rest ∧ after.items = rest ++ [item]
          | .buffer => False
      else
        after.droppedCount = queue.droppedCount ∧
          after.items = queue.items ++ [item]
  | .dequeue => after.droppedCount = queue.droppedCount
  | .drain => after.droppedCount = queue.droppedCount

def Sound (state : State T) (call : Call T) : Prop :=
  Law (next state call) ∧ Drops state.queue (next state call).queue call

/-- Nothing arrives at a queue that evicts its oldest item and has no room for
any. -/
def RoomFor (maxSize : ℕ∞) (strategy : BackpressureStrategy)
    (call : Call T) : Prop :=
  strategy = .dropOldest → maxSize = 0 → call.isEnqueue = false

variable {queue : BackpressureQueue T} {state : State T} {call : Call T}
  {item : T} {maxSize : ℕ∞} {strategy : BackpressureStrategy}

theorem isFull_iff :
    queue.isFull = true ↔
      queue.strategy ≠ .buffer ∧ queue.maxSize ≤ queue.items.length := by
  simp [isFull]

theorem enqueue_of_not_isFull (hroom : queue.isFull = false) :
    queue.enqueue item = { queue with items := queue.items ++ [item] } := by
  rw [enqueue]
  split
  · rfl
  · rename_i hstrategy
    have hlt : (queue.items.length : ℕ∞) < queue.maxSize := by
      by_contra hge
      rw [isFull_iff.mpr ⟨hstrategy, not_lt.mp hge⟩] at hroom
      cases hroom
    rw [if_pos hlt]

theorem enqueue_of_isFull (hfull : queue.isFull = true) :
    queue.enqueue item = queue.applyPressure item := by
  obtain ⟨hstrategy, hle⟩ := isFull_iff.mp hfull
  rw [enqueue, if_neg hstrategy, if_neg (not_lt.mpr hle)]

/-- A full queue that evicts its oldest item has one unless it has no room for
any. -/
theorem exists_oldest (hfull : queue.isFull = true)
    (hmax : queue.maxSize ≠ 0) :
    ∃ oldest rest, queue.items = oldest :: rest := by
  cases hitems : queue.items with
  | nil =>
      have hle := (isFull_iff.mp hfull).2
      rw [hitems, List.length_nil, Nat.cast_zero, nonpos_iff_eq_zero] at hle
      exact absurd hle hmax
  | cons oldest rest => exact ⟨oldest, rest, rfl⟩

theorem strategy_enqueue : (queue.enqueue item).strategy = queue.strategy := by
  unfold enqueue applyPressure
  split_ifs <;> rfl

theorem maxSize_enqueue : (queue.enqueue item).maxSize = queue.maxSize := by
  unfold enqueue applyPressure
  split_ifs <;> rfl

theorem applyPressure_newest (hstrategy : queue.strategy = .dropNewest) :
    queue.applyPressure item =
      { queue with droppedCount := queue.droppedCount + 1 } := by
  rw [applyPressure, if_pos hstrategy]

theorem applyPressure_oldest {oldest : T} {rest : List T}
    (hstrategy : queue.strategy = .dropOldest)
    (hitems : queue.items = oldest :: rest) :
    queue.applyPressure item =
      { queue with
        items := rest ++ [item]
        droppedCount := queue.droppedCount + 1 } := by
  rw [applyPressure, hstrategy, if_neg (by decide), hitems, List.tail_cons]

theorem RoomFor.maxSize_ne_zero
    (hroom : RoomFor maxSize strategy (.enqueue item))
    (hstrategy : strategy = .dropOldest) : maxSize ≠ 0 := by
  intro hzero
  cases hroom hstrategy hzero

theorem drops_next
    (hroom : RoomFor state.queue.maxSize state.queue.strategy call) :
    Drops state.queue (next state call).queue call := by
  cases call with
  | enqueue item =>
      rw [Drops, next]
      split
      · rename_i hfull
        rw [enqueue_of_isFull hfull]
        cases hstrategy : state.queue.strategy with
        | dropNewest =>
            rw [applyPressure_newest hstrategy]
            exact ⟨rfl, rfl⟩
        | dropOldest =>
            obtain ⟨oldest, rest, hitems⟩ :=
              exists_oldest hfull (hroom.maxSize_ne_zero hstrategy)
            rw [applyPressure_oldest hstrategy hitems]
            exact ⟨rfl, oldest, rest, hitems, rfl⟩
        | buffer => exact absurd hstrategy (isFull_iff.mp hfull).1
      · rename_i hnot
        rw [enqueue_of_not_isFull (Bool.not_eq_true _ ▸ hnot)]
        exact ⟨rfl, rfl⟩
  | dequeue => rfl
  | drain => rfl

/-- What an `enqueue` that drops as it should leaves in the queue. -/
theorem Drops.items
    (hdrops : Drops queue (queue.enqueue item) (.enqueue item)) :
    (queue.enqueue item).size + (queue.enqueue item).droppedCount =
        queue.size + queue.droppedCount + 1 ∧
      (queue.enqueue item).items.Sublist (queue.items ++ [item]) ∧
      ((queue.enqueue item).size = queue.size ∨ queue.isFull = false) := by
  rw [Drops] at hdrops
  split at hdrops
  · rename_i hfull
    obtain ⟨hcount, hitems⟩ := hdrops
    cases hstrategy : queue.strategy with
    | dropNewest =>
        rw [hstrategy] at hitems
        rw [size, size, hitems, hcount]
        exact ⟨(Nat.add_assoc _ _ _).symm, List.sublist_append_left _ _,
          .inl rfl⟩
    | dropOldest =>
        rw [hstrategy] at hitems
        obtain ⟨oldest, rest, hbefore, hafter⟩ := hitems
        rw [size, size, hafter, hbefore, hcount]
        refine ⟨?_, List.sublist_cons_self _ _, .inl ?_⟩
        · rw [List.length_append, List.length_singleton, List.length_cons]
          omega
        · rw [List.length_append, List.length_singleton, List.length_cons]
    | buffer => exact absurd hstrategy (isFull_iff.mp hfull).1
  · rename_i hnot
    obtain ⟨hcount, hitems⟩ := hdrops
    rw [size, size, hitems, hcount, List.length_append,
      List.length_singleton]
    exact ⟨by omega, List.Sublist.refl _, .inr (Bool.not_eq_true _ ▸ hnot)⟩

theorem Law.enqueue (hlaw : Law state)
    (hdrops : Drops state.queue (state.queue.enqueue item)
      (.enqueue item)) :
    Law (BackpressureQueue.next state (.enqueue item)) := by
  obtain ⟨hconserved, hbounded, hordered⟩ := hlaw
  obtain ⟨hcount, hitems, hsize⟩ := hdrops.items
  constructor
  · change (state.arrived ++ [item]).length = state.dequeued + state.drained +
      (state.queue.enqueue item).droppedCount +
        (state.queue.enqueue item).size
    rw [List.length_append, List.length_singleton]
    omega
  · change (state.queue.enqueue item).strategy ≠ .buffer →
      ((state.queue.enqueue item).size : ℕ∞) ≤
        (state.queue.enqueue item).maxSize
    rw [strategy_enqueue, maxSize_enqueue]
    intro hstrategy
    rcases hsize with hsame | hroom
    · rw [hsame]
      exact hbounded hstrategy
    · have hlt : (state.queue.items.length : ℕ∞) < state.queue.maxSize := by
        by_contra hge
        rw [isFull_iff.mpr ⟨hstrategy, not_lt.mp hge⟩] at hroom
        cases hroom
      rw [enqueue_of_not_isFull hroom, size, List.length_append,
        List.length_singleton]
      exact_mod_cast Order.add_one_le_of_lt hlt
  · change (state.departed ++ (state.queue.enqueue item).items).Sublist
      (state.arrived ++ [item])
    refine (hitems.append_left state.departed).trans ?_
    rw [← List.append_assoc]
    exact hordered.append (List.Sublist.refl _)

theorem Law.dequeue (hlaw : Law state) :
    Law (BackpressureQueue.next state .dequeue) := by
  have hconserved := hlaw.conserved
  have hbounded := hlaw.bounded
  have hordered := hlaw.ordered
  rw [size] at hconserved hbounded
  cases hitems : state.queue.items with
  | nil =>
      have hqueue : state.queue.dequeue = (none, state.queue) := by
        rw [BackpressureQueue.dequeue, hitems, List.head?_nil,
          List.tail_nil, ← hitems]
      have hsame : BackpressureQueue.next state .dequeue = state := by
        simp [BackpressureQueue.next, hqueue]
      rw [hsame]
      exact hlaw
  | cons first rest =>
      rw [hitems, List.length_cons] at hconserved hbounded
      rw [hitems] at hordered
      constructor
      · simp only [BackpressureQueue.next, BackpressureQueue.dequeue, size,
          hitems, List.head?_cons, Option.toList_some, List.length_singleton,
          List.tail_cons]
        omega
      · intro hstrategy
        refine le_trans ?_ (hbounded hstrategy)
        simp [BackpressureQueue.next, BackpressureQueue.dequeue, size, hitems]
      · simpa [BackpressureQueue.next, BackpressureQueue.dequeue, hitems]
          using hordered

theorem Law.drain (hlaw : Law state) :
    Law (BackpressureQueue.next state .drain) := by
  obtain ⟨hconserved, hbounded, hordered⟩ := hlaw
  rw [size] at hconserved
  constructor
  · simp only [BackpressureQueue.next, BackpressureQueue.drain, size,
      List.length_nil]
    omega
  · intro _
    exact zero_le
  · simpa [BackpressureQueue.next, BackpressureQueue.drain] using hordered

theorem sound_of_roomFor (hlaw : Law state)
    (hroom : RoomFor state.queue.maxSize state.queue.strategy call) :
    Sound state call := by
  have hdrops := drops_next hroom
  refine ⟨?_, hdrops⟩
  cases call with
  | enqueue item => exact hlaw.enqueue hdrops
  | dequeue => exact hlaw.dequeue
  | drain => exact hlaw.drain

/-- The item that arrives is in the queue although the queue has no room. -/
theorem not_sound_of_not_roomFor
    (hroom : ¬ RoomFor state.queue.maxSize state.queue.strategy call) :
    ¬ Sound state call := by
  rw [RoomFor, Classical.not_imp, Classical.not_imp] at hroom
  obtain ⟨hstrategy, hmax, henqueue⟩ := hroom
  cases call with
  | enqueue item =>
      intro hsound
      have hbounded := hsound.1.bounded
      have hfull : state.queue.isFull = true := by
        rw [isFull_iff, hstrategy, hmax]
        exact ⟨by decide, zero_le⟩
      rw [next, strategy_enqueue, maxSize_enqueue, hstrategy, hmax,
        nonpos_iff_eq_zero, Nat.cast_eq_zero, enqueue_of_isFull hfull,
        applyPressure, hstrategy, if_neg (by decide), size,
        List.length_append] at hbounded
      exact Nat.succ_ne_zero _ (hbounded (by decide))
  | dequeue => exact absurd rfl henqueue
  | drain => exact absurd rfl henqueue

/-- A queue of a run, with its law. -/
structure Invariant (maxSize : ℕ∞) (strategy : BackpressureStrategy)
    (state : State T) : Prop where
  law : Law state
  maxSize_eq : state.queue.maxSize = maxSize
  strategy_eq : state.queue.strategy = strategy

theorem Invariant.initial :
    Invariant maxSize strategy (State.initial maxSize strategy : State T) :=
  ⟨⟨rfl, fun _ => zero_le, List.Sublist.refl _⟩, rfl, rfl⟩

theorem Invariant.next (hinv : Invariant maxSize strategy state)
    (hsound : Sound state call) :
    Invariant maxSize strategy (next state call) := by
  obtain ⟨-, hmax, hstrategy⟩ := hinv
  refine ⟨hsound.1, ?_, ?_⟩
  · cases call with
    | enqueue item => exact maxSize_enqueue.trans hmax
    | dequeue => exact hmax
    | drain => exact hmax
  · cases call with
    | enqueue item => exact strategy_enqueue.trans hstrategy
    | dequeue => exact hstrategy
    | drain => exact hstrategy

/-- A run is sound unless it enqueues into a queue that evicts its oldest item
and has no room for any. -/
theorem sound_iff (maxSize : ℕ∞) (strategy : BackpressureStrategy)
    (calls : List (Call T)) :
    StepsMeet step Sound (State.initial maxSize strategy) calls ↔
      ∀ call ∈ calls, RoomFor maxSize strategy call := by
  have hiff : ∀ (state : State T) call, Invariant maxSize strategy state →
      (Sound state call ↔ RoomFor maxSize strategy call) := by
    rintro state call ⟨hlaw, rfl, rfl⟩
    refine ⟨?_, sound_of_roomFor hlaw⟩
    intro hsound
    by_contra hroom
    exact not_sound_of_not_roomFor hroom hsound
  have hkeeps : ∀ (state : State T) call after,
      Invariant maxSize strategy state → Sound state call →
      step state call = some after → Invariant maxSize strategy after := by
    intro state call after hinv hsound hstep
    rw [← Option.some.inj hstep]
    exact hinv.next hsound
  constructor
  · intro hmeet call hcall
    have hrun := exec_eq_foldl
      (fun _ _ => rfl : ∀ state call, step state call = _)
      (State.initial maxSize strategy) calls
    obtain ⟨before, after, middle, _, rfl, hbefore, -, -⟩ :=
      exec_split_of_mem hrun hcall
    have hinv := exec_invariant_of_stepsMeet hkeeps Invariant.initial
      hmeet.append_left hbefore
    exact (hiff middle call hinv).mp (hmeet.head_of_append hbefore)
  · intro hroom
    refine StepsMeet.of_invariant ?_ ?_ Invariant.initial
      (StepsMeet.of_forall_mem fun call hcall _ => hroom call hcall)
    · intro state call after hinv hcall hstep
      exact hkeeps state call after hinv ((hiff state call hinv).mpr hcall)
        hstep
    · intro state call hinv hcall
      exact (hiff state call hinv).mpr hcall

theorem not_sound_example :
    ¬ StepsMeet step Sound (State.initial 0 .dropOldest)
      [Call.enqueue 1] := by
  intro hmeet
  have hconserved := hmeet.1.1.conserved
  revert hconserved
  decide

end BackpressureQueue

end TsCommons.Streams
