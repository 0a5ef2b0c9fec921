import TsCommons.Foundations.MapData
import Mathlib.Data.Rat.Floor
import Mathlib.Data.Prod.Lex
import Mathlib.Data.List.Infix
import Mathlib.Data.List.Nodup
import Mathlib.Logic.Function.Iterate
import Mathlib.Order.WellFounded

/-!
# The process timeout scheduler

A tick fires the pending timeouts that are due in a loop over the map of the
timeouts itself, while the callbacks schedule and cancel.  A timeout that a
callback schedules comes to stand ahead of the loop, which fires it in the
same tick if it is due already.
-/

namespace TsCommons.ProcessManager

open Foundations

variable {C : Type}

/-- A date keeps the whole milliseconds. -/
def dateOf (time : ℚ) : ℤ := if 0 ≤ time then ⌊time⌋ else ⌈time⌉

structure TimeoutEntry (C : Type) where
  processId : String
  fireAt : ℤ
  callback : C
deriving DecidableEq

structure ProcessTimeoutScheduler (C : Type) where
  pending : MapData String (TimeoutEntry C)

/-- The calls that a callback makes; the clock reads `now`. -/
inductive SchedulerCall (C : Type)
  | schedule (processId : String) (delayMs : ℚ) (now : ℤ) (callback : C)
  | cancel (processId : String)
deriving DecidableEq

inductive TickEvent (C : Type)
  | fired (processId : String) (entry : TimeoutEntry C)
  | called (call : SchedulerCall C)
deriving DecidableEq

namespace ProcessTimeoutScheduler

def new : ProcessTimeoutScheduler C := ⟨.empty⟩

def schedule (scheduler : ProcessTimeoutScheduler C) (processId : String)
    (delayMs : ℚ) (now : ℤ) (callback : C) : ProcessTimeoutScheduler C :=
  ⟨scheduler.pending.set processId
    ⟨processId, dateOf (now + delayMs), callback⟩⟩

def cancel (scheduler : ProcessTimeoutScheduler C) (processId : String) :
    ProcessTimeoutScheduler C :=
  ⟨scheduler.pending.delete processId⟩

def perform (scheduler : ProcessTimeoutScheduler C) :
    SchedulerCall C → ProcessTimeoutScheduler C
  | .schedule processId delayMs now callback =>
      scheduler.schedule processId delayMs now callback
  | .cancel processId => scheduler.cancel processId

end ProcessTimeoutScheduler

/-- The loop of a tick goes on from a cursor until it has ended. -/
structure Tick (C : Type) where
  scheduler : ProcessTimeoutScheduler C
  cursor : ℕ
  ended : Bool
  log : List (TickEvent C)

namespace Tick

def start (scheduler : ProcessTimeoutScheduler C) : Tick C :=
  ⟨scheduler, 0, false, []⟩

def call (tick : Tick C) (call : SchedulerCall C) : Tick C :=
  { tick with
    scheduler := tick.scheduler.perform call
    log := tick.log ++ [.called call] }

def fire (tick : Tick C) (processId : String) (entry : TimeoutEntry C) :
    Tick C :=
  { tick with
    scheduler := tick.scheduler.cancel processId
    log := tick.log ++ [.fired processId entry] }

/-- The calls of a callback depend on all that has happened in the tick. -/
def round (behaviour : List (TickEvent C) → C → List (SchedulerCall C))
    (now : ℤ) (tick : Tick C) : Tick C :=
  if tick.ended then tick
  else
    match tick.scheduler.pending.next tick.cursor with
    | none => { tick with ended := true }
    | some ((id, entry), later) =>
        let moved := { tick with cursor := later }
        if entry.fireAt ≤ now then
          let fired := moved.fire id entry
          (behaviour fired.log entry.callback).foldl Tick.call fired
        else moved

/-- The loop after so many rounds. -/
def after (behaviour : List (TickEvent C) → C → List (SchedulerCall C))
    (now : ℤ) (scheduler : ProcessTimeoutScheduler C) (rounds : ℕ) :
    Tick C :=
  (round behaviour now)^[rounds] (start scheduler)

end Tick

/-! ## What a tick is to do -/

namespace TickEvent

def processId : TickEvent C → String
  | fired processId _ => processId
  | called (.schedule processId _ _ _) => processId
  | called (.cancel processId) => processId

def firedId : TickEvent C → Option String
  | fired processId _ => some processId
  | called _ => none

@[simp] theorem firedId_fired (processId : String) (entry : TimeoutEntry C) :
    (fired processId entry).firedId = some processId := rfl

@[simp] theorem firedId_called (call : SchedulerCall C) :
    (called call).firedId = none := rfl

/-- What an event leaves pending for its process. -/
def leaves : TickEvent C → Option (TimeoutEntry C)
  | fired _ _ => none
  | called (.schedule processId delayMs now callback) =>
      some ⟨processId, dateOf (now + delayMs), callback⟩
  | called (.cancel _) => none

end TickEvent

/-- The last event of a process. -/
def lastEvent (log : List (TickEvent C)) (id : String) :
    Option (TickEvent C) :=
  (log.filter fun event => event.processId = id).getLast?

/-- Only timeouts that were due at the beginning fire, each once, and after no
other event of their processes.  What is pending is what the calls of the
callbacks have left, or what has been pending and has not fired. -/
structure TickLaw (scheduler : ProcessTimeoutScheduler C) (now : ℤ)
    (tick : Tick C) : Prop where
  due : ∀ id entry, .fired id entry ∈ tick.log →
    scheduler.pending.get id = some entry ∧ entry.fireAt ≤ now
  once : (tick.log.filterMap TickEvent.firedId).Nodup
  first : tick.log.Pairwise fun earlier later =>
    later.firedId.isSome = true → earlier.processId ≠ later.processId
  pending_eq : ∀ id, tick.scheduler.pending.get id =
    match lastEvent (tick.log.filter fun event => event.firedId = none) id with
    | some event => event.leaves
    | none =>
        if some id ∈ tick.log.map TickEvent.firedId then none
        else scheduler.pending.get id

/-- The loop comes to a timeout that is due and has been scheduled in the same
tick. -/
def ComesToOwn (now : ℤ) (tick : Tick C) : Prop :=
  tick.ended = false ∧ ∃ id entry later,
    tick.scheduler.pending.next tick.cursor = some ((id, entry), later) ∧
      entry.fireAt ≤ now ∧
      ∃ delayMs clock callback,
        .called (.schedule id delayMs clock callback) ∈ tick.log

variable {behaviour : List (TickEvent C) → C → List (SchedulerCall C)}
  {now : ℤ} {scheduler : ProcessTimeoutScheduler C} {tick : Tick C}
  {id : String} {entry : TimeoutEntry C} {later rounds : ℕ}

theorem lastEvent_concat (log : List (TickEvent C)) (event : TickEvent C)
    (id : String) :
    lastEvent (log ++ [event]) id =
      if event.processId = id then some event else lastEvent log id := by
  rw [lastEvent, lastEvent, List.filter_append]
  by_cases hown : event.processId = id
  · rw [if_pos hown, List.filter_singleton, decide_eq_true hown, cond_true,
      List.getLast?_concat]
  · rw [if_neg hown, List.filter_singleton, decide_eq_false hown, cond_false,
      List.append_nil]

theorem lastEvent_mem {log : List (TickEvent C)} {event : TickEvent C}
    (hlast : lastEvent log id = some event) :
    event ∈ log ∧ event.processId = id := by
  have hmem := List.mem_of_getLast? hlast
  rw [List.mem_filter, decide_eq_true_eq] at hmem
  exact hmem

theorem processId_ne_of_lastEvent_eq_none {log : List (TickEvent C)}
    {event : TickEvent C} (hlast : lastEvent log id = none)
    (hmem : event ∈ log) : event.processId ≠ id := by
  rw [lastEvent, List.getLast?_eq_none_iff, List.filter_eq_nil_iff] at hlast
  simpa using hlast event hmem

theorem TickEvent.firedId_eq_some {event : TickEvent C}
    (hfired : event.firedId = some id) :
    ∃ entry, event = .fired id entry := by
  cases event with
  | fired processId entry =>
      rw [firedId, Option.some.injEq] at hfired
      exact ⟨entry, by rw [hfired]⟩
  | called call => cases hfired

/-! ## A round of the loop -/

namespace Tick

theorem round_of_ended (hended : tick.ended = true) :
    tick.round behaviour now = tick := if_pos hended

theorem round_cases
    (behaviour : List (TickEvent C) → C → List (SchedulerCall C)) (now : ℤ)
    (hrunning : tick.ended = false) :
    (tick.scheduler.pending.next tick.cursor = none ∧
      tick.round behaviour now = { tick with ended := true }) ∨
    ∃ id entry later,
      tick.scheduler.pending.next tick.cursor = some ((id, entry), later) ∧
      ((now < entry.fireAt ∧
          tick.round behaviour now = { tick with cursor := later }) ∨
        (entry.fireAt ≤ now ∧ tick.round behaviour now =
          (behaviour (tick.fire id entry).log entry.callback).foldl Tick.call
            (fire { tick with cursor := later } id entry))) := by
  have hnot : ¬ tick.ended = true := by
    rw [hrunning]
    exact Bool.false_ne_true
  rw [round, if_neg hnot]
  cases hnext : tick.scheduler.pending.next tick.cursor with
  | none => exact Or.inl ⟨rfl, rfl⟩
  | some found =>
      obtain ⟨⟨id, entry⟩, later⟩ := found
      refine Or.inr ⟨id, entry, later, rfl, ?_⟩
      by_cases hdue : entry.fireAt ≤ now
      · exact Or.inr ⟨hdue, if_pos hdue⟩
      · exact Or.inl ⟨not_le.mp hdue, if_neg hdue⟩

theorem calls_log (calls : List (SchedulerCall C)) (tick : Tick C) :
    (calls.foldl Tick.call tick).log = tick.log ++ calls.map .called := by
  induction calls generalizing tick with
  | nil => exact (List.append_nil tick.log).symm
  | cons call calls ih =>
      rw [List.foldl_cons, ih, List.map_cons, Tick.call,
        List.append_assoc, List.singleton_append]

theorem log_round : tick.log <+: (tick.round behaviour now).log := by
  cases hended : tick.ended with
  | true =>
      rw [round_of_ended hended]
  | false =>
      obtain ⟨-, hround⟩ |
        ⟨id, entry, later, -, ⟨-, hround⟩ | ⟨-, hround⟩⟩ :=
          round_cases behaviour now hended
      · rw [hround]
      · rw [hround]
      · rw [hround, calls_log]
        exact (List.prefix_append _ _).trans (List.prefix_append _ _)

theorem after_succ (rounds : ℕ) :
    after behaviour now scheduler (rounds + 1) =
      (after behaviour now scheduler rounds).round behaviour now :=
  Function.iterate_succ_apply' _ _ _

theorem log_after {fewer more : ℕ} (hle : fewer ≤ more) :
    (after behaviour now scheduler fewer).log <+:
      (after behaviour now scheduler more).log := by
  induction more, hle using Nat.le_induction with
  | base => exact List.prefix_rfl
  | succ rounds _ ih =>
      rw [after_succ]
      exact ih.trans log_round

theorem after_of_ended {fewer more : ℕ} (hle : fewer ≤ more)
    (hended : (after behaviour now scheduler fewer).ended = true) :
    after behaviour now scheduler more =
      after behaviour now scheduler fewer := by
  induction more, hle using Nat.le_induction with
  | base => rfl
  | succ rounds _ ih => rw [after_succ, ih, round_of_ended hended]

end Tick

/-! ## The law of a tick -/

namespace TickLaw

theorem start : TickLaw scheduler now (Tick.start scheduler) where
  due := fun _ _ hmem => absurd hmem List.not_mem_nil
  once := List.nodup_nil
  first := List.Pairwise.nil
  pending_eq := fun _ => rfl

theorem congr {other : Tick C} (hlaw : TickLaw scheduler now tick)
    (hscheduler : other.scheduler = tick.scheduler)
    (hlog : other.log = tick.log) : TickLaw scheduler now other where
  due := by
    rw [hlog]
    exact hlaw.due
  once := by
    rw [hlog]
    exact hlaw.once
  first := by
    rw [hlog]
    exact hlaw.first
  pending_eq := by
    rw [hlog, hscheduler]
    exact hlaw.pending_eq

/-- A call replaces or takes away only what is pending for its process. -/
theorem get_perform (scheduler : ProcessTimeoutScheduler C)
    (call : SchedulerCall C) (id : String) :
    (scheduler.perform call).pending.get id =
      if (TickEvent.called call).processId = id then
        (TickEvent.called call).leaves
      else scheduler.pending.get id := by
  cases call with
  | schedule processId delayMs now callback =>
      rw [ProcessTimeoutScheduler.perform, ProcessTimeoutScheduler.schedule,
        MapData.get_set]
      simp only [TickEvent.processId, TickEvent.leaves, eq_comm]
  | cancel processId =>
      rw [ProcessTimeoutScheduler.perform, ProcessTimeoutScheduler.cancel,
        MapData.get_delete]
      simp only [TickEvent.processId, TickEvent.leaves, eq_comm]

theorem call (hlaw : TickLaw scheduler now tick) (call : SchedulerCall C) :
    TickLaw scheduler now (tick.call call) where
  due := by
    intro id entry hmem
    rw [Tick.call, List.mem_append, List.mem_singleton] at hmem
    exact hlaw.due id entry (hmem.resolve_right (by simp))
  once := by
    rw [Tick.call, List.filterMap_append,
      List.filterMap_cons_none (TickEvent.firedId_called call),
      List.filterMap_nil, List.append_nil]
    exact hlaw.once
  first := by
    rw [Tick.call, List.pairwise_append]
    refine ⟨hlaw.first, List.pairwise_singleton _ _, ?_⟩
    intro earlier _ last hlast hfired
    rw [List.mem_singleton.mp hlast] at hfired
    cases hfired
  pending_eq := by
    intro id
    have hcalls : (tick.log ++ [TickEvent.called call]).filter
        (fun event => event.firedId = none) =
          tick.log.filter (fun event => event.firedId = none) ++
            [.called call] := by
      simp [List.filter_append]
    have hfired : some id ∈ (tick.log ++ [TickEvent.called call]).map
        TickEvent.firedId ↔ some id ∈ tick.log.map TickEvent.firedId := by
      simp
    rw [Tick.call, get_perform, hcalls, lastEvent_concat]
    by_cases hown : (TickEvent.called call).processId = id
    · rw [if_pos hown, if_pos hown]
    · rw [if_neg hown, if_neg hown, hlaw.pending_eq]
      simp only [hfired]

theorem calls (hlaw : TickLaw scheduler now tick)
    (calls : List (SchedulerCall C)) :
    TickLaw scheduler now (calls.foldl Tick.call tick) := by
  induction calls generalizing tick with
  | nil => exact hlaw
  | cons call calls ih => exact ih (hlaw.call call)

/-- A timeout that is pending and has not been scheduled in the tick has been
pending from the beginning, and nothing has happened to its process. -/
theorem untouched (hlaw : TickLaw scheduler now tick)
    (hget : tick.scheduler.pending.get id = some entry)
    (hforeign : ∀ delayMs clock callback,
      .called (.schedule id delayMs clock callback) ∉ tick.log) :
    scheduler.pending.get id = some entry ∧
      ∀ event ∈ tick.log, event.processId ≠ id := by
  rw [hlaw.pending_eq] at hget
  cases hlast : lastEvent
      (tick.log.filter fun event => event.firedId = none) id with
  | some event =>
      rw [hlast] at hget
      obtain ⟨hmem, hown⟩ := lastEvent_mem hlast
      have hlog := (List.mem_filter.mp hmem).1
      cases event with
      | fired processId fired => cases hget
      | called call =>
          cases call with
          | schedule processId delayMs clock callback =>
              rw [TickEvent.processId] at hown
              rw [hown] at hlog
              exact absurd hlog (hforeign delayMs clock callback)
          | cancel processId => cases hget
  | none =>
      rw [hlast] at hget
      by_cases hfired : some id ∈ tick.log.map TickEvent.firedId
      · rw [if_pos hfired] at hget
        cases hget
      · rw [if_neg hfired] at hget
        refine ⟨hget, ?_⟩
        intro event hevent hown
        cases event with
        | fired processId fired =>
            refine hfired (List.mem_map.mpr ⟨_, hevent, ?_⟩)
            rw [TickEvent.processId] at hown
            rw [TickEvent.firedId, hown]
        | called call =>
            refine processId_ne_of_lastEvent_eq_none hlast ?_ hown
            exact List.mem_filter.mpr ⟨hevent, by simp⟩

theorem fire (hlaw : TickLaw scheduler now tick)
    (hget : tick.scheduler.pending.get id = some entry)
    (hdue : entry.fireAt ≤ now)
    (hforeign : ∀ delayMs clock callback,
      .called (.schedule id delayMs clock callback) ∉ tick.log) :
    TickLaw scheduler now (tick.fire id entry) := by
  obtain ⟨hfirst, hnone⟩ := hlaw.untouched hget hforeign
  refine ⟨?_, ?_, ?_, ?_⟩
  · intro other found hmem
    rw [Tick.fire, List.mem_append, List.mem_singleton] at hmem
    obtain hbefore | hnow := hmem
    · exact hlaw.due other found hbefore
    · cases hnow
      exact ⟨hfirst, hdue⟩
  · rw [Tick.fire, List.filterMap_append,
      List.filterMap_cons_some (TickEvent.firedId_fired id entry),
      List.filterMap_nil, List.nodup_append]
    refine ⟨hlaw.once, List.nodup_singleton id, ?_⟩
    intro other hother fired hfired heq
    rw [List.mem_singleton.mp hfired] at heq
    obtain ⟨event, hevent, hid⟩ := List.mem_filterMap.mp hother
    obtain ⟨found, rfl⟩ := TickEvent.firedId_eq_some hid
    exact hnone _ hevent heq
  · rw [Tick.fire, List.pairwise_append]
    refine ⟨hlaw.first, List.pairwise_singleton _ _, ?_⟩
    intro earlier hearlier last hlast _
    rw [List.mem_singleton.mp hlast]
    exact hnone earlier hearlier
  · intro other
    have hcalls : (tick.log ++ [TickEvent.fired id entry]).filter
        (fun event => event.firedId = none) =
          tick.log.filter (fun event => event.firedId = none) := by
      simp [List.filter_append]
    rw [Tick.fire, ProcessTimeoutScheduler.cancel, MapData.get_delete, hcalls]
    by_cases hown : other = id
    · have hlast : lastEvent
          (tick.log.filter fun event => event.firedId = none) id = none := by
        cases hlast : lastEvent
            (tick.log.filter fun event => event.firedId = none) id with
        | none => rfl
        | some event =>
            obtain ⟨hmem, hid⟩ := lastEvent_mem hlast
            exact absurd hid (hnone event (List.mem_filter.mp hmem).1)
      rw [if_pos hown, hown, hlast]
      simp
    · have hfired : some other ∈ (tick.log ++ [TickEvent.fired id entry]).map
          TickEvent.firedId ↔ some other ∈ tick.log.map TickEvent.firedId := by
        simp [hown]
      rw [if_neg hown, hlaw.pending_eq]
      simp only [hfired]

theorem round (hlaw : TickLaw scheduler now tick)
    (hforeign : ¬ ComesToOwn now tick) :
    TickLaw scheduler now (tick.round behaviour now) := by
  cases hended : tick.ended with
  | true =>
      rw [Tick.round_of_ended hended]
      exact hlaw
  | false =>
      obtain ⟨-, hround⟩ | ⟨id, entry, later, hnext, hround⟩ :=
        Tick.round_cases behaviour now hended
      · rw [hround]
        exact hlaw.congr rfl rfl
      · have hmem : (id, entry) ∈
            tick.scheduler.pending.remaining tick.cursor := by
          rw [MapData.remaining_of_next hnext]
          exact List.mem_cons_self
        obtain ⟨-, hround⟩ | ⟨hdue, hround⟩ := hround
        · rw [hround]
          exact hlaw.congr rfl rfl
        · rw [hround]
          have hmoved : TickLaw scheduler now { tick with cursor := later } :=
            hlaw.congr rfl rfl
          refine (hmoved.fire (MapData.get_of_mem_remaining hmem) hdue ?_).calls
            _
          intro delayMs clock callback hown
          exact hforeign ⟨hended, id, entry, later, hnext, hdue, delayMs,
            clock, callback, hown⟩

theorem after (hforeign : ∀ rounds,
    ¬ ComesToOwn now (Tick.after behaviour now scheduler rounds))
    (rounds : ℕ) :
    TickLaw scheduler now (Tick.after behaviour now scheduler rounds) := by
  induction rounds with
  | zero => exact start
  | succ rounds ih =>
      rw [Tick.after_succ]
      exact ih.round (hforeign rounds)

end TickLaw

/-! ## The end of a tick -/

/-- The processes whose timeouts have fired, in this order. -/
def firedIds (log : List (TickEvent C)) : List String :=
  log.filterMap TickEvent.firedId

theorem TickLaw.length_firedIds_le (hlaw : TickLaw scheduler now tick) :
    (firedIds tick.log).length ≤ scheduler.pending.toMap.entries.length := by
  have hsubset : firedIds tick.log ⊆
      scheduler.pending.toMap.entries.map Prod.fst := by
    intro id hid
    obtain ⟨event, hevent, hfired⟩ := List.mem_filterMap.mp hid
    obtain ⟨entry, rfl⟩ := TickEvent.firedId_eq_some hfired
    have hget := (hlaw.due id entry hevent).1
    exact List.mem_map_of_mem (InsertionMap.get_eq_some_iff.mp hget)
  rw [← List.length_map Prod.fst]
  exact (List.subperm_of_subset hlaw.once hsubset).length_le

/-- What the loop has to fire, and then what it has to visit. -/
def Tick.rest (scheduler : ProcessTimeoutScheduler C) (tick : Tick C) :
    ℕ ×ₗ ℕ :=
  toLex (scheduler.pending.toMap.entries.length - (firedIds tick.log).length,
    (tick.scheduler.pending.remaining tick.cursor).length)

theorem firedIds_fire (calls : List (SchedulerCall C)) :
    firedIds (calls.foldl Tick.call (tick.fire id entry)).log =
      firedIds tick.log ++ [id] := by
  have hcalls : firedIds (calls.map TickEvent.called) = [] :=
    List.filterMap_eq_nil_iff.mpr (by simp)
  have hlog := Tick.calls_log calls (tick.fire id entry)
  rw [hlog, firedIds, List.filterMap_append]
  change _ ++ firedIds (calls.map TickEvent.called) = _
  rw [hcalls, List.append_nil, Tick.fire, List.filterMap_append,
    List.filterMap_cons_some (TickEvent.firedId_fired id entry),
    List.filterMap_nil, firedIds]

theorem Tick.rest_round (hrunning : tick.ended = false)
    (hlaw : TickLaw scheduler now (tick.round behaviour now))
    (hgoes : (tick.round behaviour now).ended = false) :
    (tick.round behaviour now).rest scheduler < tick.rest scheduler := by
  obtain ⟨-, hround⟩ | ⟨id, entry, later, hnext, hround⟩ :=
    Tick.round_cases behaviour now hrunning
  · rw [hround] at hgoes
    cases hgoes
  · rw [Tick.rest, Tick.rest, Prod.Lex.toLex_lt_toLex]
    obtain ⟨-, hround⟩ | ⟨-, hround⟩ := hround
    · refine Or.inr ⟨by rw [hround], ?_⟩
      rw [hround, MapData.remaining_of_next hnext, List.length_cons]
      exact Nat.lt_succ_self _
    · refine Or.inl ?_
      have hmost := hlaw.length_firedIds_le
      have hfired : (firedIds (tick.round behaviour now).log).length =
          (firedIds tick.log).length + 1 := by
        rw [hround, firedIds_fire, List.length_append, List.length_singleton]
      rw [hfired] at hmost ⊢
      exact Nat.sub_lt_sub_left (Nat.lt_of_succ_le hmost) (Nat.lt_succ_self _)

theorem Tick.exists_ended (hlaws : ∀ rounds,
    TickLaw scheduler now (Tick.after behaviour now scheduler rounds)) :
    ∃ rounds, (Tick.after behaviour now scheduler rounds).ended = true := by
  obtain ⟨rounds, hstays⟩ := WellFounded.not_rel_apply_succ (r := (· < ·))
    fun rounds => (Tick.after behaviour now scheduler rounds).rest scheduler
  by_contra hnever
  have hruns : ∀ rounds,
      (Tick.after behaviour now scheduler rounds).ended = false := by
    intro rounds
    rw [← Bool.not_eq_true]
    exact fun hended => hnever ⟨rounds, hended⟩
  have hlaw := hlaws (rounds + 1)
  have hgoes := hruns (rounds + 1)
  rw [Tick.after_succ] at hstays hlaw hgoes
  exact hstays (Tick.rest_round (hruns rounds) hlaw hgoes)

/-- What the loop fires of its own spoils the law for good. -/
theorem not_law_of_comesToOwn
    (hown : ComesToOwn now (Tick.after behaviour now scheduler rounds))
    {last : ℕ} (hlt : rounds < last) :
    ¬ TickLaw scheduler now (Tick.after behaviour now scheduler last) := by
  intro hlaw
  obtain ⟨hrunning, id, entry, later, hnext, hdue, delayMs, clock, callback,
    hcalled⟩ := hown
  obtain ⟨hnone, -⟩ | ⟨id', entry', later', hnext', hround⟩ :=
    Tick.round_cases behaviour now hrunning
  · rw [hnone] at hnext
    cases hnext
  · rw [hnext'] at hnext
    cases hnext
    obtain ⟨hlate, -⟩ | ⟨-, hround⟩ := hround
    · exact absurd hdue (not_le.mpr hlate)
    · have hlog := @Tick.log_after C behaviour now scheduler _ _
        (Nat.succ_le_of_lt hlt)
      rw [Nat.succ_eq_add_one, Tick.after_succ, hround, Tick.calls_log,
        Tick.fire] at hlog
      have hfirst := hlaw.first.sublist
        ((List.prefix_append _ _).trans hlog).sublist
      rw [List.pairwise_append] at hfirst
      exact hfirst.2.2 _ hcalled _ (List.mem_singleton_self _) rfl rfl

theorem not_comesToOwn_of_future (hlaw : TickLaw scheduler now tick)
    (hfuture : ∀ id delayMs (clock : ℤ) callback,
      .called (.schedule id delayMs clock callback) ∈ tick.log →
        now < dateOf (clock + delayMs)) : ¬ ComesToOwn now tick := by
  rintro ⟨-, id, entry, later, hnext, hdue, delayMs, clock, callback, hcalled⟩
  have hmem : (id, entry) ∈ tick.scheduler.pending.remaining tick.cursor := by
    rw [MapData.remaining_of_next hnext]
    exact List.mem_cons_self
  have hget := MapData.get_of_mem_remaining hmem
  rw [hlaw.pending_eq] at hget
  have hcall : .called (.schedule id delayMs clock callback) ∈
      tick.log.filter fun event => event.firedId = none :=
    List.mem_filter.mpr ⟨hcalled, by simp⟩
  cases hlast : lastEvent
      (tick.log.filter fun event => event.firedId = none) id with
  | none =>
      exact processId_ne_of_lastEvent_eq_none hlast hcall rfl
  | some event =>
      rw [hlast] at hget
      have hlog := (List.mem_filter.mp (lastEvent_mem hlast).1).1
      cases event with
      | fired processId fired => cases hget
      | called call =>
          cases call with
          | schedule processId delay clock callback =>
              cases hget
              exact absurd hdue (not_le.mpr (hfuture _ _ _ _ hlog))
          | cancel processId => cases hget

theorem Tick.called_of_mem_after {call : SchedulerCall C}
    (hmem : .called call ∈ (Tick.after behaviour now scheduler rounds).log) :
    ∃ log callback, call ∈ behaviour log callback := by
  induction rounds with
  | zero => cases hmem
  | succ rounds ih =>
      rw [Tick.after_succ] at hmem
      cases hended : (Tick.after behaviour now scheduler rounds).ended with
      | true =>
          rw [Tick.round_of_ended hended] at hmem
          exact ih hmem
      | false =>
          obtain ⟨-, hround⟩ |
            ⟨id, entry, later, -, ⟨-, hround⟩ | ⟨-, hround⟩⟩ :=
              Tick.round_cases behaviour now hended
          · rw [hround] at hmem
            exact ih hmem
          · rw [hround] at hmem
            exact ih hmem
          · rw [hround, Tick.calls_log, List.mem_append] at hmem
            obtain hbefore | hcalls := hmem
            · rw [Tick.fire, List.mem_append, List.mem_singleton] at hbefore
              exact ih (hbefore.resolve_right (by simp))
            · obtain ⟨made, hmade, hsame⟩ := List.mem_map.mp hcalls
              cases hsame
              exact ⟨_, _, hmade⟩

/-- A tick ends and keeps its law if the callbacks schedule only for times
after that of the tick. -/
theorem tickLaw_of_future
    (hfuture : ∀ log callback id delayMs (clock : ℤ) next,
      .schedule id delayMs clock next ∈ behaviour log callback →
        now < dateOf (clock + delayMs)) :
    ∃ rounds, (Tick.after behaviour now scheduler rounds).ended = true ∧
      TickLaw scheduler now (Tick.after behaviour now scheduler rounds) := by
  have hlogged : ∀ rounds id delayMs (clock : ℤ) callback,
      .called (.schedule id delayMs clock callback) ∈
          (Tick.after behaviour now scheduler rounds).log →
        now < dateOf (clock + delayMs) := by
    intro rounds id delayMs clock callback hmem
    obtain ⟨log, caller, hcall⟩ := Tick.called_of_mem_after hmem
    exact hfuture log caller id delayMs clock callback hcall
  have hlaws : ∀ rounds,
      TickLaw scheduler now (Tick.after behaviour now scheduler rounds) := by
    intro rounds
    induction rounds with
    | zero => exact TickLaw.start
    | succ rounds ih =>
        rw [Tick.after_succ]
        exact ih.round (not_comesToOwn_of_future ih (hlogged rounds))
  obtain ⟨rounds, hended⟩ := Tick.exists_ended hlaws
  exact ⟨rounds, hended, hlaws rounds⟩

/-- A tick ends and keeps its law if and only if its loop never comes to a due
timeout that a callback of the same tick has scheduled. -/
theorem tickLaw_iff
    (behaviour : List (TickEvent C) → C → List (SchedulerCall C)) (now : ℤ)
    (scheduler : ProcessTimeoutScheduler C) :
    (∃ rounds, (Tick.after behaviour now scheduler rounds).ended = true ∧
      TickLaw scheduler now (Tick.after behaviour now scheduler rounds)) ↔
    ∀ rounds, ¬ ComesToOwn now
      (Tick.after behaviour now scheduler rounds) := by
  constructor
  · rintro ⟨last, hended, hlaw⟩ rounds hown
    by_cases hlt : rounds < last
    · exact not_law_of_comesToOwn hown hlt hlaw
    · have hstill := Tick.after_of_ended (Nat.le_of_not_lt hlt) hended
      have hrunning := hown.1
      rw [hstill, hended] at hrunning
      cases hrunning
  · intro hforeign
    have hlaws := TickLaw.after hforeign
    obtain ⟨rounds, hended⟩ := Tick.exists_ended hlaws
    exact ⟨rounds, hended, hlaws rounds⟩

/-- A process that schedules its next timeout when the first one fires. -/
def again (log : List (TickEvent Unit)) (_ : Unit) :
    List (SchedulerCall Unit) :=
  if log.length ≤ 1 then [.schedule "p" 50 0 ()] else []

def overdue : ProcessTimeoutScheduler Unit :=
  ProcessTimeoutScheduler.new.schedule "p" 50 0 ()

theorem not_tickLaw_again : ¬ ∃ rounds,
    (Tick.after again 100 overdue rounds).ended = true ∧
      TickLaw overdue 100 (Tick.after again 100 overdue rounds) := by
  rintro ⟨last, hended, hlaw⟩
  have hown : ComesToOwn 100 (Tick.after again 100 overdue 1) :=
    ⟨by decide +kernel, "p", ⟨"p", 50, ()⟩, 2, by decide +kernel, by decide,
      50, 0, (), by decide +kernel⟩
  refine not_law_of_comesToOwn hown ?_ hlaw
  by_contra hle
  have hstill := Tick.after_of_ended (Nat.le_of_not_lt hle) hended
  rw [← hstill] at hended
  exact absurd hended (by decide +kernel)

end TsCommons.ProcessManager
