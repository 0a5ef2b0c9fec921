import TsCommons.EventSourcing.EventStore
import Mathlib.Data.Int.Order.Basic

/-!
# Replays of a stream

A replay reads a stream from a version on, stops before another one, and
passes the events that its filters let through to a handler.  What it hands
over are the events of an interval of versions, so that the replays of two
intervals that meet make up the replay of both.
-/

namespace TsCommons.EventSourcing

open Foundations

variable {H P : Type*}

/-- What a replay reads of an event, and the rest of it.  A time is the number
of its milliseconds. -/
structure DomainEvent (P : Type*) where
  eventType : String
  occurredAt : ℤ
  payload : P
deriving DecidableEq

structure ReplayOptions where
  fromVersion : Option ℤ := none
  toVersion : Option ℤ := none
  beforeTimestamp : Option ℤ := none
  eventTypes : Option (List String) := none
deriving DecidableEq

structure ReplayProgress where
  streamId : String
  eventsProcessed : ℕ
  eventsSkipped : ℕ
  currentVersion : ℤ
deriving DecidableEq

structure ReplayStats where
  streamId : String
  totalEvents : ℕ
  eventsProcessed : ℕ
  eventsSkipped : ℕ
  durationMs : ℤ
deriving DecidableEq

def passesFilters (event : DomainEvent P) (options : ReplayOptions) : Bool :=
  if options.beforeTimestamp.any (· < event.occurredAt) then false
  else if options.eventTypes.any (!·.contains event.eventType) then false
  else true

/-- The counters of a replay, with the calls of its handler and of its
progress callback. -/
structure Replay (P : Type*) where
  processed : ℕ
  skipped : ℕ
  handled : List (DomainEvent P × ℤ)
  progress : List ReplayProgress
deriving DecidableEq

namespace Replay

def start : Replay P := ⟨0, 0, [], []⟩

def consider (replay : Replay P) (streamId : String) (options : ReplayOptions)
    (event : DomainEvent P) (version : ℤ) : Replay P :=
  let counted :=
    if !passesFilters event options then
      { replay with skipped := replay.skipped + 1 }
    else
      { replay with
        handled := replay.handled ++ [(event, version)]
        processed := replay.processed + 1 }
  { counted with
    progress := counted.progress ++
      [⟨streamId, counted.processed, counted.skipped, version⟩] }

/-- The loop over the events from the index `i` on. -/
def loop (streamId : String) (options : ReplayOptions) (fromVersion : ℤ) :
    ℕ → List (DomainEvent P) → Replay P → Replay P
  | _, [], replay => replay
  | i, event :: rest, replay =>
      let version := fromVersion + i
      if options.toVersion.any (· ≤ version) then replay
      else
        loop streamId options fromVersion (i + 1) rest
          (replay.consider streamId options event version)

end Replay

namespace EventReplayer

/-- With the calls made; the clock reads `startedAt` at the beginning and
`endedAt` at the end. -/
def replay (store : InMemoryEventStore H (DomainEvent P)) (streamId : String)
    (options : ReplayOptions) (startedAt endedAt : ℤ) :
    ReplayStats × Replay P :=
  let fromVersion := options.fromVersion.getD 0
  let events := store.getEvents streamId fromVersion
  let replayed := Replay.loop streamId options fromVersion 0 events .start
  (⟨streamId, events.length, replayed.processed, replayed.skipped,
    endedAt - startedAt⟩, replayed)

def replayPointInTime (store : InMemoryEventStore H (DomainEvent P))
    (streamId : String) (timestamp startedAt endedAt : ℤ) :
    ReplayStats × Replay P :=
  replay store streamId { beforeTimestamp := some timestamp } startedAt endedAt

def replaySelective (store : InMemoryEventStore H (DomainEvent P))
    (streamId : String) (eventTypes : List String) (startedAt endedAt : ℤ) :
    ReplayStats × Replay P :=
  replay store streamId { eventTypes := some eventTypes } startedAt endedAt

def fastForward (store : InMemoryEventStore H (DomainEvent P))
    (streamId : String) (fromVersion startedAt endedAt : ℤ) :
    ReplayStats × Replay P :=
  replay store streamId { fromVersion := some fromVersion } startedAt endedAt

end EventReplayer

/-! ## What a replay is to hand over -/

/-- `fromVersion` ≤ `version` < `toVersion` -/
def ReplayOptions.covers (options : ReplayOptions) (version : ℤ) : Bool :=
  options.fromVersion.getD 0 ≤ version && options.toVersion.all (version < ·)

/-- The events of a stream whose versions the options cover, with the
versions. -/
def covered (options : ReplayOptions) (stream : List (DomainEvent P)) :
    List (DomainEvent P × ℤ) :=
  (stream.zipIdx.map fun entry => (entry.1, (entry.2 : ℤ))).filter
    fun entry => options.covers entry.2

/-- The handler is called with the covered events that pass the filters, and
every covered event is counted and followed by a progress callback. -/
structure ReplayLaw (stream : List (DomainEvent P)) (options : ReplayOptions)
    (stats : ReplayStats) (replay : Replay P) : Prop where
  handled_eq : replay.handled =
    (covered options stream).filter fun entry => passesFilters entry.1 options
  counted : stats.eventsProcessed + stats.eventsSkipped =
    ((List.range stream.length).filter fun version : ℕ =>
      options.covers version).length
  progressed : replay.progress.length =
    stats.eventsProcessed + stats.eventsSkipped
  monotone : replay.progress.Pairwise fun earlier later =>
    earlier.eventsProcessed ≤ later.eventsProcessed ∧
      earlier.eventsSkipped ≤ later.eventsSkipped

/-! ## The loop -/

variable {options : ReplayOptions} {streamId : String} {version : ℤ}
  {event : DomainEvent P} {replay : Replay P}

theorem passesFilters_iff :
    passesFilters event options = true ↔
      (∀ timestamp ∈ options.beforeTimestamp,
        event.occurredAt ≤ timestamp) ∧
      ∀ types ∈ options.eventTypes, event.eventType ∈ types := by
  cases hbefore : options.beforeTimestamp with
  | none => cases htypes : options.eventTypes <;> simp [passesFilters, *]
  | some timestamp =>
      cases htypes : options.eventTypes <;> simp [passesFilters, *]

/-- The events with their versions, of which the first is `fromVersion` and
the index of the first event. -/
def versions (fromVersion : ℤ) (i : ℕ) (events : List (DomainEvent P)) :
    List (DomainEvent P × ℤ) :=
  (events.zipIdx i).map fun entry => (entry.1, fromVersion + entry.2)

theorem versions_cons (fromVersion : ℤ) (i : ℕ)
    (events : List (DomainEvent P)) :
    versions fromVersion i (event :: events) =
      (event, fromVersion + i) :: versions fromVersion (i + 1) events := rfl

theorem le_of_mem_versions {fromVersion : ℤ} {i : ℕ}
    {events : List (DomainEvent P)} {entry : DomainEvent P × ℤ}
    (hentry : entry ∈ versions fromVersion i events) :
    fromVersion + i ≤ entry.2 := by
  obtain ⟨numbered, hnumbered, rfl⟩ := List.mem_map.mp hentry
  have hle := List.le_snd_of_mem_zipIdx hnumbered
  simp only
  omega

/-- `version` < `toVersion` -/
def ReplayOptions.precedes (options : ReplayOptions) (version : ℤ) : Bool :=
  options.toVersion.all (version < ·)

theorem precedes_eq_not_any (options : ReplayOptions) (version : ℤ) :
    options.precedes version = !options.toVersion.any (· ≤ version) := by
  rw [ReplayOptions.precedes]
  cases options.toVersion with
  | none => rfl
  | some stop =>
      change decide (version < stop) = !decide (stop ≤ version)
      rw [← decide_not]
      exact decide_eq_decide.mpr Int.not_le.symm

theorem precedes_of_le {later : ℤ} (hle : version ≤ later)
    (hlater : options.precedes later = true) :
    options.precedes version = true := by
  rw [ReplayOptions.precedes, Option.all_eq_true] at hlater ⊢
  intro stop hstop
  exact decide_eq_true
    (Int.lt_of_le_of_lt hle (of_decide_eq_true (hlater stop hstop)))

/-- The loop considers the events up to the first one that is not before
`toVersion`, as no later one is. -/
theorem loop_eq_foldl (fromVersion : ℤ) (i : ℕ)
    (events : List (DomainEvent P)) (replay : Replay P) :
    Replay.loop streamId options fromVersion i events replay =
      ((versions fromVersion i events).filter fun entry =>
        options.precedes entry.2).foldl
          (fun replay entry => replay.consider streamId options entry.1 entry.2)
          replay := by
  induction events generalizing i replay with
  | nil => rfl
  | cons event rest ih =>
      have hbreak := precedes_eq_not_any options (fromVersion + i)
      rw [Replay.loop]
      cases hprecedes : options.precedes (fromVersion + i) with
      | true =>
          rw [hprecedes, Bool.true_eq, Bool.not_eq_true'] at hbreak
          have hfirst : (versions fromVersion i (event :: rest)).filter
              (fun entry => options.precedes entry.2) =
                (event, fromVersion + (i : ℤ)) ::
                  (versions fromVersion (i + 1) rest).filter
                    fun entry => options.precedes entry.2 :=
            List.filter_cons_of_pos hprecedes
          rw [hfirst, List.foldl_cons, ← ih, hbreak,
            if_neg Bool.false_ne_true]
      | false =>
          rw [hprecedes, Bool.false_eq, Bool.not_eq_false'] at hbreak
          have hnone : (versions fromVersion i (event :: rest)).filter
              (fun entry => options.precedes entry.2) = [] := by
            apply List.filter_eq_nil_iff.mpr
            intro entry hentry hlater
            rw [precedes_of_le (le_of_mem_versions hentry) hlater] at hprecedes
            cases hprecedes
          rw [hnone, hbreak, if_pos rfl]
          rfl

/-- What the calls for the events say. -/
structure Replays (options : ReplayOptions)
    (entries : List (DomainEvent P × ℤ)) (replay : Replay P) : Prop where
  handled_eq : replay.handled =
    entries.filter fun entry => passesFilters entry.1 options
  counted : replay.processed + replay.skipped = entries.length
  progressed : replay.progress.length = entries.length
  bounded : ∀ progress ∈ replay.progress,
    progress.eventsProcessed ≤ replay.processed ∧
      progress.eventsSkipped ≤ replay.skipped
  monotone : replay.progress.Pairwise fun earlier later =>
    earlier.eventsProcessed ≤ later.eventsProcessed ∧
      earlier.eventsSkipped ≤ later.eventsSkipped

theorem Replays.concat {entries : List (DomainEvent P × ℤ)}
    {entry : DomainEvent P × ℤ} {counted : Replay P}
    (hreplays : Replays options entries replay)
    (hprogress : counted.progress = replay.progress)
    (hhandled : counted.handled = (entries ++ [entry]).filter fun entry =>
      passesFilters entry.1 options)
    (hcount : counted.processed + counted.skipped =
      replay.processed + replay.skipped + 1)
    (hprocessed : replay.processed ≤ counted.processed)
    (hskipped : replay.skipped ≤ counted.skipped) :
    Replays options (entries ++ [entry])
      { counted with
        progress := counted.progress ++
          [⟨streamId, counted.processed, counted.skipped, version⟩] } := by
  have hlater : ∀ progress ∈ replay.progress,
      progress.eventsProcessed ≤ counted.processed ∧
        progress.eventsSkipped ≤ counted.skipped :=
    fun progress hmem =>
      ⟨Nat.le_trans (hreplays.bounded progress hmem).1 hprocessed,
        Nat.le_trans (hreplays.bounded progress hmem).2 hskipped⟩
  rw [hprogress]
  constructor
  · exact hhandled
  · rw [hcount, hreplays.counted, List.length_append, List.length_singleton]
  · rw [List.length_append, List.length_append, hreplays.progressed]
    rfl
  · exact List.forall_mem_append.mpr ⟨hlater,
      List.forall_mem_singleton.mpr ⟨Nat.le_refl _, Nat.le_refl _⟩⟩
  · rw [List.pairwise_append]
    refine ⟨hreplays.monotone, List.pairwise_singleton _ _, ?_⟩
    intro earlier hearlier later hlast
    rw [List.mem_singleton.mp hlast]
    exact hlater earlier hearlier

theorem Replays.consider {entries : List (DomainEvent P × ℤ)}
    (hreplays : Replays options entries replay) :
    Replays options (entries ++ [(event, version)])
      (replay.consider streamId options event version) := by
  rw [Replay.consider]
  cases hpasses : passesFilters event options with
  | true =>
      refine hreplays.concat rfl ?_ ?_ ?_ ?_
      · rw [List.filter_append, ← hreplays.handled_eq, List.filter_singleton,
          hpasses]
        rfl
      · exact Nat.add_right_comm _ _ _
      · exact Nat.le_succ _
      · exact Nat.le_refl _
  | false =>
      refine hreplays.concat rfl ?_ ?_ ?_ ?_
      · rw [List.filter_append, ← hreplays.handled_eq, List.filter_singleton,
          hpasses]
        exact (List.append_nil _).symm
      · rfl
      · exact Nat.le_refl _
      · exact Nat.le_succ _

theorem replays_foldl (entries : List (DomainEvent P × ℤ)) :
    Replays options entries (entries.foldl (fun replay entry =>
      replay.consider streamId options entry.1 entry.2) .start) := by
  induction entries using List.reverseRecOn with
  | nil => exact ⟨rfl, rfl, rfl, List.forall_mem_nil _, .nil⟩
  | append_singleton entries entry ih =>
      rw [List.foldl_concat]
      exact ih.consider

/-! ## Intervals of versions -/

theorem lt_of_mem_versions {fromVersion : ℤ} {events : List (DomainEvent P)}
    {entry : DomainEvent P × ℤ}
    (hentry : entry ∈ versions fromVersion 0 events) :
    entry.2 < fromVersion + events.length := by
  obtain ⟨numbered, hnumbered, rfl⟩ := List.mem_map.mp hentry
  have hlt := List.snd_lt_of_mem_zipIdx hnumbered
  simp only
  omega

theorem versions_shift (fromVersion : ℤ) (start i : ℕ)
    (events : List (DomainEvent P)) :
    versions fromVersion (start + i) events =
      versions (fromVersion + start) i events := by
  induction events generalizing i with
  | nil => rfl
  | cons event rest ih =>
      rw [versions_cons, versions_cons, Nat.add_assoc, ih, Int.natCast_add,
        Int.add_assoc]

/-- The versions of the slice from an index on. -/
theorem versions_split (start : ℕ) (stream : List (DomainEvent P)) :
    versions 0 0 stream =
      versions 0 0 (stream.take start) ++
        versions start 0 (stream.drop start) := by
  by_cases hlong : start ≤ stream.length
  · have hlength : (stream.take start).length = start :=
      List.length_take_of_le hlong
    have hshift := versions_shift 0 start 0 (stream.drop start)
    rw [Int.zero_add] at hshift
    rw [← hshift]
    conv_lhs => rw [← List.take_append_drop start stream]
    rw [versions, List.zipIdx_append, List.map_append, hlength,
      Nat.zero_add, Nat.add_zero]
    rfl
  · have hle : stream.length ≤ start := by omega
    rw [List.take_of_length_le hle, List.drop_of_length_le hle]
    exact (List.append_nil _).symm

theorem covered_eq_filter (options : ReplayOptions)
    (stream : List (DomainEvent P)) :
    covered options stream =
      (versions 0 0 stream).filter fun entry => options.covers entry.2 := by
  simp [covered, versions]

/-- The loop considers the covered events. -/
theorem filter_precedes_eq_covered (hfrom : 0 ≤ options.fromVersion.getD 0)
    (stream : List (DomainEvent P)) :
    ((versions (options.fromVersion.getD 0) 0
        (stream.drop (options.fromVersion.getD 0).toNat)).filter fun entry =>
          options.precedes entry.2) = covered options stream := by
  obtain ⟨start, hstart⟩ := Int.eq_ofNat_of_zero_le hfrom
  have hbefore : ((versions 0 0 (stream.take start)).filter fun entry =>
      options.covers entry.2) = [] := by
    apply List.filter_eq_nil_iff.mpr
    intro entry hentry hcovers
    have hlt := lt_of_mem_versions hentry
    have hlength := List.length_take_le start stream
    rw [ReplayOptions.covers, hstart, Bool.and_eq_true,
      decide_eq_true_iff] at hcovers
    omega
  have hafter : ((versions start 0 (stream.drop start)).filter fun entry =>
      options.covers entry.2) =
        (versions start 0 (stream.drop start)).filter fun entry =>
          options.precedes entry.2 := by
    apply List.filter_congr
    intro entry hentry
    have hle := le_of_mem_versions hentry
    rw [ReplayOptions.covers, hstart, decide_eq_true (by omega),
      Bool.true_and, ReplayOptions.precedes]
  rw [covered_eq_filter, versions_split start, List.filter_append, hbefore,
    List.nil_append, hafter, hstart, Int.toNat_natCast]

theorem pairwise_versions (fromVersion : ℤ) (i : ℕ)
    (events : List (DomainEvent P)) :
    (versions fromVersion i events).Pairwise fun earlier later =>
      earlier.2 < later.2 := by
  induction events generalizing i with
  | nil => exact .nil
  | cons event rest ih =>
      rw [versions_cons]
      apply List.Pairwise.cons _ (ih (i + 1))
      intro later hlater
      have hle := le_of_mem_versions hlater
      simp only
      omega

/-- What stands before a version and what stands from it on. -/
theorem filter_append_filter_of_pairwise {entries : List (DomainEvent P × ℤ)}
    (hsorted : entries.Pairwise fun earlier later => earlier.2 < later.2)
    (middle : ℤ) :
    (entries.filter fun entry => entry.2 < middle) ++
      (entries.filter fun entry => middle ≤ entry.2) = entries := by
  induction entries with
  | nil => rfl
  | cons entry rest ih =>
      obtain ⟨hfirst, hrest⟩ := List.pairwise_cons.mp hsorted
      by_cases hbefore : entry.2 < middle
      · have hnot : ¬ middle ≤ entry.2 := by omega
        rw [List.filter_cons, List.filter_cons, decide_eq_true hbefore,
          decide_eq_false hnot]
        exact congrArg (entry :: ·) (ih hrest)
      · have hlate : ∀ other ∈ entry :: rest, middle ≤ other.2 := by
          intro other hother
          rcases List.mem_cons.mp hother with rfl | hmem
          · exact not_lt.mp hbefore
          · have hlt := hfirst other hmem
            omega
        have hnone : ((entry :: rest).filter fun entry =>
            entry.2 < middle) = [] :=
          List.filter_eq_nil_iff.mpr (by simpa using hlate)
        have hall : ((entry :: rest).filter fun entry =>
            middle ≤ entry.2) = entry :: rest :=
          List.filter_eq_self.mpr (by simpa using hlate)
        rw [hnone, hall, List.nil_append]

theorem covered_append_covered {middle : ℤ}
    (hstart : options.fromVersion.getD 0 ≤ middle)
    (hstop : ∀ stop ∈ options.toVersion, middle ≤ stop)
    (stream : List (DomainEvent P)) :
    covered { options with toVersion := some middle } stream ++
      covered { options with fromVersion := some middle } stream =
        covered options stream := by
  have hsorted := (pairwise_versions 0 0 stream).filter fun entry =>
    options.covers entry.2
  rw [covered_eq_filter options,
    ← filter_append_filter_of_pairwise hsorted middle, List.filter_filter,
    List.filter_filter, covered_eq_filter, covered_eq_filter]
  congr 1
  · apply List.filter_congr
    intro entry _
    simp only [ReplayOptions.covers, Option.all_some]
    by_cases hbefore : entry.2 < middle
    · have hall : options.toVersion.all (entry.2 < ·) = true := by
        rw [Option.all_eq_true]
        intro stop hmem
        exact decide_eq_true (Int.lt_of_lt_of_le hbefore (hstop stop hmem))
      rw [hall, Bool.and_true, Bool.and_comm]
    · rw [decide_eq_false hbefore, Bool.and_false, Bool.false_and]
  · apply List.filter_congr
    intro entry _
    simp only [ReplayOptions.covers, Option.getD_some]
    by_cases hafter : middle ≤ entry.2
    · rw [decide_eq_true (Int.le_trans hstart hafter), Bool.true_and]
    · rw [decide_eq_false hafter, Bool.false_and, Bool.false_and]

theorem length_covered (options : ReplayOptions)
    (stream : List (DomainEvent P)) :
    (covered options stream).length =
      ((List.range stream.length).filter fun version : ℕ =>
        options.covers version).length := by
  rw [covered, List.range_eq_range', ← List.zipIdx_map_snd 0 stream,
    List.filter_map, List.filter_map, List.length_map, List.length_map]
  rfl

theorem replays_replay (store : InMemoryEventStore H (DomainEvent P))
    (streamId : String) (options : ReplayOptions) (startedAt endedAt : ℤ)
    (hfrom : 0 ≤ options.fromVersion.getD 0) :
    Replays options (covered options (store.content streamId))
      (EventReplayer.replay store streamId options startedAt endedAt).2 := by
  rw [EventReplayer.replay, InMemoryEventStore.getEvents, if_pos hfrom,
    loop_eq_foldl, filter_precedes_eq_covered hfrom]
  exact replays_foldl _

theorem replay_law (store : InMemoryEventStore H (DomainEvent P))
    (streamId : String) (options : ReplayOptions) (startedAt endedAt : ℤ)
    (hfrom : 0 ≤ options.fromVersion.getD 0) :
    ReplayLaw (store.content streamId) options
        (EventReplayer.replay store streamId options startedAt endedAt).1
        (EventReplayer.replay store streamId options startedAt endedAt).2 ∧
      ∀ middle, options.fromVersion.getD 0 ≤ middle →
        (∀ stop ∈ options.toVersion, middle ≤ stop) →
        (EventReplayer.replay store streamId
            { options with toVersion := some middle }
            startedAt endedAt).2.handled ++
          (EventReplayer.replay store streamId
            { options with fromVersion := some middle }
            startedAt endedAt).2.handled =
        (EventReplayer.replay store streamId options
          startedAt endedAt).2.handled := by
  have hreplays := replays_replay store streamId options startedAt endedAt
    hfrom
  constructor
  · refine ⟨hreplays.handled_eq, ?_, ?_, hreplays.monotone⟩
    · exact hreplays.counted.trans (length_covered options _)
    · exact hreplays.progressed.trans hreplays.counted.symm
  · intro middle hstart hstop
    have hbefore := replays_replay store streamId
      { options with toVersion := some middle } startedAt endedAt hfrom
    have hafter := replays_replay store streamId
      { options with fromVersion := some middle } startedAt endedAt
      (Int.le_trans hfrom hstart)
    rw [hbefore.handled_eq, hafter.handled_eq, hreplays.handled_eq,
      ← covered_append_covered hstart hstop, List.filter_append]
    rfl

/-- Four events of two types. -/
def orderStore : InMemoryEventStore ℕ (DomainEvent ℕ) where
  streams := InsertionMap.empty.set "order-1"
    [⟨"Created", 10, 0⟩, ⟨"Shipped", 20, 1⟩, ⟨"Created", 30, 2⟩,
      ⟨"Created", 40, 3⟩]
  handlers := []

theorem replay_law_orderStore :
    ReplayLaw (orderStore.content "order-1")
        { fromVersion := some 1, eventTypes := some ["Created"] }
        (EventReplayer.replay orderStore "order-1"
          { fromVersion := some 1, eventTypes := some ["Created"] } 50 60).1
        (EventReplayer.replay orderStore "order-1"
          { fromVersion := some 1, eventTypes := some ["Created"] } 50 60).2 ∧
      (EventReplayer.replay orderStore "order-1"
        { fromVersion := some 1, eventTypes := some ["Created"] } 50 60).2 =
        ⟨2, 1, [(⟨"Created", 30, 2⟩, 2), (⟨"Created", 40, 3⟩, 3)],
          [⟨"order-1", 0, 1, 1⟩, ⟨"order-1", 1, 1, 2⟩,
            ⟨"order-1", 2, 1, 3⟩]⟩ :=
  ⟨(replay_law orderStore "order-1" _ 50 60 (by decide)).1, by decide +kernel⟩

end TsCommons.EventSourcing
