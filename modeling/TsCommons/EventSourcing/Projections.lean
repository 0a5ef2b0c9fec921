import TsCommons.EventSourcing.EventReplayer
import TsCommons.Foundations.Execution
import Mathlib.Logic.Function.Basic

/-!
# Projections that are kept up to date

A projection is the fold of the events of a stream.  It need not read the
stream from the beginning each time: it goes on from the version that it has
come to, or that a snapshot was taken at, while the stream grows.  Wherever it
has got to, its state is the one of a run over all events up to there.
-/

namespace TsCommons.EventSourcing

open Foundations

variable {W H S P : Type*}

/-- `apply` is the function of the projection. -/
def ProjectionRunner.run (apply : S → DomainEvent P → S) (state : S)
    (events : List (DomainEvent P)) : S :=
  events.foldl apply state

/-- The state is a copy: what has been saved stays as it is when the projection
that it was taken of, or one restored from it, goes on. -/
structure Snapshot (S : Type*) where
  aggregateId : String
  version : ℤ
  state : S
  timestamp : ℤ
deriving DecidableEq

structure InMemorySnapshotStore (S : Type*) where
  store : InsertionMap String (Snapshot S)

namespace InMemorySnapshotStore

def new : InMemorySnapshotStore S := ⟨.empty⟩

def save (snapshots : InMemorySnapshotStore S) (snapshot : Snapshot S) :
    InMemorySnapshotStore S :=
  ⟨snapshots.store.set snapshot.aggregateId snapshot⟩

def get (snapshots : InMemorySnapshotStore S) (aggregateId : String) :
    Option (Snapshot S) :=
  snapshots.store.get aggregateId

end InMemorySnapshotStore

structure ReplayMonitor where
  streamId : String
  latestProgress : Option ReplayProgress
deriving DecidableEq

namespace ReplayMonitor

def new (streamId : String) : ReplayMonitor := ⟨streamId, none⟩

def callback (monitor : ReplayMonitor) (progress : ReplayProgress) :
    ReplayMonitor :=
  { monitor with latestProgress := some progress }

def processed (monitor : ReplayMonitor) : ℕ :=
  (monitor.latestProgress.map ReplayProgress.eventsProcessed).getD 0

def currentVersion (monitor : ReplayMonitor) : ℤ :=
  (monitor.latestProgress.map ReplayProgress.currentVersion).getD (-1)

end ReplayMonitor

/-! ## Projectors -/

/-- A projection, the version that it goes on from, and the monitor of its
replays, which knows the stream. -/
structure Projector (S : Type*) where
  state : S
  version : ℤ
  monitor : ReplayMonitor

namespace Projector

def handler (apply : S → DomainEvent P → S) (projector : Projector S)
    (entry : DomainEvent P × ℤ) : Projector S :=
  { projector with
    state := apply projector.state entry.1
    version := entry.2 + 1 }

/-- The calls that a replay makes. -/
def receive (apply : S → DomainEvent P → S) (projector : Projector S)
    (replay : Replay P) : Projector S :=
  { replay.handled.foldl (handler apply) projector with
    monitor := replay.progress.foldl ReplayMonitor.callback
      projector.monitor }

/-- The time that it takes does not matter. -/
def fastForward (projector : Projector S)
    (store : InMemoryEventStore H (DomainEvent P)) : Replay P :=
  (EventReplayer.fastForward store projector.monitor.streamId
    projector.version 0 0).2

end Projector

inductive Stage (S P : Type*)
  | idle
  | ready (projector : Projector S)
  | forwarding (projector : Projector S) (replay : Replay P)

def Stage.projector : Stage S P → Option (Projector S)
  | .idle => none
  | .ready projector => some projector
  | .forwarding projector _ => some projector

structure ProjectionState (W H S P : Type*) where
  store : InMemoryEventStore H (DomainEvent P)
  snapshots : InMemorySnapshotStore S
  stages : W → Stage S P

/-- `fastForward` reads the events, and `settle` hands them over. -/
inductive ProjectionLabel (W P : Type*)
  | append (streamId : String) (events : List (DomainEvent P))
      (expectedVersion : ℤ)
  | start (projector : W) (streamId : String)
  | restore (projector : W) (streamId : String)
  | fastForward (projector : W)
  | settle (projector : W)
  | save (projector : W) (timestamp : ℤ)

def ProjectionState.initial : ProjectionState W H S P :=
  ⟨.new, .new, fun _ => .idle⟩

section Steps

variable [DecidableEq W]

def ProjectionState.enter (state : ProjectionState W H S P) (projector : W)
    (stage : Stage S P) : ProjectionState W H S P :=
  { state with stages := Function.update state.stages projector stage }

def projectionStep (apply : S → DomainEvent P → S) (initial : S)
    (state : ProjectionState W H S P) :
    ProjectionLabel W P → Option (ProjectionState W H S P)
  | .append streamId events expectedVersion =>
      match state.store.append streamId events expectedVersion with
      | .error _ => some state
      | .ok (store, _) => some { state with store := store }
  | .start name streamId =>
      some (state.enter name (.ready ⟨initial, 0, .new streamId⟩))
  | .restore name streamId =>
      match state.snapshots.get streamId with
      | none => some (state.enter name (.ready ⟨initial, 0, .new streamId⟩))
      | some snapshot =>
          some (state.enter name
            (.ready ⟨snapshot.state, snapshot.version, .new streamId⟩))
  | .fastForward name =>
      match state.stages name with
      | .ready projector =>
          some (state.enter name
            (.forwarding projector (projector.fastForward state.store)))
      | _ => none
  | .settle name =>
      match state.stages name with
      | .forwarding projector replay =>
          some (state.enter name (.ready (projector.receive apply replay)))
      | _ => none
  | .save name timestamp =>
      match state.stages name with
      | .ready projector =>
          some { state with
            snapshots := state.snapshots.save
              ⟨projector.monitor.streamId, projector.version,
                projector.state, timestamp⟩ }
      | _ => none

end Steps

/-! ## What a replay without filters hands over -/

variable {apply : S → DomainEvent P → S} {initial : S}
  {streamId : String} {version : ℤ} {projector : Projector S}
  {store written : InMemoryEventStore H (DomainEvent P)}

/-- Every entry is handled, and the last one is reported last. -/
structure Forwarded (streamId : String)
    (entries : List (DomainEvent P × ℤ)) (replay : Replay P) : Prop where
  handled : replay.handled = entries
  processed : replay.processed = entries.length
  skipped : replay.skipped = 0
  progress : replay.progress.getLast? =
    entries.getLast?.map fun entry =>
      ⟨streamId, entries.length, 0, entry.2⟩

theorem forwarded_foldl (entries : List (DomainEvent P × ℤ)) :
    Forwarded streamId entries
      (entries.foldl (fun replay entry => replay.consider streamId
        { fromVersion := some version } entry.1 entry.2) .start) := by
  induction entries using List.reverseRecOn with
  | nil => exact ⟨rfl, rfl, rfl, rfl⟩
  | append_singleton entries entry ih =>
      rw [List.foldl_concat, Replay.consider]
      have hpasses : passesFilters entry.1
          { fromVersion := some version } = true := rfl
      rw [hpasses]
      constructor
      · exact congrArg (· ++ [entry]) ih.handled
      · rw [List.length_append]
        exact congrArg (· + 1) ih.processed
      · exact ih.skipped
      · rw [List.getLast?_concat, List.getLast?_concat, Option.map_some,
          List.length_append]
        have hprocessed := ih.processed
        have hskipped := ih.skipped
        simp [hprocessed, hskipped]

theorem forwarded_fastForward (hversion : 0 ≤ projector.version)
    (store : InMemoryEventStore H (DomainEvent P)) :
    Forwarded projector.monitor.streamId
      (versions projector.version 0
        ((store.content projector.monitor.streamId).drop
          projector.version.toNat))
      (projector.fastForward store) := by
  have hfrom : 0 ≤ (some projector.version).getD 0 := hversion
  unfold Projector.fastForward EventReplayer.fastForward
  have hall : ∀ entries : List (DomainEvent P × ℤ),
      (entries.filter fun entry => ReplayOptions.precedes
        { fromVersion := some projector.version } entry.2) = entries :=
    fun _ => List.filter_eq_self.mpr fun _ _ => rfl
  rw [EventReplayer.replay, InMemoryEventStore.getEvents, if_pos hfrom,
    loop_eq_foldl, hall]
  exact forwarded_foldl _

theorem foldl_handler (apply : S → DomainEvent P → S)
    (projector : Projector S) (events : List (DomainEvent P)) (i : ℕ)
    (hversion : projector.version = version + i) :
    (versions version i events).foldl (Projector.handler apply) projector =
      { projector with
        state := events.foldl apply projector.state
        version := version + i + events.length } := by
  induction events generalizing i projector with
  | nil =>
      rw [List.length_nil, Int.natCast_zero, Int.add_zero, ← hversion]
      rfl
  | cons event rest ih =>
      have hnext : (projector.handler apply (event, version + i)).version =
          version + (i + 1 : ℕ) := by
        rw [Projector.handler, Int.natCast_succ, Int.add_assoc]
      rw [versions_cons, List.foldl_cons, ih _ (i + 1) hnext,
        List.foldl_cons, List.length_cons]
      simp only [Projector.handler, Projector.mk.injEq, true_and, and_true]
      omega

theorem foldl_callback (progress : List ReplayProgress)
    (monitor : ReplayMonitor) :
    progress.foldl ReplayMonitor.callback monitor =
      { monitor with
        latestProgress := progress.getLast?.or monitor.latestProgress } := by
  induction progress using List.reverseRecOn with
  | nil => rfl
  | append_singleton progress last ih =>
      rw [List.foldl_concat, ih, List.getLast?_concat]
      rfl

/-! ## How far a projection has come -/

/-- The value is that of a run over the events before the version. -/
structure Reflects (apply : S → DomainEvent P → S) (initial : S)
    (stream : List (DomainEvent P)) (version : ℤ) (value : S) : Prop where
  nonneg : 0 ≤ version
  le_length : version ≤ stream.length
  value_eq : value =
    ProjectionRunner.run apply initial (stream.take version.toNat)

theorem Reflects.start (stream : List (DomainEvent P)) :
    Reflects apply initial stream 0 initial :=
  ⟨Int.le_refl 0, Int.natCast_nonneg _, rfl⟩

theorem Reflects.write {value : S} {events : List (DomainEvent P)}
    {expectedVersion : ℤ} {other : String}
    (hreflects : Reflects apply initial (store.content other) version value)
    (hwrite : store.write streamId events expectedVersion = .ok written) :
    Reflects apply initial (written.content other) version value := by
  have hle : version.toNat ≤ (store.content other).length := by
    have hlength := hreflects.le_length
    omega
  have htake := InMemoryEventStore.take_content_of_write hwrite hle
  refine ⟨hreflects.nonneg, ?_, ?_⟩
  · have hmore := congrArg List.length htake
    have hnonneg := hreflects.nonneg
    rw [List.length_take, List.length_take] at hmore
    omega
  · rw [htake]
    exact hreflects.value_eq

/-- A version further on, reached by the events in between. -/
theorem Reflects.advance {stream events : List (DomainEvent P)} {value : S}
    (hreflects : Reflects apply initial stream version value)
    (hevents : events <+: stream.drop version.toNat) :
    Reflects apply initial stream (version + events.length)
      (events.foldl apply value) := by
  obtain ⟨start, rfl⟩ := Int.eq_ofNat_of_zero_le hreflects.nonneg
  obtain ⟨rest, hrest⟩ := hevents
  rw [Int.toNat_natCast] at hrest
  have hlength := congrArg List.length hrest
  rw [List.length_append, List.length_drop] at hlength
  have hle := hreflects.le_length
  refine ⟨by omega, by omega, ?_⟩
  have hsum : ((start : ℤ) + events.length).toNat = start + events.length := by
    omega
  have htake : stream.take (start + events.length) =
      stream.take start ++ events := by
    rw [List.take_add, ← hrest, List.take_left]
  rw [hsum, htake, ProjectionRunner.run, List.foldl_append,
    hreflects.value_eq, Int.toNat_natCast]
  rfl

/-- What the monitor of a projector tells about it, once a replay has reported
to it. -/
def Projector.Monitored (projector : Projector S) : Prop :=
  ∀ progress ∈ projector.monitor.latestProgress,
    progress.streamId = projector.monitor.streamId ∧
      progress.eventsSkipped = 0 ∧
      progress.currentVersion + 1 = projector.version

/-- A replay that is under way hands over events of the stream that come
next. -/
def Forwarding (stream : List (DomainEvent P)) (projector : Projector S)
    (replay : Replay P) : Prop :=
  ∃ events, events <+: stream.drop projector.version.toNat ∧
    Forwarded projector.monitor.streamId
      (versions projector.version 0 events) replay

theorem forwarding_fastForward (hversion : 0 ≤ projector.version)
    (store : InMemoryEventStore H (DomainEvent P)) :
    Forwarding (store.content projector.monitor.streamId) projector
      (projector.fastForward store) :=
  ⟨_, List.prefix_rfl, forwarded_fastForward hversion store⟩

theorem streamId_receive (projector : Projector S) (replay : Replay P) :
    (projector.receive apply replay).monitor.streamId =
      projector.monitor.streamId := by
  rw [Projector.receive, foldl_callback]

theorem Forwarding.receive (apply : S → DomainEvent P → S)
    {stream : List (DomainEvent P)} {replay : Replay P}
    (hforwarding : Forwarding stream projector replay) :
    ∃ events, events <+: stream.drop projector.version.toNat ∧
      (projector.receive apply replay).state =
        events.foldl apply projector.state ∧
      (projector.receive apply replay).version =
        projector.version + events.length := by
  obtain ⟨events, hprefix, hforwarded⟩ := hforwarding
  have hfold := foldl_handler apply projector
    events 0 (Int.add_zero projector.version).symm
  refine ⟨events, hprefix, ?_, ?_⟩
  · rw [Projector.receive, hforwarded.handled, hfold]
  · rw [Projector.receive, hforwarded.handled, hfold]
    exact congrArg (· + (events.length : ℤ)) (Int.add_zero _)

theorem getLast?_versions (version : ℤ) (events : List (DomainEvent P))
    {entry : DomainEvent P × ℤ}
    (hlast : (versions version 0 events).getLast? = some entry) :
    entry.2 + 1 = version + events.length := by
  rcases List.eq_nil_or_concat events with rfl | ⟨before, last, rfl⟩
  · cases hlast
  · rw [List.concat_eq_append, versions, List.zipIdx_append,
      List.map_append] at hlast
    simp only [List.zipIdx_cons, List.zipIdx_nil, List.map_cons,
      List.map_nil, List.getLast?_concat, Option.some.injEq] at hlast
    rw [← hlast, List.concat_eq_append, List.length_append,
      List.length_singleton]
    simp only
    omega

theorem Forwarding.monitored {stream : List (DomainEvent P)}
    {replay : Replay P} (hforwarding : Forwarding stream projector replay)
    (hmonitored : projector.Monitored) :
    (projector.receive apply replay).Monitored := by
  obtain ⟨events, hprefix, hforwarded⟩ := hforwarding
  have hfold := foldl_handler apply projector
    events 0 (Int.add_zero projector.version).symm
  intro progress hprogress
  rw [Projector.receive, hforwarded.handled, hfold, foldl_callback,
    hforwarded.progress] at hprogress ⊢
  dsimp only at hprogress ⊢
  cases hlast : (versions projector.version 0 events).getLast? with
  | none =>
      have hnone : events = [] := by
        simpa [versions] using List.getLast?_eq_none_iff.mp hlast
      rw [hlast, Option.map_none, Option.none_or] at hprogress
      rw [hnone]
      simpa using hmonitored progress hprogress
  | some entry =>
      have hversion := getLast?_versions _ _ hlast
      rw [hlast, Option.map_some, Option.some_or] at hprogress
      cases hprogress
      exact ⟨rfl, rfl, by simpa using hversion⟩

theorem Forwarding.write {replay : Replay P} {events : List (DomainEvent P)}
    {expectedVersion : ℤ} {other : String}
    (hforwarding : Forwarding (store.content other) projector replay)
    (hwrite : store.write streamId events expectedVersion = .ok written) :
    Forwarding (written.content other) projector replay := by
  obtain ⟨next, hprefix, hforwarded⟩ := hforwarding
  refine ⟨next, ?_, hforwarded⟩
  rw [InMemoryEventStore.content_of_write hwrite]
  by_cases hother : other = streamId
  · subst hother
    rw [if_pos rfl, List.drop_append]
    exact hprefix.trans (List.prefix_append _ _)
  · rw [if_neg hother]
    exact hprefix

/-! ## Runs -/

/-- The state of a projector is that of a run over the events before its
version, and its monitor knows the version once it has had a report. -/
structure Projector.Sound (apply : S → DomainEvent P → S) (initial : S)
    (store : InMemoryEventStore H (DomainEvent P)) (projector : Projector S) :
    Prop where
  reflects : Reflects apply initial
    (store.content projector.monitor.streamId) projector.version
    projector.state
  monitored : projector.Monitored

def Stage.Sound (apply : S → DomainEvent P → S) (initial : S)
    (store : InMemoryEventStore H (DomainEvent P)) : Stage S P → Prop
  | .idle => True
  | .ready projector => projector.Sound apply initial store
  | .forwarding projector replay =>
      projector.Sound apply initial store ∧
        Forwarding (store.content projector.monitor.streamId) projector replay

structure ProjectionInvariant (apply : S → DomainEvent P → S) (initial : S)
    (state : ProjectionState W H S P) : Prop where
  stages : ∀ name, (state.stages name).Sound apply initial state.store
  snapshots : ∀ streamId snapshot,
    state.snapshots.get streamId = some snapshot →
      Reflects apply initial (state.store.content streamId) snapshot.version
        snapshot.state

theorem projectionInvariant_initial :
    ProjectionInvariant apply initial
      (ProjectionState.initial : ProjectionState W H S P) where
  stages _ := trivial
  snapshots _ _ hget := nomatch hget

theorem Projector.Sound.write {events : List (DomainEvent P)}
    {expectedVersion : ℤ} (hsound : projector.Sound apply initial store)
    (hwrite : store.write streamId events expectedVersion = .ok written) :
    projector.Sound apply initial written :=
  ⟨hsound.reflects.write hwrite, hsound.monitored⟩

theorem Projector.Sound.receive {replay : Replay P}
    (hsound : projector.Sound apply initial store)
    (hforwarding : Forwarding
      (store.content projector.monitor.streamId) projector replay) :
    (projector.receive apply replay).Sound apply initial store := by
  obtain ⟨events, hprefix, hstate, hversion⟩ :=
    hforwarding.receive apply
  refine ⟨?_, hforwarding.monitored hsound.monitored⟩
  rw [streamId_receive, hstate, hversion]
  exact hsound.reflects.advance hprefix

theorem Projector.sound_start (streamId : String) :
    (⟨initial, 0, .new streamId⟩ : Projector S).Sound apply initial store :=
  ⟨.start _, fun _ hprogress => nomatch hprogress⟩

theorem Stage.Sound.write {stage : Stage S P} {events : List (DomainEvent P)}
    {expectedVersion : ℤ} (hsound : stage.Sound apply initial store)
    (hwrite : store.write streamId events expectedVersion = .ok written) :
    stage.Sound apply initial written := by
  cases stage with
  | idle => trivial
  | ready projector => exact Projector.Sound.write hsound hwrite
  | forwarding projector replay =>
      exact ⟨hsound.1.write hwrite, hsound.2.write hwrite⟩

/-- Wherever a projector has got to, a replay from there on makes its state
the one of a run over the whole stream; and so do the snapshots. -/
structure ProjectionLaw (apply : S → DomainEvent P → S) (initial : S)
    (state : ProjectionState W H S P) : Prop where
  projected : ∀ name projector,
    (state.stages name).projector = some projector →
      projector.Sound apply initial state.store
  caughtUp : ∀ name projector, state.stages name = .ready projector →
    (projector.receive apply (projector.fastForward state.store)).state =
      ProjectionRunner.run apply initial
        (state.store.getEvents projector.monitor.streamId)
  snapshots : ∀ streamId snapshot,
    state.snapshots.get streamId = some snapshot →
      Reflects apply initial (state.store.content streamId) snapshot.version
        snapshot.state

variable {state next : ProjectionState W H S P} {label : ProjectionLabel W P}

/-- A replay that nothing is appended behind comes to the end of the
stream. -/
theorem Projector.Sound.caughtUp
    (hsound : projector.Sound apply initial store) :
    (projector.receive apply (projector.fastForward store)).state =
      ProjectionRunner.run apply initial
        (store.getEvents projector.monitor.streamId) := by
  have hforwarded := forwarded_fastForward hsound.reflects.nonneg store
  have hfold := foldl_handler apply projector
    ((store.content projector.monitor.streamId).drop
      projector.version.toNat) 0 (Int.add_zero projector.version).symm
  rw [Projector.receive, hforwarded.handled, hfold]
  dsimp only
  rw [hsound.reflects.value_eq, ProjectionRunner.run, ← List.foldl_append,
    List.take_append_drop, InMemoryEventStore.getEvents_zero]
  rfl

theorem ProjectionInvariant.law
    (hinv : ProjectionInvariant apply initial state) :
    ProjectionLaw apply initial state where
  projected name projector hprojector := by
    have hsound := hinv.stages name
    cases hstage : state.stages name with
    | idle =>
        rw [hstage] at hprojector
        cases hprojector
    | ready found =>
        rw [hstage] at hprojector hsound
        cases hprojector
        exact hsound
    | forwarding found replay =>
        rw [hstage] at hprojector hsound
        cases hprojector
        exact hsound.1
  caughtUp name projector hready := by
    have hsound := hinv.stages name
    rw [hready] at hsound
    exact Projector.Sound.caughtUp hsound
  snapshots := hinv.snapshots

variable [DecidableEq W]

theorem ProjectionInvariant.enter
    (hinv : ProjectionInvariant apply initial state) (name : W)
    {stage : Stage S P} (hstage : stage.Sound apply initial state.store) :
    ProjectionInvariant apply initial (state.enter name stage) := by
  refine ⟨fun other => ?_, hinv.snapshots⟩
  unfold ProjectionState.enter
  dsimp only
  by_cases hother : other = name
  · subst hother
    rw [Function.update_self]
    exact hstage
  · rw [Function.update_of_ne hother]
    exact hinv.stages other

theorem ProjectionInvariant.step
    (hinv : ProjectionInvariant apply initial state)
    (hstep : projectionStep apply initial state label = some next) :
    ProjectionInvariant apply initial next := by
  cases label with
  | append streamId events expectedVersion =>
      simp only [projectionStep] at hstep
      split at hstep
      next =>
        cases hstep
        exact hinv
      next store calls happend =>
        cases hstep
        have hwrite := (InMemoryEventStore.append_eq_ok_iff.mp happend).1
        exact ⟨fun name => (hinv.stages name).write hwrite,
          fun streamId snapshot hget =>
            (hinv.snapshots streamId snapshot hget).write hwrite⟩
  | start name streamId =>
      cases hstep
      exact hinv.enter name (Projector.sound_start streamId)
  | restore name streamId =>
      simp only [projectionStep] at hstep
      split at hstep
      next =>
        cases hstep
        exact hinv.enter name (Projector.sound_start streamId)
      next snapshot hget =>
        cases hstep
        exact hinv.enter name ⟨hinv.snapshots streamId snapshot hget,
          fun _ hprogress => nomatch hprogress⟩
  | fastForward name =>
      have hsound := hinv.stages name
      simp only [projectionStep] at hstep
      split at hstep
      next projector hready =>
        cases hstep
        rw [hready] at hsound
        exact hinv.enter name ⟨hsound,
          forwarding_fastForward hsound.reflects.nonneg _⟩
      next => cases hstep
  | settle name =>
      have hsound := hinv.stages name
      simp only [projectionStep] at hstep
      split at hstep
      next projector replay hforwarding =>
        cases hstep
        rw [hforwarding] at hsound
        exact hinv.enter name (hsound.1.receive hsound.2)
      next => cases hstep
  | save name timestamp =>
      have hsound := hinv.stages name
      simp only [projectionStep] at hstep
      split at hstep
      next projector hready =>
        cases hstep
        rw [hready] at hsound
        refine ⟨hinv.stages, fun streamId snapshot hget => ?_⟩
        unfold InMemorySnapshotStore.get InMemorySnapshotStore.save at hget
        dsimp only at hget
        rw [InsertionMap.get_set] at hget
        split at hget
        next heq =>
          cases hget
          rw [heq]
          exact hsound.reflects
        next => exact hinv.snapshots streamId snapshot hget
      next => cases hstep

theorem projectionLaw_run {labels : List (ProjectionLabel W P)}
    (hrun : exec (projectionStep apply initial)
      (ProjectionState.initial : ProjectionState W H S P) labels =
        some state) :
    ProjectionLaw apply initial state :=
  (exec_invariant (fun _ _ _ hinv hstep => hinv.step hstep)
    projectionInvariant_initial hrun).law

/-- A projector reads on while the stream grows, and another one goes on from
its snapshot. -/
def snapshotTaken : List (ProjectionLabel ℕ ℕ) :=
  [.append "s" [⟨"Added", 1, 10⟩, ⟨"Added", 2, 20⟩] 0, .start 0 "s",
    .fastForward 0, .append "s" [⟨"Added", 3, 30⟩] 2,
    .append "s" [⟨"Added", 4, 99⟩] 2, .settle 0, .save 0 5, .restore 1 "s",
    .fastForward 1, .settle 1]

theorem projectionLaw_of_snapshotTaken :
    ∃ (state : ProjectionState ℕ ℕ ℕ ℕ) (projector : Projector ℕ),
      exec (projectionStep (fun sum event => sum + event.payload) 0)
        ProjectionState.initial snapshotTaken = some state ∧
      ProjectionLaw (fun sum event => sum + event.payload) 0 state ∧
      state.stages 1 = .ready projector ∧ projector.state = 60 ∧
      projector.monitor.processed = 1 ∧
      projector.monitor.currentVersion = 2 ∧
      state.snapshots.get "s" = some ⟨"s", 2, 30, 5⟩ := by
  have hrun : exec (projectionStep (fun sum event => sum + event.payload) 0)
    (ProjectionState.initial : ProjectionState ℕ ℕ ℕ ℕ) snapshotTaken =
      some _ := rfl
  exact ⟨_, _, hrun, projectionLaw_run hrun, rfl, rfl, rfl, rfl, rfl⟩

end TsCommons.EventSourcing
