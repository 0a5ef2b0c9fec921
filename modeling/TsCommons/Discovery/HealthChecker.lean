import TsCommons.Discovery.ServiceRegistry
import TsCommons.Foundations.LiveIteration
import Mathlib.Data.List.Destutter

/-!
# The health checker

A check holds the entry that was registered when it began, and writes to it
when its function settles, whatever has begun or been registered anew in the
meantime.  The entry shows how its latest checks went.  The handlers are called
in a loop over the array that they may change themselves, and a handler that
stays in it hears of each change once, unless the loop passes over it.  A sweep
over all instances goes on with those that are registered while it runs.
-/

namespace TsCommons.Discovery

open Foundations

variable {H : Type}

structure HealthCheckEntry where
  instanceId : String
  serviceName : String
  intervalMs : ℕ
  consecutiveFailures : ℕ
  status : HealthStatus
deriving DecidableEq, Inhabited

/-- What `check` writes when its function has settled. -/
def HealthCheckEntry.checked (entry : HealthCheckEntry) (healthy : Bool) :
    HealthCheckEntry :=
  if healthy then
    { entry with consecutiveFailures := 0, status := .healthy }
  else
    { entry with
      consecutiveFailures := entry.consecutiveFailures + 1
      status := .unhealthy }

/-- `entries` are the contents of the objects, `created` their number. -/
structure HealthChecker (H : Type) where
  entries : Reference → HealthCheckEntry
  created : ℕ
  checks : InsertionMap String Reference
  changeHandlers : List H
  timers : InsertionMap String ℕ

/-- A call of `check` that waits for its function. -/
structure Check where
  instanceId : String
  entry : Reference
deriving DecidableEq

/-- A call of a handler, for a change of the entry. -/
structure HealthChange (H : Type) where
  handler : H
  entry : Reference
  instanceId : String
  status : HealthStatus
deriving DecidableEq

namespace HealthChecker

def new (changeHandlers : List H) : HealthChecker H :=
  ⟨fun _ => default, 0, .empty, changeHandlers, .empty⟩

def register (checker : HealthChecker H) (instanceId serviceName : String)
    (intervalMs : ℕ) : HealthChecker H :=
  { checker with
    entries := Function.update checker.entries checker.created
      ⟨instanceId, serviceName, intervalMs, 0, .unknown⟩
    created := checker.created + 1
    checks := checker.checks.set instanceId checker.created }

/-- `check` up to the call of its function. -/
def beginCheck (checker : HealthChecker H) (instanceId : String) :
    Option Check :=
  (checker.checks.get instanceId).map fun entry => ⟨instanceId, entry⟩

/-- `check` from the result of its function to the loop over the handlers,
with whether there is one. -/
def endCheck (checker : HealthChecker H) (check : Check) (healthy : Bool) :
    HealthChecker H × Bool :=
  let previous := (checker.entries check.entry).status
  let entry := (checker.entries check.entry).checked healthy
  ({ checker with
      entries := Function.update checker.entries check.entry entry },
    entry.status ≠ previous)

def onHealthChange (checker : HealthChecker H) (handler : H) :
    HealthChecker H :=
  { checker with changeHandlers := checker.changeHandlers ++ [handler] }

/-- The function that `onHealthChange` returns. -/
def unsubscribe [DecidableEq H] (checker : HealthChecker H) (handler : H) :
    HealthChecker H :=
  match checker.changeHandlers.idxOf? handler with
  | none => checker
  | some idx =>
      { checker with changeHandlers := checker.changeHandlers.eraseIdx idx }

def getStatus (checker : HealthChecker H) (instanceId : String) :
    HealthStatus :=
  match checker.checks.get instanceId with
  | none => .unknown
  | some entry => (checker.entries entry).status

def registeredCount (checker : HealthChecker H) : ℕ := checker.checks.size

end HealthChecker

/-! ## Checks, sweeps and timers -/

inductive SweepPhase
  | looping
  | checking (check : Check)
  | finished (registered : List String)
  | failed
deriving DecidableEq

/-- A call of `checkAll`: how many keys its loop has visited, and what it has
found.  One that has finished keeps the instances registered then. -/
structure Sweep where
  visited : ℕ
  results : InsertionMap String HealthStatus
  phase : SweepPhase
deriving DecidableEq

/-- An interval of the runtime that has not been cleared. -/
structure Interval where
  timer : ℕ
  instanceId : String
  intervalMs : ℕ
deriving DecidableEq

/-- The loop of `check` over the handlers: how many it has called, and the
sweep that has called `check`, if one has. -/
structure Notification where
  check : Check
  visited : ℕ
  sweep : Option ℕ
deriving DecidableEq

/-- `outcomes` are the results of the checks of each entry, and `calls` those
of the handlers. -/
structure HealthState (H : Type) where
  checker : HealthChecker H
  running : List Check
  notification : Option Notification
  sweeps : List Sweep
  intervals : List Interval
  issued : ℕ
  outcomes : Reference → List Bool
  calls : List (HealthChange H)

inductive HealthLabel (H : Type)
  | register (instanceId serviceName : String) (intervalMs : ℕ)
  | check (instanceId : String)
  | settle (position : ℕ) (healthy : Bool)
  | checkAll
  | proceed (sweep : ℕ)
  | settleSweep (sweep : ℕ) (healthy : Bool)
  | callHandler
  | handlerThrows
  | endLoop
  | onHealthChange (handler : H)
  | unsubscribe (handler : H)
  | startPolling (instanceId : String)
  | stopPolling (instanceId : String)
  | stopAll
  | tick (position : ℕ)

namespace HealthState

def initial (changeHandlers : List H) : HealthState H where
  checker := .new changeHandlers
  running := []
  notification := none
  sweeps := []
  intervals := []
  issued := 0
  outcomes := fun _ => []
  calls := []

def beginCheck (state : HealthState H) (instanceId : String) :
    HealthState H :=
  { state with
    running := state.running ++
      (state.checker.beginCheck instanceId).toList }

/-- The status that its check has found is put into the results of a sweep,
unless a handler has thrown. -/
def resume (state : HealthState H) (threw : Bool) (sweep : Sweep) : Sweep :=
  match sweep.phase with
  | .checking check =>
      if threw then { sweep with phase := .failed }
      else
        { sweep with
          results := sweep.results.set check.instanceId
            (state.checker.entries check.entry).status
          phase := .looping }
  | _ => sweep

/-- `check` returns or rejects, and the sweep that has called it goes on. -/
def returnCheck (state : HealthState H) (threw : Bool) (sweep : Option ℕ) :
    HealthState H :=
  { state with
    notification := none
    sweeps :=
      match sweep with
      | none => state.sweeps
      | some index => state.sweeps.modify index (state.resume threw) }

def endCheck (state : HealthState H) (check : Check) (healthy : Bool)
    (sweep : Option ℕ) : HealthState H :=
  let ended := state.checker.endCheck check healthy
  let next := { state with
    checker := ended.1
    outcomes := Function.update state.outcomes check.entry
      (state.outcomes check.entry ++ [healthy]) }
  if ended.2 then { next with notification := some ⟨check, 0, sweep⟩ }
  else next.returnCheck false sweep

/-- The loop of `checkAll` takes the next key, if there is one. -/
def proceed (state : HealthState H) (sweep : Sweep) : Sweep :=
  match state.checker.checks.keys[sweep.visited]? with
  | none => { sweep with phase := .finished state.checker.checks.keys }
  | some instanceId =>
      match state.checker.beginCheck instanceId with
      | none => { sweep with
          visited := sweep.visited + 1
          results := sweep.results.set instanceId .unknown }
      | some check => { sweep with
          visited := sweep.visited + 1
          phase := .checking check }

def startPolling (state : HealthState H) (instanceId : String) :
    HealthState H :=
  if state.checker.timers.has instanceId then state
  else
    match state.checker.checks.get instanceId with
    | none => state
    | some entry =>
        { state with
          checker := { state.checker with
            timers := state.checker.timers.set instanceId state.issued }
          intervals := state.intervals ++
            [⟨state.issued, instanceId,
              (state.checker.entries entry).intervalMs⟩]
          issued := state.issued + 1 }

def stopPolling (state : HealthState H) (instanceId : String) :
    HealthState H :=
  match state.checker.timers.get instanceId with
  | none => state
  | some timer =>
      { state with
        checker := { state.checker with
          timers := state.checker.timers.delete instanceId }
        intervals := state.intervals.filter fun interval =>
          interval.timer ≠ timer }

/-- The loop deletes no key but the one it is at. -/
def stopAll (state : HealthState H) : HealthState H :=
  state.checker.timers.keys.foldl stopPolling state

end HealthState

/-- While the handlers are called no other check settles and no interval
ends; what a handler does are steps between its call and the next one. -/
def healthStep [DecidableEq H] (state : HealthState H) :
    HealthLabel H → Option (HealthState H)
  | .register instanceId serviceName intervalMs =>
      some { state with
        checker := state.checker.register instanceId serviceName intervalMs }
  | .check instanceId => some (state.beginCheck instanceId)
  | .settle position healthy =>
      if state.notification = none then
        state.running[position]?.map fun check =>
          { state with running := state.running.eraseIdx position }.endCheck
            check healthy none
      else none
  | .checkAll =>
      some { state with sweeps := state.sweeps ++ [⟨0, .empty, .looping⟩] }
  | .proceed index =>
      match state.sweeps[index]? with
      | some ⟨visited, results, .looping⟩ =>
          some { state with
            sweeps := state.sweeps.set index
              (state.proceed ⟨visited, results, .looping⟩) }
      | _ => none
  | .settleSweep index healthy =>
      match state.notification, state.sweeps[index]? with
      | none, some ⟨_, _, .checking check⟩ =>
          some (state.endCheck check healthy (some index))
      | _, _ => none
  | .callHandler =>
      state.notification.bind fun loop =>
        state.checker.changeHandlers[loop.visited]?.map fun handler =>
          { state with
            notification := some { loop with visited := loop.visited + 1 }
            calls := state.calls ++
              [⟨handler, loop.check.entry, loop.check.instanceId,
                (state.checker.entries loop.check.entry).status⟩] }
  | .handlerThrows =>
      state.notification.bind fun loop =>
        if 0 < loop.visited then some (state.returnCheck true loop.sweep)
        else none
  | .endLoop =>
      state.notification.bind fun loop =>
        if state.checker.changeHandlers.length ≤ loop.visited then
          some (state.returnCheck false loop.sweep)
        else none
  | .onHealthChange handler =>
      some { state with checker := state.checker.onHealthChange handler }
  | .unsubscribe handler =>
      some { state with checker := state.checker.unsubscribe handler }
  | .startPolling instanceId => some (state.startPolling instanceId)
  | .stopPolling instanceId => some (state.stopPolling instanceId)
  | .stopAll => some state.stopAll
  | .tick position =>
      if state.notification = none then
        state.intervals[position]?.map fun interval =>
          state.beginCheck interval.instanceId
      else none

/-! ## What the entries show -/

/-- The status after checks with these results. -/
def statusAfter (outcomes : List Bool) : HealthStatus :=
  match outcomes.getLast? with
  | none => .unknown
  | some true => .healthy
  | some false => .unhealthy

def failuresAtEnd (outcomes : List Bool) : ℕ :=
  (outcomes.reverse.takeWhile (!·)).length

/-- The entry shows its last check, and how many have failed in a row. -/
structure EntryLaw (entry : HealthCheckEntry) (outcomes : List Bool) :
    Prop where
  status : entry.status = statusAfter outcomes
  failures : entry.consecutiveFailures = failuresAtEnd outcomes

/-- A sweep that has finished has a result for every instance that was
registered by then, and one that polls has one interval. -/
structure HealthLaw (state : HealthState H) : Prop where
  shown : ∀ instanceId entry,
    state.checker.checks.get instanceId = some entry →
      EntryLaw (state.checker.entries entry) (state.outcomes entry)
  swept : ∀ sweep ∈ state.sweeps, ∀ registered,
    sweep.phase = .finished registered → sweep.results.keys = registered
  polled : ∀ instanceId, (state.intervals.filter fun interval =>
      interval.instanceId = instanceId).length =
    if state.checker.timers.has instanceId = true then 1 else 0

theorem statusAfter_concat (outcomes : List Bool) (healthy : Bool) :
    statusAfter (outcomes ++ [healthy]) =
      if healthy then .healthy else .unhealthy := by
  rw [statusAfter, List.getLast?_concat]
  cases healthy <;> rfl

theorem failuresAtEnd_concat (outcomes : List Bool) (healthy : Bool) :
    failuresAtEnd (outcomes ++ [healthy]) =
      if healthy then 0 else failuresAtEnd outcomes + 1 := by
  rw [failuresAtEnd, List.reverse_append, List.reverse_singleton,
    List.singleton_append]
  cases healthy <;> rfl

theorem EntryLaw.checked {entry : HealthCheckEntry} {outcomes : List Bool}
    (hlaw : EntryLaw entry outcomes) (healthy : Bool) :
    EntryLaw (entry.checked healthy) (outcomes ++ [healthy]) := by
  constructor
  · rw [statusAfter_concat]
    cases healthy <;> rfl
  · rw [failuresAtEnd_concat]
    cases healthy with
    | true => rfl
    | false => exact congrArg (· + 1) hlaw.failures

/-! ## Sweeps -/

/-- The keys that have been visited have results. -/
def SweepInvariant (keys : List String) (sweep : Sweep) : Prop :=
  match sweep.phase with
  | .looping =>
      sweep.visited ≤ keys.length ∧
        sweep.results.keys = keys.take sweep.visited
  | .checking check =>
      ∃ before, sweep.visited = before + 1 ∧
        keys[before]? = some check.instanceId ∧
        sweep.results.keys = keys.take before
  | .finished registered => sweep.results.keys = registered
  | .failed => True

/-- Instances that are registered meanwhile come at the end of the keys. -/
theorem SweepInvariant.append {keys : List String} {sweep : Sweep}
    (hinv : SweepInvariant keys sweep) (later : List String) :
    SweepInvariant (keys ++ later) sweep := by
  obtain ⟨visited, results, phase⟩ := sweep
  cases phase with
  | looping =>
      obtain ⟨hle, hresults⟩ := hinv
      refine ⟨?_, ?_⟩
      · rw [List.length_append]
        exact Nat.le_add_right_of_le hle
      · rw [List.take_append_of_le_length hle]
        exact hresults
  | checking check =>
      obtain ⟨before, hvisited, hkey, hresults⟩ := hinv
      have hlt := (List.getElem?_eq_some_iff.mp hkey).1
      refine ⟨before, hvisited, ?_, ?_⟩
      · rw [List.getElem?_append_left hlt]
        exact hkey
      · rw [List.take_append_of_le_length hlt.le]
        exact hresults
  | finished registered => exact hinv
  | failed => trivial

/-- A result is put in at the end. -/
theorem keys_set_of_visited {keys : List String} {before : ℕ}
    {instanceId : String} (hnodup : keys.Nodup)
    (hkey : keys[before]? = some instanceId)
    {results : InsertionMap String HealthStatus}
    (hresults : results.keys = keys.take before) (status : HealthStatus) :
    (results.set instanceId status).keys = keys.take (before + 1) := by
  obtain ⟨hlt, hget⟩ := List.getElem?_eq_some_iff.mp hkey
  have hnew : instanceId ∉ results.keys := by
    rw [hresults]
    intro hmem
    obtain ⟨index, hindex, hsame⟩ := List.mem_iff_getElem.mp hmem
    rw [List.length_take] at hindex
    rw [List.getElem_take, ← hget] at hsame
    have heq := (List.Nodup.getElem_inj_iff hnodup).mp hsame
    omega
  rw [InsertionMap.keys_set, if_neg hnew, hresults, List.take_add_one, hkey]
  rfl

/-! ## Timers -/

/-- The intervals are those of the timers. -/
structure TimerInvariant (state : HealthState H) : Prop where
  paired : (state.intervals.map fun interval =>
    (interval.instanceId, interval.timer)) = state.checker.timers.entries
  issued : ∀ timer ∈ state.checker.timers.values, timer < state.issued
  nodup : state.checker.timers.values.Nodup

theorem TimerInvariant.of_same {state next : HealthState H}
    (hinv : TimerInvariant state)
    (hintervals : next.intervals = state.intervals)
    (htimers : next.checker.timers = state.checker.timers)
    (hissued : next.issued = state.issued) : TimerInvariant next where
  paired := by
    rw [hintervals, htimers]
    exact hinv.paired
  issued := by
    rw [htimers, hissued]
    exact hinv.issued
  nodup := by
    rw [htimers]
    exact hinv.nodup

theorem TimerInvariant.length_filter {state : HealthState H}
    (hinv : TimerInvariant state) (instanceId : String) :
    (state.intervals.filter fun interval =>
      interval.instanceId = instanceId).length =
        if state.checker.timers.has instanceId = true then 1 else 0 := by
  have hkeys : state.intervals.map Interval.instanceId =
      state.checker.timers.keys := by
    rw [InsertionMap.keys, ← hinv.paired, List.map_map]
    rfl
  have hcount : (state.intervals.filter fun interval =>
      interval.instanceId = instanceId).length =
        state.checker.timers.keys.count instanceId := by
    rw [← hkeys, List.count_eq_countP, List.countP_map,
      List.countP_eq_length_filter]
    rfl
  have hnodup : state.checker.timers.keys.Nodup := state.checker.timers.nodup
  rw [hcount, hnodup.count]
  exact if_congr InsertionMap.mem_keys_iff rfl rfl

theorem TimerInvariant.startPolling {state : HealthState H}
    (hinv : TimerInvariant state) (instanceId : String) :
    TimerInvariant (state.startPolling instanceId) := by
  unfold HealthState.startPolling
  split
  · exact hinv
  next hnot =>
    split
    · exact hinv
    next entry _ =>
      have hnew : instanceId ∉ state.checker.timers.entries.map Prod.fst := by
        intro hmem
        exact hnot (InsertionMap.mem_keys_iff.mp hmem)
      have hentries : (state.checker.timers.set instanceId
          state.issued).entries =
            state.checker.timers.entries ++ [(instanceId, state.issued)] :=
        InsertionMap.put_of_not_mem _ hnew
      have hvalues : (state.checker.timers.set instanceId
          state.issued).values =
            state.checker.timers.values ++ [state.issued] := by
        rw [InsertionMap.values, hentries, List.map_append]
        rfl
      refine ⟨?_, ?_, ?_⟩
      · rw [List.map_append, hinv.paired, hentries]
        rfl
      · rw [hvalues]
        intro timer htimer
        rcases List.mem_append.mp htimer with hold | hlast
        · exact Nat.lt_succ_of_lt (hinv.issued timer hold)
        · rw [List.mem_singleton.mp hlast]
          exact Nat.lt_succ_self _
      · rw [hvalues]
        refine hinv.nodup.append (List.nodup_singleton _) ?_
        rw [List.disjoint_singleton]
        intro hmem
        exact Nat.lt_irrefl _ (hinv.issued _ hmem)

theorem TimerInvariant.stopPolling {state : HealthState H}
    (hinv : TimerInvariant state) (instanceId : String) :
    TimerInvariant (state.stopPolling instanceId) := by
  unfold HealthState.stopPolling
  split
  · exact hinv
  next timer htimer =>
    rw [InsertionMap.get_eq_some_iff] at htimer
    -- Of two entries with one timer, both are that of the instance.
    have hsame : ∀ entry ∈ state.checker.timers.entries,
        (entry.2 ≠ timer ↔ entry.1 ≠ instanceId) := by
      intro entry hentry
      refine not_congr ⟨fun heq => ?_, fun heq => ?_⟩
      · exact congrArg Prod.fst
          (List.inj_on_of_nodup_map hinv.nodup hentry htimer heq)
      · exact congrArg Prod.snd (List.inj_on_of_nodup_map
          state.checker.timers.nodup hentry htimer heq)
    have hsub : (state.checker.timers.delete instanceId).values.Sublist
        state.checker.timers.values :=
      List.filter_sublist.map Prod.snd
    refine ⟨?_, ?_, hinv.nodup.sublist hsub⟩
    · simp only [InsertionMap.delete]
      rw [← List.filter_congr fun entry hentry =>
        decide_eq_decide.mpr (hsame entry hentry), ← hinv.paired,
        List.filter_map]
      rfl
    · intro other hother
      exact hinv.issued other (hsub.subset hother)

theorem TimerInvariant.stopAll {state : HealthState H}
    (hinv : TimerInvariant state) : TimerInvariant state.stopAll := by
  unfold HealthState.stopAll
  generalize state.checker.timers.keys = keys
  induction keys generalizing state with
  | nil => exact hinv
  | cons first rest ih => exact ih (hinv.stopPolling first)

/-! ## All runs -/

structure HealthInvariant (state : HealthState H) : Prop where
  shown : ∀ entry < state.checker.created,
    EntryLaw (state.checker.entries entry) (state.outcomes entry)
  unborn : ∀ entry, state.checker.created ≤ entry → state.outcomes entry = []
  registered : ∀ instanceId entry,
    state.checker.checks.get instanceId = some entry →
      entry < state.checker.created
  running : ∀ check ∈ state.running, check.entry < state.checker.created
  notified : ∀ loop ∈ state.notification,
    loop.check.entry < state.checker.created
  checking : ∀ sweep ∈ state.sweeps, ∀ check,
    sweep.phase = .checking check → check.entry < state.checker.created
  swept : ∀ sweep ∈ state.sweeps,
    SweepInvariant state.checker.checks.keys sweep
  timers : TimerInvariant state

section Runs

variable {state next : HealthState H} {label : HealthLabel H} {check : Check}

theorem HealthInvariant.law (hinv : HealthInvariant state) :
    HealthLaw state where
  shown instanceId entry hget :=
    hinv.shown entry (hinv.registered instanceId entry hget)
  swept sweep hsweep registered hphase := by
    have hinvariant := hinv.swept sweep hsweep
    rw [SweepInvariant, hphase] at hinvariant
    exact hinvariant
  polled := hinv.timers.length_filter

theorem initial_healthInvariant (changeHandlers : List H) :
    HealthInvariant (HealthState.initial changeHandlers) where
  shown _ hlt := nomatch hlt
  unborn _ _ := rfl
  registered _ _ hget := nomatch hget
  running _ hmem := nomatch hmem
  notified _ hmem := nomatch hmem
  checking _ hmem := nomatch hmem
  swept _ hmem := nomatch hmem
  timers := ⟨rfl, List.forall_mem_nil _, List.nodup_nil⟩

theorem HealthInvariant.register (hinv : HealthInvariant state)
    (instanceId serviceName : String) (intervalMs : ℕ) :
    HealthInvariant { state with
      checker :=
        state.checker.register instanceId serviceName intervalMs } where
  shown entry hlt := by
    simp only [HealthChecker.register] at hlt ⊢
    rcases Nat.lt_succ_iff_lt_or_eq.mp hlt with hold | rfl
    · rw [Function.update_of_ne hold.ne]
      exact hinv.shown entry hold
    · rw [Function.update_self, hinv.unborn _ le_rfl]
      exact ⟨rfl, rfl⟩
  unborn entry hle := hinv.unborn entry (Nat.le_of_succ_le hle)
  registered other entry hget := by
    simp only [HealthChecker.register, InsertionMap.get_set] at hget ⊢
    split at hget
    · cases hget
      exact Nat.lt_succ_self _
    · exact Nat.lt_succ_of_lt (hinv.registered other entry hget)
  running check hmem := Nat.lt_succ_of_lt (hinv.running check hmem)
  notified loop hmem := Nat.lt_succ_of_lt (hinv.notified loop hmem)
  checking sweep hmem check hphase :=
    Nat.lt_succ_of_lt (hinv.checking sweep hmem check hphase)
  swept sweep hmem := by
    have hsweep := hinv.swept sweep hmem
    simp only [HealthChecker.register, InsertionMap.keys_set]
    split
    · exact hsweep
    · exact hsweep.append _
  timers := hinv.timers.of_same rfl rfl rfl

theorem HealthInvariant.beginCheck (hinv : HealthInvariant state)
    (instanceId : String) : HealthInvariant (state.beginCheck instanceId) :=
  { hinv with
    running := by
      refine List.forall_mem_append.mpr ⟨hinv.running, fun check hcheck => ?_⟩
      obtain ⟨entry, hget, rfl⟩ :=
        Option.map_eq_some_iff.mp (Option.mem_toList.mp hcheck)
      exact hinv.registered instanceId entry hget
    timers := hinv.timers.of_same rfl rfl rfl }

theorem HealthInvariant.eraseRunning (hinv : HealthInvariant state)
    (position : ℕ) :
    HealthInvariant { state with
      running := state.running.eraseIdx position } :=
  { hinv with
    running := fun check hcheck =>
      hinv.running check (List.mem_of_mem_eraseIdx hcheck)
    timers := hinv.timers.of_same rfl rfl rfl }

theorem forall_mem_modify {α : Type*} {P : α → Prop} {items : List α}
    {f : α → α} (hall : ∀ item ∈ items, P item)
    (hchanged : ∀ item ∈ items, P (f item)) (index : ℕ) :
    ∀ item ∈ items.modify index f, P item := by
  intro item hitem
  obtain ⟨position, hposition⟩ := List.mem_iff_getElem?.mp hitem
  rw [List.getElem?_modify] at hposition
  obtain ⟨old, hold, rfl⟩ := Option.map_eq_some_iff.mp hposition
  split
  · exact hchanged old (List.mem_of_getElem? hold)
  · exact hall old (List.mem_of_getElem? hold)

theorem SweepInvariant.resume
    {sweep : Sweep} (hswept : SweepInvariant state.checker.checks.keys sweep)
    (threw : Bool) :
    SweepInvariant state.checker.checks.keys (state.resume threw sweep) := by
  unfold HealthState.resume
  split
  next check hphase =>
    rw [SweepInvariant, hphase] at hswept
    obtain ⟨before, hvisited, hkey, hresults⟩ := hswept
    split
    · trivial
    · refine ⟨?_, ?_⟩
      · exact hvisited.trans_le (List.getElem?_eq_some_iff.mp hkey).1
      · rw [hvisited]
        exact keys_set_of_visited state.checker.checks.nodup hkey hresults _
  next => exact hswept

theorem HealthInvariant.returnCheck (hinv : HealthInvariant state)
    (threw : Bool) (sweep : Option ℕ) :
    HealthInvariant (state.returnCheck threw sweep) := by
  have hphase : ∀ sweep check,
      (state.resume threw sweep).phase = .checking check →
        sweep.phase = .checking check := by
    intro sweep check hchecking
    unfold HealthState.resume at hchecking
    split at hchecking
    · split at hchecking <;> cases hchecking
    · exact hchecking
  have htimers : TimerInvariant (state.returnCheck threw sweep) :=
    hinv.timers.of_same rfl rfl rfl
  cases sweep with
  | none =>
      exact { hinv with
        notified := nofun
        timers := htimers }
  | some index =>
      exact { hinv with
        notified := nofun
        checking := forall_mem_modify hinv.checking
          (fun sweep hmem check hchecking =>
            hinv.checking sweep hmem check (hphase sweep check hchecking))
          index
        swept := forall_mem_modify hinv.swept
          (fun sweep hmem => (hinv.swept sweep hmem).resume threw) index
        timers := htimers }

theorem HealthInvariant.endCheck (hinv : HealthInvariant state)
    (hlt : check.entry < state.checker.created) (healthy : Bool)
    (sweep : Option ℕ) :
    HealthInvariant (state.endCheck check healthy sweep) := by
  have hwritten : HealthInvariant { state with
      checker := (state.checker.endCheck check healthy).1
      outcomes := Function.update state.outcomes check.entry
        (state.outcomes check.entry ++ [healthy]) } :=
    { hinv with
      shown := by
        intro entry hentry
        simp only [HealthChecker.endCheck]
        by_cases hsame : entry = check.entry
        · subst hsame
          rw [Function.update_self, Function.update_self]
          exact (hinv.shown _ hlt).checked healthy
        · rw [Function.update_of_ne hsame, Function.update_of_ne hsame]
          exact hinv.shown entry hentry
      unborn := by
        intro entry hle
        have hne : entry ≠ check.entry := (hlt.trans_le hle).ne'
        dsimp only
        rw [Function.update_of_ne hne]
        exact hinv.unborn entry hle
      timers := hinv.timers.of_same rfl rfl rfl }
  unfold HealthState.endCheck
  dsimp only
  split
  · exact { hwritten with
      notified := by
        intro loop hloop
        cases hloop
        exact hlt
      timers := hinv.timers.of_same rfl rfl rfl }
  · exact hwritten.returnCheck false sweep

/-- A sweep that goes on. -/
theorem HealthInvariant.setSweep (hinv : HealthInvariant state)
    (index : ℕ) {sweep : Sweep}
    (hswept : SweepInvariant state.checker.checks.keys sweep)
    (hchecking : ∀ check, sweep.phase = .checking check →
      check.entry < state.checker.created) :
    HealthInvariant { state with sweeps := state.sweeps.set index sweep } :=
  { hinv with
    checking := by
      intro other hmem
      rcases List.mem_or_eq_of_mem_set hmem with hold | rfl
      · exact hinv.checking other hold
      · exact hchecking
    swept := by
      intro other hmem
      rcases List.mem_or_eq_of_mem_set hmem with hold | rfl
      · exact hinv.swept other hold
      · exact hswept
    timers := hinv.timers.of_same rfl rfl rfl }

theorem HealthInvariant.proceed (hinv : HealthInvariant state) {index : ℕ}
    {visited : ℕ} {results : InsertionMap String HealthStatus}
    (hsweep : state.sweeps[index]? = some ⟨visited, results, .looping⟩) :
    HealthInvariant { state with
      sweeps := state.sweeps.set index
        (state.proceed ⟨visited, results, .looping⟩) } := by
  obtain ⟨hle, hresults⟩ :=
    hinv.swept _ (List.mem_of_getElem? hsweep)
  unfold HealthState.proceed
  split
  next hend =>
    refine hinv.setSweep index ?_ nofun
    refine hresults.trans (List.take_of_length_le ?_)
    exact List.getElem?_eq_none_iff.mp hend
  next instanceId hkey =>
    have hmem := InsertionMap.mem_keys_iff.mp (List.mem_of_getElem? hkey)
    obtain ⟨entry, hentry⟩ := Option.isSome_iff_exists.mp hmem
    simp only [HealthChecker.beginCheck, hentry, Option.map_some]
    refine hinv.setSweep index ⟨visited, rfl, hkey, hresults⟩ ?_
    intro check hphase
    cases hphase
    exact hinv.registered instanceId entry hentry

/-- Only the timers differ. -/
structure KeepsChecks (state next : HealthState H) : Prop where
  entries : next.checker.entries = state.checker.entries
  created : next.checker.created = state.checker.created
  checks : next.checker.checks = state.checker.checks
  changeHandlers : next.checker.changeHandlers = state.checker.changeHandlers
  running : next.running = state.running
  notification : next.notification = state.notification
  sweeps : next.sweeps = state.sweeps
  outcomes : next.outcomes = state.outcomes
  calls : next.calls = state.calls

theorem HealthInvariant.keeps (hinv : HealthInvariant state)
    (hkeeps : KeepsChecks state next) (htimers : TimerInvariant next) :
    HealthInvariant next := by
  obtain ⟨hentries, hcreated, hchecks, -, hrunning, hnotification, hsweeps,
    houtcomes, -⟩ := hkeeps
  constructor
  · rw [hentries, hcreated, houtcomes]
    exact hinv.shown
  · rw [hcreated, houtcomes]
    exact hinv.unborn
  · rw [hchecks, hcreated]
    exact hinv.registered
  · rw [hrunning, hcreated]
    exact hinv.running
  · rw [hnotification, hcreated]
    exact hinv.notified
  · rw [hsweeps, hcreated]
    exact hinv.checking
  · rw [hsweeps, hchecks]
    exact hinv.swept
  · exact htimers

theorem keepsChecks_startPolling (state : HealthState H)
    (instanceId : String) :
    KeepsChecks state (state.startPolling instanceId) := by
  unfold HealthState.startPolling
  split
  · exact ⟨rfl, rfl, rfl, rfl, rfl, rfl, rfl, rfl, rfl⟩
  · split <;> exact ⟨rfl, rfl, rfl, rfl, rfl, rfl, rfl, rfl, rfl⟩

theorem keepsChecks_stopPolling (state : HealthState H)
    (instanceId : String) :
    KeepsChecks state (state.stopPolling instanceId) := by
  unfold HealthState.stopPolling
  split <;> exact ⟨rfl, rfl, rfl, rfl, rfl, rfl, rfl, rfl, rfl⟩

theorem keepsChecks_foldl (keys : List String) (state : HealthState H) :
    KeepsChecks state (keys.foldl HealthState.stopPolling state) := by
  induction keys generalizing state with
  | nil => exact ⟨rfl, rfl, rfl, rfl, rfl, rfl, rfl, rfl, rfl⟩
  | cons first rest ih =>
      have hfirst := keepsChecks_stopPolling state first
      have hrest := ih (state.stopPolling first)
      exact ⟨hrest.entries.trans hfirst.entries,
        hrest.created.trans hfirst.created, hrest.checks.trans hfirst.checks,
        hrest.changeHandlers.trans hfirst.changeHandlers,
        hrest.running.trans hfirst.running,
        hrest.notification.trans hfirst.notification,
        hrest.sweeps.trans hfirst.sweeps,
        hrest.outcomes.trans hfirst.outcomes, hrest.calls.trans hfirst.calls⟩

theorem HealthInvariant.step [DecidableEq H] (hinv : HealthInvariant state)
    (hstep : healthStep state label = some next) : HealthInvariant next := by
  cases label with
  | register instanceId serviceName intervalMs =>
      cases hstep
      exact hinv.register instanceId serviceName intervalMs
  | check instanceId =>
      cases hstep
      exact hinv.beginCheck instanceId
  | settle position healthy =>
      obtain ⟨-, hsettle⟩ := Option.ite_none_right_eq_some.mp hstep
      obtain ⟨check, hcheck, rfl⟩ := Option.map_eq_some_iff.mp hsettle
      exact (hinv.eraseRunning position).endCheck
        (hinv.running check (List.mem_of_getElem? hcheck)) healthy none
  | checkAll =>
      cases hstep
      exact
        { hinv with
          checking := by
            refine List.forall_mem_append.mpr ⟨hinv.checking, ?_⟩
            exact List.forall_mem_singleton.mpr nofun
          swept := by
            refine List.forall_mem_append.mpr ⟨hinv.swept, ?_⟩
            exact List.forall_mem_singleton.mpr ⟨Nat.zero_le _, rfl⟩
          timers := hinv.timers.of_same rfl rfl rfl }
  | proceed index =>
      simp only [healthStep] at hstep
      split at hstep
      next hsweep =>
        cases hstep
        exact hinv.proceed hsweep
      next => cases hstep
  | settleSweep index healthy =>
      simp only [healthStep] at hstep
      split at hstep
      next check _ hsweep =>
        cases hstep
        exact hinv.endCheck (hinv.checking _ (List.mem_of_getElem? hsweep)
          check rfl) healthy (some index)
      next => cases hstep
  | callHandler =>
      obtain ⟨loop, hloop, hcall⟩ := Option.bind_eq_some_iff.mp hstep
      obtain ⟨handler, -, rfl⟩ := Option.map_eq_some_iff.mp hcall
      exact
        { hinv with
          notified := by
            intro other hother
            cases hother
            exact hinv.notified loop hloop
          timers := hinv.timers.of_same rfl rfl rfl }
  | handlerThrows =>
      obtain ⟨loop, -, hthrow⟩ := Option.bind_eq_some_iff.mp hstep
      obtain ⟨-, heq⟩ := Option.ite_none_right_eq_some.mp hthrow
      cases heq
      exact hinv.returnCheck true loop.sweep
  | endLoop =>
      obtain ⟨loop, -, hend⟩ := Option.bind_eq_some_iff.mp hstep
      obtain ⟨-, heq⟩ := Option.ite_none_right_eq_some.mp hend
      cases heq
      exact hinv.returnCheck false loop.sweep
  | onHealthChange handler =>
      cases hstep
      exact { hinv with timers := hinv.timers.of_same rfl rfl rfl }
  | unsubscribe handler =>
      cases hstep
      unfold HealthChecker.unsubscribe
      split
      · exact hinv
      · exact { hinv with timers := hinv.timers.of_same rfl rfl rfl }
  | startPolling instanceId =>
      cases hstep
      exact hinv.keeps (keepsChecks_startPolling state instanceId)
        (hinv.timers.startPolling instanceId)
  | stopPolling instanceId =>
      cases hstep
      exact hinv.keeps (keepsChecks_stopPolling state instanceId)
        (hinv.timers.stopPolling instanceId)
  | stopAll =>
      cases hstep
      exact hinv.keeps (keepsChecks_foldl _ state) hinv.timers.stopAll
  | tick position =>
      obtain ⟨-, htick⟩ := Option.ite_none_right_eq_some.mp hstep
      obtain ⟨interval, -, rfl⟩ := Option.map_eq_some_iff.mp htick
      exact hinv.beginCheck interval.instanceId

/-- In every run the entries show their latest checks, a sweep that has
finished has found every instance, and there is one interval for each instance
that is polled. -/
theorem healthLaw_run [DecidableEq H] (changeHandlers : List H)
    {labels : List (HealthLabel H)}
    (hrun : exec healthStep (HealthState.initial changeHandlers) labels =
      some state) : HealthLaw state :=
  (exec_invariant (fun _ _ _ hinv hstep => hinv.step hstep)
    (initial_healthInvariant changeHandlers) hrun).law

end Runs

/-- Two checks of an instance overlap, and a sweep comes upon an instance that
is registered while it runs.  The handler 8 takes itself out when it is called
for the second time, after the handler 7. -/
def overlappingChecks : List (HealthLabel ℕ) :=
  [.register "a" "orders" 1000, .startPolling "a", .checkAll, .proceed 0,
    .tick 0, .register "b" "orders" 1000, .settle 0 false, .callHandler,
    .callHandler, .endLoop, .settleSweep 0 true, .callHandler, .callHandler,
    .unsubscribe 8, .endLoop, .proceed 0, .settleSweep 0 false, .callHandler,
    .endLoop, .proceed 0]

theorem healthLaw_overlappingChecks :
    ∃ state, exec healthStep (HealthState.initial [7, 8]) overlappingChecks =
        some state ∧
      HealthLaw state ∧ state.checker.getStatus "a" = .healthy ∧
      state.sweeps.map Sweep.phase = [.finished ["a", "b"]] := by
  have hrun : exec healthStep (HealthState.initial [7, 8]) overlappingChecks =
    some _ := rfl
  exact ⟨_, hrun, healthLaw_run [7, 8] hrun, rfl, rfl⟩

/-! ## Notifications -/

/-- The elements that differ from the one before them, after another one. -/
theorem destutter'_concat {α : Type*} [DecidableEq α] (first last : α)
    (middle : List α) :
    (middle ++ [last]).destutter' (· ≠ ·) first =
      middle.destutter' (· ≠ ·) first ++
        if last = middle.getLastD first then [] else [last] := by
  induction middle generalizing first with
  | nil =>
      rw [List.nil_append, List.destutter'_singleton, List.destutter'_nil,
        List.getLastD_nil]
      by_cases heq : last = first
      · rw [if_pos heq, if_neg (not_not.mpr heq.symm)]
        rfl
      · rw [if_neg heq, if_pos (Ne.symm heq)]
        rfl
  | cons second rest ih =>
      rw [List.cons_append, List.getLastD_cons]
      by_cases heq : first = second
      · subst heq
        rw [List.destutter'_cons_neg _ (not_not.mpr rfl),
          List.destutter'_cons_neg _ (not_not.mpr rfl), ih]
      · rw [List.destutter'_cons_pos _ heq, List.destutter'_cons_pos _ heq,
          ih, List.cons_append]

def statusOf (healthy : Bool) : HealthStatus :=
  if healthy then .healthy else .unhealthy

/-- The statuses that differ from the one before them. -/
def changesOf (outcomes : List Bool) : List HealthStatus :=
  ((outcomes.map statusOf).destutter' (· ≠ ·) .unknown).tail

theorem getLastD_map_statusOf (outcomes : List Bool) :
    (outcomes.map statusOf).getLastD .unknown = statusAfter outcomes := by
  rw [List.getLastD_eq_getLast?, List.getLast?_map, statusAfter]
  cases outcomes.getLast? with
  | none => rfl
  | some healthy => cases healthy <;> rfl

theorem changesOf_concat (outcomes : List Bool) (healthy : Bool) :
    changesOf (outcomes ++ [healthy]) = changesOf outcomes ++
      if statusOf healthy = statusAfter outcomes then []
      else [statusOf healthy] := by
  rw [changesOf, List.map_append, List.map_singleton, destutter'_concat,
    getLastD_map_statusOf, List.tail_append_of_ne_nil]
  · rfl
  · exact List.destutter'_ne_nil _ _

section Notifications

variable [DecidableEq H] {state next : HealthState H} {label : HealthLabel H}
  {handler : H} {check : Check} {loop : Notification} {entry : Reference}

/-- What the handler has heard of the entry. -/
def HealthState.heard (state : HealthState H) (handler : H)
    (entry : Reference) : List HealthStatus :=
  (state.calls.filter fun change =>
    change.handler = handler ∧ change.entry = entry).map HealthChange.status

/-- The change of the entry that a loop has still to tell the handler. -/
def HealthState.due (state : HealthState H) (handler : H)
    (entry : Reference) : List HealthStatus :=
  match state.notification with
  | none => []
  | some loop =>
      if loop.check.entry = entry ∧
          handler ∈ unvisited state.checker.changeHandlers loop.visited then
        [(state.checker.entries entry).status]
      else []

/-- The handler neither comes nor goes, no handler throws before its turn, and
none that a loop has called is taken out when it is the next. -/
def Hears (handler : H) (state : HealthState H) : HealthLabel H → Prop
  | .handlerThrows =>
      ∀ loop ∈ state.notification,
        handler ∉ unvisited state.checker.changeHandlers loop.visited
  | .onHealthChange other => other ≠ handler
  | .unsubscribe other =>
      other ≠ handler ∧
        ∀ loop ∈ state.notification,
          ∀ idx ∈ state.checker.changeHandlers.idxOf? other,
            idx < loop.visited →
              state.checker.changeHandlers[loop.visited]? ≠ some handler
  | _ => True

instance Hears.decidable (handler : H) (state : HealthState H) :
    (label : HealthLabel H) → Decidable (Hears handler state label)
  | .handlerThrows =>
      inferInstanceAs (Decidable (∀ loop ∈ state.notification,
        handler ∉ unvisited state.checker.changeHandlers loop.visited))
  | .onHealthChange other => inferInstanceAs (Decidable (other ≠ handler))
  | .unsubscribe other =>
      inferInstanceAs (Decidable (other ≠ handler ∧
        ∀ loop ∈ state.notification,
          ∀ idx ∈ state.checker.changeHandlers.idxOf? other,
            idx < loop.visited →
              state.checker.changeHandlers[loop.visited]? ≠ some handler))
  | .register _ _ _ | .check _ | .settle _ _ | .checkAll | .proceed _
  | .settleSweep _ _ | .callHandler | .endLoop | .startPolling _
  | .stopPolling _ | .stopAll | .tick _ => .isTrue trivial

structure HearingInvariant (handler : H) (state : HealthState H) : Prop
    extends HealthInvariant state where
  subscribed : state.checker.changeHandlers.count handler = 1
  heard : ∀ entry, state.heard handler entry ++ state.due handler entry =
    changesOf (state.outcomes entry)

theorem due_of_none (hnone : state.notification = none) :
    state.due handler entry = [] := by
  rw [HealthState.due, hnone]

theorem due_of_some (hloop : state.notification = some loop) :
    state.due handler entry =
      if loop.check.entry = entry ∧
          handler ∈ unvisited state.checker.changeHandlers loop.visited then
        [(state.checker.entries entry).status]
      else [] := by
  rw [HealthState.due, hloop]

/-- What is due depends on the loop and the handlers that it has not called. -/
theorem HearingInvariant.of_same (hinv : HearingInvariant handler state)
    (hnext : HealthInvariant next)
    (hsubscribed : next.checker.changeHandlers.count handler = 1)
    (hunvisited : ∀ loop ∈ state.notification,
      (handler ∈ unvisited next.checker.changeHandlers loop.visited ↔
        handler ∈ unvisited state.checker.changeHandlers loop.visited))
    (hnotification : next.notification = state.notification)
    (hentries : ∀ entry < state.checker.created,
      next.checker.entries entry = state.checker.entries entry)
    (hcalls : next.calls = state.calls)
    (houtcomes : next.outcomes = state.outcomes) :
    HearingInvariant handler next := by
  refine ⟨hnext, hsubscribed, fun entry => ?_⟩
  have hdue : next.due handler entry = state.due handler entry := by
    cases hloop : state.notification with
    | none => rw [due_of_none hloop, due_of_none (hnotification.trans hloop)]
    | some loop =>
        rw [due_of_some hloop, due_of_some (hnotification.trans hloop)]
        simp only [hunvisited loop hloop]
        by_cases hsame : loop.check.entry = entry
        · rw [← hsame, hentries _ (hinv.notified loop hloop)]
        · rw [if_neg fun hboth => hsame hboth.1,
            if_neg fun hboth => hsame hboth.1]
  rw [HealthState.heard, hcalls, houtcomes, hdue]
  exact hinv.heard entry

theorem HearingInvariant.of_keeps (hinv : HearingInvariant handler state)
    (hnext : HealthInvariant next) (hkeeps : KeepsChecks state next) :
    HearingInvariant handler next := by
  refine hinv.of_same hnext ?_ (fun loop _ => ?_) hkeeps.notification
    (fun entry _ => congrFun hkeeps.entries entry) hkeeps.calls
    hkeeps.outcomes
  · rw [hkeeps.changeHandlers]
    exact hinv.subscribed
  · rw [hkeeps.changeHandlers]

/-- A loop that ends has nothing to tell the handler any more. -/
theorem HearingInvariant.returnCheck (hinv : HearingInvariant handler state)
    (hdue : ∀ entry, state.due handler entry = []) (threw : Bool)
    (sweep : Option ℕ) :
    HearingInvariant handler (state.returnCheck threw sweep) := by
  refine ⟨hinv.toHealthInvariant.returnCheck threw sweep, hinv.subscribed,
    fun entry => ?_⟩
  have hheard := hinv.heard entry
  rw [hdue entry] at hheard
  exact hheard

theorem due_of_not_mem (hloop : state.notification = some loop)
    (hnot : handler ∉ unvisited state.checker.changeHandlers loop.visited)
    (entry : Reference) : state.due handler entry = [] := by
  rw [due_of_some hloop, if_neg fun hboth => hnot hboth.2]

/-- The loop calls the next handler. -/
theorem HearingInvariant.callHandler (hinv : HearingInvariant handler state)
    (hloop : state.notification = some loop) {called : H}
    (hcalled : state.checker.changeHandlers[loop.visited]? = some called)
    (hnext : healthStep state .callHandler = some next) :
    HearingInvariant handler next := by
  have hinvariant := hinv.toHealthInvariant.step hnext
  simp only [healthStep, hloop, Option.bind_some, hcalled,
    Option.map_some] at hnext
  cases hnext
  refine ⟨hinvariant, hinv.subscribed, fun entry => ?_⟩
  have hheard := hinv.heard entry
  have hone := hinv.subscribed ▸ count_unvisited_le
    state.checker.changeHandlers loop.visited handler
  have hcount := count_unvisited_next hcalled handler
  rw [due_of_some hloop] at hheard
  unfold HealthState.heard at hheard ⊢
  dsimp only [HealthState.due]
  rw [List.filter_append, List.map_append, List.append_assoc, ← hheard]
  congr 1
  by_cases hsame : loop.check.entry = entry
  · subst hsame
    by_cases hself : called = handler
    · subst hself
      rw [if_pos rfl] at hcount
      have hvisited : called ∉ unvisited state.checker.changeHandlers
          (loop.visited + 1) := by
        rw [← List.count_eq_zero]
        omega
      have hbefore : called ∈ unvisited state.checker.changeHandlers
          loop.visited := by
        rw [← List.count_pos_iff]
        omega
      rw [if_neg fun hboth => hvisited hboth.2, if_pos ⟨rfl, hbefore⟩]
      simp
    · rw [unvisited_eq_cons hcalled]
      simp [hself, Ne.symm hself]
  · simp [hsame]

theorem status_checked (entry : HealthCheckEntry) (healthy : Bool) :
    (entry.checked healthy).status = statusOf healthy := by
  cases healthy <;> rfl

/-- A check whose result changes the status leaves it due to every handler. -/
theorem HearingInvariant.due_endCheck (hinv : HearingInvariant handler state)
    (hlt : check.entry < state.checker.created) (healthy : Bool)
    (sweep : Option ℕ) (entry : Reference) :
    (state.endCheck check healthy sweep).due handler entry =
      if check.entry = entry ∧
          statusOf healthy ≠ statusAfter (state.outcomes check.entry)
        then [statusOf healthy] else [] := by
  have hmem : handler ∈ state.checker.changeHandlers := by
    rw [← List.count_pos_iff, hinv.subscribed]
    exact Nat.one_pos
  have hchanged : (state.checker.endCheck check healthy).2 =
      decide (statusOf healthy ≠ statusAfter (state.outcomes check.entry)) := by
    simp only [HealthChecker.endCheck]
    rw [status_checked, (hinv.shown check.entry hlt).status]
  unfold HealthState.endCheck
  dsimp only
  rw [hchanged]
  by_cases hunchanged : statusOf healthy =
      statusAfter (state.outcomes check.entry)
  · rw [if_neg (by simpa using hunchanged),
      if_neg fun hboth => hboth.2 hunchanged]
    rfl
  · rw [if_pos (by simpa using hunchanged)]
    dsimp only [HealthState.due, HealthChecker.endCheck]
    by_cases hsame : check.entry = entry
    · subst hsame
      rw [if_pos ⟨rfl, hmem⟩, if_pos ⟨rfl, hunchanged⟩,
        Function.update_self, status_checked]
    · rw [if_neg fun hboth => hsame hboth.1,
        if_neg fun hboth => hsame hboth.1]

theorem HearingInvariant.endCheck (hinv : HearingInvariant handler state)
    (hidle : state.notification = none)
    (hlt : check.entry < state.checker.created) (healthy : Bool)
    (sweep : Option ℕ) :
    HearingInvariant handler (state.endCheck check healthy sweep) := by
  have hdue := hinv.due_endCheck hlt healthy sweep
  refine ⟨hinv.toHealthInvariant.endCheck hlt healthy sweep, ?_,
    fun entry => ?_⟩
  · unfold HealthState.endCheck
    dsimp only
    split
    · exact hinv.subscribed
    · exact hinv.subscribed
  have hold := hinv.heard entry
  rw [due_of_none hidle, List.append_nil] at hold
  have hheard : (state.endCheck check healthy sweep).heard handler entry =
      state.heard handler entry := by
    unfold HealthState.endCheck
    dsimp only
    split <;> rfl
  have houtcomes : (state.endCheck check healthy sweep).outcomes =
      Function.update state.outcomes check.entry
        (state.outcomes check.entry ++ [healthy]) := by
    unfold HealthState.endCheck
    dsimp only
    split <;> rfl
  rw [hheard, houtcomes, hold, hdue]
  by_cases hsame : check.entry = entry
  · subst hsame
    rw [Function.update_self, changesOf_concat]
    congr 1
    by_cases hunchanged : statusOf healthy =
        statusAfter (state.outcomes check.entry)
    · rw [if_pos hunchanged, if_neg fun hboth => hboth.2 hunchanged]
    · rw [if_neg hunchanged, if_pos ⟨rfl, hunchanged⟩]
  · rw [Function.update_of_ne (Ne.symm hsame),
      if_neg fun hboth => hsame hboth.1, List.append_nil]

theorem HearingInvariant.onHealthChange (hinv : HearingInvariant handler state)
    {other : H} (hother : other ≠ handler) :
    HearingInvariant handler { state with
      checker := state.checker.onHealthChange other } := by
  have hstep : healthStep state (.onHealthChange other) = some _ := rfl
  have hnext := hinv.toHealthInvariant.step hstep
  refine hinv.of_same hnext ?_ (fun loop _ => ?_) rfl (fun _ _ => rfl) rfl rfl
  · simp only [HealthChecker.onHealthChange]
    rw [List.count_append, hinv.subscribed,
      List.count_eq_zero_of_not_mem (by simpa using hother.symm)]
  · simp only [HealthChecker.onHealthChange, unvisited_push, List.mem_append]
    refine or_iff_left ?_
    split
    · simpa using hother.symm
    · exact List.not_mem_nil

theorem HearingInvariant.unsubscribe (hinv : HearingInvariant handler state)
    {other : H} (hhears : Hears handler state (.unsubscribe other)) :
    HearingInvariant handler { state with
      checker := state.checker.unsubscribe other } := by
  obtain ⟨hother, hbehind⟩ := hhears
  have hstep : healthStep state (.unsubscribe other) = some _ := rfl
  have hnext := hinv.toHealthInvariant.step hstep
  unfold HealthChecker.unsubscribe at hnext ⊢
  cases hidx : state.checker.changeHandlers.idxOf? other with
  | none => exact hinv
  | some idx =>
      rw [hidx] at hnext
      obtain ⟨hlt, hitem, -⟩ := List.idxOf?_eq_some_iff.mp hidx
      have hget := List.getElem?_eq_some_iff.mpr ⟨hlt, hitem⟩
      refine hinv.of_same hnext ?_ (fun loop hloop => ?_) rfl
        (fun _ _ => rfl) rfl rfl
      · have hcount := count_splice hget handler
        rw [if_neg hother, Nat.add_zero, hinv.subscribed] at hcount
        exact hcount.symm
      · rw [← List.count_pos_iff, ← List.count_pos_iff]
        dsimp only
        rcases Nat.lt_or_ge idx loop.visited with hpassed | hahead
        · rw [count_unvisited_splice_behind state.checker.changeHandlers
            hpassed, if_neg (hbehind loop hloop idx hidx hpassed),
            Nat.add_zero]
        · rw [count_unvisited_splice_ahead hahead hget, if_neg hother,
            Nat.add_zero]

theorem HearingInvariant.step (hinv : HearingInvariant handler state)
    (hhears : Hears handler state label)
    (hstep : healthStep state label = some next) :
    HearingInvariant handler next := by
  have hnext := hinv.toHealthInvariant.step hstep
  cases label with
  | register instanceId serviceName intervalMs =>
      cases hstep
      refine hinv.of_same hnext hinv.subscribed (fun _ _ => Iff.rfl) rfl
        (fun entry hlt => ?_) rfl rfl
      exact Function.update_of_ne hlt.ne _ _
  | check instanceId =>
      cases hstep
      exact hinv.of_same hnext hinv.subscribed (fun _ _ => Iff.rfl) rfl
        (fun _ _ => rfl) rfl rfl
  | settle position healthy =>
      obtain ⟨hidle, hsettle⟩ := Option.ite_none_right_eq_some.mp hstep
      obtain ⟨check, hcheck, rfl⟩ := Option.map_eq_some_iff.mp hsettle
      have hless := hinv.of_same
        (hinv.toHealthInvariant.eraseRunning position) hinv.subscribed
        (fun _ _ => Iff.rfl) rfl (fun _ _ => rfl) rfl rfl
      exact hless.endCheck hidle
        (hinv.running check (List.mem_of_getElem? hcheck)) healthy none
  | checkAll =>
      cases hstep
      exact hinv.of_same hnext hinv.subscribed (fun _ _ => Iff.rfl) rfl
        (fun _ _ => rfl) rfl rfl
  | proceed index =>
      simp only [healthStep] at hstep
      split at hstep
      next =>
        cases hstep
        exact hinv.of_same hnext hinv.subscribed (fun _ _ => Iff.rfl) rfl
          (fun _ _ => rfl) rfl rfl
      next => cases hstep
  | settleSweep index healthy =>
      simp only [healthStep] at hstep
      split at hstep
      next check hidle hsweep =>
        cases hstep
        exact hinv.endCheck hidle (hinv.checking _
          (List.mem_of_getElem? hsweep) check rfl) healthy (some index)
      next => cases hstep
  | callHandler =>
      obtain ⟨loop, hloop, hcall⟩ := Option.bind_eq_some_iff.mp hstep
      obtain ⟨called, hcalled, -⟩ := Option.map_eq_some_iff.mp hcall
      exact hinv.callHandler hloop hcalled hstep
  | handlerThrows =>
      obtain ⟨loop, hloop, hthrow⟩ := Option.bind_eq_some_iff.mp hstep
      obtain ⟨-, heq⟩ := Option.ite_none_right_eq_some.mp hthrow
      cases heq
      exact hinv.returnCheck (due_of_not_mem hloop (hhears loop hloop)) true
        loop.sweep
  | endLoop =>
      obtain ⟨loop, hloop, hend⟩ := Option.bind_eq_some_iff.mp hstep
      obtain ⟨hlength, heq⟩ := Option.ite_none_right_eq_some.mp hend
      cases heq
      refine hinv.returnCheck (due_of_not_mem hloop ?_) false loop.sweep
      rw [unvisited_eq_nil hlength]
      exact List.not_mem_nil
  | onHealthChange other =>
      cases hstep
      exact hinv.onHealthChange hhears
  | unsubscribe other =>
      cases hstep
      exact hinv.unsubscribe hhears
  | startPolling instanceId =>
      cases hstep
      exact hinv.of_keeps hnext (keepsChecks_startPolling state instanceId)
  | stopPolling instanceId =>
      cases hstep
      exact hinv.of_keeps hnext (keepsChecks_stopPolling state instanceId)
  | stopAll =>
      cases hstep
      exact hinv.of_keeps hnext
        (keepsChecks_foldl state.checker.timers.keys state)
  | tick position =>
      obtain ⟨-, htick⟩ := Option.ite_none_right_eq_some.mp hstep
      obtain ⟨interval, -, rfl⟩ := Option.map_eq_some_iff.mp htick
      exact hinv.of_same hnext hinv.subscribed (fun _ _ => Iff.rfl) rfl
        (fun _ _ => rfl) rfl rfl

end Notifications

/-- A handler that takes itself out when it is called takes the turn of the
next one. -/
example : (exec healthStep (HealthState.initial [7, 8])
    [.register "a" "orders" 1000, .check "a", .settle 0 true, .callHandler,
      .unsubscribe 7, .endLoop]).map (fun state =>
        (state.heard 7 0, state.heard 8 0, state.checker.changeHandlers)) =
    some ([.healthy], [], [8]) := by
  decide +kernel

end TsCommons.Discovery
