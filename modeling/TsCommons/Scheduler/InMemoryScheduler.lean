import TsCommons.Foundations.Execution
import TsCommons.Foundations.InsertionMap
import Mathlib.Algebra.Order.Ring.Rat
import Mathlib.Data.ENat.Basic
import Mathlib.Logic.Function.Basic

/-!
# The in-memory scheduler

A call of `trigger` that is let through leaves a record behind and runs its
job, which it awaits.  Whatever is called until the job settles, the call goes
on with the registration, the record and the limiter object it has started
with.
-/

namespace TsCommons.Scheduler

open Foundations

/-- What a promise rejects with: an `Error`, or another value, of which only
`String(value)` is used. -/
inductive Thrown
  | error (message : String)
  | other (text : String)
deriving DecidableEq

/-- The message of what was thrown, if anything was assigned to it. -/
def errorMessage : Option Thrown → String
  | none => "undefined"
  | some (.error message) => message
  | some (.other text) => text

/-! ## Jobs -/

structure Job where
  name : String
deriving DecidableEq

structure JobRegistration where
  jobId : String
  job : Job
  maxConcurrency : Option ℕ∞ := none
  maxRetries : Option ℚ := none
  retryBackoffMs : Option ℚ := none
deriving DecidableEq

namespace JobRegistration

def concurrencyLimit (registration : JobRegistration) : ℕ∞ :=
  registration.maxConcurrency.getD 1

def retries (registration : JobRegistration) : ℚ :=
  registration.maxRetries.getD 0

def backoffMs (registration : JobRegistration) : ℚ :=
  registration.retryBackoffMs.getD 100

end JobRegistration

/-- The parts of `exec-${idCounter}-${Date.now()}`. -/
structure ExecutionId where
  idCounter : ℕ
  now : ℚ
deriving DecidableEq

inductive JobStatus
  | idle
  | running
  | succeeded
  | failed
  | cancelled
deriving DecidableEq

structure JobRecord where
  jobId : String
  jobName : String
  executionId : ExecutionId
  status : JobStatus
  scheduledAtMs : ℚ
  startedAtMs : Option ℚ
  completedAtMs : Option ℚ
  failureReason : Option String
  attemptNumber : ℕ
deriving DecidableEq

structure JobContext (M : Type) where
  jobId : String
  executionId : ExecutionId
  scheduledAtMs : ℚ
  attemptNumber : ℕ
  metadata : M
deriving DecidableEq

def buildRunningRecord (registration : JobRegistration)
    (executionId : ExecutionId) (now : ℚ) : JobRecord where
  jobId := registration.jobId
  jobName := registration.job.name
  executionId := executionId
  status := .running
  scheduledAtMs := now
  startedAtMs := some now
  completedAtMs := none
  failureReason := none
  attemptNumber := 1

def succeededRecord (base : JobRecord) (now : ℚ) : JobRecord :=
  { base with status := .succeeded, completedAtMs := some now }

def failedRecord (base : JobRecord) (reason : String) (now : ℚ) : JobRecord :=
  { base with
    status := .failed
    completedAtMs := some now
    failureReason := some reason }

inductive SchedulerError
  | jobNotFoundError (jobId : String)
  | jobAlreadyRegisteredError (jobId : String)
  | jobConcurrencyLimitError (jobId : String) (maxConcurrency : ℕ∞)
deriving DecidableEq

namespace SchedulerError

def name : SchedulerError → String
  | jobNotFoundError _ => "JobNotFoundError"
  | jobAlreadyRegisteredError _ => "JobAlreadyRegisteredError"
  | jobConcurrencyLimitError _ _ => "JobConcurrencyLimitError"

/-- `numberText` is how a number reads in a template string. -/
def message (numberText : ℕ∞ → String) : SchedulerError → String
  | jobNotFoundError jobId => "Job \"" ++ jobId ++ "\" is not registered"
  | jobAlreadyRegisteredError jobId =>
      "Job \"" ++ jobId ++ "\" is already registered"
  | jobConcurrencyLimitError jobId maxConcurrency =>
      "Job \"" ++ jobId ++ "\" exceeded max concurrency of " ++
        numberText maxConcurrency

end SchedulerError

/-! ## The registry, the limiters and the statistics -/

abbrev JobRegistry := InsertionMap String JobRegistration

namespace JobRegistry

def register (registry : JobRegistry) (registration : JobRegistration) :
    Except SchedulerError JobRegistry :=
  if registry.has registration.jobId then
    .error (.jobAlreadyRegisteredError registration.jobId)
  else .ok (registry.set registration.jobId registration)

def unregister (registry : JobRegistry) (jobId : String) :
    Except SchedulerError JobRegistry :=
  if registry.has jobId then .ok (registry.delete jobId)
  else .error (.jobNotFoundError jobId)

end JobRegistry

structure ConcurrencyLimiter where
  maxConcurrency : ℕ∞
  counts : InsertionMap String ℕ
deriving DecidableEq

namespace ConcurrencyLimiter

def new (maxConcurrency : ℕ∞) : ConcurrencyLimiter where
  maxConcurrency := maxConcurrency
  counts := .empty

def getCount (limiter : ConcurrencyLimiter) (key : String) : ℕ :=
  (limiter.counts.get key).getD 0

def isAllowed (limiter : ConcurrencyLimiter) (key : String) : Bool :=
  (limiter.getCount key : ℕ∞) < limiter.maxConcurrency

def acquire (limiter : ConcurrencyLimiter) (key : String) :
    ConcurrencyLimiter :=
  { limiter with counts := limiter.counts.set key (limiter.getCount key + 1) }

def release (limiter : ConcurrencyLimiter) (key : String) :
    ConcurrencyLimiter :=
  if limiter.getCount key > 0 then
    { limiter with
      counts := limiter.counts.set key (limiter.getCount key - 1) }
  else limiter

theorem getCount_acquire (limiter : ConcurrencyLimiter)
    (key other : String) :
    (limiter.acquire key).getCount other =
      limiter.getCount other + if other = key then 1 else 0 := by
  by_cases hother : other = key
  · subst other
    simp [acquire, getCount]
  · simp [acquire, getCount, InsertionMap.get_set_of_ne _ _ hother, hother]

theorem getCount_release (limiter : ConcurrencyLimiter)
    (key other : String) :
    (limiter.release key).getCount other =
      limiter.getCount other - if other = key then 1 else 0 := by
  unfold release
  by_cases hpos : limiter.getCount key > 0
  · rw [if_pos hpos]
    by_cases hother : other = key
    · subst other
      simp [getCount]
    · simp [getCount, InsertionMap.get_set_of_ne _ _ hother, hother]
  · rw [if_neg hpos]
    by_cases hother : other = key
    · have hzero : limiter.getCount key = 0 := by omega
      simp [hother, hzero]
    · simp [hother]

@[simp] theorem maxConcurrency_acquire (limiter : ConcurrencyLimiter)
    (key : String) :
    (limiter.acquire key).maxConcurrency = limiter.maxConcurrency := rfl

@[simp] theorem maxConcurrency_release (limiter : ConcurrencyLimiter)
    (key : String) :
    (limiter.release key).maxConcurrency = limiter.maxConcurrency := by
  unfold release
  split <;> rfl

end ConcurrencyLimiter

structure StatsInternal where
  total : ℤ
  succeeded : ℤ
  failed : ℤ
  active : ℤ
deriving DecidableEq

def StatsInternal.zero : StatsInternal := ⟨0, 0, 0, 0⟩

def incrementActive (stats : StatsInternal) : StatsInternal :=
  { stats with total := stats.total + 1, active := stats.active + 1 }

inductive Outcome
  | succeeded
  | failed
deriving DecidableEq

def decrementActive (stats : StatsInternal) : Outcome → StatsInternal
  | .succeeded =>
      { stats with
        succeeded := stats.succeeded + 1
        active := stats.active - 1 }
  | .failed =>
      { stats with failed := stats.failed + 1, active := stats.active - 1 }

/-! ## Executions -/

/-- Where `run` stands: in an attempt of its job, in the delay behind one, or
before its `finalize`, when `runWithRetries` has returned or thrown. -/
inductive Progress
  | executing (attempt : ℕ)
  | delaying (attempt : ℕ) (lastErr : Thrown)
  | returned
  | threw (lastErr : Option Thrown)
deriving DecidableEq

/-- A call of `run` that has not finished, and what it has captured. -/
structure Run (M : Type) where
  reg : JobRegistration
  base : JobRecord
  metadata : M
  limiter : Option ℕ
  progress : Progress
deriving DecidableEq

/-- What the scheduler does, and what its calls throw. -/
inductive Effect (M : Type)
  | triggered (jobId : String) (executionId : ExecutionId)
  | executed (context : JobContext M)
  | delayed (ms : ℚ)
  | completed (record : JobRecord)
  | cleared
  | threw (error : SchedulerError)
deriving DecidableEq

/-- `limiters` holds references to `objects`, of which the first `allocated`
are in use.  `idCounter` belongs to the module: other schedulers count it up,
too.  `inFlight` and `log`, newest first, are history. -/
structure State (M : Type) where
  idCounter : ℕ
  registry : JobRegistry
  records : InsertionMap ExecutionId JobRecord
  history : InsertionMap String (List ExecutionId)
  limiters : InsertionMap String ℕ
  objects : ℕ → ConcurrencyLimiter
  allocated : ℕ
  stats : StatsInternal
  inFlight : List (Run M)
  log : List (Effect M)

inductive Label (M : Type)
  | register (registration : JobRegistration)
  | unregister (jobId : String)
  | trigger (jobId : String) (metadata : M) (idNow now : ℚ)
  | jobSettles (executionId : ExecutionId) (outcome : Except Thrown Unit)
  | delaySettles (executionId : ExecutionId) (outcome : Except Thrown Unit)
  | finalize (executionId : ExecutionId) (now : ℚ)
  | clear
  | idTaken

variable {M : Type}

/-- The loop of `runWithRetries`, from this attempt to its next `await`. -/
def Run.attempt (run : Run M) (attempt : ℕ) (lastErr : Option Thrown) :
    Run M :=
  if (attempt : ℚ) ≤ run.reg.retries then
    { run with progress := .executing attempt }
  else { run with progress := .threw lastErr }

def Run.context (run : Run M) (attempt : ℕ) : JobContext M where
  jobId := run.base.jobId
  executionId := run.base.executionId
  scheduledAtMs := run.base.scheduledAtMs
  attemptNumber := attempt + 1
  metadata := run.metadata

/-- What a call of `run` asks its surroundings for before it waits. -/
def Run.asks (run : Run M) : List (Effect M) :=
  match run.progress with
  | .executing attempt => [.executed (run.context attempt)]
  | .delaying attempt _ => [.delayed (run.reg.backoffMs * 2 ^ attempt)]
  | _ => []

def Run.afterJob (run : Run M) (attempt : ℕ) : Except Thrown Unit → Run M
  | .ok () => { run with progress := .returned }
  | .error err =>
      if (attempt : ℚ) < run.reg.retries then
        { run with progress := .delaying attempt err }
      else run.attempt (attempt + 1) (some err)

/-- A delay that rejects ends the loop. -/
def Run.afterDelay (run : Run M) (attempt : ℕ) (lastErr : Thrown) :
    Except Thrown Unit → Run M
  | .ok () => run.attempt (attempt + 1) (some lastErr)
  | .error err => { run with progress := .threw (some err) }

namespace State

def initial (idCounter : ℕ) : State M where
  idCounter := idCounter
  registry := .empty
  records := .empty
  history := .empty
  limiters := .empty
  objects := fun _ => .new 0
  allocated := 0
  stats := .zero
  inFlight := []
  log := []

def throw (state : State M) (error : SchedulerError) : State M :=
  { state with log := .threw error :: state.log }

/-- `new ConcurrencyLimiter(maxConcurrency)`, under this key. -/
def setLimiter (state : State M) (jobId : String) (maxConcurrency : ℕ∞) :
    State M :=
  { state with
    limiters := state.limiters.set jobId state.allocated
    objects := Function.update state.objects state.allocated
      (.new maxConcurrency)
    allocated := state.allocated + 1 }

def register (state : State M) (registration : JobRegistration) : State M :=
  match state.registry.register registration with
  | .error error => state.throw error
  | .ok registry =>
      { state with registry }.setLimiter registration.jobId
        registration.concurrencyLimit

def unregister (state : State M) (jobId : String) : State M :=
  match state.registry.unregister jobId with
  | .error error => state.throw error
  | .ok registry =>
      { state with
        registry
        limiters := state.limiters.delete jobId }

def appendHistory (state : State M) (jobId : String)
    (executionId : ExecutionId) : State M :=
  let existing := (state.history.get jobId).getD []
  { state with history := state.history.set jobId (existing ++ [executionId]) }

/-- The limiter object behind a reference changes. -/
def updateLimiter (state : State M)
    (change : ConcurrencyLimiter → ConcurrencyLimiter) :
    Option ℕ → State M
  | none => state
  | some limiter =>
      { state with
        objects := Function.update state.objects limiter
          (change (state.objects limiter)) }

/-- A call of `run` goes on to its next `await`. -/
def await (state : State M) (run : Run M) : State M :=
  { state with
    inFlight := run :: state.inFlight
    log := run.asks ++ state.log }

/-- `trigger` behind its two checks. -/
def start (state : State M) (reg : JobRegistration) (jobId : String)
    (metadata : M) (limiter : Option ℕ) (idNow now : ℚ) : State M :=
  let acquired := state.updateLimiter (fun limiter => limiter.acquire jobId)
    limiter
  let executionId : ExecutionId := ⟨acquired.idCounter + 1, idNow⟩
  let base := buildRunningRecord reg executionId now
  let recorded : State M :=
    { acquired with
      idCounter := acquired.idCounter + 1
      records := acquired.records.set executionId base
      log := .triggered jobId executionId :: acquired.log }
  let listed := recorded.appendHistory jobId executionId
  let run : Run M := ⟨reg, base, metadata, limiter, .executing 0⟩
  { listed with stats := incrementActive listed.stats }.await
    (run.attempt 0 none)

def trigger (state : State M) (jobId : String) (metadata : M)
    (idNow now : ℚ) : State M :=
  match state.registry.get jobId with
  | none => state.throw (.jobNotFoundError jobId)
  | some reg =>
      match state.limiters.get jobId with
      | none => state.start reg jobId metadata none idNow now
      | some limiter =>
          if (state.objects limiter).isAllowed jobId then
            state.start reg jobId metadata (some limiter) idNow now
          else
            state.throw
              (.jobConcurrencyLimitError jobId reg.concurrencyLimit)

def finalize (state : State M) (base : JobRecord) (outcome : Outcome)
    (reason : Option String) (limiter : Option ℕ) (now : ℚ) : State M :=
  let done :=
    match outcome with
    | .succeeded => succeededRecord base now
    | .failed => failedRecord base (reason.getD "unknown") now
  { state with
    records := state.records.set base.executionId done
    stats := decrementActive state.stats outcome
    log := .completed done :: state.log }.updateLimiter
      (fun limiter => limiter.release base.jobId) limiter

def getRecord (state : State M) (executionId : ExecutionId) :
    Option JobRecord :=
  state.records.get executionId

def getJobHistory (state : State M) (jobId : String) : List JobRecord :=
  ((state.history.get jobId).getD []).filterMap state.records.get

/-- Total, successful, failed and active executions. -/
def getStats (state : State M) : StatsInternal := state.stats

def isRegistered (state : State M) (jobId : String) : Bool :=
  state.registry.has jobId

def clear (state : State M) : State M :=
  { state with
    registry := .empty
    records := .empty
    history := .empty
    limiters := .empty
    stats := .zero
    log := .cleared :: state.log }

/-- The call that runs this execution. -/
def findRun (state : State M) (executionId : ExecutionId) :
    Option (Run M) :=
  state.inFlight.find? fun run => run.base.executionId = executionId

def leave (state : State M) (executionId : ExecutionId) : State M :=
  { state with
    inFlight := state.inFlight.eraseP fun run =>
      run.base.executionId = executionId }

end State

def step (state : State M) : Label M → Option (State M)
  | .register registration => some (state.register registration)
  | .unregister jobId => some (state.unregister jobId)
  | .trigger jobId metadata idNow now =>
      some (state.trigger jobId metadata idNow now)
  | .jobSettles executionId outcome =>
      (state.findRun executionId).bind fun run =>
        match run.progress with
        | .executing attempt =>
            some ((state.leave executionId).await (run.afterJob attempt outcome))
        | _ => none
  | .delaySettles executionId outcome =>
      (state.findRun executionId).bind fun run =>
        match run.progress with
        | .delaying attempt lastErr =>
            some ((state.leave executionId).await
              (run.afterDelay attempt lastErr outcome))
        | _ => none
  | .finalize executionId now =>
      (state.findRun executionId).bind fun run =>
        match run.progress with
        | .returned =>
            some ((state.leave executionId).finalize run.base .succeeded none
              run.limiter now)
        | .threw lastErr =>
            some ((state.leave executionId).finalize run.base .failed
              (some (errorMessage lastErr)) run.limiter now)
        | _ => none
  | .clear => some state.clear
  | .idTaken => some { state with idCounter := state.idCounter + 1 }

section UpdateLimiter

variable (state : State M) (change : ConcurrencyLimiter → ConcurrencyLimiter)
  (limiter : Option ℕ)

@[simp] theorem idCounter_updateLimiter :
    (state.updateLimiter change limiter).idCounter = state.idCounter := by
  cases limiter <;> rfl

@[simp] theorem registry_updateLimiter :
    (state.updateLimiter change limiter).registry = state.registry := by
  cases limiter <;> rfl

@[simp] theorem records_updateLimiter :
    (state.updateLimiter change limiter).records = state.records := by
  cases limiter <;> rfl

@[simp] theorem history_updateLimiter :
    (state.updateLimiter change limiter).history = state.history := by
  cases limiter <;> rfl

@[simp] theorem limiters_updateLimiter :
    (state.updateLimiter change limiter).limiters = state.limiters := by
  cases limiter <;> rfl

@[simp] theorem allocated_updateLimiter :
    (state.updateLimiter change limiter).allocated = state.allocated := by
  cases limiter <;> rfl

@[simp] theorem stats_updateLimiter :
    (state.updateLimiter change limiter).stats = state.stats := by
  cases limiter <;> rfl

@[simp] theorem inFlight_updateLimiter :
    (state.updateLimiter change limiter).inFlight = state.inFlight := by
  cases limiter <;> rfl

@[simp] theorem log_updateLimiter :
    (state.updateLimiter change limiter).log = state.log := by
  cases limiter <;> rfl

theorem maxConcurrency_updateLimiter
    (hchange : ∀ limiter,
      (change limiter).maxConcurrency = limiter.maxConcurrency)
    (reference : ℕ) :
    ((state.updateLimiter change limiter).objects reference).maxConcurrency =
      (state.objects reference).maxConcurrency := by
  cases limiter with
  | none => rfl
  | some limiter =>
      by_cases hreference : reference = limiter
      · subst reference
        simp [State.updateLimiter, hchange]
      · simp [State.updateLimiter, hreference]

end UpdateLimiter

@[simp] theorem base_attempt (run : Run M) (attempt : ℕ)
    (lastErr : Option Thrown) :
    (run.attempt attempt lastErr).base = run.base := by
  unfold Run.attempt
  split <;> rfl

@[simp] theorem limiter_attempt (run : Run M) (attempt : ℕ)
    (lastErr : Option Thrown) :
    (run.attempt attempt lastErr).limiter = run.limiter := by
  unfold Run.attempt
  split <;> rfl

section Start

variable (state : State M) (reg : JobRegistration) (jobId : String)
  (metadata : M) (limiter : Option ℕ) (idNow now : ℚ)

/-- The record that `trigger` makes of an execution. -/
def State.newRecord : JobRecord :=
  buildRunningRecord reg ⟨state.idCounter + 1, idNow⟩ now

/-- The call that runs the execution, in its first `await`. -/
def State.newRun : Run M :=
  (⟨reg, state.newRecord reg idNow now, metadata, limiter, .executing 0⟩ :
    Run M).attempt 0 none

@[simp] theorem base_newRun :
    (state.newRun reg metadata limiter idNow now).base =
      state.newRecord reg idNow now := by
  rw [State.newRun, base_attempt]

@[simp] theorem limiter_newRun :
    (state.newRun reg metadata limiter idNow now).limiter = limiter := by
  rw [State.newRun, limiter_attempt]

@[simp] theorem registry_start :
    (state.start reg jobId metadata limiter idNow now).registry =
      state.registry := by
  simp [State.start, State.await, State.appendHistory]

@[simp] theorem limiters_start :
    (state.start reg jobId metadata limiter idNow now).limiters =
      state.limiters := by
  simp [State.start, State.await, State.appendHistory]

@[simp] theorem allocated_start :
    (state.start reg jobId metadata limiter idNow now).allocated =
      state.allocated := by
  simp [State.start, State.await, State.appendHistory]

@[simp] theorem objects_start :
    (state.start reg jobId metadata limiter idNow now).objects =
      (state.updateLimiter (fun limiter => limiter.acquire jobId)
        limiter).objects := rfl

@[simp] theorem inFlight_start :
    (state.start reg jobId metadata limiter idNow now).inFlight =
      state.newRun reg metadata limiter idNow now :: state.inFlight := by
  simp [State.start, State.await, State.appendHistory, State.newRun,
    State.newRecord]

@[simp] theorem idCounter_start :
    (state.start reg jobId metadata limiter idNow now).idCounter =
      state.idCounter + 1 := by
  simp [State.start, State.await, State.appendHistory]

@[simp] theorem records_start :
    (state.start reg jobId metadata limiter idNow now).records =
      state.records.set ⟨state.idCounter + 1, idNow⟩
        (state.newRecord reg idNow now) := by
  simp [State.start, State.await, State.appendHistory, State.newRecord]

@[simp] theorem history_start :
    (state.start reg jobId metadata limiter idNow now).history =
      state.history.set jobId ((state.history.get jobId).getD [] ++
        [⟨state.idCounter + 1, idNow⟩]) := by
  simp [State.start, State.await, State.appendHistory]

@[simp] theorem stats_start :
    (state.start reg jobId metadata limiter idNow now).stats =
      incrementActive state.stats := by
  simp [State.start, State.await, State.appendHistory]

theorem log_start :
    (state.start reg jobId metadata limiter idNow now).log =
      (state.newRun reg metadata limiter idNow now).asks ++
        .triggered jobId ⟨state.idCounter + 1, idNow⟩ :: state.log := by
  simp [State.start, State.await, State.appendHistory, State.newRun,
    State.newRecord]

end Start

/-! ## What a step can be -/

variable {state next : State M}

theorem perm_eraseP_of_find {α : Type} {test : α → Bool} {entry : α}
    {entries : List α} (hfind : entries.find? test = some entry) :
    entries.Perm (entry :: entries.eraseP test) := by
  obtain ⟨htest, before, after, rfl, hbefore⟩ :=
    List.find?_eq_some_iff_append.mp hfind
  have herase : (before ++ entry :: after).eraseP test = before ++ after := by
    rw [List.eraseP_append_right _ (by simpa using hbefore),
      List.eraseP_cons_of_pos htest]
  rw [herase]
  exact List.perm_middle

/-- A call that has been resumed is the same call. -/
theorem afterJob_keeps (run : Run M) (attempt : ℕ)
    (outcome : Except Thrown Unit) :
    (run.afterJob attempt outcome).base = run.base ∧
      (run.afterJob attempt outcome).limiter = run.limiter := by
  cases outcome with
  | ok done => exact ⟨rfl, rfl⟩
  | error err =>
      by_cases hretry : (attempt : ℚ) < run.reg.retries
      · rw [Run.afterJob, if_pos hretry]
        exact ⟨rfl, rfl⟩
      · rw [Run.afterJob, if_neg hretry]
        exact ⟨base_attempt _ _ _, limiter_attempt _ _ _⟩

theorem afterDelay_keeps (run : Run M) (attempt : ℕ) (lastErr : Thrown)
    (outcome : Except Thrown Unit) :
    (run.afterDelay attempt lastErr outcome).base = run.base ∧
      (run.afterDelay attempt lastErr outcome).limiter = run.limiter := by
  cases outcome with
  | ok done => exact ⟨base_attempt _ _ _, limiter_attempt _ _ _⟩
  | error err => exact ⟨rfl, rfl⟩

/-- What a call of `trigger` that is let through has found. -/
structure LetsThrough (state : State M) (jobId : String)
    (reg : JobRegistration) (limiter : Option ℕ) : Prop where
  registered : state.registry.get jobId = some reg
  found : state.limiters.get jobId = limiter
  allowed : ∀ reference, limiter = some reference →
    (state.objects reference).isAllowed jobId = true

theorem trigger_cases (state : State M) (jobId : String) (metadata : M)
    (idNow now : ℚ) :
    (∃ error, state.trigger jobId metadata idNow now = state.throw error) ∨
      ∃ reg limiter, LetsThrough state jobId reg limiter ∧
        state.trigger jobId metadata idNow now =
          state.start reg jobId metadata limiter idNow now := by
  unfold State.trigger
  cases hreg : state.registry.get jobId with
  | none =>
      left
      exact ⟨.jobNotFoundError jobId, rfl⟩
  | some reg =>
      simp only
      cases hlimiter : state.limiters.get jobId with
      | none =>
          right
          refine ⟨reg, none, ⟨hreg, hlimiter, ?_⟩, rfl⟩
          intro reference hreference
          cases hreference
      | some limiter =>
          simp only
          by_cases hallowed : (state.objects limiter).isAllowed jobId = true
          · right
            rw [if_pos hallowed]
            refine ⟨reg, some limiter, ⟨hreg, hlimiter, ?_⟩, rfl⟩
            intro reference hreference
            cases hreference
            exact hallowed
          · left
            rw [if_neg hallowed]
            exact ⟨_, rfl⟩

/-- A call throws, changes the registrations, starts, resumes or finishes an
execution, or resets. -/
theorem step_cases {label : Label M} (hstep : step state label = some next) :
    (∃ error, next = state.throw error) ∨
    (∃ registration, label = .register registration ∧
      state.registry.get registration.jobId = none ∧
      next = { state with
        registry := state.registry.set registration.jobId
          registration }.setLimiter registration.jobId
            registration.concurrencyLimit) ∨
    (∃ jobId, label = .unregister jobId ∧
      next = { state with
        registry := state.registry.delete jobId
        limiters := state.limiters.delete jobId }) ∨
    (∃ jobId metadata idNow now reg limiter,
      LetsThrough state jobId reg limiter ∧
      label = .trigger jobId metadata idNow now ∧
      next = state.start reg jobId metadata limiter idNow now) ∨
    (∃ executionId run resumed,
      state.findRun executionId = some run ∧
      resumed.base = run.base ∧ resumed.limiter = run.limiter ∧
      next = (state.leave executionId).await resumed) ∨
    (∃ executionId run outcome reason now,
      state.findRun executionId = some run ∧
      label = .finalize executionId now ∧
      next = (state.leave executionId).finalize run.base outcome reason
        run.limiter now) ∨
    (label = .clear ∧ next = state.clear) ∨
    (label = .idTaken ∧
      next = { state with idCounter := state.idCounter + 1 }) := by
  cases label with
  | register registration =>
      cases hstep
      unfold State.register JobRegistry.register
      cases hget : state.registry.get registration.jobId with
      | none =>
          right
          left
          simp only [InsertionMap.has, hget]
          exact ⟨registration, rfl, hget, rfl⟩
      | some reg =>
          left
          simp only [InsertionMap.has, hget]
          exact ⟨.jobAlreadyRegisteredError registration.jobId, rfl⟩
  | unregister jobId =>
      cases hstep
      unfold State.unregister JobRegistry.unregister
      by_cases hhas : state.registry.has jobId = true
      · right
        right
        left
        rw [if_pos hhas]
        exact ⟨jobId, rfl, rfl⟩
      · left
        rw [if_neg hhas]
        exact ⟨.jobNotFoundError jobId, rfl⟩
  | trigger jobId metadata idNow now =>
      cases hstep
      rcases trigger_cases state jobId metadata idNow now with
        hthrows | ⟨reg, limiter, hlets, hstarts⟩
      · left
        exact hthrows
      · right
        right
        right
        left
        exact ⟨jobId, metadata, idNow, now, reg, limiter, hlets, rfl,
          hstarts⟩
  | jobSettles executionId outcome =>
      simp only [step, Option.bind_eq_some_iff] at hstep
      obtain ⟨run, hfind, hstep⟩ := hstep
      right
      right
      right
      right
      left
      cases hprogress : run.progress with
      | executing attempt =>
          simp only [hprogress, Option.some.injEq] at hstep
          obtain ⟨hbase, hlimiter⟩ := afterJob_keeps run attempt outcome
          exact ⟨executionId, run, _, hfind, hbase, hlimiter, hstep.symm⟩
      | _ => simp [hprogress] at hstep
  | delaySettles executionId outcome =>
      simp only [step, Option.bind_eq_some_iff] at hstep
      obtain ⟨run, hfind, hstep⟩ := hstep
      right
      right
      right
      right
      left
      cases hprogress : run.progress with
      | delaying attempt lastErr =>
          simp only [hprogress, Option.some.injEq] at hstep
          obtain ⟨hbase, hlimiter⟩ :=
            afterDelay_keeps run attempt lastErr outcome
          exact ⟨executionId, run, _, hfind, hbase, hlimiter, hstep.symm⟩
      | _ => simp [hprogress] at hstep
  | finalize executionId now =>
      simp only [step, Option.bind_eq_some_iff] at hstep
      obtain ⟨run, hfind, hstep⟩ := hstep
      right
      right
      right
      right
      right
      left
      cases hprogress : run.progress with
      | returned =>
          simp only [hprogress, Option.some.injEq] at hstep
          exact ⟨executionId, run, .succeeded, none, now, hfind, rfl,
            hstep.symm⟩
      | threw lastErr =>
          simp only [hprogress, Option.some.injEq] at hstep
          exact ⟨executionId, run, .failed, _, now, hfind, rfl,
            hstep.symm⟩
      | _ => simp [hprogress] at hstep
  | clear =>
      cases hstep
      simp
  | idTaken =>
      cases hstep
      simp

end TsCommons.Scheduler
