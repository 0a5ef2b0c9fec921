import TsCommons.Foundations.Execution
import TsCommons.Idempotency.Store
import Mathlib.Logic.Function.Basic

/-!
# The idempotent use case as a system of interleaved calls

`IdempotentUseCase.execute` is a coroutine.  A call runs from one `await` to
the next without interruption, and between two such runs the other calls, the
inner use case and the clock may move.  The store answers synchronously, so a
run that ends at `await this.store.op(…)` has already performed `op`; the
value it answered travels with the suspended call.  Calls are numbered, and
any number of them may be under way.
-/

namespace TsCommons.Idempotency

open Foundations

structure IdempotencyConflictError where
  message : String
  idempotencyKey : String
deriving DecidableEq

def IdempotencyConflictError.create (key : String) :
    IdempotencyConflictError where
  message := "Idempotency conflict: operation for key \"" ++ key ++
    "\" is already in progress"
  idempotencyKey := key

/-- What a call of `execute` can reject with. -/
inductive Failure (E : Type)
  | conflict (error : IdempotencyConflictError)
  | inner (error : E)
deriving DecidableEq

structure IdempotencyMetrics where
  hits : ℕ
  misses : ℕ
  conflicts : ℕ
  errors : ℕ
deriving DecidableEq

namespace IdempotencyMetrics

def recordHit (metrics : IdempotencyMetrics) : IdempotencyMetrics :=
  { metrics with hits := metrics.hits + 1 }

def recordMiss (metrics : IdempotencyMetrics) : IdempotencyMetrics :=
  { metrics with misses := metrics.misses + 1 }

def recordConflict (metrics : IdempotencyMetrics) : IdempotencyMetrics :=
  { metrics with conflicts := metrics.conflicts + 1 }

def recordError (metrics : IdempotencyMetrics) : IdempotencyMetrics :=
  { metrics with errors := metrics.errors + 1 }

end IdempotencyMetrics

/-- Where one call of `execute` stands.  The constructors between `notCalled`
and `returned` are its suspensions, in the order of the source, each with the
value the awaited promise carries. -/
inductive Progress (T E : Type)
  | notCalled
  | gettingResult (cached : Option T)
  | acquiring (acquired : Bool)
  | gettingResultAgain (cached2 : Option T)
  | executing
  | executed (outcome : Except E T)
  | storing (result : T)
  | releasing (error : E)
  | returned (result : T)
  | threw (failure : Failure E)
deriving DecidableEq

namespace Progress

variable {T E : Type}

/-- The call has acquired the lock and has neither stored a result nor
released the lock since. -/
def Holds : Progress T E → Bool
  | .acquiring acquired => acquired
  | .executing => true
  | .executed _ => true
  | _ => false

/-- The call has started its inner execution and has neither stored its
result nor released the lock since. -/
def Works : Progress T E → Bool
  | .executing => true
  | .executed _ => true
  | _ => false

/-- The inner execution of the call is in flight, or it has resolved and its
result is not stored yet. -/
def OwesResult : Progress T E → Bool
  | .executing => true
  | .executed (.ok _) => true
  | _ => false

/-- The result a call has returned or is bound to return. -/
def answer : Progress T E → Option T
  | .gettingResult cached => cached
  | .gettingResultAgain cached2 => cached2
  | .storing result => some result
  | .returned result => some result
  | _ => none

/-- The last run of a call, which settles the promise of `execute`, with the
counter it increments. -/
def settle (key : IdempotencyKey) : Progress T E →
    Option (Progress T E × (IdempotencyMetrics → IdempotencyMetrics))
  | .gettingResult (some cached) =>
      some (.returned cached, IdempotencyMetrics.recordHit)
  | .gettingResultAgain (some cached2) =>
      some (.returned cached2, IdempotencyMetrics.recordHit)
  | .gettingResultAgain none =>
      some (.threw (.conflict (.create key.value)),
        IdempotencyMetrics.recordConflict)
  | .storing result => some (.returned result, id)
  | .releasing error =>
      some (.threw (.inner error), IdempotencyMetrics.recordError)
  | _ => none

theorem Works.holds {progress : Progress T E} (hworks : progress.Works) :
    progress.Holds := by
  cases progress <;> simp [Works, Holds] at hworks ⊢

theorem not_holds_of_settle {key : IdempotencyKey}
    {progress next : Progress T E}
    {record : IdempotencyMetrics → IdempotencyMetrics}
    (hsettle : progress.settle key = some (next, record)) :
    ¬ progress.Holds ∧ ¬ next.Holds ∧
      ∀ result, next.answer = some result → progress.answer = some result := by
  cases progress with
  | gettingResult cached =>
      cases cached <;> simp [settle] at hsettle
      rcases hsettle with ⟨rfl, _⟩
      simp [Holds, answer]
  | gettingResultAgain cached2 =>
      cases cached2 <;> simp [settle] at hsettle <;>
        rcases hsettle with ⟨rfl, _⟩ <;> simp [Holds, answer]
  | storing result =>
      simp [settle] at hsettle
      rcases hsettle with ⟨rfl, _⟩
      simp [Holds, answer]
  | releasing error =>
      simp [settle] at hsettle
      rcases hsettle with ⟨rfl, _⟩
      simp [Holds, answer]
  | _ => simp [settle] at hsettle

end Progress

/-- The decorated use case: the lifetime it gives to locks and results, and
the key of the input of each call. -/
structure IdempotentUseCase where
  ttlMs : ℚ
  keyOf : ℕ → IdempotencyKey

/-- The two last components are history that no step reads: until when the
lock that a call acquired was valid, and which call last wrote the entry of a
key. -/
structure State (T E : Type) where
  clock : ℚ
  store : InMemoryIdempotencyStore T
  metrics : Option IdempotencyMetrics
  calls : ℕ → Progress T E
  lockedUntil : ℕ → Option ℚ
  writer : IdempotencyKey → Option ℕ

/-- One run of a call, named after the operation it ends with; or a move of
the clock, of an inner execution, or a cleanup of the store. -/
inductive Label (T E : Type)
  | tick (now : ℚ)
  | cleanup
  | getResult (call : ℕ)
  | tryAcquire (call : ℕ) (lockedAt : ℚ)
  | getResultAgain (call : ℕ)
  | innerExecute (call : ℕ)
  | innerSettles (call : ℕ) (outcome : Except E T)
  | storeResult (call : ℕ)
  | release (call : ℕ)
  | settle (call : ℕ)
deriving DecidableEq

variable {T E : Type}

/-- The call a label moves. -/
def Label.call : Label T E → Option ℕ
  | .tick _ => none
  | .cleanup => none
  | .getResult call => some call
  | .tryAcquire call _ => some call
  | .getResultAgain call => some call
  | .innerExecute call => some call
  | .innerSettles call _ => some call
  | .storeResult call => some call
  | .release call => some call
  | .settle call => some call

def State.initial (now : ℚ) (metrics : Option IdempotencyMetrics) :
    State T E where
  clock := now
  store := .empty
  metrics := metrics
  calls := fun _ => .notCalled
  lockedUntil := fun _ => none
  writer := fun _ => none

def State.advance (state : State T E) (call : ℕ) (progress : Progress T E) :
    State T E :=
  { state with calls := Function.update state.calls call progress }

namespace IdempotentUseCase

/-- The run of a call that ends at `await this.store.tryAcquire(…)`. -/
def acquire (useCase : IdempotentUseCase) (state : State T E) (call : ℕ)
    (lockedAt : ℚ) : State T E :=
  let key := useCase.keyOf call
  let attempt :=
    state.store.tryAcquire key useCase.ttlMs state.clock lockedAt
  { state with
    clock := lockedAt
    store := attempt.2
    calls := Function.update state.calls call (.acquiring attempt.1)
    lockedUntil :=
      if attempt.1 then
        Function.update state.lockedUntil call (some (lockedAt + useCase.ttlMs))
      else state.lockedUntil
    writer :=
      if attempt.1 then Function.update state.writer key (some call)
      else state.writer }

def step (useCase : IdempotentUseCase) (state : State T E) :
    Label T E → Option (State T E)
  | .tick now =>
      if state.clock ≤ now then some { state with clock := now } else none
  | .cleanup =>
      some { state with store := (state.store.cleanup state.clock).2 }
  | .getResult call =>
      match state.calls call with
      | .notCalled =>
          some (state.advance call (.gettingResult
            (state.store.getResult (useCase.keyOf call) state.clock)))
      | _ => none
  | .tryAcquire call lockedAt =>
      match state.calls call with
      | .gettingResult none =>
          if state.clock ≤ lockedAt then
            some (useCase.acquire state call lockedAt)
          else none
      | _ => none
  | .getResultAgain call =>
      match state.calls call with
      | .acquiring false =>
          some (state.advance call (.gettingResultAgain
            (state.store.getResult (useCase.keyOf call) state.clock)))
      | _ => none
  | .innerExecute call =>
      match state.calls call with
      | .acquiring true =>
          some { state.advance call .executing with
            metrics := state.metrics.map IdempotencyMetrics.recordMiss }
      | _ => none
  | .innerSettles call outcome =>
      match state.calls call with
      | .executing => some (state.advance call (.executed outcome))
      | _ => none
  | .storeResult call =>
      match state.calls call with
      | .executed (.ok result) =>
          some { state.advance call (.storing result) with
            store := state.store.storeResult (useCase.keyOf call) result
              useCase.ttlMs state.clock
            writer := Function.update state.writer (useCase.keyOf call)
              (some call) }
      | _ => none
  | .release call =>
      match state.calls call with
      | .executed (.error error) =>
          some { state.advance call (.releasing error) with
            store := state.store.release (useCase.keyOf call) }
      | _ => none
  | .settle call =>
      ((state.calls call).settle (useCase.keyOf call)).map fun last =>
        { state.advance call last.1 with
          metrics := state.metrics.map last.2 }

/-! ## What each label requires and does -/

variable {useCase : IdempotentUseCase} {state next : State T E}

theorem step_tick {now : ℚ} :
    useCase.step state (.tick now) = some next ↔
      state.clock ≤ now ∧ { state with clock := now } = next := by
  simp [step]

theorem step_cleanup :
    useCase.step state .cleanup = some next ↔
      { state with store := (state.store.cleanup state.clock).2 } = next := by
  simp [step]

theorem step_getResult {call : ℕ} :
    useCase.step state (.getResult call) = some next ↔
      state.calls call = .notCalled ∧
        state.advance call (.gettingResult
          (state.store.getResult (useCase.keyOf call) state.clock)) = next := by
  cases hcall : state.calls call <;> simp [step, hcall]

theorem step_tryAcquire {call : ℕ} {lockedAt : ℚ} :
    useCase.step state (.tryAcquire call lockedAt) = some next ↔
      state.calls call = .gettingResult none ∧ state.clock ≤ lockedAt ∧
        useCase.acquire state call lockedAt = next := by
  cases hcall : state.calls call with
  | gettingResult cached => cases cached <;> simp [step, hcall]
  | _ => simp [step, hcall]

theorem step_getResultAgain {call : ℕ} :
    useCase.step state (.getResultAgain call) = some next ↔
      state.calls call = .acquiring false ∧
        state.advance call (.gettingResultAgain
          (state.store.getResult (useCase.keyOf call) state.clock)) = next := by
  cases hcall : state.calls call with
  | acquiring acquired => cases acquired <;> simp [step, hcall]
  | _ => simp [step, hcall]

theorem step_innerExecute {call : ℕ} :
    useCase.step state (.innerExecute call) = some next ↔
      state.calls call = .acquiring true ∧
        { state.advance call .executing with
          metrics := state.metrics.map IdempotencyMetrics.recordMiss } =
            next := by
  cases hcall : state.calls call with
  | acquiring acquired => cases acquired <;> simp [step, hcall]
  | _ => simp [step, hcall]

theorem step_innerSettles {call : ℕ} {outcome : Except E T} :
    useCase.step state (.innerSettles call outcome) = some next ↔
      state.calls call = .executing ∧
        state.advance call (.executed outcome) = next := by
  cases hcall : state.calls call <;> simp [step, hcall]

theorem step_storeResult {call : ℕ} :
    useCase.step state (.storeResult call) = some next ↔
      ∃ result, state.calls call = .executed (.ok result) ∧
        { state.advance call (.storing result) with
          store := state.store.storeResult (useCase.keyOf call) result
            useCase.ttlMs state.clock
          writer := Function.update state.writer (useCase.keyOf call)
            (some call) } = next := by
  cases hcall : state.calls call with
  | executed outcome => cases outcome <;> simp [step, hcall]
  | _ => simp [step, hcall]

theorem step_release {call : ℕ} :
    useCase.step state (.release call) = some next ↔
      ∃ error, state.calls call = .executed (.error error) ∧
        { state.advance call (.releasing error) with
          store := state.store.release (useCase.keyOf call) } = next := by
  cases hcall : state.calls call with
  | executed outcome => cases outcome <;> simp [step, hcall]
  | _ => simp [step, hcall]

theorem step_settle {call : ℕ} :
    useCase.step state (.settle call) = some next ↔
      ∃ progress record,
        (state.calls call).settle (useCase.keyOf call) =
          some (progress, record) ∧
        { state.advance call progress with
          metrics := state.metrics.map record } = next := by
  simp [step]

/-- The clock never runs backwards. -/
theorem step_clock_le {label : Label T E}
    (hstep : useCase.step state label = some next) :
    state.clock ≤ next.clock := by
  cases label with
  | tick now =>
      obtain ⟨hle, rfl⟩ := step_tick.mp hstep
      exact hle
  | cleanup =>
      obtain rfl := step_cleanup.mp hstep
      exact le_rfl
  | getResult call =>
      obtain ⟨_, rfl⟩ := step_getResult.mp hstep
      exact le_rfl
  | tryAcquire call lockedAt =>
      obtain ⟨_, hle, rfl⟩ := step_tryAcquire.mp hstep
      exact hle
  | getResultAgain call =>
      obtain ⟨_, rfl⟩ := step_getResultAgain.mp hstep
      exact le_rfl
  | innerExecute call =>
      obtain ⟨_, rfl⟩ := step_innerExecute.mp hstep
      exact le_rfl
  | innerSettles call outcome =>
      obtain ⟨_, rfl⟩ := step_innerSettles.mp hstep
      exact le_rfl
  | storeResult call =>
      obtain ⟨_, _, rfl⟩ := step_storeResult.mp hstep
      exact le_rfl
  | release call =>
      obtain ⟨_, _, rfl⟩ := step_release.mp hstep
      exact le_rfl
  | settle call =>
      obtain ⟨_, _, _, rfl⟩ := step_settle.mp hstep
      exact le_rfl

theorem exec_clock_le {labels : List (Label T E)}
    (hrun : exec useCase.step state labels = some next) :
    state.clock ≤ next.clock :=
  exec_invariant (I := fun middle => state.clock ≤ middle.clock)
    (fun _ _ _ hle hstep => hle.trans (step_clock_le hstep)) le_rfl hrun

/-- A step moves no call but its own. -/
theorem step_calls_of_ne {label : Label T E} {other : ℕ}
    (hstep : useCase.step state label = some next)
    (hne : label.call ≠ some other) : next.calls other = state.calls other := by
  cases label with
  | tick now =>
      obtain ⟨_, rfl⟩ := step_tick.mp hstep
      rfl
  | cleanup =>
      obtain rfl := step_cleanup.mp hstep
      rfl
  | getResult call =>
      obtain ⟨_, rfl⟩ := step_getResult.mp hstep
      simp_all [State.advance, Label.call, Ne.symm]
  | tryAcquire call lockedAt =>
      obtain ⟨_, _, rfl⟩ := step_tryAcquire.mp hstep
      simp_all [acquire, Label.call, Ne.symm]
  | getResultAgain call =>
      obtain ⟨_, rfl⟩ := step_getResultAgain.mp hstep
      simp_all [State.advance, Label.call, Ne.symm]
  | innerExecute call =>
      obtain ⟨_, rfl⟩ := step_innerExecute.mp hstep
      simp_all [State.advance, Label.call, Ne.symm]
  | innerSettles call outcome =>
      obtain ⟨_, rfl⟩ := step_innerSettles.mp hstep
      simp_all [State.advance, Label.call, Ne.symm]
  | storeResult call =>
      obtain ⟨_, _, rfl⟩ := step_storeResult.mp hstep
      simp_all [State.advance, Label.call, Ne.symm]
  | release call =>
      obtain ⟨_, _, rfl⟩ := step_release.mp hstep
      simp_all [State.advance, Label.call, Ne.symm]
  | settle call =>
      obtain ⟨_, _, _, rfl⟩ := step_settle.mp hstep
      simp_all [State.advance, Label.call, Ne.symm]

/-! ## What a step does to the locks -/

/-- The step acquires, stores and releases nothing: a call that holds its lock
held it before, and entries only disappear, once they have expired. -/
structure KeepsLocks (state next : State T E) : Prop where
  lockedUntil : next.lockedUntil = state.lockedUntil
  writer : next.writer = state.writer
  holds : ∀ call, (next.calls call).Holds → (state.calls call).Holds
  entry : ∀ key entry, state.store.entryOf key = some entry →
    next.clock ≤ entry.expiresAt → next.store.entryOf key = some entry
  entry_of_next : ∀ key entry, next.store.entryOf key = some entry →
    state.store.entryOf key = some entry

/-- The step is a successful acquisition by `call`. -/
structure Acquires (useCase : IdempotentUseCase) (state next : State T E)
    (call : ℕ) : Prop where
  progress : state.calls call = .gettingResult none
  free : ∀ entry, state.store.entryOf (useCase.keyOf call) = some entry →
    entry.expiresAt < state.clock
  calls : next.calls = Function.update state.calls call (.acquiring true)
  lockedUntil : next.lockedUntil = Function.update state.lockedUntil call
    (some (next.clock + useCase.ttlMs))
  writer : next.writer =
    Function.update state.writer (useCase.keyOf call) (some call)
  entry : ∀ key, next.store.entryOf key =
    if key = useCase.keyOf call then some ⟨none, next.clock + useCase.ttlMs⟩
    else state.store.entryOf key

/-- In the step `call` gives up its lock, by storing its result or by
releasing. -/
structure Leaves (useCase : IdempotentUseCase) (state next : State T E)
    (call : ℕ) : Prop where
  works : (state.calls call).Works
  not_holds : ¬ (next.calls call).Holds
  calls : ∀ other, other ≠ call → next.calls other = state.calls other
  clock : next.clock = state.clock
  lockedUntil : next.lockedUntil = state.lockedUntil
  entry : ∀ key, key ≠ useCase.keyOf call →
    next.store.entryOf key = state.store.entryOf key
  writer : ∀ key, key ≠ useCase.keyOf call →
    next.writer key = state.writer key

theorem keepsLocks_advance {call : ℕ} {progress : Progress T E}
    (hholds : progress.Holds → (state.calls call).Holds)
    (hcalls : next.calls = Function.update state.calls call progress)
    (hstore : next.store = state.store)
    (hlocked : next.lockedUntil = state.lockedUntil)
    (hwriter : next.writer = state.writer) : KeepsLocks state next where
  lockedUntil := hlocked
  writer := hwriter
  holds := by
    intro other
    rw [hcalls]
    by_cases heq : other = call
    · subst other
      simpa using hholds
    · simp [heq]
  entry := by
    intro key entry hentry _
    rwa [hstore]
  entry_of_next := by
    intro key entry hentry
    rwa [hstore] at hentry

theorem acquire_cases (useCase : IdempotentUseCase) {call : ℕ} (lockedAt : ℚ)
    (hcall : state.calls call = .gettingResult none) :
    KeepsLocks state (useCase.acquire state call lockedAt) ∨
      Acquires useCase state (useCase.acquire state call lockedAt) call := by
  cases hattempt : (state.store.tryAcquire (useCase.keyOf call)
      useCase.ttlMs state.clock lockedAt).1 with
  | false =>
      left
      have hholds : (Progress.acquiring false : Progress T E).Holds →
          (state.calls call).Holds := by
        simp [Progress.Holds]
      apply keepsLocks_advance hholds
      · simp [acquire, hattempt]
      · simpa [acquire] using
          InMemoryIdempotencyStore.tryAcquire_snd_of_false hattempt
      · simp [acquire, hattempt]
      · simp [acquire, hattempt]
  | true =>
      right
      have hstore :=
        InMemoryIdempotencyStore.tryAcquire_snd_of_true hattempt
      constructor
      · exact hcall
      · intro entry hentry
        by_contra hlive
        have hfalse : (state.store.tryAcquire (useCase.keyOf call)
            useCase.ttlMs state.clock lockedAt).1 = false :=
          InMemoryIdempotencyStore.tryAcquire_fst_eq_false_iff.mpr
            ⟨entry, hentry, not_lt.mp hlive⟩
        rw [hattempt] at hfalse
        contradiction
      · simp [acquire, hattempt]
      · simp [acquire, hattempt]
      · simp [acquire, hattempt]
      · intro key
        simp only [acquire, hstore]
        exact InMemoryIdempotencyStore.entryOf_set _ _ _ _

theorem leaves_advance {call : ℕ} {progress : Progress T E}
    (hworks : (state.calls call).Works) (hnot : ¬ progress.Holds)
    (hcalls : next.calls = Function.update state.calls call progress)
    (hclock : next.clock = state.clock)
    (hlocked : next.lockedUntil = state.lockedUntil)
    (hentry : ∀ key, key ≠ useCase.keyOf call →
      next.store.entryOf key = state.store.entryOf key)
    (hwriter : ∀ key, key ≠ useCase.keyOf call →
      next.writer key = state.writer key) :
    Leaves useCase state next call where
  works := hworks
  not_holds := by
    rw [hcalls, Function.update_self]
    exact hnot
  calls other hne := by
    rw [hcalls, Function.update_of_ne hne]
  clock := hclock
  lockedUntil := hlocked
  entry := hentry
  writer := hwriter

theorem leaves_of_storeResult {call : ℕ}
    (hstep : useCase.step state (.storeResult call) = some next) :
    Leaves useCase state next call := by
  obtain ⟨result, hcall, rfl⟩ := step_storeResult.mp hstep
  have hworks : (state.calls call).Works := by simp [hcall, Progress.Works]
  refine leaves_advance hworks ?_ rfl rfl rfl ?_ ?_
  · simp [Progress.Holds]
  · intro key hne
    simp [InMemoryIdempotencyStore.entryOf_storeResult, hne]
  · intro key hne
    simp [hne]

theorem leaves_of_release {call : ℕ}
    (hstep : useCase.step state (.release call) = some next) :
    Leaves useCase state next call := by
  obtain ⟨error, hcall, rfl⟩ := step_release.mp hstep
  have hworks : (state.calls call).Works := by simp [hcall, Progress.Works]
  refine leaves_advance hworks ?_ rfl rfl rfl ?_ fun _ _ => rfl
  · simp [Progress.Holds]
  · intro key hne
    simp [InMemoryIdempotencyStore.entryOf_release, hne]

/-- Every step keeps the locks, acquires one or gives one up. -/
theorem step_lock_cases {label : Label T E}
    (hstep : useCase.step state label = some next) :
    KeepsLocks state next ∨
      (∃ call lockedAt, label = .tryAcquire call lockedAt ∧
        Acquires useCase state next call) ∨
      ∃ call, (label = .storeResult call ∨ label = .release call) ∧
        Leaves useCase state next call := by
  cases label with
  | tick now =>
      obtain ⟨hle, rfl⟩ := step_tick.mp hstep
      exact .inl ⟨rfl, rfl, fun _ => id, fun _ _ hentry _ => hentry,
        fun _ _ => id⟩
  | cleanup =>
      obtain rfl := step_cleanup.mp hstep
      exact .inl ⟨rfl, rfl, fun _ => id,
        fun _ _ => InMemoryIdempotencyStore.entryOf_cleanup_of_live,
        fun _ _ => InMemoryIdempotencyStore.entryOf_cleanup_eq_some⟩
  | getResult call =>
      obtain ⟨_, rfl⟩ := step_getResult.mp hstep
      exact .inl (keepsLocks_advance (by simp [Progress.Holds])
        rfl rfl rfl rfl)
  | tryAcquire call lockedAt =>
      obtain ⟨hcall, _, rfl⟩ := step_tryAcquire.mp hstep
      rcases acquire_cases useCase lockedAt hcall with
        hkeeps | hacquires
      · exact .inl hkeeps
      · exact .inr (.inl ⟨call, lockedAt, rfl, hacquires⟩)
  | getResultAgain call =>
      obtain ⟨_, rfl⟩ := step_getResultAgain.mp hstep
      exact .inl (keepsLocks_advance (by simp [Progress.Holds])
        rfl rfl rfl rfl)
  | innerExecute call =>
      obtain ⟨hcall, rfl⟩ := step_innerExecute.mp hstep
      exact .inl (keepsLocks_advance (by simp [hcall, Progress.Holds])
        rfl rfl rfl rfl)
  | innerSettles call outcome =>
      obtain ⟨hcall, rfl⟩ := step_innerSettles.mp hstep
      exact .inl (keepsLocks_advance (by simp [hcall, Progress.Holds])
        rfl rfl rfl rfl)
  | storeResult call =>
      exact .inr (.inr ⟨call, .inl rfl, leaves_of_storeResult hstep⟩)
  | release call =>
      exact .inr (.inr ⟨call, .inr rfl, leaves_of_release hstep⟩)
  | settle call =>
      obtain ⟨progress, record, hsettle, rfl⟩ := step_settle.mp hstep
      have hnot := (Progress.not_holds_of_settle hsettle).2.1
      exact .inl (keepsLocks_advance (fun hholds => absurd hholds hnot)
        rfl rfl rfl rfl)

end IdempotentUseCase

end TsCommons.Idempotency
