import TsCommons.Foundations.Execution
import Mathlib.Algebra.Order.Ring.Rat
import Mathlib.Data.List.Nodup

/-!
# The hedge

`Hedge.execute` launches the first copy of an operation at once and leaves the
others to timers.  From then on a callback runs whenever a timer fires or a
copy that has been launched fulfils or rejects, in whatever order that
happens.
-/

namespace TsCommons.Resilience.Hedge

open Foundations

/-- What a copy rejects with: an `Error`, or another value, of which only
`String(value)` is used. -/
inductive Thrown (Err : Type)
  | error (error : Err)
  | other (text : String)
deriving DecidableEq

/-- What the returned promise rejects with: an `Error` of a copy, or a new one
with this message. -/
inductive Reason (Err : Type)
  | error (error : Err)
  | newError (message : String)
deriving DecidableEq

/-- `lastError instanceof Error ? lastError : new Error(String(lastError))` -/
def asError {Err : Type} : Option (Thrown Err) → Reason Err
  | none => .newError "undefined"
  | some (.other text) => .newError text
  | some (.error error) => .error error

/-- A timer that has been set and has not fired. -/
structure Timer where
  number : ℕ
  delay : ℚ
deriving DecidableEq

inductive Label (V Err : Type)
  | timerFires (timer : Timer)
  | copyFulfils (copy : ℕ) (value : V)
  | copyRejects (copy : ℕ) (error : Thrown Err)

/-- A copy gets the number of copies launched before it. -/
inductive Effect (V Err : Type)
  | launched (copy : ℕ)
  | fulfilled (copy : ℕ) (value : V)
  | copyRejected (copy : ℕ) (error : Thrown Err)
  | settled (outcome : Except (Reason Err) V)
deriving DecidableEq

/-- `promise` is what the returned promise has settled to.  `launched`,
`running` and `log`, newest first, are history. -/
structure State (V Err : Type) where
  settled : Bool
  pending : ℤ
  timersPending : ℤ
  lastError : Option (Thrown Err)
  promise : Option (Except (Reason Err) V)
  timers : List Timer
  launched : ℕ
  running : List ℕ
  log : List (Effect V Err)

variable {V Err : Type}

namespace State

/-- `resolve` and `reject` have no effect on a promise that has settled. -/
def settle (state : State V Err) (outcome : Except (Reason Err) V) :
    State V Err :=
  match state.promise with
  | none =>
      { state with
        promise := some outcome
        log := .settled outcome :: state.log }
  | some _ => state

def tryReject (state : State V Err) : State V Err :=
  if state.pending = 0 ∧ state.timersPending = 0 ∧ ¬ state.settled then
    { state with settled := true }.settle (.error (asError state.lastError))
  else state

def launch (state : State V Err) : State V Err :=
  { state with
    pending := state.pending + 1
    launched := state.launched + 1
    running := state.running ++ [state.launched]
    log := .launched state.launched :: state.log }

def onFulfilled (state : State V Err) (value : V) : State V Err :=
  if ¬ state.settled then { state with settled := true }.settle (.ok value)
  else state

def onRejected (state : State V Err) (error : Thrown Err) : State V Err :=
  { state with
    lastError := some error
    pending := state.pending - 1 }.tryReject

def onTimer (state : State V Err) : State V Err :=
  let fired := { state with timersPending := state.timersPending - 1 }
  if ¬ fired.settled then fired.launch else fired.tryReject

end State

/-- The timers that the loop sets. -/
def timersOf (copies : ℕ) (delayMs : ℚ) : List Timer :=
  (List.range' 1 (copies - 1)).map fun number => ⟨number, delayMs * number⟩

structure HedgeOptions where
  copies : ℕ := 2
  delayMs : ℚ := 100

/-- The state that a call of `Hedge.execute` leaves. -/
def execute (options : HedgeOptions) : State V Err :=
  let created : State V Err :=
    { settled := false
      pending := 0
      timersPending := options.copies - 1
      lastError := none
      promise := none
      timers := []
      launched := 0
      running := []
      log := [] }
  { created.launch with timers := timersOf options.copies options.delayMs }

def step (state : State V Err) : Label V Err → Option (State V Err)
  | .timerFires timer =>
      if timer ∈ state.timers then
        some { state with timers := state.timers.erase timer }.onTimer
      else none
  | .copyFulfils copy value =>
      if copy ∈ state.running then
        some ({ state with
          running := state.running.erase copy
          log := .fulfilled copy value :: state.log }.onFulfilled value)
      else none
  | .copyRejects copy error =>
      if copy ∈ state.running then
        some ({ state with
          running := state.running.erase copy
          log := .copyRejected copy error :: state.log }.onRejected error)
      else none

variable {state next : State V Err}

/-! ## What the log says -/

namespace Effect

def isLaunch : Effect V Err → Bool
  | .launched _ => true
  | _ => false

def value : Effect V Err → Option V
  | .fulfilled _ value => some value
  | _ => none

def rejection : Effect V Err → Option (Thrown Err)
  | .copyRejected _ error => some error
  | _ => none

end Effect

def launches (log : List (Effect V Err)) : ℕ :=
  (log.filter Effect.isLaunch).length

/-- What the copies have fulfilled with, the last one first. -/
def values (log : List (Effect V Err)) : List V :=
  log.filterMap Effect.value

/-- The value of the first copy that has fulfilled. -/
def firstValue (log : List (Effect V Err)) : Option V :=
  (values log).getLast?

def lastRejection (log : List (Effect V Err)) : Option (Thrown Err) :=
  (log.filterMap Effect.rejection).head?

section Log

variable (copy : ℕ) (value : V) (error : Thrown Err)
  (outcome : Except (Reason Err) V) (log : List (Effect V Err))

@[simp] theorem launches_launched :
    launches (.launched copy :: log) = launches log + 1 := rfl

@[simp] theorem launches_fulfilled :
    launches (.fulfilled copy value :: log) = launches log := rfl

@[simp] theorem launches_copyRejected :
    launches (.copyRejected copy error :: log) = launches log := rfl

@[simp] theorem launches_settled :
    launches (.settled outcome :: log) = launches log := rfl

@[simp] theorem values_launched :
    values (.launched copy :: log) = values log := rfl

@[simp] theorem values_fulfilled :
    values (.fulfilled copy value :: log) = value :: values log := rfl

@[simp] theorem values_copyRejected :
    values (.copyRejected copy error :: log) = values log := rfl

@[simp] theorem values_settled :
    values (.settled outcome :: log) = values log := rfl

@[simp] theorem lastRejection_launched :
    lastRejection (.launched copy :: log) = lastRejection log := rfl

@[simp] theorem lastRejection_fulfilled :
    lastRejection (.fulfilled copy value :: log) = lastRejection log := rfl

@[simp] theorem lastRejection_copyRejected :
    lastRejection (.copyRejected copy error :: log) = some error := rfl

@[simp] theorem lastRejection_settled :
    lastRejection (.settled outcome :: log) = lastRejection log := rfl

end Log

theorem firstValue_eq_none {log : List (Effect V Err)} :
    firstValue log = none ↔ values log = [] := by
  rw [firstValue, List.getLast?_eq_none_iff]

/-- Every timer has fired and every copy that was launched has rejected. -/
def State.Exhausted (state : State V Err) : Prop :=
  state.timers = [] ∧ state.running = [] ∧ firstValue state.log = none

/-- No copy is launched after the promise has settled. -/
def Quiet (log : List (Effect V Err)) : Prop :=
  ∀ later earlier outcome, log = later ++ .settled outcome :: earlier →
    launches later = 0

/-- Copies are launched within their number and not after the promise has
settled; it resolves with the first value, and rejects with the last
rejection when no copy is left that could succeed, and not before. -/
structure HedgeLaw (copies : ℕ) (state : State V Err) : Prop where
  launches_le : launches state.log ≤ max 1 copies
  quiet : Quiet state.log
  resolves : ∀ value, firstValue state.log = some value →
    state.promise = some (.ok value)
  resolved : ∀ value, state.promise = some (.ok value) →
    firstValue state.log = some value
  rejects : state.Exhausted →
    state.promise = some (.error (asError (lastRejection state.log)))
  rejected : ∀ reason, state.promise = some (.error reason) →
    state.Exhausted

/-! ## The callbacks -/

/-- What a callback can do, if the flag says whether the promise has
settled. -/
theorem step_cases (hsettled : state.settled = state.promise.isSome)
    {label : Label V Err} (hstep : step state label = some next) :
    (∃ timer ∈ state.timers,
      (state.promise = none ∧
        next = { state with
          timers := state.timers.erase timer
          timersPending := state.timersPending - 1
          pending := state.pending + 1
          launched := state.launched + 1
          running := state.running ++ [state.launched]
          log := .launched state.launched :: state.log } ∨
      state.promise ≠ none ∧
        next = { state with
          timers := state.timers.erase timer
          timersPending := state.timersPending - 1 })) ∨
    (∃ copy value, copy ∈ state.running ∧
      (state.promise = none ∧
        next = { state with
          running := state.running.erase copy
          settled := true
          promise := some (.ok value)
          log := .settled (.ok value) :: .fulfilled copy value ::
            state.log } ∨
      state.promise ≠ none ∧
        next = { state with
          running := state.running.erase copy
          log := .fulfilled copy value :: state.log })) ∨
    ∃ copy error, copy ∈ state.running ∧
      (state.promise = none ∧ state.pending = 1 ∧ state.timersPending = 0 ∧
        next = { state with
          running := state.running.erase copy
          lastError := some error
          pending := 0
          settled := true
          promise := some (.error (asError (some error)))
          log := .settled (.error (asError (some error))) ::
            .copyRejected copy error :: state.log } ∨
      (state.promise = none →
          ¬ (state.pending = 1 ∧ state.timersPending = 0)) ∧
        next = { state with
          running := state.running.erase copy
          lastError := some error
          pending := state.pending - 1
          log := .copyRejected copy error :: state.log }) := by
  cases label with
  | timerFires timer =>
      left
      simp only [step, Option.ite_none_right_eq_some,
        Option.some.injEq] at hstep
      obtain ⟨htimer, rfl⟩ := hstep
      refine ⟨timer, htimer, ?_⟩
      cases hpromise : state.promise with
      | none =>
          left
          rw [hpromise] at hsettled
          refine ⟨rfl, ?_⟩
          simp [State.onTimer, State.launch, hsettled]
      | some outcome =>
          right
          rw [hpromise] at hsettled
          refine ⟨by simp, ?_⟩
          simp [State.onTimer, State.tryReject, hsettled]
  | copyFulfils copy value =>
      right
      left
      simp only [step, Option.ite_none_right_eq_some,
        Option.some.injEq] at hstep
      obtain ⟨hcopy, rfl⟩ := hstep
      refine ⟨copy, value, hcopy, ?_⟩
      cases hpromise : state.promise with
      | none =>
          left
          rw [hpromise] at hsettled
          refine ⟨rfl, ?_⟩
          simp [State.onFulfilled, State.settle, hsettled]
      | some outcome =>
          right
          rw [hpromise] at hsettled
          refine ⟨by simp, ?_⟩
          simp [State.onFulfilled, hsettled]
  | copyRejects copy error =>
      right
      right
      simp only [step, Option.ite_none_right_eq_some,
        Option.some.injEq] at hstep
      obtain ⟨hcopy, rfl⟩ := hstep
      refine ⟨copy, error, hcopy, ?_⟩
      cases hpromise : state.promise with
      | none =>
          rw [hpromise] at hsettled
          by_cases hlast : state.pending = 1 ∧ state.timersPending = 0
          · left
            refine ⟨rfl, hlast.1, hlast.2, ?_⟩
            simp [State.onRejected, State.tryReject, State.settle, hsettled,
              hlast.1, hlast.2]
          · right
            have hopen : ¬ (state.pending - 1 = 0 ∧
                state.timersPending = 0) := by
              omega
            refine ⟨fun _ => hlast, ?_⟩
            rw [State.onRejected, State.tryReject,
              if_neg fun hreject => hopen ⟨hreject.1, hreject.2.1⟩]
      | some outcome =>
          right
          rw [hpromise] at hsettled
          refine ⟨by simp, ?_⟩
          simp [State.onRejected, State.tryReject, hsettled]

/-! ## The counters -/

/-- The counters are what they are meant to be. -/
structure CountInvariant (copies : ℕ) (state : State V Err) : Prop where
  settled : state.settled = state.promise.isSome
  pending : state.pending =
    (state.running.length + (values state.log).length : ℕ)
  timersPending : state.timersPending = state.timers.length
  launches : launches state.log + state.timers.length ≤ copies
  lastError : state.lastError = lastRejection state.log

/-- What the promise has settled to, and what is left while it has not. -/
structure PromiseInvariant (state : State V Err) : Prop where
  unsettled : state.promise = none →
    ¬ state.Exhausted ∧ firstValue state.log = none ∧
      ∀ outcome, .settled outcome ∉ state.log
  quiet : Quiet state.log
  resolved : ∀ value, state.promise = some (.ok value) →
    firstValue state.log = some value
  rejected : ∀ reason, state.promise = some (.error reason) →
    state.Exhausted ∧ reason = asError (lastRejection state.log)

theorem Quiet.of_unsettled {log : List (Effect V Err)}
    (hunsettled : ∀ outcome, .settled outcome ∉ log) : Quiet log := by
  intro later earlier outcome hsplit
  apply absurd _ (hunsettled outcome)
  rw [hsplit]
  simp

theorem Quiet.cons {log : List (Effect V Err)} (hquiet : Quiet log)
    {effect : Effect V Err} (heffect : effect.isLaunch = false) :
    Quiet (effect :: log) := by
  intro later earlier outcome hsplit
  cases later with
  | nil => rfl
  | cons first later =>
      rw [List.cons_append, List.cons.injEq] at hsplit
      obtain ⟨rfl, hsplit⟩ := hsplit
      have hlater := hquiet later earlier outcome hsplit
      rw [launches, List.filter_cons_of_neg (by simp [heffect])]
      exact hlater

theorem length_timersOf (copies : ℕ) (delayMs : ℚ) :
    (timersOf copies delayMs).length = copies - 1 := by
  rw [timersOf, List.length_map, List.length_range']

theorem countInvariant_execute {options : HedgeOptions}
    (hcopies : 1 ≤ options.copies) :
    CountInvariant options.copies (execute options : State V Err) := by
  have hlength := length_timersOf options.copies options.delayMs
  constructor
  · rfl
  · rfl
  · simp only [execute, State.launch, hlength]
    omega
  · have hlaunches :
        launches (execute options : State V Err).log = 1 := rfl
    rw [hlaunches]
    simp only [execute, hlength]
    omega
  · rfl

theorem promiseInvariant_execute (options : HedgeOptions) :
    PromiseInvariant (execute options : State V Err) := by
  refine ⟨fun _ => ⟨?_, rfl, ?_⟩, ?_, ?_, ?_⟩
  · rintro ⟨-, hrunning, -⟩
    simp [execute, State.launch] at hrunning
  · simp [execute, State.launch]
  · apply Quiet.of_unsettled
    simp [execute, State.launch]
  · intro value hpromise
    cases hpromise
  · intro reason hpromise
    cases hpromise

theorem length_eq_length_erase_succ {α : Type} [DecidableEq α] {entry : α}
    {entries : List α} (hmem : entry ∈ entries) :
    entries.length = (entries.erase entry).length + 1 := by
  have hlength := List.length_erase_of_mem hmem
  have hpos := List.length_pos_of_mem hmem
  omega

theorem CountInvariant.step {copies : ℕ}
    (hinv : CountInvariant copies state) {label : Label V Err}
    (hstep : Hedge.step state label = some next) :
    CountInvariant copies next := by
  obtain ⟨hsettled, hpending, htimers, hlaunches, hlastError⟩ := hinv
  rcases step_cases hsettled hstep with
    ⟨timer, htimer, ⟨-, rfl⟩ | ⟨-, rfl⟩⟩ |
    ⟨copy, value, hcopy, ⟨-, rfl⟩ | ⟨-, rfl⟩⟩ |
    ⟨copy, error, hcopy, ⟨-, hlast, -, rfl⟩ | ⟨-, rfl⟩⟩
  · have hlength := length_eq_length_erase_succ htimer
    constructor
    · exact hsettled
    · simp
      omega
    · simp only
      omega
    · simp only [launches_launched]
      omega
    · simpa using hlastError
  · have hlength := length_eq_length_erase_succ htimer
    constructor
    · exact hsettled
    · exact hpending
    · simp only
      omega
    · simp only
      omega
    · exact hlastError
  · have hlength := length_eq_length_erase_succ hcopy
    constructor
    · exact rfl
    · simp
      omega
    · exact htimers
    · simpa using hlaunches
    · simpa using hlastError
  · have hlength := length_eq_length_erase_succ hcopy
    constructor
    · exact hsettled
    · simp
      omega
    · exact htimers
    · simpa using hlaunches
    · simpa using hlastError
  · have hlength := length_eq_length_erase_succ hcopy
    constructor
    · exact rfl
    · simp
      omega
    · exact htimers
    · simpa using hlaunches
    · simp
  · have hlength := length_eq_length_erase_succ hcopy
    constructor
    · exact hsettled
    · simp
      omega
    · exact htimers
    · simpa using hlaunches
    · simp

theorem PromiseInvariant.step {copies : ℕ}
    (hinv : PromiseInvariant state) (hcount : CountInvariant copies state)
    {label : Label V Err} (hstep : Hedge.step state label = some next) :
    PromiseInvariant next := by
  obtain ⟨hunsettled, hquiet, hresolved, hrejected⟩ := hinv
  have hrunning : ∀ {copy}, copy ∈ state.running → ¬ state.Exhausted := by
    rintro copy hcopy ⟨-, hnone, -⟩
    simp [hnone] at hcopy
  rcases step_cases hcount.settled hstep with
    ⟨timer, htimer, ⟨hpromise, rfl⟩ | ⟨hpromise, rfl⟩⟩ |
    ⟨copy, value, hcopy, ⟨hpromise, rfl⟩ | ⟨hpromise, rfl⟩⟩ |
    ⟨copy, error, hcopy, ⟨hpromise, hlast, htimers, rfl⟩ | ⟨hleft, rfl⟩⟩
  · obtain ⟨-, hnone, hlog⟩ := hunsettled hpromise
    have hnext : ∀ outcome,
        .settled outcome ∉ (.launched state.launched :: state.log) := by
      simpa using hlog
    refine ⟨fun _ => ⟨?_, hnone, hnext⟩, Quiet.of_unsettled hnext, ?_, ?_⟩
    · rintro ⟨-, hempty, -⟩
      simp at hempty
    · intro value hvalue
      simp [hpromise] at hvalue
    · intro reason hreason
      simp [hpromise] at hreason
  · refine ⟨fun hnone => absurd hnone hpromise, hquiet, hresolved, ?_⟩
    intro reason hreason
    have hexhausted := (hrejected reason hreason).1
    rw [hexhausted.1] at htimer
    simp at htimer
  · obtain ⟨-, hnone, -⟩ := hunsettled hpromise
    have hvalues := firstValue_eq_none.mp hnone
    constructor
    · intro hnone
      cases hnone
    · exact (hquiet.cons rfl).cons rfl
    · intro other hother
      cases hother
      simp [firstValue, hvalues]
    · intro reason hreason
      cases hreason
  · constructor
    · exact fun hnone => absurd hnone hpromise
    · exact hquiet.cons rfl
    · intro other hother
      have hfirst := hresolved other hother
      rw [firstValue] at hfirst ⊢
      rw [values_fulfilled, List.getLast?_cons, hfirst, Option.getD_some]
    · intro reason hreason
      exact absurd (hrejected reason hreason).1 (hrunning hcopy)
  · have hpending := hcount.pending
    have htimersPending := hcount.timersPending
    have hlength := length_eq_length_erase_succ hcopy
    constructor
    · intro hnone
      cases hnone
    · exact (hquiet.cons rfl).cons rfl
    · intro other hother
      cases hother
    · intro reason hreason
      cases hreason
      refine ⟨⟨?_, ?_, ?_⟩, rfl⟩
      · apply List.length_eq_zero_iff.mp
        simp only
        omega
      · apply List.length_eq_zero_iff.mp
        simp only
        omega
      · apply firstValue_eq_none.mpr
        apply List.length_eq_zero_iff.mp
        simp only [values_settled, values_copyRejected]
        omega
  · have hpending := hcount.pending
    have htimersPending := hcount.timersPending
    have hlength := length_eq_length_erase_succ hcopy
    constructor
    · intro hnone
      obtain ⟨-, hfirst, hlog⟩ := hunsettled hnone
      refine ⟨?_, hfirst, ?_⟩
      · rintro ⟨htimers, hempty, -⟩
        have hvalues := firstValue_eq_none.mp hfirst
        apply hleft hnone
        simp only at htimers hempty
        rw [hempty, List.length_nil] at hlength
        rw [hvalues, List.length_nil] at hpending
        rw [htimers, List.length_nil] at htimersPending
        omega
      · simpa using hlog
    · exact hquiet.cons rfl
    · intro other hother
      exact hresolved other hother
    · intro reason hreason
      exact absurd (hrejected reason hreason).1 (hrunning hcopy)

theorem hedgeLaw_of_invariants {copies : ℕ}
    (hcount : CountInvariant copies state) (hpromise : PromiseInvariant state) :
    HedgeLaw copies state := by
  constructor
  · have hlaunches := hcount.launches
    omega
  · exact hpromise.quiet
  · intro value hvalue
    cases hsettled : state.promise with
    | none =>
        rw [(hpromise.unsettled hsettled).2.1] at hvalue
        cases hvalue
    | some outcome =>
        cases outcome with
        | ok other =>
            have hfirst := hpromise.resolved other hsettled
            rw [hvalue] at hfirst
            cases hfirst
            rfl
        | error reason =>
            rw [(hpromise.rejected reason hsettled).1.2.2] at hvalue
            cases hvalue
  · exact hpromise.resolved
  · intro hexhausted
    cases hsettled : state.promise with
    | none => exact absurd hexhausted (hpromise.unsettled hsettled).1
    | some outcome =>
        cases outcome with
        | ok value =>
            have hfirst := hpromise.resolved value hsettled
            rw [hexhausted.2.2] at hfirst
            cases hfirst
        | error reason =>
            rw [(hpromise.rejected reason hsettled).2]
  · exact fun reason hreason => (hpromise.rejected reason hreason).1

theorem hedgeLaw_of_exec {options : HedgeOptions}
    (hcopies : 1 ≤ options.copies) {labels : List (Label V Err)}
    (hrun : exec step (execute options) labels = some state) :
    HedgeLaw options.copies state := by
  have hinv : CountInvariant options.copies state ∧
      PromiseInvariant state :=
    exec_invariant
      (I := fun state => CountInvariant options.copies state ∧
        PromiseInvariant state)
      (fun _ _ _ hinv hstep =>
        ⟨hinv.1.step hstep, hinv.2.step hinv.1 hstep⟩)
      ⟨countInvariant_execute hcopies, promiseInvariant_execute options⟩ hrun
  exact hedgeLaw_of_invariants hinv.1 hinv.2

/-! ## No copies -/

/-- Without a copy the count of timers starts at minus one, and the promise
does not settle when the one copy that is launched rejects. -/
theorem not_hedgeLaw_of_no_copies (delayMs : ℚ) :
    ∃ state : State V Err,
      exec step (execute ⟨0, delayMs⟩) [.copyRejects 0 (.other "down")] =
        some state ∧
      state.Exhausted ∧ state.promise = none ∧ ¬ HedgeLaw 0 state := by
  refine ⟨_, rfl, ⟨rfl, rfl, rfl⟩, rfl, fun hlaw => ?_⟩
  have hrejects := hlaw.rejects ⟨rfl, rfl, rfl⟩
  cases hrejects

/-- Whatever the delay is and in whatever order timers fire and copies settle,
the law holds if and only if there is at least one copy. -/
theorem hedgeLaw_iff_one_le_copies (options : HedgeOptions) :
    (∀ (labels : List (Label V Err)) (state : State V Err),
      exec step (execute options) labels = some state →
        HedgeLaw options.copies state) ↔
      1 ≤ options.copies := by
  constructor
  · intro hlaw
    by_contra hfew
    have hzero : options = ⟨0, options.delayMs⟩ := by
      cases options with
      | mk copies delayMs =>
          simp only [HedgeOptions.mk.injEq, and_true]
          exact Nat.lt_one_iff.mp (Nat.not_le.mp hfew)
    rw [hzero] at hlaw
    obtain ⟨state, hrun, -, -, hbroken⟩ :=
      not_hedgeLaw_of_no_copies options.delayMs
    exact hbroken (hlaw _ state hrun)
  · intro hcopies labels state hrun
    exact hedgeLaw_of_exec hcopies hrun

/-- Without copies the promise of a hedge whose copy rejects stays pending. -/
theorem not_hedgeLaw_zero :
    ∃ state : State ℕ String,
      exec step (execute { copies := 0 }) [.copyRejects 0 (.error "down")] =
        some state ∧
      state.timers = [] ∧ state.running = [] ∧
      state.log = [.copyRejected 0 (.error "down"), .launched 0] ∧
      state.promise = none ∧ ¬ HedgeLaw 0 state := by
  refine ⟨_, rfl, rfl, rfl, rfl, rfl, fun hlaw => ?_⟩
  have hrejects := hlaw.rejects ⟨rfl, rfl, rfl⟩
  cases hrejects

end TsCommons.Resilience.Hedge
