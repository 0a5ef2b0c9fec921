import TsCommons.Foundations.Execution
import TsCommons.Foundations.Since

/-!
# The graceful shutdown

The first call of `shutdown` runs the handlers one after another, the last one
registered first, and races each against a timer.  Later calls return at once.
A handler is named by its position in the order of registration.
-/

namespace TsCommons.DockerUtils

open Foundations

structure GracefulShutdown where
  handlers : List String
  shuttingDown : Bool
  timeoutMs : ℕ
deriving DecidableEq

namespace GracefulShutdown

def create (timeoutMs : ℕ) : GracefulShutdown := ⟨[], false, timeoutMs⟩

def register (shutdown : GracefulShutdown) (name : String) :
    GracefulShutdown :=
  { shutdown with handlers := shutdown.handlers ++ [name] }

/-- The positions of the handlers, the last one registered first. -/
def turns (shutdown : GracefulShutdown) : List ℕ :=
  (List.range shutdown.handlers.length).reverse

def timeoutMessage (shutdown : GracefulShutdown) (position : ℕ) : String :=
  "Handler '" ++ (shutdown.handlers[position]?).getD "" ++
    "' timed out after " ++ toString shutdown.timeoutMs ++ "ms"

end GracefulShutdown

/-- `ran` tells the call that runs the handlers from those that return
early. -/
inductive Event
  | started (position : ℕ)
  | completed (position : ℕ)
  | failed (position : ℕ)
  | timedOut (position : ℕ)
  | returned (success : Bool) (errors : List String) (ran : Bool)
deriving DecidableEq

/-- The call that runs the handlers: the one whose race it waits for, the error
of that race once it is decided, the handlers after it and the errors so
far. -/
structure Loop where
  current : ℕ
  outcome : Option (Option String)
  rest : List ℕ
  errors : List String
deriving DecidableEq

structure State where
  shutdown : GracefulShutdown
  loop : Option Loop
  log : List Event
deriving DecidableEq

def State.initial (timeoutMs : ℕ) (names : List String) : State where
  shutdown := names.foldl .register (.create timeoutMs)
  loop := none
  log := []

inductive Label
  | shutdown
  | complete (position : ℕ)
  | fail (position : ℕ) (message : String)
  | timeout
  | proceed
deriving DecidableEq

/-- The handlers that were started, in order. -/
def starts (log : List Event) : List ℕ :=
  log.filterMap fun
    | .started position => some position
    | _ => none

/-- The promise of a handler has been settled. -/
def Settled (position : ℕ) (log : List Event) : Prop :=
  .completed position ∈ log ∨ .failed position ∈ log

instance (position : ℕ) (log : List Event) : Decidable (Settled position log) :=
  inferInstanceAs (Decidable (_ ∨ _))

namespace State

/-- The next handler is started, or the call returns. -/
def runNext (state : State) (errors : List String) : List ℕ → State
  | [] =>
      { state with
        loop := none
        log := state.log ++ [.returned (errors.length = 0) errors true] }
  | position :: rest =>
      { state with
        loop := some ⟨position, none, rest, errors⟩
        log := state.log ++ [.started position] }

def callShutdown (state : State) : State :=
  if state.shutdown.shuttingDown then
    { state with log := state.log ++ [.returned true [] false] }
  else
    { state with shutdown := { state.shutdown with shuttingDown := true }
      }.runNext [] state.shutdown.turns

/-- The race with the handler is decided, unless it has been before. -/
def decideRace (state : State) (position : ℕ) (error : Option String) :
    State :=
  { state with
    loop := state.loop.map fun loop =>
      if loop.current = position ∧ loop.outcome = none then
        { loop with outcome := some error }
      else loop }

def record (state : State) (event : Event) : State :=
  { state with log := state.log ++ [event] }

/-- The promise of a handler that was started may still be settled. -/
def Waits (state : State) (position : ℕ) : Prop :=
  .started position ∈ state.log ∧ ¬ Settled position state.log

instance (state : State) (position : ℕ) : Decidable (state.Waits position) :=
  inferInstanceAs (Decidable (_ ∧ _))

end State

def step (state : State) : Label → Option State
  | .shutdown => some state.callShutdown
  | .complete position =>
      if state.Waits position then
        some ((state.record (.completed position)).decideRace position none)
      else none
  | .fail position message =>
      if state.Waits position then
        some ((state.record (.failed position)).decideRace position
          (some message))
      else none
  | .timeout =>
      match state.loop with
      | some ⟨current, none, _, _⟩ =>
          some ((state.record (.timedOut current)).decideRace current
            (some (state.shutdown.timeoutMessage current)))
      | _ => none
  | .proceed =>
      match state.loop with
      | some ⟨_, some outcome, rest, errors⟩ =>
          some (state.runNext (errors ++ outcome.toList) rest)
      | _ => none

/-- The handler has been settled or has timed out. -/
def Ended (position : ℕ) (log : List Event) : Prop :=
  Settled position log ∨ .timedOut position ∈ log

/-- A handler is started only when all those before it have ended. -/
def StartsInTurn (before : List Event) (event : Event) : Prop :=
  ∀ position, event = .started position →
    ∀ earlier ∈ starts before, Ended earlier before

/-- The call that runs the handlers returns success only when each of them has
completed. -/
def SucceedsWhenCompleted (positions : List ℕ) (before : List Event)
    (event : Event) : Prop :=
  ∀ errors, event = .returned true errors true →
    ∀ position ∈ positions, .completed position ∈ before

/-- The handlers are started at most once each, in the reverse order of their
registration and one after another; the call that runs them returns success
only when all have completed, and a later one returns at once. -/
structure ShutdownLaw (state : State) : Prop where
  order : starts state.log <+: state.shutdown.turns
  turns : AtEvery StartsInTurn state.log
  success : AtEvery (SucceedsWhenCompleted state.shutdown.turns) state.log
  early : state.shutdown.shuttingDown = true →
    step state .shutdown = some (state.record (.returned true [] false))

variable {timeoutMs : ℕ} {names : List String} {state next : State}
  {label : Label} {event : Event} {position : ℕ} {log : List Event}
  {errors : List String} {rest : List ℕ}

theorem starts_concat_started (log : List Event) (position : ℕ) :
    starts (log ++ [.started position]) = starts log ++ [position] := by
  rw [starts, List.filterMap_append]
  rfl

theorem starts_concat (log : List Event)
    (hother : ∀ position, event ≠ .started position) :
    starts (log ++ [event]) = starts log := by
  rw [starts, List.filterMap_append]
  cases event with
  | started position => exact absurd rfl (hother position)
  | _ => exact List.append_nil _

theorem Ended.concat (hended : Ended position log) (event : Event) :
    Ended position (log ++ [event]) := by
  rcases hended with (hcompleted | hfailed) | htimedOut
  · exact .inl (.inl (List.mem_append_left _ hcompleted))
  · exact .inl (.inr (List.mem_append_left _ hfailed))
  · exact .inr (List.mem_append_left _ htimedOut)

/-! ## What holds in every run -/

/-- The handlers that the call has still to start. -/
def State.remaining (state : State) : List ℕ :=
  if state.shutdown.shuttingDown then
    (state.loop.map Loop.rest).getD []
  else state.shutdown.turns

structure Invariant (state : State) : Prop where
  order : starts state.log ++ state.remaining = state.shutdown.turns
  running : ∀ loop ∈ state.loop, state.shutdown.shuttingDown = true
  ended : ∀ position ∈ starts state.log, Ended position state.log ∨
    ∃ loop ∈ state.loop, loop.current = position ∧ loop.outcome = none
  completed : ∀ loop ∈ state.loop, loop.errors = [] →
    ∀ position ∈ starts state.log, .completed position ∈ state.log ∨
      loop.current = position ∧ loop.outcome ≠ some none
  turns : AtEvery StartsInTurn state.log
  success : AtEvery (SucceedsWhenCompleted state.shutdown.turns) state.log

/-- What holds when no race is under way and the handlers of `rest` are still
to be started. -/
structure Between (state : State) (errors : List String) (rest : List ℕ) :
    Prop where
  running : state.shutdown.shuttingDown = true
  order : starts state.log ++ rest = state.shutdown.turns
  ended : ∀ position ∈ starts state.log, Ended position state.log
  completed : errors = [] →
    ∀ position ∈ starts state.log, .completed position ∈ state.log
  turns : AtEvery StartsInTurn state.log
  success : AtEvery (SucceedsWhenCompleted state.shutdown.turns) state.log

theorem Between.runNext (hbetween : Between state errors rest) :
    Invariant (state.runNext errors rest) := by
  have hrunning := hbetween.running
  cases rest with
  | nil =>
      have hall : starts state.log = state.shutdown.turns := by
        rw [← hbetween.order, List.append_nil]
      refine ⟨?_, fun _ hloop => (nomatch hloop), ?_,
        fun _ hloop => (nomatch hloop), ?_, ?_⟩
      · simp only [State.runNext, State.remaining, hrunning]
        rw [starts_concat _ (fun _ => by simp)]
        simpa using hall
      · intro position hposition
        rw [State.runNext, starts_concat _ (fun _ => by simp)] at hposition
        exact .inl ((hbetween.ended position hposition).concat _)
      · refine hbetween.turns.concat fun position hevent => ?_
        cases hevent
      · refine hbetween.success.concat fun errors' hevent => ?_
        rw [← hall]
        simp only [Event.returned.injEq, decide_eq_true_eq] at hevent
        exact hbetween.completed (List.length_eq_zero_iff.mp hevent.1)
  | cons position rest =>
      refine ⟨?_, fun _ _ => hrunning, ?_, ?_, ?_, ?_⟩
      · simp only [State.runNext, State.remaining, hrunning, if_true,
          Option.map_some, Option.getD_some]
        rw [starts_concat_started, List.append_assoc]
        exact hbetween.order
      · intro other hother
        rw [State.runNext, starts_concat_started] at hother
        rcases List.mem_append.mp hother with hold | hnew
        · exact .inl ((hbetween.ended other hold).concat _)
        · rw [List.mem_singleton.mp hnew]
          exact .inr ⟨_, rfl, rfl, rfl⟩
      · rintro _ ⟨⟩ hnone other hother
        rw [State.runNext, starts_concat_started] at hother
        rcases List.mem_append.mp hother with hold | hnew
        · exact .inl (List.mem_append_left _
            (hbetween.completed hnone other hold))
        · rw [List.mem_singleton.mp hnew]
          exact .inr ⟨rfl, fun h => nomatch h⟩
      · refine hbetween.turns.concat fun other _ => hbetween.ended
      · refine hbetween.success.concat fun _ hevent => ?_
        cases hevent

theorem Invariant.record (hinv : Invariant state)
    (hstart : ∀ position, event ≠ .started position)
    (hreturn : ∀ errors, event ≠ .returned true errors true) :
    Invariant (state.record event) := by
  have hstarts : starts (state.record event).log = starts state.log :=
    starts_concat _ hstart
  refine ⟨?_, hinv.running, ?_, ?_, ?_, ?_⟩
  · rw [hstarts]
    exact hinv.order
  · intro position hposition
    rw [hstarts] at hposition
    rcases hinv.ended position hposition with hended | hracing
    · exact .inl (hended.concat event)
    · exact .inr hracing
  · intro loop hloop hnone position hposition
    rw [hstarts] at hposition
    rcases hinv.completed loop hloop hnone position hposition with
      hcompleted | hcurrent
    · exact .inl (List.mem_append_left _ hcompleted)
    · exact .inr hcurrent
  · exact hinv.turns.concat fun position hevent =>
      absurd hevent (hstart position)
  · exact hinv.success.concat fun errors hevent =>
      absurd hevent (hreturn errors)

/-- The race with a handler that has ended may be decided, without an error
only if the handler has completed. -/
theorem Invariant.decideRace (hinv : Invariant state) {error : Option String}
    (hended : Ended position state.log)
    (hcompleted : error = none → .completed position ∈ state.log) :
    Invariant (state.decideRace position error) := by
  refine ⟨?_, ?_, ?_, ?_, hinv.turns, hinv.success⟩
  · have hremaining : (state.decideRace position error).remaining =
        state.remaining := by
      unfold State.remaining State.decideRace
      cases state.loop with
      | none => rfl
      | some loop =>
          simp only [Option.map_some]
          split_ifs <;> rfl
    rw [hremaining]
    exact hinv.order
  · intro loop hloop
    obtain ⟨old, hold, -⟩ := Option.map_eq_some_iff.mp hloop
    exact hinv.running old hold
  · intro other hother
    rcases hinv.ended other hother with hdone | ⟨loop, hloop, hcurrent, hnone⟩
    · exact .inl hdone
    · by_cases heq : loop.current = position
      · rw [← hcurrent, heq]
        exact .inl hended
      · refine .inr ⟨loop, ?_, hcurrent, hnone⟩
        rw [State.decideRace, hloop, Option.map_some, if_neg (heq ·.1)]
        rfl
  · intro loop hloop hnone other hother
    obtain ⟨old, hold, rfl⟩ := Option.map_eq_some_iff.mp hloop
    split_ifs at hnone ⊢ with hdecides
    · rcases hinv.completed old hold hnone other hother with hdone | hcurrent
      · exact .inl hdone
      · cases error with
        | none =>
            rw [← hcurrent.1, hdecides.1]
            exact .inl (hcompleted rfl)
        | some message =>
            exact .inr ⟨hcurrent.1, fun h => nomatch h⟩
    · exact hinv.completed old hold hnone other hother

theorem Invariant.callShutdown (hinv : Invariant state) :
    Invariant state.callShutdown := by
  unfold State.callShutdown
  split
  · exact hinv.record (fun _ h => nomatch h) (fun _ h => nomatch h)
  · rename_i hidle
    have hstarts : starts state.log = [] := by
      have horder := hinv.order
      rw [State.remaining, if_neg hidle] at horder
      exact List.append_left_eq_self.mp horder
    apply Between.runNext
    refine ⟨rfl, ?_, ?_, ?_, hinv.turns, hinv.success⟩
    · exact congrArg (· ++ state.shutdown.turns) hstarts
    · intro position hposition
      rw [hstarts] at hposition
      cases hposition
    · intro _ position hposition
      rw [hstarts] at hposition
      cases hposition

theorem Invariant.proceed (hinv : Invariant state) {current : ℕ}
    {outcome : Option String}
    (hloop : state.loop = some ⟨current, some outcome, rest, errors⟩) :
    Invariant (state.runNext (errors ++ outcome.toList) rest) := by
  have hrunning := hinv.running _ hloop
  apply Between.runNext
  refine ⟨hrunning, ?_, ?_, ?_, hinv.turns, hinv.success⟩
  · have horder := hinv.order
    rw [State.remaining, if_pos hrunning, hloop] at horder
    exact horder
  · intro position hposition
    rcases hinv.ended position hposition with
      hended | ⟨loop, hsame, -, hnone⟩
    · exact hended
    · rw [hloop] at hsame
      cases hsame
      cases hnone
  · intro hnone position hposition
    obtain ⟨herrors, houtcome⟩ := List.append_eq_nil_iff.mp hnone
    rcases hinv.completed _ hloop herrors position hposition with
      hcompleted | ⟨-, hne⟩
    · exact hcompleted
    · exact absurd (congrArg some (Option.toList_eq_nil_iff.mp houtcome)) hne

theorem Invariant.step (hinv : Invariant state)
    (hstep : step state label = some next) : Invariant next := by
  cases label with
  | shutdown =>
      cases hstep
      exact hinv.callShutdown
  | complete position =>
      obtain ⟨-, hnext⟩ := Option.ite_none_right_eq_some.mp hstep
      cases hnext
      have hcompleted : .completed position ∈
          (state.record (.completed position)).log :=
        List.mem_append_right _ List.mem_cons_self
      have hrecord : Invariant (state.record (.completed position)) :=
        hinv.record (fun _ h => nomatch h) (fun _ h => nomatch h)
      exact hrecord.decideRace (.inl (.inl hcompleted)) fun _ => hcompleted
  | fail position message =>
      obtain ⟨-, hnext⟩ := Option.ite_none_right_eq_some.mp hstep
      cases hnext
      have hfailed : .failed position ∈
          (state.record (.failed position)).log :=
        List.mem_append_right _ List.mem_cons_self
      have hrecord : Invariant (state.record (.failed position)) :=
        hinv.record (fun _ h => nomatch h) (fun _ h => nomatch h)
      exact hrecord.decideRace (.inl (.inr hfailed)) fun h => nomatch h
  | timeout =>
      simp only [DockerUtils.step] at hstep
      split at hstep
      · rename_i current rest errors hloop
        cases hstep
        have htimedOut : .timedOut current ∈
            (state.record (.timedOut current)).log :=
          List.mem_append_right _ List.mem_cons_self
        have hrecord : Invariant (state.record (.timedOut current)) :=
          hinv.record (fun _ h => nomatch h) (fun _ h => nomatch h)
        exact hrecord.decideRace (.inr htimedOut) fun h => nomatch h
      · cases hstep
  | proceed =>
      simp only [DockerUtils.step] at hstep
      split at hstep
      · rename_i current outcome rest errors hloop
        cases hstep
        exact hinv.proceed hloop
      · cases hstep

theorem foldl_register (shutdown : GracefulShutdown) (names : List String) :
    names.foldl .register shutdown =
      { shutdown with handlers := shutdown.handlers ++ names } := by
  induction names generalizing shutdown with
  | nil => rw [List.append_nil]; rfl
  | cons name rest ih =>
      rw [List.foldl_cons, ih, GracefulShutdown.register, List.append_assoc]
      rfl

theorem invariant_initial (timeoutMs : ℕ) (names : List String) :
    Invariant (State.initial timeoutMs names) := by
  refine ⟨?_, fun _ hloop => (nomatch hloop), fun _ h => (nomatch h),
    fun _ hloop => (nomatch hloop), atEvery_nil, atEvery_nil⟩
  rw [State.initial, foldl_register]
  rfl

theorem Invariant.law (hinv : Invariant state) : ShutdownLaw state := by
  refine ⟨⟨_, hinv.order⟩, hinv.turns, hinv.success, fun hrunning => ?_⟩
  rw [DockerUtils.step, State.callShutdown, if_pos hrunning]
  rfl

/-- In every run each handler is started in its turn, and only the call that
runs the handlers vouches for them. -/
theorem shutdownLaw_of_run {labels : List Label}
    (hrun : exec step (State.initial timeoutMs names) labels = some state) :
    ShutdownLaw state :=
  (exec_invariant (I := Invariant)
    (fun _ _ _ hinv hstep => hinv.step hstep)
    (invariant_initial timeoutMs names) hrun).law

/-- The second signal arrives while the only handler runs; after that the
handler completes. -/
def twoSignals : List Label :=
  [.shutdown, .shutdown, .complete 0, .proceed]

theorem shutdownLaw_of_run_twoSignals :
    ∃ state, exec step (State.initial 10000 ["db"]) twoSignals = some state ∧
      ShutdownLaw state := by
  have hends : (exec step (State.initial 10000 ["db"]) twoSignals).isSome := by
    decide +kernel
  obtain ⟨state, hrun⟩ := Option.isSome_iff_exists.mp hends
  exact ⟨state, hrun, shutdownLaw_of_run hrun⟩

/-- The second call returns success while the handler still runs. -/
theorem not_success_of_early_return :
    ∃ state, exec step (State.initial 10000 ["db"]) [.shutdown, .shutdown] =
        some state ∧
      state.log = [.started 0, .returned true [] false] ∧
      ¬ AtEvery (fun before event => ∀ errors ran,
        event = .returned true errors ran →
          ∀ position ∈ state.shutdown.turns,
            .completed position ∈ before) state.log := by
  refine ⟨_, rfl, rfl, fun hevery => ?_⟩
  have hcompleted := hevery [.started 0] (.returned true [] false) [] rfl []
    false rfl 0 (by decide)
  exact absurd hcompleted (by decide)

end TsCommons.DockerUtils
