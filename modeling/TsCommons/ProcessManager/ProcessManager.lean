import TsCommons.ProcessManager.InMemoryProcessStore
import TsCommons.Foundations.Execution
import Mathlib.Data.List.Chain
import Mathlib.Logic.Function.Basic
import Mathlib.Logic.Relation
import Mathlib.Order.Basic

/-!
# Process managers

A handler loads a process, or begins one, and changes its own copy with the
helpers of the manager before it saves it.  Handlers run at the same time.
Whatever they do, a state is stored only if the rules of the machine lead to
it; and where no handler saves over what another one has saved since it
loaded, the states that are saved follow the rules one after another.
-/

namespace TsCommons.ProcessManager

open Foundations

variable {S E : Type}

/-- What a process holds besides what the store reads: `current` is the state
of the domain, and a time is the number of its milliseconds. -/
structure Details (S E : Type) where
  name : String
  current : S
  startedAt : ℕ
  updatedAt : ℕ
  timeoutAt : Option ℕ
  error : Option E
deriving DecidableEq

abbrev Process (S E : Type) := ProcessState (Details S E)

/-! ## The state machine -/

structure InvalidTransitionError (S : Type) where
  source : S
  target : S
deriving DecidableEq

def InvalidTransitionError.message (text : S → String)
    (error : InvalidTransitionError S) : String :=
  "Invalid transition from '" ++ text error.source ++ "' to '" ++
    text error.target ++ "'"

/-- A rule is a pair of the states `from` and `to`. -/
structure StateMachine (S : Type) where
  rules : List (S × S)

namespace StateMachine

variable [DecidableEq S]

def canTransition (machine : StateMachine S) (source target : S) : Bool :=
  machine.rules.any fun rule => rule.1 = source && rule.2 = target

def validateTransition (machine : StateMachine S) (source target : S) :
    Except (InvalidTransitionError S) Unit :=
  if !machine.canTransition source target then .error ⟨source, target⟩
  else .ok ()

def getAllowedTransitions (machine : StateMachine S) (source : S) : List S :=
  (machine.rules.filter fun rule => rule.1 = source).map Prod.snd

variable {machine : StateMachine S} {source target : S}

theorem canTransition_iff :
    machine.canTransition source target = true ↔
      (source, target) ∈ machine.rules := by
  rw [canTransition, List.any_eq_true]
  constructor
  · rintro ⟨rule, hmem, hends⟩
    rw [Bool.and_eq_true, decide_eq_true_eq, decide_eq_true_eq] at hends
    obtain ⟨rfl, rfl⟩ := hends
    exact hmem
  · intro hmem
    exact ⟨_, hmem, by simp⟩

theorem mem_getAllowedTransitions_iff :
    target ∈ machine.getAllowedTransitions source ↔
      machine.canTransition source target = true := by
  rw [canTransition_iff, getAllowedTransitions, List.mem_map]
  constructor
  · rintro ⟨rule, hmem, rfl⟩
    obtain ⟨hrule, hsource⟩ := List.mem_filter.mp hmem
    rw [decide_eq_true_eq] at hsource
    rw [← hsource]
    exact hrule
  · intro hmem
    exact ⟨_, List.mem_filter.mpr ⟨hmem, by simp⟩, rfl⟩

/-- Some rules of the machine lead from one state to the other. -/
def Leads (machine : StateMachine S) : S → S → Prop :=
  Relation.ReflTransGen fun source target =>
    machine.canTransition source target = true

end StateMachine

/-! ## The helpers of a manager -/

structure Manager (S : Type) where
  name : String
  machine : StateMachine S
  initialState : S

namespace Manager

/-- The id is the one given, or a random one. -/
def begin (manager : Manager S) (now : ℕ) (id : String)
    (correlationId : Option String) : Process S E where
  id := id
  status := .running
  currentState := ⟨manager.name, manager.initialState, now, now, none, none⟩
  correlationId := correlationId

def transition [DecidableEq S] (manager : Manager S) (now : ℕ)
    (state : Process S E) (target : S) :
    Except (InvalidTransitionError S) (Process S E) := do
  manager.machine.validateTransition state.currentState.current target
  pure { state with
    currentState :=
      { state.currentState with current := target, updatedAt := now } }

def complete (now : ℕ) (state : Process S E) : Process S E :=
  { state with
    status := .completed
    currentState := { state.currentState with updatedAt := now } }

def fail (now : ℕ) (state : Process S E) (error : E) : Process S E :=
  { state with
    status := .failed
    currentState :=
      { state.currentState with error := some error, updatedAt := now } }

def timeOut (now : ℕ) (state : Process S E) : Process S E :=
  { state with
    status := .timedOut
    currentState := { state.currentState with updatedAt := now } }

def setTimeoutAt (now : ℕ) (state : Process S E) (deadline : ℕ) : Process S E :=
  { state with
    currentState :=
      { state.currentState with timeoutAt := some deadline, updatedAt := now } }

end Manager

/-! ## Handlers -/

/-- The copy of a handler, and what was stored under its id when it was loaded
or saved last. -/
structure Handling (S E : Type) where
  process : Process S E
  loaded : Option (Process S E)

/-- `saves` are the processes that were saved under an id since it was
deleted.  The clock, which reads `now`, does not go back. -/
structure ManagerState (S E : Type) where
  store : InMemoryProcessStore (Details S E)
  now : ℕ
  handlers : ℕ → Option (Handling S E)
  saves : String → List (Process S E)

def ManagerState.initial : ManagerState S E :=
  ⟨.empty, 0, fun _ => none, fun _ => []⟩

inductive ManagerLabel (S E : Type)
  | advance (elapsed : ℕ)
  | begin (handler : ℕ) (id : String) (correlationId : Option String)
  | findById (handler : ℕ) (id : String)
  | findByCorrelationId (handler : ℕ) (correlationId : String)
  | transition (handler : ℕ) (target : S)
  | complete (handler : ℕ)
  | fail (handler : ℕ) (error : E)
  | timeOut (handler : ℕ)
  | setTimeoutAt (handler : ℕ) (deadline : ℕ)
  | save (handler : ℕ)
  | delete (id : String)

def ManagerState.enter (state : ManagerState S E) (handler : ℕ)
    (handling : Option (Handling S E)) : ManagerState S E :=
  { state with handlers := Function.update state.handlers handler handling }

/-- A helper changes the copy of a handler. -/
def ManagerState.edit (state : ManagerState S E) (handler : ℕ)
    (change : Process S E → Process S E) : Option (ManagerState S E) :=
  (state.handlers handler).map fun handling =>
    state.enter handler
      (some { handling with process := change handling.process })

namespace Manager

variable [DecidableEq S]

/-- A transition that is not permitted throws and changes nothing. -/
def step (manager : Manager S) (state : ManagerState S E) :
    ManagerLabel S E → Option (ManagerState S E)
  | .advance elapsed => some { state with now := state.now + elapsed }
  | .begin handler id correlationId =>
      some (state.enter handler
        (some ⟨manager.begin state.now id correlationId, none⟩))
  | .findById handler id =>
      some (state.enter handler ((state.store.findById id).map fun process =>
        ⟨process, some process⟩))
  | .findByCorrelationId handler correlationId =>
      some (state.enter handler
        ((state.store.findByCorrelationId correlationId).map fun process =>
          ⟨process, some process⟩))
  | .transition handler target =>
      state.edit handler fun process =>
        match manager.transition state.now process target with
        | .error _ => process
        | .ok moved => moved
  | .complete handler => state.edit handler (complete state.now)
  | .fail handler error =>
      state.edit handler fun process => fail state.now process error
  | .timeOut handler => state.edit handler (timeOut state.now)
  | .setTimeoutAt handler deadline =>
      state.edit handler fun process => setTimeoutAt state.now process deadline
  | .save handler =>
      (state.handlers handler).map fun handling =>
        { state with
          store := state.store.save handling.process
          handlers := Function.update state.handlers handler
            (some { handling with loaded := some handling.process })
          saves := Function.update state.saves handling.process.id
            (state.saves handling.process.id ++ [handling.process]) }
  | .delete id =>
      some { state with
        store := state.store.delete id
        saves := Function.update state.saves id [] }

/-! ## Processes that the rules lead to -/

/-- The rules lead to the state of the process, a process that has failed
tells why, and its times are in order. -/
structure Sound (manager : Manager S) (now : ℕ)
    (process : Process S E) : Prop where
  reached : manager.machine.Leads manager.initialState
    process.currentState.current
  failed : process.status = .failed → process.currentState.error.isSome
  ordered : process.currentState.startedAt ≤ process.currentState.updatedAt ∧
    process.currentState.updatedAt ≤ now
  named : process.currentState.name = manager.name

/-- The later process is the earlier one after steps that the rules permit. -/
structure Follows (manager : Manager S) (earlier later : Process S E) :
    Prop where
  leads : manager.machine.Leads earlier.currentState.current
    later.currentState.current
  id : later.id = earlier.id
  correlationId : later.correlationId = earlier.correlationId
  startedAt : later.currentState.startedAt = earlier.currentState.startedAt
  updatedAt : earlier.currentState.updatedAt ≤ later.currentState.updatedAt

variable {manager : Manager S} {now : ℕ} {process earlier middle later :
  Process S E} {state next : ManagerState S E} {label : ManagerLabel S E}

theorem Follows.refl (process : Process S E) :
    manager.Follows process process :=
  ⟨.refl, rfl, rfl, rfl, Nat.le_refl _⟩

theorem Follows.trans (hfirst : manager.Follows earlier middle)
    (hsecond : manager.Follows middle later) :
    manager.Follows earlier later :=
  ⟨hfirst.leads.trans hsecond.leads, hsecond.id.trans hfirst.id,
    hsecond.correlationId.trans hfirst.correlationId,
    hsecond.startedAt.trans hfirst.startedAt,
    hfirst.updatedAt.trans hsecond.updatedAt⟩

theorem Sound.mono (hsound : manager.Sound now process) {now' : ℕ}
    (hnow : now ≤ now') : manager.Sound now' process :=
  { hsound with
    ordered := ⟨hsound.ordered.1, hsound.ordered.2.trans hnow⟩ }

theorem sound_begin (manager : Manager S) (now : ℕ) (id : String)
    (correlationId : Option String) :
    manager.Sound now (manager.begin now id correlationId : Process S E) :=
  ⟨.refl, nofun, ⟨Nat.le_refl _, Nat.le_refl _⟩, rfl⟩

/-- What a helper may do to a sound process. -/
structure Helper (manager : Manager S) (now : ℕ)
    (change : Process S E → Process S E) : Prop where
  sound : ∀ process, manager.Sound now process →
    manager.Sound now (change process)
  follows : ∀ process, manager.Sound now process →
    manager.Follows process (change process)

theorem helper_transition (manager : Manager S) (now : ℕ) (target : S) :
    manager.Helper now fun process : Process S E =>
      match manager.transition now process target with
      | .error _ => process
      | .ok moved => moved := by
  have hcases : ∀ process : Process S E,
      (manager.transition now process target =
        .error ⟨process.currentState.current, target⟩) ∨
      manager.machine.canTransition process.currentState.current target =
          true ∧
        manager.transition now process target = .ok { process with
          currentState := { process.currentState with
            current := target, updatedAt := now } } := by
    intro process
    cases hcan : manager.machine.canTransition process.currentState.current
        target with
    | false =>
        left
        rw [transition, StateMachine.validateTransition, hcan]
        rfl
    | true =>
        right
        refine ⟨rfl, ?_⟩
        rw [transition, StateMachine.validateTransition, hcan]
        rfl
  constructor
  · intro process hsound
    rcases hcases process with herror | ⟨hcan, hok⟩
    · rw [herror]
      exact hsound
    · rw [hok]
      exact ⟨hsound.reached.tail hcan, hsound.failed,
        ⟨hsound.ordered.1.trans hsound.ordered.2, Nat.le_refl _⟩,
        hsound.named⟩
  · intro process hsound
    rcases hcases process with herror | ⟨hcan, hok⟩
    · rw [herror]
      exact .refl process
    · rw [hok]
      exact ⟨.single hcan, rfl, rfl, rfl, hsound.ordered.2⟩

/-- The helpers that leave the state of the domain as it is. -/
theorem helper_of_same {change : Process S E → Process S E}
    (hcurrent : ∀ process, (change process).currentState.current =
      process.currentState.current)
    (hfailed : ∀ process, (process.status = .failed →
      process.currentState.error.isSome) → (change process).status = .failed →
        (change process).currentState.error.isSome)
    (hstarted : ∀ process, (change process).currentState.startedAt =
      process.currentState.startedAt)
    (hupdated : ∀ process, (change process).currentState.updatedAt = now)
    (hname : ∀ process, (change process).currentState.name =
      process.currentState.name)
    (hid : ∀ process, (change process).id = process.id)
    (hcorrelation : ∀ process,
      (change process).correlationId = process.correlationId) :
    manager.Helper now change where
  sound process hsound := by
    constructor
    · rw [hcurrent]
      exact hsound.reached
    · exact hfailed process hsound.failed
    · rw [hstarted, hupdated]
      exact ⟨hsound.ordered.1.trans hsound.ordered.2, Nat.le_refl _⟩
    · rw [hname]
      exact hsound.named
  follows process hsound := by
    constructor
    · rw [hcurrent]
      exact .refl
    · exact hid process
    · exact hcorrelation process
    · exact hstarted process
    · rw [hupdated]
      exact hsound.ordered.2

theorem helper_complete (manager : Manager S) (now : ℕ) :
    manager.Helper now (complete now : Process S E → Process S E) :=
  helper_of_same (fun _ => rfl) (fun _ _ => nofun) (fun _ => rfl)
    (fun _ => rfl) (fun _ => rfl) (fun _ => rfl) fun _ => rfl

theorem helper_fail (manager : Manager S) (now : ℕ) (error : E) :
    manager.Helper now fun process : Process S E => fail now process error :=
  helper_of_same (fun _ => rfl) (fun _ _ _ => rfl) (fun _ => rfl)
    (fun _ => rfl) (fun _ => rfl) (fun _ => rfl) fun _ => rfl

theorem helper_timeOut (manager : Manager S) (now : ℕ) :
    manager.Helper now (timeOut now : Process S E → Process S E) :=
  helper_of_same (fun _ => rfl) (fun _ _ => nofun) (fun _ => rfl)
    (fun _ => rfl) (fun _ => rfl) (fun _ => rfl) fun _ => rfl

theorem helper_setTimeoutAt (manager : Manager S) (now deadline : ℕ) :
    manager.Helper now fun process : Process S E =>
      setTimeoutAt now process deadline :=
  helper_of_same (fun _ => rfl) (fun _ hfailed => hfailed) (fun _ => rfl)
    (fun _ => rfl) (fun _ => rfl) (fun _ => rfl) fun _ => rfl

/-! ## Runs -/

/-- A copy is the process that was loaded after steps that the rules
permit. -/
structure HandlingSound (manager : Manager S) (now : ℕ)
    (handling : Handling S E) : Prop where
  sound : manager.Sound now handling.process
  follows : ∀ loaded, handling.loaded = some loaded →
    manager.Follows loaded handling.process

structure ManagerInvariant (manager : Manager S) (state : ManagerState S E) :
    Prop where
  stored : ∀ id process, state.store.findById id = some process →
    process.id = id ∧ manager.Sound state.now process
  handled : ∀ handler handling, state.handlers handler = some handling →
    manager.HandlingSound state.now handling
  last : ∀ id, (state.saves id).getLast? = state.store.findById id

theorem managerInvariant_initial :
    manager.ManagerInvariant (ManagerState.initial : ManagerState S E) where
  stored _ _ hfound := nomatch hfound
  handled _ _ hhandling := nomatch hhandling
  last _ := rfl

theorem HandlingSound.mono {handling : Handling S E}
    (hsound : manager.HandlingSound now handling) {now' : ℕ}
    (hnow : now ≤ now') : manager.HandlingSound now' handling :=
  ⟨hsound.sound.mono hnow, hsound.follows⟩

theorem ManagerInvariant.enter (hinv : manager.ManagerInvariant state)
    (handler : ℕ) {handling : Option (Handling S E)}
    (hhandling : ∀ found, handling = some found →
      manager.HandlingSound state.now found) :
    manager.ManagerInvariant (state.enter handler handling) := by
  refine ⟨hinv.stored, fun other found hfound => ?_, hinv.last⟩
  unfold ManagerState.enter at hfound ⊢
  dsimp only at hfound
  by_cases hother : other = handler
  · subst hother
    rw [Function.update_self] at hfound
    exact hhandling found hfound
  · rw [Function.update_of_ne hother] at hfound
    exact hinv.handled other found hfound

theorem ManagerInvariant.edit (hinv : manager.ManagerInvariant state)
    {handler : ℕ} {change : Process S E → Process S E}
    (hhelper : manager.Helper state.now change)
    (hstep : state.edit handler change = some next) :
    manager.ManagerInvariant next := by
  obtain ⟨handling, hhandling, rfl⟩ := Option.map_eq_some_iff.mp hstep
  have hsound := hinv.handled handler handling hhandling
  apply hinv.enter
  intro found hfound
  cases hfound
  refine ⟨hhelper.sound _ hsound.sound, fun loaded hloaded => ?_⟩
  exact (hsound.follows loaded hloaded).trans
    (hhelper.follows _ hsound.sound)

/-- A copy that has just been loaded. -/
theorem ManagerInvariant.load (hinv : manager.ManagerInvariant state)
    (handler : ℕ) {found : Option (Process S E)}
    (hfound : ∀ process, found = some process →
      ∃ id, state.store.findById id = some process) :
    manager.ManagerInvariant (state.enter handler
      (found.map fun process => ⟨process, some process⟩)) := by
  apply hinv.enter
  intro handling hhandling
  obtain ⟨process, hprocess, rfl⟩ := Option.map_eq_some_iff.mp hhandling
  obtain ⟨id, hstored⟩ := hfound process hprocess
  refine ⟨(hinv.stored id process hstored).2, fun loaded hloaded => ?_⟩
  cases hloaded
  exact .refl process

theorem ManagerInvariant.save (hinv : manager.ManagerInvariant state)
    {handler : ℕ} {handling : Handling S E}
    (hhandling : state.handlers handler = some handling) :
    manager.ManagerInvariant { state with
      store := state.store.save handling.process
      handlers := Function.update state.handlers handler
        (some { handling with loaded := some handling.process })
      saves := Function.update state.saves handling.process.id
        (state.saves handling.process.id ++ [handling.process]) } := by
  have hsound := (hinv.handled handler handling hhandling).sound
  constructor
  · intro id process hfound
    rw [InMemoryProcessStore.findById_save] at hfound
    split at hfound
    next hid =>
      cases hfound
      exact ⟨hid.symm, hsound⟩
    next => exact hinv.stored id process hfound
  · intro other found hfound
    dsimp only at hfound
    by_cases hother : other = handler
    · subst hother
      rw [Function.update_self, Option.some.injEq] at hfound
      subst hfound
      refine ⟨hsound, fun loaded hloaded => ?_⟩
      cases hloaded
      exact .refl _
    · rw [Function.update_of_ne hother] at hfound
      exact hinv.handled other found hfound
  · intro id
    rw [InMemoryProcessStore.findById_save]
    dsimp only
    by_cases hid : id = handling.process.id
    · subst hid
      rw [Function.update_self, if_pos rfl, List.getLast?_concat]
    · rw [Function.update_of_ne hid, if_neg hid]
      exact hinv.last id

theorem ManagerInvariant.delete (hinv : manager.ManagerInvariant state)
    (deleted : String) :
    manager.ManagerInvariant { state with
      store := state.store.delete deleted
      saves := Function.update state.saves deleted [] } := by
  refine ⟨fun id process hfound => ?_, hinv.handled, fun id => ?_⟩
  · rw [InMemoryProcessStore.findById_delete] at hfound
    exact hinv.stored id process (Option.ite_none_left_eq_some.mp hfound).2
  · rw [InMemoryProcessStore.findById_delete]
    dsimp only
    by_cases hid : id = deleted
    · subst hid
      rw [Function.update_self, if_pos rfl]
      rfl
    · rw [Function.update_of_ne hid, if_neg hid]
      exact hinv.last id

theorem ManagerInvariant.step (hinv : manager.ManagerInvariant state)
    (hstep : manager.step state label = some next) :
    manager.ManagerInvariant next := by
  cases label with
  | advance elapsed =>
      cases hstep
      have hnow := Nat.le_add_right state.now elapsed
      exact ⟨fun id process hfound =>
          (hinv.stored id process hfound).imp_right fun hsound =>
            hsound.mono hnow,
        fun handler handling hhandling =>
          (hinv.handled handler handling hhandling).mono hnow,
        hinv.last⟩
  | begin handler id correlationId =>
      cases hstep
      apply hinv.enter
      intro found hfound
      cases hfound
      exact ⟨sound_begin manager state.now id correlationId, nofun⟩
  | findById handler id =>
      cases hstep
      exact hinv.load handler fun _ hfound => ⟨id, hfound⟩
  | findByCorrelationId handler correlationId =>
      cases hstep
      apply hinv.load handler
      intro process hfound
      obtain ⟨id, -, hstored⟩ :=
        InMemoryProcessStore.findByCorrelationId_eq_some_iff.mp hfound
      exact ⟨id, hstored⟩
  | transition handler target =>
      exact hinv.edit (helper_transition manager _ target) hstep
  | complete handler => exact hinv.edit (helper_complete manager _) hstep
  | fail handler error => exact hinv.edit (helper_fail manager _ error) hstep
  | timeOut handler => exact hinv.edit (helper_timeOut manager _) hstep
  | setTimeoutAt handler deadline =>
      exact hinv.edit (helper_setTimeoutAt manager _ deadline) hstep
  | save handler =>
      obtain ⟨handling, hhandling, rfl⟩ := Option.map_eq_some_iff.mp hstep
      exact hinv.save hhandling
  | delete id =>
      cases hstep
      exact hinv.delete id

/-- However the handlers overlap. -/
theorem sound_run {labels : List (ManagerLabel S E)}
    (hrun : exec manager.step ManagerState.initial labels = some state) :
    (∀ id process, state.store.findById id = some process →
      process.id = id ∧ manager.Sound state.now process) ∧
    ∀ correlationId process,
      state.store.findByCorrelationId correlationId = some process →
        manager.Sound state.now process := by
  have hinv : manager.ManagerInvariant state :=
    exec_invariant (fun _ _ _ hinv hstep => hinv.step hstep)
      managerInvariant_initial hrun
  refine ⟨hinv.stored, fun correlationId process hfound => ?_⟩
  obtain ⟨id, -, hstored⟩ :=
    InMemoryProcessStore.findByCorrelationId_eq_some_iff.mp hfound
  exact (hinv.stored id process hstored).2

/-! ## Handlers that do not overlap -/

omit [DecidableEq S] in
/-- What a handler saves over is what it has loaded. -/
def Undisturbed (state : ManagerState S E) : ManagerLabel S E → Prop
  | .save handler =>
      ∀ handling ∈ state.handlers handler,
        state.store.findById handling.process.id = handling.loaded
  | .advance _ | .begin _ _ _ | .findById _ _ | .findByCorrelationId _ _
  | .transition _ _ | .complete _ | .fail _ _ | .timeOut _
  | .setTimeoutAt _ _ | .delete _ => True

instance Undisturbed.decidable [DecidableEq E] (state : ManagerState S E) :
    (label : ManagerLabel S E) → Decidable (Undisturbed state label)
  | .save handler =>
      inferInstanceAs (Decidable (
        ∀ handling ∈ state.handlers handler,
          state.store.findById handling.process.id = handling.loaded))
  | .advance _ | .begin _ _ _ | .findById _ _ | .findByCorrelationId _ _
  | .transition _ _ | .complete _ | .fail _ _ | .timeOut _
  | .setTimeoutAt _ _ | .delete _ => .isTrue trivial

/-- The states that are saved under an id follow one another. -/
def Chained (manager : Manager S) (state : ManagerState S E) : Prop :=
  ∀ id, (state.saves id).IsChain manager.Follows

theorem chained_save (hinv : manager.ManagerInvariant state)
    (hchained : manager.Chained state) {handler : ℕ}
    {handling : Handling S E}
    (hhandling : state.handlers handler = some handling)
    (hloaded : state.store.findById handling.process.id = handling.loaded)
    (id : String) :
    (Function.update state.saves handling.process.id
      (state.saves handling.process.id ++ [handling.process]) id).IsChain
        manager.Follows := by
  by_cases hid : id = handling.process.id
  · subst hid
    rw [Function.update_self]
    apply (hchained _).append (List.isChain_singleton _)
    intro last hlast first hfirst
    rw [List.head?_cons, Option.mem_some_iff] at hfirst
    rw [hinv.last, hloaded] at hlast
    rw [← hfirst]
    exact (hinv.handled handler handling hhandling).follows last hlast
  · rw [Function.update_of_ne hid]
    exact hchained id

theorem chained_step (hinv : manager.ManagerInvariant state)
    (hchained : manager.Chained state) (hundisturbed : Undisturbed state label)
    (hstep : manager.step state label = some next) :
    manager.Chained next := by
  cases label with
  | advance elapsed =>
      cases hstep
      exact hchained
  | begin handler id correlationId =>
      cases hstep
      exact hchained
  | findById handler id =>
      cases hstep
      exact hchained
  | findByCorrelationId handler correlationId =>
      cases hstep
      exact hchained
  | transition handler target =>
      obtain ⟨handling, -, rfl⟩ := Option.map_eq_some_iff.mp hstep
      exact hchained
  | complete handler =>
      obtain ⟨handling, -, rfl⟩ := Option.map_eq_some_iff.mp hstep
      exact hchained
  | fail handler error =>
      obtain ⟨handling, -, rfl⟩ := Option.map_eq_some_iff.mp hstep
      exact hchained
  | timeOut handler =>
      obtain ⟨handling, -, rfl⟩ := Option.map_eq_some_iff.mp hstep
      exact hchained
  | setTimeoutAt handler deadline =>
      obtain ⟨handling, -, rfl⟩ := Option.map_eq_some_iff.mp hstep
      exact hchained
  | save handler =>
      obtain ⟨handling, hhandling, rfl⟩ := Option.map_eq_some_iff.mp hstep
      exact chained_save hinv hchained hhandling (hundisturbed _ hhandling)
  | delete deleted =>
      cases hstep
      intro id
      dsimp only
      by_cases hid : id = deleted
      · subst hid
        rw [Function.update_self]
        exact .nil
      · rw [Function.update_of_ne hid]
        exact hchained id

theorem chained_run {labels : List (ManagerLabel S E)}
    (hmeets : StepsMeet manager.step Undisturbed ManagerState.initial labels)
    (hrun : exec manager.step ManagerState.initial labels = some state) :
    ∀ id, (state.saves id).IsChain manager.Follows ∧
      (state.saves id).getLast? = state.store.findById id := by
  have hboth : manager.ManagerInvariant state ∧ manager.Chained state := by
    apply exec_invariant_of_stepsMeet (I := fun state =>
      manager.ManagerInvariant state ∧ manager.Chained state) _ _ hmeets hrun
    · intro state label next hboth hundisturbed hstep
      exact ⟨hboth.1.step hstep,
        chained_step hboth.1 hboth.2 hundisturbed hstep⟩
    · exact ⟨managerInvariant_initial, fun _ => .nil⟩
  exact fun id => ⟨hboth.2 id, hboth.1.last id⟩

end Manager

/-! ## An order -/

inductive OrderState
  | pending
  | payment
  | shipping
deriving DecidableEq

def orderManager : Manager OrderState :=
  ⟨"OrderProcess", ⟨[(.pending, .payment), (.payment, .shipping)]⟩, .pending⟩

/-- The first handler tries a transition that is not permitted; the second
one takes the process on. -/
def twoHandlers : List (ManagerLabel OrderState String) :=
  [.begin 0 "p" (some "order-1"), .transition 0 .shipping, .save 0,
    .advance 7, .findByCorrelationId 1 "order-1", .transition 1 .payment,
    .save 1, .transition 1 .shipping, .fail 1 "lost", .save 1]

theorem sound_run_twoHandlers :
    ∃ state process,
      exec orderManager.step ManagerState.initial twoHandlers = some state ∧
      state.store.findByCorrelationId "order-1" = some process ∧
      orderManager.Sound 7 process ∧
      process.currentState.error = some "lost" := by
  have hrun : exec orderManager.step ManagerState.initial twoHandlers =
    some _ := rfl
  exact ⟨_, _, hrun, rfl, (orderManager.sound_run hrun).2 "order-1" _ rfl,
    rfl⟩

theorem chained_run_twoHandlers :
    ∃ state, exec orderManager.step ManagerState.initial twoHandlers =
        some state ∧
      ((state.saves "p").map fun process => process.currentState.current) =
        [.pending, .payment, .shipping] ∧
      (state.saves "p").IsChain orderManager.Follows := by
  have hrun : exec orderManager.step ManagerState.initial twoHandlers =
    some _ := rfl
  have hmeets : StepsMeet orderManager.step Manager.Undisturbed
      ManagerState.initial twoHandlers := by
    decide
  exact ⟨_, hrun, rfl, (orderManager.chained_run hmeets hrun "p").1⟩

end TsCommons.ProcessManager
