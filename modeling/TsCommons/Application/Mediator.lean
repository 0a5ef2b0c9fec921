import TsCommons.Foundations.Execution
import TsCommons.Foundations.InsertionMap
import Mathlib.Data.List.Sort
import Mathlib.Logic.Function.Basic
import Mathlib.Logic.Relation

/-!
# The mediator and its behaviors

A request goes down the behaviors, lower orders first, until one of them
answers it or the handler is called, and the answer goes back up through the
ones it has passed.  Requests are under way at the same time.  Each that has a
handler is logged once with its answer, none gets past a validation that
refuses it, and what is answered has come from a handler over requests that
share the keys of caches.
-/

namespace TsCommons.Application

open Foundations

/-- `type` is the name of the constructor.  A behavior is an object with a
number of its own, whose validation, key function and time to live are
given. -/
structure MediatorConfig (Q : Type) where
  type : Q → String
  validate : ℕ → Q → List String
  keyFn : ℕ → Q → String
  ttlMs : ℕ → Option ℕ

/-- A behavior of one of the three classes of the library. -/
inductive Behavior
  | logging (id : ℕ)
  | validation (id : ℕ)
  | caching (id : ℕ)
deriving DecidableEq

def Behavior.order : Behavior → ℕ
  | .logging _ => 10
  | .validation _ => 20
  | .caching _ => 30

def Behavior.Before (first second : Behavior) : Prop :=
  first.order ≤ second.order

instance : DecidableRel Behavior.Before :=
  fun first second => inferInstanceAs (Decidable (first.order ≤ second.order))

instance : Std.Total Behavior.Before :=
  ⟨fun first second => Nat.le_total first.order second.order⟩

instance : IsTrans Behavior Behavior.Before :=
  ⟨fun _ _ _ hfirst hsecond => Nat.le_trans hfirst hsecond⟩

inductive MediatorError
  | noHandler (key : String)
  | invalid (errors : List String)
  | handler (message : String)
deriving DecidableEq

def MediatorError.message : MediatorError → String
  | .noHandler key => "No handler registered for request: " ++ key
  | .invalid errors =>
      "Validation failed: " ++ String.intercalate ", " errors
  | .handler message => message

structure MediatorLogEntry where
  requestType : String
  durationMs : ℕ
  success : Bool
  error : Option String
deriving DecidableEq

structure CacheEntry (R : Type) where
  value : R
  cachedAt : ℕ
deriving DecidableEq

/-- The handlers are numbered. -/
structure Mediator where
  handlers : InsertionMap String ℕ
  behaviors : List Behavior

namespace Mediator

def new : Mediator := ⟨.empty, []⟩

def register (mediator : Mediator) (requestType : String) (handler : ℕ) :
    Mediator :=
  { mediator with handlers := mediator.handlers.set requestType handler }

def addBehavior (mediator : Mediator) (behavior : Behavior) : Mediator :=
  { mediator with
    behaviors :=
      (mediator.behaviors ++ [behavior]).insertionSort Behavior.Before }

end Mediator

/-! ## Requests under way -/

/-- What a behavior does with the answer. -/
inductive Frame
  | logged (id start : ℕ)
  | cached (id : ℕ) (key : String)
deriving DecidableEq

inductive Phase (R : Type)
  | waiting (handler : ℕ)
  | returning (answer : Except MediatorError R)
  | done (answer : Except MediatorError R)

/-- A call of `send`, with the behaviors at the time and the frames that its
answer has still to pass, the innermost first. -/
structure Call (Q R : Type) where
  request : Q
  behaviors : List Behavior
  frames : List Frame
  phase : Phase R

/-- A value that a cache has stored, and when. -/
structure Stored (R : Type) where
  id : ℕ
  key : String
  entry : CacheEntry R

/-- The entries of a log stand with the numbers of their calls.  `returned` are
the values of the handlers, `stored` those of the caches, and `hits` the
entries that caches have answered with. -/
structure MediatorState (Q R : Type) where
  mediator : Mediator
  caches : ℕ → InsertionMap String (CacheEntry R)
  logs : ℕ → List (ℕ × MediatorLogEntry)
  now : ℕ
  calls : List (Call Q R)
  returned : List (Q × R)
  stored : List (Stored R)
  hits : List (Stored R × ℕ)

inductive MediatorLabel (Q R : Type)
  | register (requestType : String) (handler : ℕ)
  | addBehavior (behavior : Behavior)
  | send (request : Q)
  | settle (call : ℕ) (answer : Except String R)
  | unwind (call : ℕ)
  | advance (elapsed : ℕ)
  | invalidate (cache : ℕ) (key : String)
  | clear (cache : ℕ)

namespace MediatorConfig

variable {Q R : Type} (config : MediatorConfig Q)

def isStale (id : ℕ) (entry : CacheEntry R) (now : ℕ) : Bool :=
  (config.ttlMs id).any fun ttl => ttl < now - entry.cachedAt

/-- What comes of the way down: the frames, and either the handler is to be
called or there is an answer, of a cache if it is a hit. -/
structure Descent (R : Type) where
  frames : List Frame
  answer : Option (Except MediatorError R)
  hit : Option (Stored R)

/-- `runPipeline`, as far as it runs at once. -/
def runPipeline (caches : ℕ → InsertionMap String (CacheEntry R)) (now : ℕ)
    (request : Q) : List Frame → List Behavior → Descent R
  | frames, [] => ⟨frames, none, none⟩
  | frames, .logging id :: rest =>
      runPipeline caches now request (.logged id now :: frames) rest
  | frames, .validation id :: rest =>
      match config.validate id request with
      | [] => runPipeline caches now request frames rest
      | error :: errors =>
          ⟨frames, some (.error (.invalid (error :: errors))), none⟩
  | frames, .caching id :: rest =>
      let key := config.keyFn id request
      match (caches id).get key with
      | none =>
          runPipeline caches now request (.cached id key :: frames) rest
      | some entry =>
          if config.isStale id entry now then
            runPipeline caches now request (.cached id key :: frames) rest
          else ⟨frames, some (.ok entry.value), some ⟨id, key, entry⟩⟩

def send (state : MediatorState Q R) (request : Q) : MediatorState Q R :=
  let key := config.type request
  match state.mediator.handlers.get key with
  | none =>
      { state with
        calls := state.calls ++
          [⟨request, [], [], .done (.error (.noHandler key))⟩] }
  | some handler =>
      let descent := config.runPipeline state.caches state.now request []
        state.mediator.behaviors
      { state with
        calls := state.calls ++
          [⟨request, state.mediator.behaviors, descent.frames,
            match descent.answer with
            | none => .waiting handler
            | some answer => .returning answer⟩]
        hits := state.hits ++
          (descent.hit.map fun stored => (stored, state.now)).toList }

/-- What a log records of a request and its answer. -/
def logEntry (request : Q) (durationMs : ℕ) :
    Except MediatorError R → MediatorLogEntry
  | .ok _ => ⟨config.type request, durationMs, true, none⟩
  | .error error =>
      ⟨config.type request, durationMs, false, some error.message⟩

/-- The answer of `next()` goes through the rest of a behavior. -/
def leave (state : MediatorState Q R) (index : ℕ) (request : Q)
    (answer : Except MediatorError R) : Frame → MediatorState Q R
  | .logged id start =>
      { state with
        logs := Function.update state.logs id
          (state.logs id ++
            [(index, config.logEntry request (state.now - start) answer)]) }
  | .cached id key =>
      match answer with
      | .error _ => state
      | .ok value =>
          { state with
            caches := Function.update state.caches id
              ((state.caches id).set key ⟨value, state.now⟩)
            stored := state.stored ++ [⟨id, key, value, state.now⟩] }

def unwind (state : MediatorState Q R) (index : ℕ) (call : Call Q R)
    (answer : Except MediatorError R) : MediatorState Q R :=
  match call.frames with
  | [] =>
      { state with
        calls := state.calls.set index { call with phase := .done answer } }
  | frame :: rest =>
      { config.leave state index call.request answer frame with
        calls := state.calls.set index { call with frames := rest } }

def step (state : MediatorState Q R) :
    MediatorLabel Q R → Option (MediatorState Q R)
  | .register requestType handler =>
      some { state with
        mediator := state.mediator.register requestType handler }
  | .addBehavior behavior =>
      some { state with mediator := state.mediator.addBehavior behavior }
  | .send request => some (config.send state request)
  | .settle index answer =>
      match state.calls[index]? with
      | some ⟨request, behaviors, frames, .waiting _⟩ =>
          some { state with
            calls := state.calls.set index ⟨request, behaviors, frames,
              .returning (answer.mapError .handler)⟩
            returned := state.returned ++
              (answer.toOption.map fun value => (request, value)).toList }
      | _ => none
  | .unwind index =>
      match state.calls[index]? with
      | some ⟨request, behaviors, frames, .returning answer⟩ =>
          some (config.unwind state index
            ⟨request, behaviors, frames, .returning answer⟩ answer)
      | _ => none
  | .advance elapsed => some { state with now := state.now + elapsed }
  | .invalidate cache key =>
      some { state with
        caches := Function.update state.caches cache
          ((state.caches cache).delete key) }
  | .clear cache =>
      some { state with
        caches := Function.update state.caches cache .empty }

end MediatorConfig

def MediatorState.initial {Q R : Type} : MediatorState Q R where
  mediator := .new
  caches := fun _ => .empty
  logs := fun _ => []
  now := 0
  calls := []
  returned := []
  stored := []
  hits := []

/-! ## The way down -/

namespace MediatorConfig

variable {Q R : Type} (config : MediatorConfig Q)

/-- No validation among the behaviors refuses the request. -/
def Admits (behaviors : List Behavior) (request : Q) : Prop :=
  ∀ id, .validation id ∈ behaviors → config.validate id request = []

def FrameOf (request : Q) : Frame → Prop
  | .logged _ _ => True
  | .cached id key => key = config.keyFn id request

def Frame.logs (id : ℕ) : Frame → Bool
  | .logged other _ => other = id
  | .cached _ _ => false

section Descents

variable {caches : ℕ → InsertionMap String (CacheEntry R)} {now : ℕ}
  {request : Q} {frames : List Frame} {behaviors : List Behavior}

theorem frameOf_runPipeline
    (hframes : ∀ frame ∈ frames, config.FrameOf request frame) :
    ∀ frame ∈ (config.runPipeline caches now request frames behaviors).frames,
      config.FrameOf request frame := by
  induction behaviors generalizing frames with
  | nil => exact hframes
  | cons first rest ih =>
      cases first with
      | logging id => exact ih (List.forall_mem_cons.mpr ⟨trivial, hframes⟩)
      | validation id =>
          rw [runPipeline]
          split
          · exact ih hframes
          · exact hframes
      | caching id =>
          rw [runPipeline]
          split
          · exact ih (List.forall_mem_cons.mpr ⟨rfl, hframes⟩)
          · split
            · exact ih (List.forall_mem_cons.mpr ⟨rfl, hframes⟩)
            · exact hframes

theorem not_mem_logging {first : Behavior} {rest : List Behavior}
    (hsorted : (first :: rest).Pairwise Behavior.Before)
    (horder : 10 < first.order) (id : ℕ) : .logging id ∉ rest := by
  intro hmem
  have hle : first.order ≤ (Behavior.logging id).order :=
    (List.pairwise_cons.mp hsorted).1 _ hmem
  exact absurd hle (Nat.not_le.mpr horder)

/-- A request that goes no further has passed all of the logs. -/
theorem countP_logs_runPipeline
    (hsorted : behaviors.Pairwise Behavior.Before) (id : ℕ) :
    (config.runPipeline caches now request frames behaviors).frames.countP
        (Frame.logs id) =
      frames.countP (Frame.logs id) + behaviors.count (.logging id) := by
  induction behaviors generalizing frames with
  | nil => rfl
  | cons first rest ih =>
      have hrest := (List.pairwise_cons.mp hsorted).2
      cases first with
      | logging other =>
          rw [runPipeline, ih hrest, List.countP_cons, List.count_cons]
          simp only [Frame.logs, decide_eq_true_eq, beq_iff_eq,
            Behavior.logging.injEq]
          omega
      | validation other =>
          have hnone := List.count_eq_zero_of_not_mem
            (not_mem_logging hsorted (show 10 < 20 by decide) id)
          rw [List.count_cons_of_ne (by simp), runPipeline]
          split
          · exact ih hrest
          · rw [hnone]
            rfl
      | caching other =>
          have hnone := List.count_eq_zero_of_not_mem
            (not_mem_logging hsorted (show 10 < 30 by decide) id)
          rw [List.count_cons_of_ne (by simp), runPipeline]
          have hcached : (Frame.cached other (config.keyFn other request) ::
              frames).countP (Frame.logs id) =
                frames.countP (Frame.logs id) :=
            List.countP_cons_of_neg (by simp [Frame.logs])
          split
          · rw [ih hrest, hcached]
          · split
            · rw [ih hrest, hcached]
            · rw [hnone]
              rfl

theorem not_mem_validation {id : ℕ} {rest : List Behavior}
    (hsorted : (.caching id :: rest).Pairwise Behavior.Before) (other : ℕ) :
    .validation other ∉ rest := by
  intro hmem
  have hle : 30 ≤ 20 := (List.pairwise_cons.mp hsorted).1 _ hmem
  exact absurd hle (by decide)

/-- A request that is not refused has passed all of the validations. -/
theorem admits_of_runPipeline
    (hsorted : behaviors.Pairwise Behavior.Before)
    (hanswer : ∀ error, (config.runPipeline caches now request frames
      behaviors).answer ≠ some (.error error)) :
    config.Admits behaviors request := by
  induction behaviors generalizing frames with
  | nil => exact fun _ hmem => nomatch hmem
  | cons first rest ih =>
      have hrest := (List.pairwise_cons.mp hsorted).2
      cases first with
      | logging other =>
          intro id hmem
          exact ih hrest hanswer id ((List.mem_cons.mp hmem).resolve_left nofun)
      | validation other =>
          rw [runPipeline] at hanswer
          split at hanswer
          next hnone =>
            intro id hmem
            rcases List.mem_cons.mp hmem with heq | hlater
            · cases heq
              exact hnone
            · exact ih hrest hanswer id hlater
          next => exact absurd rfl (hanswer _)
      | caching other =>
          intro id hmem
          have hlater := (List.mem_cons.mp hmem).resolve_left nofun
          exact absurd hlater (not_mem_validation hsorted id)

/-- An answer on the way down is an entry under the key of the request that is
not stale, or a refusal. -/
theorem hit_of_runPipeline {value : R}
    (hanswer : (config.runPipeline caches now request frames
      behaviors).answer = some (.ok value)) :
    ∃ id entry, .caching id ∈ behaviors ∧
      (config.runPipeline caches now request frames behaviors).hit =
        some ⟨id, config.keyFn id request, entry⟩ ∧
      entry.value = value := by
  induction behaviors generalizing frames with
  | nil => cases hanswer
  | cons first rest ih =>
      have hlater : ∀ {frames : List Frame},
          (config.runPipeline caches now request frames rest).answer =
              some (.ok value) →
            ∃ id entry, .caching id ∈ first :: rest ∧
              (config.runPipeline caches now request frames rest).hit =
                some ⟨id, config.keyFn id request, entry⟩ ∧
              entry.value = value := by
        intro frames hanswer
        obtain ⟨id, entry, hmem, hhit⟩ := ih hanswer
        exact ⟨id, entry, List.mem_cons_of_mem _ hmem, hhit⟩
      cases first with
      | logging other => exact hlater hanswer
      | validation other =>
          rw [runPipeline] at hanswer ⊢
          split at hanswer
          · exact hlater hanswer
          · cases hanswer
      | caching other =>
          rw [runPipeline] at hanswer ⊢
          split at hanswer
          next => exact hlater hanswer
          next entry _ =>
            split at hanswer
            next hstale =>
              rw [if_pos hstale]
              exact hlater hanswer
            next hfresh =>
              rw [if_neg hfresh]
              cases hanswer
              exact ⟨other, entry, List.mem_cons_self, rfl, rfl⟩

theorem fresh_of_runPipeline {hit : Stored R}
    (hhit : (config.runPipeline caches now request frames behaviors).hit =
      some hit) :
    (caches hit.id).get hit.key = some hit.entry ∧
      config.isStale hit.id hit.entry now = false := by
  induction behaviors generalizing frames with
  | nil => cases hhit
  | cons first rest ih =>
      cases first with
      | logging other => exact ih hhit
      | validation other =>
          rw [runPipeline] at hhit
          split at hhit
          · exact ih hhit
          · cases hhit
      | caching other =>
          rw [runPipeline] at hhit
          split at hhit
          next => exact ih hhit
          next entry heq =>
            split at hhit
            next => exact ih hhit
            next hfresh =>
              cases hhit
              exact ⟨heq, Bool.eq_false_iff.mpr hfresh⟩

end Descents

/-! ## What is answered and logged -/

/-- A cache among the behaviors has one key for both requests. -/
def SameKey (behaviors : List Behavior) (request other : Q) : Prop :=
  ∃ id, .caching id ∈ behaviors ∧
    config.keyFn id request = config.keyFn id other

/-- The value was returned by a handler, for the request itself or for one at
the end of a chain of requests of which each shares a key with the next. -/
def Origin (behaviors : List Behavior) (returned : List (Q × R)) (request : Q)
    (value : R) : Prop :=
  ∃ origin, Relation.ReflTransGen (config.SameKey behaviors) request origin ∧
    (origin, value) ∈ returned

def Call.answer? (call : Call Q R) : Option (Except MediatorError R) :=
  match call.phase with
  | .waiting _ => none
  | .returning answer => some answer
  | .done answer => some answer

/-- Each log among the behaviors of a call has an entry of the call or is still
to get one, and each entry is that of its own call's answer.  A call without a
handler has no behaviors. -/
structure LogLaw (calls : List (Call Q R))
    (logs : ℕ → List (ℕ × MediatorLogEntry)) : Prop where
  once : ∀ index call, calls[index]? = some call → ∀ id,
    ((logs id).map Prod.fst).count index +
      call.frames.countP (Frame.logs id) =
        call.behaviors.count (.logging id)
  own : ∀ id, ∀ entry ∈ logs id, ∃ call answer durationMs,
    calls[entry.1]? = some call ∧ Call.answer? call = some answer ∧
      entry.2 = config.logEntry call.request durationMs answer

structure MediatorLaw (state : MediatorState Q R) : Prop where
  answered : ∀ call ∈ state.calls, ∀ value, call.phase = .done (.ok value) →
    config.Admits call.behaviors call.request ∧
      config.Origin state.mediator.behaviors state.returned call.request value
  gated : ∀ call ∈ state.calls, ∀ handler, call.phase = .waiting handler →
    config.Admits call.behaviors call.request
  fresh : ∀ hit ∈ state.hits, hit.1 ∈ state.stored ∧
    ∀ ttl ∈ config.ttlMs hit.1.id, hit.2 ≤ hit.1.entry.cachedAt + ttl
  finished : ∀ call ∈ state.calls, ∀ answer, call.phase = .done answer →
    call.frames = []
  logged : config.LogLaw state.calls state.logs

structure CallInvariant (behaviors : List Behavior) (returned : List (Q × R))
    (call : Call Q R) : Prop where
  frames : ∀ frame ∈ call.frames, config.FrameOf call.request frame
  waiting : ∀ handler, call.phase = .waiting handler →
    config.Admits call.behaviors call.request
  returning : ∀ value, call.phase = .returning (.ok value) →
    config.Admits call.behaviors call.request ∧
      config.Origin behaviors returned call.request value
  done : ∀ value, call.phase = .done (.ok value) →
    config.Admits call.behaviors call.request ∧
      config.Origin behaviors returned call.request value
  finished : ∀ answer, call.phase = .done answer → call.frames = []

structure MediatorInvariant (state : MediatorState Q R) : Prop where
  ordered : state.mediator.behaviors.Pairwise Behavior.Before
  stored : ∀ id key entry, (state.caches id).get key = some entry →
    ⟨id, key, entry⟩ ∈ state.stored
  origins : ∀ stored ∈ state.stored,
    ∃ request, config.keyFn stored.id request = stored.key ∧
      config.Origin state.mediator.behaviors state.returned request
        stored.entry.value
  calls : ∀ call ∈ state.calls,
    config.CallInvariant state.mediator.behaviors state.returned call
  fresh : ∀ hit ∈ state.hits, hit.1 ∈ state.stored ∧
    ∀ ttl ∈ config.ttlMs hit.1.id, hit.2 ≤ hit.1.entry.cachedAt + ttl
  logged : config.LogLaw state.calls state.logs

section Runs

variable {config : MediatorConfig Q} {state next : MediatorState Q R}
  {label : MediatorLabel Q R} {behaviors later : List Behavior}
  {returned : List (Q × R)} {request : Q} {value : R} {call : Call Q R}
  {index id : ℕ}

theorem Origin.mono (horigin : config.Origin behaviors returned request value)
    (hsub : behaviors ⊆ later) (more : List (Q × R)) :
    config.Origin later (returned ++ more) request value := by
  obtain ⟨origin, hchain, hmem⟩ := horigin
  refine ⟨origin, Relation.ReflTransGen.mono ?_ _ _ hchain,
    List.mem_append_left _ hmem⟩
  intro first second hsame
  obtain ⟨id, hcaching, hkey⟩ := hsame
  exact ⟨id, hsub hcaching, hkey⟩

theorem CallInvariant.mono
    (hcall : config.CallInvariant behaviors returned call)
    (hsub : behaviors ⊆ later) (more : List (Q × R)) :
    config.CallInvariant later (returned ++ more) call where
  frames := hcall.frames
  waiting := hcall.waiting
  returning value hphase :=
    (hcall.returning value hphase).imp_right fun horigin =>
      horigin.mono hsub more
  done value hphase :=
    (hcall.done value hphase).imp_right fun horigin =>
      horigin.mono hsub more
  finished := hcall.finished

theorem MediatorInvariant.law (hinv : config.MediatorInvariant state) :
    config.MediatorLaw state where
  answered call hmem := (hinv.calls call hmem).done
  gated call hmem := (hinv.calls call hmem).waiting
  fresh := hinv.fresh
  finished call hmem := (hinv.calls call hmem).finished
  logged := hinv.logged

theorem fresh_of_not_stale {entry : CacheEntry R} {now : ℕ}
    (hfresh : config.isStale id entry now = false) :
    ∀ ttl ∈ config.ttlMs id, now ≤ entry.cachedAt + ttl := by
  intro ttl httl
  rw [Option.mem_def] at httl
  rw [isStale, httl, Option.any_some, decide_eq_false_iff_not] at hfresh
  omega

/-- A cache answers with what was returned for a request with the same key. -/
theorem MediatorInvariant.origin_of_hit (hinv : config.MediatorInvariant state)
    {frames : List Frame}
    (hanswer : (config.runPipeline state.caches state.now request frames
      state.mediator.behaviors).answer = some (.ok value)) :
    config.Origin state.mediator.behaviors state.returned request value := by
  obtain ⟨id, entry, hmember, hhit, rfl⟩ := config.hit_of_runPipeline hanswer
  obtain ⟨hget, -⟩ := config.fresh_of_runPipeline hhit
  obtain ⟨other, hkey, origin, hchain, hmem⟩ :=
    hinv.origins _ (hinv.stored _ _ _ hget)
  exact ⟨origin, hchain.head ⟨id, hmember, hkey.symm⟩, hmem⟩

theorem MediatorInvariant.call_of_send (hinv : config.MediatorInvariant state)
    (request : Q) (handler : ℕ) {descent : Descent R}
    (hdescent : config.runPipeline state.caches state.now request []
      state.mediator.behaviors = descent) :
    config.CallInvariant state.mediator.behaviors state.returned
      ⟨request, state.mediator.behaviors, descent.frames,
        match descent.answer with
        | none => .waiting handler
        | some answer => .returning answer⟩ := by
  have hframes : ∀ frame ∈ descent.frames, config.FrameOf request frame := by
    rw [← hdescent]
    exact config.frameOf_runPipeline (List.forall_mem_nil _)
  have hadmits : (∀ error, descent.answer ≠ some (.error error)) →
      config.Admits state.mediator.behaviors request := by
    rw [← hdescent]
    exact config.admits_of_runPipeline hinv.ordered
  refine ⟨hframes, fun other hphase => ?_, fun value hphase => ?_,
    fun value hphase => ?_, fun answer hphase => ?_⟩
  · split at hphase
    next hnone => exact hadmits (by rw [hnone]; exact nofun)
    next => cases hphase
  · split at hphase
    next => cases hphase
    next hanswer =>
      cases hphase
      rw [← hdescent] at hanswer
      refine ⟨hadmits ?_, hinv.origin_of_hit hanswer⟩
      rw [← hdescent, hanswer]
      exact nofun
  · split at hphase <;> cases hphase
  · split at hphase <;> cases hphase

/-! ### The logs -/

section Logs

variable {calls : List (Call Q R)} {logs : ℕ → List (ℕ × MediatorLogEntry)}

theorem LogLaw.append (hlogged : config.LogLaw calls logs)
    (hframes : ∀ id, call.frames.countP (Frame.logs id) =
      call.behaviors.count (.logging id)) :
    config.LogLaw (calls ++ [call]) logs where
  once index found hfound id := by
    by_cases hlt : index < calls.length
    · rw [List.getElem?_append_left hlt] at hfound
      exact hlogged.once index found hfound id
    · have hlast : index = calls.length := by
        have hlen := (List.getElem?_eq_some_iff.mp hfound).1
        rw [List.length_append, List.length_singleton] at hlen
        omega
      subst hlast
      rw [List.getElem?_concat_length] at hfound
      cases hfound
      -- no entry has the number of a call that has just been made
      have hnone : calls.length ∉ (logs id).map Prod.fst := by
        intro hmem
        obtain ⟨entry, hentry, hnumber⟩ := List.mem_map.mp hmem
        obtain ⟨other, _, _, hother, -⟩ := hlogged.own id entry hentry
        exact hlt (hnumber ▸ (List.getElem?_eq_some_iff.mp hother).1)
      rw [List.count_eq_zero_of_not_mem hnone, Nat.zero_add]
      exact hframes id
  own id entry hentry := by
    obtain ⟨found, answer, durationMs, hfound, hanswer⟩ :=
      hlogged.own id entry hentry
    refine ⟨found, answer, durationMs, ?_, hanswer⟩
    rw [List.getElem?_append_left (List.getElem?_eq_some_iff.mp hfound).1]
    exact hfound

theorem LogLaw.own_set (hlogged : config.LogLaw calls logs)
    (hcall : calls[index]? = some call) (new : Call Q R)
    (hrequest : new.request = call.request)
    (hanswer : ∀ answer, Call.answer? call = some answer →
      Call.answer? new = some answer) :
    ∀ id, ∀ entry ∈ logs id, ∃ call answer durationMs,
      (calls.set index new)[entry.1]? = some call ∧
        Call.answer? call = some answer ∧
        entry.2 = config.logEntry call.request durationMs answer := by
  intro id entry hentry
  obtain ⟨found, answer, durationMs, hfound, hfinal, hvalue⟩ :=
    hlogged.own id entry hentry
  by_cases hsame : entry.1 = index
  · rw [hsame, hcall] at hfound
    cases hfound
    refine ⟨new, answer, durationMs, ?_, hanswer answer hfinal, ?_⟩
    · rw [hsame]
      exact List.getElem?_set_self (List.getElem?_eq_some_iff.mp hcall).1
    · rw [hrequest]
      exact hvalue
  · refine ⟨found, answer, durationMs, ?_, hfinal, hvalue⟩
    rw [List.getElem?_set_ne (Ne.symm hsame)]
    exact hfound

/-- A call that keeps its frames and the answer that it has. -/
theorem LogLaw.set (hlogged : config.LogLaw calls logs)
    (hcall : calls[index]? = some call) {new : Call Q R}
    (hrequest : new.request = call.request)
    (hbehaviors : new.behaviors = call.behaviors)
    (hframes : ∀ id, new.frames.countP (Frame.logs id) =
      call.frames.countP (Frame.logs id))
    (hanswer : ∀ answer, Call.answer? call = some answer →
      Call.answer? new = some answer) :
    config.LogLaw (calls.set index new) logs where
  once other found hfound id := by
    by_cases hsame : other = index
    · subst hsame
      rw [List.getElem?_set_self
        (List.getElem?_eq_some_iff.mp hcall).1] at hfound
      cases hfound
      rw [hframes, hbehaviors]
      exact hlogged.once other call hcall id
    · rw [List.getElem?_set_ne (Ne.symm hsame)] at hfound
      exact hlogged.once other found hfound id
  own := hlogged.own_set hcall new hrequest hanswer

/-- A frame of a log is left. -/
theorem LogLaw.leave (hlogged : config.LogLaw calls logs) {start : ℕ}
    {frames : List Frame} {answer : Except MediatorError R}
    (hcall : calls[index]? =
      some ⟨request, behaviors, .logged id start :: frames,
        .returning answer⟩) (durationMs : ℕ) :
    config.LogLaw
      (calls.set index ⟨request, behaviors, frames, .returning answer⟩)
      (Function.update logs id
        (logs id ++
          [(index, config.logEntry request durationMs answer)])) := by
  have hset : (calls.set index
      ⟨request, behaviors, frames, .returning answer⟩)[index]? =
        some ⟨request, behaviors, frames, .returning answer⟩ :=
    List.getElem?_set_self (List.getElem?_eq_some_iff.mp hcall).1
  constructor
  · intro other found hfound log
    by_cases hsame : other = index
    · subst hsame
      rw [hset] at hfound
      cases hfound
      have honce := hlogged.once other _ hcall log
      dsimp only at honce ⊢
      rw [List.countP_cons] at honce
      by_cases hlog : log = id
      · subst hlog
        rw [Function.update_self, List.map_append, List.count_append,
          List.map_singleton, List.count_singleton_self]
        simp only [Frame.logs, decide_true, if_true] at honce
        omega
      · rw [Function.update_of_ne hlog]
        simp only [Frame.logs, decide_eq_true_eq,
          if_neg (Ne.symm hlog)] at honce
        omega
    · rw [List.getElem?_set_ne (Ne.symm hsame)] at hfound
      have honce := hlogged.once other found hfound log
      by_cases hlog : log = id
      · subst hlog
        rw [Function.update_self, List.map_append, List.count_append,
          List.map_singleton, List.count_eq_zero_of_not_mem
            fun hmem => hsame (List.mem_singleton.mp hmem), Nat.add_zero]
        exact honce
      · rw [Function.update_of_ne hlog]
        exact honce
  · intro log entry hentry
    have hown := hlogged.own_set hcall
      ⟨request, behaviors, frames, .returning answer⟩ rfl
      fun _ hanswer => hanswer
    by_cases hlog : log = id
    · subst hlog
      rw [Function.update_self] at hentry
      rcases List.mem_append.mp hentry with hold | hnew
      · exact hown log entry hold
      · rw [List.mem_singleton.mp hnew]
        exact ⟨_, answer, durationMs, hset, rfl, rfl⟩
    · rw [Function.update_of_ne hlog] at hentry
      exact hown log entry hentry

end Logs

theorem MediatorInvariant.send (hinv : config.MediatorInvariant state)
    (request : Q) : config.MediatorInvariant (config.send state request) := by
  unfold MediatorConfig.send
  dsimp only
  split
  next =>
    refine { hinv with calls := ?_, logged := ?_ }
    · refine List.forall_mem_append.mpr ⟨hinv.calls, ?_⟩
      exact List.forall_mem_singleton.mpr
        ⟨List.forall_mem_nil _, nofun, nofun, nofun, fun _ _ => rfl⟩
    · exact hinv.logged.append fun _ => rfl
  next handler _ =>
    refine { hinv with calls := ?_, fresh := ?_, logged := ?_ }
    · refine List.forall_mem_append.mpr ⟨hinv.calls, ?_⟩
      exact List.forall_mem_singleton.mpr
        (hinv.call_of_send request handler rfl)
    · refine List.forall_mem_append.mpr ⟨hinv.fresh, fun hit hmem => ?_⟩
      obtain ⟨stored, hstored, rfl⟩ :=
        Option.map_eq_some_iff.mp (Option.mem_toList.mp hmem)
      obtain ⟨hget, hfresh⟩ := config.fresh_of_runPipeline hstored
      exact ⟨hinv.stored _ _ _ hget, fresh_of_not_stale hfresh⟩
    · refine hinv.logged.append fun id => ?_
      rw [config.countP_logs_runPipeline hinv.ordered id, List.countP_nil,
        Nat.zero_add]

theorem MediatorInvariant.settle (hinv : config.MediatorInvariant state)
    {frames : List Frame} {handler : ℕ}
    (hcall : state.calls[index]? =
      some ⟨request, behaviors, frames, .waiting handler⟩)
    (answer : Except String R) :
    config.MediatorInvariant { state with
      calls := state.calls.set index
        ⟨request, behaviors, frames, .returning (answer.mapError .handler)⟩
      returned := state.returned ++
        (answer.toOption.map fun value => (request, value)).toList } := by
  have hold := hinv.calls _ (List.mem_of_getElem? hcall)
  refine { hinv with origins := ?_, calls := ?_, logged := ?_ }
  · intro stored hstored
    obtain ⟨other, hkey, horigin⟩ := hinv.origins stored hstored
    exact ⟨other, hkey, horigin.mono (List.Subset.refl _) _⟩
  · intro call hmem
    rcases List.mem_or_eq_of_mem_set hmem with hother | rfl
    · exact (hinv.calls call hother).mono (List.Subset.refl _) _
    · refine ⟨hold.frames, nofun, fun value hphase => ?_, nofun, nofun⟩
      cases answer with
      | error message => cases hphase
      | ok found =>
          cases hphase
          exact ⟨hold.waiting handler rfl, request, .refl,
            List.mem_append_right _ List.mem_cons_self⟩
  · exact hinv.logged.set hcall rfl rfl (fun _ => rfl) nofun

theorem MediatorInvariant.cache (hinv : config.MediatorInvariant state)
    {key : String} (hkey : key = config.keyFn id request)
    (horigin : config.Origin state.mediator.behaviors state.returned request
      value) :
    config.MediatorInvariant { state with
      caches := Function.update state.caches id
        ((state.caches id).set key ⟨value, state.now⟩)
      stored := state.stored ++ [⟨id, key, value, state.now⟩] } := by
  refine { hinv with stored := ?_, origins := ?_, fresh := ?_ }
  · intro other found entry hget
    dsimp only at hget
    by_cases hother : other = id
    · subst hother
      rw [Function.update_self, InsertionMap.get_set] at hget
      split at hget
      next heq =>
        cases hget
        rw [heq]
        exact List.mem_append_right _ List.mem_cons_self
      next => exact List.mem_append_left _ (hinv.stored _ _ _ hget)
    · rw [Function.update_of_ne hother] at hget
      exact List.mem_append_left _ (hinv.stored _ _ _ hget)
  · refine List.forall_mem_append.mpr ⟨hinv.origins, ?_⟩
    exact List.forall_mem_singleton.mpr ⟨request, hkey.symm, horigin⟩
  · intro hit hmem
    obtain ⟨hstored, hfresh⟩ := hinv.fresh hit hmem
    exact ⟨List.mem_append_left _ hstored, hfresh⟩

/-- The call after a frame, or after the last of them. -/
theorem CallInvariant.unwind {frames : List Frame}
    {answer : Except MediatorError R}
    (hcall : config.CallInvariant later returned
      ⟨request, behaviors, frames, .returning answer⟩) :
    (frames = [] → config.CallInvariant later returned
        ⟨request, behaviors, frames, .done answer⟩) ∧
      ∀ frame rest, frames = frame :: rest →
        config.CallInvariant later returned
          ⟨request, behaviors, rest, .returning answer⟩ := by
  constructor
  · rintro rfl
    refine ⟨hcall.frames, nofun, nofun, fun value hphase => ?_,
      fun _ _ => rfl⟩
    cases hphase
    exact hcall.returning value rfl
  · rintro frame rest rfl
    exact ⟨(List.forall_mem_cons.mp hcall.frames).2, nofun, hcall.returning,
      nofun, nofun⟩

theorem MediatorInvariant.unwind (hinv : config.MediatorInvariant state)
    {frames : List Frame} {answer : Except MediatorError R}
    (hcall : state.calls[index]? =
      some ⟨request, behaviors, frames, .returning answer⟩) :
    config.MediatorInvariant (config.unwind state index
      ⟨request, behaviors, frames, .returning answer⟩ answer) := by
  have hold := hinv.calls _ (List.mem_of_getElem? hcall)
  have hnew := hold.unwind
  cases frames with
  | nil =>
      refine { hinv with calls := ?_, logged := ?_ }
      · intro call hmem
        rcases List.mem_or_eq_of_mem_set hmem with hother | rfl
        · exact hinv.calls call hother
        · exact hnew.1 rfl
      · exact hinv.logged.set hcall rfl rfl (fun _ => rfl)
          fun _ hanswer => hanswer
  | cons frame rest =>
      have hcalls : ∀ call ∈ state.calls.set index
          ⟨request, behaviors, rest, .returning answer⟩,
          config.CallInvariant state.mediator.behaviors state.returned
            call := by
        intro call hmem
        rcases List.mem_or_eq_of_mem_set hmem with hother | rfl
        · exact hinv.calls call hother
        · exact hnew.2 frame rest rfl
      cases frame with
      | logged other start =>
          exact { hinv with
            calls := hcalls
            logged := hinv.logged.leave hcall (state.now - start) }
      | cached other key =>
          have hlogged : config.LogLaw (state.calls.set index
              ⟨request, behaviors, rest, .returning answer⟩) state.logs := by
            refine hinv.logged.set hcall rfl rfl (fun id => ?_)
              fun _ hanswer => hanswer
            exact (List.countP_cons_of_neg (by simp [Frame.logs])).symm
          cases answer with
          | error error =>
              exact { hinv with calls := hcalls, logged := hlogged }
          | ok value =>
              have hkey := (List.forall_mem_cons.mp hold.frames).1
              exact { hinv.cache hkey (hold.returning value rfl).2 with
                calls := hcalls
                logged := hlogged }

theorem MediatorInvariant.addBehavior (hinv : config.MediatorInvariant state)
    (behavior : Behavior) :
    config.MediatorInvariant { state with
      mediator := state.mediator.addBehavior behavior } := by
  have hsub : state.mediator.behaviors ⊆
      (state.mediator.addBehavior behavior).behaviors := by
    intro other hother
    exact (List.perm_insertionSort _ _).mem_iff.mpr
      (List.mem_append_left _ hother)
  have hreturned : state.returned = state.returned ++ [] :=
    (List.append_nil _).symm
  exact
    { hinv with
      ordered := List.pairwise_insertionSort _ _
      origins := by
        intro stored hstored
        obtain ⟨request, hkey, horigin⟩ := hinv.origins stored hstored
        refine ⟨request, hkey, ?_⟩
        rw [hreturned]
        exact horigin.mono hsub []
      calls := by
        intro call hcall
        rw [hreturned]
        exact (hinv.calls call hcall).mono hsub [] }

/-- Entries may be taken out of the caches. -/
theorem MediatorInvariant.forget (hinv : config.MediatorInvariant state)
    (caches : ℕ → InsertionMap String (CacheEntry R))
    (hcaches : ∀ id key entry, (caches id).get key = some entry →
      (state.caches id).get key = some entry) :
    config.MediatorInvariant { state with caches := caches } :=
  { hinv with
    stored := fun id key entry hget =>
      hinv.stored id key entry (hcaches id key entry hget) }

theorem MediatorInvariant.step (hinv : config.MediatorInvariant state)
    (hstep : config.step state label = some next) :
    config.MediatorInvariant next := by
  cases label with
  | register requestType handler =>
      cases hstep
      exact { hinv with ordered := hinv.ordered }
  | addBehavior behavior =>
      cases hstep
      exact hinv.addBehavior behavior
  | send request =>
      cases hstep
      exact hinv.send request
  | settle index answer =>
      simp only [MediatorConfig.step] at hstep
      split at hstep
      next hcall =>
        cases hstep
        exact hinv.settle hcall answer
      next => cases hstep
  | unwind index =>
      simp only [MediatorConfig.step] at hstep
      split at hstep
      next hcall =>
        cases hstep
        exact hinv.unwind hcall
      next => cases hstep
  | advance elapsed =>
      cases hstep
      exact { hinv with ordered := hinv.ordered }
  | invalidate cache key =>
      cases hstep
      apply hinv.forget
      intro id found entry hget
      by_cases hsame : id = cache
      · subst hsame
        rw [Function.update_self, InsertionMap.get_delete] at hget
        exact (Option.ite_none_left_eq_some.mp hget).2
      · rw [Function.update_of_ne hsame] at hget
        exact hget
  | clear cache =>
      cases hstep
      apply hinv.forget
      intro id found entry hget
      by_cases hsame : id = cache
      · subst hsame
        rw [Function.update_self] at hget
        cases hget
      · rw [Function.update_of_ne hsame] at hget
        exact hget

end Runs

end MediatorConfig

end TsCommons.Application
