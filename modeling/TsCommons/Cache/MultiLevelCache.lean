import TsCommons.Cache.InMemoryCache
import TsCommons.Foundations.Execution

/-!
# The two-tier cache

`MultiLevelCache` reads L1, then L2, and fills L1 on the way back; it writes
both tiers.  The first half gives each operation as it runs alone.  The second
half is the system of interleaved calls: an operation on a tier is asked for
in one step, takes effect in a later one, and the call resumes in a third one,
so that the tiers may be as slow as they like.  Calls are numbered, and the
promise lock that a call puts into `inflight` is named by that number.
-/

namespace TsCommons.Cache

open Foundations

structure MultiLevelCache (S₁ S₂ V : Type) where
  l1 : CachePort S₁ V
  l2 : CachePort S₂ V

structure Tiers (S₁ S₂ : Type) where
  l1 : S₁
  l2 : S₂

variable {S₁ S₂ V E : Type}

namespace MultiLevelCache

def fetchFromL2 (cache : MultiLevelCache S₁ S₂ V) (tiers : Tiers S₁ S₂)
    (key : String) (now : ℚ) : Option V × Tiers S₁ S₂ :=
  let l2Result := cache.l2.get tiers.l2 key now
  match l2Result.1 with
  | some value =>
      (some value, ⟨cache.l1.set tiers.l1 key value none now, l2Result.2⟩)
  | none => (none, ⟨tiers.l1, l2Result.2⟩)

def get (cache : MultiLevelCache S₁ S₂ V) (tiers : Tiers S₁ S₂)
    (key : String) (now : ℚ) : Option V × Tiers S₁ S₂ :=
  let l1Result := cache.l1.get tiers.l1 key now
  match l1Result.1 with
  | some value => (some value, ⟨l1Result.2, tiers.l2⟩)
  | none => cache.fetchFromL2 ⟨l1Result.2, tiers.l2⟩ key now

def set (cache : MultiLevelCache S₁ S₂ V) (tiers : Tiers S₁ S₂)
    (key : String) (value : V) (ttl : Option Duration) (now : ℚ) :
    Tiers S₁ S₂ :=
  ⟨cache.l1.set tiers.l1 key value ttl now,
    cache.l2.set tiers.l2 key value ttl now⟩

def delete (cache : MultiLevelCache S₁ S₂ V) (tiers : Tiers S₁ S₂)
    (key : String) : Tiers S₁ S₂ :=
  ⟨cache.l1.delete tiers.l1 key, cache.l2.delete tiers.l2 key⟩

def has (cache : MultiLevelCache S₁ S₂ V) (tiers : Tiers S₁ S₂)
    (key : String) (now : ℚ) : Bool × Tiers S₁ S₂ :=
  let l1Has := cache.l1.has tiers.l1 key now
  if l1Has.1 then (true, ⟨l1Has.2, tiers.l2⟩)
  else
    let l2Has := cache.l2.has tiers.l2 key now
    (l2Has.1, ⟨l1Has.2, l2Has.2⟩)

def invalidateL1 (cache : MultiLevelCache S₁ S₂ V) (tiers : Tiers S₁ S₂)
    (key : String) : Tiers S₁ S₂ :=
  ⟨cache.l1.delete tiers.l1 key, tiers.l2⟩

/-- A call of `getOrCompute` that finds no computation of the key in flight:
`outcome` is what the function settles with, at the time `settledAt`. -/
def getOrCompute (cache : MultiLevelCache S₁ S₂ V) (tiers : Tiers S₁ S₂)
    (key : String) (outcome : Except E V) (ttl : Option Duration)
    (now settledAt : ℚ) : Except E V × Tiers S₁ S₂ :=
  let existing := cache.get tiers key now
  match existing.1 with
  | some value => (.ok value, existing.2)
  | none =>
      match outcome with
      | .ok value => (.ok value, cache.set existing.2 key value ttl settledAt)
      | .error error => (.error error, existing.2)

/-- Two in-memory tiers. -/
def inMemory : MultiLevelCache (InMemoryCache V) (InMemoryCache V) V :=
  ⟨InMemoryCache.port, InMemoryCache.port⟩

def emptyTiers (maxSize₁ maxSize₂ : Option ℕ∞) :
    Tiers (InMemoryCache V) (InMemoryCache V) :=
  ⟨.create maxSize₁, .create maxSize₂⟩

end MultiLevelCache

/-! ## Interleaved calls -/

inductive Request (V : Type)
  | get (key : String)
  | set (key : String) (value : V) (ttl : Option Duration)
  | delete (key : String)
  | getOrCompute (key : String) (ttl : Option Duration)
deriving DecidableEq

namespace Request

def key : Request V → String
  | .get key => key
  | .set key _ _ => key
  | .delete key => key
  | .getOrCompute key _ => key

def ttl : Request V → Option Duration
  | .get _ => none
  | .set _ _ ttl => ttl
  | .delete _ => none
  | .getOrCompute _ ttl => ttl

end Request

/-- The three places of the source that await `this.get(key)` or are it. -/
inductive Reader
  | get
  | getOrCompute
  | getAfterLock
deriving DecidableEq

/-- Where a read of the two tiers stands. -/
inductive ReadStage (V : Type)
  | l1Asked
  | l1Answered (l1Result : Option V)
  | l2Asked
  | l2Answered (l2Result : Option V)
  | backfillAsked (value : V)
  | backfilled (value : V)
deriving DecidableEq

/-- What a read that has come to its end answers. -/
def ReadStage.result : ReadStage V → Option (Option V)
  | .l1Answered (some value) => some (some value)
  | .l2Answered none => some none
  | .backfilled value => some (some value)
  | _ => none

theorem ReadStage.eq_l2Answered_of_result_none {stage : ReadStage V}
    (hresult : stage.result = some none) : stage = .l2Answered none := by
  cases stage with
  | l1Answered l1Result => cases l1Result <;> simp [result] at hresult
  | l2Answered l2Result =>
      cases l2Result with
      | none => rfl
      | some value => simp [result] at hresult
  | _ => simp [result] at hresult

/-- Where a call stands.  A write keeps which tiers it has reached; it belongs
to a `set`, or to the `getOrCompute` that computed the value. -/
inductive Progress (V E : Type)
  | notCalled
  | reading (reader : Reader) (stage : ReadStage V)
  | waiting (lock : ℕ)
  | computing
  | computed (outcome : Except E V)
  | setting (value : V) (l1Done l2Done : Bool)
  | deleting (l1Done l2Done : Bool)
  | got (result : Option V)
  | done
  | returned (value : V)
  | threw (error : E)
deriving DecidableEq

inductive Tier
  | l1
  | l2
deriving DecidableEq

inductive Label (V E : Type)
  | tick (now : ℚ)
  | call (call : ℕ)
  | perform (call : ℕ) (tier : Tier)
  | settle (call : ℕ) (outcome : Except E V)
  | resume (call : ℕ)
deriving DecidableEq

/-- `resolved` tells which locks are resolved.  `reachedL1` and `reachedL2` are
history: the last write of a key to take effect on each tier. -/
structure State (S₁ S₂ V E : Type) where
  clock : ℚ
  l1 : S₁
  l2 : S₂
  inflight : InsertionMap String ℕ
  resolved : ℕ → Bool
  calls : ℕ → Progress V E
  reachedL1 : String → Option ℕ
  reachedL2 : String → Option ℕ

def State.initial (now : ℚ) (tiers : Tiers S₁ S₂) : State S₁ S₂ V E where
  clock := now
  l1 := tiers.l1
  l2 := tiers.l2
  inflight := .empty
  resolved := fun _ => false
  calls := fun _ => .notCalled
  reachedL1 := fun _ => none
  reachedL2 := fun _ => none

namespace State

def advance (state : State S₁ S₂ V E) (call : ℕ) (progress : Progress V E) :
    State S₁ S₂ V E :=
  { state with calls := Function.update state.calls call progress }

/-- Create the lock, register it and call the function. -/
def runComputation (state : State S₁ S₂ V E) (call : ℕ) (key : String) :
    State S₁ S₂ V E :=
  { state.advance call .computing with
    inflight := state.inflight.set key call }

def computeWithLock (state : State S₁ S₂ V E) (call : ℕ) (key : String) :
    State S₁ S₂ V E :=
  match state.inflight.get key with
  | some lock => state.advance call (.waiting lock)
  | none => state.runComputation call key

/-- The `finally` block of `runComputation`. -/
def unlock (state : State S₁ S₂ V E) (call : ℕ) (key : String) :
    State S₁ S₂ V E :=
  { state with
    resolved := Function.update state.resolved call true
    inflight := state.inflight.delete key }

/-- What follows `await this.get(key)` in each of the three readers. -/
def finishRead (state : State S₁ S₂ V E) (call : ℕ) (key : String) :
    Reader → Option V → State S₁ S₂ V E
  | .get, result => state.advance call (.got result)
  | .getOrCompute, some value => state.advance call (.returned value)
  | .getOrCompute, none => state.computeWithLock call key
  | .getAfterLock, some value => state.advance call (.returned value)
  | .getAfterLock, none => state.runComputation call key

end State

/-- The first progress of a call of each kind. -/
def Request.start : Request V → Progress V E
  | .get _ => .reading .get .l1Asked
  | .set _ value _ => .setting value false false
  | .delete _ => .deleting false false
  | .getOrCompute _ _ => .reading .getOrCompute .l1Asked

namespace MultiLevelCache

/-- The operation that a call has asked of L1 takes effect. -/
def performL1 (cache : MultiLevelCache S₁ S₂ V) (request : Request V)
    (state : State S₁ S₂ V E) (call : ℕ) : Option (State S₁ S₂ V E) :=
  match state.calls call with
  | .reading reader .l1Asked =>
      let l1Result := cache.l1.get state.l1 request.key state.clock
      some { state.advance call (.reading reader (.l1Answered l1Result.1)) with
        l1 := l1Result.2 }
  | .reading reader (.backfillAsked value) =>
      some { state.advance call (.reading reader (.backfilled value)) with
        l1 := cache.l1.set state.l1 request.key value none state.clock }
  | .setting value false l2Done =>
      some { state.advance call (.setting value true l2Done) with
        l1 := cache.l1.set state.l1 request.key value request.ttl
          state.clock
        reachedL1 :=
          Function.update state.reachedL1 request.key (some call) }
  | .deleting false l2Done =>
      some { state.advance call (.deleting true l2Done) with
        l1 := cache.l1.delete state.l1 request.key
        reachedL1 :=
          Function.update state.reachedL1 request.key (some call) }
  | _ => none

/-- The operation that a call has asked of L2 takes effect. -/
def performL2 (cache : MultiLevelCache S₁ S₂ V) (request : Request V)
    (state : State S₁ S₂ V E) (call : ℕ) : Option (State S₁ S₂ V E) :=
  match state.calls call with
  | .reading reader .l2Asked =>
      let l2Result := cache.l2.get state.l2 request.key state.clock
      some { state.advance call (.reading reader (.l2Answered l2Result.1)) with
        l2 := l2Result.2 }
  | .setting value l1Done false =>
      some { state.advance call (.setting value l1Done true) with
        l2 := cache.l2.set state.l2 request.key value request.ttl
          state.clock
        reachedL2 :=
          Function.update state.reachedL2 request.key (some call) }
  | .deleting l1Done false =>
      some { state.advance call (.deleting l1Done true) with
        l2 := cache.l2.delete state.l2 request.key
        reachedL2 :=
          Function.update state.reachedL2 request.key (some call) }
  | _ => none

/-- The call runs on from its `await`. -/
def resume (request : Request V) (state : State S₁ S₂ V E) (call : ℕ) :
    Option (State S₁ S₂ V E) :=
  match state.calls call with
  | .reading reader (.l1Answered (some value)) =>
      some (state.finishRead call request.key reader (some value))
  | .reading reader (.l1Answered none) =>
      some (state.advance call (.reading reader .l2Asked))
  | .reading reader (.l2Answered (some value)) =>
      some (state.advance call (.reading reader (.backfillAsked value)))
  | .reading reader (.l2Answered none) =>
      some (state.finishRead call request.key reader none)
  | .reading reader (.backfilled value) =>
      some (state.finishRead call request.key reader (some value))
  | .waiting lock =>
      if state.resolved lock then
        some (state.advance call (.reading .getAfterLock .l1Asked))
      else none
  | .computed (.ok value) =>
      some (state.advance call (.setting value false false))
  | .computed (.error error) =>
      some ((state.unlock call request.key).advance call (.threw error))
  | .setting value true true =>
      match request with
      | .getOrCompute key _ =>
          some ((state.unlock call key).advance call (.returned value))
      | _ => some (state.advance call .done)
  | .deleting true true => some (state.advance call .done)
  | _ => none

def step (cache : MultiLevelCache S₁ S₂ V) (requests : ℕ → Request V)
    (state : State S₁ S₂ V E) : Label V E → Option (State S₁ S₂ V E)
  | .tick now =>
      if state.clock ≤ now then some { state with clock := now } else none
  | .call call =>
      match state.calls call with
      | .notCalled => some (state.advance call (requests call).start)
      | _ => none
  | .perform call .l1 => cache.performL1 (requests call) state call
  | .perform call .l2 => cache.performL2 (requests call) state call
  | .settle call outcome =>
      match state.calls call with
      | .computing => some (state.advance call (.computed outcome))
      | _ => none
  | .resume call => resume (requests call) state call

/-! ## What each label requires and does -/

variable {cache : MultiLevelCache S₁ S₂ V} {requests : ℕ → Request V}
  {request : Request V} {state next : State S₁ S₂ V E} {call : ℕ}

theorem step_tick {now : ℚ} :
    cache.step requests state (.tick now) = some next ↔
      state.clock ≤ now ∧ { state with clock := now } = next := by
  simp [step]

theorem step_call :
    cache.step requests state (.call call) = some next ↔
      state.calls call = .notCalled ∧
        state.advance call (requests call).start = next := by
  cases hcall : state.calls call <;> simp [step, hcall]

theorem step_settle {outcome : Except E V} :
    cache.step requests state (.settle call outcome) = some next ↔
      state.calls call = .computing ∧
        state.advance call (.computed outcome) = next := by
  cases hcall : state.calls call <;> simp [step, hcall]

theorem performL1_cases
    (hstep : cache.performL1 request state call = some next) :
    (∃ reader, state.calls call = .reading reader .l1Asked ∧
      next = { state.advance call (.reading reader (.l1Answered
          (cache.l1.get state.l1 request.key state.clock).1)) with
        l1 := (cache.l1.get state.l1 request.key state.clock).2 }) ∨
    (∃ reader value,
      state.calls call = .reading reader (.backfillAsked value) ∧
      next = { state.advance call (.reading reader (.backfilled value)) with
        l1 := cache.l1.set state.l1 request.key value none state.clock }) ∨
    (∃ value l2Done, state.calls call = .setting value false l2Done ∧
      next = { state.advance call (.setting value true l2Done) with
        l1 := cache.l1.set state.l1 request.key value request.ttl
          state.clock
        reachedL1 :=
          Function.update state.reachedL1 request.key (some call) }) ∨
    (∃ l2Done, state.calls call = .deleting false l2Done ∧
      next = { state.advance call (.deleting true l2Done) with
        l1 := cache.l1.delete state.l1 request.key
        reachedL1 :=
          Function.update state.reachedL1 request.key (some call) }) := by
  unfold performL1 at hstep
  split at hstep
  next reader hcall =>
    exact .inl ⟨reader, hcall, (Option.some.inj hstep).symm⟩
  next reader value hcall =>
    exact .inr (.inl ⟨reader, value, hcall, (Option.some.inj hstep).symm⟩)
  next value l2Done hcall =>
    exact .inr (.inr (.inl
      ⟨value, l2Done, hcall, (Option.some.inj hstep).symm⟩))
  next l2Done hcall =>
    exact .inr (.inr (.inr ⟨l2Done, hcall, (Option.some.inj hstep).symm⟩))
  next => contradiction

theorem performL2_cases
    (hstep : cache.performL2 request state call = some next) :
    (∃ reader, state.calls call = .reading reader .l2Asked ∧
      next = { state.advance call (.reading reader (.l2Answered
          (cache.l2.get state.l2 request.key state.clock).1)) with
        l2 := (cache.l2.get state.l2 request.key state.clock).2 }) ∨
    (∃ value l1Done, state.calls call = .setting value l1Done false ∧
      next = { state.advance call (.setting value l1Done true) with
        l2 := cache.l2.set state.l2 request.key value request.ttl
          state.clock
        reachedL2 :=
          Function.update state.reachedL2 request.key (some call) }) ∨
    (∃ l1Done, state.calls call = .deleting l1Done false ∧
      next = { state.advance call (.deleting l1Done true) with
        l2 := cache.l2.delete state.l2 request.key
        reachedL2 :=
          Function.update state.reachedL2 request.key (some call) }) := by
  unfold performL2 at hstep
  split at hstep
  next reader hcall =>
    exact .inl ⟨reader, hcall, (Option.some.inj hstep).symm⟩
  next value l1Done hcall =>
    exact .inr (.inl ⟨value, l1Done, hcall, (Option.some.inj hstep).symm⟩)
  next l1Done hcall =>
    exact .inr (.inr ⟨l1Done, hcall, (Option.some.inj hstep).symm⟩)
  next => contradiction

theorem resume_cases (hstep : resume request state call = some next) :
    (∃ reader, state.calls call = .reading reader (.l1Answered none) ∧
      next = state.advance call (.reading reader .l2Asked)) ∨
    (∃ reader value,
      state.calls call = .reading reader (.l2Answered (some value)) ∧
      next = state.advance call (.reading reader (.backfillAsked value))) ∨
    (∃ reader stage result, state.calls call = .reading reader stage ∧
      stage.result = some result ∧
      next = state.finishRead call request.key reader result) ∨
    (∃ lock, state.calls call = .waiting lock ∧ state.resolved lock ∧
      next = state.advance call (.reading .getAfterLock .l1Asked)) ∨
    (∃ value, state.calls call = .computed (.ok value) ∧
      next = state.advance call (.setting value false false)) ∨
    (∃ error, state.calls call = .computed (.error error) ∧
      next = (state.unlock call request.key).advance call (.threw error)) ∨
    (∃ value key ttl, state.calls call = .setting value true true ∧
      request = .getOrCompute key ttl ∧
      next = (state.unlock call key).advance call (.returned value)) ∨
    ((∃ value, state.calls call = .setting value true true ∧
        ∀ key ttl, request ≠ .getOrCompute key ttl) ∨
      state.calls call = .deleting true true) ∧
      next = state.advance call .done := by
  unfold resume at hstep
  split at hstep
  next reader value hcall =>
    exact .inr (.inr (.inl
      ⟨reader, _, _, hcall, rfl, (Option.some.inj hstep).symm⟩))
  next reader hcall =>
    exact .inl ⟨reader, hcall, (Option.some.inj hstep).symm⟩
  next reader value hcall =>
    exact .inr (.inl ⟨reader, value, hcall, (Option.some.inj hstep).symm⟩)
  next reader hcall =>
    exact .inr (.inr (.inl
      ⟨reader, _, _, hcall, rfl, (Option.some.inj hstep).symm⟩))
  next reader value hcall =>
    exact .inr (.inr (.inl
      ⟨reader, _, _, hcall, rfl, (Option.some.inj hstep).symm⟩))
  next lock hcall =>
    split at hstep
    next hresolved =>
      exact .inr (.inr (.inr (.inl
        ⟨lock, hcall, hresolved, (Option.some.inj hstep).symm⟩)))
    next => contradiction
  next value hcall =>
    exact .inr (.inr (.inr (.inr (.inl
      ⟨value, hcall, (Option.some.inj hstep).symm⟩))))
  next error hcall =>
    exact .inr (.inr (.inr (.inr (.inr (.inl
      ⟨error, hcall, (Option.some.inj hstep).symm⟩)))))
  next value hcall =>
    split at hstep
    next key ttl =>
      exact .inr (.inr (.inr (.inr (.inr (.inr (.inl
        ⟨value, key, ttl, hcall, rfl, (Option.some.inj hstep).symm⟩))))))
    next hrequest =>
      exact .inr (.inr (.inr (.inr (.inr (.inr (.inr
        ⟨.inl ⟨value, hcall, hrequest⟩, (Option.some.inj hstep).symm⟩))))))
  next hcall =>
    exact .inr (.inr (.inr (.inr (.inr (.inr (.inr
      ⟨.inr hcall, (Option.some.inj hstep).symm⟩))))))
  next => contradiction

theorem resume_of_result {reader : Reader} {stage : ReadStage V}
    {result : Option V} (hcall : state.calls call = .reading reader stage)
    (hresult : stage.result = some result) :
    resume request state call =
      some (state.finishRead call request.key reader result) := by
  cases stage with
  | l1Answered l1Result =>
      cases l1Result with
      | none => simp [ReadStage.result] at hresult
      | some value =>
          cases hresult
          simp [resume, hcall]
  | l2Answered l2Result =>
      cases l2Result with
      | none =>
          cases hresult
          simp [resume, hcall]
      | some value => simp [ReadStage.result] at hresult
  | backfilled value =>
      cases hresult
      simp [resume, hcall]
  | _ => simp [ReadStage.result] at hresult

/-- A read that has ended settles its call, waits for the computation in
flight, or starts one. -/
theorem finishRead_cases (state : State S₁ S₂ V E) (call : ℕ) (key : String)
    (reader : Reader) (result : Option V) :
    (state.finishRead call key reader result =
        state.advance call (.got result) ∧ reader = .get) ∨
    (∃ value, result = some value ∧
      state.finishRead call key reader result =
        state.advance call (.returned value)) ∨
    (∃ lock, result = none ∧ reader = .getOrCompute ∧
      state.inflight.get key = some lock ∧
      state.finishRead call key reader result =
        state.advance call (.waiting lock)) ∨
    (result = none ∧
      (reader = .getOrCompute ∧ state.inflight.get key = none ∨
        reader = .getAfterLock) ∧
      state.finishRead call key reader result =
        state.runComputation call key) := by
  cases reader with
  | get => exact .inl ⟨rfl, rfl⟩
  | getOrCompute =>
      cases result with
      | some value => exact .inr (.inl ⟨value, rfl, rfl⟩)
      | none =>
          cases hlock : state.inflight.get key with
          | some lock =>
              exact .inr (.inr (.inl ⟨lock, rfl, rfl, rfl,
                by simp [State.finishRead, State.computeWithLock, hlock]⟩))
          | none =>
              exact .inr (.inr (.inr ⟨rfl, .inl ⟨rfl, rfl⟩,
                by simp [State.finishRead, State.computeWithLock, hlock]⟩))
  | getAfterLock =>
      cases result with
      | some value => exact .inr (.inl ⟨value, rfl, rfl⟩)
      | none => exact .inr (.inr (.inr ⟨rfl, .inr rfl, rfl⟩))

end MultiLevelCache

end TsCommons.Cache
