import TsCommons.Cache.MultiLevelCache

/-!
# Single flight of `getOrCompute`

A call that has started its computation has its own lock in `inflight` until
it leaves the `finally` block.  The exception is a waiter that re-reads after
the lock and misses: it registers its lock without looking at `inflight`, and
so overwrites the lock of any computation that has started meanwhile.
-/

namespace TsCommons.Cache

open Foundations

variable {S₁ S₂ V E : Type}

/-- Between the registration of a lock and the end of the `finally` block. -/
def Progress.InSection (request : Request V) : Progress V E → Prop
  | .computing => True
  | .computed _ => True
  | .setting _ _ _ => ∃ key ttl, request = .getOrCompute key ttl
  | _ => False

/-- No two compute functions of one key are running. -/
def State.SingleFlight (requests : ℕ → Request V)
    (state : State S₁ S₂ V E) : Prop :=
  ∀ call other, state.calls call = .computing →
    state.calls other = .computing →
      (requests call).key = (requests other).key → call = other

/-- A waiter that re-reads after the lock and misses finds no lock registered
for its key. -/
def State.FindsNoLock (requests : ℕ → Request V)
    (state : State S₁ S₂ V E) : Label V E → Prop
  | .resume call =>
      state.calls call = .reading .getAfterLock (.l2Answered none) →
        state.inflight.get (requests call).key = none
  | _ => True

instance State.FindsNoLock.decidable [DecidableEq V] [DecidableEq E]
    (requests : ℕ → Request V) (state : State S₁ S₂ V E) :
    (label : Label V E) → Decidable (state.FindsNoLock requests label)
  | .resume call =>
      inferInstanceAs (Decidable
        (state.calls call = .reading .getAfterLock (.l2Answered none) →
          state.inflight.get (requests call).key = none))
  | .tick _ => isTrue trivial
  | .call _ => isTrue trivial
  | .perform _ _ => isTrue trivial
  | .settle _ _ => isTrue trivial

namespace MultiLevelCache

variable {cache : MultiLevelCache S₁ S₂ V} {requests : ℕ → Request V}
  {state next : State S₁ S₂ V E} {label : Label V E} {call : ℕ}

/-- A computation in progress has its own lock registered. -/
def LockInvariant (requests : ℕ → Request V)
    (state : State S₁ S₂ V E) : Prop :=
  ∀ call, (state.calls call).InSection (requests call) →
    state.inflight.get (requests call).key = some call

/-- The step starts and ends no computation. -/
structure KeepsSections (requests : ℕ → Request V)
    (state next : State S₁ S₂ V E) : Prop where
  inflight : next.inflight = state.inflight
  calls : ∀ call, (next.calls call).InSection (requests call) →
    (state.calls call).InSection (requests call)

/-- The step starts the computation of `call`. -/
structure Enters (requests : ℕ → Request V) (state next : State S₁ S₂ V E)
    (call : ℕ) : Prop where
  inflight : next.inflight =
    state.inflight.set (requests call).key call
  calls : ∀ other, other ≠ call → next.calls other = state.calls other

/-- The step ends the computation of `call`. -/
structure Exits (requests : ℕ → Request V) (state next : State S₁ S₂ V E)
    (call : ℕ) : Prop where
  inSection : (state.calls call).InSection (requests call)
  outside : ¬ (next.calls call).InSection (requests call)
  inflight : next.inflight = state.inflight.delete (requests call).key
  calls : ∀ other, other ≠ call → next.calls other = state.calls other

theorem KeepsSections.of_advance {progress : Progress V E}
    (hinflight : next.inflight = state.inflight)
    (hcalls : next.calls = Function.update state.calls call progress)
    (hprogress : progress.InSection (requests call) →
      (state.calls call).InSection (requests call)) :
    KeepsSections requests state next where
  inflight := hinflight
  calls := by
    intro other hother
    rw [hcalls] at hother
    by_cases heq : other = call
    · subst other
      rw [Function.update_self] at hother
      exact hprogress hother
    · rwa [Function.update_of_ne heq] at hother

theorem enters_runComputation :
    Enters requests state
      (state.runComputation call (requests call).key) call where
  inflight := rfl
  calls := by
    intro other hne
    simp [State.runComputation, State.advance, Function.update_of_ne hne]

theorem exits_unlock {progress : Progress V E}
    (hinSection : (state.calls call).InSection (requests call))
    (houtside : ¬ progress.InSection (requests call)) :
    Exits requests state
      ((state.unlock call (requests call).key).advance call progress)
      call where
  inSection := hinSection
  outside := by simpa [State.advance] using houtside
  inflight := rfl
  calls := by
    intro other hne
    simp [State.advance, State.unlock, Function.update_of_ne hne]

/-- What one step does to the computations in progress. -/
theorem step_section_cases
    (hstep : cache.step requests state label = some next) :
    KeepsSections requests state next ∨
    (∃ call, Enters requests state next call ∧
      (state.inflight.get (requests call).key = none ∨
        label = .resume call ∧ state.calls call =
          .reading .getAfterLock (.l2Answered none))) ∨
    ∃ call, Exits requests state next call := by
  cases label with
  | tick now =>
      obtain ⟨_, rfl⟩ := step_tick.mp hstep
      exact .inl ⟨rfl, fun _ hcall => hcall⟩
  | call call =>
      obtain ⟨_, rfl⟩ := step_call.mp hstep
      refine .inl (KeepsSections.of_advance rfl rfl fun hstart => ?_)
      cases hrequest : requests call <;>
        simp [hrequest, Request.start, Progress.InSection] at hstart
  | perform call tier =>
      cases tier with
      | l1 =>
          rcases performL1_cases hstep with ⟨_, hcall, rfl⟩ |
            ⟨_, _, hcall, rfl⟩ | ⟨_, _, hcall, rfl⟩ | ⟨_, hcall, rfl⟩ <;>
            exact .inl (KeepsSections.of_advance rfl rfl
              (by simp [hcall, Progress.InSection]))
      | l2 =>
          rcases performL2_cases hstep with ⟨_, hcall, rfl⟩ |
            ⟨_, _, hcall, rfl⟩ | ⟨_, hcall, rfl⟩ <;>
            exact .inl (KeepsSections.of_advance rfl rfl
              (by simp [hcall, Progress.InSection]))
  | settle call outcome =>
      obtain ⟨hcall, rfl⟩ := step_settle.mp hstep
      exact .inl (KeepsSections.of_advance rfl rfl
        (by simp [hcall, Progress.InSection]))
  | resume call =>
      rcases resume_cases hstep with ⟨_, hcall, rfl⟩ | ⟨_, _, hcall, rfl⟩ |
        ⟨reader, stage, result, hcall, hresult, rfl⟩ | ⟨_, hcall, _, rfl⟩ |
        ⟨_, hcall, rfl⟩ | ⟨_, hcall, rfl⟩ |
        ⟨_, key, ttl, hcall, hrequest, rfl⟩ | ⟨hcall, rfl⟩
      · exact .inl (KeepsSections.of_advance rfl rfl
          (by simp [Progress.InSection]))
      · exact .inl (KeepsSections.of_advance rfl rfl
          (by simp [Progress.InSection]))
      · rcases finishRead_cases state call (requests call).key reader
          result with ⟨hnext, _⟩ | ⟨_, _, hnext⟩ | ⟨_, _, _, _, hnext⟩ |
            ⟨hmiss, hreader, hnext⟩
        · exact .inl (hnext ▸ KeepsSections.of_advance rfl rfl
            (by simp [Progress.InSection]))
        · exact .inl (hnext ▸ KeepsSections.of_advance rfl rfl
            (by simp [Progress.InSection]))
        · exact .inl (hnext ▸ KeepsSections.of_advance rfl rfl
            (by simp [Progress.InSection]))
        · subst hmiss
          refine .inr (.inl ⟨call, hnext ▸ enters_runComputation, ?_⟩)
          rcases hreader with ⟨_, hfree⟩ | hafter
          · exact .inl hfree
          · subst hafter
            refine .inr ⟨rfl, ?_⟩
            rw [hcall, ReadStage.eq_l2Answered_of_result_none hresult]
      · exact .inl (KeepsSections.of_advance rfl rfl
          (by simp [Progress.InSection]))
      · exact .inl (KeepsSections.of_advance rfl rfl
          (by simp [hcall, Progress.InSection]))
      · exact .inr (.inr ⟨call, exits_unlock
          (by simp [hcall, Progress.InSection])
          (by simp [Progress.InSection])⟩)
      · have hkey : key = (requests call).key := by
          rw [hrequest, Request.key]
        subst hkey
        have hinSection :
            (state.calls call).InSection (requests call) := by
          rw [hcall]
          exact ⟨_, ttl, hrequest⟩
        exact .inr (.inr ⟨call, exits_unlock hinSection
          (by simp [Progress.InSection])⟩)
      · exact .inl (KeepsSections.of_advance rfl rfl
          (by simp [Progress.InSection]))

theorem initial_lockInvariant (requests : ℕ → Request V) (now : ℚ)
    (tiers : Tiers S₁ S₂) :
    LockInvariant requests (State.initial now tiers : State S₁ S₂ V E) := by
  intro call hcall
  simp [State.initial, Progress.InSection] at hcall

theorem LockInvariant.keepsSections (hinv : LockInvariant requests state)
    (hkeeps : KeepsSections requests state next) :
    LockInvariant requests next := by
  intro call hcall
  rw [hkeeps.inflight]
  exact hinv call (hkeeps.calls call hcall)

theorem LockInvariant.enters (hinv : LockInvariant requests state)
    (henters : Enters requests state next call)
    (hfree : state.inflight.get (requests call).key = none) :
    LockInvariant requests next := by
  intro other hother
  rw [henters.inflight, InsertionMap.get_set]
  by_cases heq : other = call
  · subst other
    rw [if_pos rfl]
  · rw [henters.calls other heq] at hother
    have hlock := hinv other hother
    have hkey : (requests other).key ≠ (requests call).key := by
      intro hkey
      rw [hkey, hfree] at hlock
      contradiction
    rw [if_neg hkey]
    exact hlock

theorem LockInvariant.exits (hinv : LockInvariant requests state)
    (hexits : Exits requests state next call) :
    LockInvariant requests next := by
  intro other hother
  have hne : other ≠ call := by
    intro heq
    subst other
    exact hexits.outside hother
  rw [hexits.calls other hne] at hother
  have hlock := hinv other hother
  have hkey : (requests other).key ≠ (requests call).key := by
    intro hkey
    rw [hkey, hinv call hexits.inSection, Option.some.injEq] at hlock
    exact hne hlock.symm
  rw [hexits.inflight, InsertionMap.get_delete_of_ne _ hkey]
  exact hlock

theorem LockInvariant.step (hinv : LockInvariant requests state)
    (hfinds : state.FindsNoLock requests label)
    (hstep : cache.step requests state label = some next) :
    LockInvariant requests next := by
  rcases step_section_cases hstep with
    hkeeps | ⟨call, henters, hlock⟩ | ⟨call, hexits⟩
  · exact hinv.keepsSections hkeeps
  · apply hinv.enters henters
    rcases hlock with hfree | ⟨hlabel, hcall⟩
    · exact hfree
    · subst label
      exact hfinds hcall
  · exact hinv.exits hexits

theorem LockInvariant.singleFlight (hinv : LockInvariant requests state) :
    state.SingleFlight requests := by
  intro call other hcall hother hkey
  have hlock := hinv call (by simp [hcall, Progress.InSection])
  have hlockOther := hinv other (by simp [hother, Progress.InSection])
  rw [hkey, hlockOther, Option.some.injEq] at hlock
  exact hlock.symm

/-- As long as no waiter registers its lock over another one, no two compute
functions of one key are running, whatever the tiers are. -/
theorem singleFlight_of_findsNoLock (cache : MultiLevelCache S₁ S₂ V)
    (requests : ℕ → Request V) (now : ℚ) (tiers : Tiers S₁ S₂)
    (labels : List (Label V E)) (state : State S₁ S₂ V E)
    (hrun : exec (cache.step requests) (State.initial now tiers) labels =
      some state)
    (hmeet : StepsMeet (cache.step requests) (State.FindsNoLock requests)
      (State.initial now tiers) labels) :
    state.SingleFlight requests := by
  have hinv : LockInvariant requests state :=
    exec_invariant_of_stepsMeet
      (fun _ _ _ hinv hfinds hstep => hinv.step hfinds hstep)
      (initial_lockInvariant requests now tiers) hmeet hrun
  exact hinv.singleFlight

/-! ## A failed computation and its waiters -/

/-- Every call is `getOrCompute` of one key. -/
def sameComputation : ℕ → Request ℕ :=
  fun _ => .getOrCompute "report" none

/-- The read of two tiers that both miss. -/
def missBoth (call : ℕ) : List (Label ℕ String) :=
  [.perform call .l1, .resume call, .perform call .l2, .resume call]

/-- Call 0 computes, and the calls up to `waiters` wait for its lock. -/
def computeAndWait (waiters : ℕ) : List (Label ℕ String) :=
  (List.range (waiters + 1)).flatMap fun call =>
    .call call :: missBoth call

/-- The computation of call 0 rejects. -/
def rejects : List (Label ℕ String) :=
  [.settle 0 (.error "unavailable"), .resume 0]

/-- After a rejection a single waiter computes alone. -/
theorem singleFlight_of_findsNoLock_oneWaiter :
    ∃ state : State (InMemoryCache ℕ) (InMemoryCache ℕ) ℕ String,
      exec (inMemory.step sameComputation) (State.initial 0 (emptyTiers none none))
        (computeAndWait 1 ++ rejects ++ .resume 1 :: missBoth 1) =
          some state ∧
      state.calls 1 = .computing ∧
      state.SingleFlight sameComputation := by
  have hsome : ((exec (inMemory.step sameComputation)
      (State.initial 0 (emptyTiers none none))
      (computeAndWait 1 ++ rejects ++ .resume 1 :: missBoth 1)).map
        fun state => state.calls 1) = some .computing := by
    decide +kernel
  obtain ⟨state, hrun, hcall⟩ := Option.map_eq_some_iff.mp hsome
  have hmeet : StepsMeet (inMemory.step sameComputation)
      (State.FindsNoLock sameComputation) (State.initial 0 (emptyTiers none none))
      (computeAndWait 1 ++ rejects ++ .resume 1 :: missBoth 1) := by
    decide +kernel
  exact ⟨state, hrun, hcall, singleFlight_of_findsNoLock inMemory
    sameComputation 0 (emptyTiers none none) _ state hrun hmeet⟩

/-- Both waiters of a rejected computation compute at once. -/
theorem not_singleFlight_after_rejection :
    ∃ state : State (InMemoryCache ℕ) (InMemoryCache ℕ) ℕ String,
      exec (inMemory.step sameComputation) (State.initial 0 (emptyTiers none none))
        (computeAndWait 2 ++ rejects ++ .resume 1 :: .resume 2 ::
          (missBoth 1 ++ missBoth 2)) = some state ∧
      ¬ state.SingleFlight sameComputation := by
  have hsome : ((exec (inMemory.step sameComputation)
      (State.initial 0 (emptyTiers none none))
      (computeAndWait 2 ++ rejects ++ .resume 1 :: .resume 2 ::
        (missBoth 1 ++ missBoth 2))).map
        fun state => (state.calls 1, state.calls 2)) =
      some (.computing, .computing) := by
    decide +kernel
  obtain ⟨state, hrun, hcalls⟩ := Option.map_eq_some_iff.mp hsome
  rw [Prod.mk.injEq] at hcalls
  refine ⟨state, hrun, fun hsingle => ?_⟩
  have heq := hsingle 1 2 hcalls.1 hcalls.2 rfl
  contradiction

end MultiLevelCache

end TsCommons.Cache
