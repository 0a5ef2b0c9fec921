import TsCommons.Cache.Registers

/-!
# Coherence of the two tiers

Calls of `get`, `set` and `delete` interleave over tiers that keep their
writes.  A read that misses L1 copies into L1 what it has found in L2, however
long ago, and two writes may reach the tiers in different orders.  A run keeps
its order if neither happens: its last write to resolve was the last one to
reach the tiers, and no back-fill takes effect over a later write.
-/

namespace TsCommons.Cache

open Foundations

variable {S₁ S₂ V E : Type}

namespace Request

/-- What a write leaves under its key. -/
def written : Request V → Option V
  | .set _ value _ => some value
  | _ => none

def IsWrite : Request V → Prop
  | .set _ _ _ => True
  | .delete _ => True
  | _ => False

/-- A `get`, a `delete`, or a `set` without a lifetime. -/
def Plain : Request V → Prop
  | .get _ => True
  | .set _ _ ttl => ttl = none
  | .delete _ => True
  | .getOrCompute _ _ => False

theorem Plain.ttl_eq_none {request : Request V} (hplain : request.Plain) :
    request.ttl = none := by
  cases request with
  | set key value ttl => exact hplain
  | getOrCompute key ttl => exact hplain.elim
  | _ => rfl

end Request

/-- A read that has found, or is about to return, this value. -/
def ReadStage.Shows (value : Option V) : ReadStage V → Prop
  | .l1Asked => True
  | .l1Answered l1Result => l1Result = value
  | .l2Asked => True
  | .l2Answered l2Result => l2Result = value
  | .backfillAsked found => some found = value
  | .backfilled found => some found = value

theorem ReadStage.Shows.result_eq {stage : ReadStage V}
    {value result : Option V} (hshows : stage.Shows value)
    (hresult : stage.result = some result) : result = value := by
  cases stage with
  | l1Answered l1Result =>
      cases l1Result with
      | none => simp [ReadStage.result] at hresult
      | some found =>
          cases hresult
          exact hshows
  | l2Answered l2Result =>
      cases l2Result with
      | none =>
          cases hresult
          exact hshows
      | some found => simp [ReadStage.result] at hresult
  | backfilled found =>
      cases hresult
      exact hshows
  | _ => simp [ReadStage.result] at hresult

namespace Progress

/-- A get of this value, or one that is still to come. -/
def Shows (value : Option V) : Progress V E → Prop
  | .notCalled => True
  | .reading _ stage => stage.Shows value
  | .got result => result = value
  | _ => False

def Writing : Progress V E → Prop
  | .setting _ _ _ => True
  | .deleting _ _ => True
  | _ => False

/-- A write that has yet to take effect on L1. -/
def AwaitsL1 : Progress V E → Prop
  | .setting _ false _ => True
  | .deleting false _ => True
  | _ => False

def AwaitsL2 : Progress V E → Prop
  | .setting _ _ false => True
  | .deleting _ false => True
  | _ => False

/-- A write that has taken effect on both tiers. -/
def Reached : Progress V E → Prop
  | .setting _ true true => True
  | .deleting true true => True
  | _ => False

instance : DecidablePred (Writing : Progress V E → Prop)
  | .setting _ _ _ => isTrue trivial
  | .deleting _ _ => isTrue trivial
  | .notCalled => isFalse id
  | .reading _ _ => isFalse id
  | .waiting _ => isFalse id
  | .computing => isFalse id
  | .computed _ => isFalse id
  | .got _ => isFalse id
  | .done => isFalse id
  | .returned _ => isFalse id
  | .threw _ => isFalse id

instance : DecidablePred (Reached : Progress V E → Prop)
  | .setting _ l1Done l2Done => decidable_of_iff (l1Done ∧ l2Done)
      (by cases l1Done <;> cases l2Done <;> simp [Reached])
  | .deleting l1Done l2Done => decidable_of_iff (l1Done ∧ l2Done)
      (by cases l1Done <;> cases l2Done <;> simp [Reached])
  | .notCalled => isFalse id
  | .reading _ _ => isFalse id
  | .waiting _ => isFalse id
  | .computing => isFalse id
  | .computed _ => isFalse id
  | .got _ => isFalse id
  | .done => isFalse id
  | .returned _ => isFalse id
  | .threw _ => isFalse id

def Backfills : Progress V E → Bool
  | .reading _ (.backfillAsked _) => true
  | _ => false

def reachL1 : Progress V E → Progress V E
  | .setting value _ l2Done => .setting value true l2Done
  | .deleting _ l2Done => .deleting true l2Done
  | progress => progress

def reachL2 : Progress V E → Progress V E
  | .setting value l1Done _ => .setting value l1Done true
  | .deleting l1Done _ => .deleting l1Done true
  | progress => progress

theorem AwaitsL1.writing {progress : Progress V E}
    (hawaits : progress.AwaitsL1) : progress.Writing := by
  cases progress <;> simp_all [AwaitsL1, Writing]

theorem AwaitsL2.writing {progress : Progress V E}
    (hawaits : progress.AwaitsL2) : progress.Writing := by
  cases progress <;> simp_all [AwaitsL2, Writing]

theorem Reached.writing {progress : Progress V E}
    (hreached : progress.Reached) : progress.Writing := by
  cases progress <;> simp_all [Reached, Writing]

theorem Reached.not_awaitsL1 {progress : Progress V E}
    (hreached : progress.Reached) : ¬ progress.AwaitsL1 := by
  unfold Reached at hreached
  split at hreached <;> simp_all [AwaitsL1]

@[simp] theorem not_awaitsL1_reachL1 (progress : Progress V E) :
    ¬ progress.reachL1.AwaitsL1 := by
  cases progress <;> simp [reachL1, AwaitsL1]

@[simp] theorem awaitsL1_reachL2 (progress : Progress V E) :
    progress.reachL2.AwaitsL1 ↔ progress.AwaitsL1 := by
  cases progress with
  | setting value l1Done l2Done => cases l1Done <;> simp [reachL2, AwaitsL1]
  | deleting l1Done l2Done => cases l1Done <;> simp [reachL2, AwaitsL1]
  | _ => rfl

/-- The progress that a plain call can have. -/
def Matches (request : Request V) : Progress V E → Prop
  | .notCalled => True
  | .reading reader _ => reader = .get ∧ ∃ key, request = .get key
  | .setting value _ _ => ∃ key ttl, request = .set key value ttl
  | .deleting _ _ => ∃ key, request = .delete key
  | .got _ => True
  | .done => True
  | _ => False

theorem Matches.start {request : Request V}
    (hplain : request.Plain) :
    (request.start : Progress V E).Matches request := by
  cases request with
  | get key => exact ⟨rfl, key, rfl⟩
  | set key value ttl => exact ⟨key, ttl, rfl⟩
  | delete key => exact ⟨key, rfl⟩
  | getOrCompute key ttl => exact hplain.elim

theorem Matches.reach {progress : Progress V E}
    {request : Request V} (hmatches : progress.Matches request) :
    progress.reachL1.Matches request ∧ progress.reachL2.Matches request := by
  cases progress <;> exact ⟨hmatches, hmatches⟩

end Progress

namespace State

/-- The last write to resolve was the last one to take effect on both tiers;
and a back-fill is overtaken by a write that is still to come, or copies what
the last write on L1 has written. -/
def KeepsOrder (requests : ℕ → Request V) (state : State S₁ S₂ V E) :
    Label V E → Prop
  | .resume call =>
      (state.calls call).Reached →
        (∀ other, other ≠ call →
          (requests other).key = (requests call).key →
            ¬ (state.calls other).Writing) →
          state.reachedL1 (requests call).key = some call ∧
            state.reachedL2 (requests call).key = some call
  | .perform call .l1 =>
      ∀ reader value,
        state.calls call = .reading reader (.backfillAsked value) →
          (∃ other, (requests other).key = (requests call).key ∧
            (state.calls other).AwaitsL1) ∨
          ∀ last, state.reachedL1 (requests call).key = some last →
            (requests last).written = some value
  | _ => True

end State

namespace MultiLevelCache

variable {requests : ℕ → Request V} {state next : RegisterState V E}
  {label : Label V E} {call : ℕ}

/-- One step of plain calls on registers. -/
inductive PlainStep (requests : ℕ → Request V) (state : RegisterState V E) :
    Label V E → RegisterState V E → Prop
  | tick (now : ℚ) :
      PlainStep requests state (.tick now) { state with clock := now }
  | start (call : ℕ) (hcall : state.calls call = .notCalled) :
      PlainStep requests state (.call call)
        (state.advance call (requests call).start)
  | readL1 (call : ℕ) (hcall : state.calls call = .reading .get .l1Asked) :
      PlainStep requests state (.perform call .l1)
        (state.advance call
          (.reading .get (.l1Answered (state.l1 (requests call).key))))
  | askL2 (call : ℕ)
      (hcall : state.calls call = .reading .get (.l1Answered none)) :
      PlainStep requests state (.resume call)
        (state.advance call (.reading .get .l2Asked))
  | readL2 (call : ℕ) (hcall : state.calls call = .reading .get .l2Asked) :
      PlainStep requests state (.perform call .l2)
        (state.advance call
          (.reading .get (.l2Answered (state.l2 (requests call).key))))
  | askBackfill (call : ℕ) (value : V)
      (hcall : state.calls call = .reading .get (.l2Answered (some value))) :
      PlainStep requests state (.resume call)
        (state.advance call (.reading .get (.backfillAsked value)))
  | backfill (call : ℕ) (value : V)
      (hcall : state.calls call = .reading .get (.backfillAsked value)) :
      PlainStep requests state (.perform call .l1)
        { state.advance call (.reading .get (.backfilled value)) with
          l1 := Function.update state.l1 (requests call).key (some value) }
  | finish (call : ℕ) (stage : ReadStage V) (result : Option V)
      (hcall : state.calls call = .reading .get stage)
      (hresult : stage.result = some result) :
      PlainStep requests state (.resume call)
        (state.advance call (.got result))
  | writeL1 (call : ℕ) (hawaits : (state.calls call).AwaitsL1) :
      PlainStep requests state (.perform call .l1)
        { state.advance call (state.calls call).reachL1 with
          l1 := Function.update state.l1 (requests call).key
            (requests call).written
          reachedL1 :=
            Function.update state.reachedL1 (requests call).key (some call) }
  | writeL2 (call : ℕ) (hawaits : (state.calls call).AwaitsL2) :
      PlainStep requests state (.perform call .l2)
        { state.advance call (state.calls call).reachL2 with
          l2 := Function.update state.l2 (requests call).key
            (requests call).written
          reachedL2 :=
            Function.update state.reachedL2 (requests call).key (some call) }
  | resolve (call : ℕ) (hreached : (state.calls call).Reached) :
      PlainStep requests state (.resume call) (state.advance call .done)

theorem plainStep_performL1
    (hmatches : (state.calls call).Matches (requests call))
    (hstep : registers.performL1 (requests call) state call = some next) :
    PlainStep requests state (.perform call .l1) next := by
  rcases performL1_cases hstep with ⟨_, hcall, rfl⟩ | ⟨_, _, hcall, rfl⟩ |
    ⟨value, _, hcall, rfl⟩ | ⟨_, hcall, rfl⟩ <;> rw [hcall] at hmatches
  · obtain ⟨rfl, _⟩ := hmatches
    exact .readL1 call hcall
  · obtain ⟨rfl, _⟩ := hmatches
    exact .backfill call _ hcall
  · obtain ⟨key, ttl, hrequest⟩ := hmatches
    have hwritten : (requests call).written = some value := by
      rw [hrequest, Request.written]
    have hwrite : PlainStep requests state (.perform call .l1) _ :=
      .writeL1 call (by simp [hcall, Progress.AwaitsL1])
    rw [hcall, hwritten] at hwrite
    exact hwrite
  · obtain ⟨key, hrequest⟩ := hmatches
    have hwritten : (requests call).written = none := by
      rw [hrequest, Request.written]
      simp
    have hwrite : PlainStep requests state (.perform call .l1) _ :=
      .writeL1 call (by simp [hcall, Progress.AwaitsL1])
    rw [hcall, hwritten] at hwrite
    exact hwrite

theorem plainStep_performL2
    (hmatches : (state.calls call).Matches (requests call))
    (hstep : registers.performL2 (requests call) state call = some next) :
    PlainStep requests state (.perform call .l2) next := by
  rcases performL2_cases hstep with ⟨_, hcall, rfl⟩ |
    ⟨value, _, hcall, rfl⟩ | ⟨_, hcall, rfl⟩ <;> rw [hcall] at hmatches
  · obtain ⟨rfl, _⟩ := hmatches
    exact .readL2 call hcall
  · obtain ⟨key, ttl, hrequest⟩ := hmatches
    have hwritten : (requests call).written = some value := by
      rw [hrequest, Request.written]
    have hwrite : PlainStep requests state (.perform call .l2) _ :=
      .writeL2 call (by simp [hcall, Progress.AwaitsL2])
    rw [hcall, hwritten] at hwrite
    exact hwrite
  · obtain ⟨key, hrequest⟩ := hmatches
    have hwritten : (requests call).written = none := by
      rw [hrequest, Request.written]
      simp
    have hwrite : PlainStep requests state (.perform call .l2) _ :=
      .writeL2 call (by simp [hcall, Progress.AwaitsL2])
    rw [hcall, hwritten] at hwrite
    exact hwrite

theorem plainStep_resume
    (hmatches : (state.calls call).Matches (requests call))
    (hstep : resume (requests call) state call = some next) :
    PlainStep requests state (.resume call) next := by
  rcases resume_cases hstep with ⟨_, hcall, rfl⟩ | ⟨_, _, hcall, rfl⟩ |
    ⟨_, stage, result, hcall, hresult, rfl⟩ | ⟨_, hcall, _, _⟩ |
    ⟨_, hcall, _⟩ | ⟨_, hcall, _⟩ | ⟨_, key, ttl, hcall, hrequest, _⟩ |
    ⟨hcall, rfl⟩
  · rw [hcall] at hmatches
    obtain ⟨rfl, _⟩ := hmatches
    exact .askL2 call hcall
  · rw [hcall] at hmatches
    obtain ⟨rfl, _⟩ := hmatches
    exact .askBackfill call _ hcall
  · rw [hcall] at hmatches
    obtain ⟨rfl, _⟩ := hmatches
    exact .finish call stage result hcall hresult
  · rw [hcall] at hmatches
    exact hmatches.elim
  · rw [hcall] at hmatches
    exact hmatches.elim
  · rw [hcall] at hmatches
    exact hmatches.elim
  · rw [hcall, hrequest] at hmatches
    simp [Progress.Matches] at hmatches
  · refine .resolve call ?_
    rcases hcall with ⟨value, hcall, _⟩ | hcall <;>
      simp [hcall, Progress.Reached]

theorem plainStep_of_step
    (hmatches : ∀ call, (state.calls call).Matches (requests call))
    (hstep : registers.step requests state label = some next) :
    PlainStep requests state label next := by
  cases label with
  | tick now =>
      obtain ⟨_, rfl⟩ := step_tick.mp hstep
      exact .tick now
  | call call =>
      obtain ⟨hcall, rfl⟩ := step_call.mp hstep
      exact .start call hcall
  | perform call tier =>
      cases tier with
      | l1 => exact plainStep_performL1 (hmatches call) hstep
      | l2 => exact plainStep_performL2 (hmatches call) hstep
  | settle call outcome =>
      obtain ⟨hcall, _⟩ := step_settle.mp hstep
      have hcomputing := hmatches call
      rw [hcall] at hcomputing
      exact hcomputing.elim
  | resume call => exact plainStep_resume (hmatches call) hstep

/-! ## The invariant -/

/-- L2 holds what the last write to reach it has written, and so does L1
unless another write is on its way there. -/
structure Coherent (requests : ℕ → Request V)
    (state : RegisterState V E) : Prop where
  calls : ∀ call, (state.calls call).Matches (requests call)
  l1 : ∀ key last, state.reachedL1 key = some last →
    (∀ call, (requests call).key = key → ¬ (state.calls call).AwaitsL1) →
      state.l1 key = (requests last).written
  l2 : ∀ key last, state.reachedL2 key = some last →
    state.l2 key = (requests last).written

theorem initial_coherent (requests : ℕ → Request V) (now : ℚ)
    (tiers : Tiers (String → Option V) (String → Option V)) :
    Coherent requests (State.initial now tiers : RegisterState V E) := by
  constructor <;> simp [State.initial, Progress.Matches]

theorem matches_update {progress : Progress V E}
    (hmatches : ∀ call, (state.calls call).Matches (requests call))
    (hprogress : progress.Matches (requests call)) (other : ℕ) :
    (Function.update state.calls call progress other).Matches
      (requests other) := by
  by_cases heq : other = call
  · subst other
    rwa [Function.update_self]
  · rw [Function.update_of_ne heq]
    exact hmatches other

theorem awaitsL1_update {progress : Progress V E}
    (hprogress : (state.calls call).AwaitsL1 → progress.AwaitsL1)
    (other : ℕ) (hawaits : (state.calls other).AwaitsL1) :
    (Function.update state.calls call progress other).AwaitsL1 := by
  by_cases heq : other = call
  · subst other
    rw [Function.update_self]
    exact hprogress hawaits
  · rwa [Function.update_of_ne heq]

theorem PlainStep.matches (hplain : ∀ call, (requests call).Plain)
    (hmatches : ∀ call, (state.calls call).Matches (requests call))
    (hstep : PlainStep requests state label next) (other : ℕ) :
    (next.calls other).Matches (requests other) := by
  have hreading : ∀ call stage stage',
      state.calls call = .reading .get stage →
      (.reading .get stage' : Progress V E).Matches (requests call) := by
    intro call stage stage' hcall
    have hread := hmatches call
    rw [hcall] at hread
    exact hread
  cases hstep with
  | tick now => exact hmatches other
  | start call hcall =>
      exact matches_update hmatches
        (Progress.Matches.start (hplain call)) other
  | readL1 call hcall =>
      exact matches_update hmatches (hreading call _ _ hcall) other
  | askL2 call hcall =>
      exact matches_update hmatches (hreading call _ _ hcall) other
  | readL2 call hcall =>
      exact matches_update hmatches (hreading call _ _ hcall) other
  | askBackfill call value hcall =>
      exact matches_update hmatches (hreading call _ _ hcall) other
  | backfill call value hcall =>
      exact matches_update hmatches (hreading call _ _ hcall) other
  | finish call stage result hcall hresult =>
      have hgot : (Progress.got result : Progress V E).Matches
          (requests call) := trivial
      exact matches_update hmatches hgot other
  | writeL1 call hawaits =>
      exact matches_update hmatches (hmatches call).reach.1 other
  | writeL2 call hawaits =>
      exact matches_update hmatches (hmatches call).reach.2 other
  | resolve call hreached =>
      have hdone : (Progress.done : Progress V E).Matches
          (requests call) := trivial
      exact matches_update hmatches hdone other

theorem Coherent.l1_of_eq (hcoherent : Coherent requests state)
    {key : String} {last : ℕ} (hlast : next.reachedL1 key = some last)
    (hnone : ∀ call, (requests call).key = key →
      ¬ (next.calls call).AwaitsL1)
    (hl1 : next.l1 = state.l1) (hreached : next.reachedL1 = state.reachedL1)
    (hawaits : ∀ call, (state.calls call).AwaitsL1 →
      (next.calls call).AwaitsL1) :
    next.l1 key = (requests last).written := by
  rw [hreached] at hlast
  rw [hl1]
  exact hcoherent.l1 key last hlast fun call hkey hcall =>
    hnone call hkey (hawaits call hcall)

theorem Coherent.l1_step (hcoherent : Coherent requests state)
    (horder : state.KeepsOrder requests label)
    (hstep : PlainStep requests state label next) (key : String) (last : ℕ)
    (hlast : next.reachedL1 key = some last)
    (hnone : ∀ call, (requests call).key = key →
      ¬ (next.calls call).AwaitsL1) :
    next.l1 key = (requests last).written := by
  cases hstep with
  | tick now => exact hcoherent.l1 key last hlast hnone
  | start call hcall =>
      exact hcoherent.l1_of_eq hlast hnone rfl rfl
        (awaitsL1_update (by simp [hcall, Progress.AwaitsL1]))
  | readL1 call hcall =>
      exact hcoherent.l1_of_eq hlast hnone rfl rfl
        (awaitsL1_update (by simp [hcall, Progress.AwaitsL1]))
  | askL2 call hcall =>
      exact hcoherent.l1_of_eq hlast hnone rfl rfl
        (awaitsL1_update (by simp [hcall, Progress.AwaitsL1]))
  | readL2 call hcall =>
      exact hcoherent.l1_of_eq hlast hnone rfl rfl
        (awaitsL1_update (by simp [hcall, Progress.AwaitsL1]))
  | askBackfill call value hcall =>
      exact hcoherent.l1_of_eq hlast hnone rfl rfl
        (awaitsL1_update (by simp [hcall, Progress.AwaitsL1]))
  | backfill call value hcall =>
      have hawaits : ∀ other, (state.calls other).AwaitsL1 →
          (Function.update state.calls call
            (.reading .get (.backfilled value)) other).AwaitsL1 :=
        awaitsL1_update (by simp [hcall, Progress.AwaitsL1])
      by_cases hkey : key = (requests call).key
      · subst key
        rcases horder .get value hcall with
          ⟨other, hother, hotherAwaits⟩ | hwritten
        · exact absurd (hawaits other hotherAwaits) (hnone other hother)
        · rw [hwritten last hlast]
          exact Function.update_self ..
      · have hold := hcoherent.l1 key last hlast
          fun other hother hotherAwaits =>
            hnone other hother (hawaits other hotherAwaits)
        rw [← hold]
        exact Function.update_of_ne hkey ..
  | finish call stage result hcall hresult =>
      exact hcoherent.l1_of_eq hlast hnone rfl rfl
        (awaitsL1_update (by simp [hcall, Progress.AwaitsL1]))
  | writeL1 call hawaits =>
      by_cases hkey : key = (requests call).key
      · subst key
        simp only [Function.update_self, Option.some.injEq] at hlast ⊢
        rw [hlast]
      · simp only [Function.update_of_ne hkey] at hlast ⊢
        apply hcoherent.l1 key last hlast
        intro other hother hotherAwaits
        have hne : other ≠ call := by
          intro heq
          subst other
          exact hkey hother.symm
        apply hnone other hother
        simpa [State.advance, Function.update_of_ne hne] using hotherAwaits
  | writeL2 call hawaits =>
      exact hcoherent.l1_of_eq hlast hnone rfl rfl
        (awaitsL1_update (Progress.awaitsL1_reachL2 _).mpr)
  | resolve call hreached =>
      exact hcoherent.l1_of_eq hlast hnone rfl rfl
        (awaitsL1_update fun hawaits =>
          absurd hawaits hreached.not_awaitsL1)

theorem Coherent.l2_step (hcoherent : Coherent requests state)
    (hstep : PlainStep requests state label next) (key : String) (last : ℕ)
    (hlast : next.reachedL2 key = some last) :
    next.l2 key = (requests last).written := by
  cases hstep with
  | writeL2 call hawaits =>
      by_cases hkey : key = (requests call).key
      · subst key
        simp only [Function.update_self, Option.some.injEq] at hlast ⊢
        rw [hlast]
      · simp only [Function.update_of_ne hkey] at hlast ⊢
        exact hcoherent.l2 key last hlast
  | _ => exact hcoherent.l2 key last hlast

theorem Coherent.step (hplain : ∀ call, (requests call).Plain)
    (hcoherent : Coherent requests state)
    (horder : state.KeepsOrder requests label)
    (hstep : registers.step requests state label = some next) :
    Coherent requests next := by
  have hplainStep := plainStep_of_step hcoherent.calls hstep
  exact ⟨hplainStep.matches hplain hcoherent.calls,
    hcoherent.l1_step horder hplainStep, hcoherent.l2_step hplainStep⟩

/-! ## After the last write -/

/-- No write of the key is in progress, and `write` was the last one to reach
both tiers; the call `reader` has seen nothing else. -/
structure Settled (requests : ℕ → Request V) (write reader : ℕ)
    (state : RegisterState V E) : Prop where
  quiet : ∀ call, (requests call).key = (requests write).key →
    ¬ (state.calls call).Writing
  reachedL1 : state.reachedL1 (requests write).key = some write
  reachedL2 : state.reachedL2 (requests write).key = some write
  reader : (state.calls reader).Shows (requests write).written

theorem Coherent.l1_of_settled {write reader : ℕ}
    (hcoherent : Coherent requests state)
    (hsettled : Settled requests write reader state) :
    state.l1 (requests write).key = (requests write).written :=
  hcoherent.l1 _ _ hsettled.reachedL1 fun call hkey hawaits =>
    hsettled.quiet call hkey hawaits.writing

theorem Coherent.l2_of_settled {write reader : ℕ}
    (hcoherent : Coherent requests state)
    (hsettled : Settled requests write reader state) :
    state.l2 (requests write).key = (requests write).written :=
  hcoherent.l2 _ _ hsettled.reachedL2

/-- A step that changes one call and brings up no write. -/
theorem Settled.advance {write reader : ℕ} {progress : Progress V E}
    (hsettled : Settled requests write reader state)
    (hwriting : (requests call).key = (requests write).key →
      ¬ progress.Writing)
    (hshows : call = reader → (state.calls call).Shows
      (requests write).written → progress.Shows (requests write).written)
    (hcalls : next.calls = Function.update state.calls call progress)
    (hreachedL1 : next.reachedL1 (requests write).key =
      state.reachedL1 (requests write).key)
    (hreachedL2 : next.reachedL2 (requests write).key =
      state.reachedL2 (requests write).key) :
    Settled requests write reader next where
  quiet := by
    intro other hother
    rw [hcalls]
    by_cases heq : other = call
    · subst other
      rw [Function.update_self]
      exact hwriting hother
    · rw [Function.update_of_ne heq]
      exact hsettled.quiet other hother
  reachedL1 := hreachedL1 ▸ hsettled.reachedL1
  reachedL2 := hreachedL2 ▸ hsettled.reachedL2
  reader := by
    rw [hcalls]
    by_cases heq : reader = call
    · subst call
      rw [Function.update_self]
      exact hshows rfl hsettled.reader
    · rw [Function.update_of_ne heq]
      exact hsettled.reader

theorem not_writing_start {request : Request V}
    (hrequest : ¬ request.IsWrite) :
    ¬ (request.start : Progress V E).Writing := by
  cases request <;>
    simp_all [Request.start, Request.IsWrite, Progress.Writing]

theorem Settled.step {write reader : ℕ}
    (hsettled : Settled requests write reader state)
    (hcoherent : Coherent requests state)
    (hreader : requests reader = .get (requests write).key)
    (hstarts : ∀ call, label = .call call →
      (requests call).key = (requests write).key → ¬ (requests call).IsWrite)
    (hstep : PlainStep requests state label next) :
    Settled requests write reader next := by
  have hkey : (requests reader).key = (requests write).key := by
    rw [hreader, Request.key]
  have hl1 := hcoherent.l1_of_settled hsettled
  have hl2 := hcoherent.l2_of_settled hsettled
  cases hstep with
  | tick now => exact ⟨hsettled.quiet, hsettled.reachedL1,
      hsettled.reachedL2, hsettled.reader⟩
  | start call hcall =>
      refine hsettled.advance (fun hsame => ?_) (fun heq _ => ?_) rfl rfl rfl
      · exact not_writing_start (hstarts call rfl hsame)
      · subst call
        rw [hreader]
        trivial
  | readL1 call hcall =>
      refine hsettled.advance (fun _ => id) (fun heq _ => ?_) rfl rfl rfl
      subst call
      rw [hkey]
      exact hl1
  | askL2 call hcall =>
      refine hsettled.advance (fun _ => id) (fun _ _ => ?_) rfl rfl rfl
      trivial
  | readL2 call hcall =>
      refine hsettled.advance (fun _ => id) (fun heq _ => ?_) rfl rfl rfl
      subst call
      rw [hkey]
      exact hl2
  | askBackfill call value hcall =>
      refine hsettled.advance (fun _ => id) (fun _ hshows => ?_) rfl rfl rfl
      rwa [hcall] at hshows
  | backfill call value hcall =>
      refine hsettled.advance (fun _ => id) (fun _ hshows => ?_) rfl rfl rfl
      rwa [hcall] at hshows
  | finish call stage result hcall hresult =>
      refine hsettled.advance (fun _ => id) (fun _ hshows => ?_) rfl rfl rfl
      rw [hcall] at hshows
      exact ReadStage.Shows.result_eq hshows hresult
  | writeL1 call hawaits =>
      have hne : (requests write).key ≠ (requests call).key := fun hsame =>
        hsettled.quiet call hsame.symm hawaits.writing
      refine hsettled.advance (fun hsame => absurd hsame.symm hne)
        (fun heq _ => ?_) rfl (Function.update_of_ne hne ..) rfl
      subst call
      exact absurd hkey.symm hne
  | writeL2 call hawaits =>
      have hne : (requests write).key ≠ (requests call).key := fun hsame =>
        hsettled.quiet call hsame.symm hawaits.writing
      refine hsettled.advance (fun hsame => absurd hsame.symm hne)
        (fun heq _ => ?_) rfl rfl (Function.update_of_ne hne ..)
      subst call
      exact absurd hkey.symm hne
  | resolve call hreached =>
      refine hsettled.advance (fun _ => id) (fun heq _ => ?_) rfl rfl rfl
      subst call
      exact absurd hreached.writing (hsettled.quiet reader hkey)

/-- The call `write` resolves with no other write of its key in progress, and
the call `reader` gets the key after that, with no write of it started
meanwhile. -/
structure ReadAfterWrite (cache : MultiLevelCache S₁ S₂ V)
    (requests : ℕ → Request V) (initial last : State S₁ S₂ V E)
    (before after : List (Label V E)) (write reader : ℕ) : Prop where
  run : ∃ pending resolved,
    exec (cache.step requests) initial before = some pending ∧
    (pending.calls write).Reached ∧
    (∀ other, other ≠ write →
      (requests other).key = (requests write).key →
        ¬ (pending.calls other).Writing) ∧
    cache.step requests pending (.resume write) = some resolved ∧
    resolved.calls reader = .notCalled ∧
    exec (cache.step requests) resolved after = some last
  reader : requests reader = .get (requests write).key
  noWrite : ∀ call, .call call ∈ after →
    (requests call).key = (requests write).key → ¬ (requests call).IsWrite

theorem settled_of_resume {pending resolved : RegisterState V E}
    {write reader : ℕ}
    (hmatches : ∀ call, (pending.calls call).Matches (requests call))
    (horder : pending.KeepsOrder requests (.resume write : Label V E))
    (hreached : (pending.calls write).Reached)
    (hquiet : ∀ other, other ≠ write →
      (requests other).key = (requests write).key →
        ¬ (pending.calls other).Writing)
    (hstep : registers.step requests pending (.resume write) = some resolved)
    (hreader : resolved.calls reader = .notCalled) :
    Settled requests write reader resolved := by
  obtain ⟨hreachedL1, hreachedL2⟩ := horder hreached hquiet
  have hdone : resolved = pending.advance write .done := by
    have hplainStep := plainStep_of_step hmatches hstep
    cases hplainStep with
    | askL2 _ hcall => simp [hcall, Progress.Reached] at hreached
    | askBackfill _ _ hcall => simp [hcall, Progress.Reached] at hreached
    | finish _ _ _ hcall _ => simp [hcall, Progress.Reached] at hreached
    | resolve _ _ => rfl
  subst resolved
  refine ⟨?_, hreachedL1, hreachedL2, by rw [hreader]; trivial⟩
  intro call hkey
  by_cases heq : call = write
  · subst call
    simp [State.advance, Progress.Writing]
  · have hsame : (pending.advance write .done).calls call =
        pending.calls call := Function.update_of_ne heq ..
    rw [hsame]
    exact hquiet call heq hkey

theorem registers_get_of_readAfterWrite (now : ℚ)
    (tiers : Tiers (String → Option V) (String → Option V))
    (last : RegisterState V E) (hplain : ∀ call, (requests call).Plain)
    {before after : List (Label V E)} {write reader : ℕ} {result : Option V}
    (hread : ReadAfterWrite registers requests (State.initial now tiers) last
      before after write reader)
    (hmeet : StepsMeet (registers.step requests) (State.KeepsOrder requests)
      (State.initial now tiers) (before ++ .resume write :: after))
    (hgot : last.calls reader = .got result) :
    result = (requests write).written := by
  obtain ⟨⟨pending, resolved, hbefore, hreached, hquiet, hstep, hnew,
    hafter⟩, hreader, hnoWrite⟩ := hread
  have hpending : Coherent requests pending :=
    exec_invariant_of_stepsMeet
      (fun _ _ _ hcoherent horder hstep =>
        hcoherent.step hplain horder hstep)
      (initial_coherent requests now tiers) hmeet.append_left hbefore
  have horder := hmeet.head_of_append hbefore
  have hmeetAfter := (hmeet.append_right hbefore).2 resolved hstep
  have hsettled := settled_of_resume hpending.calls horder hreached hquiet
    hstep hnew
  have hlast : Coherent requests last ∧
      Settled requests write reader last :=
    exec_invariant_of_stepsMeet
      (I := fun state => Coherent requests state ∧
        Settled requests write reader state)
      (fun _ _ _ hinv hmeets hstep =>
        ⟨hinv.1.step hplain hmeets.1 hstep,
          hinv.2.step hinv.1 hreader hmeets.2
            (plainStep_of_step hinv.1.calls hstep)⟩)
      ⟨hpending.step hplain horder hstep, hsettled⟩
      (hmeetAfter.and_of_forall_mem (R := fun label => ∀ call,
        label = .call call → (requests call).key = (requests write).key →
          ¬ (requests call).IsWrite)
        fun label hmem call hlabel => hnoWrite call (hlabel ▸ hmem))
      hafter
  have hshows := hlast.2.reader
  rw [hgot] at hshows
  exact hshows

theorem keepsOrder_view {content₁ : S₁ → String → Option V}
    {content₂ : S₂ → String → Option V} {state : State S₁ S₂ V E}
    (horder : state.KeepsOrder requests label) :
    (state.view content₁ content₂).KeepsOrder requests label := by
  cases label with
  | perform call tier => cases tier <;> exact horder
  | _ => exact horder

/-- On tiers that keep their writes, in a run that keeps its order, a get that
starts after the last write has resolved returns what that write has
written. -/
theorem get_returns_last_write_of_keepsOrder
    (cache : MultiLevelCache S₁ S₂ V) (requests : ℕ → Request V)
    (hplain : ∀ call, (requests call).Plain)
    {content₁ : S₁ → String → Option V} {content₂ : S₂ → String → Option V}
    {ok₁ : S₁ → Prop} {ok₂ : S₂ → Prop}
    {keys : Set String} (hkeys : ∀ call, (requests call).key ∈ keys)
    (hkeeps₁ : KeepsWrites cache.l1 keys content₁ ok₁)
    (hkeeps₂ : KeepsWrites cache.l2 keys content₂ ok₂)
    (now : ℚ) (tiers : Tiers S₁ S₂) (hok : ok₁ tiers.l1 ∧ ok₂ tiers.l2)
    (before after : List (Label V E)) (write reader : ℕ)
    (last : State S₁ S₂ V E) (result : Option V)
    (hread : ReadAfterWrite cache requests (State.initial now tiers) last
      before after write reader)
    (hmeet : StepsMeet (cache.step requests) (State.KeepsOrder requests)
      (State.initial now tiers) (before ++ .resume write :: after))
    (hgot : last.calls reader = .got result) :
    result = (requests write).written := by
  have httl := fun call => (hplain call).ttl_eq_none
  obtain ⟨⟨pending, resolved, hbefore, hreached, hquiet, hstep, hnew,
    hafter⟩, hreader, hnoWrite⟩ := hread
  have hinit : (State.initial now tiers : State S₁ S₂ V E).TiersOk ok₁ ok₂ :=
    hok
  have hsimulates : ∀ (state : State S₁ S₂ V E) label next,
      state.TiersOk ok₁ ok₂ →
        cache.step requests state label = some next →
          registers.step requests (state.view content₁ content₂) label =
              some (next.view content₁ content₂) ∧
            next.TiersOk ok₁ ok₂ :=
    fun _ _ _ hok hstep => step_view hkeeps₁ hkeeps₂ hkeys httl hok hstep
  have hrun : exec (cache.step requests) (State.initial now tiers)
      (before ++ .resume write :: after) = some last :=
    exec_append_eq_some.mpr
      ⟨pending, hbefore, exec_cons_eq_some.mpr ⟨resolved, hstep, hafter⟩⟩
  obtain ⟨hbeforeView, hokPending⟩ := exec_simulates hsimulates hinit hbefore
  obtain ⟨hstepView, hokResolved⟩ := hsimulates _ _ _ hokPending hstep
  have hafterView := exec_view hkeeps₁ hkeeps₂ hkeys httl hokResolved hafter
  have hmeetView : StepsMeet (registers.step requests)
      (State.KeepsOrder requests)
      ((State.initial now tiers).view content₁ content₂)
      (before ++ .resume write :: after) :=
    hmeet.simulates hsimulates (fun _ _ horder => keepsOrder_view horder)
      hinit hrun
  refine registers_get_of_readAfterWrite now
    ⟨content₁ tiers.l1, content₂ tiers.l2⟩ (last.view content₁ content₂)
    hplain ⟨?_, hreader, hnoWrite⟩ hmeetView hgot
  exact ⟨pending.view content₁ content₂, resolved.view content₁ content₂,
    hbeforeView, hreached, hquiet, hstepView, hnew, hafterView⟩

/-- An evaluable condition that implies `KeepsOrder`. -/
def InOrder (requests : ℕ → Request V) (state : State S₁ S₂ V E) :
    Label V E → Prop
  | .resume call =>
      (state.calls call).Reached →
        state.reachedL1 (requests call).key = some call ∧
          state.reachedL2 (requests call).key = some call
  | .perform call .l1 => ¬ (state.calls call).Backfills
  | _ => True

instance (requests : ℕ → Request V) (state : State S₁ S₂ V E) :
    (label : Label V E) → Decidable (InOrder requests state label)
  | .resume call =>
      inferInstanceAs (Decidable ((state.calls call).Reached → _ ∧ _))
  | .perform call .l1 =>
      inferInstanceAs (Decidable (¬ (state.calls call).Backfills))
  | .perform _ .l2 => isTrue trivial
  | .tick _ => isTrue trivial
  | .call _ => isTrue trivial
  | .settle _ _ => isTrue trivial

theorem InOrder.keepsOrder {state : State S₁ S₂ V E}
    (hinOrder : InOrder requests state label) :
    state.KeepsOrder requests label := by
  cases label with
  | resume call => exact fun hreached _ => hinOrder hreached
  | perform call tier =>
      cases tier with
      | l1 =>
          intro reader value hcall
          exact absurd (by simp [hcall, Progress.Backfills]) hinOrder
      | l2 => trivial
  | _ => trivial

/-- A set, a get, another set and another get of one key. -/
def fourCalls : ℕ → Request ℕ
  | 0 => .set "user:1" 1 none
  | 1 => .get "user:1"
  | 2 => .set "user:1" 2 none
  | 3 => .get "user:1"
  | _ => .get "user:2"

theorem fourCalls_plain (call : ℕ) : (fourCalls call).Plain := by
  unfold fourCalls
  split <;> simp [Request.Plain]

/-- The value 1 is in L2 only. -/
def l1Invalidated : Tiers (InMemoryCache ℕ) (InMemoryCache ℕ) :=
  inMemory.invalidateL1
    (inMemory.set (emptyTiers none none) "user:1" 1 none 0) "user:1"

def usersOneAndTwo : Set String := {"user:1", "user:2"}

theorem fourCalls_key_mem (call : ℕ) :
    (fourCalls call).key ∈ usersOneAndTwo := by
  unfold fourCalls
  split <;> simp [usersOneAndTwo, Request.key]

theorem emptyTiers_roomFor :
    (emptyTiers none none : Tiers (InMemoryCache V) (InMemoryCache V)
      ).l1.RoomFor usersOneAndTwo := by
  constructor
  · rw [usersOneAndTwo, Set.encard_pair (by decide)]
    have hle : ((2 : ℕ) : ℕ∞) ≤ (1000 : ℕ) :=
      Nat.cast_le.mpr (by decide)
    exact hle
  · intro key entry hentry
    simp [emptyTiers, InMemoryCache.create] at hentry

/-- The run of a write among the four calls and of the last get, which starts
after the write. -/
theorem fourCalls_readAfterWrite
    {initial last : State (InMemoryCache ℕ) (InMemoryCache ℕ) ℕ String}
    (before after : List (Label ℕ String)) (write : ℕ)
    (hkey : (fourCalls write).key = "user:1")
    (hwrite : ((exec (inMemory.step fourCalls) initial before).map
      fun state => decide ((state.calls write).Reached ∧
        ∀ other < 4, other ≠ write → ¬ (state.calls other).Writing)) =
      some true)
    (hreader : ((exec (inMemory.step fourCalls) initial
      (before ++ [.resume write])).map fun state => state.calls 3) =
      some .notCalled)
    (hrun : exec (inMemory.step fourCalls) initial
      (before ++ .resume write :: after) = some last)
    (hafter : ∀ call, .call call ∈ after → call = 3) :
    ReadAfterWrite inMemory fourCalls initial last before after write 3 := by
  obtain ⟨pending, hbefore, hrest⟩ := exec_append_eq_some.mp hrun
  obtain ⟨resolved, hstep, hlast⟩ := exec_cons_eq_some.mp hrest
  rw [hbefore, Option.map_some, Option.some.injEq, decide_eq_true_eq]
    at hwrite
  have hresolved : exec (inMemory.step fourCalls) initial
      (before ++ [.resume write]) = some resolved :=
    exec_append_eq_some.mpr
      ⟨pending, hbefore, exec_singleton_eq_some.mpr hstep⟩
  rw [hresolved, Option.map_some, Option.some.injEq] at hreader
  refine ⟨⟨pending, resolved, hbefore, hwrite.1, ?_, hstep, hreader, hlast⟩,
    by rw [hkey, fourCalls], ?_⟩
  · intro other hne hsame
    rw [hkey] at hsame
    refine hwrite.2 other ?_ hne
    match other with
    | 0 | 1 | 2 | 3 => omega
    | _ + 4 => simp [fourCalls, Request.key] at hsame
  · intro call hcall _
    rw [hafter call hcall]
    simp [fourCalls, Request.IsWrite]

/-- A get after a set that has resolved. -/
theorem get_returns_last_write_of_keepsOrder_setThenGet :
    ∃ last : State (InMemoryCache ℕ) (InMemoryCache ℕ) ℕ String,
      exec (inMemory.step fourCalls)
        (State.initial 0 (emptyTiers none none))
        [.call 0, .perform 0 .l1, .perform 0 .l2, .resume 0, .call 3,
          .perform 3 .l1, .resume 3] = some last ∧
      last.calls 3 = .got (fourCalls 0).written := by
  have hsome : ((exec (inMemory.step fourCalls)
      (State.initial 0 (emptyTiers none none))
      [.call 0, .perform 0 .l1, .perform 0 .l2, .resume 0, .call 3,
        .perform 3 .l1, .resume 3]).map fun state => state.calls 3) =
      some (.got (some 1) : Progress ℕ String) := by
    decide +kernel
  obtain ⟨last, hrun, hgot⟩ := Option.map_eq_some_iff.mp hsome
  have hread := fourCalls_readAfterWrite
    [.call 0, .perform 0 .l1, .perform 0 .l2]
    [.call 3, .perform 3 .l1, .resume 3] 0 rfl (by decide +kernel)
    (by decide +kernel) hrun (by simp)
  have hmeet : StepsMeet (inMemory.step fourCalls) (InOrder fourCalls)
      (State.initial 0 (emptyTiers none none))
      ([.call 0, .perform 0 .l1, .perform 0 .l2] ++ .resume 0 ::
        [.call 3, .perform 3 .l1, .resume 3] : List (Label ℕ String)) := by
    decide +kernel
  have hresult := get_returns_last_write_of_keepsOrder inMemory fourCalls
    fourCalls_plain fourCalls_key_mem
    (InMemoryCache.port_keepsWrites usersOneAndTwo)
    (InMemoryCache.port_keepsWrites usersOneAndTwo) 0 _
    ⟨emptyTiers_roomFor, emptyTiers_roomFor⟩ _ _ 0 3 last _ hread
    (hmeet.mono fun _ _ hinOrder => InOrder.keepsOrder hinOrder) hgot
  exact ⟨last, hrun, hresult ▸ hgot⟩

/-- The get 1 finds 1 in L2 and copies it into L1 after the set 2 has
reached both tiers. -/
def staleBackfill : List (Label ℕ String) :=
  [.call 1, .perform 1 .l1, .resume 1, .perform 1 .l2, .call 2,
    .perform 2 .l1, .perform 2 .l2, .resume 1, .perform 1 .l1, .resume 1]

/-- The sets 0 and 2 reach the tiers in different orders. -/
def crossedSets : List (Label ℕ String) :=
  [.call 0, .call 2, .perform 0 .l1, .perform 2 .l1, .perform 2 .l2,
    .perform 0 .l2, .resume 2]

def getAgain : List (Label ℕ String) :=
  [.call 3, .perform 3 .l1, .resume 3]

/-- After a stale back-fill a get returns 1 though the last write wrote 2, and
after crossed sets it returns 2 though the last write to resolve wrote 1. -/
theorem get_misses_last_write :
    (∃ last : State (InMemoryCache ℕ) (InMemoryCache ℕ) ℕ String,
      ReadAfterWrite inMemory fourCalls (State.initial 0 l1Invalidated) last
        staleBackfill getAgain 2 3 ∧
      last.calls 3 = .got (some 1) ∧ (fourCalls 2).written = some 2) ∧
    (∃ last : State (InMemoryCache ℕ) (InMemoryCache ℕ) ℕ String,
      ReadAfterWrite inMemory fourCalls
        (State.initial 0 (emptyTiers none none)) last
        crossedSets getAgain 0 3 ∧
      last.calls 3 = .got (some 2) ∧ (fourCalls 0).written = some 1) := by
  constructor
  · have hsome : ((exec (inMemory.step fourCalls)
        (State.initial 0 l1Invalidated)
        (staleBackfill ++ .resume 2 :: getAgain)).map
          fun state => state.calls 3) = some (.got (some 1)) := by
      decide +kernel
    obtain ⟨last, hrun, hgot⟩ := Option.map_eq_some_iff.mp hsome
    exact ⟨last, fourCalls_readAfterWrite _ _ _ rfl (by decide +kernel)
      (by decide +kernel) hrun (by simp [getAgain]), hgot, rfl⟩
  · have hsome : ((exec (inMemory.step fourCalls)
        (State.initial 0 (emptyTiers none none))
        (crossedSets ++ .resume 0 :: getAgain)).map
          fun state => state.calls 3) = some (.got (some 2)) := by
      decide +kernel
    obtain ⟨last, hrun, hgot⟩ := Option.map_eq_some_iff.mp hsome
    exact ⟨last, fourCalls_readAfterWrite _ _ _ rfl (by decide +kernel)
      (by decide +kernel) hrun (by simp [getAgain]), hgot, rfl⟩

end MultiLevelCache

end TsCommons.Cache
