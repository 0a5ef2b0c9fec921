import TsCommons.Cache.MultiLevelCache

/-!
# Calls that run alone

The sequential operations of the two-tier cache are what the interleaved
system does when one call runs to its end before the next one starts.
-/

namespace TsCommons.Cache

open Foundations

variable {S₁ S₂ V E : Type}

namespace MultiLevelCache

variable {cache : MultiLevelCache S₁ S₂ V} {requests : ℕ → Request V}
  {state : State S₁ S₂ V E} {call : ℕ}

/-- Some run of steps of this call alone (and of the clock) leaves the tiers
and the call as given. -/
def RunsAlone (cache : MultiLevelCache S₁ S₂ V) (requests : ℕ → Request V)
    (state : State S₁ S₂ V E) (call : ℕ) (tiers : Tiers S₁ S₂)
    (progress : Progress V E) : Prop :=
  ∃ labels last, exec (cache.step requests) state labels = some last ∧
    last.l1 = tiers.l1 ∧ last.l2 = tiers.l2 ∧ last.calls call = progress

theorem set_runsAlone {key : String} {value : V} {ttl : Option Duration}
    (hrequest : requests call = .set key value ttl)
    (hcall : state.calls call = .notCalled) :
    RunsAlone cache requests state call
      (cache.set ⟨state.l1, state.l2⟩ key value ttl state.clock) .done := by
  refine ⟨[.call call, .perform call .l1, .perform call .l2, .resume call],
    ?_⟩
  simp [exec, step, performL1, performL2, resume, State.advance, hrequest,
    hcall, Request.start, Request.key, Request.ttl, MultiLevelCache.set]

theorem delete_runsAlone {key : String}
    (hrequest : requests call = .delete key)
    (hcall : state.calls call = .notCalled) :
    RunsAlone cache requests state call
      (cache.delete ⟨state.l1, state.l2⟩ key) .done := by
  refine ⟨[.call call, .perform call .l1, .perform call .l2, .resume call],
    ?_⟩
  simp [exec, step, performL1, performL2, resume, State.advance, hrequest,
    hcall, Request.start, Request.key, MultiLevelCache.delete]

theorem finishRead_advance (state : State S₁ S₂ V E) (call : ℕ)
    (progress : Progress V E) (key : String) (reader : Reader)
    (result : Option V) :
    (state.advance call progress).finishRead call key reader result =
      state.finishRead call key reader result := by
  cases reader <;> cases result <;>
    simp [State.finishRead, State.advance, State.runComputation,
      State.computeWithLock]

/-- A read that runs alone reads, and fills, the tiers as `get` does. -/
theorem read_alone (cache : MultiLevelCache S₁ S₂ V)
    (requests : ℕ → Request V) (state : State S₁ S₂ V E) {reader : Reader}
    (hcall : state.calls call = .reading reader .l1Asked) :
    let result := cache.get ⟨state.l1, state.l2⟩ (requests call).key
      state.clock
    ∃ labels, exec (cache.step requests) state labels =
      some (({ state with l1 := result.2.l1, l2 := result.2.l2 }
        ).finishRead call (requests call).key reader result.1) := by
  have hfinish : ∀ (last : State S₁ S₂ V E) stage result,
      stage.result = some result →
      cache.step requests (last.advance call (.reading reader stage))
          (.resume call) =
        some (last.finishRead call (requests call).key reader result) := by
    intro last stage result hresult
    rw [← finishRead_advance last call (.reading reader stage)]
    exact resume_of_result (Function.update_self ..) hresult
  cases hl1 : (cache.l1.get state.l1 (requests call).key state.clock).1 with
  | some value =>
      refine ⟨[.perform call .l1, .resume call], ?_⟩
      have hstep := hfinish { state with l1 := (cache.l1.get state.l1
        (requests call).key state.clock).2 } (.l1Answered (some value)) _ rfl
      simpa [exec, step, performL1, State.advance, hcall, hl1,
        MultiLevelCache.get] using hstep
  | none =>
      cases hl2 : (cache.l2.get state.l2 (requests call).key
          state.clock).1 with
      | none =>
          refine ⟨[.perform call .l1, .resume call, .perform call .l2,
            .resume call], ?_⟩
          have hstep := hfinish { state with
            l1 := (cache.l1.get state.l1 (requests call).key state.clock).2
            l2 := (cache.l2.get state.l2 (requests call).key state.clock).2 }
            (.l2Answered none) _ rfl
          simpa [exec, step, performL1, performL2, resume, State.advance,
            hcall, hl1, hl2, MultiLevelCache.get, fetchFromL2] using hstep
      | some value =>
          refine ⟨[.perform call .l1, .resume call, .perform call .l2,
            .resume call, .perform call .l1, .resume call], ?_⟩
          have hstep := hfinish { state with
            l1 := cache.l1.set (cache.l1.get state.l1 (requests call).key
              state.clock).2 (requests call).key value none state.clock
            l2 := (cache.l2.get state.l2 (requests call).key state.clock).2 }
            (.backfilled value) _ rfl
          simpa [exec, step, performL1, performL2, resume, State.advance,
            hcall, hl1, hl2, MultiLevelCache.get, fetchFromL2] using hstep

theorem RunsAlone.of_exec {middle : State S₁ S₂ V E}
    {labels : List (Label V E)} {tiers : Tiers S₁ S₂}
    {progress : Progress V E}
    (hrun : exec (cache.step requests) state labels = some middle)
    (halone : RunsAlone cache requests middle call tiers progress) :
    RunsAlone cache requests state call tiers progress := by
  obtain ⟨rest, last, hrest, hlast⟩ := halone
  exact ⟨labels ++ rest, last,
    exec_append_eq_some.mpr ⟨middle, hrun, hrest⟩, hlast⟩

/-- A reading call that runs alone from its first step. -/
theorem exec_start_read (cache : MultiLevelCache S₁ S₂ V)
    (requests : ℕ → Request V) (reader : Reader)
    (hstart : (requests call).start = (.reading reader .l1Asked :
      Progress V E)) (hcall : state.calls call = .notCalled) :
    let result := cache.get ⟨state.l1, state.l2⟩ (requests call).key
      state.clock
    ∃ labels, exec (cache.step requests) state labels =
      some (({ state with l1 := result.2.l1, l2 := result.2.l2 }
        ).finishRead call (requests call).key reader result.1) := by
  intro result
  have hstep : cache.step requests state (.call call) =
      some (state.advance call (.reading reader .l1Asked)) := by
    rw [step_call, hstart]
    exact ⟨hcall, rfl⟩
  obtain ⟨labels, hread⟩ := read_alone cache requests
    (state.advance call (.reading reader .l1Asked))
    (Function.update_self ..)
  refine ⟨.call call :: labels, exec_cons_eq_some.mpr ⟨_, hstep, ?_⟩⟩
  rw [hread, ← finishRead_advance { state with
    l1 := result.2.l1, l2 := result.2.l2 } call (.reading reader .l1Asked)]
  rfl

theorem get_runsAlone {key : String} (hrequest : requests call = .get key)
    (hcall : state.calls call = .notCalled) :
    RunsAlone cache requests state call
      (cache.get ⟨state.l1, state.l2⟩ key state.clock).2
      (.got (cache.get ⟨state.l1, state.l2⟩ key state.clock).1) := by
  obtain ⟨labels, hread⟩ := exec_start_read cache requests .get
    (by rw [hrequest]; rfl) hcall
  rw [hrequest, Request.key] at hread
  exact ⟨labels, _, hread, rfl, rfl, Function.update_self ..⟩

theorem computation_runsAlone {key : String} {ttl : Option Duration}
    {settledAt : ℚ} (outcome : Except E V)
    (hrequest : requests call = .getOrCompute key ttl)
    (hcall : state.calls call = .computing)
    (hsettled : state.clock ≤ settledAt) :
    RunsAlone cache requests state call
      (match outcome with
        | .ok value =>
            cache.set ⟨state.l1, state.l2⟩ key value ttl settledAt
        | .error _ => ⟨state.l1, state.l2⟩)
      (match outcome with
        | .ok value => .returned value
        | .error error => .threw error) := by
  cases outcome with
  | ok value =>
      refine ⟨[.tick settledAt, .settle call (.ok value), .resume call,
        .perform call .l1, .perform call .l2, .resume call], ?_⟩
      simp [exec, step, resume, performL1, performL2, State.advance,
        hrequest, hcall, hsettled, Request.key, Request.ttl, State.unlock,
        MultiLevelCache.set]
  | error error =>
      refine ⟨[.tick settledAt, .settle call (.error error), .resume call],
        ?_⟩
      simp [exec, step, resume, State.advance, hcall, hsettled,
        State.unlock]

/-- With no computation of its key in flight, a `getOrCompute` that runs alone
finds the value or computes it. -/
theorem getOrCompute_runsAlone {key : String} {ttl : Option Duration}
    {settledAt : ℚ} (outcome : Except E V)
    (hrequest : requests call = .getOrCompute key ttl)
    (hcall : state.calls call = .notCalled)
    (hfree : state.inflight.get key = none)
    (hsettled : state.clock ≤ settledAt) :
    let result := cache.getOrCompute ⟨state.l1, state.l2⟩ key outcome ttl
      state.clock settledAt
    RunsAlone cache requests state call result.2
      (match result.1 with
        | .ok value => .returned value
        | .error error => .threw error) := by
  obtain ⟨labels, hread⟩ := exec_start_read cache requests .getOrCompute
    (by rw [hrequest]; rfl) hcall
  rw [hrequest, Request.key] at hread
  simp only [getOrCompute]
  cases hresult : (cache.get ⟨state.l1, state.l2⟩ key state.clock).1 with
  | some value =>
      rw [hresult] at hread
      exact ⟨labels, _, hread, rfl, rfl, Function.update_self ..⟩
  | none =>
      rw [hresult] at hread
      simp only [State.finishRead, State.computeWithLock, hfree] at hread
      have halone := RunsAlone.of_exec hread
        (computation_runsAlone outcome hrequest (Function.update_self ..)
          hsettled)
      cases outcome <;> exact halone

end MultiLevelCache

end TsCommons.Cache
