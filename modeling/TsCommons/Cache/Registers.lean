import TsCommons.Cache.MultiLevelCache

/-!
# Two tiers of registers

A register holds the last value written and knows neither lifetimes nor
evictions.  Two tiers that keep their writes run the calls of a two-tier cache
in step with two tiers of registers, so that every run of the cache is a run
of the registers with the same calls.
-/

namespace TsCommons.Cache

open Foundations

variable {S₁ S₂ V E : Type}

def registerPort : CachePort (String → Option V) V where
  get := fun registers key _ => (registers key, registers)
  set := fun registers key value _ _ =>
    Function.update registers key (some value)
  delete := fun registers key => Function.update registers key none
  has := fun registers key _ => ((registers key).isSome, registers)

abbrev RegisterState (V E : Type) :=
  State (String → Option V) (String → Option V) V E

/-- The state with the contents of the tiers in place of the tiers. -/
def State.view (content₁ : S₁ → String → Option V)
    (content₂ : S₂ → String → Option V) (state : State S₁ S₂ V E) :
    RegisterState V E :=
  { state with l1 := content₁ state.l1, l2 := content₂ state.l2 }

def State.TiersOk (ok₁ : S₁ → Prop) (ok₂ : S₂ → Prop)
    (state : State S₁ S₂ V E) : Prop :=
  ok₁ state.l1 ∧ ok₂ state.l2

namespace MultiLevelCache

def registers :
    MultiLevelCache (String → Option V) (String → Option V) V :=
  ⟨registerPort, registerPort⟩

section Simulation

variable {cache : MultiLevelCache S₁ S₂ V} {requests : ℕ → Request V}
  {state next : State S₁ S₂ V E} {request : Request V} {call : ℕ}
  {content₁ : S₁ → String → Option V} {content₂ : S₂ → String → Option V}
  {keys : Set String} {ok₁ : S₁ → Prop} {ok₂ : S₂ → Prop}

theorem performL1_view (content₂ : S₂ → String → Option V)
    (hkeeps : KeepsWrites cache.l1 keys content₁ ok₁)
    (hkey : request.key ∈ keys) (httl : request.ttl = none)
    (hok : ok₁ state.l1)
    (hstep : cache.performL1 request state call = some next) :
    registers.performL1 request (state.view content₁ content₂) call =
        some (next.view content₁ content₂) ∧
      ok₁ next.l1 ∧ next.l2 = state.l2 := by
  rcases performL1_cases hstep with ⟨_, hcall, rfl⟩ | ⟨_, _, hcall, rfl⟩ |
    ⟨_, _, hcall, rfl⟩ | ⟨_, hcall, rfl⟩
  · refine ⟨?_, hkeeps.get_ok _ _ hkey _ hok, rfl⟩
    simp [performL1, State.view, State.advance, registers, registerPort,
      hcall, hkeeps.get_answer _ _ hkey _ hok,
      hkeeps.get_content _ _ hkey _ hok]
  · refine ⟨?_, hkeeps.set_ok _ _ hkey _ _ hok, rfl⟩
    simp [performL1, State.view, State.advance, registers, registerPort,
      hcall, hkeeps.set_content _ _ hkey _ _ hok]
  · rw [httl]
    refine ⟨?_, hkeeps.set_ok _ _ hkey _ _ hok, rfl⟩
    simp [performL1, State.view, State.advance, registers, registerPort,
      hcall, hkeeps.set_content _ _ hkey _ _ hok]
  · refine ⟨?_, hkeeps.delete_ok _ _ hkey hok, rfl⟩
    simp [performL1, State.view, State.advance, registers, registerPort,
      hcall, hkeeps.delete_content _ _ hkey hok]

theorem performL2_view (content₁ : S₁ → String → Option V)
    (hkeeps : KeepsWrites cache.l2 keys content₂ ok₂)
    (hkey : request.key ∈ keys) (httl : request.ttl = none)
    (hok : ok₂ state.l2)
    (hstep : cache.performL2 request state call = some next) :
    registers.performL2 request (state.view content₁ content₂) call =
        some (next.view content₁ content₂) ∧
      next.l1 = state.l1 ∧ ok₂ next.l2 := by
  rcases performL2_cases hstep with ⟨_, hcall, rfl⟩ | ⟨_, _, hcall, rfl⟩ |
    ⟨_, hcall, rfl⟩
  · refine ⟨?_, rfl, hkeeps.get_ok _ _ hkey _ hok⟩
    simp [performL2, State.view, State.advance, registers, registerPort,
      hcall, hkeeps.get_answer _ _ hkey _ hok,
      hkeeps.get_content _ _ hkey _ hok]
  · rw [httl]
    refine ⟨?_, rfl, hkeeps.set_ok _ _ hkey _ _ hok⟩
    simp [performL2, State.view, State.advance, registers, registerPort,
      hcall, hkeeps.set_content _ _ hkey _ _ hok]
  · refine ⟨?_, rfl, hkeeps.delete_ok _ _ hkey hok⟩
    simp [performL2, State.view, State.advance, registers, registerPort,
      hcall, hkeeps.delete_content _ _ hkey hok]

theorem finishRead_view (content₁ : S₁ → String → Option V)
    (content₂ : S₂ → String → Option V) (state : State S₁ S₂ V E)
    (call : ℕ) (key : String) (reader : Reader) (result : Option V) :
    (state.view content₁ content₂).finishRead call key reader result =
        (state.finishRead call key reader result).view content₁ content₂ ∧
      (state.finishRead call key reader result).l1 = state.l1 ∧
      (state.finishRead call key reader result).l2 = state.l2 := by
  cases reader with
  | get => exact ⟨rfl, rfl, rfl⟩
  | getOrCompute =>
      cases result with
      | some value => exact ⟨rfl, rfl, rfl⟩
      | none =>
          cases hlock : state.inflight.get key <;>
            simp [State.finishRead, State.computeWithLock, State.view,
              State.runComputation, State.advance, hlock]
  | getAfterLock => cases result <;> exact ⟨rfl, rfl, rfl⟩

theorem resume_view
    (hstep : resume request state call = some next) :
    resume request (state.view content₁ content₂) call =
        some (next.view content₁ content₂) ∧
      next.l1 = state.l1 ∧ next.l2 = state.l2 := by
  have hcalls : (state.view content₁ content₂).calls = state.calls := rfl
  rcases resume_cases hstep with ⟨_, hcall, rfl⟩ | ⟨_, _, hcall, rfl⟩ |
    ⟨reader, stage, result, hcall, hresult, rfl⟩ |
    ⟨_, hcall, hresolved, rfl⟩ | ⟨_, hcall, rfl⟩ | ⟨_, hcall, rfl⟩ |
    ⟨_, key, ttl, hcall, rfl, rfl⟩ | ⟨hcall, rfl⟩
  · exact ⟨by simp only [resume, hcalls, hcall]; rfl, rfl, rfl⟩
  · exact ⟨by simp only [resume, hcalls, hcall]; rfl, rfl, rfl⟩
  · obtain ⟨hview, hl1, hl2⟩ := finishRead_view content₁ content₂
      state call request.key reader result
    refine ⟨?_, hl1, hl2⟩
    rw [← hview]
    exact resume_of_result hcall hresult
  · refine ⟨?_, rfl, rfl⟩
    simp only [resume, hcalls, hcall]
    exact if_pos hresolved
  · exact ⟨by simp only [resume, hcalls, hcall]; rfl, rfl, rfl⟩
  · exact ⟨by simp only [resume, hcalls, hcall]; rfl, rfl, rfl⟩
  · exact ⟨by simp only [resume, hcalls, hcall]; rfl, rfl, rfl⟩
  · rcases hcall with ⟨value, hcall, hrequest⟩ | hcall
    · refine ⟨?_, rfl, rfl⟩
      cases request with
      | getOrCompute key ttl => exact absurd rfl (hrequest key ttl)
      | _ =>
          simp only [resume, hcalls, hcall]
          rfl
    · exact ⟨by simp only [resume, hcalls, hcall]; rfl, rfl, rfl⟩

/-- One step of the cache is the same step of the registers. -/
theorem step_view {label : Label V E}
    (hkeeps₁ : KeepsWrites cache.l1 keys content₁ ok₁)
    (hkeeps₂ : KeepsWrites cache.l2 keys content₂ ok₂)
    (hkeys : ∀ call, (requests call).key ∈ keys)
    (httl : ∀ call, (requests call).ttl = none)
    (hok : state.TiersOk ok₁ ok₂)
    (hstep : cache.step requests state label = some next) :
    registers.step requests (state.view content₁ content₂) label =
        some (next.view content₁ content₂) ∧
      next.TiersOk ok₁ ok₂ := by
  cases label with
  | tick now =>
      obtain ⟨hle, rfl⟩ := step_tick.mp hstep
      exact ⟨step_tick.mpr ⟨hle, rfl⟩, hok⟩
  | call call =>
      obtain ⟨hcall, rfl⟩ := step_call.mp hstep
      exact ⟨step_call.mpr ⟨hcall, rfl⟩, hok⟩
  | perform call tier =>
      cases tier with
      | l1 =>
          obtain ⟨hview, hl1, hl2⟩ := performL1_view content₂ hkeeps₁
            (hkeys call) (httl call) hok.1 hstep
          exact ⟨hview, hl1, hl2 ▸ hok.2⟩
      | l2 =>
          obtain ⟨hview, hl1, hl2⟩ := performL2_view content₁ hkeeps₂
            (hkeys call) (httl call) hok.2 hstep
          exact ⟨hview, hl1 ▸ hok.1, hl2⟩
  | settle call outcome =>
      obtain ⟨hcall, rfl⟩ := step_settle.mp hstep
      exact ⟨step_settle.mpr ⟨hcall, rfl⟩, hok⟩
  | resume call =>
      obtain ⟨hview, hl1, hl2⟩ := resume_view hstep
      exact ⟨hview, hl1 ▸ hok.1, hl2 ▸ hok.2⟩

/-- A run of the cache is a run of the registers. -/
theorem exec_view {labels : List (Label V E)}
    (hkeeps₁ : KeepsWrites cache.l1 keys content₁ ok₁)
    (hkeeps₂ : KeepsWrites cache.l2 keys content₂ ok₂)
    (hkeys : ∀ call, (requests call).key ∈ keys)
    (httl : ∀ call, (requests call).ttl = none)
    (hok : state.TiersOk ok₁ ok₂)
    (hrun : exec (cache.step requests) state labels = some next) :
    exec (registers.step requests) (state.view content₁ content₂) labels =
      some (next.view content₁ content₂) :=
  (exec_simulates
    (fun _ _ _ hok hstep => step_view hkeeps₁ hkeeps₂ hkeys httl hok hstep)
    hok hrun).1

end Simulation

end MultiLevelCache

end TsCommons.Cache
