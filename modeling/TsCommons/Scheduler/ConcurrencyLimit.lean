import TsCommons.Scheduler.InMemoryScheduler

/-!
# The concurrency limit

A limiter counts the executions that have captured it.  A registration gets a
limiter of its own, so the executions that an earlier registration of the same
job has left in flight are not counted against it.
-/

namespace TsCommons.Scheduler

open Foundations

variable {M : Type} {state next : State M}

/-- The executions of a job among these. -/
def executionsOf (runs : List (Run M)) (jobId : String) : ℕ :=
  runs.countP fun run => run.base.jobId = jobId

/-- The executions of a job among these that have captured this limiter. -/
def heldBy (runs : List (Run M)) (limiter : ℕ) (jobId : String) : ℕ :=
  runs.countP fun run => run.limiter = some limiter ∧ run.base.jobId = jobId

/-- A registered job has no more executions in flight than its registration
allows. -/
def LimitLaw (state : State M) : Prop :=
  ∀ jobId reg, state.registry.get jobId = some reg →
    (executionsOf state.inFlight jobId : ℕ∞) ≤ reg.concurrencyLimit

/-- A job that is registered with a finite limit has no execution in flight. -/
def RegistersIdle (state : State M) : Label M → Prop
  | .register registration =>
      state.registry.get registration.jobId = none →
        registration.concurrencyLimit = ⊤ ∨
          executionsOf state.inFlight registration.jobId = 0
  | _ => True

instance (state : State M) : DecidablePred (RegistersIdle state)
  | .register _ => inferInstanceAs (Decidable (_ → _ ∨ _))
  | .unregister _ => inferInstanceAs (Decidable True)
  | .trigger _ _ _ _ => inferInstanceAs (Decidable True)
  | .jobSettles _ _ => inferInstanceAs (Decidable True)
  | .delaySettles _ _ => inferInstanceAs (Decidable True)
  | .finalize _ _ => inferInstanceAs (Decidable True)
  | .clear => inferInstanceAs (Decidable True)
  | .idTaken => inferInstanceAs (Decidable True)

/-! ## What limiters count -/

/-- Every limiter counts the executions that have captured it, and lets no
more of them through than it allows. -/
structure LimiterInvariant (state : State M) : Prop where
  captured : ∀ run ∈ state.inFlight, ∀ limiter, run.limiter = some limiter →
    limiter < state.allocated
  counts : ∀ limiter jobId, (state.objects limiter).getCount jobId =
    heldBy state.inFlight limiter jobId
  allowed : ∀ limiter jobId, (heldBy state.inFlight limiter jobId : ℕ∞) ≤
    (state.objects limiter).maxConcurrency
  registered : ∀ jobId reg, state.registry.get jobId = some reg →
    reg.jobId = jobId ∧
      ∃ limiter, state.limiters.get jobId = some limiter ∧
        limiter < state.allocated ∧
        (state.objects limiter).maxConcurrency = reg.concurrencyLimit

/-- The executions of a registered job have captured its limiter. -/
def CapturesCurrent (state : State M) : Prop :=
  ∀ jobId reg, state.registry.get jobId = some reg →
    reg.concurrencyLimit = ⊤ ∨
      ∀ run ∈ state.inFlight, run.base.jobId = jobId →
        run.limiter = state.limiters.get jobId

theorem limiterInvariant_initial (idCounter : ℕ) :
    LimiterInvariant (State.initial idCounter : State M) := by
  constructor <;>
    simp [State.initial, heldBy, ConcurrencyLimiter.new,
      ConcurrencyLimiter.getCount]

theorem capturesCurrent_initial (idCounter : ℕ) :
    CapturesCurrent (State.initial idCounter : State M) := by
  intro jobId reg hreg
  cases hreg

/-- The call that is resumed or finishes is one of those in flight. -/
theorem perm_of_findRun {executionId : ExecutionId} {run : Run M}
    (hfind : state.findRun executionId = some run) :
    state.inFlight.Perm (run :: (state.leave executionId).inFlight) :=
  perm_eraseP_of_find hfind

theorem heldBy_cons (run : Run M) (runs : List (Run M)) (limiter : ℕ)
    (jobId : String) :
    heldBy (run :: runs) limiter jobId = heldBy runs limiter jobId +
      if run.limiter = some limiter ∧ run.base.jobId = jobId then 1
      else 0 := by
  simp [heldBy, List.countP_cons]

theorem executionsOf_cons (run : Run M) (runs : List (Run M))
    (jobId : String) :
    executionsOf (run :: runs) jobId = executionsOf runs jobId +
      if run.base.jobId = jobId then 1 else 0 := by
  simp [executionsOf, List.countP_cons]

namespace LimiterInvariant

/-- An operation that leaves executions and limiter objects alone. -/
theorem of_registry (hinv : LimiterInvariant state)
    {registry : JobRegistry} {limiters : InsertionMap String ℕ}
    (hkept : ∀ jobId reg, registry.get jobId = some reg →
      state.registry.get jobId = some reg ∧
        limiters.get jobId = state.limiters.get jobId) :
    LimiterInvariant { state with registry, limiters } := by
  refine ⟨hinv.captured, hinv.counts, hinv.allowed, fun jobId reg hreg => ?_⟩
  obtain ⟨hold, hlimiter⟩ := hkept jobId reg hreg
  rw [hlimiter]
  exact hinv.registered jobId reg hold

theorem register (hinv : LimiterInvariant state)
    (registration : JobRegistration) :
    LimiterInvariant ({ state with
      registry := state.registry.set registration.jobId
        registration }.setLimiter registration.jobId
          registration.concurrencyLimit) := by
  have hnone : ∀ jobId, heldBy state.inFlight state.allocated jobId = 0 := by
    intro jobId
    apply List.countP_eq_zero.mpr
    intro run hrun hheld
    simp only [decide_eq_true_eq] at hheld
    exact lt_irrefl _ (hinv.captured run hrun _ hheld.1)
  constructor
  · intro run hrun limiter hlimiter
    exact Nat.lt_succ_of_lt (hinv.captured run hrun limiter hlimiter)
  · intro limiter jobId
    simp only [State.setLimiter]
    by_cases hnew : limiter = state.allocated
    · subst limiter
      rw [hnone, Function.update_self]
      rfl
    · rw [Function.update_of_ne hnew]
      exact hinv.counts limiter jobId
  · intro limiter jobId
    simp only [State.setLimiter]
    by_cases hnew : limiter = state.allocated
    · subst limiter
      rw [hnone]
      exact bot_le
    · rw [Function.update_of_ne hnew]
      exact hinv.allowed limiter jobId
  · intro jobId reg hreg
    simp only [State.setLimiter] at hreg ⊢
    by_cases hjob : jobId = registration.jobId
    · subst jobId
      rw [InsertionMap.get_set_self, Option.some.injEq] at hreg
      subst reg
      refine ⟨rfl, state.allocated, ?_, Nat.lt_succ_self _, ?_⟩
      · rw [InsertionMap.get_set_self]
      · rw [Function.update_self]
        rfl
    · rw [InsertionMap.get_set_of_ne _ _ hjob] at hreg
      obtain ⟨hjobId, limiter, hget, hlt, hlimit⟩ :=
        hinv.registered jobId reg hreg
      refine ⟨hjobId, limiter, ?_, Nat.lt_succ_of_lt hlt, ?_⟩
      · rw [InsertionMap.get_set_of_ne _ _ hjob]
        exact hget
      · rw [Function.update_of_ne hlt.ne]
        exact hlimit

/-- An execution that goes on keeps its job and its limiter. -/
theorem resume (hinv : LimiterInvariant state) {executionId : ExecutionId}
    {run resumed : Run M} (hfind : state.findRun executionId = some run)
    (hbase : resumed.base = run.base)
    (hlimiter : resumed.limiter = run.limiter) :
    LimiterInvariant ((state.leave executionId).await resumed) := by
  have hperm := perm_of_findRun hfind
  have hheld : ∀ limiter jobId,
      heldBy (resumed :: (state.leave executionId).inFlight) limiter jobId =
        heldBy state.inFlight limiter jobId := by
    intro limiter jobId
    have hsame : heldBy state.inFlight limiter jobId =
        heldBy (run :: (state.leave executionId).inFlight) limiter jobId :=
      hperm.countP_eq _
    rw [hsame, heldBy_cons, heldBy_cons, hbase, hlimiter]
  constructor
  · intro other hother limiter hcaptured
    rcases List.mem_cons.mp hother with rfl | hold
    · exact hinv.captured run (hperm.mem_iff.mpr List.mem_cons_self) limiter
        (hlimiter ▸ hcaptured)
    · exact hinv.captured other (List.mem_of_mem_eraseP hold) limiter
        hcaptured
  · intro limiter jobId
    exact (hinv.counts limiter jobId).trans (hheld limiter jobId).symm
  · intro limiter jobId
    have hallowed := hinv.allowed limiter jobId
    rw [← hheld] at hallowed
    exact hallowed
  · exact hinv.registered

/-- An execution that completes gives its slot back. -/
theorem finalize (hinv : LimiterInvariant state) {executionId : ExecutionId}
    {run : Run M} (hfind : state.findRun executionId = some run)
    (outcome : Outcome) (reason : Option String) (now : ℚ) :
    LimiterInvariant ((state.leave executionId).finalize run.base outcome
      reason run.limiter now) := by
  have hperm := perm_of_findRun hfind
  have hheld : ∀ limiter jobId, heldBy state.inFlight limiter jobId =
      heldBy (state.leave executionId).inFlight limiter jobId +
        if run.limiter = some limiter ∧ run.base.jobId = jobId then 1
        else 0 := by
    intro limiter jobId
    rw [← heldBy_cons]
    exact hperm.countP_eq _
  have hmax : ∀ limiter, (((state.leave executionId).finalize run.base outcome
      reason run.limiter now).objects limiter).maxConcurrency =
        (state.objects limiter).maxConcurrency := by
    intro limiter
    exact maxConcurrency_updateLimiter _ _ _
      (fun _ => ConcurrencyLimiter.maxConcurrency_release _ _) limiter
  have hinFlight : ((state.leave executionId).finalize run.base outcome
      reason run.limiter now).inFlight =
        (state.leave executionId).inFlight := by
    simp [State.finalize]
  constructor
  · intro other hother limiter hcaptured
    rw [hinFlight] at hother
    simp only [State.finalize, allocated_updateLimiter]
    exact hinv.captured other (List.mem_of_mem_eraseP hother) limiter
      hcaptured
  · intro limiter jobId
    have hcounts := hinv.counts limiter jobId
    rw [hheld] at hcounts
    rw [hinFlight]
    cases hlimiter : run.limiter with
    | none =>
        simp only [hlimiter, reduceCtorEq, false_and, if_false] at hcounts
        exact hcounts
    | some reference =>
        simp only [State.finalize, State.updateLimiter]
        by_cases hsame : limiter = reference
        · subst limiter
          simp only [hlimiter, true_and] at hcounts
          rw [Function.update_self, ConcurrencyLimiter.getCount_release]
          simp only [State.leave] at hcounts ⊢
          rw [hcounts]
          by_cases hjob : jobId = run.base.jobId
          · simp [hjob]
          · simp [hjob, Ne.symm hjob]
        · have hother : ¬ some reference = some limiter := by
            simpa [eq_comm] using hsame
          simp only [hlimiter, hother, false_and, if_false] at hcounts
          rw [Function.update_of_ne hsame]
          exact hcounts
  · intro limiter jobId
    rw [hmax, hinFlight]
    apply le_trans _ (hinv.allowed limiter jobId)
    rw [hheld]
    exact_mod_cast Nat.le_add_right _ _
  · intro jobId reg hreg
    simp only [State.finalize, registry_updateLimiter] at hreg
    obtain ⟨hjobId, limiter, hget, hlt, hlimit⟩ :=
      hinv.registered jobId reg hreg
    refine ⟨hjobId, limiter, ?_, ?_, (hmax limiter).trans hlimit⟩
    · simp only [State.finalize, limiters_updateLimiter]
      exact hget
    · simp only [State.finalize, allocated_updateLimiter]
      exact hlt

/-- An execution that starts takes a slot. -/
theorem start (hinv : LimiterInvariant state) {jobId : String}
    {reg : JobRegistration} {limiter : Option ℕ}
    (hlets : LetsThrough state jobId reg limiter) (metadata : M)
    (idNow now : ℚ) :
    LimiterInvariant (state.start reg jobId metadata limiter idNow now) := by
  obtain ⟨hjobId, current, hcurrent, hbelow, hlimit⟩ :=
    hinv.registered jobId reg hlets.registered
  have hlimiter : limiter = some current :=
    hlets.found.symm.trans hcurrent
  subst limiter
  have hallowed := hlets.allowed current rfl
  have hheld : ∀ other key,
      heldBy (state.start reg jobId metadata (some current) idNow
        now).inFlight other key = heldBy state.inFlight other key +
        if current = other ∧ jobId = key then 1 else 0 := by
    intro other key
    rw [inFlight_start, heldBy_cons, limiter_newRun, base_newRun]
    simp only [Option.some.injEq, State.newRecord, buildRunningRecord,
      hjobId]
  have hmax : ∀ other, ((state.start reg jobId metadata (some current) idNow
      now).objects other).maxConcurrency =
        (state.objects other).maxConcurrency := by
    intro other
    rw [objects_start]
    exact maxConcurrency_updateLimiter _ _ _
      (fun _ => ConcurrencyLimiter.maxConcurrency_acquire _ _) other
  constructor
  · intro run hrun other hcaptured
    rw [inFlight_start] at hrun
    rcases List.mem_cons.mp hrun with rfl | hold
    · rw [limiter_newRun, Option.some.injEq] at hcaptured
      rw [allocated_start]
      exact hcaptured ▸ hbelow
    · rw [allocated_start]
      exact hinv.captured run hold other hcaptured
  · intro other key
    rw [hheld, ← hinv.counts other key]
    by_cases hsame : other = current
    · subst other
      have hobject : (state.start reg jobId metadata (some current) idNow
          now).objects current = (state.objects current).acquire jobId :=
        Function.update_self _ _ _
      rw [hobject, ConcurrencyLimiter.getCount_acquire]
      simp [eq_comm]
    · have hobject : (state.start reg jobId metadata (some current) idNow
          now).objects other = state.objects other :=
        Function.update_of_ne hsame _ _
      rw [hobject]
      simp [Ne.symm hsame]
  · intro other key
    rw [hmax, hheld]
    by_cases hsame : current = other ∧ jobId = key
    · obtain ⟨rfl, rfl⟩ := hsame
      simp only [ConcurrencyLimiter.isAllowed, decide_eq_true_eq,
        hinv.counts] at hallowed
      simpa using Order.add_one_le_of_lt hallowed
    · rw [if_neg hsame]
      exact hinv.allowed other key
  · intro other reg' hreg
    rw [registry_start] at hreg
    obtain ⟨hkey, reference, hget, hlt, hsize⟩ :=
      hinv.registered other reg' hreg
    rw [limiters_start, allocated_start]
    exact ⟨hkey, reference, hget, hlt, (hmax reference).trans hsize⟩

theorem step (hinv : LimiterInvariant state) {label : Label M}
    (hstep : Scheduler.step state label = some next) :
    LimiterInvariant next := by
  rcases step_cases hstep with ⟨error, rfl⟩ |
    ⟨registration, -, -, rfl⟩ | ⟨jobId, -, rfl⟩ |
    ⟨jobId, metadata, idNow, now, reg, limiter, hlets, -, rfl⟩ |
    ⟨executionId, run, resumed, hfind, hbase, hlimiter, rfl⟩ |
    ⟨executionId, run, outcome, reason, now, hfind, -, rfl⟩ |
    ⟨-, rfl⟩ | ⟨-, rfl⟩
  · exact ⟨hinv.captured, hinv.counts, hinv.allowed, hinv.registered⟩
  · exact hinv.register registration
  · apply hinv.of_registry
    intro other reg hreg
    rw [InsertionMap.get_delete] at hreg ⊢
    by_cases hjob : other = jobId
    · simp [hjob] at hreg
    · rw [if_neg hjob] at hreg ⊢
      exact ⟨hreg, rfl⟩
  · exact hinv.start hlets metadata idNow now
  · exact hinv.resume hfind hbase hlimiter
  · exact hinv.finalize hfind outcome reason now
  · refine ⟨hinv.captured, hinv.counts, hinv.allowed, ?_⟩
    intro jobId reg hreg
    cases hreg
  · exact ⟨hinv.captured, hinv.counts, hinv.allowed, hinv.registered⟩

end LimiterInvariant

/-! ## Registrations that find their job idle -/

theorem CapturesCurrent.step (hcurrent : CapturesCurrent state)
    (hinv : LimiterInvariant state) {label : Label M}
    (hidle : RegistersIdle state label)
    (hstep : Scheduler.step state label = some next) :
    CapturesCurrent next := by
  rcases step_cases hstep with ⟨error, rfl⟩ |
    ⟨registration, rfl, hfree, rfl⟩ | ⟨jobId, -, rfl⟩ |
    ⟨jobId, metadata, idNow, now, reg, limiter, hlets, -, rfl⟩ |
    ⟨executionId, run, resumed, hfind, hbase, hlimiter, rfl⟩ |
    ⟨executionId, run, outcome, reason, now, hfind, -, rfl⟩ |
    ⟨-, rfl⟩ | ⟨-, rfl⟩
  · exact hcurrent
  · intro jobId reg hreg
    simp only [State.setLimiter] at hreg ⊢
    by_cases hjob : jobId = registration.jobId
    · subst jobId
      rw [InsertionMap.get_set_self, Option.some.injEq] at hreg
      subst reg
      rcases hidle hfree with hunlimited | hnone
      · exact .inl hunlimited
      · right
        intro run hrun hsame
        have hnot := List.countP_eq_zero.mp hnone run hrun
        simp [hsame] at hnot
    · rw [InsertionMap.get_set_of_ne _ _ hjob] at hreg ⊢
      exact hcurrent jobId reg hreg
  · intro other reg hreg
    simp only [InsertionMap.get_delete] at hreg ⊢
    by_cases hjob : other = jobId
    · simp [hjob] at hreg
    · rw [if_neg hjob] at hreg ⊢
      exact hcurrent other reg hreg
  · intro other reg' hreg
    rw [registry_start] at hreg
    rw [inFlight_start, limiters_start]
    refine (hcurrent other reg' hreg).imp_right fun hall => ?_
    intro run hrun hsame
    rcases List.mem_cons.mp hrun with rfl | hold
    · rw [base_newRun] at hsame
      have hjobId := (hinv.registered jobId reg hlets.registered).1
      have hother : jobId = other := hjobId.symm.trans hsame
      rw [limiter_newRun, ← hother]
      exact hlets.found.symm
    · exact hall run hold hsame
  · have hperm := perm_of_findRun hfind
    intro jobId reg hreg
    refine (hcurrent jobId reg hreg).imp_right fun hall => ?_
    intro other hother hsame
    rcases List.mem_cons.mp hother with rfl | hold
    · rw [hlimiter]
      exact hall run (hperm.mem_iff.mpr List.mem_cons_self) (hbase ▸ hsame)
    · exact hall other (List.mem_of_mem_eraseP hold) hsame
  · intro jobId reg hreg
    simp only [State.finalize, registry_updateLimiter] at hreg
    refine (hcurrent jobId reg hreg).imp_right fun hall => ?_
    intro other hother hsame
    simp only [State.finalize, inFlight_updateLimiter] at hother
    simp only [State.finalize, limiters_updateLimiter]
    exact hall other (List.mem_of_mem_eraseP hother) hsame
  · intro jobId reg hreg
    cases hreg
  · exact hcurrent

theorem limitLaw_of_invariants (hinv : LimiterInvariant state)
    (hcurrent : CapturesCurrent state) : LimitLaw state := by
  intro jobId reg hreg
  rcases hcurrent jobId reg hreg with hunlimited | hall
  · rw [hunlimited]
    exact le_top
  · obtain ⟨-, limiter, hget, -, hlimit⟩ := hinv.registered jobId reg hreg
    have hsame : executionsOf state.inFlight jobId =
        heldBy state.inFlight limiter jobId := by
      apply List.countP_congr
      intro run hrun
      simp only [decide_eq_true_eq]
      constructor
      · intro hjob
        exact ⟨(hall run hrun hjob).trans hget, hjob⟩
      · intro hheld
        exact hheld.2
    rw [hsame, ← hlimit]
    exact hinv.allowed limiter jobId

theorem invariants_of_registersIdle {idCounter : ℕ} {labels : List (Label M)}
    (hmeet : StepsMeet step RegistersIdle (State.initial idCounter) labels)
    (hrun : exec step (State.initial idCounter) labels = some state) :
    LimiterInvariant state ∧ CapturesCurrent state :=
  exec_invariant_of_stepsMeet
    (I := fun state : State M =>
      LimiterInvariant state ∧ CapturesCurrent state)
    (fun _ _ _ hinv hidle hstep =>
      ⟨hinv.1.step hstep, hinv.2.step hinv.1 hidle hstep⟩)
    ⟨limiterInvariant_initial idCounter, capturesCurrent_initial idCounter⟩
    hmeet hrun

/-! ## Registrations that do not -/

/-- As long as the limiter has room, calls of `trigger` are let through. -/
theorem exec_triggers (hinv : LimiterInvariant state) {jobId : String}
    {reg : JobRegistration} (hreg : state.registry.get jobId = some reg)
    {limiter : ℕ} (hlimiter : state.limiters.get jobId = some limiter)
    (count : ℕ)
    (hroom : ((heldBy state.inFlight limiter jobId + count : ℕ) : ℕ∞) ≤
      reg.concurrencyLimit) (metadata : M) :
    ∃ last, exec step state
        (List.replicate count (.trigger jobId metadata 0 0)) = some last ∧
      last.registry = state.registry ∧
      executionsOf last.inFlight jobId =
        executionsOf state.inFlight jobId + count := by
  induction count generalizing state with
  | zero => exact ⟨state, rfl, rfl, rfl⟩
  | succ count ih =>
      obtain ⟨hjobId, reference, hget, -, hlimit⟩ :=
        hinv.registered jobId reg hreg
      have hsame : reference = limiter :=
        Option.some.inj (hget.symm.trans hlimiter)
      subst reference
      have hfree : (heldBy state.inFlight limiter jobId : ℕ∞) <
          (state.objects limiter).maxConcurrency := by
        rw [hlimit]
        apply lt_of_lt_of_le _ hroom
        exact_mod_cast (by omega : heldBy state.inFlight limiter jobId <
          heldBy state.inFlight limiter jobId + (count + 1))
      have hallowed : (state.objects limiter).isAllowed jobId = true := by
        simpa [ConcurrencyLimiter.isAllowed, hinv.counts] using hfree
      have hstep : step state (.trigger jobId metadata 0 0) =
          some (state.start reg jobId metadata (some limiter) 0 0) := by
        simp [step, State.trigger, hreg, hlimiter, hallowed]
      have hheld : heldBy (state.start reg jobId metadata (some limiter) 0
          0).inFlight limiter jobId =
            heldBy state.inFlight limiter jobId + 1 := by
        rw [inFlight_start, heldBy_cons, limiter_newRun, base_newRun]
        simp [State.newRecord, buildRunningRecord, hjobId]
      have hexecutions : executionsOf (state.start reg jobId metadata
          (some limiter) 0 0).inFlight jobId =
            executionsOf state.inFlight jobId + 1 := by
        rw [inFlight_start, executionsOf_cons, base_newRun]
        simp [State.newRecord, buildRunningRecord, hjobId]
      obtain ⟨last, hrun, hregistry, hcount⟩ := ih (hinv.step hstep)
        (by rw [registry_start]; exact hreg)
        (by rw [limiters_start]; exact hlimiter)
        (by
          rw [hheld]
          have hsum : heldBy state.inFlight limiter jobId + 1 + count =
              heldBy state.inFlight limiter jobId + (count + 1) := by
            omega
          rw [hsum]
          exact hroom)
      refine ⟨last, exec_cons_eq_some.mpr ⟨_, hstep, hrun⟩, ?_, ?_⟩
      · rw [hregistry, registry_start]
      · rw [hcount, hexecutions]
        omega

/-- A job that is registered over an execution in flight can be triggered
until there are more of them than its registration allows. -/
theorem exists_overrun (hinv : LimiterInvariant state) {label : Label M}
    (hbusy : ¬ RegistersIdle state label)
    (hstep : step state label = some next) (metadata : M) :
    ∃ rest last, exec step next rest = some last ∧ ¬ LimitLaw last := by
  cases label with
  | register registration =>
      simp only [RegistersIdle, Classical.not_imp, not_or] at hbusy
      obtain ⟨hfree, hlimited, hinFlight⟩ := hbusy
      obtain ⟨limit, hlimit⟩ := ENat.ne_top_iff_exists.mp hlimited
      have hnext := hinv.step hstep
      have hregisters : next = { state with
          registry := state.registry.set registration.jobId
            registration }.setLimiter registration.jobId
              registration.concurrencyLimit := by
        simp only [step, State.register, JobRegistry.register,
          InsertionMap.has, hfree, Option.isSome_none, Bool.false_eq_true,
          if_false, Option.some.injEq] at hstep
        exact hstep.symm
      subst next
      have hheld : heldBy state.inFlight state.allocated
          registration.jobId = 0 := by
        apply List.countP_eq_zero.mpr
        intro run hrun hcaptured
        simp only [decide_eq_true_eq] at hcaptured
        exact lt_irrefl _ (hinv.captured run hrun _ hcaptured.1)
      obtain ⟨last, hrun, hregistry, hcount⟩ := exec_triggers hnext
        (InsertionMap.get_set_self _ _ registration)
        (InsertionMap.get_set_self _ _ state.allocated) limit
        (by
          simp only [State.setLimiter, hheld, Nat.zero_add]
          exact hlimit.le) metadata
      refine ⟨_, last, hrun, fun hlaw => ?_⟩
      have hle := hlaw registration.jobId registration
        (by
          rw [hregistry]
          exact InsertionMap.get_set_self _ _ registration)
      rw [hcount, ← hlimit] at hle
      simp only [State.setLimiter] at hle
      have hmore : executionsOf state.inFlight registration.jobId + limit ≤
          limit := by
        exact_mod_cast hle
      omega
  | _ => exact absurd trivial hbusy

/-- In a run in which every registration with a finite limit finds its job
idle, no registered job ever has more executions in flight than its
registration allows; and a run that ends with a registration that does not can
be continued to more of them. -/
theorem limitLaw_of_registersIdle (idCounter : ℕ) (metadata : M) :
    (∀ (labels : List (Label M)) (state : State M),
      exec step (State.initial idCounter) labels = some state →
      StepsMeet step RegistersIdle (State.initial idCounter) labels →
      LimitLaw state) ∧
    ∀ (labels : List (Label M)) (state next : State M) (label),
      exec step (State.initial idCounter) labels = some state →
      step state label = some next →
      ¬ RegistersIdle state label →
      ∃ rest last, exec step next rest = some last ∧ ¬ LimitLaw last := by
  constructor
  · intro labels state hrun hmeet
    obtain ⟨hinv, hcurrent⟩ := invariants_of_registersIdle hmeet hrun
    exact limitLaw_of_invariants hinv hcurrent
  · intro labels state next label hrun hstep hbusy
    have hinv : LimiterInvariant state :=
      exec_invariant (fun _ _ _ hinv hstep => hinv.step hstep)
        (limiterInvariant_initial idCounter) hrun
    exact exists_overrun hinv hbusy hstep metadata

def report : JobRegistration where
  jobId := "report"
  job := ⟨"report"⟩

/-- The job is registered again while its first execution is in flight. -/
def registerAgain : List (Label Unit) :=
  [.register report, .trigger "report" () 0 0, .unregister "report",
    .register report]

theorem limitLaw_of_registersIdle_registerAgain :
    (∃ state : State Unit,
      exec step (State.initial 0) (registerAgain.take 3) = some state ∧
      LimitLaw state) ∧
    ∃ state next : State Unit, ∃ rest last,
      exec step (State.initial 0) (registerAgain.take 3) = some state ∧
      step state (.register report) = some next ∧
      exec step next rest = some last ∧ ¬ LimitLaw last := by
  have hmeet : StepsMeet step RegistersIdle (State.initial 0)
      (registerAgain.take 3) := by
    decide +kernel
  have hends : ∃ state : State Unit,
      exec step (State.initial 0) (registerAgain.take 3) = some state ∧
        ¬ RegistersIdle state (.register report) := by
    refine ⟨_, rfl, ?_⟩
    decide +kernel
  obtain ⟨state, hrun, hbusy⟩ := hends
  obtain ⟨hlaw, hbreaks⟩ := limitLaw_of_registersIdle 0 ()
  obtain ⟨rest, last, hrest, hlast⟩ :=
    hbreaks (registerAgain.take 3) state _ (.register report) hrun rfl hbusy
  exact ⟨⟨state, hrun, hlaw (registerAgain.take 3) state hrun hmeet⟩, state,
    _, rest, last, hrun, rfl, hrest, hlast⟩

/-- Two executions of a job whose registrations both allow one. -/
theorem not_limitLaw_after_registerAgain :
    ∃ state : State Unit,
      exec step (State.initial 0)
        (registerAgain ++ [.trigger "report" () 1 1]) = some state ∧
      state.registry.get "report" = some report ∧
      report.concurrencyLimit = 1 ∧
      state.inFlight.map (fun run => run.base.executionId) =
        [⟨2, 1⟩, ⟨1, 0⟩] ∧
      ¬ LimitLaw state := by
  have hends : ∃ state : State Unit,
      exec step (State.initial 0)
        (registerAgain ++ [.trigger "report" () 1 1]) = some state ∧
      state.registry.get "report" = some report ∧
      state.inFlight.map (fun run => run.base.executionId) =
        [⟨2, 1⟩, ⟨1, 0⟩] ∧
      executionsOf state.inFlight "report" = 2 := by
    refine ⟨_, rfl, ?_, ?_, ?_⟩ <;> decide +kernel
  obtain ⟨state, hrun, hreg, hinFlight, hcount⟩ := hends
  refine ⟨state, hrun, hreg, rfl, hinFlight, fun hlaw => ?_⟩
  have hle := hlaw "report" report hreg
  rw [hcount] at hle
  exact absurd hle (by decide +kernel)

end TsCommons.Scheduler
