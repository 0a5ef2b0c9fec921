import TsCommons.Scheduler.InMemoryScheduler

/-!
# Accounting of executions

Records, history and statistics are written when an execution starts and when
it completes.  `clear` resets all three, and an execution that was in flight
then still completes: it counts down what was never counted up again.
-/

namespace TsCommons.Scheduler

open Foundations

variable {M : Type} {state next : State M}

/-! ## What the log says -/

namespace Effect

def isClear : Effect M → Bool
  | .cleared => true
  | _ => false

def trigger : Effect M → Option (String × ExecutionId)
  | .triggered jobId executionId => some (jobId, executionId)
  | _ => none

end Effect

/-- The executions triggered since the last `clear`, in their order, each
under its job. -/
def triggersSinceClear (log : List (Effect M)) :
    List (String × ExecutionId) :=
  ((log.takeWhile fun effect => !effect.isClear).filterMap
    Effect.trigger).reverse

def triggeredIds (log : List (Effect M)) : List ExecutionId :=
  (triggersSinceClear log).map Prod.snd

def triggeredOf (jobId : String) (log : List (Effect M)) :
    List ExecutionId :=
  ((triggersSinceClear log).filter fun trigger => trigger.1 = jobId).map
    Prod.snd

@[simp] theorem triggersSinceClear_triggered (jobId : String)
    (executionId : ExecutionId) (log : List (Effect M)) :
    triggersSinceClear (.triggered jobId executionId :: log) =
      triggersSinceClear log ++ [(jobId, executionId)] := by
  simp [triggersSinceClear, Effect.isClear, Effect.trigger]

@[simp] theorem triggersSinceClear_cleared (log : List (Effect M)) :
    triggersSinceClear (.cleared :: log) = [] := by
  simp [triggersSinceClear, Effect.isClear]

theorem triggersSinceClear_append {added : List (Effect M)}
    (hadded : ∀ effect ∈ added,
      effect.isClear = false ∧ effect.trigger = none)
    (log : List (Effect M)) :
    triggersSinceClear (added ++ log) = triggersSinceClear log := by
  induction added with
  | nil => rfl
  | cons effect added ih =>
      obtain ⟨hclear, htrigger⟩ := hadded effect List.mem_cons_self
      have hrest := ih fun other hother =>
        hadded other (List.mem_cons_of_mem effect hother)
      rw [← hrest, List.cons_append, triggersSinceClear,
        List.takeWhile_cons_of_pos (by simp [hclear]),
        List.filterMap_cons_none htrigger, triggersSinceClear]

theorem triggersSinceClear_asks (run : Run M) (log : List (Effect M)) :
    triggersSinceClear (run.asks ++ log) = triggersSinceClear log := by
  apply triggersSinceClear_append
  intro effect hmem
  unfold Run.asks at hmem
  split at hmem
  · rw [List.mem_singleton.mp hmem]
    exact ⟨rfl, rfl⟩
  · rw [List.mem_singleton.mp hmem]
    exact ⟨rfl, rfl⟩
  · simp at hmem

theorem triggersSinceClear_cons {effect : Effect M}
    (hclear : effect.isClear = false) (htrigger : effect.trigger = none)
    (log : List (Effect M)) :
    triggersSinceClear (effect :: log) = triggersSinceClear log := by
  have hadded : ∀ other ∈ [effect],
      other.isClear = false ∧ other.trigger = none := by
    intro other hother
    rw [List.mem_singleton.mp hother]
    exact ⟨hclear, htrigger⟩
  exact triggersSinceClear_append hadded log

def State.inFlightIds (state : State M) : List ExecutionId :=
  state.inFlight.map fun run => run.base.executionId

/-! ## The law -/

/-- The statistics agree with the records, and the history of a job lists its
executions since the last `clear`. -/
structure AccountingLaw (state : State M) : Prop where
  active : state.stats.active = (state.records.values.countP
    fun record => record.status = .running : ℕ)
  total : state.stats.total =
    state.stats.succeeded + state.stats.failed + state.stats.active
  total_nonneg : 0 ≤ state.stats.total
  succeeded_nonneg : 0 ≤ state.stats.succeeded
  failed_nonneg : 0 ≤ state.stats.failed
  active_nonneg : 0 ≤ state.stats.active
  history : ∀ jobId,
    (state.getJobHistory jobId).map JobRecord.executionId =
      triggeredOf jobId state.log
  nodup : ∀ jobId, (triggeredOf jobId state.log).Nodup

/-- An execution that completes was triggered since the last `clear`. -/
def CompletesUncleared (state : State M) : Label M → Prop
  | .finalize executionId _ => executionId ∈ triggeredIds state.log
  | _ => True

instance (state : State M) : DecidablePred (CompletesUncleared state)
  | .register _ => inferInstanceAs (Decidable True)
  | .unregister _ => inferInstanceAs (Decidable True)
  | .trigger _ _ _ _ => inferInstanceAs (Decidable True)
  | .jobSettles _ _ => inferInstanceAs (Decidable True)
  | .delaySettles _ _ => inferInstanceAs (Decidable True)
  | .finalize _ _ => inferInstanceAs (Decidable (_ ∈ _))
  | .clear => inferInstanceAs (Decidable True)
  | .idTaken => inferInstanceAs (Decidable True)

/-- What `clear` does not break: the executions triggered since then have
records, and those of them in flight have running ones. -/
structure AccountingInvariant (state : State M) : Prop where
  counted : ∀ executionId ∈ triggeredIds state.log,
    executionId.idCounter ≤ state.idCounter
  inFlightCounted : ∀ executionId ∈ state.inFlightIds,
    executionId.idCounter ≤ state.idCounter
  distinct : state.inFlightIds.Nodup
  recorded : ∀ executionId ∈ triggeredIds state.log, ∃ record,
    state.records.get executionId = some record ∧
      record.executionId = executionId
  unrecorded : ∀ executionId, executionId ∉ triggeredIds state.log →
    state.records.get executionId = none
  running : ∀ executionId ∈ state.inFlightIds, ∀ record,
    state.records.get executionId = some record → record.status = .running
  history : ∀ jobId,
    (state.history.get jobId).getD [] = triggeredOf jobId state.log
  nodup : (triggeredIds state.log).Nodup
  active : state.stats.active = (state.records.values.countP
    fun record => record.status = .running : ℕ)
  total : state.stats.total =
    state.stats.succeeded + state.stats.failed + state.stats.active
  succeeded_nonneg : 0 ≤ state.stats.succeeded
  failed_nonneg : 0 ≤ state.stats.failed

theorem accountingInvariant_initial (idCounter : ℕ) :
    AccountingInvariant (State.initial idCounter : State M) := by
  constructor <;>
    simp [State.initial, State.inFlightIds, triggeredIds, triggeredOf,
      triggersSinceClear,
      StatsInternal.zero, InsertionMap.values, InsertionMap.empty,
      InsertionMap.get, InsertionMap.lookup]

theorem map_executionId_filterMap
    {records : InsertionMap ExecutionId JobRecord} {ids : List ExecutionId}
    (hrecorded : ∀ executionId ∈ ids, ∃ record,
      records.get executionId = some record ∧
        record.executionId = executionId) :
    (ids.filterMap records.get).map JobRecord.executionId = ids := by
  induction ids with
  | nil => rfl
  | cons executionId ids ih =>
      obtain ⟨record, hget, hid⟩ := hrecorded executionId List.mem_cons_self
      have hrest := ih fun other hother =>
        hrecorded other (List.mem_cons_of_mem executionId hother)
      rw [List.filterMap_cons_some hget, List.map_cons, hid, hrest]

theorem triggeredOf_sublist (jobId : String) (log : List (Effect M)) :
    (triggeredOf jobId log).Sublist (triggeredIds log) :=
  List.filter_sublist.map Prod.snd

section Start

variable (reg : JobRegistration) (jobId : String) (metadata : M)
  (limiter : Option ℕ) (idNow now : ℚ)

theorem triggersSinceClear_start (state : State M) :
    triggersSinceClear
        (state.start reg jobId metadata limiter idNow now).log =
      triggersSinceClear state.log ++
        [(jobId, ⟨state.idCounter + 1, idNow⟩)] := by
  rw [log_start, triggersSinceClear_asks, triggersSinceClear_triggered]

theorem triggeredIds_start (state : State M) :
    triggeredIds (state.start reg jobId metadata limiter idNow now).log =
      triggeredIds state.log ++ [⟨state.idCounter + 1, idNow⟩] := by
  rw [triggeredIds, triggersSinceClear_start, List.map_append]
  rfl

theorem inFlightIds_start (state : State M) :
    (state.start reg jobId metadata limiter idNow now).inFlightIds =
      ⟨state.idCounter + 1, idNow⟩ :: state.inFlightIds := by
  rw [State.inFlightIds, inFlight_start, List.map_cons, base_newRun]
  rfl

/-- An identifier that was counted is not that of the next execution. -/
theorem ne_next {executionId : ExecutionId}
    (hle : executionId.idCounter ≤ state.idCounter) :
    executionId ≠ ⟨state.idCounter + 1, idNow⟩ := by
  rintro rfl
  exact absurd hle (Nat.not_succ_le_self _)

end Start

namespace AccountingInvariant

theorem law (hinv : AccountingInvariant state) : AccountingLaw state := by
  have hactive := hinv.active
  have htotal := hinv.total
  have hsucceeded := hinv.succeeded_nonneg
  have hfailed := hinv.failed_nonneg
  constructor
  · exact hactive
  · exact htotal
  · exact by omega
  · exact hsucceeded
  · exact hfailed
  · exact by omega
  · intro jobId
    unfold State.getJobHistory
    rw [hinv.history]
    apply map_executionId_filterMap
    intro executionId hmem
    exact hinv.recorded executionId
      ((triggeredOf_sublist jobId state.log).subset hmem)
  · intro jobId
    exact (triggeredOf_sublist jobId state.log).nodup hinv.nodup

/-- An operation that leaves the accounts alone. -/
theorem of_same (hinv : AccountingInvariant state)
    (hlog : triggersSinceClear next.log = triggersSinceClear state.log)
    (hidCounter : state.idCounter ≤ next.idCounter)
    (hinFlight : next.inFlightIds.Perm state.inFlightIds)
    (hrecords : next.records = state.records)
    (hhistory : next.history = state.history)
    (hstats : next.stats = state.stats) : AccountingInvariant next := by
  have hids : triggeredIds next.log = triggeredIds state.log :=
    congrArg (List.map Prod.snd) hlog
  constructor
  · intro executionId hmem
    rw [hids] at hmem
    exact (hinv.counted executionId hmem).trans hidCounter
  · intro executionId hmem
    exact (hinv.inFlightCounted executionId
      (hinFlight.mem_iff.mp hmem)).trans hidCounter
  · exact hinFlight.nodup_iff.mpr hinv.distinct
  · rw [hids, hrecords]
    exact hinv.recorded
  · rw [hids, hrecords]
    exact hinv.unrecorded
  · intro executionId hmem
    rw [hrecords]
    exact hinv.running executionId (hinFlight.mem_iff.mp hmem)
  · intro jobId
    rw [hhistory, triggeredOf, hlog]
    exact hinv.history jobId
  · rw [hids]
    exact hinv.nodup
  · rw [hstats, hrecords]
    exact hinv.active
  · rw [hstats]
    exact hinv.total
  · rw [hstats]
    exact hinv.succeeded_nonneg
  · rw [hstats]
    exact hinv.failed_nonneg

section Start

variable (reg : JobRegistration) (jobId : String) (metadata : M)
  (limiter : Option ℕ) (idNow now : ℚ)

theorem get_next (hinv : AccountingInvariant state) :
    state.records.get ⟨state.idCounter + 1, idNow⟩ = none := by
  apply hinv.unrecorded
  intro hmem
  exact ne_next idNow (hinv.counted _ hmem) rfl

theorem countP_running_start (hinv : AccountingInvariant state) :
    (state.start reg jobId metadata limiter idNow
        now).records.values.countP (fun record => record.status = .running) =
      state.records.values.countP (fun record => record.status = .running) +
        1 := by
  have hcount := state.records.countP_values_set
    ⟨state.idCounter + 1, idNow⟩ (state.newRecord reg idNow now)
    fun record => record.status = .running
  have hone : [state.newRecord reg idNow now].countP
      (fun record => record.status = .running) = 1 := rfl
  rw [hinv.get_next, hone, Option.toList_none, List.countP_nil] at hcount
  rw [records_start]
  exact hcount

theorem history_of_start (hinv : AccountingInvariant state)
    (other : String) :
    ((state.start reg jobId metadata limiter idNow now).history.get
        other).getD [] =
      triggeredOf other
        (state.start reg jobId metadata limiter idNow now).log := by
  have hold := hinv.history other
  rw [triggeredOf] at hold
  rw [history_start, triggeredOf, triggersSinceClear_start,
    List.filter_append]
  by_cases hjob : other = jobId
  · subst other
    rw [InsertionMap.get_set_self, Option.getD_some, List.map_append, ← hold]
    simp
  · rw [InsertionMap.get_set_of_ne _ _ hjob, hold]
    simp [Ne.symm hjob]

/-- A new execution has an identifier of its own. -/
theorem start (hinv : AccountingInvariant state) :
    AccountingInvariant
      (state.start reg jobId metadata limiter idNow now) := by
  have hids := triggeredIds_start reg jobId metadata limiter idNow now state
  have hinFlight :=
    inFlightIds_start reg jobId metadata limiter idNow now state
  constructor
  · intro executionId hmem
    rw [hids] at hmem
    rw [idCounter_start]
    rcases List.mem_append.mp hmem with hold | hlast
    · exact Nat.le_succ_of_le (hinv.counted executionId hold)
    · rw [List.mem_singleton.mp hlast]
  · intro executionId hmem
    rw [hinFlight] at hmem
    rw [idCounter_start]
    rcases List.mem_cons.mp hmem with rfl | hold
    · exact le_rfl
    · exact Nat.le_succ_of_le (hinv.inFlightCounted executionId hold)
  · rw [hinFlight]
    apply List.nodup_cons.mpr
    refine ⟨fun hmem => ?_, hinv.distinct⟩
    exact ne_next idNow (hinv.inFlightCounted _ hmem) rfl
  · intro executionId hmem
    rw [hids] at hmem
    rw [records_start]
    rcases List.mem_append.mp hmem with hold | hlast
    · rw [InsertionMap.get_set_of_ne _ _
        (ne_next idNow (hinv.counted executionId hold))]
      exact hinv.recorded executionId hold
    · rw [List.mem_singleton.mp hlast, InsertionMap.get_set_self]
      exact ⟨_, rfl, rfl⟩
  · intro executionId hmem
    rw [hids, List.mem_append, not_or] at hmem
    rw [records_start, InsertionMap.get_set_of_ne _ _
      fun heq => hmem.2 (List.mem_singleton.mpr heq)]
    exact hinv.unrecorded executionId hmem.1
  · intro executionId hmem record hrecord
    rw [hinFlight] at hmem
    rw [records_start] at hrecord
    rcases List.mem_cons.mp hmem with rfl | hold
    · rw [InsertionMap.get_set_self, Option.some.injEq] at hrecord
      rw [← hrecord]
      rfl
    · rw [InsertionMap.get_set_of_ne _ _
        (ne_next idNow (hinv.inFlightCounted executionId hold))] at hrecord
      exact hinv.running executionId hold record hrecord
  · exact hinv.history_of_start reg jobId metadata limiter idNow now
  · rw [hids]
    apply List.nodup_append.mpr
    refine ⟨hinv.nodup, List.nodup_singleton _, ?_⟩
    intro executionId hold other hlast heq
    rw [List.mem_singleton.mp hlast] at heq
    exact ne_next idNow (hinv.counted executionId hold) heq
  · rw [hinv.countP_running_start, stats_start]
    simp only [incrementActive, hinv.active, Nat.cast_add, Nat.cast_one]
  · have htotal := hinv.total
    rw [stats_start]
    simp only [incrementActive]
    omega
  · rw [stats_start]
    exact hinv.succeeded_nonneg
  · rw [stats_start]
    exact hinv.failed_nonneg

end Start

/-- `clear` forgets the executions, and leaves those in flight alone. -/
theorem clear (hinv : AccountingInvariant state) :
    AccountingInvariant state.clear := by
  have hids : triggeredIds state.clear.log = [] := by
    rw [triggeredIds, State.clear, triggersSinceClear_cleared]
    rfl
  constructor
  · intro executionId hmem
    rw [hids] at hmem
    simp at hmem
  · exact hinv.inFlightCounted
  · exact hinv.distinct
  · intro executionId hmem
    rw [hids] at hmem
    simp at hmem
  · exact fun executionId _ => rfl
  · intro executionId _ record hrecord
    cases hrecord
  · intro jobId
    rw [triggeredOf, State.clear, triggersSinceClear_cleared]
    rfl
  · rw [hids]
    exact List.nodup_nil
  · exact rfl
  · exact rfl
  · exact le_rfl
  · exact le_rfl

end AccountingInvariant

/-! ## Completions -/

section Finalize

variable {executionId : ExecutionId} {run : Run M}
  (hfind : state.findRun executionId = some run) (outcome : Outcome)
  (reason : Option String) (now : ℚ)

theorem executionId_of_findRun
    (hfind : state.findRun executionId = some run) :
    run.base.executionId = executionId := by
  have htest := List.find?_some hfind
  simpa using htest

/-- The record of an execution that has completed. -/
def completedRecord (base : JobRecord) (outcome : Outcome)
    (reason : Option String) (now : ℚ) : JobRecord :=
  match outcome with
  | .succeeded => succeededRecord base now
  | .failed => failedRecord base (reason.getD "unknown") now

theorem executionId_completedRecord (base : JobRecord) (outcome : Outcome)
    (reason : Option String) (now : ℚ) :
    (completedRecord base outcome reason now).executionId =
      base.executionId := by
  cases outcome <;> rfl

theorem status_completedRecord (base : JobRecord) (outcome : Outcome)
    (reason : Option String) (now : ℚ) :
    (completedRecord base outcome reason now).status ≠ .running := by
  cases outcome <;> simp [completedRecord, succeededRecord, failedRecord]

/-- What a completion leaves in the records, the statistics and the log. -/
theorem finalize_eq (state : State M) (base : JobRecord)
    (limiter : Option ℕ) :
    (state.finalize base outcome reason limiter now).records =
        state.records.set base.executionId
          (completedRecord base outcome reason now) ∧
      (state.finalize base outcome reason limiter now).stats =
        decrementActive state.stats outcome ∧
      (state.finalize base outcome reason limiter now).log =
        .completed (completedRecord base outcome reason now) ::
          state.log ∧
      (state.finalize base outcome reason limiter now).idCounter =
        state.idCounter ∧
      (state.finalize base outcome reason limiter now).history =
        state.history ∧
      (state.finalize base outcome reason limiter now).inFlightIds =
        state.inFlightIds := by
  cases outcome <;> simp [State.finalize, completedRecord, State.inFlightIds]

include hfind in
theorem inFlightIds_of_findRun :
    state.inFlightIds.Perm
      (executionId :: (state.leave executionId).inFlightIds) := by
  have hperm := (perm_eraseP_of_find hfind).map fun run : Run M =>
    run.base.executionId
  rw [List.map_cons, executionId_of_findRun hfind] at hperm
  exact hperm

include hfind in
/-- A completion counts an active execution down, and a record that was
running before counts no more. -/
theorem countP_running_finalize :
    ((state.leave executionId).finalize run.base outcome reason run.limiter
        now).records.values.countP (fun record => record.status = .running) +
        (state.records.get executionId).toList.countP
          (fun record => record.status = .running) =
      state.records.values.countP fun record => record.status = .running := by
  rw [(finalize_eq outcome reason now _ _ _).1, executionId_of_findRun hfind]
  have hcount := state.records.countP_values_set executionId
    (completedRecord run.base outcome reason now)
    fun record => record.status = .running
  have hdone : [completedRecord run.base outcome reason now].countP
      (fun record => record.status = .running) = 0 := by
    simp [status_completedRecord]
  rw [hdone] at hcount
  exact hcount

include hfind in
theorem AccountingInvariant.finalize (hinv : AccountingInvariant state)
    (huncleared : executionId ∈ triggeredIds state.log) :
    AccountingInvariant ((state.leave executionId).finalize run.base outcome
      reason run.limiter now) := by
  obtain ⟨hrecords, hstats, hlog, hidCounter, hhistory, hinFlight⟩ :=
    finalize_eq outcome reason now (state.leave executionId) run.base
      run.limiter
  have hcount := countP_running_finalize hfind outcome reason now
  have hperm := inFlightIds_of_findRun hfind
  have hdistinct := List.nodup_cons.mp (hperm.nodup_iff.mp hinv.distinct)
  generalize (state.leave executionId).finalize run.base outcome reason
    run.limiter now = next at *
  have htriggers : triggersSinceClear next.log =
      triggersSinceClear state.log := by
    rw [hlog]
    exact triggersSinceClear_cons rfl rfl _
  have hids : triggeredIds next.log = triggeredIds state.log :=
    congrArg (List.map Prod.snd) htriggers
  have hleft : ∀ other ∈ next.inFlightIds,
      other ∈ state.inFlightIds ∧ other ≠ executionId := by
    intro other hmem
    rw [hinFlight] at hmem
    refine ⟨hperm.mem_iff.mpr (List.mem_cons_of_mem executionId hmem), ?_⟩
    rintro rfl
    exact hdistinct.1 hmem
  rw [executionId_of_findRun hfind] at hrecords
  constructor
  · intro other hmem
    rw [hids] at hmem
    rw [hidCounter]
    exact hinv.counted other hmem
  · intro other hmem
    rw [hidCounter]
    exact hinv.inFlightCounted other (hleft other hmem).1
  · rw [hinFlight]
    exact hdistinct.2
  · intro other hmem
    rw [hids] at hmem
    rw [hrecords]
    by_cases hself : other = executionId
    · subst other
      rw [InsertionMap.get_set_self]
      refine ⟨_, rfl, ?_⟩
      rw [executionId_completedRecord, executionId_of_findRun hfind]
    · rw [InsertionMap.get_set_of_ne _ _ hself]
      exact hinv.recorded other hmem
  · intro other hmem
    rw [hids] at hmem
    have hself : other ≠ executionId := by
      rintro rfl
      exact hmem huncleared
    rw [hrecords, InsertionMap.get_set_of_ne _ _ hself]
    exact hinv.unrecorded other hmem
  · intro other hmem record hrecord
    obtain ⟨hold, hself⟩ := hleft other hmem
    rw [hrecords, InsertionMap.get_set_of_ne _ _ hself] at hrecord
    exact hinv.running other hold record hrecord
  · intro jobId
    rw [hhistory, triggeredOf, htriggers]
    exact hinv.history jobId
  · rw [hids]
    exact hinv.nodup
  · obtain ⟨record, hget, -⟩ := hinv.recorded executionId huncleared
    have hrunning := hinv.running executionId
      (hperm.mem_iff.mpr List.mem_cons_self) record hget
    have hone : [record].countP
        (fun record => record.status = .running) = 1 := by
      simp [hrunning]
    rw [hget, Option.toList_some, hone] at hcount
    have hactive := hinv.active
    have hdown : next.stats.active = state.stats.active - 1 := by
      rw [hstats]
      cases outcome <;> rfl
    omega
  · have htotal := hinv.total
    rw [hstats]
    cases outcome <;> simp only [decrementActive, State.leave] <;> omega
  · have hsucceeded := hinv.succeeded_nonneg
    rw [hstats]
    cases outcome <;> simp only [decrementActive, State.leave] <;> omega
  · have hfailed := hinv.failed_nonneg
    rw [hstats]
    cases outcome <;> simp only [decrementActive, State.leave] <;> omega

include hfind in
/-- An execution that `clear` has forgotten is counted down all the same. -/
theorem not_accountingLaw_finalize (hinv : AccountingInvariant state)
    (hcleared : executionId ∉ triggeredIds state.log) :
    ¬ AccountingLaw ((state.leave executionId).finalize run.base outcome
      reason run.limiter now) := by
  intro hlaw
  have hcount := countP_running_finalize hfind outcome reason now
  rw [hinv.unrecorded executionId hcleared, Option.toList_none,
    List.countP_nil] at hcount
  have hbefore := hinv.active
  have hafter := hlaw.active
  have hdown : ((state.leave executionId).finalize run.base outcome reason
      run.limiter now).stats.active = state.stats.active - 1 := by
    rw [(finalize_eq outcome reason now _ _ _).2.1]
    cases outcome <;> rfl
  omega

end Finalize

/-! ## Runs -/

theorem AccountingInvariant.step (hinv : AccountingInvariant state)
    {label : Label M} (huncleared : CompletesUncleared state label)
    (hstep : Scheduler.step state label = some next) :
    AccountingInvariant next := by
  rcases step_cases hstep with ⟨error, rfl⟩ |
    ⟨registration, -, -, rfl⟩ | ⟨jobId, -, rfl⟩ |
    ⟨jobId, metadata, idNow, now, reg, limiter, hlets, -, rfl⟩ |
    ⟨executionId, run, resumed, hfind, hbase, -, rfl⟩ |
    ⟨executionId, run, outcome, reason, now, hfind, rfl, rfl⟩ |
    ⟨-, rfl⟩ | ⟨-, rfl⟩
  · exact hinv.of_same (triggersSinceClear_cons rfl rfl _) le_rfl
      (List.Perm.refl _) rfl rfl rfl
  · exact hinv.of_same rfl le_rfl (List.Perm.refl _) rfl rfl rfl
  · exact hinv.of_same rfl le_rfl (List.Perm.refl _) rfl rfl rfl
  · exact hinv.start reg jobId metadata limiter idNow now
  · have hids : ((state.leave executionId).await resumed).inFlightIds.Perm
        state.inFlightIds := by
      apply List.Perm.trans _ (inFlightIds_of_findRun hfind).symm
      rw [← executionId_of_findRun hfind, ← hbase]
      exact List.Perm.refl _
    exact hinv.of_same (triggersSinceClear_asks resumed _) le_rfl hids rfl
      rfl rfl
  · exact hinv.finalize hfind outcome reason now huncleared
  · exact hinv.clear
  · exact hinv.of_same rfl (Nat.le_succ _) (List.Perm.refl _) rfl rfl rfl

theorem not_accountingLaw_of_cleared (hinv : AccountingInvariant state)
    {label : Label M} (hcleared : ¬ CompletesUncleared state label)
    (hstep : step state label = some next) : ¬ AccountingLaw next := by
  cases label with
  | finalize executionId now =>
      simp only [step, Option.bind_eq_some_iff] at hstep
      obtain ⟨run, hfind, hstep⟩ := hstep
      cases hprogress : run.progress with
      | returned =>
          simp only [hprogress, Option.some.injEq] at hstep
          exact hstep ▸ not_accountingLaw_finalize hfind .succeeded none now
            hinv hcleared
      | threw lastErr =>
          simp only [hprogress, Option.some.injEq] at hstep
          exact hstep ▸ not_accountingLaw_finalize hfind .failed _ now hinv
            hcleared
      | _ => simp [hprogress] at hstep
  | _ => exact absurd trivial hcleared

/-- However jobs are registered, triggered, cleared and completed, the
statistics and the histories agree with the executions in every state of the
run if and only if no execution completes that was triggered before the last
`clear`. -/
theorem accountingLaw_iff_completesUncleared {idCounter : ℕ}
    {labels : List (Label M)}
    (hrun : exec step (State.initial idCounter) labels = some state) :
    Throughout step AccountingLaw (State.initial idCounter) labels ↔
      StepsMeet step CompletesUncleared (State.initial idCounter) labels :=
  throughout_iff_stepsMeet (fun _ hinv => hinv.law)
    (fun _ _ _ hinv huncleared hstep => hinv.step huncleared hstep)
    (fun _ _ _ hinv hcleared hstep =>
      not_accountingLaw_of_cleared hinv hcleared hstep)
    (accountingInvariant_initial idCounter) hrun

def nightly : JobRegistration where
  jobId := "nightly"
  job := ⟨"nightly"⟩

/-- One execution completes before the scheduler is cleared. -/
def clearedBehind : List (Label Unit) :=
  [.register nightly, .trigger "nightly" () 0 0,
    .jobSettles ⟨1, 0⟩ (.ok ()), .finalize ⟨1, 0⟩ 5, .clear]

/-- One execution completes after the scheduler has been cleared. -/
def clearedInFlight : List (Label Unit) :=
  [.register nightly, .trigger "nightly" () 0 0, .clear,
    .jobSettles ⟨1, 0⟩ (.ok ()), .finalize ⟨1, 0⟩ 5]

theorem accountingLaw_iff_completesUncleared_samples :
    Throughout step AccountingLaw (State.initial 0) clearedBehind ∧
      ¬ Throughout step AccountingLaw (State.initial 0) clearedInFlight := by
  have hbehind : ∃ state : State Unit,
      exec step (State.initial 0) clearedBehind = some state := ⟨_, rfl⟩
  have hinFlight : ∃ state : State Unit,
      exec step (State.initial 0) clearedInFlight = some state := ⟨_, rfl⟩
  obtain ⟨_, hbehind⟩ := hbehind
  obtain ⟨_, hinFlight⟩ := hinFlight
  constructor
  · apply (accountingLaw_iff_completesUncleared hbehind).mpr
    decide +kernel
  · intro hlaw
    have hmeet := (accountingLaw_iff_completesUncleared hinFlight).mp hlaw
    exact absurd hmeet (by decide +kernel)

/-- The number of active executions is minus one, and the record of the
execution is back without its history. -/
theorem not_accountingLaw_after_clear :
    ∃ state : State Unit,
      exec step (State.initial 0) clearedInFlight = some state ∧
      state.getStats = ⟨0, 1, 0, -1⟩ ∧
      state.records.values.map JobRecord.status = [.succeeded] ∧
      state.getJobHistory "nightly" = [] ∧
      ¬ AccountingLaw state := by
  have hends : ∃ state : State Unit,
      exec step (State.initial 0) clearedInFlight = some state ∧
      state.getStats = ⟨0, 1, 0, -1⟩ ∧
      state.records.values.map JobRecord.status = [.succeeded] ∧
      state.getJobHistory "nightly" = [] := by
    refine ⟨_, rfl, ?_, ?_, ?_⟩ <;> decide +kernel
  obtain ⟨state, hrun, hstats, hrecords, hhistory⟩ := hends
  refine ⟨state, hrun, hstats, hrecords, hhistory, fun hlaw => ?_⟩
  have hnonneg := hlaw.active_nonneg
  have hactive : state.stats.active = -1 :=
    congrArg StatsInternal.active hstats
  omega

end TsCommons.Scheduler
