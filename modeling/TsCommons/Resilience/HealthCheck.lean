import TsCommons.Foundations.Execution
import TsCommons.Foundations.InsertionMap
import Mathlib.Data.List.Perm.Basic
import Mathlib.Order.MinMax

/-!
# The health check

The checks of all indicators run at the same time, and each leaves its status
in a record under the name of its indicator.  Of several indicators with one
name the record keeps the status of the one that settles last.
-/

namespace TsCommons.Resilience

open Foundations

inductive HealthStatus
  | healthy
  | degraded
  | unhealthy
deriving DecidableEq

namespace HealthStatus

def severity : HealthStatus → ℕ
  | healthy => 0
  | degraded => 1
  | unhealthy => 2

theorem severity_injective : Function.Injective severity := by
  rintro ⟨⟩ ⟨⟩ hsame <;> first | rfl | cases hsame

/-- A worse status is greater. -/
instance : LinearOrder HealthStatus :=
  LinearOrder.lift' severity severity_injective

theorem healthy_le (status : HealthStatus) : healthy ≤ status := by
  cases status <;> decide

/-- The worst of the statuses, `healthy` if there are none. -/
def worst (statuses : List HealthStatus) : HealthStatus :=
  statuses.foldr max healthy

variable {statuses more : List HealthStatus} {status : HealthStatus}

theorem worst_le_iff :
    worst statuses ≤ status ↔ ∀ other ∈ statuses, other ≤ status := by
  induction statuses with
  | nil => simp [worst, healthy_le]
  | cons first rest ih =>
      rw [worst, List.foldr_cons, ← worst, max_le_iff, ih,
        List.forall_mem_cons]

theorem le_worst (hmem : status ∈ statuses) : status ≤ worst statuses :=
  worst_le_iff.mp (le_refl _) status hmem

theorem worst_mem (hne : worst statuses ≠ healthy) :
    worst statuses ∈ statuses := by
  induction statuses with
  | nil => exact absurd rfl hne
  | cons first rest ih =>
      rw [worst, List.foldr_cons, ← worst] at hne ⊢
      rcases max_choice first (worst rest) with hmax | hmax
      · rw [hmax]
        exact List.mem_cons_self
      · rw [hmax] at hne ⊢
        exact List.mem_cons_of_mem first (ih hne)

theorem worst_mono (hsub : ∀ status ∈ statuses, status ∈ more) :
    worst statuses ≤ worst more :=
  worst_le_iff.mpr fun status hmem => le_worst (hsub status hmem)

end HealthStatus

open HealthStatus

/-- What a call of `check` comes to. -/
inductive CheckOutcome
  | resolves (status : HealthStatus)
  | rejects
deriving DecidableEq

structure HealthIndicator where
  name : String
  check : CheckOutcome
deriving DecidableEq

/-- What is recorded for the indicator. -/
def HealthIndicator.status (ind : HealthIndicator) : HealthStatus :=
  match ind.check with
  | .resolves status => status
  | .rejects => .unhealthy

abbrev Checks := InsertionMap String HealthStatus

structure HealthReport where
  status : HealthStatus
  checks : Checks
  timestamp : ℤ
deriving DecidableEq

namespace HealthCheck

/-- `checks[name] = status`: writing a text to `__proto__` has no effect. -/
def assign (checks : Checks) (name : String) (status : HealthStatus) :
    Checks :=
  if name = "__proto__" then checks else checks.set name status

def overall (statuses : List HealthStatus) : HealthStatus :=
  if statuses.any (· = unhealthy) then unhealthy
  else if statuses.any (· = degraded) then degraded
  else healthy

/-- A call of `check`: `pending` are the positions of the indicators whose
checks have not settled. -/
structure State where
  pending : List ℕ
  checks : Checks
deriving DecidableEq

variable {indicators settled : List HealthIndicator} {state last : State}
  {order : List ℕ} {name : String} {status : HealthStatus}

def start (indicators : List HealthIndicator) : State :=
  ⟨List.range indicators.length, .empty⟩

/-- The check of the indicator at the position settles. -/
def step (indicators : List HealthIndicator) (state : State) (index : ℕ) :
    Option State :=
  if index ∈ state.pending then
    indicators[index]?.map fun ind =>
      ⟨state.pending.erase index, assign state.checks ind.name ind.status⟩
  else none

/-- There is a report when all checks have settled. -/
def report (state : State) (now : ℤ) : Option HealthReport :=
  if state.pending = [] then
    some ⟨overall state.checks.values, state.checks, now⟩
  else none

theorem overall_eq_worst (statuses : List HealthStatus) :
    overall statuses = worst statuses := by
  have hle : worst statuses ≤ overall statuses := by
    apply worst_le_iff.mpr
    intro status hmem
    unfold overall
    split
    · cases status <;> decide
    · rename_i hunhealthy
      split
      · cases status with
        | unhealthy =>
            exact absurd (List.any_eq_true.mpr
              ⟨_, hmem, decide_eq_true rfl⟩) hunhealthy
        | _ => decide
      · rename_i hdegraded
        cases status with
        | unhealthy =>
            exact absurd (List.any_eq_true.mpr
              ⟨_, hmem, decide_eq_true rfl⟩) hunhealthy
        | degraded =>
            exact absurd (List.any_eq_true.mpr
              ⟨_, hmem, decide_eq_true rfl⟩) hdegraded
        | healthy => exact le_refl _
  refine le_antisymm ?_ hle
  unfold overall
  split
  · rename_i hany
    obtain ⟨status, hmem, hstatus⟩ := List.any_eq_true.mp hany
    rw [← of_decide_eq_true hstatus]
    exact le_worst hmem
  · split
    · rename_i hany
      obtain ⟨status, hmem, hstatus⟩ := List.any_eq_true.mp hany
      rw [← of_decide_eq_true hstatus]
      exact le_worst hmem
    · exact healthy_le _

/-! ## The record -/

/-- The record after the indicators have settled in turn. -/
def recordAll (checks : Checks) (settled : List HealthIndicator) : Checks :=
  settled.foldl (fun checks ind => assign checks ind.name ind.status) checks

/-- The record has the status of the last indicator of each name. -/
theorem get_recordAll_iff :
    (recordAll .empty settled).get name = some status ↔
      name ≠ "__proto__" ∧
        ∃ before ind after, settled = before ++ ind :: after ∧
          ind.name = name ∧ ind.status = status ∧
          ∀ later ∈ after, later.name ≠ name := by
  induction settled using List.reverseRecOn with
  | nil => simp [recordAll]
  | append_singleton settled ind ih =>
      rw [recordAll, List.foldl_concat, ← recordAll]
      constructor
      · intro hget
        rw [assign] at hget
        by_cases heq : name = ind.name
        · by_cases hproto : ind.name = "__proto__"
          · rw [if_pos hproto, ih] at hget
            exact absurd (heq.trans hproto) hget.1
          · rw [if_neg hproto, heq, InsertionMap.get_set_self,
              Option.some.injEq] at hget
            exact ⟨heq ▸ hproto, settled, ind, [], rfl, heq.symm, hget,
              List.forall_mem_nil _⟩
        · have hold : (recordAll .empty settled).get name = some status := by
            split at hget
            · exact hget
            · rwa [InsertionMap.get_set_of_ne _ _ heq] at hget
          obtain ⟨hproto, before, found, after, hsplit, hname, hstatus,
            hafter⟩ := ih.mp hold
          refine ⟨hproto, before, found, after ++ [ind], ?_, hname, hstatus,
            ?_⟩
          · rw [hsplit, List.append_assoc, List.cons_append]
          · exact List.forall_mem_append.mpr
              ⟨hafter, List.forall_mem_singleton.mpr (Ne.symm heq)⟩
      · rintro ⟨hproto, before, found, after, hsplit, hname, hstatus, hafter⟩
        rcases List.eq_nil_or_concat after with rfl | ⟨rest, final, rfl⟩
        · obtain ⟨-, hfound⟩ := List.append_inj' hsplit rfl
          rw [List.singleton_inj.mp hfound, assign, hname, if_neg hproto,
            InsertionMap.get_set_self, hstatus]
        · rw [List.concat_eq_append] at hsplit hafter
          rw [← List.cons_append, ← List.append_assoc] at hsplit
          obtain ⟨hsettled, hfinal⟩ := List.append_inj' hsplit rfl
          obtain ⟨hrest, hlast⟩ := List.forall_mem_append.mp hafter
          have hne : final.name ≠ name := hlast final List.mem_cons_self
          have hold := ih.mpr
            ⟨hproto, before, found, rest, hsettled, hname, hstatus, hrest⟩
          rw [List.singleton_inj.mp hfinal, assign]
          split
          · exact hold
          · rw [InsertionMap.get_set_of_ne _ _ (Ne.symm hne)]
            exact hold

/-- Some indicator with the worst status is the last to settle of those with
its name, unless all are healthy. -/
def WorstSettlesLast (settled : List HealthIndicator) : Prop :=
  worst (settled.map (·.status)) = healthy ∨
    ∃ before ind after, settled = before ++ ind :: after ∧
      ind.status = worst (settled.map (·.status)) ∧
      ind.name ≠ "__proto__" ∧ ∀ later ∈ after, later.name ≠ ind.name

theorem worst_recordAll_iff (settled : List HealthIndicator) :
    worst (recordAll .empty settled).values = worst (settled.map (·.status)) ↔
      WorstSettlesLast settled := by
  have hsub : ∀ status ∈ (recordAll .empty settled).values,
      status ∈ settled.map (·.status) := by
    intro status hmem
    obtain ⟨name, hget⟩ := InsertionMap.mem_values_iff.mp hmem
    obtain ⟨-, before, ind, after, rfl, -, rfl, -⟩ := get_recordAll_iff.mp hget
    exact List.mem_map.mpr ⟨ind, by simp, rfl⟩
  constructor
  · intro hworst
    by_cases hhealthy : worst (settled.map (·.status)) = healthy
    · exact .inl hhealthy
    · rw [← hworst] at hhealthy
      obtain ⟨name, hget⟩ :=
        InsertionMap.mem_values_iff.mp (worst_mem hhealthy)
      obtain ⟨hproto, before, ind, after, hsplit, rfl, hstatus, hafter⟩ :=
        get_recordAll_iff.mp hget
      exact .inr
        ⟨before, ind, after, hsplit, hstatus.trans hworst, hproto, hafter⟩
  · rintro (hhealthy | ⟨before, ind, after, hsplit, hstatus, hproto, hafter⟩)
    · rw [hhealthy]
      refine le_antisymm ?_ (healthy_le _)
      rw [← hhealthy]
      exact worst_mono hsub
    · refine le_antisymm (worst_mono hsub) ?_
      rw [← hstatus]
      apply le_worst
      exact InsertionMap.mem_values_iff.mpr ⟨ind.name, get_recordAll_iff.mpr
        ⟨hproto, before, ind, after, hsplit, rfl, rfl, hafter⟩⟩

/-! ## The runs of a check -/

/-- The indicators in the order in which their checks settle. -/
def inOrder (indicators : List HealthIndicator) (order : List ℕ) :
    List HealthIndicator :=
  order.filterMap fun index => indicators[index]?

theorem inOrder_range (indicators : List HealthIndicator) :
    inOrder indicators (List.range indicators.length) = indicators := by
  induction indicators with
  | nil => rfl
  | cons ind rest ih =>
      rw [inOrder, List.length_cons, List.range_succ_eq_map,
        List.filterMap_cons_some (by rfl), List.filterMap_map]
      exact congrArg (ind :: ·) ih

/-- Each check settles once, and what it leaves is recorded in turn. -/
theorem checks_of_exec
    (hrun : exec (step indicators) state order = some last) :
    last.checks = recordAll state.checks (inOrder indicators order) ∧
      state.pending.Perm (order ++ last.pending) := by
  induction order generalizing state with
  | nil =>
      cases hrun
      exact ⟨rfl, .refl _⟩
  | cons index rest ih =>
      obtain ⟨next, hstep, hrest⟩ := exec_cons_eq_some.mp hrun
      rw [step, Option.ite_none_right_eq_some,
        Option.map_eq_some_iff] at hstep
      obtain ⟨hpending, ind, hind, rfl⟩ := hstep
      obtain ⟨hchecks, hperm⟩ := ih hrest
      refine ⟨?_, ?_⟩
      · rw [hchecks, inOrder, inOrder, List.filterMap_cons_some hind]
        rfl
      · exact (List.perm_cons_erase hpending).trans (hperm.cons index)

/-- A report has the worst status of all indicators if and only if one that
has it is the last to settle of those with its name. -/
theorem report_status_eq_worst_iff {report : HealthReport} {now : ℤ}
    (hrun : exec (step indicators) (start indicators) order = some state)
    (hreport : HealthCheck.report state now = some report) :
    report.status = worst (indicators.map (·.status)) ↔
      WorstSettlesLast (inOrder indicators order) := by
  obtain ⟨hchecks, hperm⟩ := checks_of_exec hrun
  rw [HealthCheck.report, Option.ite_none_right_eq_some,
    Option.some.injEq] at hreport
  obtain ⟨hsettled, rfl⟩ := hreport
  rw [hsettled, List.append_nil] at hperm
  have hall : (inOrder indicators order).Perm indicators := by
    have hindicators := hperm.symm.filterMap fun index => indicators[index]?
    rw [← inOrder, ← inOrder] at hindicators
    simp only [start] at hindicators
    rw [inOrder_range] at hindicators
    exact hindicators
  have hworst : worst (indicators.map (·.status)) =
      worst ((inOrder indicators order).map (·.status)) := by
    apply le_antisymm
    · apply worst_mono
      intro status hmem
      exact (hall.map _).mem_iff.mpr hmem
    · apply worst_mono
      intro status hmem
      exact (hall.map _).mem_iff.mp hmem
  rw [hworst, overall_eq_worst, hchecks]
  exact worst_recordAll_iff _

/-- Two of the three indicators have one name. -/
def sameName : List HealthIndicator :=
  [⟨"db", .rejects⟩, ⟨"db", .resolves .healthy⟩,
    ⟨"queue", .resolves .degraded⟩]

theorem report_status_eq_worst_iff_samples :
    (∃ state report,
      exec (step sameName) (start sameName) [1, 0, 2] = some state ∧
      HealthCheck.report state 5 = some report ∧
      report.status = worst (sameName.map (·.status))) ∧
    (∃ state report,
      exec (step sameName) (start sameName) [0, 1, 2] = some state ∧
      HealthCheck.report state 5 = some report ∧
      ¬ WorstSettlesLast (inOrder sameName [0, 1, 2])) := by
  constructor
  · refine ⟨_, _, rfl, rfl, ?_⟩
    rw [report_status_eq_worst_iff
      (show exec _ (start sameName) [1, 0, 2] = some _ from rfl)
      (show HealthCheck.report _ 5 = some _ from rfl)]
    exact .inr ⟨[⟨"db", .resolves .healthy⟩], ⟨"db", .rejects⟩,
      [⟨"queue", .resolves .degraded⟩], rfl, rfl, by decide, by decide⟩
  · refine ⟨_, _, rfl, rfl, ?_⟩
    rw [← report_status_eq_worst_iff
      (show exec _ (start sameName) [0, 1, 2] = some _ from rfl)
      (show HealthCheck.report _ 5 = some _ from rfl)]
    decide

/-- The failure of one indicator is lost under the name of the other, and the
service is reported as degraded. -/
theorem report_hides_unhealthy :
    ∃ state report,
      exec (step sameName) (start sameName) [0, 1, 2] = some state ∧
      HealthCheck.report state 5 = some report ∧
      report.status = .degraded ∧
      worst (sameName.map (·.status)) = .unhealthy :=
  ⟨_, _, rfl, rfl, rfl, rfl⟩

end HealthCheck

end TsCommons.Resilience
