import TsCommons.Discovery.ServiceRegistry
import Mathlib.Algebra.Order.Ring.Int
import Mathlib.Data.Int.Notation
import Mathlib.Data.List.Induction

/-!
# The least connections balancer

An instance with the fewest connections is chosen, the first of them where
there are several.  The connections of an id are the times at which it was
chosen less the releases that found a connection to close.
-/

namespace TsCommons.Discovery

open Foundations

structure LeastConnectionsBalancer where
  connections : InsertionMap String ℤ

namespace LeastConnectionsBalancer

def getConnections (balancer : LeastConnectionsBalancer)
    (instanceId : String) : ℤ :=
  (balancer.connections.get instanceId).getD 0

/-- The instance chosen so far, with its connections, after one more. -/
def better (balancer : LeastConnectionsBalancer)
    (best : ServiceInstance × ℤ) (inst : ServiceInstance) :
    ServiceInstance × ℤ :=
  let conns := balancer.getConnections inst.id
  if conns < best.2 then (inst, conns) else best

def next (balancer : LeastConnectionsBalancer) :
    List ServiceInstance → LeastConnectionsBalancer × Option ServiceInstance
  | [] => (balancer, none)
  | first :: rest =>
      let chosen := (rest.foldl balancer.better
        (first, balancer.getConnections first.id)).1
      (⟨balancer.connections.set chosen.id
        (balancer.getConnections chosen.id + 1)⟩, some chosen)

def release (balancer : LeastConnectionsBalancer) (instanceId : String) :
    LeastConnectionsBalancer :=
  let current := balancer.getConnections instanceId
  if 0 < current then ⟨balancer.connections.set instanceId (current - 1)⟩
  else balancer

/-! ## Calls -/

/-- `chosen` are the ids that were chosen, and `released` those of the releases
that happened while the count was positive. -/
structure State where
  balancer : LeastConnectionsBalancer
  chosen : List String
  released : List String

inductive Call
  | next (instances : List ServiceInstance)
  | release (instanceId : String)

def perform (state : State) : Call → State
  | .next instances =>
      let result := state.balancer.next instances
      { state with
        balancer := result.1
        chosen := state.chosen ++ result.2.toList.map (·.id) }
  | .release instanceId =>
      { state with
        balancer := state.balancer.release instanceId
        released := state.released ++
          if 0 < state.balancer.getConnections instanceId then [instanceId]
          else [] }

def run (calls : List Call) : State :=
  calls.foldl perform ⟨⟨.empty⟩, [], []⟩

/-- The first of the instances with the fewest connections. -/
def IsFirstLeast (balancer : LeastConnectionsBalancer)
    (instances : List ServiceInstance) (chosen : ServiceInstance) : Prop :=
  ∃ before after, instances = before ++ chosen :: after ∧
    (∀ inst ∈ before, balancer.getConnections chosen.id <
      balancer.getConnections inst.id) ∧
    ∀ inst ∈ after, balancer.getConnections chosen.id ≤
      balancer.getConnections inst.id

variable {balancer : LeastConnectionsBalancer} {state : State}
  {instances : List ServiceInstance} {inst chosen : ServiceInstance}
  {instanceId : String}

/-! ## The choice -/

theorem isFirstLeast_foldl (rest : List ServiceInstance)
    {before : List ServiceInstance} {best : ServiceInstance}
    (hbefore : balancer.IsFirstLeast before best) :
    ∃ chosen, rest.foldl balancer.better
        (best, balancer.getConnections best.id) =
          (chosen, balancer.getConnections chosen.id) ∧
      balancer.IsFirstLeast (before ++ rest) chosen := by
  induction rest generalizing before best with
  | nil => exact ⟨best, rfl, (List.append_nil before).symm ▸ hbefore⟩
  | cons inst rest ih =>
      rw [List.append_cons, List.foldl_cons, better]
      obtain ⟨earlier, later, rfl, hearlier, hlater⟩ := hbefore
      split
      next hless =>
        apply ih
        refine ⟨earlier ++ best :: later, [], rfl, ?_, List.forall_mem_nil _⟩
        intro other hother
        rcases List.mem_append.mp hother with hmem | hmem
        · exact hless.trans (hearlier other hmem)
        · rcases List.mem_cons.mp hmem with rfl | hmem
          · exact hless
          · exact hless.trans_le (hlater other hmem)
      next hnot =>
        apply ih
        refine ⟨earlier, later ++ [inst], by simp, hearlier, ?_⟩
        intro other hother
        rcases List.mem_append.mp hother with hmem | hmem
        · exact hlater other hmem
        · rw [List.mem_singleton.mp hmem]
          exact not_lt.mp hnot

/-- A choice adds one connection to the first of the least. -/
theorem next_cases (balancer : LeastConnectionsBalancer)
    (hinstances : instances ≠ []) :
    ∃ chosen, balancer.IsFirstLeast instances chosen ∧
      balancer.next instances = (⟨balancer.connections.set chosen.id
        (balancer.getConnections chosen.id + 1)⟩, some chosen) := by
  obtain ⟨first, rest, rfl⟩ := List.exists_cons_of_ne_nil hinstances
  have hfirst : balancer.IsFirstLeast [first] first :=
    ⟨[], [], rfl, List.forall_mem_nil _, List.forall_mem_nil _⟩
  obtain ⟨chosen, hfold, hleast⟩ := isFirstLeast_foldl rest hfirst
  refine ⟨chosen, hleast, ?_⟩
  rw [next, hfold]

theorem getConnections_set (key : String) (value : ℤ) :
    (⟨balancer.connections.set key value⟩ :
      LeastConnectionsBalancer).getConnections instanceId =
        if instanceId = key then value
        else balancer.getConnections instanceId := by
  rw [getConnections, InsertionMap.get_set]
  split
  · rfl
  · rfl

theorem IsFirstLeast.le (hleast : balancer.IsFirstLeast instances chosen)
    (hinst : inst ∈ instances) :
    balancer.getConnections chosen.id ≤ balancer.getConnections inst.id := by
  obtain ⟨before, after, rfl, hbefore, hafter⟩ := hleast
  rcases List.mem_append.mp hinst with hmem | hmem
  · exact (hbefore inst hmem).le
  · rcases List.mem_cons.mp hmem with rfl | hmem
    · exact le_rfl
    · exact hafter inst hmem

/-! ## The counts -/

/-- The connections are those chosen and not released, and never negative. -/
def Counted (state : State) : Prop :=
  ∀ instanceId,
    state.balancer.getConnections instanceId =
      state.chosen.count instanceId - state.released.count instanceId ∧
    0 ≤ state.balancer.getConnections instanceId

theorem Counted.perform (hcounted : Counted state) (call : Call) :
    Counted (perform state call) := by
  intro instanceId
  obtain ⟨hcount, hnonneg⟩ := hcounted instanceId
  cases call with
  | next instances =>
      simp only [LeastConnectionsBalancer.perform]
      by_cases hinstances : instances = []
      · subst hinstances
        simpa [LeastConnectionsBalancer.next] using hcounted instanceId
      · obtain ⟨chosen, -, hnext⟩ := next_cases state.balancer hinstances
        rw [hnext, getConnections_set, Option.toList_some, List.map_singleton,
          List.count_append, List.count_singleton]
        by_cases heq : instanceId = chosen.id
        · subst heq
          simp only [if_true, beq_self_eq_true]
          omega
        · simp only [if_neg heq, beq_iff_eq, if_neg (Ne.symm heq)]
          omega
  | release released =>
      simp only [LeastConnectionsBalancer.perform,
        LeastConnectionsBalancer.release]
      split
      next hpos =>
        rw [getConnections_set, List.count_append, List.count_singleton]
        by_cases heq : instanceId = released
        · subst heq
          simp only [if_true, beq_self_eq_true]
          omega
        · simp only [if_neg heq, beq_iff_eq, if_neg (Ne.symm heq)]
          omega
      next hnot =>
        rw [List.append_nil]
        exact ⟨hcount, hnonneg⟩

theorem run_concat (calls : List Call) (call : Call) :
    run (calls ++ [call]) = perform (run calls) call :=
  List.foldl_concat ..

theorem counted_run (calls : List Call) : Counted (run calls) := by
  induction calls using List.reverseRecOn with
  | nil => exact fun instanceId => ⟨rfl, le_rfl⟩
  | append_singleton calls call ih =>
      rw [run_concat]
      exact ih.perform call

/-! ## Fairness -/

/-- The connections of any two instances differ by at most one. -/
def Even (balancer : LeastConnectionsBalancer)
    (instances : List ServiceInstance) : Prop :=
  ∀ first ∈ instances, ∀ second ∈ instances,
    balancer.getConnections first.id ≤ balancer.getConnections second.id + 1

theorem Even.next (heven : balancer.Even instances) :
    (balancer.next instances).1.Even instances := by
  by_cases hinstances : instances = []
  · subst hinstances
    exact List.forall_mem_nil _
  · obtain ⟨chosen, hleast, hnext⟩ := next_cases balancer hinstances
    intro first hfirst second hsecond
    have hpair := heven first hfirst second hsecond
    have hle := hleast.le hsecond
    rw [hnext, getConnections_set, getConnections_set]
    split
    next heq =>
      split
      · omega
      · omega
    next hne =>
      split
      next heq =>
        rw [heq] at hpair
        omega
      next => exact hpair

theorem even_of_unused (calls : List Call)
    (hunused : ∀ inst ∈ instances, inst.id ∉ (run calls).chosen)
    (rounds : ℕ) :
    (run (calls ++ List.replicate rounds (.next instances))).balancer.Even
      instances := by
  induction rounds with
  | zero =>
      have hzero : ∀ inst ∈ instances,
          (run calls).balancer.getConnections inst.id = 0 := by
        intro inst hinst
        obtain ⟨hcount, hnonneg⟩ := counted_run calls inst.id
        rw [List.count_eq_zero_of_not_mem (hunused inst hinst)] at hcount
        omega
      intro first hfirst second hsecond
      rw [List.replicate_zero, List.append_nil, hzero first hfirst,
        hzero second hsecond]
      exact zero_le_one
  | succ rounds ih =>
      rw [List.replicate_succ', ← List.append_assoc, run_concat]
      exact ih.next

/-- The counts are right after any calls, every choice is the first of the
least, and choices among unused instances stay even. -/
theorem leastConnections_law (calls : List Call) :
    Counted (run calls) ∧
    (∀ instances, instances ≠ [] → ∃ chosen,
      ((run calls).balancer.next instances).2 = some chosen ∧
      (run calls).balancer.IsFirstLeast instances chosen) ∧
    ∀ instances, (∀ inst ∈ instances, inst.id ∉ (run calls).chosen) →
      ∀ rounds,
        (run (calls ++ List.replicate rounds (.next instances))).balancer.Even
          instances := by
  refine ⟨counted_run calls, ?_, ?_⟩
  · intro instances hinstances
    obtain ⟨chosen, hleast, hnext⟩ :=
      next_cases (run calls).balancer hinstances
    exact ⟨chosen, congrArg Prod.snd hnext, hleast⟩
  · exact fun instances hunused rounds => even_of_unused calls hunused rounds

/-- Three instances, the first of which is chosen and released twice. -/
def threeInstances : List ServiceInstance :=
  ["a", "b", "c"].map fun id => { (default : ServiceInstance) with id := id }

def releasedTwice : List Call :=
  [.next (threeInstances.take 1), .release "a", .release "a"]

theorem leastConnections_law_sample :
    (run releasedTwice).balancer.getConnections "a" = 1 - 1 ∧
    (∃ chosen, ((run releasedTwice).balancer.next threeInstances).2 =
      some chosen ∧ chosen.id = "a") ∧
    (run (releasedTwice ++ List.replicate 4
      (.next (threeInstances.drop 1)))).balancer.Even
        (threeInstances.drop 1) := by
  obtain ⟨hcounted, hchoice, heven⟩ := leastConnections_law releasedTwice
  refine ⟨(hcounted "a").1, ?_, heven _ (by decide +kernel) 4⟩
  obtain ⟨chosen, hchosen, -⟩ := hchoice threeInstances (by decide +kernel)
  refine ⟨chosen, hchosen, ?_⟩
  have hfirst : ((run releasedTwice).balancer.next threeInstances).2.map
      (·.id) = some "a" := by
    decide +kernel
  rw [hchosen] at hfirst
  exact Option.some.inj hfirst

end LeastConnectionsBalancer

end TsCommons.Discovery
