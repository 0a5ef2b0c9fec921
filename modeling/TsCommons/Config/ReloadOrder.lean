import TsCommons.Config.HotReloadConfigLoader
import TsCommons.Foundations.Execution
import Mathlib.Data.List.Pairwise

/-!
# The order of reloads

Reloads are numbered in the order in which they start, and their loads may end
in any order.  The current configuration and the listeners follow that of the
starts as long as no reload ends after a later one has, and none of the
listeners throws.
-/

namespace TsCommons.Config.ReloadOrder

open Foundations

variable {T F H : Type}

/-- A reload is waiting for its load, or it has resolved or rejected. -/
inductive Reload (T F : Type)
  | loading (load : Load T F)
  | resolved
  | rejected

/-- A configuration that became current, with the number of its reload and the
listeners that were registered. -/
structure Install (T H : Type) where
  reload : ℕ
  config : T
  listeners : List H

/-- `initial` is the configuration that was current at first. -/
structure State (T F H : Type) where
  loader : HotReloadConfigLoader T H
  initial : Option T
  reloads : List (Reload T F)
  installs : List (Install T H)
  calls : List (H × T)

def State.start (inner : ConfigLoader T) (initial : Option T) : State T F H :=
  ⟨⟨inner, initial, .empty⟩, initial, [], [], []⟩

/-- Every configuration that becomes current was loaded by a reload that had
started after that of the one it replaces; the listeners were told of each of
them in that order and of nothing else; and a reload that rejects has not
changed the current configuration. -/
structure ReloadLaw (state : State T F H) : Prop where
  current : state.loader.current =
    ((state.installs.getLast?).map Install.config).or state.initial
  ordered : (state.installs.map Install.reload).Pairwise (· < ·)
  told : state.calls = state.installs.flatMap fun install =>
    install.listeners.map fun listener => (listener, install.config)
  failed : ∀ number, state.reloads[number]? = some .rejected →
    number ∉ state.installs.map Install.reload

section Steps

variable [DecidableEq H]

inductive Label (F H : Type)
  | onChange (fn : H)
  | unsubscribe (fn : H)
  | reload
  | read (number : ℕ) (result : Except F RawConfig)
  | settle (number : ℕ) (throwing : List H)

/-- The load of a reload has ended: the reload rejects, or it replaces the
current configuration. -/
def State.settle (state : State T F H) (number : ℕ) (throwing : List H) :
    Except (LoadError F) T → State T F H
  | .error _ => { state with reloads := state.reloads.set number .rejected }
  | .ok next =>
      let result := state.loader.install next throwing
      let threw := result.2.any (· ∈ throwing)
      { state with
        loader := result.1
        reloads :=
          state.reloads.set number (if threw then .rejected else .resolved)
        installs := state.installs ++
          [⟨number, next, state.loader.listeners.elements⟩]
        calls := state.calls ++ result.2.map fun listener => (listener, next) }

def step (state : State T F H) : Label F H → Option (State T F H)
  | .onChange fn =>
      some { state with loader := state.loader.onChange fn }
  | .unsubscribe fn =>
      some { state with loader := state.loader.unsubscribe fn }
  | .reload =>
      some { state with
        reloads := state.reloads ++ [.loading state.loader.inner.load] }
  | .read number result =>
      match state.reloads[number]? with
      | some (.loading (.reading rawConfig left)) =>
          some { state with
            reloads := state.reloads.set number
              (.loading (state.loader.inner.read rawConfig left result)) }
      | _ => none
  | .settle number throwing =>
      match state.reloads[number]? with
      | some (.loading (.ended result)) =>
          some (state.settle number throwing result)
      | _ => none

/-- The number of the reload whose configuration is current. -/
def State.currentReload (state : State T F H) : Option ℕ :=
  (state.installs.getLast?).map Install.reload

/-- A reload that replaces the current configuration started after the one
whose configuration it replaces, and no registered listener throws. -/
def InstallsInOrder (state : State T F H) : Label F H → Prop
  | .settle number throwing =>
      match state.reloads[number]? with
      | some (.loading (.ended (.ok _))) =>
          (∀ current ∈ state.currentReload, current < number) ∧
            ∀ listener ∈ state.loader.listeners.elements,
              listener ∉ throwing
      | _ => True
  | _ => True

instance InstallsInOrder.decidable (state : State T F H) :
    (label : Label F H) → Decidable (InstallsInOrder state label)
  | .onChange _ => inferInstanceAs (Decidable True)
  | .unsubscribe _ => inferInstanceAs (Decidable True)
  | .reload => inferInstanceAs (Decidable True)
  | .read _ _ => inferInstanceAs (Decidable True)
  | .settle number throwing =>
      match hload : state.reloads[number]? with
      | some (.loading (.ended (.ok _))) =>
          decidable_of_iff
            ((∀ current ∈ state.currentReload, current < number) ∧
              ∀ listener ∈ state.loader.listeners.elements,
                listener ∉ throwing)
            (by simp [InstallsInOrder, hload])
      | some (.loading (.ended (.error _))) =>
          .isTrue (by simp [InstallsInOrder, hload])
      | some (.loading (.reading _ _)) =>
          .isTrue (by simp [InstallsInOrder, hload])
      | some .resolved => .isTrue (by simp [InstallsInOrder, hload])
      | some .rejected => .isTrue (by simp [InstallsInOrder, hload])
      | none => .isTrue (by simp [InstallsInOrder, hload])

variable {state next : State T F H} {label : Label F H} {number : ℕ}
  {throwing : List H} {config : T}

/-- The reloads that have replaced the configuration have resolved. -/
structure Invariant (state : State T F H) : Prop where
  current : state.loader.current =
    ((state.installs.getLast?).map Install.config).or state.initial
  ordered : (state.installs.map Install.reload).Pairwise (· < ·)
  told : state.calls = state.installs.flatMap fun install =>
    install.listeners.map fun listener => (listener, install.config)
  resolved : ∀ number ∈ state.installs.map Install.reload,
    state.reloads[number]? = some .resolved

omit [DecidableEq H] in
theorem invariant_start (inner : ConfigLoader T) (initial : Option T) :
    Invariant (State.start inner initial : State T F H) := by
  refine ⟨rfl, List.Pairwise.nil, rfl, ?_⟩
  intro number hmem
  cases hmem

omit [DecidableEq H] in
theorem Invariant.law (hinv : Invariant state) : ReloadLaw state := by
  refine ⟨hinv.current, hinv.ordered, hinv.told, ?_⟩
  intro number hrejected hmem
  rw [hinv.resolved number hmem] at hrejected
  cases hrejected

omit [DecidableEq H] in
/-- A reload that has not resolved yet may go on in any way. -/
theorem Invariant.set_reload (hinv : Invariant state)
    {load : Load T F} (hload : state.reloads[number]? = some (.loading load))
    (reload : Reload T F) :
    Invariant { state with reloads := state.reloads.set number reload } := by
  refine ⟨hinv.current, hinv.ordered, hinv.told, ?_⟩
  intro installed hmem
  have hresolved := hinv.resolved installed hmem
  have hne : number ≠ installed := by
    rintro rfl
    rw [hload] at hresolved
    cases hresolved
  rw [List.getElem?_set_ne hne]
  exact hresolved

/-- Ordered numbers stay so with one that is greater than the last of them. -/
theorem pairwise_concat_iff {numbers : List ℕ}
    (hordered : numbers.Pairwise (· < ·)) :
    (numbers ++ [number]).Pairwise (· < ·) ↔
      ∀ last ∈ numbers.getLast?, last < number := by
  rcases List.eq_nil_or_concat numbers with rfl | ⟨before, last, rfl⟩
  · simp
  · rw [List.concat_eq_append] at hordered ⊢
    rw [List.pairwise_append, List.getLast?_concat]
    have hbefore := (List.pairwise_append.mp hordered).2.2
    constructor
    · rintro ⟨-, -, hall⟩ found hfound
      rw [← Option.some.inj hfound]
      exact hall last (List.mem_append_right _ List.mem_cons_self) number
        List.mem_cons_self
    · intro hlast
      refine ⟨hordered, List.pairwise_singleton _ _, ?_⟩
      intro found hfound other hother
      rw [List.mem_singleton.mp hother]
      have hlt := hlast last rfl
      rcases List.mem_append.mp hfound with hearlier | hsame
      · exact Nat.lt_trans (hbefore found hearlier last List.mem_cons_self) hlt
      · rw [List.mem_singleton.mp hsame]
        exact hlt

theorem Invariant.settle (hinv : Invariant state)
    (hload : state.reloads[number]? = some (.loading (.ended (.ok config))))
    (hcurrent : ∀ current ∈ state.currentReload, current < number)
    (hnone : ∀ listener ∈ state.loader.listeners.elements,
      listener ∉ throwing) :
    Invariant (state.settle number throwing (.ok config)) := by
  have hreached : reached (· ∈ throwing) state.loader.listeners.elements =
      state.loader.listeners.elements :=
    reached_of_forall_not fun listener hmem =>
      decide_eq_false (hnone listener hmem)
  have hthrew : (reached (· ∈ throwing) state.loader.listeners.elements).any
      (· ∈ throwing) = false := by
    rw [hreached, List.any_eq_false]
    intro listener hmem
    rw [decide_eq_true_eq]
    exact hnone listener hmem
  obtain ⟨hlt, -⟩ := List.getElem?_eq_some_iff.mp hload
  simp only [State.settle, HotReloadConfigLoader.install, hthrew]
  refine ⟨?_, ?_, ?_, ?_⟩
  · simp
  · rw [List.map_append, List.map_singleton, pairwise_concat_iff hinv.ordered,
      List.getLast?_map]
    exact hcurrent
  · rw [List.flatMap_append, hreached, hinv.told]
    simp
  · intro installed hmem
    by_cases heq : number = installed
    · rw [← heq, List.getElem?_set_self hlt]
      rfl
    · rw [List.getElem?_set_ne heq]
      rw [List.map_append, List.mem_append] at hmem
      rcases hmem with hold | hnew
      · exact hinv.resolved installed hold
      · exact absurd (List.mem_singleton.mp hnew).symm heq

theorem Invariant.step (hinv : Invariant state)
    (hinstalls : InstallsInOrder state label)
    (hstep : step state label = some next) : Invariant next := by
  cases label with
  | onChange fn =>
      cases hstep
      exact ⟨hinv.current, hinv.ordered, hinv.told, hinv.resolved⟩
  | unsubscribe fn =>
      cases hstep
      exact ⟨hinv.current, hinv.ordered, hinv.told, hinv.resolved⟩
  | reload =>
      cases hstep
      refine ⟨hinv.current, hinv.ordered, hinv.told, ?_⟩
      intro number hmem
      have hresolved := hinv.resolved number hmem
      obtain ⟨hlt, -⟩ := List.getElem?_eq_some_iff.mp hresolved
      rw [List.getElem?_append_left hlt]
      exact hresolved
  | read number result =>
      simp only [ReloadOrder.step] at hstep
      split at hstep
      · rename_i hload
        cases hstep
        exact hinv.set_reload hload _
      · cases hstep
  | settle number throwing =>
      simp only [ReloadOrder.step] at hstep
      split at hstep
      · rename_i result hload
        cases hstep
        cases result with
        | error error => exact hinv.set_reload hload _
        | ok config =>
            rw [InstallsInOrder, hload] at hinstalls
            exact hinv.settle hload hinstalls.1 hinstalls.2
      · cases hstep

/-- A reload that ends after a later one, or that calls a listener that
throws, breaks the law. -/
theorem Invariant.installsInOrder_of_settle (hinv : Invariant state)
    (hload : state.reloads[number]? = some (.loading (.ended (.ok config))))
    (hlaw : ReloadLaw (state.settle number throwing (.ok config))) :
    InstallsInOrder state (.settle number throwing) := by
  obtain ⟨hlt, -⟩ := List.getElem?_eq_some_iff.mp hload
  rw [InstallsInOrder, hload]
  constructor
  · have hordered := hlaw.ordered
    simp only [State.settle, List.map_append, List.map_singleton,
      pairwise_concat_iff hinv.ordered, List.getLast?_map] at hordered
    exact hordered
  · intro listener hmem hthrows
    have hthrew : (reached (· ∈ throwing)
        state.loader.listeners.elements).any (· ∈ throwing) = true := by
      rw [any_reached, List.any_eq_true]
      exact ⟨listener, hmem, decide_eq_true hthrows⟩
    refine hlaw.failed number ?_ ?_
    · simp only [State.settle, HotReloadConfigLoader.install, hthrew]
      rw [List.getElem?_set_self hlt]
      rfl
    · simp [State.settle]

theorem installsInOrder_of_law (hinv : Invariant state)
    (hstep : step state label = some next) (hlaw : ReloadLaw next) :
    InstallsInOrder state label := by
  cases label with
  | onChange fn => trivial
  | unsubscribe fn => trivial
  | reload => trivial
  | read number result => trivial
  | settle number throwing =>
      simp only [step] at hstep
      split at hstep
      · rename_i result hload
        cases hstep
        cases result with
        | error error =>
            rw [InstallsInOrder, hload]
            trivial
        | ok config => exact hinv.installsInOrder_of_settle hload hlaw
      · cases hstep

/-- The current configuration and the listeners follow the order in which the
reloads started, in every state of a run, if and only if all its steps install
in order. -/
theorem reloadLaw_iff_installsInOrder {inner : ConfigLoader T}
    {initial : Option T} {labels : List (Label F H)}
    (hrun : exec step (State.start inner initial : State T F H) labels =
      some state) :
    Throughout step ReloadLaw (State.start inner initial : State T F H)
        labels ↔
      StepsMeet step InstallsInOrder
        (State.start inner initial : State T F H) labels :=
  throughout_iff_stepsMeet (I := Invariant) (fun _ hinv => hinv.law)
    (fun _ _ _ hinv hinstalls hstep => hinv.step hinstalls hstep)
    (fun _ _ _ hinv hnot hstep hlaw =>
      hnot (installsInOrder_of_law hinv hstep hlaw))
    (invariant_start inner initial) hrun

/-- A schema that asks for one value. -/
def requiresPort : ConfigLoader String :=
  ⟨fun rawConfig =>
    match rawConfig.get "PORT" with
    | some (some port) => .ok port
    | _ => .error ["PORT: Required"], 1⟩

def ports (port : String) : RawConfig :=
  InsertionMap.empty.set "PORT" (some port)

def sampleState : State String String ℕ := State.start requiresPort (some "80")

/-- Of three reloads the second fails, and the third ends after the first. -/
def endInOrder : List (Label String ℕ) :=
  [.onChange 7, .reload, .reload, .reload, .read 2 (.ok (ports "82")),
    .read 1 (.ok .empty), .settle 1 [], .read 0 (.ok (ports "81")),
    .settle 0 [], .unsubscribe 7, .settle 2 []]

/-- The first of two reloads ends after the second. -/
def endReversed : List (Label String ℕ) :=
  [.onChange 7, .reload, .reload, .read 1 (.ok (ports "82")), .settle 1 [],
    .read 0 (.ok (ports "81")), .settle 0 []]

theorem reloadLaw_iff_installsInOrder_samples :
    Throughout step ReloadLaw sampleState endInOrder ∧
      ¬ Throughout step ReloadLaw sampleState endReversed := by
  have hordered : (exec step sampleState endInOrder).map State.calls =
      some [(7, "81")] := by
    decide +kernel
  have hreversed : (exec step sampleState endReversed).map State.calls =
      some [(7, "82"), (7, "81")] := by
    decide +kernel
  obtain ⟨_, hordered, -⟩ := Option.map_eq_some_iff.mp hordered
  obtain ⟨_, hreversed, -⟩ := Option.map_eq_some_iff.mp hreversed
  constructor
  · apply (reloadLaw_iff_installsInOrder hordered).mpr
    decide +kernel
  · intro hlaw
    have hmeet := (reloadLaw_iff_installsInOrder hreversed).mp hlaw
    exact absurd hmeet (by decide +kernel)

/-- The configuration of the second reload is replaced by that of the first. -/
theorem not_reloadLaw_endReversed :
    ∃ state, exec step sampleState endReversed = some state ∧
      state.installs.map Install.reload = [1, 0] ∧
      state.loader.current = some "81" ∧ ¬ ReloadLaw state := by
  have hsome : (exec step sampleState endReversed).any (fun state =>
      state.installs.map Install.reload = [1, 0] ∧
        state.loader.current = some "81") := by
    decide +kernel
  obtain ⟨state, hrun, hfacts⟩ := (Option.any_eq_true _ _).mp hsome
  obtain ⟨hinstalls, hcurrent⟩ := of_decide_eq_true hfacts
  refine ⟨state, hrun, hinstalls, hcurrent, fun hlaw => ?_⟩
  have hordered := hlaw.ordered
  rw [hinstalls] at hordered
  exact absurd hordered (by decide)

end Steps

end TsCommons.Config.ReloadOrder
