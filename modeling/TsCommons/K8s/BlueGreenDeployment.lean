import TsCommons.Foundations.Execution
import Mathlib.Algebra.Order.Ring.Rat
import Mathlib.Logic.Function.Basic

/-!
# The blue-green deployment

Two slots are deployed to, and the traffic goes to the one of the active
colour.  `switchTraffic` checks the slot that it switches to; `rollback` goes
to the other colour unseen.
-/

namespace TsCommons.K8s.BlueGreen

open Foundations

inductive DeploymentColor
  | blue
  | green
deriving DecidableEq

def DeploymentColor.text : DeploymentColor → String
  | .blue => "blue"
  | .green => "green"

structure BlueGreenConfig where
  replicas : Option ℕ

structure DeploymentSlot where
  color : DeploymentColor
  image : String
  replicas : ℕ
  readyReplicas : ℕ
  active : Bool
  createdAt : ℚ
deriving DecidableEq

structure TrafficSwitchResult where
  «from» : DeploymentColor
  «to» : DeploymentColor
  success : Bool
  message : String
  switchedAt : ℚ
deriving DecidableEq

structure RollbackResult where
  «from» : DeploymentColor
  «to» : DeploymentColor
  reason : String
  rolledBackAt : ℚ
deriving DecidableEq

structure BlueGreenDeployment where
  config : BlueGreenConfig
  slots : DeploymentColor → Option DeploymentSlot
  activeColor : DeploymentColor

namespace BlueGreenDeployment

def create (config : BlueGreenConfig) : BlueGreenDeployment where
  config := config
  slots := fun _ => none
  activeColor := .blue

def inactiveColor (deployment : BlueGreenDeployment) : DeploymentColor :=
  if deployment.activeColor = .blue then .green else .blue

def deploy (deployment : BlueGreenDeployment) (color : DeploymentColor)
    (image : String) (now : ℚ) : BlueGreenDeployment × DeploymentSlot :=
  let replicas := deployment.config.replicas.getD 2
  let slot : DeploymentSlot :=
    { color := color
      image := image
      replicas := replicas
      readyReplicas := replicas
      active := color = deployment.activeColor
      createdAt := now }
  ({ deployment with
      slots := Function.update deployment.slots color (some slot) }, slot)

def setActive (deployment : BlueGreenDeployment) (color : DeploymentColor) :
    BlueGreenDeployment :=
  { deployment with
    activeColor := color
    slots := fun key => (deployment.slots key).map fun slot =>
      { slot with active := key = color } }

def switchTraffic (deployment : BlueGreenDeployment) (color : DeploymentColor)
    (now : ℚ) : BlueGreenDeployment × TrafficSwitchResult :=
  let from' := deployment.activeColor
  match deployment.slots color with
  | none =>
      (deployment, ⟨from', color, false,
        "Slot " ++ color.text ++ " is not deployed", now⟩)
  | some slot =>
      if slot.readyReplicas < slot.replicas then
        (deployment, ⟨from', color, false,
          "Slot " ++ color.text ++ " is not ready (" ++
            toString slot.readyReplicas ++ "/" ++ toString slot.replicas ++
            " replicas ready)", now⟩)
      else
        (deployment.setActive color, ⟨from', color, true,
          "Traffic switched from " ++ from'.text ++ " to " ++ color.text, now⟩)

def rollback (deployment : BlueGreenDeployment) (reason : String) (now : ℚ) :
    BlueGreenDeployment × RollbackResult :=
  let from' := deployment.activeColor
  let to' := deployment.inactiveColor
  (deployment.setActive to', ⟨from', to', reason, now⟩)

/-- The traffic goes to a slot all of whose replicas are ready. -/
def Serves (deployment : BlueGreenDeployment) : Prop :=
  ∃ slot ∈ deployment.slots deployment.activeColor,
    slot.readyReplicas = slot.replicas

/-- Slots lie under their colours and are ready, and the one of the active
colour is marked active. -/
def SlotsFit (deployment : BlueGreenDeployment) : Prop :=
  ∀ color, ∀ slot ∈ deployment.slots color,
    slot.color = color ∧ slot.readyReplicas = slot.replicas ∧
      slot.active = decide (color = deployment.activeColor)

variable {deployment : BlueGreenDeployment} {color : DeploymentColor}
  {slot : DeploymentSlot}

theorem slots_deploy (deployment : BlueGreenDeployment)
    (color : DeploymentColor) (image : String) (now : ℚ) :
    (deployment.deploy color image now).1.slots =
      Function.update deployment.slots color
        (some (deployment.deploy color image now).2) := rfl

theorem slotsFit_create (config : BlueGreenConfig) :
    (create config).SlotsFit := by
  intro color slot hslot
  cases hslot

theorem SlotsFit.deploy (hfit : deployment.SlotsFit) (color : DeploymentColor)
    (image : String) (now : ℚ) :
    (deployment.deploy color image now).1.SlotsFit := by
  intro other slot hslot
  rw [slots_deploy, Option.mem_def] at hslot
  by_cases heq : other = color
  · subst other
    rw [Function.update_self] at hslot
    cases hslot
    exact ⟨rfl, rfl, rfl⟩
  · rw [Function.update_of_ne heq] at hslot
    exact hfit other slot hslot

theorem SlotsFit.setActive (hfit : deployment.SlotsFit)
    (color : DeploymentColor) : (deployment.setActive color).SlotsFit := by
  intro other slot hslot
  obtain ⟨old, hold, rfl⟩ := Option.map_eq_some_iff.mp hslot
  obtain ⟨hcolor, hready, -⟩ := hfit other old hold
  exact ⟨hcolor, hready, rfl⟩

theorem serves_iff (hfit : deployment.SlotsFit) :
    deployment.Serves ↔
      (deployment.slots deployment.activeColor).isSome = true := by
  constructor
  · rintro ⟨slot, hslot, -⟩
    exact Option.isSome_iff_exists.mpr ⟨slot, hslot⟩
  · intro hsome
    obtain ⟨slot, hslot⟩ := Option.isSome_iff_exists.mp hsome
    exact ⟨slot, hslot, (hfit _ slot hslot).2.1⟩

theorem isSome_slots_deploy (deployment : BlueGreenDeployment)
    (color other : DeploymentColor) (image : String) (now : ℚ)
    (hsome : (deployment.slots other).isSome = true) :
    ((deployment.deploy color image now).1.slots other).isSome = true := by
  rw [slots_deploy]
  by_cases heq : other = color
  · subst other
    rw [Function.update_self]
    rfl
  · rw [Function.update_of_ne heq]
    exact hsome

@[simp] theorem isSome_slots_setActive (deployment : BlueGreenDeployment)
    (color other : DeploymentColor) :
    ((deployment.setActive color).slots other).isSome =
      (deployment.slots other).isSome :=
  Option.isSome_map

/-- A switch either goes to a deployed slot or changes nothing. -/
theorem switchTraffic_cases (deployment : BlueGreenDeployment)
    (color : DeploymentColor) (now : ℚ) :
    (deployment.slots color).isSome = true ∧
        (deployment.switchTraffic color now).1 = deployment.setActive color ∧
        (deployment.switchTraffic color now).2.success = true ∨
      (deployment.switchTraffic color now).1 = deployment ∧
        (deployment.switchTraffic color now).2.success = false := by
  unfold switchTraffic
  cases hslot : deployment.slots color with
  | none => exact .inr ⟨rfl, rfl⟩
  | some slot =>
      by_cases hready : slot.readyReplicas < slot.replicas
      · simp [hready]
      · simp [hready]

end BlueGreenDeployment

/-! ## Calls in any order -/

/-- `switched` is whether a switch of the traffic has succeeded. -/
structure State where
  deployment : BlueGreenDeployment
  switched : Bool

def State.initial (config : BlueGreenConfig) : State :=
  ⟨.create config, false⟩

inductive Label
  | deploy (color : DeploymentColor) (image : String) (now : ℚ)
  | switchTraffic (color : DeploymentColor) (now : ℚ)
  | rollback (reason : String) (now : ℚ)

def State.switchTraffic (state : State) (color : DeploymentColor) (now : ℚ) :
    State :=
  let (deployment, result) := state.deployment.switchTraffic color now
  ⟨deployment, state.switched || result.success⟩

def step (state : State) : Label → Option State
  | .deploy color image now =>
      some { state with
        deployment := (state.deployment.deploy color image now).1 }
  | .switchTraffic color now => some (state.switchTraffic color now)
  | .rollback reason now =>
      some { state with deployment := (state.deployment.rollback reason now).1 }

/-- A slot is marked active if and only if its colour is the active one, and a
switch that does not succeed changes nothing. -/
structure SlotLaw (state : State) : Prop where
  marks : ∀ color, ∀ slot ∈ state.deployment.slots color,
    slot.color = color ∧
      (slot.active = true ↔ slot.color = state.deployment.activeColor)
  refused : ∀ color now,
    (state.deployment.switchTraffic color now).2.success = false →
      (state.deployment.switchTraffic color now).1 = state.deployment

def ServesOnceSwitched (state : State) : Prop :=
  state.switched = true → state.deployment.Serves

/-- A rollback after a successful switch finds the other colour deployed. -/
def RollsBackToDeployed (state : State) : Label → Prop
  | .rollback _ _ => state.switched = true →
      (state.deployment.slots state.deployment.inactiveColor).isSome = true
  | _ => True

instance RollsBackToDeployed.decidable (state : State) (label : Label) :
    Decidable (RollsBackToDeployed state label) :=
  match label with
  | .rollback _ _ => inferInstanceAs (Decidable (state.switched = true →
      (state.deployment.slots state.deployment.inactiveColor).isSome = true))
  | .deploy _ _ _ => inferInstanceAs (Decidable True)
  | .switchTraffic _ _ => inferInstanceAs (Decidable True)

variable {config : BlueGreenConfig} {state next : State} {label : Label}

theorem slotLaw_of_slotsFit (hfit : state.deployment.SlotsFit) :
    SlotLaw state := by
  refine ⟨fun color slot hslot => ?_, fun color now hrefused => ?_⟩
  · obtain ⟨hcolor, -, hactive⟩ := hfit color slot hslot
    rw [hactive, decide_eq_true_iff, hcolor]
    exact ⟨rfl, Iff.rfl⟩
  · obtain ⟨-, -, hsuccess⟩ | ⟨hnext, -⟩ :=
      state.deployment.switchTraffic_cases color now
    · rw [hrefused] at hsuccess
      cases hsuccess
    · exact hnext

/-- A switch succeeds for a deployed slot and otherwise changes nothing. -/
theorem switchTraffic_cases (state : State) (color : DeploymentColor)
    (now : ℚ) :
    (state.deployment.slots color).isSome = true ∧
        state.switchTraffic color now =
          ⟨state.deployment.setActive color, true⟩ ∨
      state.switchTraffic color now = state := by
  unfold State.switchTraffic
  obtain ⟨hthere, hnext, hsuccess⟩ | ⟨hnext, hsuccess⟩ :=
    state.deployment.switchTraffic_cases color now
  · exact .inl ⟨hthere, by simp only [hnext, hsuccess, Bool.or_true]⟩
  · exact .inr (by simp only [hnext, hsuccess, Bool.or_false])

theorem slotsFit_of_step (hfit : state.deployment.SlotsFit)
    (hstep : step state label = some next) : next.deployment.SlotsFit := by
  cases label with
  | deploy color image now =>
      cases hstep
      exact hfit.deploy color image now
  | switchTraffic color now =>
      cases hstep
      obtain ⟨-, hnext⟩ | hnext := switchTraffic_cases state color now
      · rw [hnext]
        exact hfit.setActive color
      · rw [hnext]
        exact hfit
  | rollback reason now =>
      cases hstep
      exact hfit.setActive _

structure Invariant (state : State) : Prop where
  fit : state.deployment.SlotsFit
  serves : state.switched = true →
    (state.deployment.slots state.deployment.activeColor).isSome = true

theorem invariant_initial (config : BlueGreenConfig) :
    Invariant (State.initial config) :=
  ⟨BlueGreenDeployment.slotsFit_create config,
    fun hswitched => nomatch hswitched⟩

theorem Invariant.step (hinv : Invariant state)
    (hdeployed : RollsBackToDeployed state label)
    (hstep : step state label = some next) : Invariant next := by
  refine ⟨slotsFit_of_step hinv.fit hstep, ?_⟩
  cases label with
  | deploy color image now =>
      cases hstep
      exact fun hswitched => state.deployment.isSome_slots_deploy color _
        image now (hinv.serves hswitched)
  | switchTraffic color now =>
      cases hstep
      obtain ⟨hthere, hnext⟩ | hnext := switchTraffic_cases state color now
      · rw [hnext, BlueGreenDeployment.isSome_slots_setActive]
        exact fun _ => hthere
      · rw [hnext]
        exact hinv.serves
  | rollback reason now =>
      cases hstep
      rw [BlueGreenDeployment.rollback,
        BlueGreenDeployment.isSome_slots_setActive]
      exact hdeployed

theorem not_serves_of_step (hinv : Invariant state)
    (hnot : ¬ RollsBackToDeployed state label)
    (hstep : BlueGreen.step state label = some next) :
    ¬ ServesOnceSwitched next := by
  cases label with
  | rollback reason now =>
      cases hstep
      intro hlaw
      apply hnot
      intro hswitched
      have hserves : (state.deployment.setActive
          state.deployment.inactiveColor).Serves := hlaw hswitched
      rw [BlueGreenDeployment.serves_iff (hinv.fit.setActive _),
        BlueGreenDeployment.isSome_slots_setActive] at hserves
      exact hserves
  | deploy color image now => exact absurd trivial hnot
  | switchTraffic color now => exact absurd trivial hnot

/-- Marks and refused switches are right in every run, and the active slot is
deployed and ready from the first successful switch on in exactly those whose
later rollbacks find the other colour deployed. -/
theorem slotLaw_and_serves_iff {labels : List Label}
    (hrun : exec step (State.initial config) labels = some state) :
    Throughout step SlotLaw (State.initial config) labels ∧
      (Throughout step ServesOnceSwitched (State.initial config) labels ↔
        StepsMeet step RollsBackToDeployed (State.initial config) labels) := by
  constructor
  · apply (throughout_iff_stepsMeet (P := fun _ _ => True)
      (I := fun state => state.deployment.SlotsFit)
      (fun _ hfit => slotLaw_of_slotsFit hfit)
      (fun _ _ _ hfit _ hstep => slotsFit_of_step hfit hstep)
      (fun _ _ _ _ hnot => absurd trivial hnot)
      (BlueGreenDeployment.slotsFit_create config) hrun).mpr
    exact StepsMeet.of_forall_mem fun _ _ _ => trivial
  · exact throughout_iff_stepsMeet (I := Invariant)
      (fun _ hinv hswitched =>
        (BlueGreenDeployment.serves_iff hinv.fit).mpr (hinv.serves hswitched))
      (fun _ _ _ hinv hdeployed hstep => hinv.step hdeployed hstep)
      (fun _ _ _ hinv hnot hstep => not_serves_of_step hinv hnot hstep)
      (invariant_initial config) hrun

/-- The first slot is green, and the traffic is switched there and back. -/
def thereAndBack (before : List Label) : List Label :=
  before ++ [.deploy .green "my-app:v2" 1, .switchTraffic .green 2,
    .rollback "smoke tests failed" 3]

/-- A deployment with the default number of replicas. -/
def deployed : State := State.initial ⟨none⟩

theorem slotLaw_and_serves_iff_samples :
    Throughout step ServesOnceSwitched deployed
        (thereAndBack [.deploy .blue "my-app:v1" 0]) ∧
      Throughout step SlotLaw deployed (thereAndBack []) ∧
      ¬ Throughout step ServesOnceSwitched deployed (thereAndBack []) := by
  have hboth : (exec step deployed
      (thereAndBack [.deploy .blue "my-app:v1" 0])).isSome := by
    decide +kernel
  have hgreen : (exec step deployed (thereAndBack [])).isSome := by
    decide +kernel
  obtain ⟨_, hboth⟩ := Option.isSome_iff_exists.mp hboth
  obtain ⟨_, hgreen⟩ := Option.isSome_iff_exists.mp hgreen
  obtain ⟨hslots, hserves⟩ := slotLaw_and_serves_iff hgreen
  refine ⟨?_, hslots, fun hlaw => ?_⟩
  · apply (slotLaw_and_serves_iff hboth).2.mpr
    decide +kernel
  · exact absurd (hserves.mp hlaw) (by decide +kernel)

/-- After a successful switch a rollback takes the traffic to a colour that was
never deployed. -/
theorem not_serves_after_rollback :
    ∃ state, exec step deployed (thereAndBack []) = some state ∧
      state.switched = true ∧ state.deployment.activeColor = .blue ∧
      ¬ state.deployment.Serves := by
  have hends : (exec step deployed (thereAndBack [])).any (fun state =>
      decide (state.switched = true ∧ state.deployment.activeColor = .blue ∧
        state.deployment.slots .blue = none)) = true := by
    decide +kernel
  obtain ⟨state, hrun, hfacts⟩ := (Option.any_eq_true _ _).mp hends
  obtain ⟨hswitched, hactive, hnone⟩ := of_decide_eq_true hfacts
  refine ⟨state, hrun, hswitched, hactive, ?_⟩
  rintro ⟨slot, hslot, -⟩
  rw [hactive, hnone] at hslot
  cases hslot

end TsCommons.K8s.BlueGreen
