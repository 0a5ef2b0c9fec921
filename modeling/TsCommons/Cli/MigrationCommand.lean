import TsCommons.Foundations.Text
import TsCommons.Foundations.Turning

/-!
# The migration command

A registry of migrations and the requests that create, apply and revert them.
A migration that was reverted keeps a status of its own and is not pending.
-/

namespace TsCommons.Cli

open Foundations

inductive MigrationStatus
  | pending
  | applied
  | reverted
deriving DecidableEq

structure MigrationEntry (τ : Type*) where
  name : Text
  appliedAt : Option τ
  status : MigrationStatus
deriving DecidableEq

inductive MigrationAction
  | create
  | up
  | down
  | status
deriving DecidableEq

structure MigrationRequest where
  action : MigrationAction
  name : Option Text
  steps : Option ℤ
deriving DecidableEq

structure MigrationCommand (τ : Type*) where
  entries : List (MigrationEntry τ)
deriving DecidableEq

variable {τ : Type*}

def MigrationStatus.text : MigrationStatus → Text
  | .pending => "pending".toList
  | .applied => "applied".toList
  | .reverted => "reverted".toList

/-- `list.slice(0, stop)`, where a negative stop counts from the end. -/
def sliceTo {α : Type*} (list : List α) (stop : ℤ) : List α :=
  if 0 ≤ stop then list.take stop.toNat
  else list.take (list.length - stop.natAbs)

namespace MigrationCommand

def getByStatus (command : MigrationCommand τ) (status : MigrationStatus) :
    List (MigrationEntry τ) :=
  command.entries.filter (·.status = status)

def handleCreate (command : MigrationCommand τ) (name : Option Text) :
    MigrationCommand τ × Text :=
  match name with
  | none =>
      (command, "ERROR: Migration name is required for \"create\"".toList)
  | some name =>
      if Text.trim name = [] then
        (command, "ERROR: Migration name is required for \"create\"".toList)
      else
        (⟨command.entries ++
            [{ name, appliedAt := none, status := .pending }]⟩,
          "Created migration: ".toList ++ name)

/-- The pending migrations that a request applies. -/
def toApply (command : MigrationCommand τ) (steps : ℤ) :
    List (MigrationEntry τ) :=
  if 0 < steps then sliceTo (command.getByStatus .pending) steps
  else command.getByStatus .pending

/-- The applied migrations that a request reverts, the last one first. -/
def toRevert (command : MigrationCommand τ) (steps : ℤ) :
    List (MigrationEntry τ) :=
  sliceTo (command.getByStatus .applied).reverse steps

/-- The clock is read for each migration that is applied. -/
def handleUp (command : MigrationCommand τ) (clock : ℕ → τ) (steps : ℤ) :
    MigrationCommand τ × Text :=
  let chosen := command.toApply steps
  if chosen.length = 0 then
    (command, "No pending migrations to apply".toList)
  else
    (⟨command.entries.mapIdx fun i entry =>
        if chosen.any (·.name = entry.name) then
          { entry with status := .applied, appliedAt := some (clock i) }
        else entry⟩,
      "Applied ".toList ++ (toString chosen.length).toList ++
        " migration(s)".toList)

def handleDown (command : MigrationCommand τ) (steps : ℤ) :
    MigrationCommand τ × Text :=
  let chosen := command.toRevert steps
  if chosen.length = 0 then
    (command, "No applied migrations to revert".toList)
  else
    (⟨command.entries.map fun entry =>
        if chosen.any (·.name = entry.name) then
          { entry with status := .reverted }
        else entry⟩,
      "Reverted ".toList ++ (toString chosen.length).toList ++
        " migration(s)".toList)

def statusLine (toISOString : τ → Text) (entry : MigrationEntry τ) : Text :=
  "  [".toList ++ entry.status.text.rightpad 8 ' ' ++ "] ".toList ++
    entry.name ++
    match entry.appliedAt with
    | none => []
    | some time => " (applied at ".toList ++ toISOString time ++ [')']

def handleStatus (command : MigrationCommand τ) (toISOString : τ → Text) :
    MigrationCommand τ × Text :=
  if command.entries.length = 0 then
    (command, "No migrations registered".toList)
  else
    (command, "Migrations:\n".toList ++
      ['\n'].intercalate (command.entries.map (statusLine toISOString)))

def execute (command : MigrationCommand τ) (toISOString : τ → Text)
    (clock : ℕ → τ) (request : MigrationRequest) : MigrationCommand τ × Text :=
  match request.action with
  | .create => command.handleCreate request.name
  | .up => command.handleUp clock (request.steps.getD 0)
  | .down => command.handleDown (request.steps.getD 1)
  | .status => command.handleStatus toISOString

/-- The requests come one after another, each with its readings of the
clock. -/
def run (toISOString : τ → Text) (start : MigrationCommand τ)
    (requests : List (MigrationRequest × (ℕ → τ))) : MigrationCommand τ :=
  requests.foldl (fun command request =>
    (command.execute toISOString request.2 request.1).1) start

def names (command : MigrationCommand τ) : List Text :=
  command.entries.map MigrationEntry.name

def statuses (command : MigrationCommand τ) : List MigrationStatus :=
  command.entries.map MigrationEntry.status

/-! ## What the requests do -/

variable {command : MigrationCommand τ} {clock : ℕ → τ}
  {toISOString : τ → Text} {request : MigrationRequest} {steps : ℤ}

theorem map_mapIdx_of_forall {α β γ : Type*} {f : ℕ → α → β} {g : β → γ}
    {h : α → γ} (hsame : ∀ i x, g (f i x) = h x) (list : List α) :
    (list.mapIdx f).map g = list.map h := by
  apply List.ext_getElem?
  intro i
  rw [List.getElem?_map, List.getElem?_mapIdx, List.getElem?_map,
    Option.map_map]
  congr 1
  funext x
  exact hsame i x

theorem entries_handleUp (command : MigrationCommand τ) (clock : ℕ → τ)
    (steps : ℤ) :
    (command.handleUp clock steps).1.entries =
      command.entries.mapIdx fun i entry =>
        if (command.toApply steps).any (·.name = entry.name) then
          { entry with status := .applied, appliedAt := some (clock i) }
        else entry := by
  by_cases hnone : (command.toApply steps).length = 0
  · rw [handleUp, if_pos hnone, List.length_eq_zero_iff.mp hnone]
    symm
    rw [List.mapIdx_eq_iff]
    intro i
    simp
  · rw [handleUp, if_neg hnone]

theorem entries_handleDown (command : MigrationCommand τ) (steps : ℤ) :
    (command.handleDown steps).1.entries =
      command.entries.map fun entry =>
        if (command.toRevert steps).any (·.name = entry.name) then
          { entry with status := .reverted }
        else entry := by
  by_cases hnone : (command.toRevert steps).length = 0
  · rw [handleDown, if_pos hnone, List.length_eq_zero_iff.mp hnone]
    simp
  · rw [handleDown, if_neg hnone]

theorem names_handleUp (command : MigrationCommand τ) (clock : ℕ → τ)
    (steps : ℤ) : (command.handleUp clock steps).1.names = command.names := by
  rw [names, entries_handleUp, names]
  apply map_mapIdx_of_forall
  intro i entry
  rw [apply_ite MigrationEntry.name, ite_self]

theorem names_handleDown (command : MigrationCommand τ) (steps : ℤ) :
    (command.handleDown steps).1.names = command.names := by
  rw [names, entries_handleDown, List.map_map, names]
  apply List.map_congr_left
  intro entry _
  rw [Function.comp_apply, apply_ite MigrationEntry.name, ite_self]

theorem statuses_handleUp (command : MigrationCommand τ) (clock : ℕ → τ)
    (steps : ℤ) :
    (command.handleUp clock steps).1.statuses =
      command.entries.map fun entry =>
        if (command.toApply steps).any (·.name = entry.name) then .applied
        else entry.status := by
  rw [statuses, entries_handleUp]
  apply map_mapIdx_of_forall
  intro i entry
  rw [apply_ite MigrationEntry.status]

theorem statuses_handleDown (command : MigrationCommand τ) (steps : ℤ) :
    (command.handleDown steps).1.statuses =
      command.entries.map fun entry =>
        if (command.toRevert steps).any (·.name = entry.name) then .reverted
        else entry.status := by
  rw [statuses, entries_handleDown, List.map_map]
  apply List.map_congr_left
  intro entry _
  rw [Function.comp_apply, apply_ite MigrationEntry.status]

/-- None of the others has the name of one that is chosen. -/
def NoNamesake (chosen others : List (MigrationEntry τ)) : Prop :=
  ∀ entry ∈ chosen, ∀ other ∈ others, other.name ≠ entry.name

/-- How many migrations an `up` may apply: all of them when it has no
number of steps. -/
def upCount (command : MigrationCommand τ) (steps : ℕ) : ℕ :=
  if steps = 0 then command.entries.length else steps

theorem toApply_natCast (command : MigrationCommand τ) (steps : ℕ) :
    command.toApply steps =
      (command.getByStatus .pending).take (command.upCount steps) := by
  by_cases hzero : steps = 0
  · subst hzero
    rw [toApply, upCount, if_pos rfl, if_neg (by simp), List.take_of_length_le]
    exact List.length_filter_le _ _
  · rw [toApply, upCount, if_neg hzero, if_pos (by omega), sliceTo,
      if_pos (by omega), Int.toNat_natCast]

theorem toRevert_natCast (command : MigrationCommand τ) (steps : ℕ) :
    command.toRevert steps =
      (command.getByStatus .applied).reverse.take steps := by
  rw [toRevert, sliceTo, if_pos (by omega), Int.toNat_natCast]

theorem any_name_of_mem {chosen : List (MigrationEntry τ)}
    {entry : MigrationEntry τ} (hmem : entry ∈ chosen) :
    chosen.any (·.name = entry.name) = true :=
  List.any_eq_true.mpr ⟨entry, hmem, by simp⟩

theorem not_any_name {chosen others : List (MigrationEntry τ)}
    {entry : MigrationEntry τ} (hnone : NoNamesake chosen others)
    (hmem : entry ∈ others) :
    ¬ chosen.any (·.name = entry.name) = true := by
  rw [List.any_eq_true]
  rintro ⟨other, hother, hname⟩
  exact hnone other hother entry hmem (of_decide_eq_true hname).symm

theorem statuses_up (steps : ℕ)
    (hnone : NoNamesake (command.toApply steps)
      ((command.getByStatus .pending).drop (command.upCount steps) ++
        command.getByStatus .reverted)) :
    (command.handleUp clock steps).1.statuses =
      turnFirst .pending .applied (command.upCount steps) command.statuses := by
  rw [statuses_handleUp]
  apply map_eq_turnFirst
  · intro entry hentry
    rw [toApply_natCast]
    exact any_name_of_mem hentry
  · intro entry hentry
    exact not_any_name hnone (List.mem_append_left _ hentry)
  · intro entry hentry hpending happlied
    apply not_any_name hnone (List.mem_append_right _ _)
    refine List.mem_filter.mpr ⟨hentry, ?_⟩
    cases hstatus : entry.status with
    | pending => exact absurd hstatus hpending
    | applied => exact absurd hstatus happlied
    | reverted => rfl

theorem statuses_down (steps : ℕ)
    (hnone : NoNamesake (command.toRevert steps)
      ((command.getByStatus .applied).reverse.drop steps ++
        command.getByStatus .pending)) :
    (command.handleDown steps).1.statuses =
      turnLast .applied .reverted steps command.statuses := by
  rw [statuses_handleDown]
  apply map_eq_turnLast
  · intro entry hentry
    rw [toRevert_natCast]
    exact any_name_of_mem hentry
  · intro entry hentry
    exact not_any_name hnone (List.mem_append_left _ hentry)
  · intro entry hentry happlied hreverted
    apply not_any_name hnone (List.mem_append_right _ _)
    refine List.mem_filter.mpr ⟨hentry, ?_⟩
    cases hstatus : entry.status with
    | pending => rfl
    | applied => exact absurd hstatus happlied
    | reverted => exact absurd hstatus hreverted

/-- A migration that is reverted does not become pending. -/
theorem getByStatus_pending_handleDown
    (hnone : command.getByStatus .pending = []) (steps : ℤ) :
    (command.handleDown steps).1.getByStatus .pending = [] := by
  rw [getByStatus, List.filter_eq_nil_iff] at hnone ⊢
  rw [entries_handleDown]
  intro entry hentry
  obtain ⟨old, hold, rfl⟩ := List.mem_map.mp hentry
  split
  · simp
  · exact hnone old hold

theorem handleUp_of_none_pending (hnone : command.getByStatus .pending = [])
    (clock : ℕ → τ) (steps : ℤ) :
    command.handleUp clock steps =
      (command, "No pending migrations to apply".toList) := by
  have hchosen : command.toApply steps = [] := by
    rw [toApply, hnone]
    simp [sliceTo]
  rw [handleUp, hchosen]
  rfl

/-! ## Runs of requests -/

/-- The migration that a request creates. -/
def created (request : MigrationRequest) : Option Text :=
  match request.action, request.name with
  | .create, some name => if Text.trim name = [] then none else some name
  | _, _ => none

theorem names_execute (command : MigrationCommand τ)
    (toISOString : τ → Text) (clock : ℕ → τ) (request : MigrationRequest) :
    (command.execute toISOString clock request).1.names =
      command.names ++ (created request).toList := by
  obtain ⟨action, name, steps⟩ := request
  cases action with
  | create =>
      cases name with
      | none => exact (List.append_nil _).symm
      | some name =>
          by_cases hblank : Text.trim name = []
          · simp [execute, handleCreate, created, hblank]
          · simp [execute, handleCreate, created, hblank, names]
  | up =>
      rw [execute, names_handleUp]
      exact (List.append_nil _).symm
  | down =>
      rw [execute, names_handleDown]
      exact (List.append_nil _).symm
  | status =>
      by_cases hempty : command.entries.length = 0
      · simp [execute, handleStatus, created, hempty]
      · simp [execute, handleStatus, created, hempty]

/-- The registry lists what was there first and then what was created, in the
order of the requests. -/
theorem names_run (toISOString : τ → Text) (start : MigrationCommand τ)
    (requests : List (MigrationRequest × (ℕ → τ))) :
    (run toISOString start requests).names =
      start.names ++ requests.filterMap fun request => created request.1 := by
  induction requests generalizing start with
  | nil => simp [run]
  | cons request requests ih =>
      rw [run, List.foldl_cons, ← run, ih, names_execute, List.append_assoc]
      cases hcreated : created request.1 with
      | none => simp [hcreated]
      | some name => simp [hcreated]

/-- A request `up` with a number of steps, where zero stands for all. -/
def upRequest (steps : ℕ) : MigrationRequest where
  action := .up
  name := none
  steps := some steps

def downRequest (steps : ℕ) : MigrationRequest where
  action := .down
  name := none
  steps := some steps

/-- What `up` and `down` make of the statuses, in the order of registration.
Names that are shared with a migration that is not chosen are left out. -/
structure RequestLaw (command : MigrationCommand τ) : Prop where
  up : ∀ (toISOString : τ → Text) (clock : ℕ → τ) (steps : ℕ),
    NoNamesake (command.toApply steps)
      ((command.getByStatus .pending).drop (command.upCount steps) ++
        command.getByStatus .reverted) →
    (command.execute toISOString clock (upRequest steps)).1.statuses =
      turnFirst .pending .applied (command.upCount steps) command.statuses
  down : ∀ (toISOString : τ → Text) (clock : ℕ → τ) (steps : ℕ),
    NoNamesake (command.toRevert steps)
      ((command.getByStatus .applied).reverse.drop steps ++
        command.getByStatus .pending) →
    (command.execute toISOString clock (downRequest steps)).1.statuses =
      turnLast .applied .reverted steps command.statuses
  down_up : ∀ (toISOString : τ → Text) (clock later : ℕ → τ) (steps : ℕ),
    command.getByStatus .pending = [] →
    ((command.execute toISOString clock (downRequest steps)).1.execute
        toISOString later (upRequest steps)).1 =
      (command.execute toISOString clock (downRequest steps)).1

theorem requestLaw (command : MigrationCommand τ) : RequestLaw command where
  up _ _ steps hnone := statuses_up steps hnone
  down _ _ steps hnone := statuses_down steps hnone
  down_up _ _ later steps hnone := by
    have hpending := getByStatus_pending_handleDown hnone (steps : ℤ)
    change ((command.handleDown steps).1.handleUp later steps).1 =
      (command.handleDown steps).1
    rw [handleUp_of_none_pending hpending]

/-- After every sequence of requests the registry is in the order of
registration, and `up` and `down` act on it by the law. -/
theorem requestLaw_run (toISOString : τ → Text) (start : MigrationCommand τ)
    (requests : List (MigrationRequest × (ℕ → τ))) :
    (run toISOString start requests).names =
        start.names ++ (requests.filterMap fun request => created request.1) ∧
      RequestLaw (run toISOString start requests) :=
  ⟨names_run toISOString start requests, requestLaw _⟩

/-- One migration that was created and applied. -/
def oneApplied : MigrationCommand Unit :=
  run (fun _ => []) ⟨[]⟩
    [(⟨.create, some ['A'], none⟩, fun _ => ()), (upRequest 1, fun _ => ())]

def downAndUp : List (MigrationRequest × (ℕ → Unit)) :=
  [(downRequest 1, fun _ => ()), (upRequest 1, fun _ => ())]

/-- The migration that is reverted is not applied again. -/
theorem oneApplied_downAndUp :
    oneApplied.statuses = [.applied] ∧
      oneApplied.getByStatus .pending = [] ∧
      (run (fun _ => []) oneApplied downAndUp).statuses = [.reverted] := by
  decide +kernel

end MigrationCommand

end TsCommons.Cli
