import TsCommons.Incidents.IncidentManager
import TsCommons.Foundations.Execution
import TsCommons.Foundations.LiveIteration

/-!
# The lifecycle of incidents

A handler that an update calls may open, update and resolve incidents,
register handlers and call the functions that unsubscribe them.  The updates
whose loops have not ended form a stack, of which the last one runs: either
its loop is in control, or the handler that it has called.
-/

namespace TsCommons.Incidents

open Foundations

variable {H : Type}

/-- A call of `onStatusChange`: it is live until the function that it returned
is called. -/
structure Registration (H : Type) where
  handler : H
  live : Bool
deriving DecidableEq

/-- An update whose handlers are being called.  The handlers of `staying` were
registered when it started and have not been unsubscribed before their
turn. -/
structure Notification (H : Type) where
  incident : Incident
  update : IncidentUpdate
  index : ℕ
  staying : List H
  called : List H
deriving DecidableEq

/-- `log` are the updates that have been made, of all incidents. -/
structure State (H : Type) where
  manager : IncidentManager H
  registrations : List (Registration H)
  log : List IncidentUpdate
  active : List (Notification H)
  looping : Bool
  ended : List (Notification H)

def State.initial : State H := ⟨.empty, [], [], [], false, []⟩

/-- `returns` and `throws` are about the handler that the last update has
called. -/
inductive Label (H : Type)
  | open (params : IncidentParams) (hex : String) (now : ℕ)
  | update (incidentId : String) (status : IncidentStatus) (message : String)
      (author : Option String) (now : ℕ)
  | resolve (incidentId : String) (message : Option String)
      (author : Option String) (now : ℕ)
  | onStatusChange (handler : H)
  | unsubscribe (number : ℕ)
  | proceed
  | returns
  | throws

def Registration.close (registration : Registration H) : Registration H :=
  { registration with live := false }

def registered (registrations : List (Registration H)) : List H :=
  (registrations.filter Registration.live).map Registration.handler

variable [DecidableEq H]

/-- The handlers that are no longer registered leave before their turn. -/
def Notification.leave (remaining : List H) (notification : Notification H) :
    Notification H :=
  { notification with
    staying := notification.staying.filter fun handler =>
      handler ∈ remaining ∨ handler ∈ notification.called }

omit [DecidableEq H] in
def State.notify (state : State H)
    (recorded : IncidentManager H × Incident × IncidentUpdate) : State H :=
  { state with
    manager := recorded.1
    log := state.log ++ [recorded.2.2]
    active :=
      ⟨recorded.2.1, recorded.2.2, 0, registered state.registrations, []⟩ ::
        state.active
    looping := true }

def State.unsubscribe (state : State H) (number : ℕ)
    (registration : Registration H) : State H :=
  let registrations := state.registrations.set number registration.close
  { state with
    manager := state.manager.unsubscribe registration.handler
    registrations := registrations
    active :=
      state.active.map (Notification.leave (registered registrations)) }

/-- The state after the last update has ended, by returning or by throwing
what its handler has thrown. -/
def State.finish (state : State H) (notification : Notification H)
    (rest : List (Notification H)) : State H :=
  { state with
    active := rest
    looping := false
    ended := state.ended ++ [notification] }

def State.call (state : State H) (notification : Notification H)
    (rest : List (Notification H)) (handler : H) : State H :=
  { state with
    active := { notification with
      index := notification.index + 1
      called := notification.called ++ [handler] } :: rest
    looping := false }

def State.proceed (state : State H) (notification : Notification H)
    (rest : List (Notification H)) : State H :=
  match state.manager.handlers[notification.index]? with
  | none => state.finish notification rest
  | some handler => state.call notification rest handler

/-- A step of a handler or of code outside of any handler. -/
def call (state : State H) : Label H → Option (State H)
  | .open params hex now =>
      some { state with manager := state.manager.open params hex now }
  | .update incidentId status message author now =>
      some (((state.manager.update incidentId status message author now).map
        state.notify).getD state)
  | .resolve incidentId message author now =>
      some (((state.manager.resolve incidentId message author now).map
        state.notify).getD state)
  | .onStatusChange handler =>
      some { state with
        manager := state.manager.onStatusChange handler
        registrations := state.registrations ++ [⟨handler, true⟩] }
  | .unsubscribe number =>
      state.registrations[number]?.map (state.unsubscribe number)
  | .proceed => none
  | .returns =>
      if state.active = [] then none else some { state with looping := true }
  | .throws =>
      match state.active with
      | [] => none
      | notification :: rest => some (state.finish notification rest)

def step (state : State H) (label : Label H) : Option (State H) :=
  if state.looping then
    match label, state.active with
    | .proceed, notification :: rest => some (state.proceed notification rest)
    | _, _ => none
  else call state label

/-! ## The law -/

/-- How often the loop of an update calls a handler, if the handlers do not
change again. -/
def Notification.turns (notification : Notification H) (handlers : List H)
    (handler : H) : ℕ :=
  notification.called.count handler +
    (unvisited handlers notification.index).count handler

/-- The status after the updates of an incident, which is open at first. -/
def currentStatus (updates : List IncidentUpdate) : IncidentStatus :=
  (updates.getLast?.map IncidentUpdate.status).getD .open

/-- What the manager has stored for the updates in a log. -/
structure RecordLaw (manager : IncidentManager H)
    (log : List IncidentUpdate) : Prop where
  resolved : ∀ id incident, manager.incidents.get id = some incident →
    (incident.resolvedAt.isSome = true ↔ incident.status = .resolved)
  history : ∀ id, manager.getUpdates id =
    log.filter fun update => update.incidentId = id
  current : ∀ id incident, manager.incidents.get id = some incident →
    incident.status = currentStatus (manager.getUpdates id)

def Once (handlers : List H) (notification : Notification H) : Prop :=
  ∀ handler ∈ notification.staying, notification.turns handlers handler = 1

structure LifecycleLaw (state : State H) : Prop extends
    RecordLaw state.manager state.log where
  notified : ∀ notification ∈ state.active,
    Once state.manager.handlers notification
  ended : ∀ notification ∈ state.ended, ∀ handler ∈ notification.staying,
    notification.called.count handler = 1

/-- An incident that is resolved stays resolved, and every handler that is
registered has one place in the list. -/
def Updates (state : State H) (incidentId : String)
    (status : IncidentStatus) : Prop :=
  ∀ incident ∈ state.manager.incidents.get incidentId,
    (status = .resolved ∨ incident.status ≠ .resolved) ∧
      ∀ handler ∈ registered state.registrations,
        state.manager.handlers.count handler = 1

/-- No handler that stays loses its turn when a handler is taken out of the
list: the one that moves to the place behind the loop is not one that
stays. -/
def KeepsTurns (handlers : List H) (handler : H)
    (notification : Notification H) : Prop :=
  if handlers.idxOf handler < notification.index then
    ∀ skipped ∈ handlers[notification.index]?,
      skipped ∉ notification.staying
  else handler ∉ notification.staying

/-- The steps that keep the law.  A new incident does not get the id of one
whose status has changed; no handler that stays is registered again for the
loop to come to; and a handler throws only after all that stay have been
called. -/
def KeepsLifecycle (state : State H) : Label H → Prop
  | .open _ hex _ =>
      currentStatus (state.manager.getUpdates (incidentId hex)) = .open
  | .update incidentId status _ _ _ => Updates state incidentId status
  | .resolve incidentId _ _ _ => Updates state incidentId .resolved
  | .onStatusChange handler =>
      ∀ notification ∈ state.active, handler ∈ notification.staying →
        state.manager.handlers.length < notification.index
  | .unsubscribe number =>
      ∀ registration ∈ state.registrations[number]?,
        registration.handler ∈ state.manager.handlers →
          ∀ notification ∈
            (state.unsubscribe number registration).active,
            KeepsTurns state.manager.handlers registration.handler
              notification
  | .throws =>
      ∀ notification ∈ state.active.head?,
        ∀ handler ∈ notification.staying, handler ∈ notification.called
  | .proceed => True
  | .returns => True

instance (state : State H) (incidentId : String) (status : IncidentStatus) :
    Decidable (Updates state incidentId status) :=
  inferInstanceAs (Decidable (
    ∀ incident ∈ state.manager.incidents.get incidentId,
      (status = .resolved ∨ incident.status ≠ .resolved) ∧
        ∀ handler ∈ registered state.registrations,
          state.manager.handlers.count handler = 1))

instance (handlers : List H) (handler : H) (notification : Notification H) :
    Decidable (KeepsTurns handlers handler notification) :=
  inferInstanceAs (Decidable (
    if handlers.idxOf handler < notification.index then
      ∀ skipped ∈ handlers[notification.index]?,
        skipped ∉ notification.staying
    else handler ∉ notification.staying))

instance (state : State H) (label : Label H) :
    Decidable (KeepsLifecycle state label) :=
  match label with
  | .open _ hex _ =>
      inferInstanceAs (Decidable (
        currentStatus (state.manager.getUpdates (incidentId hex)) = .open))
  | .update incidentId status _ _ _ =>
      inferInstanceAs (Decidable (Updates state incidentId status))
  | .resolve incidentId _ _ _ =>
      inferInstanceAs (Decidable (Updates state incidentId .resolved))
  | .onStatusChange handler =>
      inferInstanceAs (Decidable (
        ∀ notification ∈ state.active, handler ∈ notification.staying →
          state.manager.handlers.length < notification.index))
  | .unsubscribe number =>
      inferInstanceAs (Decidable (
        ∀ registration ∈ state.registrations[number]?,
          registration.handler ∈ state.manager.handlers →
            ∀ notification ∈
              (state.unsubscribe number registration).active,
              KeepsTurns state.manager.handlers registration.handler
                notification))
  | .throws =>
      inferInstanceAs (Decidable (
        ∀ notification ∈ state.active.head?,
          ∀ handler ∈ notification.staying, handler ∈ notification.called))
  | .proceed => inferInstanceAs (Decidable True)
  | .returns => inferInstanceAs (Decidable True)

end TsCommons.Incidents
