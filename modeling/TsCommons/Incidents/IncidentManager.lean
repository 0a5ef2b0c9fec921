import TsCommons.Foundations.InsertionMap
import Mathlib.Data.List.Basic

/-!
# Incidents

The manager keeps the incidents, the updates of each and the handlers that are
called on every status transition.  An update spreads the fields of the
incident, so that one that has been resolved keeps its `resolvedAt`.
-/

namespace TsCommons.Incidents

open Foundations

inductive IncidentSeverity
  | critical
  | high
  | medium
  | low
deriving DecidableEq

inductive IncidentStatus
  | «open»
  | investigating
  | identified
  | monitoring
  | resolved
deriving DecidableEq

structure Incident where
  id : String
  title : String
  description : String
  severity : IncidentSeverity
  status : IncidentStatus
  createdAt : ℕ
  updatedAt : ℕ
  resolvedAt : Option ℕ
  assignee : Option String
  tags : List String
  runbookUrl : Option String
deriving DecidableEq

structure IncidentUpdate where
  incidentId : String
  message : String
  status : IncidentStatus
  timestamp : ℕ
  author : Option String
deriving DecidableEq

structure IncidentParams where
  title : String
  description : String
  severity : IncidentSeverity
  assignee : Option String
  tags : Option (List String)
  runbookUrl : Option String
deriving DecidableEq

structure IncidentManager (H : Type) where
  incidents : InsertionMap String Incident
  updates : InsertionMap String (List IncidentUpdate)
  handlers : List H

/-- The id of a new incident, from the digits of six random bytes. -/
def incidentId (hex : String) : String := "inc_" ++ hex

def IncidentParams.incident (params : IncidentParams) (hex : String)
    (now : ℕ) : Incident where
  id := incidentId hex
  title := params.title
  description := params.description
  severity := params.severity
  status := .open
  createdAt := now
  updatedAt := now
  resolvedAt := none
  assignee := params.assignee
  tags := params.tags.getD []
  runbookUrl := params.runbookUrl

/-- The incident that `update` stores in the place of another. -/
def Incident.updated (incident : Incident) (status : IncidentStatus)
    (now : ℕ) : Incident :=
  { incident with
    status := status
    updatedAt := now
    resolvedAt :=
      if status = .resolved then some now else incident.resolvedAt }

theorem Incident.resolvedAt_updated {incident : Incident}
    (hresolved :
      incident.resolvedAt.isSome = true ↔ incident.status = .resolved)
    (status : IncidentStatus) (now : ℕ) :
    ((incident.updated status now).resolvedAt.isSome = true ↔
        status = .resolved) ↔
      (status = .resolved ∨ incident.status ≠ .resolved) := by
  by_cases hstatus : status = .resolved
  · simp [updated, hstatus]
  · simp [updated, hstatus, hresolved]

namespace IncidentManager

variable {H : Type}

def empty : IncidentManager H := ⟨.empty, .empty, []⟩

def «open» (manager : IncidentManager H) (params : IncidentParams)
    (hex : String) (now : ℕ) : IncidentManager H :=
  { manager with
    incidents :=
      manager.incidents.set (incidentId hex) (params.incident hex now) }

def getUpdates (manager : IncidentManager H) (incidentId : String) :
    List IncidentUpdate :=
  (manager.updates.get incidentId).getD []

/-- What `update` stores for an incident that exists. -/
def record (manager : IncidentManager H) (updated : Incident)
    (update : IncidentUpdate) : IncidentManager H :=
  { manager with
    incidents := manager.incidents.set update.incidentId updated
    updates := manager.updates.set update.incidentId
      (manager.getUpdates update.incidentId ++ [update]) }

/-- What `update` does before its loop, with the incident and the update that
the loop calls the handlers with.  It returns that update, or null for an
incident that does not exist. -/
def update (manager : IncidentManager H) (incidentId : String)
    (status : IncidentStatus) (message : String) (author : Option String)
    (now : ℕ) : Option (IncidentManager H × Incident × IncidentUpdate) :=
  (manager.incidents.get incidentId).map fun incident =>
    let updated := incident.updated status now
    let update := ⟨incidentId, message, status, now, author⟩
    (manager.record updated update, updated, update)

def resolve (manager : IncidentManager H) (incidentId : String)
    (message : Option String) (author : Option String) (now : ℕ) :
    Option (IncidentManager H × Incident × IncidentUpdate) :=
  manager.update incidentId .resolved (message.getD "Incident resolved")
    author now

def onStatusChange (manager : IncidentManager H) (handler : H) :
    IncidentManager H :=
  { manager with handlers := manager.handlers ++ [handler] }

/-- The function that `onStatusChange` returns for a handler. -/
def unsubscribe [DecidableEq H] (manager : IncidentManager H) (handler : H) :
    IncidentManager H :=
  { manager with
    handlers := manager.handlers.eraseIdx (manager.handlers.idxOf handler) }

variable {manager : IncidentManager H} {incidentId : String}
  {updated : Incident} {update : IncidentUpdate}

theorem getUpdates_record (manager : IncidentManager H) (updated : Incident)
    (update : IncidentUpdate) (incidentId : String) :
    (manager.record updated update).getUpdates incidentId =
      manager.getUpdates incidentId ++
        if update.incidentId = incidentId then [update] else [] := by
  by_cases heq : update.incidentId = incidentId
  · rw [getUpdates, record, heq, InsertionMap.get_set_self, if_pos rfl]
    rfl
  · rw [getUpdates, record, InsertionMap.get_set_of_ne _ _ (Ne.symm heq),
      if_neg heq, List.append_nil]
    rfl

theorem update_eq_some {status : IncidentStatus} {message : String}
    {author : Option String} {now : ℕ} {recorded : IncidentManager H}
    (hupdate : manager.update incidentId status message author now =
      some (recorded, updated, update)) :
    ∃ incident, manager.incidents.get incidentId = some incident ∧
      updated = incident.updated status now ∧
      update = ⟨incidentId, message, status, now, author⟩ ∧
      recorded = manager.record updated update := by
  obtain ⟨incident, hget, heq⟩ := Option.map_eq_some_iff.mp hupdate
  cases heq
  exact ⟨incident, hget, rfl, rfl, rfl⟩

end IncidentManager

end TsCommons.Incidents
