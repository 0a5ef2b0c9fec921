import TsCommons.Foundations.SetMap
import TsCommons.Foundations.Text
import TsCommons.Notifications.RateLimiter

/-!
# The managed notification adapter

Preferences, the rate limiter and the templates around an inner adapter.  Up
to the call of the inner adapter a send is synchronous; the clock is read when
the limit is checked and again when the send is recorded.
-/

namespace TsCommons.Notifications

open Foundations

structure NotificationRecipient where
  userId : String
deriving DecidableEq

structure Notification where
  id : String
  channel : NotificationChannel
  recipient : NotificationRecipient
  body : Text
  templateId : Option String
  templateData : Option (InsertionMap Text Text)
deriving DecidableEq

/-! ## Preferences -/

structure UserPreferencesStore where
  optedOut : InsertionMap String (InsertionSet NotificationChannel)
deriving DecidableEq

namespace UserPreferencesStore

def optOut (store : UserPreferencesStore) (userId : String)
    (channel : NotificationChannel) : UserPreferencesStore :=
  ⟨addToSet store.optedOut userId channel⟩

def optIn (store : UserPreferencesStore) (userId : String)
    (channel : NotificationChannel) : UserPreferencesStore :=
  match store.optedOut.get userId with
  | none => store
  | some channels => ⟨store.optedOut.set userId (channels.delete channel)⟩

def isOptedOut (store : UserPreferencesStore) (userId : String)
    (channel : NotificationChannel) : Bool :=
  (store.optedOut.get userId).any fun channels => channel ∈ channels

def getOptedOutChannels (store : UserPreferencesStore) (userId : String) :
    List NotificationChannel :=
  elementsAt store.optedOut userId

def optOutAll (store : UserPreferencesStore) (userId : String)
    (channels : List NotificationChannel) : UserPreferencesStore :=
  channels.foldl (fun store channel => store.optOut userId channel) store

def clear : UserPreferencesStore := ⟨.empty⟩

end UserPreferencesStore

/-! ## Templates -/

structure NotificationTemplateNotFoundError where
  templateId : String
deriving DecidableEq

def NotificationTemplateNotFoundError.message
    (error : NotificationTemplateNotFoundError) : String :=
  "Notification template \"" ++ error.templateId ++ "\" is not registered"

def isWordChar (char : Char) : Bool := char.isAlphanum || char = '_'

/-- The key of a placeholder that the text starts with, and what follows. -/
def placeholder : Text → Option (Text × Text)
  | '{' :: '{' :: rest =>
      match rest.takeWhile isWordChar, rest.dropWhile isWordChar with
      | [], _ => none
      | key, '}' :: '}' :: after => some (key, after)
      | _, _ => none
  | _ => none

/-- The fuel is the length of the template. -/
def applyDataIn (data : InsertionMap Text Text) : ℕ → Text → Text
  | 0, template => template
  | _ + 1, [] => []
  | fuel + 1, char :: rest =>
      match placeholder (char :: rest) with
      | some (key, after) =>
          (data.get key).getD [] ++ applyDataIn data fuel after
      | none => char :: applyDataIn data fuel rest

def applyData (template : Text) (data : InsertionMap Text Text) : Text :=
  applyDataIn data template.length template

structure TemplateEngine where
  templates : InsertionMap String Text
deriving DecidableEq

namespace TemplateEngine

def register (engine : TemplateEngine) (id : String) (template : Text) :
    TemplateEngine :=
  ⟨engine.templates.set id template⟩

def render (engine : TemplateEngine) (id : String)
    (data : InsertionMap Text Text) :
    Except NotificationTemplateNotFoundError Text :=
  match engine.templates.get id with
  | none => .error ⟨id⟩
  | some template => .ok (applyData template data)

end TemplateEngine

/-! ## The adapter -/

structure ManagedNotificationAdapter where
  preferences : Option UserPreferencesStore
  rateLimiter : Option RateLimiter
  templates : Option TemplateEngine
deriving DecidableEq

/-- What a send comes to before it waits for the inner adapter. -/
inductive SendOutcome
  | skipped (failureReason : String)
  | rejected (error : NotificationTemplateNotFoundError)
  | handedOver (resolved : Notification)
deriving DecidableEq

def isRateLimited (rateLimiter : Option RateLimiter)
    (notification : Notification) (now : ℚ) : Bool :=
  rateLimiter.any fun limiter =>
    !limiter.isAllowed notification.channel notification.recipient.userId now

def isOptedOut (preferences : Option UserPreferencesStore)
    (notification : Notification) : Bool :=
  preferences.any fun store =>
    store.isOptedOut notification.recipient.userId notification.channel

def resolveBody (templates : Option TemplateEngine)
    (notification : Notification) :
    Except NotificationTemplateNotFoundError Text :=
  match templates, notification.templateId with
  | some engine, some templateId =>
      engine.render templateId (notification.templateData.getD .empty)
  | _, _ => .ok notification.body

def applyTemplate (templates : Option TemplateEngine)
    (notification : Notification) :
    Except NotificationTemplateNotFoundError Notification :=
  match resolveBody templates notification with
  | .error error => .error error
  | .ok body =>
      if body = notification.body then .ok notification
      else .ok { notification with body := body }

def recordDelay (rateLimiter : Option RateLimiter)
    (notification : Notification) (now : ℚ) : Option RateLimiter :=
  rateLimiter.map fun limiter =>
    limiter.record notification.channel notification.recipient.userId now

def ManagedNotificationAdapter.send (adapter : ManagedNotificationAdapter)
    (notification : Notification) (checkedAt recordedAt : ℚ) :
    ManagedNotificationAdapter × SendOutcome :=
  if isOptedOut adapter.preferences notification then
    (adapter, .skipped "opted out")
  else if isRateLimited adapter.rateLimiter notification checkedAt then
    (adapter, .skipped "rate limited")
  else
    let recorded := { adapter with
      rateLimiter := recordDelay adapter.rateLimiter notification recordedAt }
    match applyTemplate adapter.templates notification with
    | .error error => (recorded, .rejected error)
    | .ok resolved => (recorded, .handedOver resolved)

/-! ## What a send does -/

variable {adapter : ManagedNotificationAdapter}
  {store : UserPreferencesStore} {notification resolved : Notification}
  {channel other : NotificationChannel} {userId user : String}
  {checkedAt recordedAt : ℚ}

theorem isOptedOut_iff :
    store.isOptedOut userId channel = true ↔
      ∃ channels, store.optedOut.get userId = some channels ∧
        channel ∈ channels := by
  unfold UserPreferencesStore.isOptedOut
  cases store.optedOut.get userId with
  | none => simp
  | some channels => simp

theorem isOptedOut_optOut :
    (store.optOut userId channel).isOptedOut user other = true ↔
      user = userId ∧ other = channel ∨
        store.isOptedOut user other = true := by
  simp only [isOptedOut_iff, UserPreferencesStore.optOut, addToSet,
    InsertionMap.get_set]
  by_cases huser : user = userId
  · subst user
    cases store.optedOut.get userId with
    | none => simp
    | some channels => simp
  · simp [huser]

theorem isOptedOut_optIn :
    (store.optIn userId channel).isOptedOut user other = true ↔
      ¬ (user = userId ∧ other = channel) ∧
        store.isOptedOut user other = true := by
  unfold UserPreferencesStore.optIn
  cases hget : store.optedOut.get userId with
  | none =>
      rw [isOptedOut_iff]
      refine ⟨fun hopted => ⟨?_, hopted⟩, fun hopted => hopted.2⟩
      rintro ⟨rfl, -⟩
      obtain ⟨channels, hchannels, -⟩ := hopted
      rw [hget] at hchannels
      cases hchannels
  | some channels =>
      simp only [isOptedOut_iff, InsertionMap.get_set]
      by_cases huser : user = userId
      · subst user
        simp [hget, and_comm]
      · simp [huser]

theorem target_of_applyTemplate {templates : Option TemplateEngine}
    (happly : applyTemplate templates notification = .ok resolved) :
    resolved.channel = notification.channel ∧
      resolved.recipient = notification.recipient := by
  unfold applyTemplate at happly
  split at happly
  · cases happly
  · split at happly
    · cases happly
      exact ⟨rfl, rfl⟩
    · cases happly
      exact ⟨rfl, rfl⟩

/-- A send is skipped without effect, or it is allowed and recorded; only a
notification that the user has not opted out of is handed over. -/
theorem send_cases (adapter : ManagedNotificationAdapter)
    (notification : Notification) (checkedAt recordedAt : ℚ) :
    (∃ reason, adapter.send notification checkedAt recordedAt =
      (adapter, .skipped reason)) ∨
    isOptedOut adapter.preferences notification = false ∧
      isRateLimited adapter.rateLimiter notification checkedAt = false ∧
      (adapter.send notification checkedAt recordedAt).1 =
        { adapter with rateLimiter :=
            recordDelay adapter.rateLimiter notification recordedAt } ∧
      ∀ resolved, (adapter.send notification checkedAt recordedAt).2 =
        .handedOver resolved →
          resolved.channel = notification.channel ∧
            resolved.recipient = notification.recipient := by
  unfold ManagedNotificationAdapter.send
  split
  · exact .inl ⟨_, rfl⟩
  · split
    · exact .inl ⟨_, rfl⟩
    · rename_i hopted hlimited
      refine .inr ⟨by simpa using hopted, by simpa using hlimited, ?_, ?_⟩
      · split
        · rfl
        · rfl
      · intro resolved hresolved
        split at hresolved
        · cases hresolved
        · rename_i happly
          cases hresolved
          exact target_of_applyTemplate happly

end TsCommons.Notifications
