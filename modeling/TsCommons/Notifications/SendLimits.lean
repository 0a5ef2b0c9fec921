import TsCommons.Foundations.Execution
import TsCommons.Foundations.Since
import TsCommons.Notifications.ManagedNotificationAdapter

/-!
# Limits of the sends

Sends of any users and channels overlap while the inner adapter is at work,
and the users opt out and in between them.  A notification is handed over at
the time its send is recorded.
-/

namespace TsCommons.Notifications

open Foundations

structure SendResult where
  notificationId : String
  status : String
  failureReason : Option String

/-- Changes of the preferences and the calls of the inner adapter. -/
inductive Event
  | optedOut (userId : String) (channel : NotificationChannel)
  | optedIn (userId : String) (channel : NotificationChannel)
  | preferencesCleared
  | handedOver (notification : Notification) (time : ℚ)
deriving DecidableEq

def Event.OptsIn (userId : String) (channel : NotificationChannel) :
    Event → Prop
  | .optedIn user other => user = userId ∧ other = channel
  | .preferencesCleared => True
  | _ => False

/-- The user has opted out of the channel and not opted in since. -/
def OptedOut (events : List Event) (userId : String)
    (channel : NotificationChannel) : Prop :=
  Since (fun _ event => event = .optedOut userId channel)
    (Event.OptsIn userId channel) events

def Event.delivery : Event → Option (Notification × ℚ)
  | .handedOver notification time => some (notification, time)
  | _ => none

/-- When the notifications of a kind were handed over. -/
def handedOverAt (kind : Notification → Bool) (events : List Event) :
    List ℚ :=
  ((events.filterMap Event.delivery).filter fun delivery =>
    kind delivery.1).map Prod.snd

structure State where
  adapter : ManagedNotificationAdapter
  now : ℚ
  inFlight : List Notification
  events : List Event
deriving DecidableEq

/-- An adapter with or without preferences, a limit and templates. -/
def State.initial (config : Option RateLimitConfig) (preferences : Bool)
    (templates : Option TemplateEngine) (now : ℚ) : State where
  adapter :=
    { preferences := if preferences then some .clear else none
      rateLimiter := config.map .create
      templates := templates }
  now := now
  inFlight := []
  events := []

inductive Label
  | send (notification : Notification) (checkedAt recordedAt : ℚ)
  | settle (position : ℕ) (result : Except String SendResult)
  | optOut (userId : String) (channel : NotificationChannel)
  | optIn (userId : String) (channel : NotificationChannel)
  | clearPreferences
  | register (id : String) (template : Text)

namespace State

def send (state : State) (notification : Notification)
    (checkedAt recordedAt : ℚ) : State :=
  let result := state.adapter.send notification checkedAt recordedAt
  match result.2 with
  | .handedOver resolved =>
      { adapter := result.1
        now := recordedAt
        inFlight := state.inFlight ++ [resolved]
        events := state.events ++ [.handedOver resolved recordedAt] }
  | _ => { state with adapter := result.1, now := recordedAt }

def setPreferences (state : State) (store : UserPreferencesStore)
    (event : Event) : State :=
  { state with
    adapter := { state.adapter with preferences := some store }
    events := state.events ++ [event] }

end State

def step (state : State) : Label → Option State
  | .send notification checkedAt recordedAt =>
      if state.now ≤ checkedAt ∧ checkedAt ≤ recordedAt then
        some (state.send notification checkedAt recordedAt)
      else none
  | .settle position _ =>
      if position < state.inFlight.length then
        some { state with inFlight := state.inFlight.eraseIdx position }
      else none
  | .optOut userId channel =>
      state.adapter.preferences.map fun store =>
        state.setPreferences (store.optOut userId channel)
          (.optedOut userId channel)
  | .optIn userId channel =>
      state.adapter.preferences.map fun store =>
        state.setPreferences (store.optIn userId channel)
          (.optedIn userId channel)
  | .clearPreferences =>
      state.adapter.preferences.map fun _ =>
        state.setPreferences .clear .preferencesCleared
  | .register id template =>
      state.adapter.templates.map fun engine =>
        { state with adapter :=
            { state.adapter with
              templates := some (engine.register id template) } }

def isFor (channel : NotificationChannel) (userId : String)
    (notification : Notification) : Bool :=
  notification.channel = channel && notification.recipient.userId = userId

/-- No notification is handed over while its user has opted out. -/
def RespectsOptOuts (before : List Event) : Event → Prop
  | .handedOver notification _ =>
      ¬ OptedOut before notification.recipient.userId notification.channel
  | _ => True

/-- In no window are more notifications handed over for a channel and a user
than the limit allows, and none at all while the user has opted out. -/
structure SendLaw (config : Option RateLimitConfig) (state : State) :
    Prop where
  limited : ∀ limit ∈ config, ∀ channel userId start,
    within limit.windowMs start
      (handedOverAt (isFor channel userId) state.events) ≤ limit.maxCount
  optedIn : AtEvery RespectsOptOuts state.events

variable {config : Option RateLimitConfig} {state next : State}
  {events : List Event} {event : Event} {label : Label}
  {notification resolved : Notification} {userId : String}
  {channel : NotificationChannel} {time : ℚ} {store : UserPreferencesStore}

/-! ## The history -/

theorem handedOverAt_append (kind : Notification → Bool)
    (first second : List Event) :
    handedOverAt kind (first ++ second) =
      handedOverAt kind first ++ handedOverAt kind second := by
  simp only [handedOverAt, List.filterMap_append, List.filter_append,
    List.map_append]

theorem handedOverAt_handedOver (kind : Notification → Bool)
    (notification : Notification) (time : ℚ) :
    handedOverAt kind [.handedOver notification time] =
      if kind notification then [time] else [] := by
  simp only [handedOverAt, Event.delivery, List.filterMap_cons,
    List.filterMap_nil, List.filter_singleton]
  cases kind notification with
  | true => rfl
  | false => rfl

theorem within_le_of_imp {kind wider : Notification → Bool}
    (himp : ∀ notification, kind notification = true →
      wider notification = true) (windowMs start : ℚ)
    (events : List Event) :
    within windowMs start (handedOverAt kind events) ≤
      within windowMs start (handedOverAt wider events) := by
  apply List.Sublist.countP_le
  apply List.Sublist.map
  apply List.monotone_filter_right
  exact fun delivery hkind => himp delivery.1 hkind

theorem optedOut_concat_iff :
    OptedOut (events ++ [event]) userId channel ↔
      event = .optedOut userId channel ∨
        OptedOut events userId channel ∧ ¬ event.OptsIn userId channel :=
  since_concat_iff

/-- The times that the limiter bounds. -/
def keyedTimes (events : List Event) (key : String) : List ℚ :=
  handedOverAt (fun notification =>
    windowKey notification.channel notification.recipient.userId = key) events

structure Invariant (config : Option RateLimitConfig) (state : State) :
    Prop where
  limits : ∀ limit ∈ config, ∃ limiter,
    state.adapter.rateLimiter = some limiter ∧ limiter.config = limit ∧
      Limits limiter state.now (keyedTimes state.events)
  preferences : ∀ userId channel,
    (state.adapter.preferences.any fun store =>
      store.isOptedOut userId channel) = true ↔
        OptedOut state.events userId channel
  optedIn : AtEvery RespectsOptOuts state.events

theorem invariant_initial (config : Option RateLimitConfig)
    (preferences : Bool) (templates : Option TemplateEngine) (now : ℚ) :
    Invariant config (State.initial config preferences templates now) := by
  constructor
  · intro limit hlimit
    refine ⟨.create limit, ?_, rfl, limits_create limit now⟩
    rw [Option.mem_def.mp hlimit]
    rfl
  · intro userId channel
    refine iff_of_false ?_ not_since_nil
    cases preferences with
    | true => simp [State.initial, UserPreferencesStore.clear, isOptedOut_iff]
    | false => simp [State.initial]
  · exact atEvery_nil

theorem Invariant.law (hinv : Invariant config state) :
    SendLaw config state := by
  constructor
  · intro limit hlimit channel userId start
    obtain ⟨limiter, -, rfl, hlimits⟩ := hinv.limits limit hlimit
    refine (within_le_of_imp (fun notification hfor => ?_) _ _ _).trans
      (hlimits.limited (windowKey channel userId) start)
    simp only [isFor, Bool.and_eq_true, decide_eq_true_eq] at hfor
    simp [hfor]
  · exact hinv.optedIn

theorem keyedTimes_concat_handedOver (events : List Event)
    (notification : Notification) (time : ℚ) :
    keyedTimes (events ++ [.handedOver notification time]) =
      Function.update (keyedTimes events)
        (windowKey notification.channel notification.recipient.userId)
        (keyedTimes events
          (windowKey notification.channel notification.recipient.userId) ++
            [time]) := by
  funext key
  rw [keyedTimes, handedOverAt_append, handedOverAt_handedOver, ← keyedTimes]
  by_cases hkey : key =
      windowKey notification.channel notification.recipient.userId
  · rw [hkey, Function.update_self]
    simp
  · rw [Function.update_of_ne hkey]
    simp [Ne.symm hkey]

theorem Invariant.setPreferences (hinv : Invariant config state)
    (hevent : event.delivery = none)
    (hstore : ∀ userId channel, store.isOptedOut userId channel = true ↔
      OptedOut (state.events ++ [event]) userId channel) :
    Invariant config (state.setPreferences store event) := by
  have htimes : keyedTimes (state.events ++ [event]) =
      keyedTimes state.events := by
    funext key
    rw [keyedTimes, handedOverAt_append]
    simp [keyedTimes, handedOverAt, hevent]
  constructor
  · intro limit hlimit
    obtain ⟨limiter, hlimiter, hconfig, hlimits⟩ := hinv.limits limit hlimit
    refine ⟨limiter, hlimiter, hconfig, ?_⟩
    simp only [State.setPreferences, htimes]
    exact hlimits
  · exact hstore
  · apply hinv.optedIn.concat
    cases event with
    | handedOver notification time => cases hevent
    | _ => trivial

theorem Invariant.send (hinv : Invariant config state)
    {checkedAt recordedAt : ℚ} (hnow : state.now ≤ checkedAt)
    (hlater : checkedAt ≤ recordedAt) :
    Invariant config (state.send notification checkedAt recordedAt) := by
  rcases send_cases state.adapter notification checkedAt recordedAt with
    ⟨reason, hsend⟩ | ⟨hopted, hlimited, hadapter, hresolved⟩
  · simp only [State.send, hsend]
    refine ⟨fun limit hlimit => ?_, hinv.preferences, hinv.optedIn⟩
    obtain ⟨limiter, hlimiter, hconfig, hlimits⟩ := hinv.limits limit hlimit
    exact ⟨limiter, hlimiter, hconfig, hlimits.mono (hnow.trans hlater)⟩
  · have hlimits : ∀ limit ∈ config, ∃ limiter,
        state.adapter.rateLimiter = some limiter ∧
        (recordDelay state.adapter.rateLimiter notification recordedAt =
          some (limiter.record notification.channel
            notification.recipient.userId recordedAt)) ∧
        limiter.config = limit ∧
        Limits limiter checkedAt (keyedTimes state.events) ∧
        limiter.isAllowed notification.channel
          notification.recipient.userId checkedAt = true := by
      intro limit hlimit
      obtain ⟨limiter, hlimiter, hconfig, hlimits⟩ :=
        hinv.limits limit hlimit
      refine ⟨limiter, hlimiter, ?_, hconfig, hlimits.mono hnow, ?_⟩
      · rw [hlimiter]
        rfl
      · simpa [isRateLimited, hlimiter] using hlimited
    have hskipped : Invariant config
        { state with
          adapter :=
            { state.adapter with
              rateLimiter :=
                recordDelay state.adapter.rateLimiter notification recordedAt }
          now := recordedAt } := by
      refine ⟨fun limit hlimit => ?_, hinv.preferences, hinv.optedIn⟩
      obtain ⟨limiter, -, hrecord, hconfig, hbounds, -⟩ :=
        hlimits limit hlimit
      exact ⟨_, hrecord, hconfig, hbounds.record hlater⟩
    rw [State.send]
    simp only [hadapter]
    split
    · rename_i resolved heq
      obtain ⟨hchannel, hrecipient⟩ := hresolved resolved heq
      refine ⟨fun limit hlimit => ?_, fun userId channel => ?_, ?_⟩
      · obtain ⟨limiter, -, hrecord, hconfig, hbounds, hallowed⟩ :=
          hlimits limit hlimit
        refine ⟨_, hrecord, hconfig, ?_⟩
        rw [keyedTimes_concat_handedOver, hchannel, hrecipient]
        exact hbounds.handOver hallowed hlater
      · rw [hinv.preferences, optedOut_concat_iff]
        simp [Event.OptsIn]
      · apply hinv.optedIn.concat
        rw [RespectsOptOuts, hchannel, hrecipient, ← hinv.preferences]
        simpa [isOptedOut] using hopted
    · exact hskipped

theorem Invariant.step (hinv : Invariant config state)
    (hstep : step state label = some next) : Invariant config next := by
  cases label with
  | send notification checkedAt recordedAt =>
      simp only [Notifications.step, Option.ite_none_right_eq_some,
        Option.some.injEq] at hstep
      obtain ⟨⟨hnow, hlater⟩, rfl⟩ := hstep
      exact hinv.send hnow hlater
  | settle position result =>
      simp only [Notifications.step, Option.ite_none_right_eq_some,
        Option.some.injEq] at hstep
      obtain ⟨-, rfl⟩ := hstep
      exact { hinv with }
  | optOut userId channel =>
      obtain ⟨store, hstore, rfl⟩ := Option.map_eq_some_iff.mp hstep
      apply hinv.setPreferences rfl
      intro user other
      have hbefore := hinv.preferences user other
      rw [hstore, Option.any_some] at hbefore
      rw [isOptedOut_optOut, hbefore, optedOut_concat_iff,
        Event.optedOut.injEq, eq_comm, eq_comm (a := other)]
      simp [Event.OptsIn]
  | optIn userId channel =>
      obtain ⟨store, hstore, rfl⟩ := Option.map_eq_some_iff.mp hstep
      apply hinv.setPreferences rfl
      intro user other
      have hbefore := hinv.preferences user other
      rw [hstore, Option.any_some] at hbefore
      rw [isOptedOut_optIn, hbefore, optedOut_concat_iff]
      simp only [reduceCtorEq, false_or, Event.OptsIn]
      rw [and_comm, eq_comm, eq_comm (a := other)]
  | clearPreferences =>
      obtain ⟨store, -, rfl⟩ := Option.map_eq_some_iff.mp hstep
      apply hinv.setPreferences rfl
      intro user other
      rw [optedOut_concat_iff, isOptedOut_iff]
      simp [Event.OptsIn, UserPreferencesStore.clear]
  | register id template =>
      obtain ⟨engine, -, rfl⟩ := Option.map_eq_some_iff.mp hstep
      exact { hinv with }

theorem sendLaw {preferences : Bool} {templates : Option TemplateEngine}
    {now : ℚ} {labels : List Label}
    (hrun : exec step (State.initial config preferences templates now)
      labels = some state) :
    SendLaw config state :=
  (exec_invariant (fun _ _ _ hinv hstep => hinv.step hstep)
    (invariant_initial config preferences templates now) hrun).law

def twoPerWindow : RateLimitConfig := ⟨100, 2⟩

def message (channel : NotificationChannel) : Notification :=
  ⟨"n", channel, ⟨"ada"⟩, ['h', 'i'], none, none⟩

/-- The third send comes too early, the fourth one while the user has opted
out, and the fifth one when the window has moved on. -/
def overlapping : List Label :=
  [.send (message .sms) 0 5, .send (message .sms) 5 5,
    .settle 1 (.error "down"), .send (message .sms) 99 99,
    .optOut "ada" .email, .send (message .email) 99 99, .optIn "ada" .email,
    .send (message .sms) 105 105, .settle 0 (.ok ⟨"n", "sent", none⟩)]

theorem sendLaw_overlapping :
    ∃ state, exec step
        (State.initial (some twoPerWindow) true none 0) overlapping =
          some state ∧
      handedOverAt (isFor .sms "ada") state.events = [5, 5, 105] ∧
      handedOverAt (isFor .email "ada") state.events = [] ∧
      SendLaw (some twoPerWindow) state := by
  have hends : (exec step (State.initial (some twoPerWindow) true none 0)
      overlapping).any (fun state => decide
        (handedOverAt (isFor .sms "ada") state.events = [5, 5, 105] ∧
          handedOverAt (isFor .email "ada") state.events = [])) = true := by
    decide +kernel
  obtain ⟨state, hrun, hhanded⟩ := (Option.any_eq_true _ _).mp hends
  obtain ⟨hsms, hemail⟩ := of_decide_eq_true hhanded
  exact ⟨state, hrun, hsms, hemail, sendLaw hrun⟩

end TsCommons.Notifications
