import TsCommons.Incidents.Notifications

/-!
# The lifecycle law

Each step from a state of the law leads to a state of the law exactly when it
meets the condition on its label, so the runs that satisfy the law throughout
are those whose steps all meet it.
-/

namespace TsCommons.Incidents

open Foundations

variable {H : Type} [DecidableEq H] {state next : State H}
  {notification : Notification H} {rest : List (Notification H)}
  {handlers : List H} {handler other : H} {number : ℕ}
  {registration : Registration H}

/-! ## Turns -/

theorem turns_start (incident : Incident) (update : IncidentUpdate)
    (staying handlers : List H) (handler : H) :
    (⟨incident, update, 0, staying, []⟩ : Notification H).turns handlers
      handler = handlers.count handler := by
  rw [Notification.turns, List.count_nil, unvisited_zero, Nat.zero_add]

theorem turns_call (hitem : handlers[notification.index]? = some handler)
    (other : H) :
    Notification.turns
        { notification with
          index := notification.index + 1
          called := notification.called ++ [handler] } handlers other =
      notification.turns handlers other := by
  simp only [Notification.turns, count_unvisited_next hitem other,
    List.count_append, List.count_singleton, beq_iff_eq]
  omega

theorem turns_end (hend : handlers[notification.index]? = none)
    (other : H) :
    notification.turns handlers other = notification.called.count other := by
  rw [Notification.turns, unvisited_eq_nil (List.getElem?_eq_none_iff.mp hend),
    List.count_nil, Nat.add_zero]

theorem turns_push (notification : Notification H) (handlers : List H)
    (handler other : H) :
    notification.turns (handlers ++ [handler]) other =
      notification.turns handlers other +
        if notification.index ≤ handlers.length ∧ handler = other then 1
        else 0 := by
  rw [Notification.turns, unvisited_push, List.count_append,
    Notification.turns, Nat.add_assoc]
  congr 2
  by_cases hle : notification.index ≤ handlers.length
  · simp [hle, List.count_singleton]
  · simp [hle]

theorem turns_splice_behind
    (hbehind : handlers.idxOf handler < notification.index) (other : H) :
    notification.turns handlers other =
      notification.turns (handlers.eraseIdx (handlers.idxOf handler)) other +
        if handlers[notification.index]? = some other then 1 else 0 := by
  rw [Notification.turns, Notification.turns,
    count_unvisited_splice_behind handlers hbehind other, Nat.add_assoc]

theorem turns_splice_ahead (hmem : handler ∈ handlers)
    (hahead : ¬ handlers.idxOf handler < notification.index) (other : H) :
    notification.turns handlers other =
      notification.turns (handlers.eraseIdx (handlers.idxOf handler)) other +
        if handler = other then 1 else 0 := by
  rw [Notification.turns, Notification.turns,
    count_unvisited_splice_ahead (Nat.le_of_not_lt hahead)
      (List.getElem?_idxOf hmem) other, Nat.add_assoc]

theorem Once.leave (honce : Once handlers notification) (remaining : List H) :
    Once handlers (notification.leave remaining) :=
  fun handler hstays => honce handler (List.mem_filter.mp hstays).1

theorem Once.splice_iff (honce : Once handlers notification)
    (hmem : handler ∈ handlers) :
    Once (handlers.eraseIdx (handlers.idxOf handler)) notification ↔
      KeepsTurns handlers handler notification := by
  unfold KeepsTurns
  split
  next hbehind =>
    constructor
    · intro hsplice skipped hskipped hstays
      have hturns := turns_splice_behind hbehind skipped
      rw [honce skipped hstays, hsplice skipped hstays,
        if_pos (Option.mem_def.mp hskipped)] at hturns
      cases hturns
    · intro hkeeps other hstays
      have hne : ¬ handlers[notification.index]? = some other :=
        fun hskipped => hkeeps other hskipped hstays
      have hturns := turns_splice_behind hbehind other
      rw [honce other hstays, if_neg hne] at hturns
      exact hturns.symm
  next hahead =>
    constructor
    · intro hsplice hstays
      have hturns := turns_splice_ahead hmem hahead handler
      rw [honce handler hstays, hsplice handler hstays,
        if_pos rfl] at hturns
      cases hturns
    · intro hkeeps other hstays
      have hne : handler ≠ other := by
        rintro rfl
        exact hkeeps hstays
      have hturns := turns_splice_ahead hmem hahead other
      rw [honce other hstays, if_neg hne] at hturns
      exact hturns.symm

theorem Once.push_iff (honce : Once handlers notification) (handler : H) :
    Once (handlers ++ [handler]) notification ↔
      (handler ∈ notification.staying →
        handlers.length < notification.index) := by
  constructor
  · intro hpush hstays
    have hturns := turns_push notification handlers handler handler
    rw [honce handler hstays, hpush handler hstays] at hturns
    split at hturns
    · cases hturns
    · rename_i hnot
      exact Nat.lt_of_not_le fun hle => hnot ⟨hle, rfl⟩
  · intro hlt other hstays
    rw [turns_push, honce other hstays, if_neg]
    rintro ⟨hle, rfl⟩
    exact Nat.not_le_of_lt (hlt hstays) hle

/-! ## Steps -/

theorem currentStatus_concat (updates : List IncidentUpdate)
    (update : IncidentUpdate) :
    currentStatus (updates ++ [update]) = update.status := by
  rw [currentStatus, List.getLast?_concat]
  rfl

omit [DecidableEq H] in
theorem RecordLaw.open_iff {manager : IncidentManager H}
    {log : List IncidentUpdate} (hrecord : RecordLaw manager log)
    (params : IncidentParams) (hex : String) (now : ℕ) :
    RecordLaw (manager.open params hex now) log ↔
      currentStatus (manager.getUpdates (incidentId hex)) = .open := by
  constructor
  · intro hopen
    have hcurrent := hopen.current (incidentId hex) (params.incident hex now)
      (InsertionMap.get_set_self _ _ _)
    exact hcurrent.symm
  · intro hstatus
    refine ⟨fun id incident hget => ?_, hrecord.history,
      fun id incident hget => ?_⟩
    · rw [IncidentManager.open, InsertionMap.get_set] at hget
      split at hget
      · cases hget
        simp [IncidentParams.incident]
      · exact hrecord.resolved id incident hget
    · rw [IncidentManager.open, InsertionMap.get_set] at hget
      split at hget
      · rename_i heq
        cases hget
        rw [heq]
        exact hstatus.symm
      · exact hrecord.current id incident hget

omit [DecidableEq H] in
theorem RecordLaw.record_iff {manager : IncidentManager H}
    {log : List IncidentUpdate} (hrecord : RecordLaw manager log)
    {incident : Incident} (update : IncidentUpdate)
    (hget : manager.incidents.get update.incidentId = some incident)
    (now : ℕ) :
    RecordLaw
        (manager.record (incident.updated update.status now) update)
        (log ++ [update]) ↔
      (update.status = .resolved ∨ incident.status ≠ .resolved) := by
  have hresolved := Incident.resolvedAt_updated
    (hrecord.resolved update.incidentId incident hget) update.status now
  constructor
  · intro hnext
    exact hresolved.mp
      (hnext.resolved update.incidentId _ (InsertionMap.get_set_self _ _ _))
  · intro hstatus
    refine ⟨fun id other hother => ?_, fun id => ?_,
      fun id other hother => ?_⟩
    · rw [IncidentManager.record, InsertionMap.get_set] at hother
      split at hother
      · cases hother
        exact hresolved.mpr hstatus
      · exact hrecord.resolved id other hother
    · rw [IncidentManager.getUpdates_record, hrecord.history,
        List.filter_append]
      simp [List.filter_singleton]
    · rw [IncidentManager.record, InsertionMap.get_set] at hother
      rw [IncidentManager.getUpdates_record]
      split at hother
      · rename_i heq
        cases hother
        rw [if_pos heq.symm, currentStatus_concat]
        rfl
      · rename_i hne
        rw [if_neg (Ne.symm hne), List.append_nil]
        exact hrecord.current id other hother

theorem LifecycleLaw.open_iff (hlaw : LifecycleLaw state)
    (params : IncidentParams) (hex : String) (now : ℕ) :
    LifecycleLaw
        { state with manager := state.manager.open params hex now } ↔
      currentStatus (state.manager.getUpdates (incidentId hex)) = .open := by
  rw [← hlaw.toRecordLaw.open_iff params hex now]
  exact ⟨fun hnext => hnext.toRecordLaw,
    fun hrecord => ⟨hrecord, hlaw.notified, hlaw.ended⟩⟩

theorem LifecycleLaw.update_iff (hlaw : LifecycleLaw state) (id : String)
    (status : IncidentStatus) (message : String) (author : Option String)
    (now : ℕ) :
    LifecycleLaw (((state.manager.update id status message author now).map
        state.notify).getD state) ↔ Updates state id status := by
  cases hupdate : state.manager.update id status message author now with
  | none =>
      have hnone := Option.map_eq_none_iff.mp hupdate
      refine iff_of_true hlaw fun incident hincident => ?_
      rw [hnone] at hincident
      cases hincident
  | some recorded =>
      obtain ⟨manager, updated, update⟩ := recorded
      obtain ⟨incident, hget, rfl, rfl, rfl⟩ :=
        IncidentManager.update_eq_some hupdate
      have hrecord := hlaw.toRecordLaw.record_iff
        ⟨id, message, status, now, author⟩ hget now
      constructor
      · intro hnext other hother
        rw [Option.mem_def, hget] at hother
        cases hother
        refine ⟨hrecord.mp hnext.toRecordLaw, fun handler hregistered => ?_⟩
        have honce := hnext.notified _ List.mem_cons_self handler hregistered
        rwa [turns_start] at honce
      · intro hupdates
        obtain ⟨hstatus, hplaces⟩ := hupdates incident hget
        refine ⟨hrecord.mpr hstatus, ?_, hlaw.ended⟩
        refine List.forall_mem_cons.mpr ⟨fun handler hregistered => ?_,
          hlaw.notified⟩
        rw [turns_start]
        exact hplaces handler hregistered

theorem LifecycleLaw.onStatusChange_iff (hlaw : LifecycleLaw state)
    (handler : H) :
    LifecycleLaw { state with
        manager := state.manager.onStatusChange handler
        registrations := state.registrations ++ [⟨handler, true⟩] } ↔
      KeepsLifecycle state (.onStatusChange handler) := by
  constructor
  · intro hnext notification hactive
    exact ((hlaw.notified notification hactive).push_iff handler).mp
      (hnext.notified notification hactive)
  · intro hkeeps
    refine ⟨⟨hlaw.resolved, hlaw.history, hlaw.current⟩,
      fun notification hactive => ?_, hlaw.ended⟩
    exact ((hlaw.notified notification hactive).push_iff handler).mpr
      (hkeeps notification hactive)

theorem LifecycleLaw.unsubscribe_iff (hlaw : LifecycleLaw state)
    (number : ℕ) (registration : Registration H) :
    LifecycleLaw (state.unsubscribe number registration) ↔
      (registration.handler ∈ state.manager.handlers →
        ∀ notification ∈ (state.unsubscribe number registration).active,
          KeepsTurns state.manager.handlers registration.handler
            notification) := by
  have honce : ∀ notification ∈
      (state.unsubscribe number registration).active,
      Once state.manager.handlers notification := by
    intro notification hmem
    obtain ⟨before, hbefore, rfl⟩ := List.mem_map.mp hmem
    exact (hlaw.notified before hbefore).leave _
  constructor
  · intro hnext hmem notification hactive
    exact ((honce notification hactive).splice_iff hmem).mp
      (hnext.notified notification hactive)
  · intro hkeeps
    refine ⟨⟨hlaw.resolved, hlaw.history, hlaw.current⟩,
      fun notification hactive => ?_, hlaw.ended⟩
    by_cases hmem : registration.handler ∈ state.manager.handlers
    · exact ((honce notification hactive).splice_iff hmem).mpr
        (hkeeps hmem notification hactive)
    · have hnone : state.manager.handlers.length ≤
          state.manager.handlers.idxOf registration.handler :=
        Nat.le_of_eq (List.idxOf_eq_length hmem).symm
      have hsame : (state.unsubscribe number registration).manager.handlers =
          state.manager.handlers :=
        List.eraseIdx_of_length_le hnone
      rw [hsame]
      exact honce notification hactive

theorem LifecycleLaw.proceed (hlaw : LifecycleLaw state)
    (hactive : state.active = notification :: rest) :
    LifecycleLaw (state.proceed notification rest) := by
  have hnotified := hlaw.notified
  rw [hactive] at hnotified
  obtain ⟨honce, hrest⟩ := List.forall_mem_cons.mp hnotified
  unfold State.proceed
  split
  next hend =>
    refine ⟨hlaw.toRecordLaw, hrest, ?_⟩
    refine List.forall_mem_append.mpr ⟨hlaw.ended, ?_⟩
    refine List.forall_mem_singleton.mpr fun handler hstays => ?_
    rw [← turns_end hend handler]
    exact honce handler hstays
  next handler hitem =>
    refine ⟨hlaw.toRecordLaw, ?_, hlaw.ended⟩
    refine List.forall_mem_cons.mpr ⟨fun other hstays => ?_, hrest⟩
    have hturns := turns_call hitem other
    exact hturns.trans (honce other hstays)

theorem LifecycleLaw.throws_iff (hlaw : LifecycleLaw state)
    (hactive : state.active = notification :: rest) :
    LifecycleLaw (state.finish notification rest) ↔
      ∀ handler ∈ notification.staying, handler ∈ notification.called := by
  have hnotified := hlaw.notified
  rw [hactive] at hnotified
  obtain ⟨honce, hrest⟩ := List.forall_mem_cons.mp hnotified
  constructor
  · intro hnext handler hstays
    have hcalled := hnext.ended notification
      (List.mem_append_right _ List.mem_cons_self) handler hstays
    exact List.count_pos_iff.mp (by omega)
  · intro hall
    refine ⟨hlaw.toRecordLaw, hrest, ?_⟩
    refine List.forall_mem_append.mpr ⟨hlaw.ended, ?_⟩
    refine List.forall_mem_singleton.mpr fun handler hstays => ?_
    have hturns := honce handler hstays
    have hpos := List.count_pos_iff.mpr (hall handler hstays)
    unfold Notification.turns at hturns
    omega

theorem LifecycleLaw.looping (hlaw : LifecycleLaw state) (looping : Bool) :
    LifecycleLaw { state with looping := looping } :=
  ⟨⟨hlaw.resolved, hlaw.history, hlaw.current⟩, hlaw.notified, hlaw.ended⟩

theorem LifecycleLaw.call_iff (hlaw : LifecycleLaw state) {label : Label H}
    (hcall : call state label = some next) :
    LifecycleLaw next ↔ KeepsLifecycle state label := by
  cases label with
  | «open» params hex now =>
      cases hcall
      exact hlaw.open_iff params hex now
  | update id status message author now =>
      cases hcall
      exact hlaw.update_iff id status message author now
  | resolve id message author now =>
      cases hcall
      exact hlaw.update_iff id .resolved _ author now
  | onStatusChange handler =>
      cases hcall
      exact hlaw.onStatusChange_iff handler
  | unsubscribe number =>
      obtain ⟨registration, hget, rfl⟩ := Option.map_eq_some_iff.mp hcall
      rw [hlaw.unsubscribe_iff number registration]
      simp only [KeepsLifecycle, hget, Option.mem_some_iff, forall_eq']
  | proceed => cases hcall
  | returns =>
      simp only [call, Option.ite_none_left_eq_some, Option.some.injEq]
        at hcall
      rw [← hcall.2]
      exact iff_of_true (hlaw.looping true) trivial
  | throws =>
      simp only [call] at hcall
      split at hcall
      next => cases hcall
      next notification rest hactive =>
        cases hcall
        rw [hlaw.throws_iff hactive]
        simp only [KeepsLifecycle, hactive, List.head?_cons,
          Option.mem_some_iff, forall_eq']

theorem LifecycleLaw.step_iff (hlaw : LifecycleLaw state) {label : Label H}
    (hstep : step state label = some next) :
    LifecycleLaw next ↔ KeepsLifecycle state label := by
  unfold step at hstep
  split at hstep
  next =>
    split at hstep
    next notification rest hactive =>
      cases hstep
      exact iff_of_true (hlaw.proceed hactive) trivial
    next => cases hstep
  next => exact hlaw.call_iff hstep

theorem lifecycleLaw_initial : LifecycleLaw (State.initial : State H) where
  resolved _ _ hget := by cases hget
  history _ := rfl
  current _ _ hget := by cases hget
  notified _ hactive := by cases hactive
  ended _ hended := by cases hended

/-! ## Runs -/

/-- A run satisfies the law throughout if and only if no incident is reopened
and no handler that stays loses its turn or gets a second one. -/
theorem lifecycleLaw_iff_keepsLifecycle {labels : List (Label H)}
    {last : State H} (hrun : exec step .initial labels = some last) :
    Throughout step LifecycleLaw .initial labels ↔
      StepsMeet step KeepsLifecycle .initial labels :=
  throughout_iff_stepsMeet (I := LifecycleLaw) (fun _ hlaw => hlaw)
    (fun _ _ _ hlaw hkeeps hstep => (hlaw.step_iff hstep).mpr hkeeps)
    (fun _ _ _ hlaw hnot hstep hnext => hnot ((hlaw.step_iff hstep).mp hnext))
    lifecycleLaw_initial hrun

def outage : IncidentParams :=
  ⟨"Outage", "No response", .high, none, none, none⟩

/-- An incident is updated to a status after it has been resolved. -/
def updateResolved (status : IncidentStatus) : List (Label ℕ) :=
  [.open outage "00" 0, .resolve "inc_00" none none 1, .proceed,
    .update "inc_00" status "Again" none 2]

/-- The first of two handlers that are called calls the function of a
registration. -/
def unsubscribeFirst (number : ℕ) : List (Label ℕ) :=
  [.onStatusChange 7, .onStatusChange 8, .open outage "00" 0,
    .resolve "inc_00" none none 1, .proceed, .unsubscribe number, .returns,
    .proceed]

theorem lifecycleLaw_iff_keepsLifecycle_samples :
    Throughout step LifecycleLaw .initial (unsubscribeFirst 1) ∧
      ¬Throughout step LifecycleLaw .initial (unsubscribeFirst 0) ∧
      Throughout step LifecycleLaw .initial (updateResolved .resolved) ∧
      ¬Throughout step LifecycleLaw .initial (updateResolved .open) := by
  have hother : (exec step .initial (unsubscribeFirst 1)).isSome := by
    decide +kernel
  have hitself : (exec step .initial (unsubscribeFirst 0)).isSome := by
    decide +kernel
  have hagain : (exec step .initial (updateResolved .resolved)).isSome := by
    decide +kernel
  have hreopens : (exec step .initial (updateResolved .open)).isSome := by
    decide +kernel
  obtain ⟨_, hother⟩ := Option.isSome_iff_exists.mp hother
  obtain ⟨_, hitself⟩ := Option.isSome_iff_exists.mp hitself
  obtain ⟨_, hagain⟩ := Option.isSome_iff_exists.mp hagain
  obtain ⟨_, hreopens⟩ := Option.isSome_iff_exists.mp hreopens
  refine ⟨?_, fun hlaw => ?_, ?_, fun hlaw => ?_⟩
  · apply (lifecycleLaw_iff_keepsLifecycle hother).mpr
    decide +kernel
  · have hmeet := (lifecycleLaw_iff_keepsLifecycle hitself).mp hlaw
    exact absurd hmeet (by decide +kernel)
  · apply (lifecycleLaw_iff_keepsLifecycle hagain).mpr
    decide +kernel
  · have hmeet := (lifecycleLaw_iff_keepsLifecycle hreopens).mp hlaw
    exact absurd hmeet (by decide +kernel)

/-- A reopened incident keeps its `resolvedAt`, and a handler that
unsubscribes itself takes the turn of the next one. -/
theorem not_lifecycleLaw_of_reopening :
    (∃ state, exec step .initial (updateResolved .open) = some state ∧
      (state.manager.incidents.get "inc_00").map
          (fun incident => (incident.status, incident.resolvedAt)) =
        some (.open, some 1) ∧
      ¬LifecycleLaw state) ∧
    ∃ state, exec step .initial (unsubscribeFirst 0) = some state ∧
      state.manager.handlers = [8] ∧
      state.ended.map (fun ended => (ended.staying, ended.called)) =
        [([7, 8], [7])] ∧
      ¬LifecycleLaw state := by
  have hreopens : (exec step .initial (updateResolved .open)).any
      (fun state => decide
        ((state.manager.incidents.get "inc_00").map
            (fun incident => (incident.status, incident.resolvedAt)) =
          some (.open, some 1))) = true := by
    decide +kernel
  have hskips : (exec step .initial (unsubscribeFirst 0)).any
      (fun state => decide
        (state.manager.handlers = [8] ∧
          state.ended.map (fun ended => (ended.staying, ended.called)) =
            [([7, 8], [7])])) = true := by
    decide +kernel
  obtain ⟨reopened, hreopens, hfacts⟩ := (Option.any_eq_true _ _).mp hreopens
  obtain ⟨skipping, hskips, hends⟩ := (Option.any_eq_true _ _).mp hskips
  have hincident := of_decide_eq_true hfacts
  obtain ⟨hhandlers, hended⟩ := of_decide_eq_true hends
  refine ⟨⟨reopened, hreopens, hincident, fun hlaw => ?_⟩,
    skipping, hskips, hhandlers, hended, fun hlaw => ?_⟩
  · obtain ⟨incident, hget, hfields⟩ := Option.map_eq_some_iff.mp hincident
    have hresolved := hlaw.resolved "inc_00" incident hget
    rw [(Prod.mk.inj hfields).1, (Prod.mk.inj hfields).2] at hresolved
    exact absurd hresolved (by decide)
  · obtain ⟨notification, hnotification, hcalls⟩ :=
      List.map_eq_singleton_iff.mp hended
    have hcount := hlaw.ended notification
      (by rw [hnotification]; exact List.mem_singleton_self _) 8
      (by rw [(Prod.mk.inj hcalls).1]; decide)
    rw [(Prod.mk.inj hcalls).2] at hcount
    exact absurd hcount (by decide)

end TsCommons.Incidents
