import TsCommons.Foundations.Execution
import TsCommons.Notifications.SendLimits

/-!
# Bulk sends

The notifications of a bulk are sent one after another, and other tasks run
while the inner adapter is awaited.  A send that throws ends the bulk: the
notifications behind it are not attempted and no result is returned.
-/

namespace TsCommons.Notifications

open Foundations

structure BulkSendResult where
  sent : ℕ
  failed : ℕ
  skipped : ℕ
  results : List SendResult

/-- What a send throws: a missing template, or what the inner adapter rejects
with. -/
inductive SendError (ε : Type*)
  | templateNotFound (error : NotificationTemplateNotFoundError)
  | inner (error : ε)

/-- What happens around one send of a bulk: what other tasks do before it, the
readings of the clock, and the answer of the inner adapter. -/
structure Attempt (ε : Type*) where
  meanwhile : ManagedNotificationAdapter → ManagedNotificationAdapter
  checkedAt : ℚ
  recordedAt : ℚ
  answer : Notification → Except ε SendResult

/-- The notifications that were attempted, and what the bulk comes to. -/
structure BulkRun (ε : Type*) where
  attempted : List Notification
  outcome : Except (SendError ε) BulkSendResult

variable {ε : Type*}

def skippedResult (id reason : String) : SendResult where
  notificationId := id
  status := "skipped"
  failureReason := some reason

def SendOutcome.settle (notification : Notification)
    (answer : Notification → Except ε SendResult) :
    SendOutcome → Except (SendError ε) SendResult
  | .skipped reason => .ok (skippedResult notification.id reason)
  | .rejected error => .error (.templateNotFound error)
  | .handedOver resolved =>
      match answer resolved with
      | .ok result => .ok result
      | .error error => .error (.inner error)

/-- The state after one send of a bulk, and what the send returns. -/
def sendOne (adapter : ManagedNotificationAdapter)
    (call : Notification × Attempt ε) :
    ManagedNotificationAdapter × Except (SendError ε) SendResult :=
  let sent := (call.2.meanwhile adapter).send call.1 call.2.checkedAt
    call.2.recordedAt
  (sent.1, sent.2.settle call.1 call.2.answer)

def sendEach (adapter : ManagedNotificationAdapter) :
    List (Notification × Attempt ε) →
      List Notification × Except (SendError ε) (List SendResult)
  | [] => ([], .ok [])
  | call :: calls =>
      match (sendOne adapter call).2 with
      | .error error => ([call.1], .error error)
      | .ok result =>
          let rest := sendEach (sendOne adapter call).1 calls
          (call.1 :: rest.1, rest.2.map (result :: ·))

def aggregate (results : List SendResult) : BulkSendResult where
  sent := results.countP (·.status = "sent")
  failed := results.countP (·.status = "failed")
  skipped := results.countP fun result =>
    result.status ≠ "sent" ∧ result.status ≠ "failed"
  results := results

def ManagedNotificationAdapter.sendBulk (adapter : ManagedNotificationAdapter)
    (calls : List (Notification × Attempt ε)) : BulkRun ε :=
  let run := sendEach adapter calls
  { attempted := run.1
    outcome := run.2.map aggregate }

/-! ## What a bulk should come to -/

/-- The state after a send, whether it returns or throws. -/
def afterSend (adapter : ManagedNotificationAdapter)
    (call : Notification × Attempt ε) : Option ManagedNotificationAdapter :=
  some (sendOne adapter call).1

/-- What each send comes to when none prevents another. -/
def independentSends (adapter : ManagedNotificationAdapter) :
    List (Notification × Attempt ε) →
      List (Notification × Except (SendError ε) SendResult)
  | [] => []
  | call :: calls =>
      (call.1, (sendOne adapter call).2) ::
        independentSends (sendOne adapter call).1 calls

/-- The result of a send is what it returned, or a failure if it threw. -/
def Answers (send : Notification × Except (SendError ε) SendResult)
    (result : SendResult) : Prop :=
  match send.2 with
  | .ok returned => result = returned
  | .error _ => result.notificationId = send.1.id ∧ result.status = "failed"

/-- Every notification is attempted once and has its result, in the order of
the bulk. -/
structure BulkLaw (adapter : ManagedNotificationAdapter)
    (calls : List (Notification × Attempt ε)) : Prop where
  attempted : (adapter.sendBulk calls).attempted = calls.map Prod.fst
  answered : ∃ bulk, (adapter.sendBulk calls).outcome = .ok bulk ∧
    List.Forall₂ Answers (independentSends adapter calls) bulk.results

/-- The send does not throw: it is skipped, or its template is there and the
inner adapter answers. -/
def Returns (adapter : ManagedNotificationAdapter)
    (call : Notification × Attempt ε) : Prop :=
  isOptedOut (call.2.meanwhile adapter).preferences call.1 = true ∨
    isRateLimited (call.2.meanwhile adapter).rateLimiter call.1
      call.2.checkedAt = true ∨
    ∃ resolved result,
      applyTemplate (call.2.meanwhile adapter).templates call.1 =
        .ok resolved ∧ call.2.answer resolved = .ok result

/-! ## When it comes to that -/

variable {adapter : ManagedNotificationAdapter}
  {call : Notification × Attempt ε} {calls : List (Notification × Attempt ε)}

theorem returns_iff :
    Returns adapter call ↔ ∃ result, (sendOne adapter call).2 = .ok result := by
  unfold Returns sendOne ManagedNotificationAdapter.send
  by_cases hopted :
      isOptedOut (call.2.meanwhile adapter).preferences call.1 = true
  · simp [hopted, SendOutcome.settle]
  · by_cases hlimited : isRateLimited (call.2.meanwhile adapter).rateLimiter
        call.1 call.2.checkedAt = true
    · simp [hopted, hlimited, SendOutcome.settle]
    · cases happly :
          applyTemplate (call.2.meanwhile adapter).templates call.1 with
      | error error =>
          simp [hopted, hlimited, SendOutcome.settle]
      | ok resolved =>
          cases hanswer : call.2.answer resolved with
          | error error =>
              simp [hopted, hlimited, hanswer, SendOutcome.settle]
          | ok result =>
              simp [hopted, hlimited, hanswer, SendOutcome.settle]

theorem sendEach_cons_of_ok {result : SendResult}
    (hresult : (sendOne adapter call).2 = .ok result)
    (calls : List (Notification × Attempt ε)) :
    sendEach adapter (call :: calls) =
      (call.1 :: (sendEach (sendOne adapter call).1 calls).1,
        (sendEach (sendOne adapter call).1 calls).2.map (result :: ·)) := by
  rw [sendEach, hresult]

theorem sendEach_cons_of_error {error : SendError ε}
    (herror : (sendOne adapter call).2 = .error error)
    (calls : List (Notification × Attempt ε)) :
    sendEach adapter (call :: calls) = ([call.1], .error error) := by
  rw [sendEach, herror]

theorem sendEach_of_returns
    (hmeet : StepsMeet afterSend Returns adapter calls) :
    ∃ results, sendEach adapter calls = (calls.map Prod.fst, .ok results) ∧
      List.Forall₂ Answers (independentSends adapter calls) results := by
  induction calls generalizing adapter with
  | nil => exact ⟨[], rfl, List.Forall₂.nil⟩
  | cons call calls ih =>
      obtain ⟨result, hresult⟩ := returns_iff.mp hmeet.1
      obtain ⟨results, hrest, hanswers⟩ := ih (hmeet.2 _ rfl)
      refine ⟨result :: results, ?_, ?_⟩
      · rw [sendEach_cons_of_ok hresult, hrest]
        rfl
      · rw [independentSends, hresult]
        exact List.Forall₂.cons rfl hanswers

/-- A bulk that returns results has no send that throws. -/
theorem stepsMeet_of_sendEach {results : List SendResult}
    (hresults : (sendEach adapter calls).2 = .ok results) :
    StepsMeet afterSend Returns adapter calls := by
  induction calls generalizing adapter results with
  | nil => trivial
  | cons call calls ih =>
      cases hsend : (sendOne adapter call).2 with
      | error error =>
          rw [sendEach_cons_of_error hsend] at hresults
          cases hresults
      | ok result =>
          rw [sendEach_cons_of_ok hsend] at hresults
          cases hrest : (sendEach (sendOne adapter call).1 calls).2 with
          | error error =>
              rw [hrest] at hresults
              cases hresults
          | ok rest =>
              refine ⟨returns_iff.mpr ⟨result, hsend⟩, fun next hnext => ?_⟩
              cases hnext
              exact ih hrest

/-- A bulk is what it should be if and only if no send of the run throws. -/
theorem bulkLaw_iff_stepsMeet (adapter : ManagedNotificationAdapter)
    (calls : List (Notification × Attempt ε)) :
    BulkLaw adapter calls ↔ StepsMeet afterSend Returns adapter calls := by
  constructor
  · intro hlaw
    obtain ⟨bulk, hbulk, -⟩ := hlaw.answered
    cases hresults : (sendEach adapter calls).2 with
    | error error =>
        rw [ManagedNotificationAdapter.sendBulk, hresults] at hbulk
        cases hbulk
    | ok results => exact stepsMeet_of_sendEach hresults
  · intro hmeet
    obtain ⟨results, hresults, hanswers⟩ := sendEach_of_returns hmeet
    constructor
    · rw [ManagedNotificationAdapter.sendBulk, hresults]
    · refine ⟨aggregate results, ?_, hanswers⟩
      rw [ManagedNotificationAdapter.sendBulk, hresults]
      rfl

/-- In every run the first notifications are attempted, each of them once. -/
theorem exists_attempted_append (adapter : ManagedNotificationAdapter)
    (calls : List (Notification × Attempt ε)) :
    ∃ rest, (adapter.sendBulk calls).attempted ++ rest =
      calls.map Prod.fst := by
  change ∃ rest, (sendEach adapter calls).1 ++ rest = calls.map Prod.fst
  induction calls generalizing adapter with
  | nil => exact ⟨[], rfl⟩
  | cons call calls ih =>
      cases hsend : (sendOne adapter call).2 with
      | error error =>
          refine ⟨calls.map Prod.fst, ?_⟩
          rw [sendEach_cons_of_error hsend]
          rfl
      | ok result =>
          obtain ⟨rest, hrest⟩ := ih (sendOne adapter call).1
          refine ⟨rest, ?_⟩
          rw [sendEach_cons_of_ok hsend, List.map_cons, ← hrest]
          rfl

/-- The counts of a bulk add up to the number of its results. -/
theorem total_aggregate (results : List SendResult) :
    (aggregate results).sent + (aggregate results).failed +
      (aggregate results).skipped = results.length := by
  induction results with
  | nil => rfl
  | cons result results ih =>
      simp only [aggregate, List.countP_cons, List.length_cons] at ih ⊢
      by_cases hsent : result.status = "sent"
      · simp [hsent] at ih ⊢
        omega
      · by_cases hfailed : result.status = "failed"
        · simp [hfailed] at ih ⊢
          omega
        · simp [hsent, hfailed] at ih ⊢
          omega

def noTemplates : ManagedNotificationAdapter where
  preferences := none
  rateLimiter := none
  templates := some ⟨.empty⟩

def greeting (templateId : Option String) : Notification where
  id := "1"
  channel := .email
  recipient := ⟨"u"⟩
  body := []
  templateId := templateId
  templateData := none

def delivered : Attempt Unit where
  meanwhile := id
  checkedAt := 0
  recordedAt := 0
  answer notification := .ok ⟨notification.id, "sent", none⟩

/-- A missing template keeps the notification behind it from being sent. -/
theorem not_bulkLaw_of_missing_template :
    ¬ BulkLaw noTemplates
      [(greeting (some "t"), delivered), (greeting none, delivered)] := by
  intro hlaw
  have hattempted := hlaw.attempted
  revert hattempted
  decide

end TsCommons.Notifications
