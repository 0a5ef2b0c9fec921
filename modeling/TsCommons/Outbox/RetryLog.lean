import TsCommons.Outbox.NoDoublePublish

/-!
# Logs of retried hand-overs

The discipline of a log, newest first, is stated for each of its hand-overs
and what was logged before it; what it means for the log as a whole follows by
counting.
-/

namespace TsCommons.Outbox

namespace Event

def isHandOver (id : String) : Event → Bool
  | .handed id' _ => id' = id
  | _ => false

def isSucceeded : Event → Bool
  | .succeeded _ => true
  | _ => false

def isFailed : Event → Bool
  | .failed _ => true
  | _ => false

end Event

def handOvers (id : String) (log : List Event) : ℕ :=
  log.countP (Event.isHandOver id)

def failures (id : String) (log : List Event) : ℕ :=
  log.count (.failed id)

/-- What a retry discipline demands of a hand-over at `time`, after what is
logged in `older`. -/
structure Disciplined (options : OutboxRelayOptions) (id : String) (time : ℚ)
    (older : List Event) : Prop where
  noSuccess : .succeeded id ∉ older
  below : handOvers id older < options.maxAttempts
  allFailed : handOvers id older = failures id older
  spaced : ∀ time', .handed id time' ∈ older →
    options.backoffBaseMs * 2 ^ (failures id older - 1) ≤ time - time'

def EveryHandOver (options : OutboxRelayOptions) (log : List Event) : Prop :=
  ∀ newer id time older, log = newer ++ .handed id time :: older →
    Disciplined options id time older

/-- No message is handed over more than `maxAttempts` times, or after it has
succeeded; and between two consecutive hand-overs, of which the first was
failed attempt number `failures id older + 1`, lies its back-off. -/
structure RetryDiscipline (options : OutboxRelayOptions)
    (log : List Event) : Prop where
  bounded : ∀ id, handOvers id log ≤ options.maxAttempts
  noHandOverAfterSuccess : NoHandOverAfterSuccess log
  spaced : ∀ newer middle older id time time',
    log = newer ++ .handed id time' :: (middle ++ .handed id time :: older) →
    handOvers id middle = 0 →
      .failed id ∈ middle ∧
        options.backoffBaseMs * 2 ^ failures id older ≤ time' - time

variable {options : OutboxRelayOptions} {log : List Event} {event : Event}
  {id : String}

theorem handOvers_cons_handed (id id' : String) (time : ℚ)
    (log : List Event) :
    handOvers id (.handed id' time :: log) =
      handOvers id log + if id' = id then 1 else 0 := by
  simp [handOvers, List.countP_cons, Event.isHandOver]

theorem handOvers_cons_of_not (hevent : event.isHandOver id = false) :
    handOvers id (event :: log) = handOvers id log := by
  simp [handOvers, hevent]

theorem failures_cons_failed (id id' : String) (log : List Event) :
    failures id (.failed id' :: log) =
      failures id log + if id' = id then 1 else 0 := by
  simp [failures, List.count_cons]

theorem failures_cons_of_ne (hevent : event ≠ .failed id) :
    failures id (event :: log) = failures id log := by
  simp [failures, hevent]

/-- What concerns other messages changes no counts. -/
theorem counts_cons_of_id_ne (log : List Event) (hne : event.id ≠ id) :
    handOvers id (event :: log) = handOvers id log ∧
      failures id (event :: log) = failures id log := by
  constructor
  · apply handOvers_cons_of_not
    cases event <;> simp_all [Event.isHandOver, Event.id]
  · apply failures_cons_of_ne
    intro heq
    rw [heq] at hne
    exact hne rfl

theorem handOvers_pos {time : ℚ} (hmem : .handed id time ∈ log) :
    0 < handOvers id log :=
  List.countP_pos_iff.mpr ⟨_, hmem, by simp [Event.isHandOver]⟩

theorem counts_eq_zero (hnone : ∀ event ∈ log, event.id ≠ id) :
    handOvers id log = 0 ∧ failures id log = 0 := by
  constructor
  · apply List.countP_eq_zero.mpr
    intro event hevent
    have hne := hnone event hevent
    cases event <;> simp_all [Event.isHandOver, Event.id]
  · exact List.count_eq_zero.mpr fun hmem => hnone _ hmem rfl

namespace EveryHandOver

theorem cons (hevery : EveryHandOver options log)
    (hevent : ∀ id time, event = .handed id time →
      Disciplined options id time log) :
    EveryHandOver options (event :: log) := by
  intro newer id time older heq
  cases newer with
  | nil =>
      simp only [List.nil_append, List.cons.injEq] at heq
      obtain ⟨hhead, htail⟩ := heq
      rw [← htail]
      exact hevent id time hhead
  | cons first newer =>
      simp only [List.cons_append, List.cons.injEq] at heq
      exact hevery newer id time older heq.2

theorem tail (hevery : EveryHandOver options (event :: log)) :
    EveryHandOver options log := by
  intro newer id time older heq
  exact hevery (event :: newer) id time older (by rw [heq]; rfl)

theorem bounded (hevery : EveryHandOver options log) (id : String) :
    handOvers id log ≤ options.maxAttempts := by
  induction log with
  | nil => simp [handOvers]
  | cons event log ih =>
      have htail := ih hevery.tail
      cases hhandOver : event.isHandOver id with
      | false =>
          rw [handOvers_cons_of_not hhandOver]
          exact htail
      | true =>
          cases event with
          | handed id' time =>
              rw [Event.isHandOver, decide_eq_true_eq] at hhandOver
              subst id'
              have hbelow := (hevery [] id time log rfl).below
              rw [handOvers_cons_handed, if_pos rfl]
              omega
          | _ => simp [Event.isHandOver] at hhandOver

/-- Between two consecutive hand-overs of a message lies one failure. -/
theorem spaced (hevery : EveryHandOver options log)
    {newer middle older : List Event} {time time' : ℚ}
    (hlog : log =
      newer ++ .handed id time' :: (middle ++ .handed id time :: older))
    (hmiddle : handOvers id middle = 0) :
    .failed id ∈ middle ∧
      options.backoffBaseMs * 2 ^ failures id older ≤ time' - time := by
  have hsecond := hevery newer id time' _ hlog
  have hfirst := hevery (newer ++ .handed id time' :: middle) id time older
    (by rw [hlog]; simp)
  have hhandOvers : handOvers id (middle ++ .handed id time :: older) =
      handOvers id older + 1 := by
    have hcons := handOvers_cons_handed id id time older
    rw [if_pos rfl] at hcons
    rw [handOvers, List.countP_append]
    rw [handOvers] at hmiddle hcons
    rw [hmiddle, hcons, Nat.zero_add]
  have hfailures : failures id (middle ++ .handed id time :: older) =
      failures id middle + failures id older := by
    rw [failures, List.count_append]
    exact congrArg _ (failures_cons_of_ne (by simp))
  have hone : failures id middle = 1 := by
    have hall := hsecond.allFailed
    have hallFirst := hfirst.allFailed
    omega
  constructor
  · apply List.count_pos_iff.mp
    rw [failures] at hone
    omega
  · have hspaced := hsecond.spaced time (by simp)
    rwa [hfailures, hone, Nat.add_sub_cancel_left] at hspaced

end EveryHandOver

end TsCommons.Outbox
