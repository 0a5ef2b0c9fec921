import TsCommons.EventSourcing.Delivery

/-!
# Appends that fail

An append that is rejected for its version has written nothing.  One that
throws what a handler has thrown has written its batch before it called the
handler, and the batch stays in its stream.
-/

namespace TsCommons.EventSourcing.Atomicity

open Foundations Subscriptions

variable {H Ev : Type*} [DecidableEq H]

/-- The store as each active append has found it, and for each append that has
failed the store before and after it. -/
structure State (H Ev : Type*) where
  delivery : Subscriptions.State H Ev
  begun : List (InMemoryEventStore H Ev)
  failed : List (InMemoryEventStore H Ev × InMemoryEventStore H Ev)

def State.initial : State H Ev := ⟨.initial, [], []⟩

def State.fail (state : State H Ev) (next : Subscriptions.State H Ev) :
    State H Ev :=
  match state.begun with
  | [] => { state with delivery := next }
  | found :: rest =>
      ⟨next, rest, state.failed ++ [(found, next.store)]⟩

def State.append (state : State H Ev) (next : Subscriptions.State H Ev) :
    Except ConcurrencyError (InMemoryEventStore H Ev) → State H Ev
  | .error _ =>
      { state with
        delivery := next
        failed := state.failed ++ [(state.delivery.store, next.store)] }
  | .ok _ =>
      { state with
        delivery := next
        begun := state.delivery.store :: state.begun }

def State.proceed (state : State H Ev) (next : Subscriptions.State H Ev) :
    State H Ev :=
  if next.active.length < state.delivery.active.length then
    { state with delivery := next, begun := state.begun.tail }
  else { state with delivery := next }

def State.record (state : State H Ev) (next : Subscriptions.State H Ev) :
    Label H Ev → State H Ev
  | .append streamId events expectedVersion =>
      state.append next
        (state.delivery.store.write streamId events expectedVersion)
  | .proceed => state.proceed next
  | .throws => state.fail next
  | .subscribe _ => { state with delivery := next }
  | .unsubscribe _ => { state with delivery := next }
  | .returns => { state with delivery := next }

def step (state : State H Ev) (label : Label H Ev) : Option (State H Ev) :=
  (Subscriptions.step state.delivery label).map (state.record · label)

/-- After an append that has thrown or rejected, every stream is as before. -/
def Law (state : State H Ev) : Prop :=
  ∀ attempt ∈ state.failed, ∀ streamId,
    attempt.2.content streamId = attempt.1.content streamId

/-- The appends that have called a handler which has not returned. -/
def called (state : Subscriptions.State H Ev) : List (Delivery H Ev) :=
  if state.looping then state.active.tail else state.active

/-- The batch of an append is in its stream. -/
def Written (store : InMemoryEventStore H Ev) (delivery : Delivery H Ev)
    (found : InMemoryEventStore H Ev) : Prop :=
  (found.content delivery.streamId).length + delivery.events.length ≤
    (store.content delivery.streamId).length

structure Invariant (state : State H Ev) : Prop where
  law : Law state
  written : List.Forall₂ (Written state.delivery.store) state.delivery.active
    state.begun
  calling : ∀ delivery ∈ called state.delivery, delivery.events ≠ []
  numbering : Numbering state.delivery

variable {state next : State H Ev} {delivery kept : Delivery H Ev}
  {rest : List (Delivery H Ev)}

omit [DecidableEq H] in
theorem Written.mono {store later found : InMemoryEventStore H Ev}
    (hwritten : Written store delivery found)
    (hle : ∀ streamId, (store.content streamId).length ≤
      (later.content streamId).length) :
    Written later delivery found :=
  Nat.le_trans hwritten (hle delivery.streamId)

omit [DecidableEq H] in
theorem written_continues {store later : InMemoryEventStore H Ev}
    {before after : List (Delivery H Ev)}
    {begun : List (InMemoryEventStore H Ev)}
    (hwritten : List.Forall₂ (Written store) before begun)
    (hcontent : ∀ streamId, later.content streamId = store.content streamId)
    (hall : List.Forall₂ Continues before after) :
    List.Forall₂ (Written later) after begun := by
  induction hall generalizing begun with
  | nil =>
      cases hwritten
      exact .nil
  | cons hcontinues _ ih =>
      cases hwritten with
      | cons hfirst hrest =>
          refine .cons ?_ (ih hrest)
          rw [Written, hcontinues.streamId, hcontinues.events, hcontent]
          exact hfirst

omit [DecidableEq H] in
theorem called_of_not_looping {state : Subscriptions.State H Ev}
    (hidle : state.looping = false) : called state = state.active := by
  rw [called, hidle]
  rfl

omit [DecidableEq H] in
theorem called_of_looping {state : Subscriptions.State H Ev}
    (hlooping : state.looping = true) :
    called state = state.active.tail := by
  rw [called, hlooping]
  rfl

omit [DecidableEq H] in
/-- The batch of a new append is put at the end of its stream. -/
theorem written_deliver (hinv : Invariant state) {streamId : String}
    {events : List Ev} {expectedVersion : ℤ}
    {store : InMemoryEventStore H Ev}
    (hwrite : state.delivery.store.write streamId events expectedVersion =
      .ok store) :
    List.Forall₂ (Written store)
      (state.delivery.deliver store streamId events).active
      (state.delivery.store :: state.begun) := by
  have hlength : ∀ other, (store.content other).length =
      (state.delivery.store.content other).length +
        if other = streamId then events.length else 0 := by
    intro other
    rw [InMemoryEventStore.content_of_write hwrite]
    by_cases hother : other = streamId
    · rw [if_pos hother, if_pos hother, hother, List.length_append]
    · rw [if_neg hother, if_neg hother, Nat.add_zero]
  refine .cons ?_ (hinv.written.imp fun _ _ hold => hold.mono ?_)
  · change (state.delivery.store.content streamId).length +
      (events.zipIdx _).length ≤ (store.content streamId).length
    rw [hlength, if_pos rfl]
    exact Nat.add_le_add_left (Nat.le_of_eq List.length_zipIdx) _
  · intro other
    rw [hlength]
    exact Nat.le_add_right _ _

omit [DecidableEq H] in
theorem Invariant.proceed (hinv : Invariant state)
    (hlooping : state.delivery.looping = true)
    (hactive : state.delivery.active = delivery :: rest)
    (hnumbering : Numbering (state.delivery.proceed delivery rest)) :
    Invariant (state.proceed (state.delivery.proceed delivery rest)) := by
  have hcalling := hinv.calling
  rw [called_of_looping hlooping, hactive, List.tail_cons] at hcalling
  have hwritten := hinv.written
  rw [hactive] at hwritten
  have hsame : List.Forall₂ Continues rest rest :=
    List.forall₂_same.mpr fun other _ => Continues.refl other
  rcases proceed_cases state.delivery delivery rest with ⟨-, hnext⟩ |
    ⟨event, later, hpending, -, hnext⟩ |
    ⟨event, later, handler, hpending, -, hnext⟩
  · rw [hnext] at hnumbering ⊢
    have hended : (state.delivery.finish delivery rest).active.length <
        state.delivery.active.length := by
      rw [hactive]
      exact Nat.lt_succ_self _
    rw [State.proceed, if_pos hended]
    obtain ⟨found, begun, -, hrest, hbegun⟩ :=
      List.forall₂_cons_left_iff.mp hwritten
    refine ⟨hinv.law, ?_, hcalling, hnumbering⟩
    rw [hbegun]
    exact hrest
  · rw [hnext] at hnumbering ⊢
    have hgoesOn : ¬ (state.delivery.nextEvent delivery rest
        later).active.length < state.delivery.active.length := by
      rw [hactive]
      exact Nat.lt_irrefl _
    rw [State.proceed, if_neg hgoesOn]
    refine ⟨hinv.law, ?_, ?_, hnumbering⟩
    · exact written_continues hwritten (fun _ => rfl)
        (.cons (.nextEvent hpending) hsame)
    · have hcalled : called (state.delivery.nextEvent delivery rest later) =
          rest := called_of_looping hlooping
      change ∀ other ∈ called (state.delivery.nextEvent delivery rest later), _
      rw [hcalled]
      exact hcalling
  · rw [hnext] at hnumbering ⊢
    have hgoesOn : ¬ (state.delivery.call delivery rest event
        handler).active.length < state.delivery.active.length := by
      rw [hactive]
      exact Nat.lt_irrefl _
    rw [State.proceed, if_neg hgoesOn]
    refine ⟨hinv.law, ?_, ?_, hnumbering⟩
    · have hcontinues := calls_continue hactive event handler
      rw [hactive] at hcontinues
      exact written_continues hwritten (fun _ => rfl) hcontinues
    · intro other hother
      rcases List.mem_cons.mp hother with rfl | hmem
      · intro hnil
        have hsuffix := hinv.numbering.suffix delivery
          (by rw [hactive]; exact List.mem_cons_self)
        rw [hpending] at hsuffix
        rw [show delivery.events = [] from hnil, List.suffix_nil] at hsuffix
        cases hsuffix
      · exact hcalling other hmem

theorem Invariant.step {label : Label H Ev} (hinv : Invariant state)
    (hreturns : label ≠ .throws)
    (hstep : Atomicity.step state label = some next) : Invariant next := by
  obtain ⟨after, hafter, rfl⟩ := Option.map_eq_some_iff.mp hstep
  have hnumbering := hinv.numbering.step hafter
  have hsame : List.Forall₂ Continues state.delivery.active
      state.delivery.active :=
    List.forall₂_same.mpr fun other _ => Continues.refl other
  rcases step_cases hafter with ⟨handler, rfl, hidle, rfl⟩ |
    ⟨handler, rfl, hidle, rfl⟩ |
    ⟨streamId, events, expectedVersion, rfl, hidle,
      ⟨error, hwrite, rfl⟩ | ⟨store, hwrite, rfl⟩⟩ |
    ⟨delivery, rest, rfl, hlooping, hactive, rfl⟩ | ⟨rfl, hidle, -, rfl⟩ |
    ⟨delivery, rest, rfl, -, -, -⟩
  · refine ⟨hinv.law, written_continues hinv.written ?_ hsame, ?_,
      hnumbering⟩
    · exact fun _ => InMemoryEventStore.content_subscribe _ _ _
    · exact fun other hother => hinv.calling other hother
  · have hleave : List.Forall₂ Continues state.delivery.active
        (state.delivery.active.map (Delivery.leave handler)) := by
      rw [List.forall₂_map_right_iff]
      exact List.forall₂_same.mpr fun other _ => Continues.leave other handler
    refine ⟨hinv.law, written_continues hinv.written ?_ hleave, ?_,
      hnumbering⟩
    · exact fun _ => InMemoryEventStore.content_unsubscribe _ _ _
    · intro other hother
      change other ∈ if state.delivery.looping then _ else
        state.delivery.active.map (Delivery.leave handler) at hother
      rw [hidle, if_neg Bool.false_ne_true] at hother
      obtain ⟨delivery, hdelivery, rfl⟩ := List.mem_map.mp hother
      apply hinv.calling delivery
      rw [called_of_not_looping hidle]
      exact hdelivery
  · rw [State.record, hwrite]
    refine ⟨?_, hinv.written, hinv.calling, hinv.numbering⟩
    intro attempt hattempt
    rcases List.mem_append.mp hattempt with hold | hnew
    · exact hinv.law attempt hold
    · rw [List.mem_singleton.mp hnew]
      exact fun _ => rfl
  · rw [State.record, hwrite]
    refine ⟨hinv.law, written_deliver hinv hwrite, ?_, hnumbering⟩
    intro other hother
    apply hinv.calling other
    rw [called_of_not_looping hidle]
    exact hother
  · exact hinv.proceed hlooping hactive hnumbering
  · refine ⟨hinv.law, hinv.written, ?_, hnumbering⟩
    intro other hother
    apply hinv.calling other
    rw [called_of_not_looping hidle]
    exact List.mem_of_mem_tail hother
  · exact absurd rfl hreturns

/-- The batch of an append that throws is in its stream. -/
theorem not_law_of_throws (hinv : Invariant state)
    (hstep : Atomicity.step state .throws = some next) : ¬ Law next := by
  obtain ⟨after, hafter, rfl⟩ := Option.map_eq_some_iff.mp hstep
  rcases step_cases hafter with ⟨_, hlabel, -⟩ | ⟨_, hlabel, -⟩ |
    ⟨_, _, _, hlabel, -⟩ | ⟨_, _, hlabel, -⟩ | ⟨hlabel, -⟩ |
    ⟨delivery, rest, -, hidle, hactive, rfl⟩
  · cases hlabel
  · cases hlabel
  · cases hlabel
  · cases hlabel
  · cases hlabel
  · have hwritten := hinv.written
    rw [hactive] at hwritten
    obtain ⟨found, begun, hfirst, -, hbegun⟩ :=
      List.forall₂_cons_left_iff.mp hwritten
    have hevents : delivery.events ≠ [] := by
      apply hinv.calling
      rw [called_of_not_looping hidle, hactive]
      exact List.mem_cons_self
    intro hlaw
    have hsame := hlaw (found, state.delivery.store)
    rw [State.record, State.fail, hbegun] at hsame
    have hcontent := hsame (List.mem_concat_self) delivery.streamId
    have hlength := congrArg List.length hcontent
    have hpos := List.length_pos_iff.mpr hevents
    rw [Written] at hfirst
    simp only at hlength
    omega

omit [DecidableEq H] in
theorem invariant_initial : Invariant (State.initial : State H Ev) :=
  ⟨List.forall_mem_nil _, .nil, List.forall_mem_nil _, numbering_initial⟩

/-- Appends that fail leave the streams as they were in a run if and only if
no handler throws. -/
theorem law_iff_no_throws {labels : List (Label H Ev)} {last : State H Ev}
    (hrun : exec step State.initial labels = some last) :
    Throughout step Law State.initial labels ↔
      StepsMeet step (fun _ label => label ≠ .throws) State.initial labels := by
  apply throughout_iff_stepsMeet (I := Invariant) (fun _ hinv => hinv.law) _ _
    invariant_initial hrun
  · exact fun _ _ _ hinv hreturns hstep => hinv.step hreturns hstep
  · intro state label next hinv hthrows hstep
    rw [not_not.mp hthrows] at hstep
    exact not_law_of_throws hinv hstep

/-- A handler that throws is called with the first event of a batch. -/
def throwingRun : List (Label ℕ ℕ) :=
  [.subscribe 0, .append "s" [7, 8] 0, .proceed, .throws]

/-- A handler appends to another stream, and its first try is rejected. -/
def rejectedRun : List (Label ℕ ℕ) :=
  [.subscribe 0, .append "s" [7] 0, .proceed, .append "t" [8] 1,
    .append "t" [8] 0, .proceed, .returns, .proceed, .proceed, .returns]

theorem law_iff_no_throws_samples :
    (∃ last, exec step State.initial rejectedRun = some last ∧
        last.failed.length = 1 ∧
        Throughout step Law State.initial rejectedRun) ∧
      ∃ last, exec step State.initial throwingRun = some last ∧
        ¬ Throughout step Law State.initial throwingRun := by
  constructor
  · have hrun : (exec step State.initial rejectedRun).any (fun state =>
        decide (state.failed.length = 1)) = true := by
      decide +kernel
    obtain ⟨last, hlast, hfailed⟩ := (Option.any_eq_true _ _).mp hrun
    exact ⟨last, hlast, of_decide_eq_true hfailed,
      (law_iff_no_throws hlast).mpr (by decide +kernel)⟩
  · have hrun : (exec step State.initial throwingRun).isSome = true := by
      decide +kernel
    obtain ⟨last, hlast⟩ := Option.isSome_iff_exists.mp hrun
    refine ⟨last, hlast, fun hlaw => ?_⟩
    have hmeet := (law_iff_no_throws hlast).mp hlaw
    revert hmeet
    decide +kernel

/-- The batch is stored although its append has thrown, so that a second try
with the same version is rejected. -/
theorem not_law_of_throwingRun :
    ∃ last, exec step State.initial throwingRun = some last ∧
      last.delivery.store.content "s" = [7, 8] ∧
      last.delivery.store.write "s" [7, 8] 0 = .error ⟨"s", 0, 2⟩ ∧
      ¬ Law last := by
  have hrun : (exec step State.initial throwingRun).any (fun state =>
      decide (state.delivery.store.content "s" = [7, 8]) &&
        state.failed.any fun attempt =>
          decide (attempt.2.content "s" ≠ attempt.1.content "s")) = true := by
    decide +kernel
  obtain ⟨last, hlast, hend⟩ := (Option.any_eq_true _ _).mp hrun
  rw [Bool.and_eq_true, decide_eq_true_iff, List.any_eq_true] at hend
  obtain ⟨hcontent, attempt, hattempt, hdiffers⟩ := hend
  refine ⟨last, hlast, hcontent, ?_, fun hlaw => ?_⟩
  · rw [InMemoryEventStore.write, hcontent]
    rfl
  · exact of_decide_eq_true hdiffers (hlaw attempt hattempt "s")

end TsCommons.EventSourcing.Atomicity
