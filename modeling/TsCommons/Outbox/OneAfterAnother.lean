import TsCommons.Outbox.NoDoublePublish

/-!
# Cycles that run one after another

If no cycle begins while another one is running, the copies in the snapshot of
the running cycle are the messages in the store, as long as the cycle holds
them.
-/

namespace TsCommons.Outbox

open Foundations

variable {Ev : Type}

/-- No cycle begins while another one is running, and messages are saved under
new ids. -/
def OneAfterAnother (state : State Ev) : Label Ev → Prop
  | .runOnce _ => ∀ cycle, ¬ (state.cycles cycle).Running
  | .save message => state.store.find message.id = none
  | _ => True

variable {options : OutboxRelayOptions} {state next : State Ev}
  {label : Label Ev}

theorem OneAfterAnother.takesNothingHeld (hone : OneAfterAnother state label) :
    TakesNothingHeld options state label := by
  cases label with
  | runOnce cycle =>
      intro other held hheld
      exact absurd (CycleProgress.running_of_mem_held hheld) (hone other)
  | save message => exact hone
  | _ => trivial

/-- At most one cycle is running, and what it holds is what is stored. -/
structure SnapshotInvariant (state : State Ev) : Prop
    extends PublishInvariant state where
  one : ∀ cycle other, (state.cycles cycle).Running →
    (state.cycles other).Running → cycle = other
  snapshot : ∀ cycle, ∀ message ∈ (state.cycles cycle).held,
    state.store.find message.id = some message ∧ message.publishedAt = none

theorem initial_snapshotInvariant (now : ℚ) (store : InMemoryOutboxStore Ev)
    (metrics : Option OutboxRelayMetrics) :
    SnapshotInvariant (State.initial now store metrics) where
  toPublishInvariant := initial_publishInvariant now store metrics
  one := by simp [State.initial, CycleProgress.Running]
  snapshot := by simp [State.initial, CycleProgress.held]

/-- Only the beginning of a cycle sets a cycle running. -/
theorem Step.running (hstep : Step options state label next)
    (hlabel : ∀ cycle, label ≠ .runOnce cycle) {other : ℕ}
    (hrunning : (next.cycles other).Running) :
    (state.cycles other).Running := by
  have hupdate : ∀ cycle progress, (state.cycles cycle).Running →
      (Function.update state.cycles cycle progress other).Running →
        (state.cycles other).Running := by
    intro cycle progress hcycle hupdated
    by_cases heq : other = cycle
    · rw [heq]
      exact hcycle
    · rwa [Function.update_of_ne heq] at hupdated
  cases hstep with
  | tick now hclock => exact hrunning
  | save message => exact hrunning
  | runOnce cycle hcycle => exact absurd rfl (hlabel cycle)
  | deadLetter cycle message rest hadFailures hcycle hattempts =>
      exact hupdate cycle _ (by simp [hcycle, CycleProgress.Running]) hrunning
  | backOff cycle message rest hadFailures hcycle hattempts hbacksOff =>
      exact hupdate cycle _ (by simp [hcycle, CycleProgress.Running]) hrunning
  | handOver cycle message rest hadFailures hcycle hattempts hbacksOff =>
      exact hupdate cycle _ (by simp [hcycle, CycleProgress.Running]) hrunning
  | succeed cycle message rest hadFailures hcycle =>
      exact hupdate cycle _ (by simp [hcycle, CycleProgress.Running]) hrunning
  | fail cycle error message rest hadFailures hcycle =>
      exact hupdate cycle _ (by simp [hcycle, CycleProgress.Running]) hrunning
  | markPublished cycle message rest hadFailures hcycle =>
      exact hupdate cycle _ (by simp [hcycle, CycleProgress.Running]) hrunning
  | markFailed cycle error message rest hadFailures hcycle =>
      exact hupdate cycle _ (by simp [hcycle, CycleProgress.Running]) hrunning
  | record cycle marking rest hadFailures hcycle =>
      exact hupdate cycle _ (by simp [hcycle, CycleProgress.Running]) hrunning
  | finish cycle hadFailures hcycle =>
      exact hupdate cycle _ (by simp [hcycle, CycleProgress.Running]) hrunning

/-- A cycle that does not begin in a run does not run at its end. -/
theorem not_running_of_not_mem {cycle : ℕ} {labels : List (Label Ev)}
    {last : State Ev} (hrun : exec options.step state labels = some last)
    (hnot : ¬ (state.cycles cycle).Running)
    (hmem : .runOnce cycle ∉ labels) :
    ¬ (last.cycles cycle).Running := by
  induction labels generalizing state with
  | nil =>
      cases hrun
      exact hnot
  | cons label rest ih =>
      obtain ⟨next, hstep, hrest⟩ := exec_cons_eq_some.mp hrun
      have hcases := step_of_eq_some hstep
      rw [List.mem_cons, not_or] at hmem
      refine ih hrest ?_ hmem.2
      by_cases hlabel : ∃ started, label = .runOnce started
      · obtain ⟨started, rfl⟩ := hlabel
        cases hcases
        have hne : cycle ≠ started := fun heq => hmem.1 (heq ▸ rfl)
        simpa [State.advance, Function.update_of_ne hne] using hnot
      · exact fun hrunning => hnot
          (hcases.running (not_exists.mp hlabel) hrunning)

/-- A step changes the stored message of one id at most: of one that is saved
anew, or of one that a cycle lets go. -/
theorem Step.find_eq_or (hstep : Step options state label next)
    (id : String) :
    next.store.find id = state.store.find id ∨
    (∃ message, label = .save message ∧ message.id = id) ∨
    ∃ cycle message rest,
      (state.cycles cycle).held = message :: rest ∧
        (next.cycles cycle).held = rest ∧ message.id = id := by
  have hfailed : ∀ other error, id ≠ other →
      (state.store.markAsFailed other error state.clock).find id =
        state.store.find id := by
    intro other error hne
    rw [InMemoryOutboxStore.find_markAsFailed, if_neg hne]
  cases hstep with
  | save message =>
      by_cases heq : id = message.id
      · exact .inr (.inl ⟨message, rfl, heq.symm⟩)
      · left
        rw [InMemoryOutboxStore.find_save, if_neg heq]
  | deadLetter cycle message rest hadFailures hcycle hattempts =>
      by_cases heq : id = message.id
      · exact .inr (.inr ⟨cycle, message, rest,
          by simp [hcycle, CycleProgress.held],
          by simp [State.advance, CycleProgress.held], heq.symm⟩)
      · exact .inl (hfailed _ _ heq)
  | markPublished cycle message rest hadFailures hcycle =>
      by_cases heq : id = message.id
      · exact .inr (.inr ⟨cycle, message, rest,
          by simp [hcycle, CycleProgress.held],
          by simp [State.advance, CycleProgress.held], heq.symm⟩)
      · left
        rw [InMemoryOutboxStore.find_markAsPublished, if_neg heq]
  | markFailed cycle error message rest hadFailures hcycle =>
      by_cases heq : id = message.id
      · exact .inr (.inr ⟨cycle, message, rest,
          by simp [hcycle, CycleProgress.held],
          by simp [State.advance, CycleProgress.held], heq.symm⟩)
      · exact .inl (hfailed _ _ heq)
  | _ => exact .inl rfl

namespace SnapshotInvariant

/-- The stored message of what a cycle goes on holding does not change. -/
theorem find_of_held (hinv : SnapshotInvariant state)
    (hone : OneAfterAnother state label)
    (hstep : Step options state label next)
    (hlabel : ∀ cycle, label ≠ .runOnce cycle) {cycle : ℕ}
    {message : OutboxMessage Ev}
    (hheld : message ∈ (next.cycles cycle).held) :
    next.store.find message.id = state.store.find message.id := by
  have hbefore := (hstep.held hlabel cycle).2.subset hheld
  rcases hstep.find_eq_or message.id with hsame | ⟨saved, rfl, hid⟩ |
    ⟨other, gone, rest, hother, hnext, hid⟩
  · exact hsame
  · rw [OneAfterAnother, hid, (hinv.snapshot cycle message hbefore).1] at hone
    contradiction
  · have hgone : gone ∈ (state.cycles other).held := by simp [hother]
    by_cases heq : cycle = other
    · subst other
      have hnodup := hinv.nodup cycle
      rw [hother, List.map_cons, List.nodup_cons] at hnodup
      rw [hnext] at hheld
      exact absurd (hid ▸ List.mem_map_of_mem hheld) hnodup.1
    · exact absurd hid.symm
        (hinv.disjoint cycle other heq message hbefore gone hgone)

theorem step (hinv : SnapshotInvariant state)
    (hone : OneAfterAnother state label)
    (hstep : options.step state label = some next) :
    SnapshotInvariant next := by
  have hcases := step_of_eq_some hstep
  constructor
  · exact hinv.toPublishInvariant.step hone.takesNothingHeld hstep
  · intro cycle other hcycle hother
    by_cases hlabel : ∃ started, label = .runOnce started
    · obtain ⟨started, rfl⟩ := hlabel
      have hstarted : ∀ running, (next.cycles running).Running →
          running = started := by
        intro running hrunning
        cases hcases
        by_contra hne
        apply hone running
        simpa [State.advance, Function.update_of_ne hne] using hrunning
      rw [hstarted cycle hcycle, hstarted other hother]
    · have hlabel := not_exists.mp hlabel
      exact hinv.one cycle other (hcases.running hlabel hcycle)
        (hcases.running hlabel hother)
  · intro cycle message hheld
    by_cases hlabel : ∃ started, label = .runOnce started
    · obtain ⟨started, rfl⟩ := hlabel
      cases hcases
      by_cases heq : cycle = started
      · subst cycle
        simp only [State.advance, Function.update_self] at hheld
        exact InMemoryOutboxStore.find_of_mem_getUnpublished hheld
      · simp only [State.advance, Function.update_of_ne heq] at hheld
        exact hinv.snapshot cycle message hheld
    · have hlabel := not_exists.mp hlabel
      rw [hinv.find_of_held hone hcases hlabel hheld]
      exact hinv.snapshot cycle message
        ((hcases.held hlabel cycle).2.subset hheld)

end SnapshotInvariant

end TsCommons.Outbox
