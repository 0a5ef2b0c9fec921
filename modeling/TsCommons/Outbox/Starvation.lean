import TsCommons.Outbox.OneAfterAnother

/-!
# Head-of-line starvation in the relay

A message that has used up its attempts stays unpublished, and so keeps its
place at the front of what `getUnpublished` returns.  A message with attempts
left is reached if and only if fewer than `batchSize` such messages stand
before it.
-/

namespace TsCommons.Outbox

open Foundations

variable {Ev : Type}

namespace OutboxRelayOptions

/-- Unpublished, with no attempts left. -/
def isDead (options : OutboxRelayOptions) (store : InMemoryOutboxStore Ev)
    (id : String) : Bool :=
  (store.find id).any fun message =>
    message.publishedAt = none ∧ options.maxAttempts ≤ message.attempts

/-- Unpublished, with attempts left. -/
def isLive (options : OutboxRelayOptions) (store : InMemoryOutboxStore Ev)
    (id : String) : Bool :=
  (store.find id).any fun message =>
    message.publishedAt = none ∧ message.attempts < options.maxAttempts

/-- How many dead messages stand before the message. -/
def deadBefore (options : OutboxRelayOptions) (store : InMemoryOutboxStore Ev)
    (id : String) : ℕ :=
  (before id store.ids).countP (options.isDead store)

def liveBefore (options : OutboxRelayOptions)
    (ids : List String) (store : InMemoryOutboxStore Ev) (id : String) : ℕ :=
  (before id ids).countP (options.isLive store)

end OutboxRelayOptions

/-- Nothing is saved, every publish call succeeds, cycles run one after
another, and every cycle begins after all pending back-offs. -/
def AllSucceed (options : OutboxRelayOptions) (state : State Ev) :
    Label Ev → Prop
  | .runOnce _ =>
      (∀ cycle, ¬ (state.cycles cycle).Running) ∧
        ∀ id message, state.store.find id = some message →
          message.publishedAt = none →
            message.attempts < options.maxAttempts →
              ¬ options.BacksOff message state.clock
  | .save _ => False
  | .publishSettles _ (.error _) => False
  | _ => True

variable {options : OutboxRelayOptions} {state next : State Ev}
  {label : Label Ev} {store store' : InMemoryOutboxStore Ev}

theorem AllSucceed.oneAfterAnother (hall : AllSucceed options state label) :
    OneAfterAnother state label := by
  cases label with
  | runOnce cycle => exact hall.1
  | save message => exact hall.elim
  | _ => trivial

theorem AllSucceed.not_save (hall : AllSucceed options state label)
    (message : OutboxMessage Ev) : label ≠ .save message := by
  rintro rfl
  exact hall

/-! ## Dead and live messages -/

theorem isDead_eq_true_iff {id : String} :
    options.isDead store id = true ↔
      ∃ message, store.find id = some message ∧ message.publishedAt = none ∧
        options.maxAttempts ≤ message.attempts := by
  cases hfind : store.find id <;>
    simp [OutboxRelayOptions.isDead, hfind]

theorem isLive_eq_true_iff {id : String} :
    options.isLive store id = true ↔
      ∃ message, store.find id = some message ∧ message.publishedAt = none ∧
        message.attempts < options.maxAttempts := by
  cases hfind : store.find id <;>
    simp [OutboxRelayOptions.isLive, hfind]

theorem isUnpublished_eq_true_iff {id : String} :
    store.isUnpublished id = true ↔
      ∃ message, store.find id = some message ∧
        message.publishedAt = none := by
  cases hfind : store.find id <;>
    simp [InMemoryOutboxStore.isUnpublished, hfind]

theorem published_of_isUnpublished_eq_false {id : String}
    (hmem : id ∈ store.ids) (hpublished : store.isUnpublished id = false) :
    ∃ message, store.find id = some message ∧
      message.publishedAt ≠ none := by
  obtain ⟨message, hfind⟩ : ∃ message, store.find id = some message :=
    Option.isSome_iff_exists.mp (InsertionMap.mem_keys_iff.mp hmem)
  refine ⟨message, hfind, ?_⟩
  simpa [InMemoryOutboxStore.isUnpublished, hfind] using hpublished

theorem isUnpublished_of_isDead {id : String}
    (hdead : options.isDead store id = true) :
    store.isUnpublished id = true := by
  obtain ⟨message, hfind, hunpublished, _⟩ := isDead_eq_true_iff.mp hdead
  exact isUnpublished_eq_true_iff.mpr ⟨message, hfind, hunpublished⟩

/-- A dead letter is counted once more and stays dead. -/
theorem kinds_markAsFailed {message : OutboxMessage Ev}
    (hfind : store.find message.id = some message)
    (hattempts : options.maxAttempts ≤ message.attempts) (error : String)
    (now : ℚ) (id : String) :
    options.isDead (store.markAsFailed message.id error now) id =
        options.isDead store id ∧
      options.isLive (store.markAsFailed message.id error now) id =
        options.isLive store id := by
  unfold OutboxRelayOptions.isDead OutboxRelayOptions.isLive
  rw [InMemoryOutboxStore.find_markAsFailed]
  by_cases heq : id = message.id
  · rw [heq, if_pos rfl, hfind]
    have hmore : options.maxAttempts ≤ message.attempts + 1 := by omega
    simp [OutboxMessage.failed, hattempts, hmore, not_lt.mpr hattempts,
      not_lt.mpr hmore]
  · rw [if_neg heq]
    exact ⟨rfl, rfl⟩

/-- A published message is neither dead nor live. -/
theorem kinds_markAsPublished {message : OutboxMessage Ev}
    (hfind : store.find message.id = some message)
    (hattempts : message.attempts < options.maxAttempts) (now : ℚ)
    (id : String) :
    options.isDead (store.markAsPublished message.id now) id =
        options.isDead store id ∧
      options.isLive (store.markAsPublished message.id now) id =
        (options.isLive store id && decide (id ≠ message.id)) := by
  unfold OutboxRelayOptions.isDead OutboxRelayOptions.isLive
  rw [InMemoryOutboxStore.find_markAsPublished]
  by_cases heq : id = message.id
  · rw [heq, if_pos rfl, hfind]
    simp [OutboxMessage.published, hattempts]
  · rw [if_neg heq]
    simp [heq]

/-! ## What the runs keep -/

/-- A cycle works on messages with attempts left, and its calls succeed. -/
def WorksOnLive (options : OutboxRelayOptions) : CycleProgress Ev → Prop
  | .publishing message _ _ => message.attempts < options.maxAttempts
  | .answered message (.ok ()) _ _ => message.attempts < options.maxAttempts
  | .answered _ (.error _) _ _ => False
  | _ => True

structure SucceedInvariant (options : OutboxRelayOptions)
    (store : InMemoryOutboxStore Ev) (state : State Ev) : Prop
    extends SnapshotInvariant state where
  ids : state.store.ids = store.ids
  dead : ∀ id, options.isDead state.store id = options.isDead store id
  works : ∀ cycle, WorksOnLive options (state.cycles cycle)
  eligible : ∀ cycle, ∀ message ∈ (state.cycles cycle).held,
    message.attempts < options.maxAttempts →
      ¬ options.BacksOff message state.clock

theorem initial_succeedInvariant (options : OutboxRelayOptions) (now : ℚ)
    (store : InMemoryOutboxStore Ev) (metrics : Option OutboxRelayMetrics) :
    SucceedInvariant options store (State.initial now store metrics) where
  toSnapshotInvariant := initial_snapshotInvariant now store metrics
  ids := rfl
  dead := fun _ => rfl
  works := fun _ => trivial
  eligible := by simp [State.initial, CycleProgress.held]

theorem not_backsOff_of_le {message : OutboxMessage Ev} {now later : ℚ}
    (hnot : ¬ options.BacksOff message now) (hle : now ≤ later) :
    ¬ options.BacksOff message later := by
  rintro ⟨hattempts, last, hlast, hlater⟩
  exact hnot ⟨hattempts, last, hlast, lt_of_le_of_lt hle hlater⟩

namespace SucceedInvariant

/-- What a cycle that has marked its message has done to the store. -/
theorem store_step (hinv : SucceedInvariant options store state)
    (hall : AllSucceed options state label)
    (hstep : Step options state label next) :
    next.store.ids = store.ids ∧
      ∀ id, options.isDead next.store id = options.isDead store id := by
  cases hstep with
  | save message => exact hall.elim
  | deadLetter cycle message rest hadFailures hcycle hattempts =>
      have hfind := (hinv.snapshot cycle message
        (by simp [hcycle, CycleProgress.held])).1
      exact ⟨(InMemoryOutboxStore.ids_markAsFailed ..).trans hinv.ids,
        fun id => (kinds_markAsFailed hfind hattempts _ _ id).1.trans
          (hinv.dead id)⟩
  | markPublished cycle message rest hadFailures hcycle =>
      have hfind := (hinv.snapshot cycle message
        (by simp [hcycle, CycleProgress.held])).1
      have hworks := hinv.works cycle
      rw [hcycle] at hworks
      exact ⟨(InMemoryOutboxStore.ids_markAsPublished ..).trans hinv.ids,
        fun id => (kinds_markAsPublished hfind hworks _ id).1.trans
          (hinv.dead id)⟩
  | markFailed cycle error message rest hadFailures hcycle =>
      have hworks := hinv.works cycle
      rw [hcycle] at hworks
      exact hworks.elim
  | _ => exact ⟨hinv.ids, hinv.dead⟩

theorem works_step (hinv : SucceedInvariant options store state)
    (hall : AllSucceed options state label)
    (hstep : Step options state label next) (other : ℕ) :
    WorksOnLive options (next.cycles other) := by
  have hupdate : ∀ cycle progress, WorksOnLive options progress →
      WorksOnLive options
        (Function.update state.cycles cycle progress other) := by
    intro cycle progress hprogress
    by_cases heq : other = cycle
    · subst other
      rwa [Function.update_self]
    · rw [Function.update_of_ne heq]
      exact hinv.works other
  cases hstep with
  | tick now hclock => exact hinv.works other
  | save message => exact hall.elim
  | runOnce cycle hcycle => exact hupdate cycle _ trivial
  | deadLetter cycle message rest hadFailures hcycle hattempts =>
      exact hupdate cycle _ trivial
  | backOff cycle message rest hadFailures hcycle hattempts hbacksOff =>
      exact hupdate cycle _ trivial
  | handOver cycle message rest hadFailures hcycle hattempts hbacksOff =>
      exact hupdate cycle _ hattempts
  | succeed cycle message rest hadFailures hcycle =>
      have hworks := hinv.works cycle
      rw [hcycle] at hworks
      exact hupdate cycle _ hworks
  | fail cycle error message rest hadFailures hcycle => exact hall.elim
  | markPublished cycle message rest hadFailures hcycle =>
      exact hupdate cycle _ trivial
  | markFailed cycle error message rest hadFailures hcycle =>
      exact hupdate cycle _ trivial
  | record cycle marking rest hadFailures hcycle =>
      exact hupdate cycle _ trivial
  | finish cycle hadFailures hcycle => exact hupdate cycle _ trivial

theorem step (hinv : SucceedInvariant options store state)
    (hall : AllSucceed options state label)
    (hstep : options.step state label = some next) :
    SucceedInvariant options store next := by
  have hcases := step_of_eq_some hstep
  obtain ⟨hids, hdead⟩ := hinv.store_step hall hcases
  refine ⟨hinv.toSnapshotInvariant.step hall.oneAfterAnother hstep, hids,
    hdead, hinv.works_step hall hcases, ?_⟩
  intro cycle message hheld hattempts
  by_cases hlabel : ∃ started, label = .runOnce started
  · obtain ⟨started, rfl⟩ := hlabel
    cases hcases
    by_cases heq : cycle = started
    · subst cycle
      simp only [State.advance, Function.update_self] at hheld
      obtain ⟨hfind, hunpublished⟩ :=
        InMemoryOutboxStore.find_of_mem_getUnpublished hheld
      exact hall.2 message.id message hfind hunpublished hattempts
    · simp only [State.advance, Function.update_of_ne heq] at hheld
      exact hinv.eligible cycle message hheld hattempts
  · have hclock : state.clock ≤ next.clock := by
      cases hcases with
      | tick now hclock => exact hclock
      | _ => exact le_rfl
    have hbefore := (hcases.held (not_exists.mp hlabel) cycle).2.subset hheld
    exact not_backsOff_of_le (hinv.eligible cycle message hbefore hattempts)
      hclock

end SucceedInvariant

/-! ## Messages that are reached, and messages that are not -/

/-- In this cycle the message is published, or a live one before it, or one
already has been. -/
def Reaches (options : OutboxRelayOptions) (ids : List String) (id : String)
    (bound : ℕ) (state : State Ev) (progress : CycleProgress Ev) : Prop :=
  (∃ message ∈ progress.held, message.id = id) ∨
  (∃ message ∈ progress.held, message.id ∈ before id ids ∧
    message.attempts < options.maxAttempts) ∨
  options.liveBefore ids state.store id + state.finishedCycles + 1 ≤ bound

/-- Every cycle publishes the message or a live one before it. -/
def Progressing (options : OutboxRelayOptions) (ids : List String)
    (id : String) (bound : ℕ) (state : State Ev) : Prop :=
  state.store.isUnpublished id = false ∨
  options.liveBefore ids state.store id + state.finishedCycles ≤ bound ∧
    ∀ cycle, (state.cycles cycle).Running →
      Reaches options ids id bound state (state.cycles cycle)

/-- The message is unpublished, and in no cycle's hands. -/
def Starved (id : String) (state : State Ev) : Prop :=
  state.store.isUnpublished id = true ∧
    ∀ cycle, ∀ message ∈ (state.cycles cycle).held, message.id ≠ id

variable {id : String} {bound : ℕ}

/-- A step that changes neither the store nor what is held. -/
theorem Progressing.of_same
    (hprogressing : Progressing options store.ids id bound state)
    (hstore : next.store = state.store)
    (hfinished : next.finishedCycles = state.finishedCycles)
    (hcycles : ∀ cycle, (next.cycles cycle).Running →
      (state.cycles cycle).Running ∧
        (next.cycles cycle).held = (state.cycles cycle).held) :
    Progressing options store.ids id bound next := by
  rcases hprogressing with hpublished | ⟨hbound, hreaches⟩
  · exact .inl (by rw [hstore, hpublished])
  · refine .inr ⟨by rw [hstore, hfinished]; exact hbound, ?_⟩
    intro cycle hrunning
    obtain ⟨hbefore, hheld⟩ := hcycles cycle hrunning
    have hold := hreaches cycle hbefore
    rw [Reaches] at hold ⊢
    rw [hheld, hstore, hfinished]
    exact hold

theorem held_of_update {cycle : ℕ} {progress : CycleProgress Ev}
    (hrunning : (state.cycles cycle).Running)
    (hheld : progress.held = (state.cycles cycle).held) (other : ℕ)
    (hother : (Function.update state.cycles cycle progress other).Running) :
    (state.cycles other).Running ∧
      (Function.update state.cycles cycle progress other).held =
        (state.cycles other).held := by
  by_cases heq : other = cycle
  · subst other
    exact ⟨hrunning, by rw [Function.update_self, hheld]⟩
  · rw [Function.update_of_ne heq] at hother ⊢
    exact ⟨hother, rfl⟩

namespace SucceedInvariant

/-- After a step of the running cycle no other cycle is running. -/
theorem eq_of_update (hinv : SucceedInvariant options store state)
    {cycle other : ℕ} {progress : CycleProgress Ev}
    (hrunning : (state.cycles cycle).Running)
    (hother : (Function.update state.cycles cycle progress other).Running) :
    other = cycle := by
  by_contra hne
  rw [Function.update_of_ne hne] at hother
  exact hne (hinv.one other cycle hother hrunning)

theorem progressing_deadLetter (hinv : SucceedInvariant options store state)
    (hid : options.isDead store id = false)
    (hprogressing : Progressing options store.ids id bound state)
    {cycle : ℕ} {message : OutboxMessage Ev}
    {rest : List (OutboxMessage Ev)} {hadFailures : Bool} {error : String}
    (hcycle : state.cycles cycle = .looping (message :: rest) hadFailures)
    (hattempts : options.maxAttempts ≤ message.attempts) :
    Progressing options store.ids id bound
      { state.advance cycle (.marked .skipped rest hadFailures) with
        store := state.store.markAsFailed message.id error state.clock } := by
  have hrunning : (state.cycles cycle).Running := by
    simp [hcycle, CycleProgress.Running]
  obtain ⟨hfind, hunpublished⟩ := hinv.snapshot cycle message
    (by simp [hcycle, CycleProgress.held])
  have hne : message.id ≠ id := by
    intro heq
    have hdead := isDead_eq_true_iff.mpr
      ⟨message, hfind, hunpublished, hattempts⟩
    rw [heq, hinv.dead id, hid] at hdead
    contradiction
  have hlive : options.isLive (state.store.markAsFailed message.id error
      state.clock) = options.isLive state.store :=
    funext fun other => (kinds_markAsFailed hfind hattempts _ _ other).2
  rcases hprogressing with hpublished | ⟨hbound, hreaches⟩
  · left
    have hfindNext := InMemoryOutboxStore.find_markAsFailed state.store
      message.id error id state.clock
    rw [if_neg (Ne.symm hne)] at hfindNext
    rw [InMemoryOutboxStore.isUnpublished] at hpublished ⊢
    rw [hfindNext]
    exact hpublished
  · refine .inr ⟨?_, fun other hother => ?_⟩
    · rw [OutboxRelayOptions.liveBefore, hlive]
      exact hbound
    · have hsame := hinv.eq_of_update hrunning hother
      subst other
      have hold := hreaches cycle hrunning
      rw [hcycle] at hold
      rw [Reaches, OutboxRelayOptions.liveBefore, hlive]
      simp only [State.advance, Function.update_self]
      rcases hold with ⟨held, hheld, heq⟩ | ⟨held, hheld, hbefore, hless⟩ |
        hdone
      · refine .inl ⟨held, ?_, heq⟩
        rcases List.mem_cons.mp hheld with rfl | hrest
        · exact absurd heq hne
        · exact hrest
      · refine .inr (.inl ⟨held, ?_, hbefore, hless⟩)
        rcases List.mem_cons.mp hheld with rfl | hrest
        · exact absurd hattempts (not_le.mpr hless)
        · exact hrest
      · exact .inr (.inr hdone)

theorem progressing_markPublished
    (hinv : SucceedInvariant options store state)
    (hprogressing : Progressing options store.ids id bound state)
    {cycle : ℕ} {message : OutboxMessage Ev}
    {rest : List (OutboxMessage Ev)} {hadFailures : Bool}
    (hcycle : state.cycles cycle =
      .answered message (.ok ()) rest hadFailures) :
    Progressing options store.ids id bound
      { state.advance cycle (.marked .published rest hadFailures) with
        store := state.store.markAsPublished message.id state.clock } := by
  have hrunning : (state.cycles cycle).Running := by
    simp [hcycle, CycleProgress.Running]
  obtain ⟨hfind, hunpublished⟩ := hinv.snapshot cycle message
    (by simp [hcycle, CycleProgress.held])
  have hattempts := hinv.works cycle
  rw [hcycle] at hattempts
  have hkinds := fun other =>
    (kinds_markAsPublished hfind hattempts state.clock other).2
  have hfindNext := InMemoryOutboxStore.find_markAsPublished state.store
    message.id id state.clock
  by_cases hne : id = message.id
  · left
    rw [if_pos hne, hfind] at hfindNext
    rw [InMemoryOutboxStore.isUnpublished, hfindNext]
    simp [OutboxMessage.published]
  · rw [if_neg hne] at hfindNext
    rcases hprogressing with hpublished | ⟨hbound, hreaches⟩
    · left
      rw [InMemoryOutboxStore.isUnpublished] at hpublished ⊢
      rw [hfindNext]
      exact hpublished
    · have hmono : options.liveBefore store.ids (state.store.markAsPublished
          message.id state.clock) id ≤
            options.liveBefore store.ids state.store id := by
        apply List.countP_mono_left
        intro other _ hother
        rw [hkinds other, Bool.and_eq_true] at hother
        exact hother.1
      refine .inr ⟨(Nat.add_le_add_right hmono _).trans hbound,
        fun other hother => ?_⟩
      have hsame := hinv.eq_of_update hrunning hother
      subst other
      have hold := hreaches cycle hrunning
      rw [hcycle] at hold
      simp only [Reaches, State.advance, Function.update_self]
      rcases hold with ⟨held, hheld, heq⟩ | ⟨held, hheld, hbefore, hless⟩ |
        hdone
      · refine .inl ⟨held, ?_, heq⟩
        rcases List.mem_cons.mp hheld with rfl | hrest
        · exact absurd heq.symm hne
        · exact hrest
      · rcases List.mem_cons.mp hheld with rfl | hrest
        · refine .inr (.inr ?_)
          have hlive := isLive_eq_true_iff.mpr
            ⟨held, hfind, hunpublished, hattempts⟩
          have hdropped : options.isLive (state.store.markAsPublished
              held.id state.clock) held.id = false := by
            rw [hkinds held.id]
            simp
          have hlt : (before id store.ids).countP (options.isLive
              (state.store.markAsPublished held.id state.clock)) <
                (before id store.ids).countP (options.isLive state.store) :=
            countP_lt_of_dropped (fun other _ hother => by
              rw [hkinds other, Bool.and_eq_true] at hother
              exact hother.1) hbefore hlive hdropped
          rw [OutboxRelayOptions.liveBefore] at hbound ⊢
          omega
        · exact .inr (.inl ⟨held, hrest, hbefore, hless⟩)
      · refine .inr (.inr ?_)
        omega

/-- A cycle that begins takes up the message, or a live one before it. -/
theorem progressing_runOnce (hinv : SucceedInvariant options store state)
    (hmem : id ∈ store.ids)
    (hdead : options.deadBefore store id < options.batchSize)
    (hprogressing : Progressing options store.ids id bound state)
    {cycle : ℕ} (hidle : ∀ cycle, ¬ (state.cycles cycle).Running) :
    Progressing options store.ids id bound
      (state.advance cycle
        (.looping (state.store.getUnpublished options.batchSize) false)) := by
  rcases hprogressing with hpublished | ⟨hbound, _⟩
  · exact .inl hpublished
  · cases hunpublished : state.store.isUnpublished id with
    | false => exact .inl hunpublished
    | true =>
        refine .inr ⟨hbound, fun other hother => ?_⟩
        have hsame : other = cycle := by
          by_contra hne
          simp only [State.advance, Function.update_of_ne hne] at hother
          exact hidle other hother
        subst other
        simp only [Reaches, State.advance, Function.update_self]
        have hblocked : (before id store.ids).countP
            (options.isDead state.store) < max options.batchSize 1 := by
          have hsame : options.isDead state.store = options.isDead store :=
            funext hinv.dead
          rw [hsame]
          exact lt_of_lt_of_le hdead (le_max_left _ _)
        have hsnapshot := state.store.map_id_getUnpublished options.batchSize
        rw [hinv.ids] at hsnapshot
        rcases mem_window_or_exists_before hmem hunpublished hblocked with
          hwindow | ⟨other, hbefore, hwindow, hnotDead⟩
        · rw [← hsnapshot] at hwindow
          obtain ⟨message, hmessage, heq⟩ := List.mem_map.mp hwindow
          exact .inl ⟨message, hmessage, heq⟩
        · rw [← hsnapshot] at hwindow
          obtain ⟨message, hmessage, rfl⟩ := List.mem_map.mp hwindow
          refine .inr (.inl ⟨message, hmessage, hbefore, ?_⟩)
          obtain ⟨hfind, hnone⟩ :=
            InMemoryOutboxStore.find_of_mem_getUnpublished hmessage
          by_contra hattempts
          have hisDead := isDead_eq_true_iff.mpr
            ⟨message, hfind, hnone, not_lt.mp hattempts⟩
          rw [hisDead] at hnotDead
          contradiction

theorem progressing_step (hinv : SucceedInvariant options store state)
    (hmem : id ∈ store.ids) (hid : options.isDead store id = false)
    (hdead : options.deadBefore store id < options.batchSize)
    (hall : AllSucceed options state label)
    (hprogressing : Progressing options store.ids id bound state)
    (hstep : Step options state label next) :
    Progressing options store.ids id bound next := by
  have hrunning : ∀ {cycle progress}, state.cycles cycle = progress →
      progress.Running → (state.cycles cycle).Running :=
    fun hcycle hprogress => hcycle ▸ hprogress
  cases hstep with
  | tick now hclock =>
      exact hprogressing.of_same rfl rfl fun cycle hcycle => ⟨hcycle, rfl⟩
  | save message => exact hall.elim
  | runOnce cycle hcycle =>
      exact hinv.progressing_runOnce hmem hdead hprogressing hall.1
  | deadLetter cycle message rest hadFailures hcycle hattempts =>
      exact hinv.progressing_deadLetter hid hprogressing hcycle hattempts
  | backOff cycle message rest hadFailures hcycle hattempts hbacksOff =>
      exact absurd hbacksOff (hinv.eligible cycle message
        (by simp [hcycle, CycleProgress.held]) hattempts)
  | handOver cycle message rest hadFailures hcycle hattempts hbacksOff =>
      exact hprogressing.of_same rfl rfl
        (held_of_update (hrunning hcycle trivial)
          (by simp [hcycle, CycleProgress.held]))
  | succeed cycle message rest hadFailures hcycle =>
      exact hprogressing.of_same rfl rfl
        (held_of_update (hrunning hcycle trivial)
          (by simp [hcycle, CycleProgress.held]))
  | fail cycle error message rest hadFailures hcycle => exact hall.elim
  | markPublished cycle message rest hadFailures hcycle =>
      exact hinv.progressing_markPublished hprogressing hcycle
  | markFailed cycle error message rest hadFailures hcycle =>
      have hworks := hinv.works cycle
      rw [hcycle] at hworks
      exact hworks.elim
  | record cycle marking rest hadFailures hcycle =>
      exact hprogressing.of_same rfl rfl
        (held_of_update (hrunning hcycle trivial)
          (by simp [hcycle, CycleProgress.held]))
  | finish cycle hadFailures hcycle =>
      rcases hprogressing with hpublished | ⟨_, hreaches⟩
      · exact .inl hpublished
      · have hfinished := hreaches cycle (hrunning hcycle trivial)
        rw [hcycle] at hfinished
        rcases hfinished with ⟨_, hheld, _⟩ | ⟨_, hheld, _⟩ | hbound
        · simp [CycleProgress.held] at hheld
        · simp [CycleProgress.held] at hheld
        · refine .inr ⟨hbound, fun other hother => ?_⟩
          have hsame := hinv.eq_of_update (hrunning hcycle trivial) hother
          subst other
          simp [State.advance, CycleProgress.Running] at hother

theorem starved_step (hinv : SucceedInvariant options store state)
    (hmem : id ∈ store.ids) (hbatch : 1 ≤ options.batchSize)
    (hdead : options.batchSize ≤ options.deadBefore store id)
    (hall : AllSucceed options state label) (hstarved : Starved id state)
    (hstep : Step options state label next) : Starved id next := by
  have hfind : next.store.find id = state.store.find id := by
    rcases hstep.find_eq_or id with hsame | ⟨message, hsave, _⟩ |
      ⟨cycle, message, rest, hheld, _, hid⟩
    · exact hsame
    · exact absurd hsave (hall.not_save message)
    · exact absurd hid (hstarved.2 cycle message (by simp [hheld]))
  refine ⟨?_, fun cycle message hheld => ?_⟩
  · rw [InMemoryOutboxStore.isUnpublished, hfind]
    exact hstarved.1
  · by_cases hlabel : ∃ started, label = .runOnce started
    · obtain ⟨started, rfl⟩ := hlabel
      cases hstep
      by_cases heq : cycle = started
      · subst cycle
        simp only [State.advance, Function.update_self, CycleProgress.held]
          at hheld
        have hwindow := List.mem_map_of_mem (f := OutboxMessage.id) hheld
        rw [InMemoryOutboxStore.map_id_getUnpublished, hinv.ids,
          Nat.max_eq_left hbatch] at hwindow
        have hle : options.batchSize ≤
            (before id store.ids).countP state.store.isUnpublished := by
          refine hdead.trans (List.countP_mono_left fun other _ hother => ?_)
          exact isUnpublished_of_isDead ((hinv.dead other).trans hother)
        intro hid
        rw [hid] at hwindow
        exact not_mem_window_of_le hmem hstarved.1 hle hwindow
      · simp only [State.advance, Function.update_of_ne heq] at hheld
        exact hstarved.2 cycle message hheld
    · exact hstarved.2 cycle message
        ((hstep.held (not_exists.mp hlabel) cycle).2.subset hheld)

end SucceedInvariant

/-! ## Runs -/

/-- Every message that had attempts left is published. -/
def AllLivePublished (options : OutboxRelayOptions)
    (store later : InMemoryOutboxStore Ev) : Prop :=
  ∀ id message, store.find id = some message →
    message.attempts < options.maxAttempts →
      ∃ published, later.find id = some published ∧
        published.publishedAt ≠ none

section Runs

variable {now : ℚ} {metrics : Option OutboxRelayMetrics}
  {labels : List (Label Ev)}

theorem succeedInvariant_of_allSucceed
    (hrun : exec options.step (State.initial now store metrics) labels =
      some state)
    (hmeet : StepsMeet options.step (AllSucceed options)
      (State.initial now store metrics) labels) :
    SucceedInvariant options store state :=
  exec_invariant_of_stepsMeet
    (fun _ _ _ hinv hall hstep => SucceedInvariant.step hinv hall hstep)
    (initial_succeedInvariant options now store metrics) hmeet hrun

theorem progressing_of_allSucceed
    (hrun : exec options.step (State.initial now store metrics) labels =
      some state)
    (hmeet : StepsMeet options.step (AllSucceed options)
      (State.initial now store metrics) labels)
    (hmem : id ∈ store.ids) (hid : options.isDead store id = false)
    (hdead : options.deadBefore store id < options.batchSize) :
    Progressing options store.ids id (options.liveBefore store.ids store id)
      state := by
  have hinv : SucceedInvariant options store state ∧
      Progressing options store.ids id
        (options.liveBefore store.ids store id) state := by
    refine exec_invariant_of_stepsMeet
      (I := fun state => SucceedInvariant options store state ∧
        Progressing options store.ids id
          (options.liveBefore store.ids store id) state)
      (fun _ _ _ hinv hall hstep => ⟨hinv.1.step hall hstep,
        hinv.1.progressing_step hmem hid hdead hall hinv.2
          (step_of_eq_some hstep)⟩)
      ⟨initial_succeedInvariant options now store metrics, .inr ⟨le_rfl, ?_⟩⟩
      hmeet hrun
    intro cycle hrunning
    simp [State.initial, CycleProgress.Running] at hrunning
  exact hinv.2

theorem starved_of_allSucceed
    (hrun : exec options.step (State.initial now store metrics) labels =
      some state)
    (hmeet : StepsMeet options.step (AllSucceed options)
      (State.initial now store metrics) labels)
    (hunpublished : store.isUnpublished id = true)
    (hmem : id ∈ store.ids) (hbatch : 1 ≤ options.batchSize)
    (hdead : options.batchSize ≤ options.deadBefore store id) :
    Starved id state := by
  have hinv : SucceedInvariant options store state ∧ Starved id state :=
    exec_invariant_of_stepsMeet
      (I := fun state => SucceedInvariant options store state ∧
        Starved id state)
      (fun _ _ _ hinv hall hstep => ⟨hinv.1.step hall hstep,
        hinv.1.starved_step hmem hbatch hdead hall hinv.2
          (step_of_eq_some hstep)⟩)
      ⟨initial_succeedInvariant options now store metrics, hunpublished,
        by simp [State.initial, CycleProgress.held]⟩
      hmeet hrun
  exact hinv.2

/-- What is published stays published. -/
theorem published_of_allSucceed
    (hrun : exec options.step (State.initial now store metrics) labels =
      some state)
    (hmeet : StepsMeet options.step (AllSucceed options)
      (State.initial now store metrics) labels)
    {message : OutboxMessage Ev} (hfind : store.find id = some message)
    (hpublished : message.publishedAt ≠ none) :
    ∃ published, state.store.find id = some published ∧
      published.publishedAt ≠ none := by
  refine exec_invariant_of_stepsMeet
    (I := fun state : State Ev => ∃ published,
      state.store.find id = some published ∧ published.publishedAt ≠ none)
    ?_ ⟨message, hfind, hpublished⟩ hmeet hrun
  rintro state label next ⟨stored, hstored, hsome⟩ hall hstep
  obtain ⟨stored', hstored', hkeeps⟩ := (step_of_eq_some hstep).find
    (fun message hsave => absurd hsave (hall.not_save message)) hstored
  exact ⟨stored', hstored', hkeeps hsome⟩

end Runs

/-- If every publish call succeeds from now on, then after as many cycles as
there are messages every message with attempts left is published, if and only
if none of the unpublished ones stands behind `batchSize` dead messages. -/
theorem allLivePublished_iff_deadBefore_lt (options : OutboxRelayOptions)
    (hbatch : 1 ≤ options.batchSize) (now : ℚ)
    (store : InMemoryOutboxStore Ev) (metrics : Option OutboxRelayMetrics)
    (labels : List (Label Ev)) (state : State Ev)
    (hrun : exec options.step (State.initial now store metrics) labels =
      some state)
    (hmeet : StepsMeet options.step (AllSucceed options)
      (State.initial now store metrics) labels)
    (hcycles : store.size ≤ state.finishedCycles) :
    AllLivePublished options store state.store ↔
      ∀ id, options.isLive store id = true →
        options.deadBefore store id < options.batchSize := by
  constructor
  · intro hall id hlive
    by_contra hdead
    obtain ⟨message, hfind, hnone, hattempts⟩ := isLive_eq_true_iff.mp hlive
    have hstarved := starved_of_allSucceed hrun hmeet
      (isUnpublished_eq_true_iff.mpr ⟨message, hfind, hnone⟩)
      (InMemoryOutboxStore.mem_ids_of_find hfind) hbatch (not_lt.mp hdead)
    obtain ⟨published, hpublished, hsome⟩ := hall id message hfind hattempts
    obtain ⟨stored, hstored, hunpublished⟩ :=
      isUnpublished_eq_true_iff.mp hstarved.1
    rw [hpublished, Option.some.injEq] at hstored
    exact hsome (hstored ▸ hunpublished)
  · intro hdead id message hfind hattempts
    by_cases hnone : message.publishedAt = none
    · have hlive := isLive_eq_true_iff.mpr
        ⟨message, hfind, hnone, hattempts⟩
      have hnotDead : options.isDead store id = false := by
        simp [OutboxRelayOptions.isDead, hfind, hnone, hattempts]
      have hmem := InMemoryOutboxStore.mem_ids_of_find hfind
      rcases progressing_of_allSucceed hrun hmeet hmem hnotDead
        (hdead id hlive) with hpublished | ⟨hbound, _⟩
      · have hids := (succeedInvariant_of_allSucceed hrun hmeet).ids
        exact published_of_isUnpublished_eq_false (hids ▸ hmem) hpublished
      · have hlive := List.countP_le_length (p := options.isLive store)
          (l := before id store.ids)
        have hlength := length_before_lt hmem
        rw [store.length_ids] at hlength
        rw [OutboxRelayOptions.liveBefore, OutboxRelayOptions.liveBefore]
          at hbound
        omega
    · exact published_of_allSucceed hrun hmeet hfind hnone

/-! ## A dead letter in front -/

/-- A cycle may begin after a run whose cycles have all ended. -/
theorem allSucceed_runOnce {now : ℚ} {metrics : Option OutboxRelayMetrics}
    (labels : List (Label Ev)) (started cycle : ℕ)
    (hrun : exec options.step (State.initial now store metrics) labels =
      some state)
    (hlabels : ∀ other, .runOnce other ∈ labels → other < started)
    (hended : ∀ other < started, ¬ (state.cycles other).Running)
    (hpassed : ∀ message ∈ state.store.getAll, message.publishedAt = none →
      message.attempts < options.maxAttempts →
        ¬ options.BacksOff message state.clock) :
    AllSucceed options state (.runOnce cycle) := by
  refine ⟨fun other => ?_, fun id message hfind => ?_⟩
  · by_cases hstarted : other < started
    · exact hended other hstarted
    · refine not_running_of_not_mem hrun ?_ fun hmem =>
        hstarted (hlabels other hmem)
      simp [State.initial, CycleProgress.Running]
  · exact hpassed message (InsertionMap.mem_values_iff.mpr ⟨id, hfind⟩)

/-- A message without attempts left, and a fresh one behind it. -/
def deadLetterInFront : InMemoryOutboxStore String :=
  (InMemoryOutboxStore.empty.save
    { orderPlaced with id := "msg-0", attempts := 3 }).save orderPlaced

def batches (batchSize : ℕ) : OutboxRelayOptions :=
  { batchSize := batchSize, maxAttempts := 3 }

/-- The dead letter and the end of the cycle. -/
def onlyDeadLetter (cycle : ℕ) : List (Label String) :=
  [.resume cycle, .resume cycle, .resume cycle]

/-- The dead letter, the fresh message and the end of the cycle. -/
def bothMessages (cycle : ℕ) : List (Label String) :=
  [.resume cycle, .resume cycle, .resume cycle,
    .publishSettles cycle (.ok ()), .resume cycle, .resume cycle,
    .resume cycle]

/-- The labels of a cycle apart from its beginning. -/
theorem allSucceed_of_mem {cycle : ℕ} {label : Label String}
    (hmem : label ∈ onlyDeadLetter cycle ++ bothMessages cycle)
    (state : State String) : AllSucceed options state label := by
  simp only [onlyDeadLetter, bothMessages, List.cons_append, List.nil_append,
    List.mem_cons, List.not_mem_nil, or_false] at hmem
  rcases hmem with rfl | rfl | rfl | rfl | rfl | rfl | rfl | rfl | rfl | rfl <;>
    trivial

/-- Two cycles, one after the other. -/
theorem stepsMeet_twoCycles {now : ℚ} {metrics : Option OutboxRelayMetrics}
    {store : InMemoryOutboxStore String} {first second : List (Label String)}
    (hfirst : ∀ label ∈ first, label ∈ onlyDeadLetter 0 ++ bothMessages 0)
    (hsecond : ∀ label ∈ second, label ∈ onlyDeadLetter 1 ++ bothMessages 1)
    (hpassed : ∀ message ∈ store.getAll, message.publishedAt = none →
      message.attempts < options.maxAttempts →
        ¬ options.BacksOff message now)
    (hbetween : ((exec options.step (State.initial now store metrics)
      (.runOnce 0 :: first)).map fun state =>
        decide (¬ (state.cycles 0).Running ∧
          ∀ message ∈ state.store.getAll, message.publishedAt = none →
            message.attempts < options.maxAttempts →
              ¬ options.BacksOff message state.clock)) = some true) :
    StepsMeet options.step (AllSucceed options)
      (State.initial now store metrics)
      ((.runOnce 0 :: first) ++ .runOnce 1 :: second) := by
  refine StepsMeet.append ⟨?_, fun _ _ => ?_⟩
    fun middle hmiddle => ⟨?_, fun _ _ => ?_⟩
  · exact allSucceed_runOnce [] 0 0 rfl (by simp) (by simp) hpassed
  · exact StepsMeet.of_forall_mem fun label hmem =>
      allSucceed_of_mem (hfirst label hmem)
  · rw [hmiddle, Option.map_some, Option.some.injEq, decide_eq_true_eq]
      at hbetween
    refine allSucceed_runOnce _ 1 1 hmiddle (fun other hmem => ?_)
      (fun other hless => ?_) hbetween.2
    · rcases List.mem_cons.mp hmem with hhead | htail
      · cases hhead
        exact Nat.one_pos
      · have hlabel := hfirst _ htail
        simp [onlyDeadLetter, bothMessages] at hlabel
    · have hzero : other = 0 := by omega
      rw [hzero]
      exact hbetween.1
  · exact StepsMeet.of_forall_mem fun label hmem =>
      allSucceed_of_mem (hsecond label hmem)

/-- A batch of two has room for the fresh message. -/
theorem allLivePublished_iff_deadBefore_lt_batchOfTwo :
    ∃ state,
      exec (batches 2).step (State.initial 0 deadLetterInFront (some {}))
        ((.runOnce 0 :: bothMessages 0) ++ .runOnce 1 :: onlyDeadLetter 1) =
          some state ∧
      (AllLivePublished (batches 2) deadLetterInFront state.store ↔
        ∀ id, (batches 2).isLive deadLetterInFront id = true →
          (batches 2).deadBefore deadLetterInFront id < 2) := by
  have hsome : ((exec (batches 2).step
      (State.initial 0 deadLetterInFront (some {}))
      ((.runOnce 0 :: bothMessages 0) ++ .runOnce 1 :: onlyDeadLetter 1)).map
        fun state => state.finishedCycles) = some 2 := by
    decide +kernel
  obtain ⟨state, hrun, hcycles⟩ := Option.map_eq_some_iff.mp hsome
  have hmeet : StepsMeet (batches 2).step (AllSucceed (batches 2))
      (State.initial 0 deadLetterInFront (some {}))
      ((.runOnce 0 :: bothMessages 0) ++ .runOnce 1 :: onlyDeadLetter 1) := by
    refine stepsMeet_twoCycles (fun _ hmem => List.mem_append_right _ hmem)
      (fun _ hmem => List.mem_append_left _ hmem) ?_ ?_
    · decide +kernel
    · decide +kernel
  have hsize : deadLetterInFront.size ≤ state.finishedCycles := by
    rw [hcycles]
    decide +kernel
  exact ⟨state, hrun, allLivePublished_iff_deadBefore_lt (batches 2)
    (by decide) 0 deadLetterInFront (some {}) _ state hrun hmeet hsize⟩

/-- A batch of one is filled by the dead letter in every cycle. -/
theorem fresh_message_starves :
    ∃ state,
      exec (batches 1).step (State.initial 0 deadLetterInFront (some {}))
        ((.runOnce 0 :: onlyDeadLetter 0) ++ .runOnce 1 :: onlyDeadLetter 1) =
          some state ∧
      StepsMeet (batches 1).step (AllSucceed (batches 1))
        (State.initial 0 deadLetterInFront (some {}))
        ((.runOnce 0 :: onlyDeadLetter 0) ++ .runOnce 1 :: onlyDeadLetter 1) ∧
      deadLetterInFront.size ≤ state.finishedCycles ∧
      ¬ AllLivePublished (batches 1) deadLetterInFront state.store := by
  have hsome : ((exec (batches 1).step
      (State.initial 0 deadLetterInFront (some {}))
      ((.runOnce 0 :: onlyDeadLetter 0) ++ .runOnce 1 :: onlyDeadLetter 1)).map
        fun state => (state.finishedCycles, state.store.find "msg-1")) =
      some (2, some orderPlaced) := by
    decide +kernel
  obtain ⟨state, hrun, hfacts⟩ := Option.map_eq_some_iff.mp hsome
  rw [Prod.mk.injEq] at hfacts
  obtain ⟨hcycles, hunchanged⟩ := hfacts
  refine ⟨state, hrun, ?_, ?_, fun hall => ?_⟩
  · refine stepsMeet_twoCycles (fun _ hmem => List.mem_append_left _ hmem)
      (fun _ hmem => List.mem_append_left _ hmem) ?_ ?_
    · decide +kernel
    · decide +kernel
  · rw [hcycles]
    decide +kernel
  · have hfind : deadLetterInFront.find "msg-1" = some orderPlaced := by
      decide +kernel
    obtain ⟨published, hpublished, hsome⟩ :=
      hall "msg-1" orderPlaced hfind (by decide)
    rw [hunchanged, Option.some.injEq] at hpublished
    exact hsome (hpublished ▸ rfl)

end TsCommons.Outbox
