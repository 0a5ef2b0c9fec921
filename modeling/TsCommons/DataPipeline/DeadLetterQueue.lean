import TsCommons.Foundations.Execution
import Mathlib.Data.List.Count
import Mathlib.Data.List.Perm.Basic

/-!
# The dead letter queue

Records that could not be processed wait in a queue.  A call of `reprocess`
takes the whole queue out and gives the entries to its handler one after the
other; those that fail go back to the end of the queue, whatever was queued
meanwhile.  No entry is lost or duplicated, but the queue is no longer in the
order in which its entries were enqueued.
-/

namespace TsCommons.DataPipeline

open Foundations

variable {T E : Type}

/-- What a handler throws: an `Error`, or another value, of which only
`String(err)` is used.  That is taken to give a text: where it throws itself,
`reprocess` throws and the entries that it has not come to are lost. -/
inductive Thrown (E : Type)
  | error (error : E)
  | other (text : String)
deriving DecidableEq

/-- The `Error` of an entry, which may have been made from another value. -/
inductive EntryError (E : Type)
  | error (error : E)
  | newError (message : String)
deriving DecidableEq

/-- `err instanceof Error ? err : new Error(String(err))` -/
def asError : Thrown E → EntryError E
  | .error error => .error error
  | .other text => .newError text

structure DlqEntry (T E : Type) where
  data : T
  error : EntryError E
  enqueuedAt : ℕ
  retries : ℕ
deriving DecidableEq

/-- The entry of a record that failed again. -/
def DlqEntry.retried (entry : DlqEntry T E) (thrown : Thrown E) :
    DlqEntry T E where
  data := entry.data
  error := asError thrown
  enqueuedAt := entry.enqueuedAt
  retries := entry.retries + 1

structure DeadLetterQueue (T E : Type) where
  store : List (DlqEntry T E)

/-- A call of `reprocess` that has given the entries before those of `pending`
to its handler, and waits for the outcome of the first one of these. -/
structure Reprocess (T E : Type) where
  pending : List (DlqEntry T E)
  succeeded : ℕ
  failed : ℕ

namespace DeadLetterQueue

def empty : DeadLetterQueue T E := ⟨[]⟩

def enqueue (queue : DeadLetterQueue T E) (data : T) (error : E) (now : ℕ) :
    DeadLetterQueue T E :=
  ⟨queue.store ++ [⟨data, .error error, now, 0⟩]⟩

def dequeue (queue : DeadLetterQueue T E) :
    Option (DlqEntry T E) × DeadLetterQueue T E :=
  (queue.store.head?, ⟨queue.store.tail⟩)

def clear (_queue : DeadLetterQueue T E) : DeadLetterQueue T E := ⟨[]⟩

def reprocess (queue : DeadLetterQueue T E) :
    DeadLetterQueue T E × Reprocess T E :=
  (⟨[]⟩, ⟨queue.store, 0, 0⟩)

def requeue (queue : DeadLetterQueue T E) (entry : DlqEntry T E)
    (thrown : Thrown E) : DeadLetterQueue T E :=
  ⟨queue.store ++ [entry.retried thrown]⟩

/-- The queue after a number of calls of `dequeue`. -/
def afterDequeues (queue : DeadLetterQueue T E) : ℕ → DeadLetterQueue T E
  | 0 => queue
  | count + 1 => (queue.dequeue.2).afterDequeues count

end DeadLetterQueue

/-! ## Runs -/

namespace DeadLetterQueue

variable {D : Type}

/-- The record of an entry stands with its number among the enqueued ones.
`failures` are the numbers of the entries whose handlers failed. -/
structure State (D E : Type) where
  queue : DeadLetterQueue (D × ℕ) E
  reprocesses : List (Reprocess (D × ℕ) E)
  enqueued : List D
  failures : List ℕ
  succeeded : List (DlqEntry (D × ℕ) E)
  dequeued : List (DlqEntry (D × ℕ) E)
  cleared : List (DlqEntry (D × ℕ) E)

def State.initial : State D E := ⟨.empty, [], [], [], [], [], []⟩

/-- A handler resolves, which is `none`, or throws. -/
inductive Label (D E : Type)
  | enqueue (data : D) (error : E) (now : ℕ)
  | dequeue
  | clear
  | reprocess
  | settle (index : ℕ) (outcome : Option (Thrown E))

namespace State

def enqueue (state : State D E) (data : D) (error : E) (now : ℕ) :
    State D E :=
  { state with
    queue := state.queue.enqueue (data, state.enqueued.length) error now
    enqueued := state.enqueued ++ [data] }

def dequeue (state : State D E) : State D E :=
  { state with
    queue := state.queue.dequeue.2
    dequeued := state.dequeued ++ state.queue.dequeue.1.toList }

def clear (state : State D E) : State D E :=
  { state with
    queue := state.queue.clear
    cleared := state.cleared ++ state.queue.store }

def reprocess (state : State D E) : State D E :=
  { state with
    queue := state.queue.reprocess.1
    reprocesses := state.reprocesses ++ [state.queue.reprocess.2] }

/-- The handler of a call of `reprocess` settles for an entry, and the call
goes on with the rest. -/
def settle (state : State D E) (index : ℕ)
    (reprocess : Reprocess (D × ℕ) E) (entry : DlqEntry (D × ℕ) E)
    (rest : List (DlqEntry (D × ℕ) E)) :
    Option (Thrown E) → State D E
  | none =>
      { state with
        reprocesses := state.reprocesses.set index
          ⟨rest, reprocess.succeeded + 1, reprocess.failed⟩
        succeeded := state.succeeded ++ [entry] }
  | some thrown =>
      { state with
        queue := state.queue.requeue entry thrown
        reprocesses := state.reprocesses.set index
          ⟨rest, reprocess.succeeded, reprocess.failed + 1⟩
        failures := state.failures ++ [entry.data.2] }

def inFlight (state : State D E) : List (DlqEntry (D × ℕ) E) :=
  state.reprocesses.flatMap Reprocess.pending

/-- The entries in the queue, in flight in each call of `reprocess`,
succeeded, dequeued and cleared. -/
def entries (state : State D E) : List (DlqEntry (D × ℕ) E) :=
  state.queue.store ++ state.inFlight ++ state.succeeded ++ state.dequeued ++
    state.cleared

/-- The entry that a call of `reprocess` waits for. -/
def awaited (state : State D E) (index : ℕ) :
    Option (DlqEntry (D × ℕ) E) :=
  state.reprocesses[index]?.bind (·.pending.head?)

end State

def step (state : State D E) : Label D E → Option (State D E)
  | .enqueue data error now => some (state.enqueue data error now)
  | .dequeue => some state.dequeue
  | .clear => some state.clear
  | .reprocess => some state.reprocess
  | .settle index outcome =>
      match state.reprocesses[index]? with
      | none => none
      | some reprocess =>
          match reprocess.pending with
          | [] => none
          | entry :: rest =>
              some (state.settle index reprocess entry rest outcome)

/-- Every enqueued record is in one place, its retries are its failures, and
a dequeue gives the oldest entry, however many come before it. -/
structure QueueLaw (state : State D E) : Prop where
  accounted : (state.entries.map DlqEntry.data).Perm state.enqueued.zipIdx
  retries : ∀ entry ∈ state.entries,
    entry.retries = state.failures.count entry.data.2
  oldest : ∀ count, ∀ entry ∈ (state.queue.afterDequeues count).dequeue.1,
    ∀ other ∈ (state.queue.afterDequeues count).store,
      entry.data.2 ≤ other.data.2

/-- An entry that failed is put back only if no younger one is queued. -/
def RequeuesYoungest (state : State D E) : Label D E → Prop
  | .settle index (some _) =>
      ∀ entry ∈ state.awaited index, ∀ queued ∈ state.queue.store,
        queued.data.2 ≤ entry.data.2
  | _ => True

instance (state : State D E) (label : Label D E) :
    Decidable (RequeuesYoungest state label) :=
  match label with
  | .settle index (some _) =>
      inferInstanceAs (Decidable (∀ entry ∈ state.awaited index,
        ∀ queued ∈ state.queue.store, queued.data.2 ≤ entry.data.2))
  | .settle _ none => inferInstanceAs (Decidable True)
  | .enqueue _ _ _ => inferInstanceAs (Decidable True)
  | .dequeue => inferInstanceAs (Decidable True)
  | .clear => inferInstanceAs (Decidable True)
  | .reprocess => inferInstanceAs (Decidable True)

variable {state next : State D E} {label : Label D E} {index : ℕ}
  {reprocess : Reprocess (D × ℕ) E} {entry : DlqEntry (D × ℕ) E}
  {rest : List (DlqEntry (D × ℕ) E)} {outcome : Option (Thrown E)}
  {thrown : Thrown E}

theorem step_settle_eq_some :
    step state (.settle index outcome) = some next ↔
      ∃ reprocess entry rest, state.reprocesses[index]? = some reprocess ∧
        reprocess.pending = entry :: rest ∧
        next = state.settle index reprocess entry rest outcome := by
  simp only [step]
  cases hget : state.reprocesses[index]? with
  | none => simp
  | some reprocess =>
      cases hpending : reprocess.pending with
      | nil => simp [hpending]
      | cons entry rest => simp [hpending, eq_comm]

/-! ## Places -/

theorem flatMap_set_perm {α β : Type*} {f : α → List β} {list : List α}
    {index : ℕ} {old : α} (new : α) {first : β}
    (hget : list[index]? = some old) (hfirst : f old = first :: f new) :
    (list.flatMap f).Perm (first :: (list.set index new).flatMap f) := by
  induction list generalizing index with
  | nil => simp at hget
  | cons head others ih =>
      cases index with
      | zero =>
          rw [List.getElem?_cons_zero, Option.some.injEq] at hget
          rw [List.set_cons_zero, List.flatMap_cons, List.flatMap_cons, hget,
            hfirst]
          rfl
      | succ index =>
          rw [List.getElem?_cons_succ] at hget
          rw [List.set_cons_succ, List.flatMap_cons, List.flatMap_cons]
          exact ((ih hget).append_left _).trans List.perm_middle

theorem entries_enqueue (state : State D E) (data : D) (error : E)
    (now : ℕ) :
    (state.enqueue data error now).entries.Perm
      (⟨(data, state.enqueued.length), .error error, now, 0⟩ ::
        state.entries) := by
  classical
  refine List.perm_iff_count.mpr fun found => ?_
  simp only [State.entries, State.inFlight, State.enqueue,
    DeadLetterQueue.enqueue, List.count_append, List.count_cons,
    List.count_nil]
  omega

theorem entries_dequeue (state : State D E) :
    state.dequeue.entries.Perm state.entries := by
  classical
  refine List.perm_iff_count.mpr fun found => ?_
  simp only [State.entries, State.inFlight, State.dequeue,
    DeadLetterQueue.dequeue, List.count_append]
  cases state.queue.store with
  | nil => simp
  | cons first rest =>
      simp only [List.head?_cons, List.tail_cons, Option.toList_some,
        List.count_cons, List.count_nil]
      omega

theorem entries_clear (state : State D E) :
    state.clear.entries.Perm state.entries := by
  classical
  refine List.perm_iff_count.mpr fun found => ?_
  simp only [State.entries, State.inFlight, State.clear,
    DeadLetterQueue.clear, List.count_append, List.count_nil]
  omega

theorem entries_reprocess (state : State D E) :
    state.reprocess.entries.Perm state.entries := by
  classical
  refine List.perm_iff_count.mpr fun found => ?_
  simp only [State.entries, State.inFlight, State.reprocess,
    DeadLetterQueue.reprocess, List.flatMap_append, List.flatMap_cons,
    List.flatMap_nil, List.count_append, List.count_nil]
  omega

theorem entries_settle_none
    (hget : state.reprocesses[index]? = some reprocess)
    (hpending : reprocess.pending = entry :: rest) :
    (state.settle index reprocess entry rest none).entries.Perm
      state.entries := by
  classical
  have hflight := flatMap_set_perm (f := Reprocess.pending)
    ⟨rest, reprocess.succeeded + 1, reprocess.failed⟩ hget hpending
  refine List.perm_iff_count.mpr fun found => ?_
  have hcount := List.perm_iff_count.mp hflight found
  simp only [State.entries, State.inFlight, State.settle, List.count_append,
    List.count_cons, List.count_nil] at hcount ⊢
  omega

/-- Apart from the entry that failed, all entries stay where they are. -/
theorem entries_settle_some
    (hget : state.reprocesses[index]? = some reprocess)
    (hpending : reprocess.pending = entry :: rest) (thrown : Thrown E) :
    ∃ others, state.entries.Perm (entry :: others) ∧
      (state.settle index reprocess entry rest (some thrown)).entries.Perm
        (entry.retried thrown :: others) := by
  classical
  have hflight := flatMap_set_perm (f := Reprocess.pending)
    ⟨rest, reprocess.succeeded, reprocess.failed + 1⟩ hget hpending
  refine ⟨state.queue.store ++ (state.reprocesses.set index
    ⟨rest, reprocess.succeeded, reprocess.failed + 1⟩).flatMap
      Reprocess.pending ++ state.succeeded ++ state.dequeued ++
        state.cleared, ?_, ?_⟩
  · refine List.perm_iff_count.mpr fun found => ?_
    have hcount := List.perm_iff_count.mp hflight found
    simp only [State.entries, State.inFlight, List.count_append,
      List.count_cons] at hcount ⊢
    omega
  · refine List.perm_iff_count.mpr fun found => ?_
    simp only [State.entries, State.inFlight, State.settle,
      DeadLetterQueue.requeue, List.count_append, List.count_cons,
      List.count_nil]
    omega

/-! ## The invariant -/

/-- What holds in every run. -/
structure Accounted (state : State D E) : Prop where
  accounted : (state.entries.map DlqEntry.data).Perm state.enqueued.zipIdx
  retries : ∀ entry ∈ state.entries,
    entry.retries = state.failures.count entry.data.2
  failures : ∀ number ∈ state.failures, number < state.enqueued.length

/-- The queue stands in the order in which its entries were enqueued. -/
def Ordered (state : State D E) : Prop :=
  state.queue.store.Pairwise fun entry other => entry.data.2 ≤ other.data.2

structure Invariant (state : State D E) : Prop extends Accounted state where
  ordered : Ordered state

theorem Accounted.numbers (hinv : Accounted state) :
    (state.entries.map (·.data.2)).Perm
      (List.range state.enqueued.length) := by
  have hnumbers := hinv.accounted.map Prod.snd
  rw [List.map_map, List.zipIdx_map_snd, ← List.range_eq_range'] at hnumbers
  exact hnumbers

theorem Accounted.number_lt (hinv : Accounted state)
    (hentry : entry ∈ state.entries) :
    entry.data.2 < state.enqueued.length :=
  List.mem_range.mp
    (hinv.numbers.mem_iff.mp (List.mem_map_of_mem hentry))

theorem mem_entries_of_mem_store (hentry : entry ∈ state.queue.store) :
    entry ∈ state.entries := by
  simp only [State.entries, List.append_assoc]
  exact List.mem_append_left _ hentry

/-- The oldest of a queue comes first, however many are dequeued, when the
queue is in order. -/
theorem oldest_iff (queue : DeadLetterQueue (D × ℕ) E) :
    (∀ count, ∀ entry ∈ (queue.afterDequeues count).dequeue.1,
      ∀ other ∈ (queue.afterDequeues count).store,
        entry.data.2 ≤ other.data.2) ↔
    queue.store.Pairwise fun entry other =>
      entry.data.2 ≤ other.data.2 := by
  obtain ⟨store⟩ := queue
  induction store with
  | nil =>
      refine iff_of_true (fun count entry hentry other hother => ?_) .nil
      have hempty : ∀ count,
          (afterDequeues (⟨[]⟩ : DeadLetterQueue (D × ℕ) E) count).store =
            [] := by
        intro count
        induction count with
        | zero => rfl
        | succ count ih => exact ih
      rw [hempty] at hother
      cases hother
  | cons first rest ih =>
      rw [List.pairwise_cons, ← ih]
      constructor
      · intro hall
        refine ⟨fun other hother => ?_, fun count => hall (count + 1)⟩
        exact hall 0 first rfl other (List.mem_cons_of_mem first hother)
      · rintro ⟨hfirst, hrest⟩ count
        cases count with
        | zero =>
            intro entry hentry other hother
            cases hentry
            obtain rfl | hother := List.mem_cons.mp hother
            · exact Nat.le_refl _
            · exact hfirst other hother
        | succ count => exact hrest count

theorem Invariant.law (hinv : Invariant state) : QueueLaw state :=
  ⟨hinv.accounted, hinv.retries, (oldest_iff _).mpr hinv.ordered⟩

theorem accounted_initial : Accounted (State.initial : State D E) where
  accounted := .nil
  retries _ hentry := by cases hentry
  failures _ hnumber := by cases hnumber

/-- A step that moves entries from one place to another. -/
theorem Accounted.move (hinv : Accounted state)
    (hentries : next.entries.Perm state.entries)
    (henqueued : next.enqueued = state.enqueued)
    (hfailures : next.failures = state.failures) : Accounted next where
  accounted := by
    rw [henqueued]
    exact (hentries.map _).trans hinv.accounted
  retries entry hentry := by
    rw [hfailures]
    exact hinv.retries entry (hentries.mem_iff.mp hentry)
  failures := by
    rw [hfailures, henqueued]
    exact hinv.failures

theorem Accounted.enqueue (hinv : Accounted state) (data : D) (error : E)
    (now : ℕ) : Accounted (state.enqueue data error now) := by
  have hentries := entries_enqueue state data error now
  refine ⟨?_, ?_, ?_⟩
  · have hdata := hentries.map DlqEntry.data
    rw [List.map_cons] at hdata
    refine hdata.trans ?_
    simp only [State.enqueue, List.zipIdx_append, List.zipIdx_cons,
      List.zipIdx_nil, Nat.zero_add]
    exact (hinv.accounted.cons _).trans
      (List.perm_append_singleton _ _).symm
  · intro entry hentry
    obtain rfl | hentry := List.mem_cons.mp (hentries.mem_iff.mp hentry)
    · symm
      refine List.count_eq_zero.mpr fun hmem => ?_
      exact Nat.lt_irrefl _ (hinv.failures _ hmem)
    · exact hinv.retries entry hentry
  · intro number hnumber
    simp only [State.enqueue, List.length_append, List.length_singleton]
    exact Nat.lt_succ_of_lt (hinv.failures number hnumber)

theorem Accounted.settle_some (hinv : Accounted state)
    (hget : state.reprocesses[index]? = some reprocess)
    (hpending : reprocess.pending = entry :: rest) :
    Accounted (state.settle index reprocess entry rest (some thrown)) := by
  obtain ⟨others, hbefore, hafter⟩ :=
    entries_settle_some hget hpending thrown
  have hnumbers := (hbefore.map (·.data.2)).symm.trans hinv.numbers
  rw [List.map_cons] at hnumbers
  have hfresh : entry.data.2 ∉ others.map (·.data.2) :=
    (List.nodup_cons.mp (hnumbers.nodup_iff.mpr List.nodup_range)).1
  refine ⟨?_, ?_, ?_⟩
  · have hdata := hbefore.map DlqEntry.data
    rw [List.map_cons] at hdata
    refine (hafter.map DlqEntry.data).trans ?_
    rw [List.map_cons]
    exact hdata.symm.trans hinv.accounted
  · intro found hfound
    simp only [State.settle, List.count_append]
    obtain rfl | hfound := List.mem_cons.mp (hafter.mem_iff.mp hfound)
    · have hretries := hinv.retries entry
        (hbefore.mem_iff.mpr List.mem_cons_self)
      simp [DlqEntry.retried, hretries]
    · have hne : entry.data.2 ≠ found.data.2 := by
        intro heq
        exact hfresh (heq ▸ List.mem_map_of_mem hfound)
      rw [hinv.retries found
        (hbefore.mem_iff.mpr (List.mem_cons_of_mem _ hfound)),
        List.count_singleton]
      simp [hne]
  · intro number hnumber
    obtain hold | hnew := List.mem_append.mp hnumber
    · exact hinv.failures number hold
    · rw [List.mem_singleton.mp hnew]
      exact hinv.number_lt (hbefore.mem_iff.mpr List.mem_cons_self)

theorem Accounted.step (hinv : Accounted state)
    (hstep : step state label = some next) : Accounted next := by
  cases label with
  | enqueue data error now =>
      cases hstep
      exact hinv.enqueue data error now
  | dequeue =>
      cases hstep
      exact hinv.move (entries_dequeue state) rfl rfl
  | clear =>
      cases hstep
      exact hinv.move (entries_clear state) rfl rfl
  | reprocess =>
      cases hstep
      exact hinv.move (entries_reprocess state) rfl rfl
  | settle index outcome =>
      obtain ⟨reprocess, entry, rest, hget, hpending, rfl⟩ :=
        step_settle_eq_some.mp hstep
      cases outcome with
      | none => exact hinv.move (entries_settle_none hget hpending) rfl rfl
      | some thrown => exact hinv.settle_some hget hpending

/-- In every run, each enqueued record is in exactly one place, and its
retries are its failures. -/
theorem accounted_of_run {labels : List (Label D E)}
    (hrun : exec DeadLetterQueue.step State.initial labels = some state) :
    Accounted state :=
  exec_invariant (fun _ _ _ hinv hstep => Accounted.step hinv hstep)
    accounted_initial hrun

/-! ## The order of the queue -/

theorem ordered_concat {queue : List (DlqEntry (D × ℕ) E)}
    (hordered : queue.Pairwise fun entry other =>
      entry.data.2 ≤ other.data.2)
    (hlast : ∀ queued ∈ queue, queued.data.2 ≤ entry.data.2) :
    (queue ++ [entry]).Pairwise fun entry other =>
      entry.data.2 ≤ other.data.2 := by
  refine List.pairwise_append.mpr
    ⟨hordered, List.pairwise_singleton _ _, ?_⟩
  intro queued hqueued other hother
  rw [List.mem_singleton.mp hother]
  exact hlast queued hqueued

theorem awaited_eq (hget : state.reprocesses[index]? = some reprocess)
    (hpending : reprocess.pending = entry :: rest) :
    state.awaited index = some entry := by
  rw [State.awaited, hget, Option.bind_some, hpending]
  rfl

theorem Invariant.step (hinv : Invariant state)
    (hyoungest : RequeuesYoungest state label)
    (hstep : step state label = some next) : Invariant next := by
  refine ⟨hinv.toAccounted.step hstep, ?_⟩
  cases label with
  | enqueue data error now =>
      cases hstep
      exact ordered_concat hinv.ordered fun queued hqueued =>
        Nat.le_of_lt (hinv.number_lt (mem_entries_of_mem_store hqueued))
  | dequeue =>
      cases hstep
      exact hinv.ordered.sublist (List.tail_sublist _)
  | clear =>
      cases hstep
      exact .nil
  | reprocess =>
      cases hstep
      exact .nil
  | settle index outcome =>
      obtain ⟨reprocess, entry, rest, hget, hpending, rfl⟩ :=
        step_settle_eq_some.mp hstep
      cases outcome with
      | none => exact hinv.ordered
      | some thrown =>
          exact ordered_concat hinv.ordered
            (hyoungest entry (awaited_eq hget hpending))

/-- An entry that is put back behind a younger one. -/
theorem not_law_of_step (hnot : ¬RequeuesYoungest state label)
    (hstep : step state label = some next) : ¬QueueLaw next := by
  intro hlaw
  cases label with
  | enqueue data error now => exact hnot trivial
  | dequeue => exact hnot trivial
  | clear => exact hnot trivial
  | reprocess => exact hnot trivial
  | settle index outcome =>
      cases outcome with
      | none => exact hnot trivial
      | some thrown =>
          obtain ⟨reprocess, entry, rest, hget, hpending, rfl⟩ :=
            step_settle_eq_some.mp hstep
          apply hnot
          intro found hfound queued hqueued
          rw [awaited_eq hget hpending] at hfound
          cases hfound
          have hordered := (oldest_iff _).mp hlaw.oldest
          exact (List.pairwise_append.mp hordered).2.2 queued hqueued
            (entry.retried thrown) List.mem_cons_self

/-- In a run, no entry is lost or duplicated, retries count the failures and
the oldest entry is dequeued first, if and only if every entry that fails is
put back while no younger one is queued. -/
theorem queueLaw_iff_requeuesYoungest {labels : List (Label D E)}
    (hrun : exec step State.initial labels = some state) :
    Throughout step QueueLaw State.initial labels ↔
      StepsMeet step RequeuesYoungest State.initial labels :=
  throughout_iff_stepsMeet (I := Invariant)
    (fun _ hinv => hinv.law)
    (fun _ _ _ hinv hyoungest hstep => hinv.step hyoungest hstep)
    (fun _ _ _ _ hnot hstep => not_law_of_step hnot hstep)
    ⟨accounted_initial, .nil⟩ hrun

/-- An entry fails again, with or without another one enqueued while its
handler runs. -/
def failOnce (between : List (Label ℕ ℕ)) : List (Label ℕ ℕ) :=
  [.enqueue 10 0 0, .reprocess] ++ between ++
    [.settle 0 (some (.other "still failing"))]

theorem queueLaw_iff_requeuesYoungest_samples :
    Throughout step QueueLaw State.initial
        (failOnce [] ++ [.enqueue 20 0 1, .dequeue]) ∧
      ¬Throughout step QueueLaw State.initial
        (failOnce [.enqueue 20 0 1]) := by
  have halone : (exec step State.initial
      (failOnce [] ++ [.enqueue 20 0 1, .dequeue])).isSome := by
    decide +kernel
  have hbetween : (exec step State.initial
      (failOnce [.enqueue 20 0 1])).isSome := by
    decide +kernel
  obtain ⟨_, halone⟩ := Option.isSome_iff_exists.mp halone
  obtain ⟨_, hbetween⟩ := Option.isSome_iff_exists.mp hbetween
  constructor
  · apply (queueLaw_iff_requeuesYoungest halone).mpr
    decide +kernel
  · intro hlaw
    have hmeet := (queueLaw_iff_requeuesYoungest hbetween).mp hlaw
    exact absurd hmeet (by decide +kernel)

/-- The second record is dequeued although the first one is queued and was
enqueued before it. -/
theorem not_queueLaw_of_requeue :
    ∃ state : State ℕ ℕ,
      exec step State.initial (failOnce [.enqueue 20 0 1]) = some state ∧
      state.queue.dequeue.1.map (·.data) = some (20, 1) ∧
      state.queue.store.map (·.data) = [(20, 1), (10, 0)] ∧
      ¬QueueLaw state := by
  have hends : (exec step State.initial (failOnce [.enqueue 20 0 1])).any
      (fun state => decide
        (state.queue.dequeue.1.map (·.data) = some (20, 1) ∧
          state.queue.store.map (·.data) = [(20, 1), (10, 0)])) = true := by
    decide +kernel
  obtain ⟨state, hrun, hfacts⟩ := (Option.any_eq_true _ _).mp hends
  obtain ⟨hdequeue, hstore⟩ := of_decide_eq_true hfacts
  refine ⟨state, hrun, hdequeue, hstore, fun hlaw => ?_⟩
  have hordered := (oldest_iff _).mp hlaw.oldest
  have hnumbers : (state.queue.store.map (·.data)).Pairwise
      fun record other => record.2 ≤ other.2 :=
    List.pairwise_map.mpr hordered
  rw [hstore] at hnumbers
  exact absurd hnumbers (by decide)

end DeadLetterQueue

end TsCommons.DataPipeline
