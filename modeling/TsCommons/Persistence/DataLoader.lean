import TsCommons.Foundations.Execution
import TsCommons.Foundations.InsertionMap
import TsCommons.Foundations.Settlements

/-!
# The data loader

Keys that are loaded and not cached wait in a queue.  The first of them
schedules a microtask that hands the whole queue to the batch function, and
the promises settle when the promise of their batch does.  Calls, microtasks
and batches that settle come in any order.
-/

namespace TsCommons.Persistence.DataLoader

open Foundations

variable {K V Err : Type}

/-- A promise in the cache: that of a load, or a primed one. -/
inductive CachedPromise (V : Type)
  | load (number : ℕ)
  | primed (value : V)
deriving DecidableEq

/-- A key with the functions that settle the promise of its load. -/
structure Item (K : Type) where
  key : K
  load : ℕ
deriving DecidableEq

/-- `null` is the absence of a value. -/
inductive Settlement (V Err : Type)
  | resolved (value : Option V)
  | rejected (error : Err)
deriving DecidableEq

/-- A call of the batch function with the keys of the items, and what its
promise has settled with. -/
structure Batch (K V Err : Type) where
  items : List (Item K)
  result : Option (Except Err (InsertionMap K V))

/-- `flushes` is the number of scheduled microtasks; `enqueued` are the loads
that were not answered from the cache and `settled` the calls that settle
their promises, in their order. -/
structure State (K V Err : Type) where
  cache : InsertionMap K (CachedPromise V)
  queue : List (Item K)
  scheduled : Bool
  flushes : ℕ
  batches : List (Batch K V Err)
  enqueued : List (Item K)
  settled : List (ℕ × Settlement V Err)

def State.initial : State K V Err := ⟨.empty, [], false, 0, [], [], []⟩

def Batch.loads (batch : Batch K V Err) : List ℕ := batch.items.map Item.load

section Operations

variable [DecidableEq K]

/-- What the promise of a load settles with when its batch does. -/
def settlement (result : Except Err (InsertionMap K V)) (key : K) :
    Settlement V Err :=
  match result with
  | .ok results => .resolved (results.get key)
  | .error error => .rejected error

def Batch.settlements (batch : Batch K V Err)
    (result : Except Err (InsertionMap K V)) :
    List (ℕ × Settlement V Err) :=
  batch.items.map fun item => (item.load, settlement result item.key)

/-- What settles the promise of a load of the key in the batch: nothing while
the batch is outstanding. -/
def Batch.settles (batch : Batch K V Err) (key : K) :
    List (Settlement V Err) :=
  batch.result.toList.map fun result => settlement result key

namespace State

def scheduleBatch (state : State K V Err) : State K V Err :=
  if state.scheduled then state
  else { state with scheduled := true, flushes := state.flushes + 1 }

def enqueue (state : State K V Err) (key : K) : State K V Err :=
  let item : Item K := ⟨key, state.enqueued.length⟩
  { state with
    queue := state.queue ++ [item]
    enqueued := state.enqueued ++ [item] }

/-- The state afterwards, and the promise that is returned. -/
def load (state : State K V Err) (key : K) :
    State K V Err × CachedPromise V :=
  match state.cache.get key with
  | some cached => (state, cached)
  | none =>
      let pending : CachedPromise V := .load state.enqueued.length
      (({ state.enqueue key with
          cache := state.cache.set key pending }).scheduleBatch, pending)

def clear (state : State K V Err) (key : K) : State K V Err :=
  { state with cache := state.cache.delete key }

def clearAll (state : State K V Err) : State K V Err :=
  { state with cache := .empty }

def prime (state : State K V Err) (key : K) (value : V) : State K V Err :=
  { state with cache := state.cache.set key (.primed value) }

def cacheSize (state : State K V Err) : ℕ := state.cache.size

/-- The body of the microtask. -/
def flush (state : State K V Err) : State K V Err :=
  { state with
    queue := []
    scheduled := false
    flushes := state.flushes - 1
    batches :=
      if state.queue.length = 0 then state.batches
      else state.batches ++ [⟨state.queue, none⟩] }

/-- The promise of a batch settles, and with it those of the loads. -/
def complete (state : State K V Err) (number : ℕ) (batch : Batch K V Err)
    (result : Except Err (InsertionMap K V)) : State K V Err :=
  { state with
    batches := state.batches.set number { batch with result := some result }
    settled := state.settled ++ batch.settlements result }

end State

inductive Label (K V Err : Type)
  | load (key : K)
  | clear (key : K)
  | clearAll
  | prime (key : K) (value : V)
  | flush
  | complete (batch : ℕ) (result : Except Err (InsertionMap K V))

def step (state : State K V Err) : Label K V Err → Option (State K V Err)
  | .load key => some (state.load key).1
  | .clear key => some (state.clear key)
  | .clearAll => some state.clearAll
  | .prime key value => some (state.prime key value)
  | .flush => if state.flushes = 0 then none else some state.flush
  | .complete number result =>
      match state.batches[number]? with
      | none => none
      | some batch =>
          if batch.result.isSome then none
          else some (state.complete number batch result)

/-- The calls that settle the promise of a load. -/
def settlementsOf (load : ℕ) (settled : List (ℕ × Settlement V Err)) :
    List (Settlement V Err) :=
  (settled.filter fun call => call.1 = load).map Prod.snd

/-- The loads stand in the batches and in the queue in their order, each of
them once; while the queue is not empty a microtask is scheduled that makes it
a batch; and the promise of a load in a batch is settled when the batch is,
once, with its value or its error. -/
structure LoaderLaw (state : State K V Err) : Prop where
  placed : state.batches.flatMap Batch.items ++ state.queue = state.enqueued
  distinct : (state.enqueued.map Item.load).Nodup
  flushable : state.queue ≠ [] → ∃ next, step state .flush = some next ∧
    next.queue = [] ∧ next.batches = state.batches ++ [⟨state.queue, none⟩]
  unsettled : ∀ item ∈ state.queue, settlementsOf item.load state.settled = []
  settled : ∀ batch ∈ state.batches, ∀ item ∈ batch.items,
    settlementsOf item.load state.settled = batch.settles item.key

end Operations

variable {state next : State K V Err} {batch : Batch K V Err}
  {item : Item K} {promise number : ℕ}

/-! ## Settlements -/

theorem settlementsOf_append (load : ℕ)
    (before after : List (ℕ × Settlement V Err)) :
    settlementsOf load (before ++ after) =
      settlementsOf load before ++ settlementsOf load after :=
  Foundations.settlementsOf_append load before after

theorem settlementsOf_eq_nil {settled : List (ℕ × Settlement V Err)}
    (hother : ∀ call ∈ settled, call.1 ≠ promise) :
    settlementsOf promise settled = [] :=
  Foundations.settlementsOf_eq_nil hother

variable [DecidableEq K]

theorem settlements_eq (batch : Batch K V Err)
    (result : Except Err (InsertionMap K V)) :
    batch.settlements result =
      settleAll Item.load (fun item _ => [settlement result item.key]) 0
        batch.items :=
  (settleAll_singleton _ 0 batch.items).symm

theorem settlementsOf_settlements (result : Except Err (InsertionMap K V))
    (hdistinct : batch.loads.Nodup) (hitem : item ∈ batch.items) :
    settlementsOf item.load (batch.settlements result) =
      [settlement result item.key] := by
  obtain ⟨position, hposition⟩ := List.mem_iff_getElem?.mp hitem
  rw [settlements_eq]
  exact settlementsOf_settleAll hdistinct hposition

theorem settlementsOf_settlements_of_not_mem
    {result : Except Err (InsertionMap K V)} (hload : promise ∉ batch.loads) :
    settlementsOf promise (batch.settlements result) = [] := by
  rw [settlements_eq]
  exact settlementsOf_settleAll_of_not_mem hload

/-! ## What holds in every run -/

structure Invariant (state : State K V Err) : Prop where
  placed : state.batches.flatMap Batch.items ++ state.queue = state.enqueued
  numbered : state.enqueued.map Item.load = List.range state.enqueued.length
  queued : state.queue ≠ [] → state.scheduled = true
  scheduled : state.flushes = if state.scheduled then 1 else 0
  fresh : ∀ call ∈ state.settled, call.1 < state.enqueued.length
  unsettled : ∀ item ∈ state.queue, settlementsOf item.load state.settled = []
  settled : ∀ (number : ℕ) (batch : Batch K V Err),
    state.batches[number]? = some batch → ∀ item ∈ batch.items,
      settlementsOf item.load state.settled = batch.settles item.key

theorem invariant_initial : Invariant (State.initial : State K V Err) := by
  constructor <;> simp [State.initial]

theorem Invariant.distinct (hinv : Invariant state) :
    (state.batches.flatMap Batch.loads ++
      state.queue.map Item.load).Nodup := by
  have hloads : state.batches.flatMap Batch.loads ++
      state.queue.map Item.load = state.enqueued.map Item.load := by
    rw [← hinv.placed, List.map_append, List.map_flatMap]
    rfl
  rw [hloads, hinv.numbered]
  exact List.nodup_range

theorem Invariant.nodup_loads (hinv : Invariant state)
    (hbatch : state.batches[number]? = some batch) : batch.loads.Nodup := by
  have hbatches := (List.nodup_append.mp hinv.distinct).1
  exact (List.nodup_flatMap.mp hbatches).1 batch
    (List.mem_of_getElem? hbatch)

theorem Invariant.not_mem_loads (hinv : Invariant state)
    (hbatch : state.batches[number]? = some batch) {other : ℕ}
    {otherBatch : Batch K V Err}
    (hother : state.batches[other]? = some otherBatch) (hne : number ≠ other)
    (hitem : item ∈ otherBatch.items) : item.load ∉ batch.loads := by
  have hbatches := (List.nodup_append.mp hinv.distinct).1
  rw [List.flatMap_def] at hbatches
  have hloads {position : ℕ} {found : Batch K V Err}
      (hget : state.batches[position]? = some found) :
      (state.batches.map Batch.loads)[position]? = some found.loads := by
    rw [List.getElem?_map, hget]
    rfl
  exact not_mem_of_nodup_flatten hbatches (hloads hbatch) (hloads hother) hne
    (List.mem_map_of_mem hitem)

theorem Invariant.not_mem_loads_of_queue (hinv : Invariant state)
    (hbatch : state.batches[number]? = some batch)
    (hitem : item ∈ state.queue) : item.load ∉ batch.loads := by
  intro hload
  have hmem : item.load ∈ state.batches.flatMap Batch.loads :=
    List.mem_flatMap.mpr ⟨batch, List.mem_of_getElem? hbatch, hload⟩
  exact (List.nodup_append.mp hinv.distinct).2.2 _ hmem _
    (List.mem_map_of_mem hitem) rfl

theorem Invariant.law (hinv : Invariant state) : LoaderLaw state := by
  constructor
  · exact hinv.placed
  · rw [hinv.numbered]
    exact List.nodup_range
  · intro hqueue
    have hflushes := hinv.scheduled
    rw [hinv.queued hqueue, if_pos rfl] at hflushes
    have hlength : state.queue.length ≠ 0 := by
      simpa using hqueue
    refine ⟨state.flush, ?_, rfl, ?_⟩
    · simp [step, hflushes]
    · simp only [State.flush, if_neg hlength]
  · exact hinv.unsettled
  · intro batch hbatch
    obtain ⟨number, hnumber⟩ := List.mem_iff_getElem?.mp hbatch
    exact hinv.settled number batch hnumber

omit [DecidableEq K] in
theorem scheduleBatch_eq (state : State K V Err) :
    state.scheduleBatch = { state with
      scheduled := true
      flushes := if state.scheduled then state.flushes
        else state.flushes + 1 } := by
  unfold State.scheduleBatch
  cases hscheduled : state.scheduled with
  | true => simp [← hscheduled]
  | false => simp

theorem Invariant.load (hinv : Invariant state) (key : K) :
    Invariant (state.load key).1 := by
  unfold State.load
  cases state.cache.get key with
  | some cached => exact hinv
  | none =>
      simp only [scheduleBatch_eq, State.enqueue]
      constructor
      · rw [← List.append_assoc, hinv.placed]
      · rw [List.map_append, hinv.numbered, List.length_append,
          List.length_singleton, List.range_succ]
        rfl
      · exact fun _ => rfl
      · rw [hinv.scheduled]
        cases state.scheduled <;> rfl
      · intro call hcall
        rw [List.length_append]
        exact Nat.lt_add_right _ (hinv.fresh call hcall)
      · intro item hitem
        rcases List.mem_append.mp hitem with hold | hnew
        · exact hinv.unsettled item hold
        · rw [List.mem_singleton.mp hnew]
          apply settlementsOf_eq_nil
          exact fun call hcall => Nat.ne_of_lt (hinv.fresh call hcall)
      · exact hinv.settled

theorem Invariant.flush (hinv : Invariant state)
    (hflushes : state.flushes ≠ 0) : Invariant state.flush := by
  have hscheduled := hinv.scheduled
  constructor
  · simp only [State.flush, List.append_nil]
    rw [← hinv.placed]
    by_cases hqueue : state.queue.length = 0
    · rw [if_pos hqueue, List.length_eq_zero_iff.mp hqueue, List.append_nil]
    · rw [if_neg hqueue, List.flatMap_append]
      simp
  · exact hinv.numbered
  · exact fun hqueue => absurd rfl hqueue
  · simp only [State.flush]
    cases hflag : state.scheduled with
    | true => rw [hscheduled, hflag]; rfl
    | false =>
        rw [hflag] at hscheduled
        exact absurd hscheduled hflushes
  · exact hinv.fresh
  · exact fun item hitem => absurd hitem List.not_mem_nil
  · intro number batch hbatch item hitem
    simp only [State.flush] at hbatch
    by_cases hqueue : state.queue.length = 0
    · rw [if_pos hqueue] at hbatch
      exact hinv.settled number batch hbatch item hitem
    · rw [if_neg hqueue] at hbatch
      rcases List.mem_append.mp (List.mem_of_getElem? hbatch) with hold | hnew
      · obtain ⟨place, hplace⟩ := List.mem_iff_getElem?.mp hold
        exact hinv.settled place batch hplace item hitem
      · rw [List.mem_singleton] at hnew
        subst batch
        exact hinv.unsettled item hitem

theorem Invariant.load_lt (hinv : Invariant state)
    (hbatch : batch ∈ state.batches) (hitem : item ∈ batch.items) :
    item.load < state.enqueued.length := by
  have hload : item.load ∈ state.enqueued.map Item.load := by
    apply List.mem_map_of_mem
    rw [← hinv.placed]
    exact List.mem_append_left _ (List.mem_flatMap.mpr ⟨batch, hbatch, hitem⟩)
  rw [hinv.numbered] at hload
  exact List.mem_range.mp hload

theorem Invariant.complete (hinv : Invariant state)
    (hbatch : state.batches[number]? = some batch)
    (houtstanding : batch.result = none)
    (result : Except Err (InsertionMap K V)) :
    Invariant (state.complete number batch result) := by
  have hnodup := hinv.nodup_loads hbatch
  have hitems : (state.batches.set number
      { batch with result := some result }).map Batch.items =
        state.batches.map Batch.items :=
    map_set_of_eq hbatch rfl
  constructor
  · simp only [State.complete, List.flatMap_def, hitems]
    rw [← List.flatMap_def]
    exact hinv.placed
  · exact hinv.numbered
  · exact hinv.queued
  · exact hinv.scheduled
  · intro call hcall
    rcases List.mem_append.mp hcall with hold | hnew
    · exact hinv.fresh call hold
    · obtain ⟨item, hitem, rfl⟩ := List.mem_map.mp hnew
      exact hinv.load_lt (List.mem_of_getElem? hbatch) hitem
  · intro item hitem
    simp only [State.complete]
    rw [settlementsOf_append, hinv.unsettled item hitem, List.nil_append]
    exact settlementsOf_settlements_of_not_mem
      (hinv.not_mem_loads_of_queue hbatch hitem)
  · intro other otherBatch hother item hitem
    simp only [State.complete] at hother ⊢
    rw [settlementsOf_append]
    by_cases hsame : number = other
    · subst other
      rw [List.getElem?_set_self', hbatch] at hother
      cases hother
      have hbefore := hinv.settled number batch hbatch item hitem
      rw [hbefore, Batch.settles, houtstanding]
      exact settlementsOf_settlements result hnodup hitem
    · rw [List.getElem?_set_ne hsame] at hother
      rw [hinv.settled other otherBatch hother item hitem,
        settlementsOf_settlements_of_not_mem
          (hinv.not_mem_loads hbatch hother hsame hitem),
        List.append_nil]

theorem Invariant.step (hinv : Invariant state) {label : Label K V Err}
    (hstep : step state label = some next) : Invariant next := by
  cases label with
  | load key =>
      cases hstep
      exact hinv.load key
  | clear key =>
      cases hstep
      exact { hinv with }
  | clearAll =>
      cases hstep
      exact { hinv with }
  | prime key value =>
      cases hstep
      exact { hinv with }
  | flush =>
      simp only [DataLoader.step, Option.ite_none_left_eq_some,
        Option.some.injEq] at hstep
      obtain ⟨hflushes, rfl⟩ := hstep
      exact hinv.flush hflushes
  | complete number result =>
      simp only [DataLoader.step] at hstep
      split at hstep
      next => cases hstep
      next batch hbatch =>
        simp only [Option.ite_none_left_eq_some, Option.some.injEq,
          Bool.not_eq_true, Option.isSome_eq_false_iff,
          Option.isNone_iff_eq_none] at hstep
        obtain ⟨houtstanding, rfl⟩ := hstep
        exact hinv.complete hbatch houtstanding result

/-! ## Keys that are cached -/

end TsCommons.Persistence.DataLoader
