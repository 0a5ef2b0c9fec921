import TsCommons.Foundations.Execution
import TsCommons.Foundations.InsertionMap
import TsCommons.Foundations.Settlements

/-!
# The data loader of the GraphQL server

Keys without a cached value wait in a queue until a microtask hands the whole
queue to the batch function.  The results are dispatched by position when the
promise of the batch function resolves.  Nothing is settled where there is no
result, and nothing at all if that promise is rejected.
-/

namespace TsCommons.WebGraphql.DataLoader

open Foundations

variable {K V Err : Type}

/-- A key with the functions that settle the promise of its load. -/
structure QueueEntry (K : Type) where
  key : K
  load : ℕ
deriving DecidableEq

inductive Settlement (V Err : Type)
  | resolved (value : V)
  | rejected (reason : Err)
deriving DecidableEq

/-- What the promise of the batch function settles with: an array, in which
there may be `undefined`, or a reason. -/
abbrev Outcome (V Err : Type) := Except Err (List (Option (Except Err V)))

/-- A call of the batch function with the keys of the entries. -/
structure Batch (K V Err : Type) where
  entries : List (QueueEntry K)
  outcome : Option (Outcome V Err)

/-- A cached value may be `undefined`.  `flushes` is the number of scheduled
microtasks; `enqueued` are the loads that were not answered from the cache
and `settled` the calls that settle their promises, in their order. -/
structure State (K V Err : Type) where
  cache : InsertionMap K (Option V)
  queue : List (QueueEntry K)
  scheduled : Bool
  flushes : ℕ
  batches : List (Batch K V Err)
  enqueued : List (QueueEntry K)
  settled : List (ℕ × Settlement V Err)

def State.initial : State K V Err := ⟨.empty, [], false, 0, [], [], []⟩

section Operations

variable [DecidableEq K]

/-- The cache and the calls that settle promises. -/
abbrev Dispatched (K V Err : Type) :=
  InsertionMap K (Option V) × List (ℕ × Settlement V Err)

def resolveEntry (entry : QueueEntry K) (result : Except Err V)
    (done : Dispatched K V Err) : Dispatched K V Err :=
  match result with
  | .error reason => (done.1, done.2 ++ [(entry.load, .rejected reason)])
  | .ok value =>
      (done.1.set entry.key (some value),
        done.2 ++ [(entry.load, .resolved value)])

def dispatchResults (batch : List (QueueEntry K))
    (results : List (Option (Except Err V)))
    (cache : InsertionMap K (Option V)) : Dispatched K V Err :=
  batch.zipIdx.foldl (fun done entry =>
    match (results[entry.2]?).join with
    | none => done
    | some result => resolveEntry entry.1 result done) (cache, [])

namespace State

/-- The state afterwards, and the value if it is cached. -/
def load (state : State K V Err) (key : K) : State K V Err × Option V :=
  match (state.cache.get key).join with
  | some cached => (state, some cached)
  | none =>
      let entry : QueueEntry K := ⟨key, state.enqueued.length⟩
      ({ state with
        queue := state.queue ++ [entry]
        scheduled := true
        flushes :=
          if state.scheduled then state.flushes else state.flushes + 1
        enqueued := state.enqueued ++ [entry] }, none)

def loadMany (state : State K V Err) (keys : List K) : State K V Err :=
  keys.foldl (fun state key => (state.load key).1) state

def flush (state : State K V Err) : State K V Err :=
  { state with
    queue := []
    scheduled := false
    flushes := state.flushes - 1
    batches := state.batches ++ [⟨state.queue, none⟩] }

/-- The promise of the batch function settles. -/
def complete (state : State K V Err) (number : ℕ) (batch : Batch K V Err)
    (outcome : Outcome V Err) : State K V Err :=
  let batches :=
    state.batches.set number { batch with outcome := some outcome }
  match outcome with
  | .error _ => { state with batches := batches }
  | .ok results =>
      let done := dispatchResults batch.entries results state.cache
      { state with
        batches := batches
        cache := done.1
        settled := state.settled ++ done.2 }

def prime (state : State K V Err) (key : K) (value : Option V) :
    State K V Err :=
  { state with cache := state.cache.set key value }

def clearCache (state : State K V Err) : State K V Err :=
  { state with cache := .empty }

end State

inductive Label (K V Err : Type)
  | load (key : K)
  | loadMany (keys : List K)
  | prime (key : K) (value : Option V)
  | clearCache
  | flush
  | complete (batch : ℕ) (outcome : Outcome V Err)

def step (state : State K V Err) : Label K V Err → Option (State K V Err)
  | .load key => some (state.load key).1
  | .loadMany keys => some (state.loadMany keys)
  | .prime key value => some (state.prime key value)
  | .clearCache => some state.clearCache
  | .flush => if state.flushes = 0 then none else some state.flush
  | .complete number outcome =>
      match state.batches[number]? with
      | none => none
      | some batch =>
          if batch.outcome.isSome then none
          else some (state.complete number batch outcome)

/-- The entry of the array at the position, where there is one. -/
def resultAt (outcome : Outcome V Err) (position : ℕ) :
    Option (Except Err V) :=
  match outcome with
  | .error _ => none
  | .ok results => (results[position]?).join

/-- What a load at the position is owed: the value, or a rejection, with the
`Error` if there is one. -/
def Owed (outcome : Outcome V Err) (position : ℕ) :
    Settlement V Err → Prop
  | .resolved value => resultAt outcome position = some (.ok value)
  | .rejected reason =>
      ∀ result, resultAt outcome position = some result →
        result = .error reason

/-- The loads stand in the batches and in the queue in their order, each of
them once; a microtask is scheduled while the queue is not empty; and the
promises of the loads in a batch are settled when the call of the batch
function is, each of them once and with what it is owed. -/
structure LoaderLaw (state : State K V Err) : Prop where
  placed : (state.batches.map Batch.entries).flatten ++ state.queue =
    state.enqueued
  distinct : (state.enqueued.map QueueEntry.load).Nodup
  flushable : state.queue ≠ [] → ∃ next, step state .flush = some next ∧
    next.queue = [] ∧ next.batches = state.batches ++ [⟨state.queue, none⟩]
  queued : ∀ entry ∈ state.queue,
    settlementsOf entry.load state.settled = []
  waiting : ∀ batch ∈ state.batches, batch.outcome = none →
    ∀ entry ∈ batch.entries, settlementsOf entry.load state.settled = []
  settled : ∀ batch ∈ state.batches, ∀ outcome ∈ batch.outcome,
    ∀ position entry, batch.entries[position]? = some entry →
      ∃ settlement, settlementsOf entry.load state.settled = [settlement] ∧
        Owed outcome position settlement

/-- The call resolves with a value or an `Error` for each of its keys. -/
def AnswersEveryKey (state : State K V Err) : Label K V Err → Prop
  | .complete number outcome =>
      ∀ batch ∈ state.batches[number]?,
        ∀ position ∈ List.range batch.entries.length,
          (resultAt outcome position).isSome
  | _ => True

instance AnswersEveryKey.decidable (state : State K V Err) :
    (label : Label K V Err) → Decidable (AnswersEveryKey state label)
  | .complete number outcome => inferInstanceAs (Decidable
      (∀ batch ∈ state.batches[number]?,
        ∀ position ∈ List.range batch.entries.length,
          (resultAt outcome position).isSome))
  | .load _ => inferInstanceAs (Decidable True)
  | .loadMany _ => inferInstanceAs (Decidable True)
  | .prime _ _ => inferInstanceAs (Decidable True)
  | .clearCache => inferInstanceAs (Decidable True)
  | .flush => inferInstanceAs (Decidable True)

end Operations

/-! ## What a settled call settles -/

def settlement : Except Err V → Settlement V Err
  | .error reason => .rejected reason
  | .ok value => .resolved value

/-- The calls that settle the promise at the position: none while the call of
the batch function is outstanding. -/
def Batch.settles (batch : Batch K V Err) (position : ℕ) :
    List (Settlement V Err) :=
  (batch.outcome.bind fun outcome => resultAt outcome position).toList.map
    settlement

/-- The calls that settle promises when the call settles. -/
def Batch.settlements (batch : Batch K V Err) (outcome : Outcome V Err) :
    List (ℕ × Settlement V Err) :=
  settleAll QueueEntry.load
    (fun _ position => (resultAt outcome position).toList.map settlement) 0
    batch.entries

variable {state next : State K V Err} {batch : Batch K V Err}
  {entry : QueueEntry K} {number position : ℕ} {outcome : Outcome V Err}
  {label : Label K V Err}

theorem owed_settlement {result : Except Err V}
    (hresult : resultAt outcome position = some result) :
    Owed outcome position (settlement result) := by
  cases result with
  | ok value => exact hresult
  | error reason =>
      intro other hother
      rw [hresult] at hother
      exact (Option.some.inj hother).symm

variable [DecidableEq K]

theorem snd_dispatchResults (entries : List (QueueEntry K))
    (results : List (Option (Except Err V)))
    (cache : InsertionMap K (Option V)) :
    (dispatchResults entries results cache).2 =
      settleAll QueueEntry.load (fun _ position =>
        (resultAt (.ok results) position).toList.map settlement) 0
        entries := by
  have hfold (start : ℕ) (done : Dispatched K V Err) :
      ((entries.zipIdx start).foldl (fun done entry =>
        match (results[entry.2]?).join with
        | none => done
        | some result => resolveEntry entry.1 result done) done).2 =
      done.2 ++ settleAll QueueEntry.load (fun _ position =>
        (resultAt (.ok results) position).toList.map settlement) start
        entries := by
    induction entries generalizing start done with
    | nil => simp [settleAll]
    | cons entry rest ih =>
        have hsplit : settleAll QueueEntry.load (fun _ position =>
            (resultAt (.ok results) position).toList.map settlement) start
            (entry :: rest) =
            ((results[start]?).join.toList.map settlement).map
              (fun settlement => (entry.load, settlement)) ++
            settleAll QueueEntry.load (fun _ position =>
              (resultAt (.ok results) position).toList.map settlement)
              (start + 1) rest := rfl
        rw [List.zipIdx_cons, List.foldl_cons, ih (start + 1), hsplit,
          ← List.append_assoc]
        congr 1
        cases (results[start]?).join with
        | none => simp
        | some result =>
            cases result with
            | ok value => rfl
            | error reason => rfl
  rw [dispatchResults, hfold 0, List.nil_append]

theorem settled_complete (state : State K V Err) (number : ℕ)
    (batch : Batch K V Err) (outcome : Outcome V Err) :
    (state.complete number batch outcome).settled =
      state.settled ++ batch.settlements outcome := by
  cases outcome with
  | error reason =>
      simp [State.complete, Batch.settlements, settleAll, resultAt]
  | ok results =>
      simp only [State.complete, Batch.settlements, snd_dispatchResults]

theorem complete_eq (state : State K V Err) (number : ℕ)
    (batch : Batch K V Err) (outcome : Outcome V Err) :
    ∃ cache, state.complete number batch outcome = { state with
      cache := cache
      batches :=
        state.batches.set number { batch with outcome := some outcome }
      settled := state.settled ++ batch.settlements outcome } := by
  refine ⟨(state.complete number batch outcome).cache, ?_⟩
  rw [← settled_complete state number]
  cases outcome with
  | error reason => rfl
  | ok results => rfl

/-! ## What holds in every run -/

structure Invariant (state : State K V Err) : Prop where
  placed : (state.batches.map Batch.entries).flatten ++ state.queue =
    state.enqueued
  numbered : state.enqueued.map QueueEntry.load =
    List.range state.enqueued.length
  queued : state.queue ≠ [] → state.scheduled = true
  scheduled : state.flushes = if state.scheduled then 1 else 0
  fresh : ∀ call ∈ state.settled, call.1 < state.enqueued.length
  unsettled : ∀ entry ∈ state.queue,
    settlementsOf entry.load state.settled = []
  settled : ∀ (number : ℕ) (batch : Batch K V Err),
    state.batches[number]? = some batch →
      ∀ position entry, batch.entries[position]? = some entry →
        settlementsOf entry.load state.settled = batch.settles position

omit [DecidableEq K] in
theorem invariant_initial : Invariant (State.initial : State K V Err) := by
  constructor <;> simp [State.initial]

omit [DecidableEq K] in
theorem Invariant.distinct (hinv : Invariant state) :
    (state.enqueued.map QueueEntry.load).Nodup := by
  rw [hinv.numbered]
  exact List.nodup_range

omit [DecidableEq K] in
theorem Invariant.nodup_groups (hinv : Invariant state) :
    ((state.batches.map fun batch =>
      batch.entries.map QueueEntry.load).flatten ++
        state.queue.map QueueEntry.load).Nodup := by
  have hdistinct := hinv.distinct
  rw [← hinv.placed, List.map_append, List.map_flatten, List.map_map]
    at hdistinct
  exact hdistinct

theorem Invariant.load (hinv : Invariant state) (key : K) :
    Invariant (state.load key).1 := by
  unfold State.load
  cases (state.cache.get key).join with
  | some cached => exact hinv
  | none =>
      constructor
      · rw [← List.append_assoc, hinv.placed]
      · rw [List.map_append, hinv.numbered, List.length_append,
          List.length_singleton, List.range_succ]
        rfl
      · exact fun _ => rfl
      · rw [hinv.scheduled]
        cases state.scheduled <;> rfl
      · intro call hcall
        rw [List.length_append]
        exact Nat.lt_add_right _ (hinv.fresh call hcall)
      · intro entry hentry
        rcases List.mem_append.mp hentry with hold | hnew
        · exact hinv.unsettled entry hold
        · rw [List.mem_singleton.mp hnew]
          apply settlementsOf_eq_nil
          exact fun call hcall => Nat.ne_of_lt (hinv.fresh call hcall)
      · exact hinv.settled

theorem Invariant.loadMany (hinv : Invariant state) (keys : List K) :
    Invariant (state.loadMany keys) := by
  induction keys generalizing state with
  | nil => exact hinv
  | cons key rest ih => exact ih (hinv.load key)

omit [DecidableEq K] in
theorem Invariant.flush (hinv : Invariant state)
    (hflushes : state.flushes ≠ 0) : Invariant state.flush := by
  have hscheduled := hinv.scheduled
  constructor
  · have hplaced := hinv.placed
    simpa [State.flush] using hplaced
  · exact hinv.numbered
  · exact fun hqueue => absurd rfl hqueue
  · simp only [State.flush]
    cases hflag : state.scheduled with
    | true => rw [hscheduled, hflag]; rfl
    | false =>
        rw [hflag] at hscheduled
        exact absurd hscheduled hflushes
  · exact hinv.fresh
  · exact fun entry hentry => absurd hentry List.not_mem_nil
  · intro number batch hbatch position entry hentry
    rcases List.mem_append.mp (List.mem_of_getElem? hbatch) with hold | hnew
    · obtain ⟨place, hplace⟩ := List.mem_iff_getElem?.mp hold
      exact hinv.settled place batch hplace position entry hentry
    · rw [List.mem_singleton] at hnew
      subst batch
      exact hinv.unsettled entry (List.mem_of_getElem? hentry)

omit [DecidableEq K] in
theorem Invariant.load_lt (hinv : Invariant state)
    (hbatch : batch ∈ state.batches) (hentry : entry ∈ batch.entries) :
    entry.load < state.enqueued.length := by
  have hload : entry.load ∈ state.enqueued.map QueueEntry.load := by
    apply List.mem_map_of_mem
    rw [← hinv.placed]
    exact List.mem_append_left _ (List.mem_flatten.mpr
      ⟨batch.entries, List.mem_map_of_mem hbatch, hentry⟩)
  rw [hinv.numbered] at hload
  exact List.mem_range.mp hload

omit [DecidableEq K] in
/-- A call that settles leaves the loads of the other ones and of the queue
alone. -/
theorem Invariant.settlementsOf_settlements (hinv : Invariant state)
    (hbatch : state.batches[number]? = some batch) (outcome : Outcome V Err) :
    (∀ entry ∈ state.queue,
      settlementsOf entry.load (batch.settlements outcome) = []) ∧
    ∀ other otherBatch, state.batches[other]? = some otherBatch →
      ∀ position entry, otherBatch.entries[position]? = some entry →
        settlementsOf entry.load (batch.settlements outcome) =
          if number = other then
            (resultAt outcome position).toList.map settlement
          else [] := by
  obtain ⟨hgroups, -, hqueue⟩ := List.nodup_append.mp hinv.nodup_groups
  have hloads {other : ℕ} {otherBatch : Batch K V Err}
      (hother : state.batches[other]? = some otherBatch) :
      (state.batches.map fun batch =>
        batch.entries.map QueueEntry.load)[other]? =
          some (otherBatch.entries.map QueueEntry.load) := by
    rw [List.getElem?_map, hother]
    rfl
  constructor
  · intro entry hentry
    apply settlementsOf_settleAll_of_not_mem
    intro hmem
    exact hqueue _ (List.mem_flatten_of_mem
      (List.mem_of_getElem? (hloads hbatch)) hmem) _
      (List.mem_map_of_mem hentry) rfl
  · intro other otherBatch hother position entry hentry
    split
    · rename_i hsame
      subst other
      rw [hbatch] at hother
      cases hother
      have hnodup := (List.nodup_flatten.mp hgroups).1 _
        (List.mem_of_getElem? (hloads hbatch))
      rw [Batch.settlements, settlementsOf_settleAll hnodup hentry,
        Nat.zero_add]
    · rename_i hne
      apply settlementsOf_settleAll_of_not_mem
      exact not_mem_of_nodup_flatten hgroups (hloads hbatch) (hloads hother)
        hne (List.mem_map_of_mem (List.mem_of_getElem? hentry))

theorem Invariant.complete (hinv : Invariant state)
    (hbatch : state.batches[number]? = some batch)
    (houtstanding : batch.outcome = none) (outcome : Outcome V Err) :
    Invariant (state.complete number batch outcome) := by
  obtain ⟨hqueue, hbatches⟩ := hinv.settlementsOf_settlements hbatch outcome
  obtain ⟨cache, hcomplete⟩ := complete_eq state number batch outcome
  have hentries : (state.batches.set number
      { batch with outcome := some outcome }).map Batch.entries =
        state.batches.map Batch.entries :=
    map_set_of_eq hbatch rfl
  rw [hcomplete]
  constructor
  · rw [hentries]
    exact hinv.placed
  · exact hinv.numbered
  · exact hinv.queued
  · exact hinv.scheduled
  · intro call hcall
    rcases List.mem_append.mp hcall with hold | hnew
    · exact hinv.fresh call hold
    · obtain ⟨entry, hentry, hload⟩ := mem_settleAll hnew
      rw [← hload]
      exact hinv.load_lt (List.mem_of_getElem? hbatch) hentry
  · intro entry hentry
    rw [settlementsOf_append, hinv.unsettled entry hentry, hqueue entry hentry,
      List.append_nil]
  · intro other otherBatch hother position entry hentry
    rw [settlementsOf_append]
    by_cases hsame : number = other
    · subst other
      rw [List.getElem?_set_self', hbatch] at hother
      cases hother
      rw [hinv.settled number batch hbatch position entry hentry,
        hbatches number batch hbatch position entry hentry, if_pos rfl,
        Batch.settles, houtstanding]
      rfl
    · rw [List.getElem?_set_ne hsame] at hother
      rw [hinv.settled other otherBatch hother position entry hentry,
        hbatches other otherBatch hother position entry hentry,
        if_neg hsame, List.append_nil]

theorem step_complete_eq_some :
    step state (.complete number outcome) = some next ↔
      ∃ batch, state.batches[number]? = some batch ∧
        batch.outcome = none ∧
        state.complete number batch outcome = next := by
  simp only [step]
  cases state.batches[number]? with
  | none => simp
  | some batch => simp

theorem invariant_of_step (hinv : Invariant state)
    (hstep : step state label = some next) : Invariant next := by
  cases label with
  | load key =>
      cases hstep
      exact hinv.load key
  | loadMany keys =>
      cases hstep
      exact hinv.loadMany keys
  | prime key value =>
      cases hstep
      exact { hinv with }
  | clearCache =>
      cases hstep
      exact { hinv with }
  | flush =>
      simp only [step, Option.ite_none_left_eq_some,
        Option.some.injEq] at hstep
      obtain ⟨hflushes, rfl⟩ := hstep
      exact hinv.flush hflushes
  | complete number outcome =>
      obtain ⟨batch, hbatch, houtstanding, rfl⟩ :=
        step_complete_eq_some.mp hstep
      exact hinv.complete hbatch houtstanding outcome

/-! ## Calls that answer every key -/

/-- The settled calls have a value or an `Error` for each of their keys. -/
def Answered (state : State K V Err) : Prop :=
  ∀ batch ∈ state.batches, ∀ outcome ∈ batch.outcome,
    ∀ position ∈ List.range batch.entries.length,
      (resultAt outcome position).isSome

theorem Invariant.flushable (hinv : Invariant state)
    (hqueue : state.queue ≠ []) : step state .flush = some state.flush := by
  have hflushes := hinv.scheduled
  rw [hinv.queued hqueue, if_pos rfl] at hflushes
  simp [step, hflushes]

theorem loaderLaw_iff_answered (hinv : Invariant state) :
    LoaderLaw state ↔ Answered state := by
  constructor
  · intro hlaw batch hbatch outcome houtcome position hposition
    have hlt := List.mem_range.mp hposition
    have hentry : batch.entries[position]? = some batch.entries[position] :=
      List.getElem?_eq_getElem hlt
    obtain ⟨settlement, hsettled, -⟩ :=
      hlaw.settled batch hbatch outcome houtcome position _ hentry
    obtain ⟨number, hnumber⟩ := List.mem_iff_getElem?.mp hbatch
    rw [hinv.settled number batch hnumber position _ hentry, Batch.settles,
      Option.mem_def.mp houtcome] at hsettled
    cases hresult : resultAt outcome position with
    | some result => rfl
    | none => simp [hresult] at hsettled
  · intro hanswered
    constructor
    · exact hinv.placed
    · exact hinv.distinct
    · intro hqueue
      exact ⟨state.flush, hinv.flushable hqueue, rfl, rfl⟩
    · exact hinv.unsettled
    · intro batch hbatch houtstanding entry hentry
      obtain ⟨number, hnumber⟩ := List.mem_iff_getElem?.mp hbatch
      obtain ⟨position, hposition⟩ := List.mem_iff_getElem?.mp hentry
      rw [hinv.settled number batch hnumber position entry hposition,
        Batch.settles, houtstanding]
      rfl
    · intro batch hbatch outcome houtcome position entry hentry
      obtain ⟨number, hnumber⟩ := List.mem_iff_getElem?.mp hbatch
      have hlt := (List.getElem?_eq_some_iff.mp hentry).1
      obtain ⟨result, hresult⟩ := Option.isSome_iff_exists.mp
        (hanswered batch hbatch outcome houtcome position
          (List.mem_range.mpr hlt))
      refine ⟨settlement result, ?_, owed_settlement hresult⟩
      rw [hinv.settled number batch hnumber position entry hentry,
        Batch.settles, Option.mem_def.mp houtcome, Option.bind_some, hresult]
      rfl

theorem batches_load (state : State K V Err) (key : K) :
    (state.load key).1.batches = state.batches := by
  unfold State.load
  cases (state.cache.get key).join with
  | some cached => rfl
  | none => rfl

theorem batches_loadMany (state : State K V Err) (keys : List K) :
    (state.loadMany keys).batches = state.batches := by
  induction keys generalizing state with
  | nil => rfl
  | cons key rest ih => exact (ih _).trans (batches_load state key)

theorem answered_complete_iff (hbatch : state.batches[number]? = some batch)
    (houtstanding : batch.outcome = none) :
    Answered (state.complete number batch outcome) ↔
      Answered state ∧ AnswersEveryKey state (.complete number outcome) := by
  obtain ⟨cache, hcomplete⟩ := complete_eq state number batch outcome
  obtain ⟨hlt, -⟩ := List.getElem?_eq_some_iff.mp hbatch
  rw [hcomplete]
  constructor
  · intro hanswered
    constructor
    · intro other hother outcome' houtcome'
      obtain ⟨place, hplace⟩ := List.mem_iff_getElem?.mp hother
      have hne : number ≠ place := by
        rintro rfl
        rw [hbatch] at hplace
        cases hplace
        rw [houtstanding] at houtcome'
        cases houtcome'
      refine hanswered other ?_ outcome' houtcome'
      exact List.mem_of_getElem? ((List.getElem?_set_ne hne).trans hplace)
    · intro other hother
      rw [hbatch, Option.mem_some] at hother
      subst other
      refine hanswered { batch with outcome := some outcome } ?_ outcome rfl
      exact List.mem_of_getElem? (List.getElem?_set_self hlt)
  · rintro ⟨hanswered, hmeets⟩ other hother outcome' houtcome'
    rcases List.mem_or_eq_of_mem_set hother with hold | rfl
    · exact hanswered other hold outcome' houtcome'
    · cases houtcome'
      exact hmeets batch hbatch

theorem answered_iff_of_step (hstep : step state label = some next) :
    Answered next ↔ Answered state ∧ AnswersEveryKey state label := by
  have hsame : next.batches = state.batches →
      (Answered next ↔ Answered state ∧ True) := by
    intro hbatches
    rw [Answered, hbatches, and_true]
    rfl
  cases label with
  | load key =>
      cases hstep
      exact hsame (batches_load state key)
  | loadMany keys =>
      cases hstep
      exact hsame (batches_loadMany state keys)
  | prime key value =>
      cases hstep
      exact hsame rfl
  | clearCache =>
      cases hstep
      exact hsame rfl
  | flush =>
      simp only [step, Option.ite_none_left_eq_some,
        Option.some.injEq] at hstep
      obtain ⟨-, rfl⟩ := hstep
      refine ⟨fun hanswered => ⟨?_, trivial⟩, fun hanswered => ?_⟩
      · exact (List.forall_mem_append.mp hanswered).1
      · refine List.forall_mem_append.mpr ⟨hanswered.1, ?_⟩
        intro batch hbatch outcome houtcome
        rw [List.mem_singleton.mp hbatch] at houtcome
        cases houtcome
  | complete number outcome =>
      obtain ⟨batch, hbatch, houtstanding, rfl⟩ :=
        step_complete_eq_some.mp hstep
      exact answered_complete_iff hbatch houtstanding

theorem loaderLaw_iff_answersEveryKey {labels : List (Label K V Err)}
    (hrun : exec step State.initial labels = some state) :
    Throughout step LoaderLaw (State.initial : State K V Err) labels ↔
      StepsMeet step AnswersEveryKey State.initial labels := by
  have hinit : Invariant (State.initial : State K V Err) ∧
      Answered (State.initial : State K V Err) :=
    ⟨invariant_initial, fun batch hbatch => absurd hbatch List.not_mem_nil⟩
  refine throughout_iff_stepsMeet
    (I := fun state => Invariant state ∧ Answered state) ?_ ?_ ?_ hinit hrun
  · intro state hinv
    exact (loaderLaw_iff_answered hinv.1).mpr hinv.2
  · intro state label next hinv hmeets hstep
    exact ⟨invariant_of_step hinv.1 hstep,
      (answered_iff_of_step hstep).mpr ⟨hinv.2, hmeets⟩⟩
  · intro state label next hinv hnot hstep hlaw
    have hanswered := (loaderLaw_iff_answered
      (invariant_of_step hinv.1 hstep)).mp hlaw
    exact hnot ((answered_iff_of_step hstep).mp hanswered).2

/-- Two batches with a primed key, a value and an `Error`. -/
def answersAll : List (Label ℕ ℕ String) :=
  [.prime 3 (some 30), .loadMany [1, 2, 3], .flush, .load 4,
    .complete 0 (.ok [some (.ok 10), some (.error "gone")]), .load 1, .flush,
    .complete 1 (.ok [some (.ok 40)])]

def rejectsBatch : List (Label ℕ ℕ String) :=
  [.load 1, .flush, .complete 0 (.error "down")]

def answersShort : List (Label ℕ ℕ String) :=
  [.load 1, .load 2, .flush, .complete 0 (.ok [some (.ok 10)])]

theorem loaderLaw_iff_answersEveryKey_samples :
    Throughout step LoaderLaw State.initial answersAll ∧
      ¬ Throughout step LoaderLaw State.initial rejectsBatch := by
  have hall : (exec step State.initial answersAll).map State.settled =
      some [(0, .resolved 10), (1, .rejected "gone"), (2, .resolved 40)] := by
    decide +kernel
  have hrejects : (exec step State.initial rejectsBatch).map State.settled =
      some [] := by
    decide +kernel
  obtain ⟨_, hall, -⟩ := Option.map_eq_some_iff.mp hall
  obtain ⟨_, hrejects, -⟩ := Option.map_eq_some_iff.mp hrejects
  constructor
  · apply (loaderLaw_iff_answersEveryKey hall).mpr
    decide +kernel
  · intro hlaw
    have hmeet := (loaderLaw_iff_answersEveryKey hrejects).mp hlaw
    exact absurd hmeet (by decide +kernel)

/-- The only call of the batch function has settled, and the promise of a load
in its batch has not: after a rejection, and after a short result. -/
theorem not_loaderLaw :
    (∃ state, exec step State.initial rejectsBatch = some state ∧
      settlementsOf 0 state.settled = [] ∧ ¬ LoaderLaw state) ∧
    ∃ state, exec step State.initial answersShort = some state ∧
      settlementsOf 1 state.settled = [] ∧ ¬ LoaderLaw state := by
  refine ⟨⟨_, rfl, rfl, fun hlaw => ?_⟩, ⟨_, rfl, rfl, fun hlaw => ?_⟩⟩
  · obtain ⟨settlement, hsettled, -⟩ := hlaw.settled _ List.mem_cons_self
      (.error "down") rfl 0 ⟨1, 0⟩ rfl
    cases hsettled
  · obtain ⟨settlement, hsettled, -⟩ := hlaw.settled _ List.mem_cons_self
      (.ok [some (.ok 10)]) rfl 1 ⟨2, 1⟩ rfl
    cases hsettled

end TsCommons.WebGraphql.DataLoader
