import TsCommons.Foundations.Execution
import TsCommons.Idempotency.Store

/-!
# The idempotency fake

The fake for tests and the store that it stands for get the same calls with
the same readings of the clock, and are to give the same answers.
-/

namespace TsCommons.Testing

open Foundations Idempotency

/-- A result, where `null` and `undefined` may be stored as well. -/
inductive Value (T : Type)
  | null
  | undefined
  | defined (value : T)
deriving DecidableEq

/-- An entry has no result until one is stored. -/
structure FakeIdempotencyStore (T : Type) where
  locks : InsertionMap String (StoreEntry (Value T))
deriving DecidableEq

namespace FakeIdempotencyStore

variable {T : Type}

def empty : FakeIdempotencyStore T := ⟨.empty⟩

/-- `checkedAt` and `lockedAt` are the two clock readings, in that order. -/
def tryAcquire (fake : FakeIdempotencyStore T) (key : IdempotencyKey)
    (ttlMs checkedAt lockedAt : ℚ) : Bool × FakeIdempotencyStore T :=
  let acquired : Bool × FakeIdempotencyStore T :=
    (true, ⟨fake.locks.set key.value ⟨none, lockedAt + ttlMs⟩⟩)
  match fake.locks.get key.value with
  | some existing =>
      if existing.expiresAt > checkedAt then (false, fake) else acquired
  | none => acquired

/-- `entry?.result ?? null`. -/
def getResult (fake : FakeIdempotencyStore T) (key : IdempotencyKey) :
    Value T :=
  match (fake.locks.get key.value).bind StoreEntry.result with
  | some (.defined value) => .defined value
  | _ => .null

def storeResult (fake : FakeIdempotencyStore T) (key : IdempotencyKey)
    (result : Value T) (ttlMs now : ℚ) : FakeIdempotencyStore T :=
  ⟨fake.locks.set key.value ⟨some result, now + ttlMs⟩⟩

def release (fake : FakeIdempotencyStore T) (key : IdempotencyKey) :
    FakeIdempotencyStore T :=
  ⟨fake.locks.delete key.value⟩

end FakeIdempotencyStore

inductive Answer (T : Type)
  | acquired (success : Bool)
  | result (value : Value T)
deriving DecidableEq

/-- `answers` are those of the fake, each next to that of the store. -/
structure State (T : Type) where
  fake : FakeIdempotencyStore T
  store : InMemoryIdempotencyStore (Value T)
  now : ℚ
  answers : List (Answer T × Answer T)
deriving DecidableEq

def State.initial (T : Type) (now : ℚ) : State T :=
  ⟨.empty, .empty, now, []⟩

inductive Label (T : Type)
  | tryAcquire (key : IdempotencyKey) (ttlMs checkedAt lockedAt : ℚ)
  | storeResult (key : IdempotencyKey) (result : Value T) (ttlMs now : ℚ)
  | release (key : IdempotencyKey)
  | getResult (key : IdempotencyKey) (now : ℚ)

namespace State

variable {T : Type}

def tryAcquire (state : State T) (key : IdempotencyKey)
    (ttlMs checkedAt lockedAt : ℚ) : State T :=
  let (fakeAcquired, fake) :=
    state.fake.tryAcquire key ttlMs checkedAt lockedAt
  let (acquired, store) :=
    state.store.tryAcquire key ttlMs checkedAt lockedAt
  { fake := fake
    store := store
    now := lockedAt
    answers := state.answers ++
      [(.acquired fakeAcquired, .acquired acquired)] }

def storeResult (state : State T) (key : IdempotencyKey) (result : Value T)
    (ttlMs now : ℚ) : State T :=
  { state with
    fake := state.fake.storeResult key result ttlMs now
    store := state.store.storeResult key result ttlMs now
    now := now }

def release (state : State T) (key : IdempotencyKey) : State T :=
  { state with
    fake := state.fake.release key
    store := state.store.release key }

def getResult (state : State T) (key : IdempotencyKey) (now : ℚ) : State T :=
  { state with
    now := now
    answers := state.answers ++
      [(.result (state.fake.getResult key),
        .result ((state.store.getResult key now).getD .null))] }

end State

variable {T : Type}

/-- Times to live are positive, and the readings of the clock do not
decrease. -/
def step (state : State T) : Label T → Option (State T)
  | .tryAcquire key ttlMs checkedAt lockedAt =>
      if 0 < ttlMs ∧ state.now ≤ checkedAt ∧ checkedAt ≤ lockedAt then
        some (state.tryAcquire key ttlMs checkedAt lockedAt)
      else none
  | .storeResult key result ttlMs now =>
      if 0 < ttlMs ∧ state.now ≤ now then
        some (state.storeResult key result ttlMs now)
      else none
  | .release key => some (state.release key)
  | .getResult key now =>
      if state.now ≤ now then some (state.getResult key now) else none

/-- Every call has got the same answer from the fake and from the store. -/
def Agree (state : State T) : Prop :=
  ∀ pair ∈ state.answers, pair.1 = pair.2

/-- An expired entry has no result but `null` and `undefined`, and one that has
not expired has not `undefined`. -/
def ShowsAlike (entry : StoreEntry (Value T)) (now : ℚ) : Prop :=
  (now > entry.expiresAt →
      entry.result = none ∨ entry.result = some .null ∨
        entry.result = some .undefined) ∧
    (now ≤ entry.expiresAt → entry.result ≠ some .undefined)

/-- No acquisition is tried at the very instant at which the entry expires,
and no expired result or `undefined` is asked for. -/
def AskedAlike (state : State T) : Label T → Prop
  | .tryAcquire key _ checkedAt _ =>
      ∀ entry ∈ state.store.entryOf key, checkedAt ≠ entry.expiresAt
  | .getResult key now =>
      ∀ entry ∈ state.store.entryOf key, ShowsAlike entry now
  | _ => True

instance [DecidableEq T] (entry : StoreEntry (Value T)) (now : ℚ) :
    Decidable (ShowsAlike entry now) :=
  inferInstanceAs (Decidable ((_ → _ ∨ _ ∨ _) ∧ (_ → _)))

instance [DecidableEq T] (state : State T) (label : Label T) :
    Decidable (AskedAlike state label) :=
  match label with
  | .tryAcquire key _ checkedAt _ =>
      inferInstanceAs (Decidable (∀ entry ∈ state.store.entryOf key,
        checkedAt ≠ entry.expiresAt))
  | .getResult key now =>
      inferInstanceAs (Decidable (∀ entry ∈ state.store.entryOf key,
        ShowsAlike entry now))
  | .storeResult _ _ _ _ => inferInstanceAs (Decidable True)
  | .release _ => inferInstanceAs (Decidable True)

variable {state next : State T} {label : Label T} {key : IdempotencyKey}
  {ttlMs checkedAt lockedAt now : ℚ} {fake : FakeIdempotencyStore T}
  {store : InMemoryIdempotencyStore (Value T)}

/-! ## Where the two stores differ -/

theorem tryAcquire_same (ttlMs lockedAt : ℚ)
    (hsame : fake.locks = store.store)
    (hinstant : ∀ entry ∈ store.entryOf key, checkedAt ≠ entry.expiresAt) :
    (fake.tryAcquire key ttlMs checkedAt lockedAt).1 =
        (store.tryAcquire key ttlMs checkedAt lockedAt).1 ∧
      (fake.tryAcquire key ttlMs checkedAt lockedAt).2.locks =
        (store.tryAcquire key ttlMs checkedAt lockedAt).2.store := by
  unfold FakeIdempotencyStore.tryAcquire InMemoryIdempotencyStore.tryAcquire
  rw [hsame]
  cases hget : store.store.get key.value with
  | none => exact ⟨rfl, rfl⟩
  | some entry =>
      rcases lt_trichotomy checkedAt entry.expiresAt with hlt | heq | hgt
      · simp [hlt, hlt.le, hsame]
      · exact absurd heq (hinstant entry hget)
      · simp [not_lt.mpr hgt.le, not_le.mpr hgt]

/-- At the instant at which an entry expires, the fake gives its lock away. -/
theorem tryAcquire_at_expiry (ttlMs lockedAt : ℚ)
    (hsame : fake.locks = store.store) {entry : StoreEntry (Value T)}
    (hentry : store.entryOf key = some entry)
    (hinstant : checkedAt = entry.expiresAt) :
    (fake.tryAcquire key ttlMs checkedAt lockedAt).1 = true ∧
      (store.tryAcquire key ttlMs checkedAt lockedAt).1 = false := by
  constructor
  · rw [FakeIdempotencyStore.tryAcquire, hsame]
    rw [InMemoryIdempotencyStore.entryOf] at hentry
    simp [hentry, hinstant]
  · exact InMemoryIdempotencyStore.tryAcquire_fst_eq_false_iff.mpr
      ⟨entry, hentry, hinstant.le⟩

theorem getResult_eq_iff (hsame : fake.locks = store.store) :
    fake.getResult key = (store.getResult key now).getD .null ↔
      ∀ entry ∈ store.entryOf key, ShowsAlike entry now := by
  unfold FakeIdempotencyStore.getResult InMemoryIdempotencyStore.getResult
    InMemoryIdempotencyStore.entryOf ShowsAlike
  rw [hsame]
  cases hget : store.store.get key.value with
  | none => simp
  | some entry =>
      obtain ⟨result, expiresAt⟩ := entry
      by_cases hexpired : now > expiresAt
      · rcases result with _ | _ | _ | value <;>
          simp [hexpired, not_le.mpr hexpired]
      · rcases result with _ | _ | _ | value <;>
          simp [hexpired, not_lt.mp hexpired]

/-! ## What holds in every run that asks alike -/

structure Invariant (state : State T) : Prop where
  same : state.fake.locks = state.store.store
  agree : Agree state

theorem invariant_initial (now : ℚ) : Invariant (State.initial T now) :=
  ⟨rfl, List.forall_mem_nil _⟩

theorem Invariant.step (hinv : Invariant state)
    (hasked : AskedAlike state label)
    (hstep : step state label = some next) : Invariant next := by
  cases label with
  | tryAcquire key ttlMs checkedAt lockedAt =>
      obtain ⟨-, hnext⟩ := Option.ite_none_right_eq_some.mp hstep
      cases hnext
      obtain ⟨hacquired, hsame⟩ := tryAcquire_same ttlMs lockedAt
        hinv.same hasked
      refine ⟨hsame, List.forall_mem_append.mpr ⟨hinv.agree, ?_⟩⟩
      exact List.forall_mem_singleton.mpr (congrArg Answer.acquired hacquired)
  | storeResult key result ttlMs now =>
      obtain ⟨-, hnext⟩ := Option.ite_none_right_eq_some.mp hstep
      cases hnext
      exact ⟨congrArg (·.set key.value ⟨some result, now + ttlMs⟩) hinv.same,
        hinv.agree⟩
  | release key =>
      cases hstep
      exact ⟨congrArg (·.delete key.value) hinv.same, hinv.agree⟩
  | getResult key now =>
      obtain ⟨-, hnext⟩ := Option.ite_none_right_eq_some.mp hstep
      cases hnext
      refine ⟨hinv.same, List.forall_mem_append.mpr ⟨hinv.agree, ?_⟩⟩
      exact List.forall_mem_singleton.mpr (congrArg Answer.result
        ((getResult_eq_iff hinv.same).mpr hasked))

theorem not_agree_of_step (hinv : Invariant state)
    (hnot : ¬ AskedAlike state label)
    (hstep : Testing.step state label = some next) : ¬ Agree next := by
  intro hagree
  apply hnot
  cases label with
  | tryAcquire key ttlMs checkedAt lockedAt =>
      obtain ⟨-, hnext⟩ := Option.ite_none_right_eq_some.mp hstep
      cases hnext
      intro entry hentry hinstant
      obtain ⟨hfake, hstore⟩ := tryAcquire_at_expiry ttlMs lockedAt
        hinv.same hentry hinstant
      have hlast := hagree _ (List.mem_append_right _ List.mem_cons_self)
      have hsame := (hfake.symm.trans (Answer.acquired.inj hlast)).trans hstore
      cases hsame
  | getResult key now =>
      obtain ⟨-, hnext⟩ := Option.ite_none_right_eq_some.mp hstep
      cases hnext
      have hlast := hagree _ (List.mem_append_right _ List.mem_cons_self)
      exact (getResult_eq_iff hinv.same).mp (Answer.result.inj hlast)
  | storeResult key result ttlMs now => trivial
  | release key => trivial

/-- The fake and the store give the same answers in every state of a run if
and only if the run nowhere asks for what they answer differently. -/
theorem agree_iff_askedAlike {labels : List (Label T)}
    (hrun : exec step (State.initial T now) labels = some state) :
    Throughout step Agree (State.initial T now) labels ↔
      StepsMeet step AskedAlike (State.initial T now) labels :=
  throughout_iff_stepsMeet (I := Invariant)
    (fun _ hinv => hinv.agree)
    (fun _ _ _ hinv hasked hstep => hinv.step hasked hstep)
    (fun _ _ _ hinv hnot hstep => not_agree_of_step hinv hnot hstep)
    (invariant_initial now) hrun

/-- A job that is locked for a second, and then gets its result for one. -/
def locked (before : List (Label ℕ)) : List (Label ℕ) :=
  .tryAcquire ⟨"job"⟩ 1000 0 0 :: before ++
    [.storeResult ⟨"job"⟩ (.defined 7) 1000 1500]

theorem agree_iff_askedAlike_samples :
    Throughout step Agree (State.initial ℕ 0)
        (locked [.tryAcquire ⟨"job"⟩ 1000 500 500,
          .getResult ⟨"job"⟩ 1200] ++ [.getResult ⟨"job"⟩ 2500]) ∧
      ¬ Throughout step Agree (State.initial ℕ 0)
        (locked [] ++ [.getResult ⟨"job"⟩ 2501]) := by
  have halike : (exec step (State.initial ℕ 0)
      (locked [.tryAcquire ⟨"job"⟩ 1000 500 500,
        .getResult ⟨"job"⟩ 1200] ++ [.getResult ⟨"job"⟩ 2500])).isSome := by
    decide +kernel
  have hexpired : (exec step (State.initial ℕ 0)
      (locked [] ++ [.getResult ⟨"job"⟩ 2501])).isSome := by
    decide +kernel
  obtain ⟨_, halike⟩ := Option.isSome_iff_exists.mp halike
  obtain ⟨_, hexpired⟩ := Option.isSome_iff_exists.mp hexpired
  constructor
  · apply (agree_iff_askedAlike halike).mpr
    decide +kernel
  · intro hagree
    have hmeet := (agree_iff_askedAlike hexpired).mp hagree
    exact absurd hmeet (by decide +kernel)

def Disagree (labels : List (Label ℕ)) : Prop :=
  ∃ state, exec step (State.initial ℕ 0) labels = some state ∧ ¬ Agree state

theorem disagree_of_answers {labels : List (Label ℕ)}
    (hanswers : (exec step (State.initial ℕ 0) labels).any (fun state =>
      state.answers.any fun pair => pair.1 ≠ pair.2) = true) :
    Disagree labels := by
  obtain ⟨state, hrun, hdiffers⟩ := (Option.any_eq_true _ _).mp hanswers
  obtain ⟨pair, hpair, hne⟩ := List.any_eq_true.mp hdiffers
  exact ⟨state, hrun, fun hagree =>
    of_decide_eq_true hne (hagree pair hpair)⟩

/-- The fake gives a lock away at the instant at which it expires, shows a
result that has expired, and shows none where the store shows `undefined`. -/
theorem not_agree_with_fake :
    Disagree [.tryAcquire ⟨"job"⟩ 1000 0 0,
        .tryAcquire ⟨"job"⟩ 1000 1000 1000] ∧
      Disagree (locked [] ++ [.getResult ⟨"job"⟩ 2501]) ∧
      Disagree [.storeResult ⟨"job"⟩ .undefined 1000 0,
        .getResult ⟨"job"⟩ 500] := by
  refine ⟨?_, ?_, ?_⟩
  · exact disagree_of_answers (by decide +kernel)
  · exact disagree_of_answers (by decide +kernel)
  · exact disagree_of_answers (by decide +kernel)

end TsCommons.Testing
