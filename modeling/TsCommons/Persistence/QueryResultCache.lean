import TsCommons.Foundations.Execution
import TsCommons.Foundations.InsertionMap
import Mathlib.Algebra.Order.Ring.Rat
import Mathlib.Tactic.Linarith

/-!
# The query result cache

`execute` looks a key up, awaits its factory on a miss, and stores what the
factory resolves with.  Between the two the cache may be invalidated, which
takes out entries but does not reach the factories that are running, so a
value from before the invalidation may be stored after it.
-/

namespace TsCommons.Persistence.QueryResultCache

open Foundations

variable {V : Type}

inductive Invalidation
  | invalidate (key : String)
  | invalidateByPrefix (keyPrefix : String)
  | clear
deriving DecidableEq

def startsWith (key keyPrefix : String) : Bool :=
  keyPrefix.toList.isPrefixOf key.toList

def Invalidation.covers : Invalidation → String → Bool
  | .invalidate key, other => other = key
  | .invalidateByPrefix keyPrefix, other => startsWith other keyPrefix
  | .clear, _ => true

/-- `value` is `none` for `undefined`, and `expiresAt` where it is left out or
no finite number.  `startedAt` is the number of invalidations done when the
factory of the value started. -/
structure CacheEntry (V : Type) where
  value : Option V
  expiresAt : Option ℚ
  startedAt : ℕ
deriving DecidableEq

/-- A call of `execute` that awaits its factory. -/
structure Call where
  key : String
  ttlMs : Option ℚ
  startedAt : ℕ
deriving DecidableEq

/-- What a call has returned: `calledAt` and `startedAt` are the numbers of
invalidations done when the call and the factory of the value started. -/
structure Answer (V : Type) where
  key : String
  value : Option V
  calledAt : ℕ
  startedAt : ℕ
deriving DecidableEq

structure State (V : Type) where
  store : InsertionMap String (CacheEntry V)
  now : ℚ
  running : List Call
  answers : List (Answer V)
  invalidations : List Invalidation

def State.initial : State V := ⟨.empty, 0, [], [], []⟩

/-- `Date.now() > entry.expiresAt`, false without an expiry. -/
def CacheEntry.expired (entry : CacheEntry V) (now : ℚ) : Bool :=
  match entry.expiresAt with
  | none => false
  | some expiresAt => now > expiresAt

namespace State

/-- The entry whose value is found, and the state afterwards. -/
def lookup (state : State V) (key : String) :
    Option (CacheEntry V) × State V :=
  match state.store.get key with
  | none => (none, state)
  | some entry =>
      if entry.expired state.now then
        (none, { state with store := state.store.delete key })
      else (some entry, state)

/-- The value that a lookup returns, with the time its factory started. -/
def found (state : State V) (key : String) : Option (V × ℕ) :=
  (state.lookup key).1.bind fun entry =>
    entry.value.map fun value => (value, entry.startedAt)

/-- The part of `execute` before it awaits its factory. -/
def execute (state : State V) (key : String) (ttlMs : Option ℚ) : State V :=
  let calledAt := state.invalidations.length
  match state.found key with
  | some (value, startedAt) =>
      { (state.lookup key).2 with
        answers := state.answers ++ [⟨key, some value, calledAt, startedAt⟩] }
  | none =>
      { (state.lookup key).2 with
        running := state.running ++ [⟨key, ttlMs, calledAt⟩] }

def Call.entry (call : Call) (value : Option V) (now : ℚ) : CacheEntry V where
  value := value
  expiresAt := call.ttlMs.map fun ttlMs => now + ttlMs
  startedAt := call.startedAt

/-- The part of `execute` after its factory resolved. -/
def resolve (state : State V) (call : Call) (value : Option V) : State V :=
  { state with
    running := state.running.erase call
    store := state.store.set call.key (Call.entry call value state.now)
    answers :=
      state.answers ++ [⟨call.key, value, call.startedAt, call.startedAt⟩] }

def reject (state : State V) (call : Call) : State V :=
  { state with running := state.running.erase call }

def invalidate (state : State V) (key : String) : State V :=
  { state with
    store := state.store.delete key
    invalidations := state.invalidations ++ [.invalidate key] }

/-- The loop deletes the keys with the prefix while it runs over them. -/
def invalidateByPrefix (state : State V) (keyPrefix : String) : State V :=
  { state with
    store := state.store.filter fun key _ => !startsWith key keyPrefix
    invalidations :=
      state.invalidations ++ [.invalidateByPrefix keyPrefix] }

def clear (state : State V) : State V :=
  { state with
    store := .empty
    invalidations := state.invalidations ++ [.clear] }

def size (state : State V) : ℕ := state.store.size

/-- The answer, and the state after the lookup. -/
def has (state : State V) (key : String) : Bool × State V :=
  ((state.found key).isSome, (state.lookup key).2)

/-- No invalidation that covers the key lies between the start of the factory
and that of the call. -/
def Fresh (state : State V) (answer : Answer V) : Prop :=
  ∀ invalidation ∈
      (state.invalidations.take answer.calledAt).drop answer.startedAt,
    invalidation.covers answer.key = false

end State

inductive Label (V : Type)
  | execute (key : String) (ttlMs : Option ℚ)
  | resolve (call : Call) (value : Option V)
  | reject (call : Call)
  | invalidate (key : String)
  | invalidateByPrefix (keyPrefix : String)
  | clear
  | has (key : String)
  | tick (elapsed : ℚ)
deriving DecidableEq

def step (state : State V) : Label V → Option (State V)
  | .execute key ttlMs => some (state.execute key ttlMs)
  | .resolve call value =>
      if call ∈ state.running then some (state.resolve call value) else none
  | .reject call =>
      if call ∈ state.running then some (state.reject call) else none
  | .invalidate key => some (state.invalidate key)
  | .invalidateByPrefix keyPrefix =>
      some (state.invalidateByPrefix keyPrefix)
  | .clear => some state.clear
  | .has key => some (state.has key).2
  | .tick elapsed =>
      if 0 ≤ elapsed then some { state with now := state.now + elapsed }
      else none

/-- No invalidation that covers the key was done since the factory started. -/
def State.Current (state : State V) (key : String) (startedAt : ℕ) : Prop :=
  ∀ invalidation ∈ state.invalidations.drop startedAt,
    invalidation.covers key = false

/-- No call has returned a value whose factory was started before an
invalidation of its key that was done when the call started, and neither does
a call that starts now. -/
structure InvalidationLaw (state : State V) : Prop where
  answered : ∀ answer ∈ state.answers, state.Fresh answer
  served : ∀ key ttlMs, ∀ answer ∈ (state.execute key ttlMs).answers,
    (state.execute key ttlMs).Fresh answer

/-- A factory that resolves after its key was invalidated leaves nothing to be
found: its value is `undefined`, or its time to live is negative. -/
def NoStaleStore (state : State V) : Label V → Prop
  | .resolve call value =>
      value.isNone ∨ (∃ ttlMs ∈ call.ttlMs, ttlMs < 0) ∨
        state.Current call.key call.startedAt
  | _ => True

instance NoStaleStore.decidable (state : State V) :
    (label : Label V) → Decidable (NoStaleStore state label)
  | .resolve call value =>
      inferInstanceAs (Decidable (
        value.isNone ∨ (∃ ttlMs ∈ call.ttlMs, ttlMs < 0) ∨
          ∀ invalidation ∈ state.invalidations.drop call.startedAt,
            invalidation.covers call.key = false))
  | .execute _ _ => inferInstanceAs (Decidable True)
  | .reject _ => inferInstanceAs (Decidable True)
  | .invalidate _ => inferInstanceAs (Decidable True)
  | .invalidateByPrefix _ => inferInstanceAs (Decidable True)
  | .clear => inferInstanceAs (Decidable True)
  | .has _ => inferInstanceAs (Decidable True)
  | .tick _ => inferInstanceAs (Decidable True)

variable {state next : State V} {key : String} {value : V} {startedAt : ℕ}
  {entry : CacheEntry V} {call : Call}

/-! ## Lookups -/

theorem lookup_cases (state : State V) (key : String) :
    (state.lookup key).2 = state ∨
      (state.lookup key).2 =
        { state with store := state.store.delete key } := by
  unfold State.lookup
  split
  · exact .inl rfl
  · split
    · exact .inr rfl
    · exact .inl rfl

@[simp] theorem lookup_now : (state.lookup key).2.now = state.now := by
  rcases lookup_cases state key with hsame | hdeleted
  · rw [hsame]
  · rw [hdeleted]

@[simp] theorem lookup_invalidations :
    (state.lookup key).2.invalidations = state.invalidations := by
  rcases lookup_cases state key with hsame | hdeleted
  · rw [hsame]
  · rw [hdeleted]

@[simp] theorem lookup_running :
    (state.lookup key).2.running = state.running := by
  rcases lookup_cases state key with hsame | hdeleted
  · rw [hsame]
  · rw [hdeleted]

@[simp] theorem lookup_answers :
    (state.lookup key).2.answers = state.answers := by
  rcases lookup_cases state key with hsame | hdeleted
  · rw [hsame]
  · rw [hdeleted]

theorem get_of_get_lookup {other : String}
    (hget : (state.lookup key).2.store.get other = some entry) :
    state.store.get other = some entry := by
  rcases lookup_cases state key with hsame | hdeleted
  · rwa [hsame] at hget
  · rw [hdeleted, InsertionMap.get_delete] at hget
    by_cases heq : other = key
    · rw [if_pos heq] at hget
      cases hget
    · rwa [if_neg heq] at hget

theorem found_eq_some_iff :
    state.found key = some (value, startedAt) ↔
      ∃ entry, state.store.get key = some entry ∧
        entry.expired state.now = false ∧ entry.value = some value ∧
          entry.startedAt = startedAt := by
  unfold State.found State.lookup
  cases hget : state.store.get key with
  | none => simp
  | some entry =>
      cases hexpired : entry.expired state.now with
      | true => simp [hexpired]
      | false => simp [hexpired]

theorem expired_mono {earlier later : ℚ} (hle : earlier ≤ later)
    (hexpired : entry.expired earlier = true) :
    entry.expired later = true := by
  unfold CacheEntry.expired at hexpired ⊢
  cases hexpires : entry.expiresAt with
  | none => simp [hexpires] at hexpired
  | some expiresAt =>
      simp only [hexpires, gt_iff_lt, decide_eq_true_eq] at hexpired ⊢
      exact lt_of_lt_of_le hexpired hle

/-! ## Entries that are served -/

/-- An entry whose value may be found is no older than the last invalidation
of its key. -/
structure Invariant (state : State V) : Prop where
  current : ∀ key entry, state.store.get key = some entry →
    entry.value.isSome → entry.expired state.now = false →
      state.Current key entry.startedAt
  started : ∀ call ∈ state.running,
    call.startedAt ≤ state.invalidations.length
  called : ∀ answer ∈ state.answers,
    answer.calledAt ≤ state.invalidations.length
  fresh : ∀ answer ∈ state.answers, state.Fresh answer

theorem invariant_initial : Invariant (State.initial : State V) := by
  constructor <;> simp [State.initial]

theorem Invariant.lookup (hinv : Invariant state) (key : String) :
    Invariant (state.lookup key).2 := by
  refine ⟨?_, ?_, ?_, ?_⟩
  · intro other entry hget hvalue hexpired
    rw [lookup_now] at hexpired
    have hcurrent := hinv.current other entry (get_of_get_lookup hget) hvalue
      hexpired
    simpa only [State.Current, lookup_invalidations] using hcurrent
  · simpa only [lookup_running, lookup_invalidations] using hinv.started
  · simpa only [lookup_answers, lookup_invalidations] using hinv.called
  · simpa only [State.Fresh, lookup_answers, lookup_invalidations]
      using hinv.fresh

/-- A call that starts now is answered freshly if and only if its value is
current. -/
theorem fresh_now_iff {answer : Answer V}
    (hcalled : answer.calledAt = state.invalidations.length) :
    state.Fresh answer ↔ state.Current answer.key answer.startedAt := by
  rw [State.Fresh, hcalled, List.take_length, State.Current]

theorem Invariant.found_current (hinv : Invariant state)
    (hfound : state.found key = some (value, startedAt)) :
    state.Current key startedAt := by
  obtain ⟨entry, hget, hexpired, hvalue, rfl⟩ := found_eq_some_iff.mp hfound
  exact hinv.current key entry hget (by rw [hvalue]; rfl) hexpired

theorem Invariant.execute (hinv : Invariant state) (key : String)
    (ttlMs : Option ℚ) : Invariant (state.execute key ttlMs) := by
  have hlookup := hinv.lookup key
  unfold State.execute
  cases hfound : state.found key with
  | none =>
      refine ⟨hlookup.current, ?_, hlookup.called, hlookup.fresh⟩
      intro call hcall
      rw [lookup_invalidations]
      rcases List.mem_append.mp hcall with hold | hnew
      · exact hinv.started call hold
      · rw [List.mem_singleton.mp hnew]
  | some answer =>
      obtain ⟨value, startedAt⟩ := answer
      refine ⟨hlookup.current, hlookup.started, ?_, ?_⟩
      · intro answer hanswer
        rw [lookup_invalidations]
        rcases List.mem_append.mp hanswer with hold | hnew
        · exact hinv.called answer hold
        · rw [List.mem_singleton.mp hnew]
      · intro answer hanswer
        simp only [State.Fresh, lookup_invalidations]
        rcases List.mem_append.mp hanswer with hold | hnew
        · exact hinv.fresh answer hold
        · rw [List.mem_singleton.mp hnew]
          exact (fresh_now_iff rfl).mpr (hinv.found_current hfound)

theorem Invariant.resolve (hinv : Invariant state) {value : Option V}
    (hcall : call ∈ state.running)
    (hnone : NoStaleStore state (.resolve call value)) :
    Invariant (state.resolve call value) := by
  refine ⟨?_, ?_, ?_, ?_⟩
  · intro key entry hget hvalue hexpired
    simp only [State.resolve, InsertionMap.get_set] at hget hexpired
    by_cases hkey : key = call.key
    · rw [if_pos hkey, Option.some.injEq] at hget
      subst entry key
      rcases hnone with hundefined | ⟨ttlMs, httl, hneg⟩ | hcurrent
      · rw [State.Call.entry, Option.isSome_iff_ne_none] at hvalue
        exact absurd (Option.isNone_iff_eq_none.mp hundefined) hvalue
      · have hover : state.now > state.now + ttlMs := by linarith
        simp [CacheEntry.expired, State.Call.entry,
          Option.mem_def.mp httl] at hexpired
        exact absurd hneg (not_lt.mpr hexpired)
      · exact hcurrent
    · rw [if_neg hkey] at hget
      exact hinv.current key entry hget hvalue hexpired
  · exact fun other hother => hinv.started other (List.mem_of_mem_erase hother)
  · intro answer hanswer
    rcases List.mem_append.mp hanswer with hold | hnew
    · exact hinv.called answer hold
    · rw [List.mem_singleton.mp hnew]
      exact hinv.started call hcall
  · intro answer hanswer
    rcases List.mem_append.mp hanswer with hold | hnew
    · exact hinv.fresh answer hold
    · rw [List.mem_singleton.mp hnew]
      intro invalidation hmem
      simp at hmem

theorem Invariant.reject (hinv : Invariant state) (call : Call) :
    Invariant (state.reject call) := by
  refine ⟨hinv.current, ?_, hinv.called, hinv.fresh⟩
  exact fun other hother => hinv.started other (List.mem_of_mem_erase hother)

theorem Invariant.tick (hinv : Invariant state) {elapsed : ℚ}
    (helapsed : 0 ≤ elapsed) :
    Invariant { state with now := state.now + elapsed } := by
  refine ⟨?_, hinv.started, hinv.called, hinv.fresh⟩
  intro key entry hget hvalue hexpired
  apply hinv.current key entry hget hvalue
  by_contra hnot
  rw [Bool.not_eq_false] at hnot
  have hlater := expired_mono (le_add_of_nonneg_right helapsed) hnot
  rw [hlater] at hexpired
  cases hexpired

theorem Invariant.invalidated (hinv : Invariant state)
    {store : InsertionMap String (CacheEntry V)} {invalidation : Invalidation}
    (hkept : ∀ key entry, store.get key = some entry →
      state.store.get key = some entry ∧ invalidation.covers key = false) :
    Invariant { state with
      store := store
      invalidations := state.invalidations ++ [invalidation] } := by
  refine ⟨?_, ?_, ?_, ?_⟩
  · intro key entry hget hvalue hexpired other hother
    obtain ⟨hold, huncovered⟩ := hkept key entry hget
    rw [List.drop_append] at hother
    rcases List.mem_append.mp hother with hbefore | hnew
    · exact hinv.current key entry hold hvalue hexpired other hbefore
    · rw [List.mem_singleton.mp (List.mem_of_mem_drop hnew)]
      exact huncovered
  · intro call hcall
    rw [List.length_append]
    exact Nat.le_add_right_of_le (hinv.started call hcall)
  · intro answer hanswer
    rw [List.length_append]
    exact Nat.le_add_right_of_le (hinv.called answer hanswer)
  · intro answer hanswer
    rw [State.Fresh,
      List.take_append_of_le_length (hinv.called answer hanswer)]
    exact hinv.fresh answer hanswer

theorem Invariant.invalidate (hinv : Invariant state) (key : String) :
    Invariant (state.invalidate key) := by
  apply hinv.invalidated
  intro other entry hget
  rw [InsertionMap.get_delete] at hget
  by_cases heq : other = key
  · rw [if_pos heq] at hget
    cases hget
  · rw [if_neg heq] at hget
    exact ⟨hget, decide_eq_false heq⟩

theorem Invariant.invalidateByPrefix (hinv : Invariant state)
    (keyPrefix : String) : Invariant (state.invalidateByPrefix keyPrefix) := by
  apply hinv.invalidated
  intro key entry hget
  have hmem := InsertionMap.get_eq_some_iff.mp hget
  obtain ⟨hstored, hout⟩ := List.mem_filter.mp hmem
  exact ⟨InsertionMap.get_eq_some_iff.mpr hstored, 
    by simpa [Invalidation.covers] using hout⟩

theorem Invariant.clear (hinv : Invariant state) : Invariant state.clear := by
  apply hinv.invalidated
  intro key entry hget
  cases hget

theorem Invariant.step (hinv : Invariant state) {label : Label V}
    (hnone : NoStaleStore state label) (hstep : step state label = some next) :
    Invariant next := by
  cases label with
  | execute key ttlMs =>
      cases hstep
      exact hinv.execute key ttlMs
  | resolve call value =>
      simp only [QueryResultCache.step, Option.ite_none_right_eq_some,
        Option.some.injEq] at hstep
      obtain ⟨hcall, rfl⟩ := hstep
      exact hinv.resolve hcall hnone
  | reject call =>
      simp only [QueryResultCache.step, Option.ite_none_right_eq_some,
        Option.some.injEq] at hstep
      obtain ⟨-, rfl⟩ := hstep
      exact hinv.reject call
  | invalidate key =>
      cases hstep
      exact hinv.invalidate key
  | invalidateByPrefix keyPrefix =>
      cases hstep
      exact hinv.invalidateByPrefix keyPrefix
  | clear =>
      cases hstep
      exact hinv.clear
  | has key =>
      cases hstep
      exact hinv.lookup key
  | tick elapsed =>
      simp only [QueryResultCache.step, Option.ite_none_right_eq_some,
        Option.some.injEq] at hstep
      obtain ⟨helapsed, rfl⟩ := hstep
      exact hinv.tick helapsed

/-! ## The law -/

theorem Invariant.law (hinv : Invariant state) : InvalidationLaw state :=
  ⟨hinv.fresh, fun key ttlMs => (hinv.execute key ttlMs).fresh⟩

theorem InvalidationLaw.found_current (hlaw : InvalidationLaw state)
    (hfound : state.found key = some (value, startedAt)) :
    state.Current key startedAt := by
  have hserved := hlaw.served key none
  have hexecute : state.execute key none =
      { (state.lookup key).2 with
        answers := state.answers ++
          [⟨key, some value, state.invalidations.length, startedAt⟩] } := by
    simp only [State.execute, hfound]
  rw [hexecute] at hserved
  have hfresh := hserved _ (List.mem_append_right _ List.mem_cons_self)
  have hcurrent := (fresh_now_iff (by simp)).mp hfresh
  simpa only [State.Current, lookup_invalidations] using hcurrent

/-- What is stored although its key was invalidated is served by the next
call. -/
theorem not_law_of_staleStore {label : Label V}
    (hstale : ¬ NoStaleStore state label)
    (hstep : step state label = some next) : ¬ InvalidationLaw next := by
  cases label with
  | resolve call value =>
      simp only [QueryResultCache.step, Option.ite_none_right_eq_some,
        Option.some.injEq] at hstep
      obtain ⟨-, rfl⟩ := hstep
      simp only [NoStaleStore, not_or] at hstale
      obtain ⟨hvalue, httl, hstale⟩ := hstale
      intro hlaw
      cases value with
      | none => exact hvalue rfl
      | some value =>
          have hexpired : (State.Call.entry call (some value)
              state.now).expired state.now = false := by
            cases hcall : call.ttlMs with
            | none => simp [CacheEntry.expired, State.Call.entry, hcall]
            | some ttlMs =>
                have hnonneg : 0 ≤ ttlMs :=
                  not_lt.mp fun hneg => httl ⟨ttlMs, hcall, hneg⟩
                simpa [CacheEntry.expired, State.Call.entry, hcall]
                  using hnonneg
          have hfound : (state.resolve call (some value)).found call.key =
              some (value, call.startedAt) :=
            found_eq_some_iff.mpr
              ⟨_, InsertionMap.get_set_self _ _ _, hexpired, rfl, rfl⟩
          exact hstale (hlaw.found_current hfound)
  | execute key ttlMs => exact absurd trivial hstale
  | reject call => exact absurd trivial hstale
  | invalidate key => exact absurd trivial hstale
  | invalidateByPrefix keyPrefix => exact absurd trivial hstale
  | clear => exact absurd trivial hstale
  | has key => exact absurd trivial hstale
  | tick elapsed => exact absurd trivial hstale

/-- No call is answered with a value from before an invalidation of its key,
in any state of the run and by any call that starts there, if and only if no
factory that leaves a value to be found resolves after its key was
invalidated. -/
theorem invalidationLaw_iff_noStaleStore {labels : List (Label V)}
    (hrun : exec step State.initial labels = some state) :
    Throughout step InvalidationLaw (State.initial : State V) labels ↔
      StepsMeet step NoStaleStore (State.initial : State V) labels :=
  throughout_iff_stepsMeet (fun _ hinv => hinv.law)
    (fun _ _ _ hinv hnone hstep => hinv.step hnone hstep)
    (fun _ _ _ _ hstale hstep => not_law_of_staleStore hstale hstep)
    invariant_initial hrun

/-- An invalidation of another key while the factory runs. -/
def invalidateOther : List (Label ℕ) :=
  [.execute "user:1" (some 60000), .invalidate "user:2",
    .resolve ⟨"user:1", some 60000, 0⟩ (some 1), .tick 5,
    .execute "user:1" none, .invalidateByPrefix "user:",
    .execute "user:1" none, .resolve ⟨"user:1", none, 2⟩ (some 2)]

/-- An invalidation of the key while the factory runs. -/
def invalidateRunning : List (Label ℕ) :=
  [.execute "user:1" (some 60000), .invalidate "user:1",
    .resolve ⟨"user:1", some 60000, 0⟩ (some 1)]

theorem invalidationLaw_iff_noStaleStore_samples :
    Throughout step InvalidationLaw State.initial invalidateOther ∧
      ¬ Throughout step InvalidationLaw State.initial invalidateRunning := by
  have hother : (exec step State.initial invalidateOther).isSome := by
    decide +kernel
  have hrunning : (exec step State.initial invalidateRunning).isSome := by
    decide +kernel
  obtain ⟨_, hother⟩ := Option.isSome_iff_exists.mp hother
  obtain ⟨_, hrunning⟩ := Option.isSome_iff_exists.mp hrunning
  constructor
  · apply (invalidationLaw_iff_noStaleStore hother).mpr
    decide +kernel
  · intro hlaw
    have hmeet := (invalidationLaw_iff_noStaleStore hrunning).mp hlaw
    exact absurd hmeet (by decide +kernel)

/-- The second call starts after the invalidation and returns the value of the
factory that was running then. -/
theorem not_invalidationLaw_invalidateRunning :
    ∃ state next : State ℕ,
      exec step State.initial invalidateRunning = some state ∧
      step state (.execute "user:1" none) = some next ∧
      next.invalidations = [.invalidate "user:1"] ∧
      ⟨"user:1", some 1, 1, 0⟩ ∈ next.answers ∧
      ¬ InvalidationLaw next := by
  refine ⟨_, _, rfl, rfl, by decide +kernel, by decide +kernel, ?_⟩
  intro hlaw
  have hfresh := hlaw.answered ⟨"user:1", some 1, 1, 0⟩ (by decide +kernel)
  have hcovered := hfresh (.invalidate "user:1") (by decide +kernel)
  exact absurd hcovered (by decide +kernel)

end TsCommons.Persistence.QueryResultCache
