import TsCommons.Idempotency.ExactlyOnce

/-!
# Who owns the lock that a failed call releases

`release` deletes by key, not by holder.  It deletes the caller's own lock as
long as nobody acquires the key over the head of a call that is still between
its acquisition and its store or release; once somebody does, the run can
always go on to a release that deletes somebody else's lock or result.
-/

namespace TsCommons.Idempotency

open Foundations

variable {T E : Type}

namespace IdempotentUseCase

/-- Whatever entry the call would delete is a lock that it wrote itself. -/
def ReleasesOwnLock (useCase : IdempotentUseCase) (state : State T E)
    (call : ℕ) : Prop :=
  ∀ entry, state.store.entryOf (useCase.keyOf call) = some entry →
    entry.result = none ∧ state.writer (useCase.keyOf call) = some call

/-- An attempt to acquire that succeeds finds no call of its key between its
own acquisition and its store or release. -/
def TakesOverNothing (useCase : IdempotentUseCase) (state : State T E) :
    Label T E → Prop
  | .tryAcquire call lockedAt =>
      (state.store.tryAcquire (useCase.keyOf call) useCase.ttlMs state.clock
        lockedAt).1 = true →
        ∀ other, useCase.keyOf other = useCase.keyOf call →
          ¬ (state.calls other).Holds
  | _ => True

/-- A key has at most one holder, and its entry, if any, is the lock that the
holder wrote. -/
structure OwnerInvariant (useCase : IdempotentUseCase)
    (state : State T E) : Prop where
  unique : ∀ call other, (state.calls call).Holds →
    (state.calls other).Holds →
      useCase.keyOf call = useCase.keyOf other → call = other
  own : ∀ call, (state.calls call).Holds → useCase.ReleasesOwnLock state call

variable {useCase : IdempotentUseCase} {state next : State T E}

theorem initial_ownerInvariant (useCase : IdempotentUseCase) (now : ℚ)
    (metrics : Option IdempotencyMetrics) :
    useCase.OwnerInvariant (State.initial now metrics : State T E) := by
  constructor <;> simp [State.initial, Progress.Holds]

theorem OwnerInvariant.keepsLocks (hinv : useCase.OwnerInvariant state)
    (hkeeps : KeepsLocks state next) : useCase.OwnerInvariant next where
  unique := by
    intro call other hcall hother
    exact hinv.unique call other (hkeeps.holds call hcall)
      (hkeeps.holds other hother)
  own := by
    intro call hcall entry hentry
    rw [hkeeps.writer]
    exact hinv.own call (hkeeps.holds call hcall) entry
      (hkeeps.entry_of_next _ _ hentry)

theorem OwnerInvariant.acquires (hinv : useCase.OwnerInvariant state)
    {call : ℕ} (hacquires : Acquires useCase state next call)
    (hfree : ∀ other, useCase.keyOf other = useCase.keyOf call →
      ¬ (state.calls other).Holds) :
    useCase.OwnerInvariant next := by
  have hkey : ∀ other, other ≠ call → (next.calls other).Holds →
      (state.calls other).Holds ∧
        useCase.keyOf other ≠ useCase.keyOf call := by
    intro other hne hholds
    rw [hacquires.calls, Function.update_of_ne hne] at hholds
    exact ⟨hholds, fun hkey => hfree other hkey hholds⟩
  constructor
  · intro first second hfirst hsecond heq
    by_cases hfirstCall : first = call
    · subst first
      by_contra hne
      exact (hkey second (Ne.symm hne) hsecond).2 heq.symm
    · obtain ⟨hfirstHolds, hfirstKey⟩ := hkey first hfirstCall hfirst
      have hsecondCall : second ≠ call := by
        intro hcall
        subst second
        exact hfirstKey heq
      exact hinv.unique first second hfirstHolds
        (hkey second hsecondCall hsecond).1 heq
  · intro other hholds entry hentry
    rw [hacquires.entry] at hentry
    rw [hacquires.writer]
    by_cases hother : other = call
    · subst other
      simp only [if_true, Option.some.injEq] at hentry
      subst entry
      simp
    · obtain ⟨hbefore, hne⟩ := hkey other hother hholds
      rw [if_neg hne] at hentry
      rw [Function.update_of_ne hne]
      exact hinv.own other hbefore entry hentry

theorem OwnerInvariant.leaves (hinv : useCase.OwnerInvariant state)
    {call : ℕ} (hleaves : Leaves useCase state next call) :
    useCase.OwnerInvariant next := by
  have hkey : ∀ other, (next.calls other).Holds →
      (state.calls other).Holds ∧
        useCase.keyOf other ≠ useCase.keyOf call := by
    intro other hholds
    have hne := hleaves.ne_of_next_holds hholds
    rw [hleaves.calls other hne] at hholds
    refine ⟨hholds, fun hkey => hne ?_⟩
    exact hinv.unique other call hholds
      (Progress.Works.holds hleaves.works) hkey
  constructor
  · intro first second hfirst hsecond
    exact hinv.unique first second (hkey first hfirst).1
      (hkey second hsecond).1
  · intro other hholds entry hentry
    obtain ⟨hbefore, hne⟩ := hkey other hholds
    rw [hleaves.entry _ hne] at hentry
    rw [hleaves.writer _ hne]
    exact hinv.own other hbefore entry hentry

theorem OwnerInvariant.step {label : Label T E}
    (hinv : useCase.OwnerInvariant state)
    (htakes : useCase.TakesOverNothing state label)
    (hstep : useCase.step state label = some next) :
    useCase.OwnerInvariant next := by
  rcases step_lock_cases hstep with
    hkeeps | ⟨call, lockedAt, rfl, hacquires⟩ | ⟨call, _, hleaves⟩
  · exact hinv.keepsLocks hkeeps
  · refine hinv.acquires hacquires (htakes ?_)
    by_contra hfalse
    obtain ⟨entry, hentry, hlive⟩ :=
      InMemoryIdempotencyStore.tryAcquire_fst_eq_false_iff.mp
        (Bool.eq_false_iff.mpr hfalse)
    exact absurd hlive (not_le.mpr (hacquires.free entry hentry))
  · exact hinv.leaves hleaves

/-- The call can be driven to the release that follows a failure. -/
theorem exists_exec_executed_error (useCase : IdempotentUseCase)
    (state : State T E) (call : ℕ) (error : E)
    (hcall : state.calls call = .acquiring true ∨
      state.calls call = .executing) :
    ∃ labels last, exec useCase.step state labels = some last ∧
      last.calls call = .executed (.error error) ∧
      last.store = state.store ∧ last.writer = state.writer := by
  rcases hcall with hcall | hcall
  · refine ⟨[.innerExecute call, .innerSettles call (.error error)], _,
      exec_cons_eq_some.mpr ⟨_, step_innerExecute.mpr ⟨hcall, rfl⟩,
        exec_singleton_eq_some.mpr
          (step_innerSettles.mpr ⟨?_, rfl⟩)⟩, ?_, rfl, rfl⟩
    · simp [State.advance]
    · simp [State.advance]
  · refine ⟨[.innerSettles call (.error error)], _,
      exec_singleton_eq_some.mpr (step_innerSettles.mpr ⟨hcall, rfl⟩),
      ?_, rfl, rfl⟩
    simp [State.advance]

/-- After an acquisition over the head of a holder, some continuation deletes
what another call wrote. -/
theorem exists_release_of_takeover {call other : ℕ} (error : E)
    (hacquires : Acquires useCase state next call)
    (hkey : useCase.keyOf other = useCase.keyOf call)
    (hholds : (state.calls other).Holds) :
    ∃ labels last failed failure,
      exec useCase.step next labels = some last ∧
      last.calls failed = .executed (.error failure) ∧
      ¬ useCase.ReleasesOwnLock last failed := by
  have hne : other ≠ call := by
    intro heq
    subst other
    simp [hacquires.progress, Progress.Holds] at hholds
  have hother : next.calls other = state.calls other := by
    rw [hacquires.calls, Function.update_of_ne hne]
  have hcall : next.calls call = .acquiring true := by
    rw [hacquires.calls, Function.update_self]
  have hentry := hacquires.entry (useCase.keyOf call)
  rw [if_pos rfl] at hentry
  have hwriter : next.writer (useCase.keyOf call) = some call := by
    rw [hacquires.writer, Function.update_self]
  have hdeletes : ∀ last : State T E, last.store = next.store →
      last.writer = next.writer → ¬ useCase.ReleasesOwnLock last other := by
    intro last hstore hlastWriter hown
    have howner := (hown _ (by rw [hkey, hstore, hentry])).2
    rw [hkey, hlastWriter, hwriter, Option.some.injEq] at howner
    exact hne howner.symm
  cases hprogress : state.calls other with
  | acquiring acquired =>
      have hacquired : acquired = true := by
        simpa [hprogress, Progress.Holds] using hholds
      subst acquired
      obtain ⟨labels, last, hrun, hlast, hstore, hlastWriter⟩ :=
        exists_exec_executed_error useCase next other error
          (.inl (by rw [hother, hprogress]))
      exact ⟨labels, last, other, error, hrun, hlast,
        hdeletes last hstore hlastWriter⟩
  | executing =>
      obtain ⟨labels, last, hrun, hlast, hstore, hlastWriter⟩ :=
        exists_exec_executed_error useCase next other error
          (.inr (by rw [hother, hprogress]))
      exact ⟨labels, last, other, error, hrun, hlast,
        hdeletes last hstore hlastWriter⟩
  | executed outcome =>
      cases outcome with
      | error failure =>
          exact ⟨[], next, other, failure, rfl, by rw [hother, hprogress],
            hdeletes next rfl rfl⟩
      | ok result =>
          obtain ⟨stored, hstep⟩ :
              ∃ stored, useCase.step next (.storeResult other) =
                some stored :=
            ⟨_, step_storeResult.mpr ⟨result, by rw [hother, hprogress], rfl⟩⟩
          have hstored : stored.calls call = .acquiring true ∧
              stored.store.entryOf (useCase.keyOf call) =
                some ⟨some result, next.clock + useCase.ttlMs⟩ := by
            obtain ⟨result', hresult', rfl⟩ := step_storeResult.mp hstep
            rw [hother, hprogress] at hresult'
            cases hresult'
            simp [State.advance, Ne.symm hne, hcall, ← hkey,
              InMemoryIdempotencyStore.entryOf_storeResult]
          obtain ⟨labels, last, hrun, hlast, hstore, _⟩ :=
            exists_exec_executed_error useCase stored call error
              (.inl hstored.1)
          refine ⟨.storeResult other :: labels, last, call, error,
            exec_cons_eq_some.mpr ⟨_, hstep, hrun⟩, hlast, fun hown => ?_⟩
          have hresult := (hown _ (by rw [hstore, hstored.2])).1
          contradiction
  | _ => simp [hprogress, Progress.Holds] at hholds

/-- In a run without takeovers a failed call deletes only the lock it wrote
itself; and a run that ends with a takeover can be continued to a release that
deletes what another call wrote. -/
theorem releasesOwnLock_of_takesOverNothing (useCase : IdempotentUseCase)
    (now : ℚ) (metrics : Option IdempotencyMetrics) :
    (∀ (labels : List (Label T E)) (state : State T E),
      exec useCase.step (State.initial now metrics) labels = some state →
      StepsMeet useCase.step useCase.TakesOverNothing
        (State.initial now metrics) labels →
      ∀ call next, useCase.step state (.release call) = some next →
        useCase.ReleasesOwnLock state call ∧
        ∀ key, key ≠ useCase.keyOf call →
          next.store.entryOf key = state.store.entryOf key) ∧
    (∀ (labels : List (Label T E)) (state next : State T E) (label) (_ : E),
      exec useCase.step (State.initial now metrics) labels = some state →
      useCase.step state label = some next →
      ¬ useCase.TakesOverNothing state label →
      ∃ rest last failed failure,
        exec useCase.step next rest = some last ∧
        last.calls failed = .executed (.error failure) ∧
        ¬ useCase.ReleasesOwnLock last failed) := by
  constructor
  · intro labels state hrun hmeet call next hstep
    have hinv : useCase.OwnerInvariant state :=
      exec_invariant_of_stepsMeet
        (fun _ _ _ hinv htakes hstep => hinv.step htakes hstep)
        (initial_ownerInvariant useCase now metrics) hmeet hrun
    have hleaves := leaves_of_release hstep
    exact ⟨hinv.own call (Progress.Works.holds hleaves.works),
      hleaves.entry⟩
  · intro labels state next label error _ hstep htakeover
    cases label with
    | tryAcquire call lockedAt =>
        obtain ⟨hcall, _, rfl⟩ := step_tryAcquire.mp hstep
        simp only [TakesOverNothing, not_forall, not_not] at htakeover
        obtain ⟨hattempt, other, hkey, hholds⟩ := htakeover
        rcases acquire_cases useCase lockedAt hcall with
          hkeeps | hacquires
        · have hnot := hkeeps.holds call
            (by simp [acquire, hattempt, Progress.Holds])
          simp [hcall, Progress.Holds] at hnot
        · exact exists_release_of_takeover error hacquires hkey hholds
    | _ => simp [TakesOverNothing] at htakeover

/-- The inner execution of call 0 outlives its lock, and call 1 acquires the
key meanwhile. -/
def overtaken : List (Label ℕ String) :=
  [.getResult 0, .tryAcquire 0 0, .innerExecute 0, .tick 11, .getResult 1]

/-- Call 0 fails while call 1 still executes. -/
def failsOverLock : List (Label ℕ String) :=
  overtaken ++ [.tryAcquire 1 11, .innerExecute 1,
    .innerSettles 0 (.error "timeout")]

/-- Call 0 fails after call 1 has stored its result. -/
def failsOverResult : List (Label ℕ String) :=
  overtaken ++ [.tryAcquire 1 11, .innerExecute 1, .innerSettles 1 (.ok 8),
    .storeResult 1, .innerSettles 0 (.error "timeout")]

theorem releasesOwnLock_of_takesOverNothing_samples :
    (∃ state next,
      exec sameKey.step fresh
        [.getResult 0, .tryAcquire 0 0, .innerExecute 0,
          .innerSettles 0 (.error "timeout")] = some state ∧
      sameKey.step state (.release 0) = some next ∧
      sameKey.ReleasesOwnLock state 0) ∧
    (∃ state next rest last failed failure,
      exec sameKey.step fresh overtaken = some state ∧
      sameKey.step state (.tryAcquire 1 11) = some next ∧
      exec sameKey.step next rest = some last ∧
      last.calls failed = .executed (.error failure) ∧
      ¬ sameKey.ReleasesOwnLock last failed) := by
  have htheorem :=
    releasesOwnLock_of_takesOverNothing (T := ℕ) (E := String) sameKey 0 none
  constructor
  · have hmeet : StepsMeet sameKey.step sameKey.TakesOverNothing fresh
        [.getResult 0, .tryAcquire 0 0, .innerExecute 0,
          .innerSettles 0 (.error "timeout")] := by
      refine ⟨trivial, fun state hstep => ⟨?_, fun _ _ => ⟨trivial,
        fun _ _ => ⟨trivial, fun _ _ => trivial⟩⟩⟩⟩
      obtain ⟨_, rfl⟩ := step_getResult.mp hstep
      intro _ other _
      by_cases hother : other = 0 <;>
        simp [State.advance, fresh, State.initial, hother, Progress.Holds]
    have hsome : ((exec sameKey.step fresh
        [.getResult 0, .tryAcquire 0 0, .innerExecute 0,
          .innerSettles 0 (.error "timeout")]).map
        fun state => state.calls 0) =
          some (.executed (.error "timeout")) := by
      decide +kernel
    obtain ⟨state, hrun, hcall⟩ := Option.map_eq_some_iff.mp hsome
    have hstep : sameKey.step state (.release 0) = some _ :=
      step_release.mpr ⟨"timeout", hcall, rfl⟩
    exact ⟨state, _, hrun, hstep,
      (htheorem.1 _ state hrun hmeet 0 _ hstep).1⟩
  · have hsome : ((exec sameKey.step fresh overtaken).map fun state =>
        (state.calls 1, decide (state.clock ≤ 11),
          (state.store.tryAcquire (sameKey.keyOf 1) sameKey.ttlMs state.clock
            11).1,
          (state.calls 0).Holds)) =
        some (.gettingResult none, true, true, true) := by
      decide +kernel
    obtain ⟨state, hrun, hfacts⟩ := Option.map_eq_some_iff.mp hsome
    simp only [Prod.mk.injEq, decide_eq_true_eq] at hfacts
    obtain ⟨hcall, hclock, hattempt, hholds⟩ := hfacts
    have hstep : sameKey.step state (.tryAcquire 1 11) = some _ :=
      step_tryAcquire.mpr ⟨hcall, hclock, rfl⟩
    have htakeover :
        ¬ sameKey.TakesOverNothing state (.tryAcquire 1 11) :=
      fun htakes => htakes hattempt 0 rfl hholds
    obtain ⟨rest, last, failed, failure, hlast⟩ :=
      htheorem.2 overtaken state _ _ "timeout" hrun hstep htakeover
    exact ⟨state, _, rest, last, failed, failure, hrun, hstep, hlast⟩

/-- The release of call 0 deletes the lock of call 1 after `failsOverLock`,
and the result that call 1 has stored after `failsOverResult`. -/
theorem release_deletes_what_another_call_wrote :
    ((exec sameKey.step fresh failsOverLock).map fun state =>
        (state.store.entryOf ⟨"order-1"⟩, state.writer ⟨"order-1"⟩)) =
      some (some ⟨none, 21⟩, some 1) ∧
    ((exec sameKey.step fresh (failsOverLock ++ [.release 0])).map fun state =>
        (state.store.entryOf ⟨"order-1"⟩, state.calls 1)) =
      some (none, .executing) ∧
    ((exec sameKey.step fresh failsOverResult).map fun state =>
        (state.store.entryOf ⟨"order-1"⟩, state.writer ⟨"order-1"⟩)) =
      some (some ⟨some 8, 21⟩, some 1) ∧
    ((exec sameKey.step fresh (failsOverResult ++ [.release 0])).map
        fun state => state.store.entryOf ⟨"order-1"⟩) = some none := by
  decide +kernel

end IdempotentUseCase

end TsCommons.Idempotency
