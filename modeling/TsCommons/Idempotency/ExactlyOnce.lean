import TsCommons.Idempotency.UseCase

/-!
# Exactly-once execution

In a run that lets no lock expire under a call at work, at most one call of a
key is at work at any time.  Once such a call has stored its result no other
starts before the result expires, and once it has released its lock the next
acquisition succeeds.  The invariant ties the entry of a key to the call that
holds it while its lock is valid; calls whose lock has expired before they
started are left out of it, since a timely run never lets them start.
-/

namespace TsCommons.Idempotency

open Foundations

variable {T E : Type}

/-- The lock the call acquired last, if any, has not expired. -/
def State.lockValid (state : State T E) (call : ℕ) : Bool :=
  (state.lockedUntil call).all fun deadline => state.clock ≤ deadline

/-- No call is at work past the expiry of the lock it acquired: it has stored
its result, or released the lock after a failure, in time. -/
def Timely (state : State T E) : Prop :=
  ∀ call, (state.calls call).Works → state.lockValid call

/-- The proviso read off the inner executions alone: none runs past the expiry
of its lock, and every result is stored before it; the lock of a failed
execution may be released later. -/
def InnerTimely (state : State T E) : Prop :=
  ∀ call, (state.calls call).OwesResult → state.lockValid call

/-- The call holds a lock that is still valid. -/
def Live (state : State T E) (call : ℕ) : Prop :=
  (state.calls call).Holds ∧
    ∃ deadline, state.lockedUntil call = some deadline ∧
      state.clock ≤ deadline

namespace IdempotentUseCase

structure LockInvariant (useCase : IdempotentUseCase)
    (state : State T E) : Prop where
  known : ∀ call, (state.calls call).Holds →
    ∃ deadline, state.lockedUntil call = some deadline
  locked : ∀ call deadline, (state.calls call).Holds →
    state.lockedUntil call = some deadline → state.clock ≤ deadline →
      state.store.entryOf (useCase.keyOf call) = some ⟨none, deadline⟩
  unique : ∀ call other, Live state call → Live state other →
    useCase.keyOf call = useCase.keyOf other → call = other

variable {useCase : IdempotentUseCase} {state next : State T E}

theorem initial_lockInvariant (useCase : IdempotentUseCase) (now : ℚ)
    (metrics : Option IdempotencyMetrics) :
    useCase.LockInvariant (State.initial now metrics : State T E) := by
  constructor <;> simp [State.initial, Live, Progress.Holds]

theorem LockInvariant.live_of_works (hinv : useCase.LockInvariant state)
    (htimely : Timely state) {call : ℕ} (hworks : (state.calls call).Works) :
    Live state call := by
  have hholds := Progress.Works.holds hworks
  obtain ⟨deadline, hdeadline⟩ := hinv.known call hholds
  have hvalid := htimely call hworks
  refine ⟨hholds, deadline, hdeadline, ?_⟩
  simpa [State.lockValid, hdeadline] using hvalid

theorem KeepsLocks.live_of_next (hkeeps : KeepsLocks state next)
    (hclock : state.clock ≤ next.clock) {call : ℕ} (hlive : Live next call) :
    Live state call := by
  obtain ⟨hholds, deadline, hdeadline, hle⟩ := hlive
  rw [hkeeps.lockedUntil] at hdeadline
  exact ⟨hkeeps.holds call hholds, deadline, hdeadline, hclock.trans hle⟩

theorem Acquires.live_of_next {call other : ℕ}
    (hacquires : Acquires useCase state next call)
    (hclock : state.clock ≤ next.clock) (hne : other ≠ call)
    (hlive : Live next other) : Live state other := by
  obtain ⟨hholds, deadline, hdeadline, hle⟩ := hlive
  rw [hacquires.calls, Function.update_of_ne hne] at hholds
  rw [hacquires.lockedUntil, Function.update_of_ne hne] at hdeadline
  exact ⟨hholds, deadline, hdeadline, hclock.trans hle⟩

theorem Leaves.ne_of_next_holds {call other : ℕ}
    (hleaves : Leaves useCase state next call)
    (hholds : (next.calls other).Holds) : other ≠ call := by
  intro heq
  subst other
  exact hleaves.not_holds hholds

theorem Leaves.live_of_next {call other : ℕ}
    (hleaves : Leaves useCase state next call) (hlive : Live next other) :
    Live state other := by
  obtain ⟨hholds, deadline, hdeadline, hle⟩ := hlive
  have hne := hleaves.ne_of_next_holds hholds
  rw [hleaves.calls other hne] at hholds
  rw [hleaves.lockedUntil] at hdeadline
  rw [hleaves.clock] at hle
  exact ⟨hholds, deadline, hdeadline, hle⟩

/-- An acquisition finds no live holder of its key. -/
theorem LockInvariant.not_live_of_acquires
    (hinv : useCase.LockInvariant state) {call other : ℕ}
    (hacquires : Acquires useCase state next call)
    (hkey : useCase.keyOf other = useCase.keyOf call) :
    ¬ Live state other := by
  rintro ⟨hholds, deadline, hdeadline, hle⟩
  have hentry := hinv.locked other deadline hholds hdeadline hle
  rw [hkey] at hentry
  have hexpired := hacquires.free _ hentry
  exact absurd hle (not_le.mpr hexpired)

/-- A call that leaves in time takes the only live lock of its key with
it. -/
theorem LockInvariant.not_live_of_leaves
    (hinv : useCase.LockInvariant state) (htimely : Timely state)
    {call other : ℕ} (hleaves : Leaves useCase state next call)
    (hkey : useCase.keyOf other = useCase.keyOf call) :
    ¬ Live next other := by
  intro hlive
  have hstate := hleaves.live_of_next hlive
  have hcall := hinv.live_of_works htimely hleaves.works
  have heq := hinv.unique other call hstate hcall hkey
  exact hleaves.ne_of_next_holds hlive.1 heq

theorem LockInvariant.keepsLocks (hinv : useCase.LockInvariant state)
    (hclock : state.clock ≤ next.clock) (hkeeps : KeepsLocks state next) :
    useCase.LockInvariant next where
  known := by
    intro call hholds
    rw [hkeeps.lockedUntil]
    exact hinv.known call (hkeeps.holds call hholds)
  locked := by
    intro call deadline hholds hdeadline hle
    rw [hkeeps.lockedUntil] at hdeadline
    have hentry := hinv.locked call deadline (hkeeps.holds call hholds)
      hdeadline (hclock.trans hle)
    exact hkeeps.entry _ _ hentry hle
  unique := by
    intro call other hcall hother
    exact hinv.unique call other (hkeeps.live_of_next hclock hcall)
      (hkeeps.live_of_next hclock hother)

theorem LockInvariant.acquires (hinv : useCase.LockInvariant state)
    (hclock : state.clock ≤ next.clock) {call : ℕ}
    (hacquires : Acquires useCase state next call) :
    useCase.LockInvariant next := by
  have hnotLive : ∀ other, other ≠ call →
      useCase.keyOf other = useCase.keyOf call → ¬ Live next other := by
    intro other hne hkey hlive
    exact hinv.not_live_of_acquires hacquires hkey
      (hacquires.live_of_next hclock hne hlive)
  constructor
  · intro other hholds
    by_cases heq : other = call
    · subst other
      exact ⟨_, by rw [hacquires.lockedUntil, Function.update_self]⟩
    · rw [hacquires.calls, Function.update_of_ne heq] at hholds
      rw [hacquires.lockedUntil, Function.update_of_ne heq]
      exact hinv.known other hholds
  · intro other deadline hholds hdeadline hle
    rw [hacquires.entry]
    by_cases heq : other = call
    · subst other
      rw [hacquires.lockedUntil, Function.update_self,
        Option.some.injEq] at hdeadline
      simp [hdeadline]
    · have hkey : useCase.keyOf other ≠ useCase.keyOf call :=
        fun hkey => hnotLive other heq hkey ⟨hholds, deadline, hdeadline, hle⟩
      rw [if_neg hkey]
      rw [hacquires.calls, Function.update_of_ne heq] at hholds
      rw [hacquires.lockedUntil, Function.update_of_ne heq] at hdeadline
      exact hinv.locked other deadline hholds hdeadline (hclock.trans hle)
  · intro first second hfirst hsecond hkey
    by_cases hfirstCall : first = call
    · subst first
      by_contra hne
      exact hnotLive second (Ne.symm hne) hkey.symm hsecond
    · by_cases hsecondCall : second = call
      · subst second
        exact absurd hfirst (hnotLive first hfirstCall hkey)
      · exact hinv.unique first second
          (hacquires.live_of_next hclock hfirstCall hfirst)
          (hacquires.live_of_next hclock hsecondCall hsecond) hkey

theorem LockInvariant.leaves (hinv : useCase.LockInvariant state)
    (htimely : Timely state) {call : ℕ}
    (hleaves : Leaves useCase state next call) :
    useCase.LockInvariant next where
  known := by
    intro other hholds
    have hne := hleaves.ne_of_next_holds hholds
    rw [hleaves.calls other hne] at hholds
    rw [hleaves.lockedUntil]
    exact hinv.known other hholds
  locked := by
    intro other deadline hholds hdeadline hle
    have hlive : Live next other := ⟨hholds, deadline, hdeadline, hle⟩
    have hkey : useCase.keyOf other ≠ useCase.keyOf call :=
      fun hkey => hinv.not_live_of_leaves htimely hleaves hkey hlive
    obtain ⟨hholds', deadline', hdeadline', hle'⟩ :=
      hleaves.live_of_next hlive
    rw [hleaves.lockedUntil] at hdeadline
    rw [hleaves.clock] at hle
    rw [hleaves.entry _ hkey]
    exact hinv.locked other deadline hholds' hdeadline hle
  unique := by
    intro first second hfirst hsecond
    exact hinv.unique first second (hleaves.live_of_next hfirst)
      (hleaves.live_of_next hsecond)

theorem LockInvariant.step {label : Label T E}
    (hinv : useCase.LockInvariant state) (htimely : Timely state)
    (hstep : useCase.step state label = some next) :
    useCase.LockInvariant next := by
  have hclock := step_clock_le hstep
  rcases step_lock_cases hstep with
    hkeeps | ⟨call, lockedAt, _, hacquires⟩ | ⟨call, _, hleaves⟩
  · exact hinv.keepsLocks hclock hkeeps
  · exact hinv.acquires hclock hacquires
  · exact hinv.leaves htimely hleaves

theorem LockInvariant.exec {labels : List (Label T E)}
    (hinv : useCase.LockInvariant state)
    (htimely : Throughout useCase.step Timely state labels)
    (hrun : exec useCase.step state labels = some next) :
    useCase.LockInvariant next :=
  exec_invariant_of_throughout
    (fun _ _ _ hinv htimely _ hstep => hinv.step htimely hstep)
    hinv htimely hrun

/-- At most one call of a key is at work. -/
theorem LockInvariant.eq_of_works (hinv : useCase.LockInvariant state)
    (htimely : Timely state) {call other : ℕ}
    (hcall : (state.calls call).Works) (hother : (state.calls other).Works)
    (hkey : useCase.keyOf call = useCase.keyOf other) : call = other :=
  hinv.unique call other (hinv.live_of_works htimely hcall)
    (hinv.live_of_works htimely hother) hkey

/-! ## After a call of the key has left -/

/-- No call holds a valid lock of the key. -/
def Quiet (useCase : IdempotentUseCase) (key : IdempotencyKey)
    (state : State T E) : Prop :=
  ∀ call, useCase.keyOf call = key → ¬ Live state call

theorem Quiet.not_works {key : IdempotencyKey}
    (hquiet : useCase.Quiet key state) (hinv : useCase.LockInvariant state)
    (htimely : Timely state) {call : ℕ} (hkey : useCase.keyOf call = key) :
    ¬ (state.calls call).Works :=
  fun hworks => hquiet call hkey (hinv.live_of_works htimely hworks)

/-- Without an acquisition of the key a quiet key stays quiet, and its entry
changes only by expiring. -/
theorem Quiet.step {key : IdempotencyKey} {label : Label T E}
    (hquiet : useCase.Quiet key state) (hinv : useCase.LockInvariant state)
    (htimely : Timely state)
    (hstep : useCase.step state label = some next)
    (hnone : ∀ call lockedAt, label = .tryAcquire call lockedAt →
      useCase.keyOf call = key → ¬ Acquires useCase state next call) :
    useCase.Quiet key next ∧
      (∀ entry, state.store.entryOf key = some entry →
        next.clock ≤ entry.expiresAt →
          next.store.entryOf key = some entry) ∧
      (∀ entry, next.store.entryOf key = some entry →
        state.store.entryOf key = some entry) := by
  have hclock := step_clock_le hstep
  rcases step_lock_cases hstep with
    hkeeps | ⟨call, lockedAt, hlabel, hacquires⟩ | ⟨call, _, hleaves⟩
  · refine ⟨?_, hkeeps.entry key, hkeeps.entry_of_next key⟩
    intro other hkey hlive
    exact hquiet other hkey (hkeeps.live_of_next hclock hlive)
  · have hcall : useCase.keyOf call ≠ key :=
      fun hcall => hnone call lockedAt hlabel hcall hacquires
    have hentry : next.store.entryOf key = state.store.entryOf key := by
      rw [hacquires.entry, if_neg (Ne.symm hcall)]
    rw [hentry]
    refine ⟨?_, fun _ hbefore _ => hbefore, fun _ => id⟩
    intro other hkey hlive
    have hne : other ≠ call := by
      intro heq
      subst other
      exact hcall hkey
    exact hquiet other hkey (hacquires.live_of_next hclock hne hlive)
  · have hcall : useCase.keyOf call ≠ key :=
      fun hcall => hquiet.not_works hinv htimely hcall hleaves.works
    have hentry : next.store.entryOf key = state.store.entryOf key :=
      hleaves.entry key (Ne.symm hcall)
    rw [hentry]
    refine ⟨?_, fun _ hbefore _ => hbefore, fun _ => id⟩
    intro other hkey hlive
    exact hquiet other hkey (hleaves.live_of_next hlive)

/-- What a call is bound to return after a step it was bound to before, or it
has just read it, or it has just stored it. -/
theorem answer_of_step {label : Label T E} {call : ℕ} {value : T}
    (hstep : useCase.step state label = some next)
    (hanswer : (next.calls call).answer = some value) :
    (state.calls call).answer = some value ∨
      state.store.getResult (useCase.keyOf call) state.clock = some value ∨
      (state.calls call).Works := by
  by_cases hne : label.call = some call
  · cases label with
    | tick now => simp [Label.call] at hne
    | cleanup => simp [Label.call] at hne
    | getResult other =>
        obtain ⟨_, rfl⟩ := step_getResult.mp hstep
        simp only [Label.call, Option.some.injEq] at hne
        subst other
        exact .inr (.inl (by simpa [State.advance, Progress.answer]
          using hanswer))
    | tryAcquire other lockedAt =>
        obtain ⟨_, _, rfl⟩ := step_tryAcquire.mp hstep
        simp only [Label.call, Option.some.injEq] at hne
        subst other
        simp [acquire, Progress.answer] at hanswer
    | getResultAgain other =>
        obtain ⟨_, rfl⟩ := step_getResultAgain.mp hstep
        simp only [Label.call, Option.some.injEq] at hne
        subst other
        exact .inr (.inl (by simpa [State.advance, Progress.answer]
          using hanswer))
    | innerExecute other =>
        obtain ⟨_, rfl⟩ := step_innerExecute.mp hstep
        simp only [Label.call, Option.some.injEq] at hne
        subst other
        simp [State.advance, Progress.answer] at hanswer
    | innerSettles other outcome =>
        obtain ⟨_, rfl⟩ := step_innerSettles.mp hstep
        simp only [Label.call, Option.some.injEq] at hne
        subst other
        simp [State.advance, Progress.answer] at hanswer
    | storeResult other =>
        obtain ⟨_, hcall, rfl⟩ := step_storeResult.mp hstep
        simp only [Label.call, Option.some.injEq] at hne
        subst other
        exact .inr (.inr (by simp [hcall, Progress.Works]))
    | release other =>
        obtain ⟨_, hcall, rfl⟩ := step_release.mp hstep
        simp only [Label.call, Option.some.injEq] at hne
        subst other
        exact .inr (.inr (by simp [hcall, Progress.Works]))
    | settle other =>
        obtain ⟨_, _, hsettle, rfl⟩ := step_settle.mp hstep
        simp only [Label.call, Option.some.injEq] at hne
        subst other
        exact .inl ((Progress.not_holds_of_settle hsettle).2.2 value
          (by simpa [State.advance] using hanswer))
  · rw [step_calls_of_ne hstep hne] at hanswer
    exact .inl hanswer

/-- While the result stored under a key is valid: no call of the key holds a
valid lock, and no call gets an answer other than the stored result. -/
structure Cached (useCase : IdempotentUseCase) (key : IdempotencyKey)
    (result : T) (expiresAt : ℚ) (stored state : State T E) : Prop where
  quiet : useCase.Quiet key state
  entry : state.store.entryOf key = some ⟨some result, expiresAt⟩
  answer : ∀ call value, useCase.keyOf call = key →
    (state.calls call).answer = some value →
      (stored.calls call).answer = some value ∨ value = result

theorem Cached.step {key : IdempotencyKey} {result : T} {expiresAt : ℚ}
    {stored : State T E} {label : Label T E}
    (hcached : useCase.Cached key result expiresAt stored state)
    (hinv : useCase.LockInvariant state) (htimely : Timely state)
    (hstep : useCase.step state label = some next)
    (hvalid : next.clock ≤ expiresAt) :
    useCase.Cached key result expiresAt stored next := by
  have hclock := step_clock_le hstep
  have hnone : ∀ call lockedAt, label = .tryAcquire call lockedAt →
      useCase.keyOf call = key → ¬ Acquires useCase state next call := by
    intro call _ _ hkey hacquires
    have hexpired := hacquires.free ⟨some result, expiresAt⟩
      (by rw [hkey, hcached.entry])
    exact absurd (hclock.trans hvalid) (not_le.mpr hexpired)
  obtain ⟨hquiet, hentry, _⟩ :=
    hcached.quiet.step hinv htimely hstep hnone
  refine ⟨hquiet, hentry _ hcached.entry hvalid, ?_⟩
  intro call value hkey hanswer
  rcases answer_of_step hstep hanswer with hbefore | hread | hworks
  · exact hcached.answer call value hkey hbefore
  · obtain ⟨entry, hget, _, hresult⟩ :=
      InMemoryIdempotencyStore.getResult_eq_some_iff.mp hread
    rw [hkey, hcached.entry, Option.some.injEq] at hget
    subst entry
    exact .inr (Option.some.inj hresult).symm
  · exact absurd hworks (hcached.quiet.not_works hinv htimely hkey)

/-- The state reached by a timely run, with the facts that every step
preserves. -/
theorem exec_cached {key : IdempotencyKey} {result : T} {expiresAt : ℚ}
    {stored : State T E} {labels : List (Label T E)}
    (hcached : useCase.Cached key result expiresAt stored state)
    (hinv : useCase.LockInvariant state)
    (htimely : Throughout useCase.step Timely state labels)
    (hrun : exec useCase.step state labels = some next)
    (hvalid : next.clock ≤ expiresAt) :
    useCase.Cached key result expiresAt stored next := by
  have hall : useCase.LockInvariant next ∧ (next.clock ≤ expiresAt →
      useCase.Cached key result expiresAt stored next) := by
    apply exec_invariant_of_throughout
      (I := fun middle => useCase.LockInvariant middle ∧
        (middle.clock ≤ expiresAt →
          useCase.Cached key result expiresAt stored middle))
      _ ⟨hinv, fun _ => hcached⟩ htimely hrun
    rintro middle label after ⟨hinv, hcached⟩ htimely _ hstep
    refine ⟨hinv.step htimely hstep, fun hvalid => ?_⟩
    have hbefore := (step_clock_le hstep).trans hvalid
    exact (hcached hbefore).step hinv htimely hstep hvalid
  exact hall.2 hvalid

theorem cached_of_storeResult {call : ℕ} {result : T}
    (hinv : useCase.LockInvariant state) (htimely : Timely state)
    (hcall : state.calls call = .executed (.ok result))
    (hstep : useCase.step state (.storeResult call) = some next) :
    useCase.Cached (useCase.keyOf call) result
      (state.clock + useCase.ttlMs) state next := by
  have hleaves := leaves_of_storeResult hstep
  constructor
  · exact fun other hkey => hinv.not_live_of_leaves htimely hleaves hkey
  · obtain ⟨result', hcall', rfl⟩ := step_storeResult.mp hstep
    have heq : result' = result := by simpa [hcall] using hcall'.symm
    simp [InMemoryIdempotencyStore.entryOf_storeResult, heq]
  · intro other value hkey hanswer
    obtain ⟨result', hcall', rfl⟩ := step_storeResult.mp hstep
    have heq : result' = result := by simpa [hcall] using hcall'.symm
    by_cases hother : other = call
    · subst other
      right
      simpa [State.advance, Progress.answer, heq, eq_comm] using hanswer
    · left
      simpa [State.advance, hother] using hanswer

/-- While the lock of a failed call is gone and nobody has acquired since: no
call of the key holds a valid lock, and the key has no entry. -/
structure Released (useCase : IdempotentUseCase) (key : IdempotencyKey)
    (state : State T E) : Prop where
  quiet : useCase.Quiet key state
  entry : state.store.entryOf key = none

theorem released_of_release {call : ℕ}
    (hinv : useCase.LockInvariant state) (htimely : Timely state)
    (hstep : useCase.step state (.release call) = some next) :
    useCase.Released (useCase.keyOf call) next := by
  have hleaves := leaves_of_release hstep
  refine ⟨fun other hkey => hinv.not_live_of_leaves htimely hleaves hkey, ?_⟩
  obtain ⟨error, _, rfl⟩ := step_release.mp hstep
  simp [InMemoryIdempotencyStore.entryOf_release]

theorem Released.step {key : IdempotencyKey} {label : Label T E}
    (hreleased : useCase.Released key state)
    (hinv : useCase.LockInvariant state) (htimely : Timely state)
    (hstep : useCase.step state label = some next)
    (hlabel : ∀ call lockedAt, label = .tryAcquire call lockedAt →
      useCase.keyOf call ≠ key) :
    useCase.Released key next := by
  obtain ⟨hquiet, _, hentry⟩ := hreleased.quiet.step hinv htimely hstep
    (fun call lockedAt heq hkey _ => hlabel call lockedAt heq hkey)
  refine ⟨hquiet, ?_⟩
  rw [Option.eq_none_iff_forall_ne_some]
  intro entry hnext
  have hbefore := hentry entry hnext
  rw [hreleased.entry] at hbefore
  contradiction

theorem exec_released {key : IdempotencyKey} {labels : List (Label T E)}
    (hreleased : useCase.Released key state)
    (hinv : useCase.LockInvariant state)
    (htimely : Throughout useCase.step Timely state labels)
    (hrun : exec useCase.step state labels = some next)
    (hlabels : ∀ call lockedAt, .tryAcquire call lockedAt ∈ labels →
      useCase.keyOf call ≠ key) :
    useCase.Released key next := by
  induction labels generalizing state with
  | nil =>
      cases hrun
      exact hreleased
  | cons label rest ih =>
      obtain ⟨middle, hstep, hrest⟩ := exec_cons_eq_some.mp hrun
      have hmiddle := hreleased.step hinv htimely.1 hstep
        (fun call lockedAt heq => hlabels call lockedAt (by simp [heq]))
      exact ih hmiddle (hinv.step htimely.1 hstep) (htimely.2 middle hstep)
        hrest (fun call lockedAt hmem =>
          hlabels call lockedAt (List.mem_cons_of_mem _ hmem))

/-- Nothing stands in the way of an acquisition of a released key. -/
theorem Released.acquiring_of_step {key : IdempotencyKey} {call : ℕ}
    {lockedAt : ℚ} (hreleased : useCase.Released key state)
    (hkey : useCase.keyOf call = key)
    (hstep : useCase.step state (.tryAcquire call lockedAt) = some next) :
    next.calls call = .acquiring true := by
  obtain ⟨_, _, rfl⟩ := step_tryAcquire.mp hstep
  cases hattempt : (state.store.tryAcquire (useCase.keyOf call)
      useCase.ttlMs state.clock lockedAt).1 with
  | true => simp [acquire, hattempt]
  | false =>
      obtain ⟨entry, hentry, _⟩ :=
        InMemoryIdempotencyStore.tryAcquire_fst_eq_false_iff.mp hattempt
      rw [hkey, hreleased.entry] at hentry
      contradiction

/-- Executions of a key are exactly-once.  (a) No two calls of the key execute
the inner use case at once.  (b) From a stored result on, until it expires, no
inner execution starts, and a call that had no answer when the result was
stored returns nothing else.  (c) The first attempt to acquire a released lock
succeeds. -/
theorem execute_exactly_once (useCase : IdempotentUseCase) (now : ℚ)
    (metrics : Option IdempotencyMetrics) (labels : List (Label T E))
    (state : State T E)
    (hrun : exec useCase.step (State.initial now metrics) labels = some state)
    (htimely : Throughout useCase.step Timely (State.initial now metrics)
      labels) :
    (∀ call other, call ≠ other →
      useCase.keyOf call = useCase.keyOf other →
        ¬ (state.calls call = .executing ∧
          state.calls other = .executing)) ∧
    (∀ before call after stored result,
      labels = before ++ .storeResult call :: after →
      exec useCase.step (State.initial now metrics) before = some stored →
      stored.calls call = .executed (.ok result) →
      state.clock ≤ stored.clock + useCase.ttlMs →
        ∀ other, useCase.keyOf other = useCase.keyOf call →
          .innerExecute other ∉ after ∧
          ∀ value, (stored.calls other).answer = none →
            state.calls other = .returned value → value = result) ∧
    (∀ before call between other lockedAt,
      labels = before ++ .release call :: between ++
        [.tryAcquire other lockedAt] →
      useCase.keyOf other = useCase.keyOf call →
      (∀ third thirdAt, .tryAcquire third thirdAt ∈ between →
        useCase.keyOf third ≠ useCase.keyOf call) →
          state.calls other = .acquiring true) := by
  have hinit := initial_lockInvariant (T := T) (E := E) useCase now metrics
  refine ⟨?_, ?_, ?_⟩
  · rintro call other hne hkey ⟨hcall, hother⟩
    have hinv := hinit.exec htimely hrun
    apply hne
    apply hinv.eq_of_works (htimely.last hrun) _ _ hkey
    · simp [hcall, Progress.Works]
    · simp [hother, Progress.Works]
  · intro before call after stored result hsplit hbefore hcall hvalid
      other hkey
    subst labels
    obtain ⟨_, hbefore', hrest⟩ := exec_append_eq_some.mp hrun
    rw [hbefore, Option.some.injEq] at hbefore'
    subst hbefore'
    obtain ⟨next, hstep, hafter⟩ := exec_cons_eq_some.mp hrest
    have hstored := hinit.exec htimely.append_left hbefore
    have htail := htimely.append_right hbefore
    have hnext := hstored.step htail.1 hstep
    have hcached := cached_of_storeResult hstored htail.1 hcall hstep
    constructor
    · intro hmem
      obtain ⟨first, last, middle, started, rfl, hfirst, hstart, hlast⟩ :=
        exec_split_of_mem hafter hmem
      have hmiddle := hnext.exec (htail.2 next hstep).append_left hfirst
      have htimelyMiddle := (htail.2 next hstep).append_right hfirst
      have hvalidMiddle : middle.clock ≤ stored.clock + useCase.ttlMs :=
        ((step_clock_le hstart).trans (exec_clock_le hlast)).trans hvalid
      have hquiet := (exec_cached hcached hnext
        (htail.2 next hstep).append_left hfirst hvalidMiddle).step
        hmiddle htimelyMiddle.1 hstart
        ((exec_clock_le hlast).trans hvalid)
      apply hquiet.quiet.not_works (hmiddle.step htimelyMiddle.1 hstart)
        (htimelyMiddle.2 started hstart).head hkey
      obtain ⟨_, rfl⟩ := step_innerExecute.mp hstart
      simp [State.advance, Progress.Works]
    · intro value hnone hreturned
      have hlast := exec_cached hcached hnext (htail.2 next hstep) hafter
        hvalid
      have hanswer := hlast.answer other value hkey
        (by simp [hreturned, Progress.answer])
      rcases hanswer with hbound | hresult
      · rw [hnone] at hbound
        contradiction
      · exact hresult
  · intro before call between other lockedAt hsplit hkey hbetween
    subst labels
    obtain ⟨attempted, hrun', hlast⟩ := exec_append_eq_some.mp hrun
    obtain ⟨middle, hbefore, hrest⟩ := exec_append_eq_some.mp hrun'
    obtain ⟨next, hstep, hafter⟩ := exec_cons_eq_some.mp hrest
    have htimely' := htimely.append_left
    have hmiddle := hinit.exec htimely'.append_left hbefore
    have htail := htimely'.append_right hbefore
    have hnext := hmiddle.step htail.1 hstep
    have hreleased := exec_released
      (released_of_release hmiddle htail.1 hstep) hnext
      (htail.2 next hstep) hafter hbetween
    exact hreleased.acquiring_of_step hkey (exec_singleton_eq_some.mp hlast)

/-! ## Concrete schedules -/

/-- A condition on the lock of each call under way need only be checked for
the calls that a run moves. -/
theorem throughout_of_calls_lt (bound : ℕ) {due : Progress T E → Bool}
    (hdue : due .notCalled = false) {labels : List (Label T E)}
    (hidle : ∀ call, bound ≤ call → state.calls call = .notCalled)
    (hlabels : ∀ label ∈ labels, ∀ call, label.call = some call →
      call < bound)
    (hall : Throughout useCase.step
      (fun state => ∀ call < bound, due (state.calls call) →
        state.lockValid call) state labels) :
    Throughout useCase.step
      (fun state => ∀ call, due (state.calls call) → state.lockValid call)
      state labels := by
  have hevery : ∀ state : State T E,
      (∀ call, bound ≤ call → state.calls call = .notCalled) →
      (∀ call < bound, due (state.calls call) → state.lockValid call) →
        ∀ call, due (state.calls call) → state.lockValid call := by
    intro state hidle hbelow call hcall
    by_cases hlt : call < bound
    · exact hbelow call hlt hcall
    · rw [hidle call (not_lt.mp hlt), hdue] at hcall
      contradiction
  induction labels generalizing state with
  | nil => exact hevery state hidle hall
  | cons label rest ih =>
      refine ⟨hevery state hidle hall.1, fun next hstep => ?_⟩
      apply ih _ (fun label hmem => hlabels label (List.mem_cons_of_mem _ hmem))
        (hall.2 next hstep)
      intro call hle
      rw [step_calls_of_ne hstep, hidle call hle]
      intro heq
      exact absurd (hlabels label List.mem_cons_self call heq) (not_lt.mpr hle)

/-- Every call carries one key, with a lifetime of ten milliseconds. -/
def sameKey : IdempotentUseCase where
  ttlMs := 10
  keyOf := fun _ => ⟨"order-1"⟩

def fresh : State ℕ String := .initial 0 none

/-- A call that executes, stores and returns, and a second one that finds the
stored result. -/
def cachedReply : List (Label ℕ String) :=
  [.getResult 0, .tryAcquire 0 0, .innerExecute 0, .innerSettles 0 (.ok 7),
    .storeResult 0, .tick 10, .settle 0, .getResult 1, .settle 1]

theorem execute_exactly_once_cachedReply :
    ∃ state, exec sameKey.step fresh cachedReply = some state ∧
      state.calls 1 = .returned 7 ∧
      ∀ value, state.calls 1 = .returned value → value = 7 := by
  have hsome : ((exec sameKey.step fresh cachedReply).map
      fun state => (state.calls 1, state.clock)) =
        some (.returned 7, 10) := by
    decide +kernel
  obtain ⟨state, hrun, hstate⟩ := Option.map_eq_some_iff.mp hsome
  simp only [Prod.mk.injEq] at hstate
  have htimely : Throughout sameKey.step Timely fresh cachedReply := by
    apply throughout_of_calls_lt 2 rfl (fun _ _ => rfl)
    · decide
    · decide +kernel
  have hstored : ((exec sameKey.step fresh (cachedReply.take 4)).map
      fun state => (state.calls 0, state.calls 1, state.clock)) =
        some (.executed (.ok 7), .notCalled, 0) := by
    decide +kernel
  obtain ⟨stored, hbefore, hfacts⟩ := Option.map_eq_some_iff.mp hstored
  simp only [Prod.mk.injEq] at hfacts
  have hperiod := (execute_exactly_once sameKey 0 none cachedReply state
    hrun htimely).2.1 _ 0 (cachedReply.drop 5) stored 7 rfl hbefore hfacts.1
    (by rw [hstate.2, hfacts.2.2]; decide +kernel) 1 rfl
  refine ⟨state, hrun, hstate.1, fun value hreturned => ?_⟩
  exact hperiod.2 value (by rw [hfacts.2.1]; rfl) hreturned

/-- The second call acquires the expired lock of the first one between its
failure and its release, and loses it to that release. -/
def lateRelease : List (Label ℕ String) :=
  [.getResult 0, .tryAcquire 0 0, .innerExecute 0, .getResult 1, .tick 10,
    .innerSettles 0 (.error "infra-error"), .tick 11, .tryAcquire 1 11,
    .innerExecute 1, .release 0, .getResult 2, .tryAcquire 2 11,
    .innerExecute 2]

/-- The first call reads a result in its last millisecond and resumes after
the second one has stored another. -/
def lateReply : List (Label ℕ String) :=
  [.getResult 0, .tryAcquire 0 0, .innerExecute 0, .innerSettles 0 (.ok 7),
    .storeResult 0, .tick 10, .getResult 1, .tick 11, .getResult 2,
    .tryAcquire 2 11, .innerExecute 2, .innerSettles 2 (.ok 8),
    .storeResult 2, .settle 1]

/-- The second call tries to acquire between the failure of the first one and
its release. -/
def earlyRetry : List (Label ℕ String) :=
  [.getResult 0, .tryAcquire 0 0, .innerExecute 0, .getResult 1,
    .innerSettles 0 (.error "infra-error"), .tryAcquire 1 0]

/-- With the proviso read off the inner executions alone, two of them are in
flight after `lateRelease`; a call returns an earlier result while a later one
is valid after `lateReply`; and the first acquisition after a failure fails
after `earlyRetry`. -/
theorem not_exactly_once_of_innerTimely :
    (Throughout sameKey.step InnerTimely fresh lateRelease ∧
      (exec sameKey.step fresh lateRelease).map
        (fun state => (state.calls 1, state.calls 2)) =
          some (.executing, .executing)) ∧
    (Throughout sameKey.step InnerTimely fresh lateReply ∧
      (exec sameKey.step fresh (lateReply.take 12)).map
        (fun state => (state.calls 2, state.clock)) =
          some (.executed (.ok 8), 11) ∧
      (exec sameKey.step fresh lateReply).map
        (fun state => (state.calls 1, state.clock)) =
          some (.returned 7, 11)) ∧
    (Throughout sameKey.step InnerTimely fresh earlyRetry ∧
      (exec sameKey.step fresh earlyRetry).map
        (fun state => state.calls 1) = some (.acquiring false)) := by
  refine ⟨⟨?_, by decide +kernel⟩, ⟨?_, by decide +kernel, by decide +kernel⟩,
    ⟨?_, by decide +kernel⟩⟩
  · apply throughout_of_calls_lt 3 rfl (fun _ _ => rfl)
    · decide
    · decide +kernel
  · apply throughout_of_calls_lt 3 rfl (fun _ _ => rfl)
    · decide
    · decide +kernel
  · apply throughout_of_calls_lt 2 rfl (fun _ _ => rfl)
    · decide
    · decide +kernel

end IdempotentUseCase

end TsCommons.Idempotency
