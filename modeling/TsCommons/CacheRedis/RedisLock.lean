import TsCommons.CacheRedis.RedisCache

/-!
# The lock over Redis

`SET key value NX PX ttl` takes the lock, and DEL releases it without a look at
the value that is stored.  As long as the work and the DEL of each call run
within its time to live, a key has at most one holder.  Whatever calls outlive
it or crash, the lock of a key is free again once the times to live of its
leases are over.
-/

namespace TsCommons.CacheRedis

open Foundations

/-- What a call was granted: the key, the value stored for it and the time at
which that lapses. -/
structure Lease where
  key : Text
  value : Text
  limit : ℕ
deriving DecidableEq

/-- A call of `withLock`.  Between the answer of a command at the server and
its arrival at the call, others go on. -/
inductive LockProgress
  | notStarted
  | granted (lease : Lease)
  | working (lease : Lease)
  | releasing (lease : Lease)
  | released
  | refused
  | rejected
  | crashed
deriving DecidableEq

def LockProgress.lease : LockProgress → Option Lease
  | .granted lease => some lease
  | .working lease => some lease
  | .releasing lease => some lease
  | _ => none

/-- A call gets the number of calls begun before it. -/
inductive LockLabel
  | advance (elapsed : ℕ)
  | acquire (lockKey : Text) (dateNow : ℕ) (ttlMs : Option ℚ)
  | begins (call : ℕ)
  | settles (call : ℕ)
  | releases (call : ℕ)
  | crashes (call : ℕ)

variable {σ : Type}

structure RedisLock (σ : Type) where
  client : RedisServer σ
  defaultTtlMs : ℚ

/-- `begun`, `calls` and `leases`, all that were granted, are history. -/
structure LockState (σ : Type) where
  store : σ
  now : ℕ
  begun : ℕ
  calls : ℕ → LockProgress
  leases : List Lease

namespace RedisLock

def initial (lock : RedisLock σ) (now : ℕ) : LockState σ where
  store := lock.client.empty
  now := now
  begun := 0
  calls := fun _ => .notStarted
  leases := []

def lockValue (lockKey : Text) (dateNow : ℕ) : Text :=
  lockKey ++ '-' :: Nat.toDigits 10 dateNow

def acquire (lock : RedisLock σ) (store : σ) (now : ℕ)
    (lockKey lockValue : Text) (ttlMs : Option ℚ) : σ × SetReply :=
  lock.client.set store now lockKey lockValue
    ⟨true, some (ttlMs.getD lock.defaultTtlMs)⟩

def release (lock : RedisLock σ) (store : σ) (now : ℕ) (lockKey : Text) : σ :=
  lock.client.del store now lockKey

/-- The lease of a call that acquires the lock now. -/
def leaseFor (lock : RedisLock σ) (now : ℕ) (lockKey : Text) (dateNow : ℕ)
    (ttlMs : Option ℚ) : Option Lease :=
  (deadline now (ttlMs.getD lock.defaultTtlMs)).map fun limit =>
    ⟨lockKey, lockValue lockKey dateNow, limit⟩

def setCall (state : LockState σ) (call : ℕ) (progress : LockProgress) :
    LockState σ :=
  { state with calls := Function.update state.calls call progress }

/-- The state when the server has answered the SET of a new call. -/
def answered (state : LockState σ) (store : σ) (reply : SetReply)
    (lease : Option Lease) : LockState σ :=
  let next := { state with store := store, begun := state.begun + 1 }
  match reply, lease with
  | .ok, some lease =>
      { setCall next state.begun (.granted lease) with
        leases := lease :: state.leases }
  | .nil, _ => setCall next state.begun .refused
  | _, _ => setCall next state.begun .rejected

def step (lock : RedisLock σ) (state : LockState σ) :
    LockLabel → Option (LockState σ)
  | .advance elapsed => some { state with now := state.now + elapsed }
  | .acquire lockKey dateNow ttlMs =>
      let result := lock.acquire state.store state.now lockKey
        (lockValue lockKey dateNow) ttlMs
      some (answered state result.1 result.2
        (lock.leaseFor state.now lockKey dateNow ttlMs))
  | .begins call =>
      match state.calls call with
      | .granted lease => some (setCall state call (.working lease))
      | _ => none
  | .settles call =>
      match state.calls call with
      | .working lease => some (setCall state call (.releasing lease))
      | _ => none
  | .releases call =>
      match state.calls call with
      | .releasing lease =>
          some (setCall { state with
            store := lock.release state.store state.now lease.key } call
              .released)
      | _ => none
  | .crashes call =>
      match (state.calls call).lease with
      | some _ => some (setCall state call .crashed)
      | none => none

/-! ## What a step can do -/

/-- The time goes on and calls may give up their leases; nothing stored
changes. -/
structure KeepsLeases (lock : RedisLock σ) (state next : LockState σ) :
    Prop where
  now : state.now ≤ next.now
  calls : ∀ call lease, (next.calls call).lease = some lease →
    (state.calls call).lease = some lease
  stored : ∀ later key, next.now ≤ later →
    lock.client.value next.store later key =
      lock.client.value state.store later key
  leases : next.leases = state.leases

/-- A new call takes a lock that nobody has at the server. -/
structure Grants (lock : RedisLock σ) (state next : LockState σ)
    (lease : Lease) : Prop where
  now : next.now = state.now
  free : lock.client.value state.store state.now lease.key = none
  calls : next.calls =
    Function.update state.calls state.begun (.granted lease)
  stored : ∀ later key, state.now ≤ later →
    lock.client.value next.store later key =
      if key = lease.key then
        if lock.client.lapsed lease.limit later then none
        else some lease.value
      else lock.client.value state.store later key
  leases : next.leases = lease :: state.leases

/-- A call deletes the key of its lease, whatever is stored for it. -/
structure Releases (lock : RedisLock σ) (state next : LockState σ)
    (call : ℕ) (lease : Lease) : Prop where
  now : next.now = state.now
  holds : (state.calls call).lease = some lease
  calls : next.calls = Function.update state.calls call .released
  stored : ∀ later key, state.now ≤ later →
    lock.client.value next.store later key =
      if key = lease.key then none
      else lock.client.value state.store later key
  leases : next.leases = state.leases

variable {lock : RedisLock σ} {state next : LockState σ} {label : LockLabel}

@[simp] theorem calls_setCall (state : LockState σ) (call : ℕ)
    (progress : LockProgress) :
    (setCall state call progress).calls =
      Function.update state.calls call progress := rfl

theorem keepsLeases_of_update {store : σ} {begun call : ℕ}
    {progress : LockProgress}
    (hlease : ∀ lease, progress.lease = some lease →
      (state.calls call).lease = some lease)
    (hstored : ∀ later key, state.now ≤ later →
      lock.client.value store later key =
        lock.client.value state.store later key) :
    lock.KeepsLeases state
      (setCall { state with store := store, begun := begun } call
        progress) where
  now := le_rfl
  calls := by
    intro other lease hother
    rw [calls_setCall] at hother
    by_cases hcall : other = call
    · subst other
      rw [Function.update_self] at hother
      exact hlease lease hother
    · rw [Function.update_of_ne hcall] at hother
      exact hother
  stored := hstored
  leases := rfl

theorem acquire_reply (lock : RedisLock σ) (store : σ) (now : ℕ)
    (lockKey value : Text) (ttlMs : Option ℚ) :
    (lock.acquire store now lockKey value ttlMs).2 =
      if (deadline now (ttlMs.getD lock.defaultTtlMs)).isNone = true then
        .error
      else if (lock.client.value store now lockKey).isSome = true then .nil
      else .ok := by
  rw [acquire, lock.client.reply_set, SetOptions.valid]
  cases hdeadline : deadline now (ttlMs.getD lock.defaultTtlMs) with
  | none => simp [hdeadline]
  | some limit => simp [hdeadline]

/-- A SET that is not answered OK changes nothing that is stored. -/
theorem value_acquire_of_ne (lock : RedisLock σ) {store : σ} {now : ℕ}
    {lockKey value : Text} {ttlMs : Option ℚ}
    (hreply : (lock.acquire store now lockKey value ttlMs).2 ≠ .ok)
    (later : ℕ) (key : Text) (hlater : now ≤ later) :
    lock.client.value (lock.acquire store now lockKey value ttlMs).1 later
      key = lock.client.value store later key := by
  rw [acquire] at hreply ⊢
  rw [lock.client.value_set _ _ _ _ _ _ _ hlater,
    if_neg fun hboth => hreply hboth.2]

/-- An acquisition is granted when its time to live is valid and the server
stores nothing for the key. -/
theorem grants_of_acquire (lock : RedisLock σ) (state : LockState σ)
    {lockKey : Text} {dateNow : ℕ} {ttlMs : Option ℚ} {lease : Lease}
    (hlease : lock.leaseFor state.now lockKey dateNow ttlMs = some lease)
    (hfree : lock.client.value state.store state.now lockKey = none) :
    ∃ next, lock.step state (.acquire lockKey dateNow ttlMs) = some next ∧
      lock.Grants state next lease := by
  obtain ⟨limit, hlimit, rfl⟩ := Option.map_eq_some_iff.mp hlease
  have hreply : (lock.acquire state.store state.now lockKey
      (lockValue lockKey dateNow) ttlMs).2 = .ok := by
    rw [acquire_reply, hlimit, hfree]
    rfl
  refine ⟨_, rfl, ?_⟩
  rw [hreply, hlease]
  refine ⟨rfl, hfree, rfl, ?_, rfl⟩
  intro later key hlater
  change lock.client.value (lock.acquire _ _ _ _ _).1 later key = _
  rw [acquire] at hreply ⊢
  rw [lock.client.value_set _ _ _ _ _ _ _ hlater, hreply,
    Option.bind_some, hlimit]
  simp only [and_true, Option.any_some]

theorem keepsLeases_of_acquire (lock : RedisLock σ) (state : LockState σ)
    (lockKey : Text) (dateNow : ℕ) (ttlMs : Option ℚ)
    (hrefused : lock.leaseFor state.now lockKey dateNow ttlMs = none ∨
      (lock.client.value state.store state.now lockKey).isSome = true) :
    ∃ next, lock.step state (.acquire lockKey dateNow ttlMs) = some next ∧
      lock.KeepsLeases state next := by
  have hreply := lock.acquire_reply state.store state.now lockKey
    (lockValue lockKey dateNow) ttlMs
  refine ⟨_, rfl, ?_⟩
  cases hlease : lock.leaseFor state.now lockKey dateNow ttlMs with
  | none =>
      rw [leaseFor, Option.map_eq_none_iff] at hlease
      rw [hlease, Option.isNone_none, if_pos rfl] at hreply
      have hstored := lock.value_acquire_of_ne (hreply.trans_ne nofun)
      rw [hreply]
      exact keepsLeases_of_update nofun hstored
  | some lease =>
      rw [hlease] at hrefused
      obtain ⟨limit, hlimit, -⟩ := Option.map_eq_some_iff.mp hlease
      have hsome := hrefused.resolve_left nofun
      rw [hlimit, hsome, Option.isNone_some, if_neg nofun, if_pos rfl]
        at hreply
      have hstored := lock.value_acquire_of_ne (hreply.trans_ne nofun)
      rw [hreply]
      exact keepsLeases_of_update nofun hstored

/-- What a step can do to the locks. -/
theorem step_cases (hstep : lock.step state label = some next) :
    lock.KeepsLeases state next ∨ (∃ lease, lock.Grants state next lease) ∨
      ∃ call lease, lock.Releases state next call lease := by
  cases label with
  | advance elapsed =>
      cases hstep
      exact .inl ⟨Nat.le_add_right _ _, fun _ _ hlease => hlease,
        fun _ _ _ => rfl, rfl⟩
  | acquire lockKey dateNow ttlMs =>
      cases hlease : lock.leaseFor state.now lockKey dateNow ttlMs with
      | none =>
          obtain ⟨other, hother, hkeeps⟩ :=
            lock.keepsLeases_of_acquire state lockKey dateNow ttlMs
              (.inl hlease)
          rw [hother] at hstep
          cases hstep
          exact .inl hkeeps
      | some lease =>
          cases hfree : lock.client.value state.store state.now lockKey with
          | none =>
              obtain ⟨other, hother, hgrants⟩ :=
                lock.grants_of_acquire state hlease hfree
              rw [hother] at hstep
              cases hstep
              exact .inr (.inl ⟨lease, hgrants⟩)
          | some value =>
              obtain ⟨other, hother, hkeeps⟩ :=
                lock.keepsLeases_of_acquire state lockKey dateNow ttlMs
                  (.inr (by rw [hfree]; rfl))
              rw [hother] at hstep
              cases hstep
              exact .inl hkeeps
  | begins call =>
      simp only [step] at hstep
      split at hstep
      next lease hcall =>
        cases hstep
        refine .inl (keepsLeases_of_update ?_ fun _ _ _ => rfl)
        intro other hother
        rw [hcall]
        exact hother
      next => cases hstep
  | settles call =>
      simp only [step] at hstep
      split at hstep
      next lease hcall =>
        cases hstep
        refine .inl (keepsLeases_of_update ?_ fun _ _ _ => rfl)
        intro other hother
        rw [hcall]
        exact hother
      next => cases hstep
  | releases call =>
      simp only [step] at hstep
      split at hstep
      next lease hcall =>
        cases hstep
        refine .inr (.inr ⟨call, lease, rfl, ?_, rfl, ?_, rfl⟩)
        · rw [hcall]
          rfl
        · intro later key hlater
          exact lock.client.value_del _ _ _ _ _ hlater
      next => cases hstep
  | crashes call =>
      simp only [step] at hstep
      split at hstep
      next lease hcall =>
        cases hstep
        exact .inl (keepsLeases_of_update nofun fun _ _ _ => rfl)
      next => cases hstep

/-! ## One holder -/

/-- The time to live of a call is not over before its DEL has run at the
server, or the call has crashed without one. -/
def WithinTtl (state : LockState σ) : Prop :=
  ∀ call lease, (state.calls call).lease = some lease →
    state.now < lease.limit

/-- A key has at most one holder, and what is stored for it is what its holder
wrote. -/
structure Exclusive (lock : RedisLock σ) (state : LockState σ) : Prop where
  unique : ∀ call other lease lease',
    (state.calls call).lease = some lease →
      (state.calls other).lease = some lease' →
        lease.key = lease'.key → call = other
  stored : ∀ call lease, (state.calls call).lease = some lease →
    lock.client.value state.store state.now lease.key = some lease.value

/-- The stored value of a holder stays until its lease is over. -/
structure HolderInvariant (lock : RedisLock σ) (state : LockState σ) :
    Prop where
  unique : ∀ call other lease lease',
    (state.calls call).lease = some lease →
      (state.calls other).lease = some lease' →
        lease.key = lease'.key → call = other
  own : ∀ call lease, (state.calls call).lease = some lease →
    ∀ later, state.now ≤ later → later < lease.limit →
      lock.client.value state.store later lease.key = some lease.value

theorem initial_holderInvariant (lock : RedisLock σ) (now : ℕ) :
    lock.HolderInvariant (lock.initial now) where
  unique _ _ _ _ hlease := nomatch hlease
  own _ _ hlease := nomatch hlease

theorem HolderInvariant.keepsLeases (hinv : lock.HolderInvariant state)
    (hkeeps : lock.KeepsLeases state next) : lock.HolderInvariant next where
  unique call other lease lease' hlease hlease' :=
    hinv.unique call other lease lease' (hkeeps.calls _ _ hlease)
      (hkeeps.calls _ _ hlease')
  own call lease hlease later hlater hlimit := by
    rw [hkeeps.stored later _ hlater]
    exact hinv.own call lease (hkeeps.calls _ _ hlease) later
      (hkeeps.now.trans hlater) hlimit

theorem HolderInvariant.grants (hinv : lock.HolderInvariant state)
    (hwithin : WithinTtl state) {lease : Lease}
    (hgrants : lock.Grants state next lease) : lock.HolderInvariant next := by
  have hother : ∀ other held, other ≠ state.begun →
      (next.calls other).lease = some held →
        (state.calls other).lease = some held ∧ held.key ≠ lease.key := by
    intro other held hne hheld
    rw [hgrants.calls, Function.update_of_ne hne] at hheld
    refine ⟨hheld, fun hkey => ?_⟩
    have hvalue := hinv.own other held hheld state.now le_rfl
      (hwithin other held hheld)
    rw [hkey, hgrants.free] at hvalue
    cases hvalue
  have hself : ∀ held, (next.calls state.begun).lease = some held →
      held = lease := by
    intro held hheld
    rw [hgrants.calls, Function.update_self] at hheld
    exact (Option.some.inj hheld).symm
  constructor
  · intro call other held held' hheld hheld' hkey
    by_cases hcall : call = state.begun
    · subst hcall
      rw [hself held hheld] at hkey
      by_contra hne
      exact (hother other held' (Ne.symm hne) hheld').2 hkey.symm
    · by_cases hcall' : other = state.begun
      · subst hcall'
        rw [hself held' hheld'] at hkey
        exact absurd hkey (hother call held hcall hheld).2
      · exact hinv.unique call other held held'
          (hother call held hcall hheld).1
          (hother other held' hcall' hheld').1 hkey
  · intro call held hheld later hlater hlimit
    rw [hgrants.now] at hlater
    rw [hgrants.stored later _ hlater]
    by_cases hcall : call = state.begun
    · subst hcall
      rw [hself held hheld] at hlimit ⊢
      rw [if_pos rfl, lock.client.lapsed_of_lt _ _ hlimit,
        if_neg Bool.false_ne_true]
    · obtain ⟨hbefore, hkey⟩ := hother call held hcall hheld
      rw [if_neg hkey]
      exact hinv.own call held hbefore later hlater hlimit

theorem HolderInvariant.releases (hinv : lock.HolderInvariant state)
    {call : ℕ} {lease : Lease}
    (hreleases : lock.Releases state next call lease) :
    lock.HolderInvariant next := by
  have hother : ∀ other held, (next.calls other).lease = some held →
      (state.calls other).lease = some held ∧ held.key ≠ lease.key := by
    intro other held hheld
    rw [hreleases.calls] at hheld
    by_cases hcall : other = call
    · subst other
      rw [Function.update_self] at hheld
      cases hheld
    · rw [Function.update_of_ne hcall] at hheld
      exact ⟨hheld, fun hkey => hcall
        (hinv.unique other call held lease hheld hreleases.holds hkey)⟩
  constructor
  · intro first second held held' hheld hheld'
    exact hinv.unique first second held held' (hother _ _ hheld).1
      (hother _ _ hheld').1
  · intro other held hheld later hlater hlimit
    obtain ⟨hbefore, hkey⟩ := hother other held hheld
    rw [hreleases.now] at hlater
    rw [hreleases.stored later _ hlater, if_neg hkey]
    exact hinv.own other held hbefore later hlater hlimit

theorem HolderInvariant.step (hinv : lock.HolderInvariant state)
    (hwithin : WithinTtl state) (hstep : lock.step state label = some next) :
    lock.HolderInvariant next := by
  rcases step_cases hstep with hkeeps | ⟨lease, hgrants⟩ |
    ⟨call, lease, hreleases⟩
  · exact hinv.keepsLeases hkeeps
  · exact hinv.grants hwithin hgrants
  · exact hinv.releases hreleases

/-- As long as the work and the DEL of each call run within its time to live, a
key has at most one holder, whose value is the one stored. -/
theorem exclusive_run (lock : RedisLock σ) (now : ℕ) {labels : List LockLabel}
    {last : LockState σ}
    (hrun : exec lock.step (lock.initial now) labels = some last)
    (hwithin : Throughout lock.step WithinTtl (lock.initial now) labels) :
    lock.Exclusive last := by
  have hinv : lock.HolderInvariant last :=
    exec_invariant_of_throughout
      (fun _ _ _ hinv hwithin _ hstep => hinv.step hwithin hstep)
      (lock.initial_holderInvariant now) hwithin hrun
  refine ⟨hinv.unique, fun call lease hlease => ?_⟩
  exact hinv.own call lease hlease last.now le_rfl
    (hwithin.last hrun call lease hlease)

/-- A lock of ten milliseconds. -/
def briefLock : RedisLock (Text → Option (Text × Option ℕ)) :=
  ⟨.reference, 10⟩

theorem withinTtl_of_one {held : Lease} (hnow : state.now < held.limit)
    (hheld : ∀ call, (state.calls call).lease = none ∨
      (state.calls call).lease = some held) : WithinTtl state := by
  intro call lease hlease
  rcases hheld call with hnone | hsome
  · rw [hnone] at hlease
    cases hlease
  · rw [hsome] at hlease
    cases hlease
    exact hnow

/-- The second call is refused while the first one works, and the third one
holds the lock that the first one has released. -/
def threeRequests : List LockLabel :=
  [.acquire ['k'] 0 none, .begins 0, .acquire ['k'] 0 none, .settles 0,
    .releases 0, .acquire ['k'] 0 none, .begins 2]

theorem exclusive_run_of_release :
    ∃ last, exec briefLock.step (briefLock.initial 0) threeRequests =
        some last ∧
      (last.calls 0, last.calls 1, last.calls 2) =
        (.released, .refused, .working ⟨['k'], ['k', '-', '0'], 10⟩) ∧
      briefLock.Exclusive last := by
  have hrun : exec briefLock.step (briefLock.initial 0) threeRequests =
    some _ := rfl
  have hlimit : 0 < (⟨['k'], ['k', '-', '0'], 10⟩ : Lease).limit := by decide
  refine ⟨_, hrun, rfl, exclusive_run briefLock 0 hrun ?_⟩
  -- the calls that hold a lease all hold the one of the first millisecond
  iterate 7
    refine ⟨withinTtl_of_one hlimit ?_, fun next hnext => ?_⟩
    · rintro (_ | _ | _ | call) <;> first | exact .inl rfl | exact .inr rfl
    cases hnext
  apply withinTtl_of_one hlimit
  rintro (_ | _ | _ | call) <;> first | exact .inl rfl | exact .inr rfl

/-- A call that outlives its lease deletes the lock of another one. -/
example : (exec briefLock.step (briefLock.initial 0)
    [.acquire ['k'] 0 none, .begins 0, .advance 11, .acquire ['k'] 0 none,
      .begins 1, .settles 0, .releases 0, .acquire ['k'] 0 none,
      .begins 2]).map (fun state => (state.calls 1, state.calls 2)) =
    some (.working ⟨['k'], ['k', '-', '0'], 21⟩,
      .working ⟨['k'], ['k', '-', '0'], 21⟩) := by
  decide

/-! ## A lock is free again -/

/-- What is stored for a key was written for a lease that is not over. -/
def StoredOfLease (lock : RedisLock σ) (state : LockState σ) : Prop :=
  ∀ later key value, state.now ≤ later →
    lock.client.value state.store later key = some value →
      ∃ lease ∈ state.leases, lease.key = key ∧ later ≤ lease.limit

theorem StoredOfLease.step (hinv : lock.StoredOfLease state)
    (hstep : lock.step state label = some next) :
    lock.StoredOfLease next := by
  intro later key value hlater hvalue
  rcases step_cases hstep with hkeeps | ⟨lease, hgrants⟩ |
    ⟨call, lease, hreleases⟩
  · rw [hkeeps.stored later key hlater] at hvalue
    rw [hkeeps.leases]
    exact hinv later key value (hkeeps.now.trans hlater) hvalue
  · rw [hgrants.now] at hlater
    rw [hgrants.stored later key hlater] at hvalue
    rw [hgrants.leases]
    split at hvalue
    next hkey =>
      rw [Option.ite_none_left_eq_some] at hvalue
      refine ⟨lease, List.mem_cons_self, hkey.symm, ?_⟩
      by_contra hover
      exact hvalue.1
        (lock.client.lapsed_of_gt _ _ (Nat.lt_of_not_le hover))
    next =>
      obtain ⟨held, hmem, hheld⟩ := hinv later key value hlater hvalue
      exact ⟨held, List.mem_cons_of_mem lease hmem, hheld⟩
  · rw [hreleases.now] at hlater
    rw [hreleases.stored later key hlater,
      Option.ite_none_left_eq_some] at hvalue
    rw [hreleases.leases]
    exact hinv later key value hlater hvalue.2

theorem storedOfLease_run (lock : RedisLock σ) (now : ℕ)
    {labels : List LockLabel} {last : LockState σ}
    (hrun : exec lock.step (lock.initial now) labels = some last) :
    lock.StoredOfLease last := by
  refine exec_invariant (fun _ _ _ hinv hstep => hinv.step hstep) ?_ hrun
  intro later key value _ hvalue
  rw [initial, lock.client.value_empty] at hvalue
  cases hvalue

/-- Whatever calls have outlived their leases or crashed, the next call that
asks for a key is granted it when the leases of the key are over. -/
theorem granted_of_leases_over (lock : RedisLock σ) (now : ℕ)
    {labels : List LockLabel} {last : LockState σ}
    (hrun : exec lock.step (lock.initial now) labels = some last)
    {lockKey : Text} {elapsed : ℕ}
    (hover : ∀ lease ∈ last.leases, lease.key = lockKey →
      lease.limit < last.now + elapsed)
    (dateNow : ℕ) {ttlMs : Option ℚ} {lease : Lease}
    (hlease : lock.leaseFor (last.now + elapsed) lockKey dateNow ttlMs =
      some lease) :
    ∃ next, exec lock.step last
        [.advance elapsed, .acquire lockKey dateNow ttlMs] = some next ∧
      next.calls last.begun = .granted lease := by
  have hfree : lock.client.value last.store (last.now + elapsed) lockKey =
      none := by
    by_contra hstored
    obtain ⟨value, hvalue⟩ := Option.ne_none_iff_exists'.mp hstored
    obtain ⟨held, hmem, hkey, hlimit⟩ := lock.storedOfLease_run now hrun
      (last.now + elapsed) lockKey value (Nat.le_add_right _ _) hvalue
    exact absurd (hover held hmem hkey) hlimit.not_gt
  obtain ⟨next, hstep, hgrants⟩ := lock.grants_of_acquire
    { last with now := last.now + elapsed } hlease hfree
  refine ⟨next, ?_, ?_⟩
  · exact exec_cons_eq_some.mpr ⟨_, rfl, exec_singleton_eq_some.mpr hstep⟩
  · rw [hgrants.calls, Function.update_self]

def crashOfHolder : List LockLabel :=
  [.acquire ['k'] 0 none, .begins 0, .crashes 0]

theorem granted_of_leases_over_of_crash :
    ∃ last next, exec briefLock.step (briefLock.initial 0) crashOfHolder =
        some last ∧
      exec briefLock.step last [.advance 11, .acquire ['k'] 0 none] =
        some next ∧
      next.calls last.begun = .granted ⟨['k'], ['k', '-', '0'], 21⟩ := by
  have hrun : exec briefLock.step (briefLock.initial 0) crashOfHolder =
    some _ := rfl
  have hover : ∀ lease ∈ [(⟨['k'], ['k', '-', '0'], 10⟩ : Lease)],
      lease.key = ['k'] → lease.limit < 0 + 11 := by decide
  have hlease : briefLock.leaseFor (0 + 11) ['k'] 0 none =
    some ⟨['k'], ['k', '-', '0'], 21⟩ := rfl
  obtain ⟨next, hnext⟩ :=
    granted_of_leases_over briefLock 0 hrun hover 0 hlease
  exact ⟨_, next, hrun, hnext⟩

end RedisLock

end TsCommons.CacheRedis
