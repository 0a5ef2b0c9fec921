import TsCommons.Cache.MultiLevelCache
import Mathlib.Tactic.NormNum

/-!
# Lifetimes in the two-tier cache

Operations run one after another on two in-memory tiers.  The timeline keeps
the last write of each key.  A value reaches L1 through `set`, through
`getOrCompute` and through the back-fill of a read that L2 answers; the last
of these writes the value without its lifetime.
-/

namespace TsCommons.Cache

open Foundations

variable {V E : Type}

structure Write (V : Type) where
  value : V
  time : ℚ
  ttl : Option Duration
deriving DecidableEq

/-- The entry that the write leaves in a tier. -/
def Write.entry (write : Write V) : CacheEntry V :=
  ⟨write.value, write.ttl.map fun ttl => write.time + ttl.milliseconds⟩

structure Timeline (V : Type) where
  clock : ℚ
  tiers : Tiers (InMemoryCache V) (InMemoryCache V)
  lastWrite : String → Option (Write V)

/-- A `getOrCompute` that misses calls its function, which settles with
`outcome` at the time `settledAt`. -/
inductive Operation (V E : Type)
  | set (key : String) (value : V) (ttl : Option Duration)
  | get (key : String)
  | getOrCompute (key : String) (outcome : Except E V)
      (ttl : Option Duration) (settledAt : ℚ)
  | delete (key : String)
  | invalidateL1 (key : String)
  | evictL1
  | advance (now : ℚ)
deriving DecidableEq

def Operation.reads : Operation V E → Option String
  | .get key => some key
  | .getOrCompute key _ _ _ => some key
  | _ => none

namespace Timeline

open MultiLevelCache

def initial (now : ℚ) (maxSize₁ maxSize₂ : Option ℕ∞) : Timeline V where
  clock := now
  tiers := emptyTiers maxSize₁ maxSize₂
  lastWrite := fun _ => none

def record (state : Timeline V) (key : String) (write : Write V) :
    Timeline V :=
  { state with lastWrite := Function.update state.lastWrite key (some write) }

/-- A computation that has settled at the time of the clock. -/
def recordOutcome (state : Timeline V) (key : String) (outcome : Except E V)
    (ttl : Option Duration) : Timeline V :=
  match outcome with
  | .ok value => state.record key ⟨value, state.clock, ttl⟩
  | .error _ => state

def step (state : Timeline V) : Operation V E → Option (Timeline V)
  | .set key value ttl =>
      some { state.record key ⟨value, state.clock, ttl⟩ with
        tiers := inMemory.set state.tiers key value ttl state.clock }
  | .get key =>
      some { state with tiers := (inMemory.get state.tiers key state.clock).2 }
  | .getOrCompute key outcome ttl settledAt =>
      let result := inMemory.getOrCompute state.tiers key outcome ttl
        state.clock settledAt
      if (inMemory.get state.tiers key state.clock).1.isSome then
        some { state with tiers := result.2 }
      else if state.clock ≤ settledAt then
        some (({ state with clock := settledAt, tiers := result.2 }
          ).recordOutcome key outcome ttl)
      else none
  | .delete key =>
      some { state with tiers := inMemory.delete state.tiers key }
  | .invalidateL1 key =>
      some { state with tiers := inMemory.invalidateL1 state.tiers key }
  | .evictL1 =>
      some { state with
        tiers := ⟨state.tiers.l1.evictOldest, state.tiers.l2⟩ }
  | .advance now =>
      if state.clock ≤ now then some { state with clock := now } else none

/-- A get of a key whose last write has outlived its lifetime does not return
the value written. -/
def ServesNothingExpired (state : Timeline V) : Prop :=
  ∀ key write ttl, state.lastWrite key = some write →
    write.ttl = some ttl → write.time + ttl.milliseconds < state.clock →
      (inMemory.get state.tiers key state.clock).1 ≠ some write.value

/-- A read that misses L1 finds no entry with a running lifetime in L2. -/
def BackfillsNoLifetime (state : Timeline V) (operation : Operation V E) :
    Prop :=
  ∀ key ∈ operation.reads,
    (state.tiers.l1.getSync key state.clock).1 = none →
      ∀ entry ∈ state.tiers.l2.store.get key,
        entry.expired state.clock = false → entry.expiresAt = none

instance [DecidableEq V] (state : Timeline V) (operation : Operation V E) :
    Decidable (state.BackfillsNoLifetime operation) :=
  inferInstanceAs (Decidable (∀ key ∈ operation.reads, _))

end Timeline

/-! ## Entries and the writes they come from -/

/-- Every entry of the tier was left there by the last write of its key. -/
def InMemoryCache.Records (tier : InMemoryCache V)
    (lastWrite : String → Option (Write V)) : Prop :=
  ∀ key entry, tier.store.get key = some entry →
    ∃ write, lastWrite key = some write ∧ write.entry = entry

namespace InMemoryCache

variable {tier : InMemoryCache V} {lastWrite : String → Option (Write V)}

theorem Records.of_subset {smaller : InMemoryCache V}
    (hrecords : tier.Records lastWrite)
    (hsubset : ∀ key entry, smaller.store.get key = some entry →
      tier.store.get key = some entry) :
    smaller.Records lastWrite := by
  intro key entry hentry
  exact hrecords key entry (hsubset key entry hentry)

theorem Records.getSync (hrecords : tier.Records lastWrite) (key : String)
    (now : ℚ) : (tier.getSync key now).2.Records lastWrite :=
  hrecords.of_subset fun _ _ hentry => get_of_getSync hentry

theorem Records.evictOldest (hrecords : tier.Records lastWrite) :
    tier.evictOldest.Records lastWrite :=
  hrecords.of_subset fun _ _ hentry => get_of_evictOldest hentry

theorem Records.delete (hrecords : tier.Records lastWrite) (key : String) :
    (tier.delete key).Records lastWrite :=
  hrecords.of_subset fun _ _ hentry => (get_of_delete hentry).2

theorem Records.set (hrecords : tier.Records lastWrite) (key : String)
    (write : Write V) :
    (tier.set key write.value write.ttl write.time).Records
      (Function.update lastWrite key (some write)) := by
  intro other entry hentry
  by_cases heq : other = key
  · subst other
    rw [get_set_self, Option.some.injEq] at hentry
    exact ⟨write, Function.update_self .., hentry⟩
  · obtain ⟨last, hlast, hlastEntry⟩ :=
      hrecords other entry (get_of_set_of_ne heq hentry)
    refine ⟨last, ?_, hlastEntry⟩
    rw [Function.update_of_ne heq]
    exact hlast

/-- A back-fill keeps the records if the value it copies has no lifetime. -/
theorem Records.backfill (hrecords : tier.Records lastWrite) {key : String}
    {entry : CacheEntry V} {write : Write V} (now : ℚ)
    (hwrite : lastWrite key = some write) (hentry : write.entry = entry)
    (hforever : entry.expiresAt = none) :
    (tier.set key entry.value none now).Records lastWrite := by
  intro other found hfound
  by_cases heq : other = key
  · subst other
    rw [get_set_self, Option.some.injEq] at hfound
    refine ⟨write, hwrite, ?_⟩
    rw [hentry, ← hfound]
    cases entry
    simp_all
  · exact hrecords other found (get_of_set_of_ne heq hfound)

/-- An entry that the last write left behind expires with its lifetime. -/
theorem Records.expired (hrecords : tier.Records lastWrite) {key : String}
    {write : Write V} {ttl : Duration} {now : ℚ} {entry : CacheEntry V}
    (hwrite : lastWrite key = some write) (httl : write.ttl = some ttl)
    (hlate : write.time + ttl.milliseconds < now)
    (hentry : tier.store.get key = some entry) :
    entry.expired now = true := by
  obtain ⟨last, hlast, rfl⟩ := hrecords key entry hentry
  rw [hwrite, Option.some.injEq] at hlast
  subst last
  simp [Write.entry, CacheEntry.expired, httl, hlate]

end InMemoryCache

namespace Timeline

open MultiLevelCache

variable {state next : Timeline V} {operation : Operation V E}
  {key : String}

theorem inMemory_get_of_l1
    {tiers : Tiers (InMemoryCache V) (InMemoryCache V)} {now : ℚ}
    {entry : CacheEntry V} (hentry : tiers.l1.store.get key = some entry)
    (hlive : entry.expired now = false) :
    inMemory.get tiers key now = (some entry.value, tiers) := by
  have hl1 := InMemoryCache.getSync_of_get hentry hlive
  simp [inMemory, MultiLevelCache.get, InMemoryCache.port, hl1]

theorem inMemory_get_of_l2
    {tiers : Tiers (InMemoryCache V) (InMemoryCache V)} {now : ℚ}
    {entry : CacheEntry V} (hmiss : (tiers.l1.getSync key now).1 = none)
    (hentry : tiers.l2.store.get key = some entry)
    (hlive : entry.expired now = false) :
    inMemory.get tiers key now =
      (some entry.value,
        ⟨(tiers.l1.getSync key now).2.set key entry.value none now,
          tiers.l2⟩) := by
  have hl2 := InMemoryCache.getSync_of_get hentry hlive
  simp [inMemory, MultiLevelCache.get, fetchFromL2, InMemoryCache.port,
    hmiss, hl2]

/-- The three ways of a read: L1 answers, L2 answers and L1 is filled, or both
miss. -/
theorem inMemory_get_cases
    (tiers : Tiers (InMemoryCache V) (InMemoryCache V)) (key : String)
    (now : ℚ) :
    (∃ entry, tiers.l1.store.get key = some entry ∧
      entry.expired now = false ∧
      inMemory.get tiers key now = (some entry.value, tiers)) ∨
    ((tiers.l1.getSync key now).1 = none ∧
      ∃ entry, tiers.l2.store.get key = some entry ∧
        entry.expired now = false ∧
        inMemory.get tiers key now =
          (some entry.value,
            ⟨(tiers.l1.getSync key now).2.set key entry.value none now,
              tiers.l2⟩)) ∨
    inMemory.get tiers key now =
      (none, ⟨(tiers.l1.getSync key now).2,
        (tiers.l2.getSync key now).2⟩) := by
  cases hl1 : (tiers.l1.getSync key now).1 with
  | some value =>
      obtain ⟨entry, hentry, hlive, _⟩ :=
        InMemoryCache.getSync_fst_eq_some_iff.mp hl1
      exact .inl ⟨entry, hentry, hlive, inMemory_get_of_l1 hentry hlive⟩
  | none =>
      right
      cases hl2 : (tiers.l2.getSync key now).1 with
      | some value =>
          obtain ⟨entry, hentry, hlive, _⟩ :=
            InMemoryCache.getSync_fst_eq_some_iff.mp hl2
          exact .inl ⟨rfl, entry, hentry, hlive,
            inMemory_get_of_l2 hl1 hentry hlive⟩
      | none =>
          right
          simp [inMemory, MultiLevelCache.get, fetchFromL2,
            InMemoryCache.port, hl1, hl2]

/-- The entries of both tiers come from the last writes. -/
structure Recorded (tiers : Tiers (InMemoryCache V) (InMemoryCache V))
    (lastWrite : String → Option (Write V)) : Prop where
  l1 : tiers.l1.Records lastWrite
  l2 : tiers.l2.Records lastWrite

theorem initial_recorded (now : ℚ) (maxSize₁ maxSize₂ : Option ℕ∞) :
    Recorded (initial now maxSize₁ maxSize₂ : Timeline V).tiers
      (initial now maxSize₁ maxSize₂ : Timeline V).lastWrite := by
  constructor <;> intro key entry hentry <;>
    simp [initial, emptyTiers, InMemoryCache.create] at hentry

theorem Recorded.get (hrecorded : Recorded state.tiers state.lastWrite)
    (hbackfills : state.BackfillsNoLifetime operation)
    (hreads : operation.reads = some key) :
    Recorded (inMemory.get state.tiers key state.clock).2
      state.lastWrite := by
  rcases inMemory_get_cases state.tiers key state.clock with
    ⟨_, _, _, hget⟩ | ⟨hmiss, entry, hentry, hlive, hget⟩ | hget
  · rw [hget]
    exact hrecorded
  · rw [hget]
    obtain ⟨write, hwrite, hwriteEntry⟩ := hrecorded.l2 key entry hentry
    have hforever := hbackfills key hreads hmiss entry hentry hlive
    exact ⟨(hrecorded.l1.getSync key state.clock).backfill state.clock
      hwrite hwriteEntry hforever, hrecorded.l2⟩
  · rw [hget]
    exact ⟨hrecorded.l1.getSync key state.clock,
      hrecorded.l2.getSync key state.clock⟩

theorem Recorded.set {tiers : Tiers (InMemoryCache V) (InMemoryCache V)}
    {lastWrite : String → Option (Write V)}
    (hrecorded : Recorded tiers lastWrite) (key : String) (write : Write V) :
    Recorded (inMemory.set tiers key write.value write.ttl write.time)
      (Function.update lastWrite key (some write)) :=
  ⟨hrecorded.l1.set key write, hrecorded.l2.set key write⟩

theorem Recorded.step (hrecorded : Recorded state.tiers state.lastWrite)
    (hbackfills : state.BackfillsNoLifetime operation)
    (hstep : state.step operation = some next) :
    Recorded next.tiers next.lastWrite := by
  cases operation with
  | set key value ttl =>
      cases hstep
      exact hrecorded.set key ⟨value, state.clock, ttl⟩
  | get key =>
      cases hstep
      exact hrecorded.get hbackfills rfl
  | getOrCompute key outcome ttl settledAt =>
      have hread : Recorded (inMemory.get state.tiers key state.clock).2
          state.lastWrite := hrecorded.get hbackfills rfl
      simp only [Timeline.step, getOrCompute] at hstep
      cases hresult : (inMemory.get state.tiers key state.clock).1 with
      | some value =>
          simp only [hresult, Option.isSome_some, if_true,
            Option.some.injEq] at hstep
          subst next
          exact hread
      | none =>
          rw [hresult] at hstep
          rw [if_neg (by simp), Option.ite_none_right_eq_some,
            Option.some.injEq] at hstep
          obtain ⟨_, rfl⟩ := hstep
          cases outcome with
          | ok value => exact hread.set key ⟨value, settledAt, ttl⟩
          | error error => exact hread
  | delete key =>
      cases hstep
      exact ⟨hrecorded.l1.delete key, hrecorded.l2.delete key⟩
  | invalidateL1 key =>
      cases hstep
      exact ⟨hrecorded.l1.delete key, hrecorded.l2⟩
  | evictL1 =>
      cases hstep
      exact ⟨hrecorded.l1.evictOldest, hrecorded.l2⟩
  | advance now =>
      rw [Timeline.step, Option.ite_none_right_eq_some,
        Option.some.injEq] at hstep
      obtain ⟨_, rfl⟩ := hstep
      exact hrecorded

theorem recorded_of_backfillsNoLifetime {now : ℚ}
    {maxSize₁ maxSize₂ : Option ℕ∞} {operations : List (Operation V E)}
    (hrun : exec step (initial now maxSize₁ maxSize₂) operations = some state)
    (hmeet : StepsMeet step BackfillsNoLifetime
      (initial now maxSize₁ maxSize₂) operations) :
    Recorded state.tiers state.lastWrite :=
  exec_invariant_of_stepsMeet
    (I := fun state : Timeline V => Recorded state.tiers state.lastWrite)
    (fun _ _ _ hrecorded hbackfills hstep => hrecorded.step hbackfills hstep)
    (initial_recorded now maxSize₁ maxSize₂) hmeet hrun

theorem Recorded.servesNothingExpired
    (hrecorded : Recorded state.tiers state.lastWrite) :
    state.ServesNothingExpired := by
  intro key write ttl hwrite httl hlate
  rcases inMemory_get_cases state.tiers key state.clock with
    ⟨entry, hentry, hlive, _⟩ | ⟨_, entry, hentry, hlive, _⟩ | hget
  · have hexpired := hrecorded.l1.expired hwrite httl hlate hentry
    rw [hlive] at hexpired
    contradiction
  · have hexpired := hrecorded.l2.expired hwrite httl hlate hentry
    rw [hlive] at hexpired
    contradiction
  · rw [hget]
    simp

/-! ## The back-fill without a lifetime -/

/-- A step that breaks the condition leaves the value of the last write, which
has a lifetime, in L1 without one. -/
theorem backfilled_of_step (hrecorded : Recorded state.tiers state.lastWrite)
    (hbreaks : ¬ state.BackfillsNoLifetime operation)
    (hstep : state.step operation = some next) :
    ∃ key write ttl, state.lastWrite key = some write ∧
      write.ttl = some ttl ∧ next.lastWrite = state.lastWrite ∧
      next.tiers.l1.store.get key = some ⟨write.value, none⟩ := by
  simp only [BackfillsNoLifetime, not_forall] at hbreaks
  obtain ⟨key, hreads, hmiss, entry, hentry, hlive, hlifetime⟩ := hbreaks
  obtain ⟨write, hwrite, rfl⟩ := hrecorded.l2 key entry hentry
  cases httl : write.ttl with
  | none => simp [Write.entry, httl] at hlifetime
  | some ttl =>
      have hget := inMemory_get_of_l2 hmiss hentry hlive
      have hvalue : write.entry.value = write.value := rfl
      rw [hvalue] at hget
      refine ⟨key, write, ttl, hwrite, httl, ?_⟩
      cases operation with
      | get other =>
          cases hreads
          cases hstep
          simp [hget]
      | getOrCompute other outcome ttl settledAt =>
          cases hreads
          simp only [Timeline.step, getOrCompute, hget, Option.isSome_some,
            if_true, Option.some.injEq] at hstep
          subst next
          simp
      | _ => simp [Operation.reads] at hreads

/-- No get serves an expired value in a run whose reads back-fill no value
that has a lifetime; and after a run that ends with such a back-fill it is
enough to wait for a get to serve one. -/
theorem servesNothingExpired_of_backfillsNoLifetime (now : ℚ)
    (maxSize₁ maxSize₂ : Option ℕ∞) :
    (∀ (operations : List (Operation V E)) (state : Timeline V),
      exec step (initial now maxSize₁ maxSize₂) operations = some state →
      StepsMeet step BackfillsNoLifetime (initial now maxSize₁ maxSize₂)
        operations →
      state.ServesNothingExpired) ∧
    (∀ (operations : List (Operation V E)) (state next : Timeline V)
      (operation : Operation V E),
      exec step (initial now maxSize₁ maxSize₂) operations = some state →
      StepsMeet step BackfillsNoLifetime (initial now maxSize₁ maxSize₂)
        operations →
      state.step operation = some next →
      ¬ state.BackfillsNoLifetime operation →
      ∃ late last, next.step (.advance late : Operation V E) = some last ∧
        ¬ last.ServesNothingExpired) := by
  constructor
  · intro operations state hrun hmeet
    exact (recorded_of_backfillsNoLifetime hrun hmeet).servesNothingExpired
  · intro operations state next operation hrun hmeet hstep hbreaks
    have hrecorded := recorded_of_backfillsNoLifetime hrun hmeet
    obtain ⟨key, write, ttl, hwrite, httl, hlast, hentry⟩ :=
      backfilled_of_step hrecorded hbreaks hstep
    let late := max next.clock (write.time + ttl.milliseconds + 1)
    have hlate : next.clock ≤ late := le_max_left _ _
    have hexpiry : write.time + ttl.milliseconds < late :=
      lt_of_lt_of_le (lt_add_one _) (le_max_right _ _)
    refine ⟨late, { next with clock := late }, if_pos hlate, ?_⟩
    intro hserves
    apply hserves key write ttl (hlast ▸ hwrite) httl hexpiry
    rw [inMemory_get_of_l1 hentry rfl]

def hundred : Duration := ⟨100, by norm_num⟩

/-- A value with a lifetime, evicted from L1 only. -/
def onlyInL2 : List (Operation ℕ String) :=
  [.set "user:1" 7 (some hundred), .invalidateL1 "user:1", .advance 50]

theorem servesNothingExpired_of_backfillsNoLifetime_samples :
    (∃ state : Timeline ℕ,
      exec step (initial 0 none none)
        [.set "user:1" 7 (some hundred),
          (.get "user:1" : Operation ℕ String), .advance 101] = some state ∧
      state.ServesNothingExpired) ∧
    (∃ state next last : Timeline ℕ,
      exec step (initial 0 none none) onlyInL2 = some state ∧
      state.step (.get "user:1" : Operation ℕ String) = some next ∧
      (∃ late, next.step (.advance late : Operation ℕ String) = some last) ∧
      ¬ last.ServesNothingExpired) := by
  have htheorem := servesNothingExpired_of_backfillsNoLifetime
    (V := ℕ) (E := String) 0 none none
  constructor
  · have hmeet : StepsMeet step BackfillsNoLifetime (initial 0 none none)
        [.set "user:1" 7 (some hundred),
          (.get "user:1" : Operation ℕ String), .advance 101] := by
      decide +kernel
    have hsome : (exec step (initial 0 none none)
        [.set "user:1" 7 (some hundred),
          (.get "user:1" : Operation ℕ String), .advance 101]).isSome := by
      decide +kernel
    obtain ⟨state, hrun⟩ := Option.isSome_iff_exists.mp hsome
    exact ⟨state, hrun, htheorem.1 _ state hrun hmeet⟩
  · have hmeet : StepsMeet step BackfillsNoLifetime
        (initial 0 none none) onlyInL2 := by
      decide +kernel
    have hsome : ((exec step (initial 0 none none) onlyInL2).map fun state =>
        decide (state.BackfillsNoLifetime
          (.get "user:1" : Operation ℕ String))) = some false := by
      decide +kernel
    obtain ⟨state, hrun, hbreaks⟩ := Option.map_eq_some_iff.mp hsome
    obtain ⟨late, last, hlast, hserves⟩ :=
      htheorem.2 onlyInL2 state _ (.get "user:1") hrun hmeet rfl
        (of_decide_eq_false hbreaks)
    exact ⟨state, _, last, hrun, rfl, ⟨late, hlast⟩, hserves⟩

/-- A value written at 0 with a lifetime of 100 is served at 101. -/
theorem get_serves_expired_value :
    ∃ state : Timeline ℕ,
      exec step (initial 0 none none)
        (onlyInL2 ++ [.get "user:1", .advance 101]) = some state ∧
      state.clock = 101 ∧
      state.lastWrite "user:1" = some ⟨7, 0, some hundred⟩ ∧
      (inMemory.get state.tiers "user:1" state.clock).1 = some 7 ∧
      ¬ state.ServesNothingExpired := by
  have hsome : ((exec step (initial 0 none none)
      (onlyInL2 ++ [.get "user:1", .advance 101])).map fun state =>
        (state.clock, state.lastWrite "user:1",
          (inMemory.get state.tiers "user:1" state.clock).1)) =
      some (101, some ⟨7, 0, some hundred⟩, some 7) := by
    decide +kernel
  obtain ⟨state, hrun, hfacts⟩ := Option.map_eq_some_iff.mp hsome
  simp only [Prod.mk.injEq] at hfacts
  obtain ⟨hclock, hwrite, hget⟩ := hfacts
  refine ⟨state, hrun, hclock, hwrite, hget, fun hserves => ?_⟩
  refine hserves "user:1" _ hundred hwrite rfl ?_ hget
  rw [hclock]
  norm_num [hundred]

end Timeline

end TsCommons.Cache
