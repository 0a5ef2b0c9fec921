import TsCommons.Cache.InMemoryCache
import TsCommons.Foundations.Arrivals
import TsCommons.Foundations.Execution

/-!
# The in-memory cache as a bounded queue of keys

The events of a run say what has become of each key; which keys a step loses
is read off the stores before and after it.  A read answers from the last
write of its key, unless something in the events stands against it, and a
write takes out none but the key that has been in a full store longest.
-/

namespace TsCommons.Cache.BoundedFifo

open Foundations

variable {V : Type}

inductive Event (V : Type)
  | set (key : String) (entry : CacheEntry V)
  | delete (key : String)
  | clear
  | evict (key : String)
  | expire (key : String)
deriving DecidableEq

/-- How the event changes who is in the store. -/
def Event.movement : Event V → Movement String
  | .set key _ => .arrive key
  | .delete key => .leave key
  | .clear => .leaveAll
  | .evict key => .leave key
  | .expire key => .leave key

/-- What the last write of the key has left, if the key has not been deleted,
cleared or evicted since.  The last event comes first. -/
def standing (key : String) : List (Event V) → Option (CacheEntry V)
  | [] => none
  | .set other entry :: earlier =>
      if other = key then some entry else standing key earlier
  | .delete other :: earlier =>
      if other = key then none else standing key earlier
  | .clear :: _ => none
  | .evict other :: earlier =>
      if other = key then none else standing key earlier
  | .expire _ :: earlier => standing key earlier

/-- The answer of the bounded map to a read. -/
def read (key : String) (now : ℚ) (log : List (Event V)) : Option V :=
  match standing key log with
  | none => none
  | some entry => if entry.expired now then none else some entry.value

/-- The first key has been in the store longer than the second. -/
def LongerThere (log : List (Event V)) (first second : String) : Prop :=
  Movement.ArrivedBefore (log.map Event.movement) first second

structure State (V : Type) where
  clock : ℚ
  cache : InMemoryCache V
  log : List (Event V)

def State.initial (now : ℚ) (maxSize : Option ℕ∞) : State V :=
  ⟨now, .create maxSize, []⟩

inductive Label (V : Type)
  | set (key : String) (value : V) (ttl : Option Duration)
  | get (key : String)
  | has (key : String)
  | delete (key : String)
  | clear
  | advance (now : ℚ)
deriving DecidableEq

/-- The keys that are stored before and not after. -/
def lost (before after : InMemoryCache V) : List String :=
  before.store.keys.filter fun key => key ∉ after.store.keys

def State.set (state : State V) (key : String) (value : V)
    (ttl : Option Duration) : State V :=
  let cache := state.cache.set key value ttl state.clock
  let entry := ⟨value, ttl.map fun ttl => state.clock + ttl.milliseconds⟩
  { state with
    cache := cache
    log := .set key entry ::
      ((lost state.cache cache).map .evict ++ state.log) }

/-- A read, of which the cache is left behind. -/
def State.read (state : State V) (cache : InMemoryCache V) : State V :=
  { state with
    cache := cache
    log := (lost state.cache cache).map .expire ++ state.log }

def step (state : State V) : Label V → Option (State V)
  | .set key value ttl => some (state.set key value ttl)
  | .get key => some (state.read (state.cache.getSync key state.clock).2)
  | .has key => some (state.read (state.cache.has key state.clock).2)
  | .delete key =>
      some { state with
        cache := state.cache.delete key, log := .delete key :: state.log }
  | .clear =>
      some { state with cache := state.cache.clear, log := .clear :: state.log }
  | .advance now =>
      if state.clock ≤ now then some { state with clock := now } else none

/-- The key may leave the store at the label: it is deleted, or it is read and
has expired, or another key is written to the full store, in which none of the
others has been as long. -/
def MayLeave (maxSize : ℕ∞) (state : State V) (label : Label V)
    (key : String) : Prop :=
  match label with
  | .delete other => other = key
  | .clear => True
  | .get other => other = key ∧
      ∃ entry ∈ standing key state.log, entry.expired state.clock = true
  | .has other => other = key ∧
      ∃ entry ∈ standing key state.log, entry.expired state.clock = true
  | .set other _ _ => other ∉ state.cache.store.keys ∧
      state.cache.size = maxSize ∧
      ∀ kept ∈ state.cache.store.keys, kept ≠ key →
        LongerThere state.log key kept
  | .advance _ => False

/-! ## The keys -/

variable {state next : State V} {key other : String} {maxSize : ℕ∞}
  {log : List (Event V)}

theorem keys_getSync (cache : InMemoryCache V) (key : String) (now : ℚ) :
    (cache.getSync key now).2.store.keys = cache.store.keys ∨
      (cache.getSync key now).2.store.keys =
        cache.store.keys.filter (· ≠ key) ∧
      ∃ entry, cache.store.get key = some entry ∧
        entry.expired now = true := by
  unfold InMemoryCache.getSync
  cases hentry : cache.store.get key with
  | none => exact .inl rfl
  | some entry =>
      cases hexpired : entry.expired now with
      | false =>
          left
          simp [hexpired]
      | true =>
          right
          refine ⟨?_, entry, rfl, hexpired⟩
          simp only [hexpired, if_true]
          exact InsertionMap.keys_delete _ _

/-- A write of a new key to a full store drops the head of the queue, any other
one drops nothing. -/
theorem keys_set (cache : InMemoryCache V) (key : String) (value : V)
    (ttl : Option Duration) (now : ℚ) :
    (cache.maxEntries ≤ cache.store.size ∧ key ∉ cache.store.keys ∧
      ∃ first, cache.store.keys.head? = some first ∧
        (cache.set key value ttl now).store.keys =
          cache.store.keys.filter (· ≠ first) ++ [key]) ∨
    ((cache.maxEntries ≤ cache.store.size → key ∈ cache.store.keys ∨
        cache.store.keys = []) ∧
      (cache.set key value ttl now).store.keys =
        InsertionSet.place key cache.store.keys) := by
  have hhas : cache.store.has key = true ↔ key ∈ cache.store.keys := by
    rw [InsertionMap.mem_keys_iff]
    rfl
  unfold InMemoryCache.set
  by_cases hfull : cache.maxEntries ≤ cache.store.size ∧ ¬ cache.store.has key
  · have hnew : key ∉ cache.store.keys := fun hmem => hfull.2 (hhas.mpr hmem)
    simp only [if_pos hfull, InMemoryCache.evictOldest]
    cases hhead : cache.store.keys.head? with
    | none =>
        right
        have hnil : cache.store.keys = [] := List.head?_eq_none_iff.mp hhead
        refine ⟨fun _ => .inr hnil, ?_⟩
        rw [InsertionMap.keys_set, InsertionSet.place]
    | some first =>
        left
        refine ⟨hfull.1, hnew, first, rfl, ?_⟩
        have hgone : key ∉ cache.store.keys.filter (· ≠ first) :=
          fun hmem => hnew (List.mem_of_mem_filter hmem)
        rw [InsertionMap.keys_set, InsertionMap.keys_delete, if_neg hgone]
  · right
    simp only [if_neg hfull]
    refine ⟨fun hsize => ?_, ?_⟩
    · by_contra hnot
      exact hfull ⟨hsize, fun hkey => hnot (.inl (hhas.mp hkey))⟩
    · rw [InsertionMap.keys_set, InsertionSet.place]

/-- The key takes its place in what the write leaves of the queue. -/
theorem keys_set_eq_place (cache : InMemoryCache V) (key : String) (value : V)
    (ttl : Option Duration) (now : ℚ) :
    (cache.set key value ttl now).store.keys =
      InsertionSet.place key (cache.store.keys.filter fun other =>
        other ∈ (cache.set key value ttl now).store.keys) := by
  rcases keys_set cache key value ttl now with
    ⟨-, hnew, first, -, hkeys⟩ | ⟨-, hkeys⟩
  · have hrest : (cache.store.keys.filter fun other =>
          other ∈ (cache.set key value ttl now).store.keys) =
        cache.store.keys.filter (· ≠ first) := by
      apply List.filter_congr
      intro other hother
      have hne : other ≠ key := fun heq => hnew (heq ▸ hother)
      simp [hkeys, hother, hne]
    rw [hrest, hkeys, InsertionSet.place, if_neg]
    exact fun hmem => hnew (List.mem_of_mem_filter hmem)
  · have hrest : (cache.store.keys.filter fun other =>
          other ∈ (cache.set key value ttl now).store.keys) =
        cache.store.keys := by
      apply List.filter_eq_self.mpr
      intro other hother
      rw [hkeys]
      exact decide_eq_true (InsertionSet.mem_place.mpr (.inr hother))
    rw [hrest, hkeys]

theorem length_keys_set_le {cache : InMemoryCache V}
    (hsize : (cache.store.keys.length : ℕ∞) ≤ cache.maxEntries)
    (hpos : 1 ≤ cache.maxEntries) (key : String) (value : V)
    (ttl : Option Duration) (now : ℚ) :
    ((cache.set key value ttl now).store.keys.length : ℕ∞) ≤
      cache.maxEntries := by
  rcases keys_set cache key value ttl now with
    ⟨-, -, first, hhead, hkeys⟩ | ⟨hfull, hkeys⟩
  · have hlength : (cache.store.keys.filter (· ≠ first)).length + 1 ≤
        cache.store.keys.length :=
      List.length_filter_lt_length_iff_exists.mpr
        ⟨first, List.mem_of_head? hhead, by simp⟩
    rw [hkeys, List.length_append, List.length_singleton]
    exact (Nat.cast_le.mpr hlength).trans hsize
  · rw [hkeys, InsertionSet.place]
    split
    · exact hsize
    · rename_i hnew
      rw [List.length_append, List.length_singleton, Nat.cast_add,
        Nat.cast_one]
      by_cases hroom : cache.maxEntries ≤ cache.store.size
      · have hnil := (hfull hroom).resolve_left hnew
        simpa [hnil] using hpos
      · have hlt : (cache.store.keys.length : ℕ∞) < cache.maxEntries := by
          rw [InsertionMap.keys, List.length_map]
          exact not_le.mp hroom
        exact Order.add_one_le_of_lt hlt

theorem filter_not_lost (before after : InMemoryCache V) :
    (before.store.keys.filter fun key => key ∉ lost before after) =
      before.store.keys.filter fun key => key ∈ after.store.keys := by
  apply List.filter_congr
  intro key hkey
  simp [lost, hkey]

theorem mem_lost_iff {before after : InMemoryCache V} :
    key ∈ lost before after ↔
      (before.store.get key).isSome ∧ after.store.get key = none := by
  rw [lost, List.mem_filter, InsertionMap.mem_keys_iff, decide_eq_true_iff,
    InsertionMap.mem_keys_iff, Option.not_isSome_iff_eq_none]

theorem standing_evict (keys : List String) (log : List (Event V)) :
    standing key (keys.map .evict ++ log) =
      if key ∈ keys then none else standing key log := by
  induction keys with
  | nil => simp
  | cons other rest ih =>
      rw [List.map_cons, List.cons_append, standing, ih]
      by_cases heq : other = key
      · simp [heq]
      · simp [heq, Ne.symm heq]

theorem standing_expire (keys : List String) (log : List (Event V)) :
    standing key (keys.map .expire ++ log) = standing key log := by
  induction keys with
  | nil => rfl
  | cons other rest ih => rw [List.map_cons, List.cons_append, standing, ih]

theorem map_movement_evict (keys : List String) (log : List (Event V)) :
    (keys.map Event.evict ++ log).map Event.movement =
      keys.map .leave ++ log.map Event.movement := by
  rw [List.map_append, List.map_map]
  rfl

theorem map_movement_expire (keys : List String) (log : List (Event V)) :
    (keys.map Event.expire ++ log).map Event.movement =
      keys.map .leave ++ log.map Event.movement := by
  rw [List.map_append, List.map_map]
  rfl

/-! ## The invariant of a run -/

/-- The queue of the events is the store's, and an entry that the events let
stand is in the store until it has expired. -/
structure Invariant (maxSize : ℕ∞) (state : State V) : Prop where
  maxEntries : state.cache.maxEntries = maxSize
  keys : state.cache.store.keys =
    Movement.queue (state.log.map Event.movement)
  size_le : (state.cache.store.keys.length : ℕ∞) ≤ maxSize
  stored : ∀ key entry, state.cache.store.get key = some entry →
    standing key state.log = some entry
  absent : ∀ key entry, state.cache.store.get key = none →
    standing key state.log = some entry → entry.expired state.clock = true

theorem Invariant.initial (now : ℚ) (maxSize : Option ℕ∞) :
    Invariant (maxSize.getD 1000) (State.initial now maxSize : State V) where
  maxEntries := rfl
  keys := rfl
  size_le := bot_le
  stored := by
    intro key entry hentry
    cases hentry
  absent := by
    intro key entry _ hstanding
    cases hstanding

/-- What is left of the queue when the keys that a step loses are gone. -/
theorem Invariant.queue_leaves (hinv : Invariant maxSize state)
    (after : InMemoryCache V) :
    Movement.queue ((lost state.cache after).map .leave ++
        state.log.map Event.movement) =
      state.cache.store.keys.filter fun key => key ∈ after.store.keys := by
  rw [Movement.queue_leaves, ← hinv.keys, filter_not_lost]

theorem maxEntries_getSync (cache : InMemoryCache V) (key : String)
    (now : ℚ) : (cache.getSync key now).2.maxEntries = cache.maxEntries := by
  unfold InMemoryCache.getSync
  split
  · rfl
  · split
    · rfl
    · rfl

theorem maxEntries_set (cache : InMemoryCache V) (key : String) (value : V)
    (ttl : Option Duration) (now : ℚ) :
    (cache.set key value ttl now).maxEntries = cache.maxEntries := by
  simp only [InMemoryCache.set, InMemoryCache.evictOldest]
  split
  · split
    · rfl
    · rfl
  · rfl

/-- A read drops its key if the entry there has expired. -/
theorem expired_of_lost {cache : InMemoryCache V} {now : ℚ}
    {entry : CacheEntry V} (hentry : cache.store.get other = some entry)
    (hgone : (cache.getSync key now).2.store.get other = none) :
    other = key ∧ entry.expired now = true := by
  have hkeys : other ∉ (cache.getSync key now).2.store.keys := by
    rw [InsertionMap.mem_keys_iff, hgone]
    simp
  have hmem : other ∈ cache.store.keys := by
    rw [InsertionMap.mem_keys_iff, hentry]
    rfl
  rcases keys_getSync cache key now with hsame | ⟨hfilter, found, hfound, hold⟩
  · rw [hsame] at hkeys
    exact absurd hmem hkeys
  · have heq : other = key := by
      by_contra hne
      apply hkeys
      rw [hfilter]
      exact List.mem_filter.mpr ⟨hmem, by simpa using hne⟩
    subst other
    rw [hfound, Option.some.injEq] at hentry
    subst found
    exact ⟨rfl, hold⟩

theorem Invariant.read (hinv : Invariant maxSize state) (key : String) :
    Invariant maxSize
      (state.read (state.cache.getSync key state.clock).2) where
  maxEntries := (maxEntries_getSync _ _ _).trans hinv.maxEntries
  keys := by
    simp only [State.read]
    rw [map_movement_expire, hinv.queue_leaves]
    rcases keys_getSync state.cache key state.clock with
      hsame | ⟨hfilter, -⟩
    · rw [hsame]
      symm
      apply List.filter_eq_self.mpr
      intro other hother
      exact decide_eq_true hother
    · rw [hfilter]
      apply List.filter_congr
      intro other hother
      simp [hother]
  size_le := by
    rcases keys_getSync state.cache key state.clock with
      hsame | ⟨hfilter, -⟩
    · rw [State.read, hsame]
      exact hinv.size_le
    · rw [State.read, hfilter]
      have hlength := List.length_filter_le (· ≠ key) state.cache.store.keys
      exact (Nat.cast_le.mpr hlength).trans hinv.size_le
  stored := by
    intro other entry hentry
    rw [State.read, standing_expire]
    exact hinv.stored other entry (InMemoryCache.get_of_getSync hentry)
  absent := by
    intro other entry hgone hstanding
    rw [State.read, standing_expire] at hstanding
    cases hbefore : state.cache.store.get other with
    | none => exact hinv.absent other entry hbefore hstanding
    | some found =>
        have hfound := hinv.stored other found hbefore
        rw [hstanding, Option.some.injEq] at hfound
        subst found
        exact (expired_of_lost hbefore hgone).2

theorem Invariant.set (hinv : Invariant maxSize state) (hpos : 1 ≤ maxSize)
    (key : String) (value : V) (ttl : Option Duration) :
    Invariant maxSize (state.set key value ttl) where
  maxEntries := (maxEntries_set _ _ _ _ _).trans hinv.maxEntries
  keys := by
    simp only [State.set]
    rw [List.map_cons, map_movement_evict, Event.movement, Movement.queue,
      hinv.queue_leaves]
    exact keys_set_eq_place _ _ _ _ _
  size_le := by
    have hsize := hinv.size_le
    rw [← hinv.maxEntries] at hsize hpos ⊢
    exact length_keys_set_le hsize hpos key value ttl state.clock
  stored := by
    intro other entry hentry
    simp only [State.set, standing] at hentry ⊢
    split
    · rename_i heq
      subst heq
      rw [← hentry]
      exact (InMemoryCache.get_set_self _ _ _ _ _).symm
    · rename_i hne
      have hbefore := InMemoryCache.get_of_set_of_ne (Ne.symm hne) hentry
      rw [standing_evict, if_neg, hinv.stored other entry hbefore]
      intro hlost
      rw [(mem_lost_iff.mp hlost).2] at hentry
      cases hentry
  absent := by
    intro other entry hgone hstanding
    simp only [State.set, standing] at hgone hstanding
    split at hstanding
    · rename_i heq
      subst heq
      rw [InMemoryCache.get_set_self] at hgone
      cases hgone
    · rw [standing_evict] at hstanding
      split at hstanding
      · cases hstanding
      · rename_i hkept
        cases hbefore : state.cache.store.get other with
        | none => exact hinv.absent other entry hbefore hstanding
        | some found =>
            refine absurd (mem_lost_iff.mpr ⟨?_, hgone⟩) hkept
            rw [hbefore]
            rfl

theorem Invariant.delete (hinv : Invariant maxSize state) (key : String) :
    Invariant maxSize
      { state with
        cache := state.cache.delete key, log := .delete key :: state.log } where
  maxEntries := hinv.maxEntries
  keys := by
    simp only [InMemoryCache.delete]
    rw [InsertionMap.keys_delete, List.map_cons, Event.movement,
      Movement.queue, hinv.keys]
  size_le := by
    simp only [InMemoryCache.delete]
    rw [InsertionMap.keys_delete]
    have hlength := List.length_filter_le (· ≠ key) state.cache.store.keys
    exact (Nat.cast_le.mpr hlength).trans hinv.size_le
  stored := by
    intro other entry hentry
    obtain ⟨hne, hbefore⟩ := InMemoryCache.get_of_delete hentry
    rw [standing, if_neg (Ne.symm hne), hinv.stored other entry hbefore]
  absent := by
    intro other entry hgone hstanding
    rw [standing] at hstanding
    split at hstanding
    · cases hstanding
    · rename_i hne
      rw [InMemoryCache.delete,
        InsertionMap.get_delete_of_ne _ (Ne.symm hne)] at hgone
      exact hinv.absent other entry hgone hstanding

theorem Invariant.clear (hinv : Invariant maxSize state) :
    Invariant maxSize
      { state with
        cache := state.cache.clear, log := .clear :: state.log } where
  maxEntries := hinv.maxEntries
  keys := rfl
  size_le := bot_le
  stored := by
    intro key entry hentry
    cases hentry
  absent := by
    intro key entry _ hstanding
    cases hstanding

theorem expired_mono {entry : CacheEntry V} {now later : ℚ}
    (hle : now ≤ later) (hexpired : entry.expired now = true) :
    entry.expired later = true := by
  unfold CacheEntry.expired at hexpired ⊢
  cases hexpiry : entry.expiresAt with
  | none => simp [hexpiry] at hexpired
  | some expiresAt =>
      simp only [hexpiry, decide_eq_true_iff] at hexpired ⊢
      exact lt_of_lt_of_le hexpired hle

theorem Invariant.step {label : Label V} (hinv : Invariant maxSize state)
    (hpos : 1 ≤ maxSize) (hstep : step state label = some next) :
    Invariant maxSize next := by
  cases label with
  | set key value ttl =>
      cases hstep
      exact hinv.set hpos key value ttl
  | get key =>
      cases hstep
      exact hinv.read key
  | has key =>
      cases hstep
      exact hinv.read key
  | delete key =>
      cases hstep
      exact hinv.delete key
  | clear =>
      cases hstep
      exact hinv.clear
  | advance now =>
      rw [BoundedFifo.step, Option.ite_none_right_eq_some,
        Option.some.injEq] at hstep
      obtain ⟨hle, rfl⟩ := hstep
      exact
        { hinv with
          absent := fun key entry hgone hstanding =>
            expired_mono hle (hinv.absent key entry hgone hstanding) }

/-! ## Reads and evictions -/

theorem Invariant.getSync_eq_read (hinv : Invariant maxSize state)
    (key : String) :
    (state.cache.getSync key state.clock).1 =
      BoundedFifo.read key state.clock state.log := by
  unfold InMemoryCache.getSync BoundedFifo.read
  cases hentry : state.cache.store.get key with
  | some entry =>
      rw [hinv.stored key entry hentry]
      cases hexpired : entry.expired state.clock <;> simp [hexpired]
  | none =>
      cases hstanding : standing key state.log with
      | none => rfl
      | some entry =>
          have hexpired := hinv.absent key entry hentry hstanding
          simp [hexpired]

theorem Invariant.mayLeave_read (hinv : Invariant maxSize state)
    (hstored : key ∈ state.cache.store.keys)
    (hgone : key ∉ (state.cache.getSync other state.clock).2.store.keys) :
    other = key ∧
      ∃ entry ∈ standing key state.log,
        entry.expired state.clock = true := by
  obtain ⟨entry, hentry⟩ :=
    Option.isSome_iff_exists.mp (InsertionMap.mem_keys_iff.mp hstored)
  rw [InsertionMap.mem_keys_iff, Option.not_isSome_iff_eq_none] at hgone
  obtain ⟨heq, hexpired⟩ := expired_of_lost hentry hgone
  exact ⟨heq.symm, entry, hinv.stored key entry hentry, hexpired⟩

theorem Invariant.mayLeave (hinv : Invariant maxSize state) {label : Label V}
    (hstep : BoundedFifo.step state label = some next)
    (hstored : key ∈ state.cache.store.keys)
    (hgone : key ∉ next.cache.store.keys) :
    MayLeave maxSize state label key := by
  cases label with
  | set other value ttl =>
      cases hstep
      simp only [State.set] at hgone
      rcases keys_set state.cache other value ttl state.clock with
        ⟨hfull, hnew, first, hhead, hkeys⟩ | ⟨-, hkeys⟩
      · have heq : key = first := by
          by_contra hne
          apply hgone
          rw [hkeys]
          apply List.mem_append_left
          exact List.mem_filter.mpr ⟨hstored, by simpa using hne⟩
        subst heq
        refine ⟨hnew, ?_, fun kept hkept hne => ?_⟩
        · have hsize : (state.cache.store.size : ℕ∞) ≤ maxSize := by
            have hle := hinv.size_le
            rw [InsertionMap.keys, List.length_map] at hle
            exact hle
          exact le_antisymm hsize (hinv.maxEntries ▸ hfull)
        · rw [hinv.keys] at hhead hkept
          exact Movement.arrivedBefore_of_head? hhead hkept hne
      · rw [hkeys] at hgone
        exact absurd (InsertionSet.mem_place.mpr (.inr hstored)) hgone
  | get other =>
      cases hstep
      exact hinv.mayLeave_read hstored hgone
  | has other =>
      cases hstep
      exact hinv.mayLeave_read hstored hgone
  | delete other =>
      cases hstep
      by_contra hne
      apply hgone
      simp only [InMemoryCache.delete]
      rw [InsertionMap.keys_delete]
      exact List.mem_filter.mpr
        ⟨hstored, by simpa using fun heq => hne heq.symm⟩
  | clear => trivial
  | advance now =>
      rw [BoundedFifo.step, Option.ite_none_right_eq_some,
        Option.some.injEq] at hstep
      obtain ⟨-, rfl⟩ := hstep
      exact absurd hstored hgone

/-- The store keeps to its bound, a read answers what the last write of its
key has left, and a write evicts none but the key that has been in the full
store longest. -/
theorem refines_bounded_fifo (now : ℚ) (maxSize : Option ℕ∞)
    (hpos : 1 ≤ maxSize.getD 1000) (labels : List (Label V)) (state : State V)
    (hrun : exec step (State.initial now maxSize) labels = some state) :
    (state.cache.size : ℕ∞) ≤ maxSize.getD 1000 ∧
    (∀ key,
      (state.cache.getSync key state.clock).1 =
        read key state.clock state.log ∧
      (state.cache.has key state.clock).1 =
        (read key state.clock state.log).isSome) ∧
    (∀ label next key, step state label = some next →
      key ∈ state.cache.store.keys → key ∉ next.cache.store.keys →
        MayLeave (maxSize.getD 1000) state label key) := by
  have hinv : Invariant (maxSize.getD 1000) state :=
    exec_invariant (fun _ _ _ hinv hstep => hinv.step hpos hstep)
      (Invariant.initial now maxSize) hrun
  refine ⟨?_, fun key => ⟨hinv.getSync_eq_read key, ?_⟩, ?_⟩
  · have hsize := hinv.size_le
    rw [InsertionMap.keys, List.length_map] at hsize
    exact hsize
  · rw [← hinv.getSync_eq_read key]
    rfl
  · intro label next key hstep hstored hgone
    exact hinv.mayLeave hstep hstored hgone

/-- The first of two keys is written again before the store is full. -/
def writtenAgain : List (Label ℕ) :=
  [.set "a" 1 none, .set "b" 2 (some ⟨100, by decide⟩), .set "a" 3 none,
    .advance 101]

theorem refines_bounded_fifo_sample :
    ∃ state next : State ℕ,
      exec step (State.initial 0 (some 2)) writtenAgain = some state ∧
      step state (.set "c" 4 none) = some next ∧
      (state.cache.size : ℕ∞) ≤ 2 ∧
      (state.cache.getSync "a" state.clock).1 =
        read "a" state.clock state.log ∧
      LongerThere state.log "a" "b" := by
  have hend : (exec step (State.initial 0 (some 2)) writtenAgain).any
      (fun state => decide ("a" ∈ state.cache.store.keys ∧
        "b" ∈ state.cache.store.keys ∧
        "a" ∉ (state.set "c" 4 none).cache.store.keys)) = true := by
    decide +kernel
  obtain ⟨state, hrun, hfacts⟩ := (Option.any_eq_true _ _).mp hend
  obtain ⟨ha, hb, hgone⟩ := of_decide_eq_true hfacts
  obtain ⟨hsize, hreads, hleaves⟩ :=
    refines_bounded_fifo 0 (some 2) one_le_two writtenAgain state hrun
  have hleave := hleaves (.set "c" 4 none) _ "a" rfl ha hgone
  exact ⟨state, _, hrun, rfl, hsize, (hreads "a").1,
    hleave.2.2 "b" hb (by decide)⟩

end TsCommons.Cache.BoundedFifo
