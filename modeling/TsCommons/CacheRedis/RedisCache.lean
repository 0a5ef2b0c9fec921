import TsCommons.Foundations.Execution
import TsCommons.Foundations.JsonRoundTrip
import Mathlib.Data.Rat.Defs
import Mathlib.Logic.Function.Basic

/-!
# The cache over Redis

`RedisClientLike` is the client of a server outside the repository.  A server
is given by what it stores at each time of its clock and by what SET and DEL
change of that.  The cache writes JSON texts to it and refines a memory of
values that last until they are deleted, replaced or too old.
-/

namespace TsCommons.CacheRedis

open Foundations

/-! ## The server -/

/-- `NX`, and the milliseconds behind `PX`. -/
structure SetOptions where
  nx : Bool
  px : Option ℚ

inductive SetReply
  | ok
  | nil
  | error
deriving DecidableEq

/-- The time at which a value set with `PX` at a time lapses; Redis refuses
milliseconds that are no positive integer. -/
def deadline (now : ℕ) (px : ℚ) : Option ℕ :=
  if px.den = 1 ∧ 0 < px.num then some (now + px.num.toNat) else none

def SetOptions.valid (options : SetOptions) (now : ℕ) : Bool :=
  options.px.all fun px => (deadline now px).isSome

/-- A Redis server, observed through the value it stores for a key at a time.
Nothing is promised about the very moment at which a value lapses. -/
structure RedisServer (σ : Type) where
  value : σ → ℕ → Text → Option Text
  set : σ → ℕ → Text → Text → SetOptions → σ × SetReply
  del : σ → ℕ → Text → σ
  empty : σ
  lapsed : ℕ → ℕ → Bool
  value_empty : ∀ now key, value empty now key = none
  lapsed_of_gt : ∀ limit now, limit < now → lapsed limit now = true
  lapsed_of_lt : ∀ limit now, now < limit → lapsed limit now = false
  reply_set : ∀ store now key text options,
    (set store now key text options).2 =
      if options.valid now = false then .error
      else if options.nx = true ∧ (value store now key).isSome = true then .nil
      else .ok
  value_set : ∀ store now key text options later other, now ≤ later →
    value (set store now key text options).1 later other =
      if other = key ∧ (set store now key text options).2 = .ok then
        if (options.px.bind (deadline now)).any (lapsed · later) then none
        else some text
      else value store later other
  value_del : ∀ store now key later other, now ≤ later →
    value (del store now key) later other =
      if other = key then none else value store later other

namespace RedisServer

/-- The commands with values kept beside their times to lapse. -/
def reference : RedisServer (Text → Option (Text × Option ℕ)) where
  value store now key :=
    (store key).bind fun entry =>
      if entry.2.any (decide <| · < now) then none else some entry.1
  set store now key text options :=
    if options.valid now = false then (store, .error)
    else if options.nx = true ∧
        ((store key).bind fun entry =>
          if entry.2.any (decide <| · < now) then none
          else some entry.1).isSome = true then
      (store, .nil)
    else
      (Function.update store key
        (some (text, options.px.bind (deadline now))), .ok)
  del store _ key := Function.update store key none
  empty _ := none
  lapsed limit now := limit < now
  value_empty _ _ := rfl
  lapsed_of_gt _ _ hlt := decide_eq_true hlt
  lapsed_of_lt _ _ hlt := decide_eq_false hlt.not_gt
  reply_set store now key text options := by
    split
    · rfl
    · split
      · rfl
      · rfl
  value_set store now key text options later other _ := by
    split
    · rw [if_neg (by simp)]
    · split
      · rw [if_neg (by simp)]
      · by_cases hkey : other = key
        · subst other
          simp
        · simp [hkey]
  value_del store now key later other _ := by
    by_cases hkey : other = key
    · subst other
      simp
    · simp [hkey]

end RedisServer

/-! ## The cache -/

variable {σ N : Type}

structure RedisCache (σ N : Type) where
  client : RedisServer σ
  numbers : Json.NumberFormat N

namespace RedisCache

/-- What `get` answers: `none` where it rejects, since the text it reads is no
JSON text. -/
def get (cache : RedisCache σ N) (store : σ) (now : ℕ) (key : Text) :
    Option (Option (Json N)) :=
  match cache.client.value store now key with
  | none => some none
  | some raw => (Json.parse cache.numbers raw).map some

def set (cache : RedisCache σ N) (store : σ) (now : ℕ) (key : Text)
    (value : Json N) (ttl : Option ℚ) : σ × SetReply :=
  let serialized := Json.stringify cache.numbers value
  match ttl with
  | none => cache.client.set store now key serialized ⟨false, none⟩
  | some ttl => cache.client.set store now key serialized ⟨false, some ttl⟩

def delete (cache : RedisCache σ N) (store : σ) (now : ℕ) (key : Text) : σ :=
  cache.client.del store now key

def has (cache : RedisCache σ N) (store : σ) (now : ℕ) (key : Text) : Bool :=
  (cache.client.value store now key).isSome

end RedisCache

/-! ## Requests -/

inductive CacheRequest (N : Type)
  | advance (elapsed : ℕ)
  | set (key : Text) (value : Json N) (ttl : Option ℚ)
  | delete (key : Text)
  | get (key : Text)
  | has (key : Text)

inductive CacheAnswer (N : Type)
  | stored (reply : SetReply)
  | deleted
  | found (value : Option (Option (Json N)))
  | exists (present : Bool)

/-- The store with the clock of its server, and the answers so far. -/
structure CacheState (σ N : Type) where
  store : σ
  now : ℕ
  answers : List (CacheAnswer N)

def RedisCache.perform (cache : RedisCache σ N) (state : CacheState σ N) :
    CacheRequest N → CacheState σ N
  | .advance elapsed => { state with now := state.now + elapsed }
  | .set key value ttl =>
      let result := cache.set state.store state.now key value ttl
      { state with
        store := result.1
        answers := state.answers ++ [.stored result.2] }
  | .delete key =>
      { state with
        store := cache.delete state.store state.now key
        answers := state.answers ++ [.deleted] }
  | .get key =>
      { state with
        answers := state.answers ++
          [.found (cache.get state.store state.now key)] }
  | .has key =>
      { state with
        answers := state.answers ++
          [.exists (cache.has state.store state.now key)] }

def RedisCache.run (cache : RedisCache σ N) (now : ℕ)
    (requests : List (CacheRequest N)) : CacheState σ N :=
  requests.foldl cache.perform ⟨cache.client.empty, now, []⟩

/-! ## A memory of values -/

/-- The values themselves, each with the time at which it lapses. -/
abbrev Memory (N : Type) := Text → Option (Json N × Option ℕ)

/-- What the memory holds for a key at a time. -/
def Memory.recall (lapsed : ℕ → ℕ → Bool) (memory : Memory N) (now : ℕ)
    (key : Text) : Option (Json N) :=
  (memory key).bind fun entry =>
    if entry.2.any (lapsed · now) then none else some entry.1

def Memory.perform (lapsed : ℕ → ℕ → Bool)
    (state : CacheState (Memory N) N) :
    CacheRequest N → CacheState (Memory N) N
  | .advance elapsed => { state with now := state.now + elapsed }
  | .set key value ttl =>
      let limit := ttl.map (deadline state.now)
      if limit = some none then
        { state with answers := state.answers ++ [.stored .error] }
      else
        { state with
          store := Function.update state.store key
            (some (value, limit.join))
          answers := state.answers ++ [.stored .ok] }
  | .delete key =>
      { state with
        store := Function.update state.store key none
        answers := state.answers ++ [.deleted] }
  | .get key =>
      { state with
        answers := state.answers ++
          [.found (some (state.store.recall lapsed state.now key))] }
  | .has key =>
      { state with
        answers := state.answers ++
          [.exists (state.store.recall lapsed state.now key).isSome] }

def Memory.run (lapsed : ℕ → ℕ → Bool) (now : ℕ)
    (requests : List (CacheRequest N)) : CacheState (Memory N) N :=
  requests.foldl (Memory.perform lapsed) ⟨fun _ => none, now, []⟩

/-- The values that a request writes are JSON values: the numbers are finite
and the keys of an object distinct. -/
def CacheRequest.Storable (numbers : Json.NumberFormat N) :
    CacheRequest N → Prop
  | .set _ value _ => Json.WellFormed numbers value
  | _ => True

/-- The server stores the texts of what the memory holds, now and as long as
nothing is changed. -/
structure Refines (cache : RedisCache σ N) (state : CacheState σ N)
    (memory : CacheState (Memory N) N) : Prop where
  now : state.now = memory.now
  answers : state.answers = memory.answers
  stored : ∀ later key, state.now ≤ later →
    cache.client.value state.store later key =
      (memory.store.recall cache.client.lapsed later key).map
        (Json.stringify cache.numbers)
  wellFormed : ∀ key value limit, memory.store key = some (value, limit) →
    Json.WellFormed cache.numbers value

section Refinement

variable {cache : RedisCache σ N} {state : CacheState σ N}
  {memory : CacheState (Memory N) N} {request : CacheRequest N}
  {requests : List (CacheRequest N)}

theorem wellFormed_of_recall {store : Memory N} {lapsed : ℕ → ℕ → Bool}
    {now : ℕ} {key : Text} {value : Json N}
    (hwellFormed : ∀ key value limit, store key = some (value, limit) →
      Json.WellFormed cache.numbers value)
    (hrecall : store.recall lapsed now key = some value) :
    Json.WellFormed cache.numbers value := by
  obtain ⟨entry, hentry, hvalue⟩ := Option.bind_eq_some_iff.mp hrecall
  rw [Option.ite_none_left_eq_some, Option.some.injEq] at hvalue
  rw [← hvalue.2]
  exact hwellFormed key entry.1 entry.2 hentry

theorem Refines.get (hrefines : Refines cache state memory) (key : Text) :
    cache.get state.store state.now key =
      some (memory.store.recall cache.client.lapsed memory.now key) := by
  have hstored := hrefines.stored state.now key le_rfl
  rw [hrefines.now] at hstored
  rw [RedisCache.get, hrefines.now, hstored]
  cases hrecall :
      memory.store.recall cache.client.lapsed memory.now key with
  | none => rfl
  | some value =>
      have hvalue := wellFormed_of_recall hrefines.wellFormed hrecall
      simp only [Option.map_some, Json.parse_stringify hvalue]

theorem Refines.has (hrefines : Refines cache state memory) (key : Text) :
    cache.has state.store state.now key =
      (memory.store.recall cache.client.lapsed memory.now key).isSome := by
  have hstored := hrefines.stored state.now key le_rfl
  rw [hrefines.now] at hstored
  rw [RedisCache.has, hrefines.now, hstored, Option.isSome_map]

theorem recall_update {store : Memory N} {lapsed : ℕ → ℕ → Bool}
    (key : Text) (entry : Option (Json N × Option ℕ)) (now : ℕ)
    (other : Text) :
    Memory.recall lapsed (Function.update store key entry) now other =
      if other = key then
        entry.bind fun entry =>
          if entry.2.any (lapsed · now) then none else some entry.1
      else store.recall lapsed now other := by
  unfold Memory.recall
  by_cases hkey : other = key
  · subst other
    rw [Function.update_self, if_pos rfl]
  · rw [Function.update_of_ne hkey, if_neg hkey]

theorem wellFormed_update {store : Memory N} {key : Text} {value : Json N}
    {limit : Option ℕ}
    (hwellFormed : ∀ key value limit, store key = some (value, limit) →
      Json.WellFormed cache.numbers value)
    (hvalue : Json.WellFormed cache.numbers value) :
    ∀ other found last,
      (Function.update store key (some (value, limit))) other =
        some (found, last) →
      Json.WellFormed cache.numbers found := by
  intro other found last hfound
  by_cases hkey : other = key
  · subst other
    rw [Function.update_self] at hfound
    cases hfound
    exact hvalue
  · rw [Function.update_of_ne hkey] at hfound
    exact hwellFormed other found last hfound

/-- One SET without `NX`, as the cache sends it. -/
theorem RedisCache.set_eq (cache : RedisCache σ N) (store : σ) (now : ℕ)
    (key : Text) (value : Json N) (ttl : Option ℚ) :
    cache.set store now key value ttl =
      cache.client.set store now key (Json.stringify cache.numbers value)
        ⟨false, ttl⟩ := by
  cases ttl with
  | none => rfl
  | some ttl => rfl

theorem RedisCache.snd_set (cache : RedisCache σ N) (store : σ) (now : ℕ)
    (key : Text) (value : Json N) (ttl : Option ℚ) :
    (cache.set store now key value ttl).2 =
      if ttl.map (deadline now) = some none then .error else .ok := by
  rw [cache.set_eq, cache.client.reply_set, SetOptions.valid]
  cases ttl with
  | none => simp
  | some ttl =>
      cases hdeadline : deadline now ttl with
      | none => simp [hdeadline]
      | some limit => simp [hdeadline]

theorem Refines.set (hrefines : Refines cache state memory) (key : Text)
    {value : Json N} (ttl : Option ℚ)
    (hvalue : Json.WellFormed cache.numbers value) :
    Refines cache (cache.perform state (.set key value ttl))
      (Memory.perform cache.client.lapsed memory (.set key value ttl)) := by
  have hreply := cache.snd_set state.store state.now key value ttl
  simp only [RedisCache.perform, Memory.perform]
  rw [← hrefines.now]
  split
  next hinvalid =>
    rw [if_pos hinvalid] at hreply
    refine ⟨rfl, ?_, ?_, hrefines.wellFormed⟩
    · rw [hreply, hrefines.answers]
    · intro later other hlater
      change cache.client.value
        (cache.set state.store state.now key value ttl).1 later other = _
      rw [cache.set_eq] at hreply ⊢
      rw [cache.client.value_set _ _ _ _ _ _ _ hlater, hreply,
        if_neg (by simp)]
      exact hrefines.stored later other hlater
  next hvalid =>
    rw [if_neg hvalid] at hreply
    refine ⟨rfl, ?_, ?_, ?_⟩
    · rw [hreply, hrefines.answers]
    · intro later other hlater
      change cache.client.value
        (cache.set state.store state.now key value ttl).1 later other = _
      rw [cache.set_eq] at hreply ⊢
      rw [cache.client.value_set _ _ _ _ _ _ _ hlater, hreply,
        recall_update]
      have hlimit : ttl.bind (deadline state.now) =
          (ttl.map (deadline state.now)).join := by
        cases ttl with
        | none => rfl
        | some ttl => rfl
      by_cases hkey : other = key
      · rw [if_pos ⟨hkey, rfl⟩, if_pos hkey, Option.bind_some, hlimit]
        split
        · rfl
        · rfl
      · rw [if_neg (fun hboth => hkey hboth.1), if_neg hkey]
        exact hrefines.stored later other hlater
    · exact wellFormed_update hrefines.wellFormed hvalue

theorem Refines.delete (hrefines : Refines cache state memory) (key : Text) :
    Refines cache (cache.perform state (.delete key))
      (Memory.perform cache.client.lapsed memory (.delete key)) where
  now := hrefines.now
  answers := by
    simp only [RedisCache.perform, Memory.perform, hrefines.answers]
  stored := by
    intro later other hlater
    change state.now ≤ later at hlater
    change cache.client.value
      (cache.client.del state.store state.now key) later other = _
    rw [cache.client.value_del _ _ _ _ _ hlater]
    simp only [Memory.perform, recall_update]
    split
    · rfl
    · exact hrefines.stored later other hlater
  wellFormed := by
    intro other found last hfound
    simp only [Memory.perform] at hfound
    by_cases hkey : other = key
    · subst other
      rw [Function.update_self] at hfound
      cases hfound
    · rw [Function.update_of_ne hkey] at hfound
      exact hrefines.wellFormed other found last hfound

theorem Refines.perform (hrefines : Refines cache state memory)
    (hstorable : request.Storable cache.numbers) :
    Refines cache (cache.perform state request)
      (Memory.perform cache.client.lapsed memory request) := by
  cases request with
  | advance elapsed =>
      refine ⟨?_, hrefines.answers, ?_, hrefines.wellFormed⟩
      · simp only [RedisCache.perform, Memory.perform, hrefines.now]
      · intro later key hlater
        exact hrefines.stored later key
          ((Nat.le_add_right _ _).trans hlater)
  | set key value ttl => exact hrefines.set key ttl hstorable
  | delete key => exact hrefines.delete key
  | get key =>
      refine ⟨hrefines.now, ?_, hrefines.stored, hrefines.wellFormed⟩
      simp only [RedisCache.perform, Memory.perform, hrefines.get key,
        hrefines.answers]
  | has key =>
      refine ⟨hrefines.now, ?_, hrefines.stored, hrefines.wellFormed⟩
      simp only [RedisCache.perform, Memory.perform, hrefines.has key,
        hrefines.answers]

theorem refines_foldl (hrefines : Refines cache state memory)
    (hstorable : ∀ request ∈ requests, request.Storable cache.numbers) :
    Refines cache (requests.foldl cache.perform state)
      (requests.foldl (Memory.perform cache.client.lapsed) memory) := by
  induction requests generalizing state memory with
  | nil => exact hrefines
  | cons request requests ih =>
      apply ih (hrefines.perform (hstorable request List.mem_cons_self))
      intro other hother
      exact hstorable other (List.mem_cons_of_mem request hother)

end Refinement

/-- Over every server, the cache answers every sequence of requests as the
memory of the values does. -/
theorem answers_run (cache : RedisCache σ N) (now : ℕ)
    (requests : List (CacheRequest N))
    (hstorable : ∀ request ∈ requests, request.Storable cache.numbers) :
    (cache.run now requests).answers =
      (Memory.run cache.client.lapsed now requests).answers := by
  have hempty : Refines cache (⟨cache.client.empty, now, []⟩ : CacheState σ N)
      ⟨fun _ => none, now, []⟩ :=
    { now := rfl
      answers := rfl
      stored := fun later key _ => cache.client.value_empty later key
      wellFormed := fun _ _ _ hnone => nomatch hnone }
  exact (refines_foldl hempty hstorable).answers

theorem answers_run_of_lapsedSet :
    (RedisCache.run ⟨RedisServer.reference, Json.decimal⟩ 0
      [.set ['k'] (.number 5) (some 10), .advance 11, .get ['k']]).answers =
        [.stored .ok, .found (some none)] := by
  refine (answers_run _ 0 _ ?_).trans rfl
  simp [CacheRequest.Storable, Json.WellFormed, Json.decimal]

end TsCommons.CacheRedis
