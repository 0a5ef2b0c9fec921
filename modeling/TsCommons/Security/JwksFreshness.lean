import TsCommons.Security.JwksClient

/-!
# Fresh and complete answers of the JWKS client

An answer of the client is fresh when its keys come from a document that was
fetched at most the time to live before the call, and complete when it holds
all keys of the last document.
-/

namespace TsCommons.Security.JwksFreshness

open Foundations

/-- A document that was fetched. -/
structure Fetched where
  keys : List JwksKey
  fetchedAt : ℤ
deriving DecidableEq

/-- What a call returned; `all` tells `getKeys` from `getKey`. -/
structure Answer where
  calledAt : ℤ
  keys : List JwksKey
  all : Bool
deriving DecidableEq

/-- `answer` is that of the last call, if it did not throw. -/
structure State where
  client : JwksClient
  clock : ℤ
  fetched : List Fetched
  answer : Option Answer
deriving DecidableEq

def State.initial (cacheTtlMs : Option ℕ) (clock : ℤ) : State :=
  ⟨JwksClient.create cacheTtlMs, clock, [], none⟩

def documents : FetchOutcome → List Fetched
  | .document keys fetchedAt => [⟨keys, fetchedAt⟩]
  | _ => []

def NotBefore (now : ℤ) : FetchOutcome → Prop
  | .document _ fetchedAt => now ≤ fetchedAt
  | _ => True

instance NotBefore.decidable (now : ℤ) :
    (outcome : FetchOutcome) → Decidable (NotBefore now outcome)
  | .document _ fetchedAt => inferInstanceAs (Decidable (now ≤ fetchedAt))
  | .refused _ _ => inferInstanceAs (Decidable True)
  | .threw _ => inferInstanceAs (Decidable True)

namespace State

/-- There are no keys before a document has been fetched. -/
def lastKeys (state : State) : List JwksKey :=
  (state.fetched.getLast?.map Fetched.keys).getD []

/-- The call has ended, with the documents that it fetched. -/
def after (state : State) (now : ℤ) (fetched : List Fetched)
    (result : Except String (JwksClient × Answer)) : State :=
  match result with
  | .error _ => { state with clock := now, answer := none }
  | .ok (client, answer) =>
      { client
        clock := fetched.foldl (fun _ document => document.fetchedAt) now
        fetched := state.fetched ++ fetched
        answer := some answer }

def getKeys (state : State) (forceRefresh : Bool) (now : ℤ)
    (outcome : FetchOutcome) : State :=
  state.after now
    (if forceRefresh ∨ state.client.IsCacheStale now then documents outcome
      else [])
    ((state.client.getKeys forceRefresh now outcome).map fun result =>
      (result.1, ⟨now, result.2, true⟩))

def getKey (state : State) (kid : String) (now : ℤ) (outcome : FetchOutcome) :
    State :=
  state.after now
    (if (state.client.cache.get kid).isNone then documents outcome else [])
    ((state.client.getKey kid outcome).map fun result =>
      (result.1, ⟨now, result.2.toList, false⟩))

end State

inductive Label
  | getKeys (forceRefresh : Bool) (now : ℤ) (outcome : FetchOutcome)
  | getKey (kid : String) (now : ℤ) (outcome : FetchOutcome)
  | clearCache

def step (state : State) : Label → Option State
  | .getKeys forceRefresh now outcome =>
      if state.clock ≤ now ∧ NotBefore now outcome then
        some (state.getKeys forceRefresh now outcome)
      else none
  | .getKey kid now outcome =>
      if state.clock ≤ now ∧ NotBefore now outcome then
        some (state.getKey kid now outcome)
      else none
  | .clearCache =>
      some { state with client := state.client.clearCache, answer := none }

/-- The keys of the last answer belong to a document that was fetched at most
the time to live before the call, and those of `getKeys` are all keys of the
last document. -/
def AnswerLaw (state : State) : Prop :=
  ∀ answer ∈ state.answer,
    (∀ key ∈ answer.keys, ∃ document ∈ state.fetched, key ∈ document.keys ∧
      answer.calledAt - document.fetchedAt ≤ state.client.cacheTtlMs) ∧
    (answer.all = true → ∀ key,
      key ∈ answer.keys ↔ key ∈ state.lastKeys)

/-- No two different keys share an id. -/
def Distinct (keys : List JwksKey) : Prop :=
  ∀ first ∈ keys, ∀ second ∈ keys,
    JwksClient.keyId first = JwksClient.keyId second → first = second

instance Distinct.decidable (keys : List JwksKey) : Decidable (Distinct keys) :=
  inferInstanceAs (Decidable (∀ first ∈ keys, ∀ second ∈ keys,
    JwksClient.keyId first = JwksClient.keyId second → first = second))

/-- `getKey` finds no key in a stale cache, and `getKeys` neither reads the
keys of a document in which two share an id, nor a cache that was cleared, of
a document that has keys. -/
def ReadsCurrent (state : State) : Label → Prop
  | .getKeys forceRefresh now outcome =>
      if forceRefresh ∨ state.client.IsCacheStale now then
        ∀ document ∈ documents outcome, Distinct document.keys
      else Distinct state.lastKeys ∧
        (state.client.cache.size = 0 → state.lastKeys = [])
  | .getKey kid now _ =>
      (state.client.cache.get kid).isSome → ¬ state.client.IsCacheStale now
  | .clearCache => True

instance ReadsCurrent.decidable (state : State) :
    (label : Label) → Decidable (ReadsCurrent state label)
  | .getKeys forceRefresh now outcome => inferInstanceAs (Decidable (
      if forceRefresh ∨ state.client.IsCacheStale now then
        ∀ document ∈ documents outcome, Distinct document.keys
      else Distinct state.lastKeys ∧
        (state.client.cache.size = 0 → state.lastKeys = [])))
  | .getKey kid now _ => inferInstanceAs (Decidable (
      (state.client.cache.get kid).isSome → ¬ state.client.IsCacheStale now))
  | .clearCache => inferInstanceAs (Decidable True)

variable {state next : State} {label : Label} {now : ℤ}
  {outcome : FetchOutcome} {last document : Fetched}

/-! ## The cache and the last document -/

/-- The cache holds the keys of the last document by their ids, unless it is
empty, and documents were fetched one after the other. -/
structure Invariant (state : State) : Prop where
  cached : state.client.cache = .empty ∨ ∃ last,
    state.fetched.getLast? = some last ∧
      state.client.cache = .indexBy JwksClient.keyId last.keys ∧
      state.client.lastFetch = last.fetchedAt
  ordered : ∀ document ∈ state.fetched, document.fetchedAt ≤ state.clock
  latest : ∀ last, state.fetched.getLast? = some last →
    ∀ document ∈ state.fetched, document.fetchedAt ≤ last.fetchedAt

theorem invariant_initial (cacheTtlMs : Option ℕ) (clock : ℤ) :
    Invariant (State.initial cacheTtlMs clock) := by
  refine ⟨.inl rfl, ?_, ?_⟩
  · intro document hmem
    cases hmem
  · intro last hlast
    cases hlast

/-- A call that throws. -/
theorem Invariant.thrown (hinv : Invariant state) (hnow : state.clock ≤ now)
    (message : String) (fetched : List Fetched) :
    Invariant (state.after now fetched (.error message)) := by
  refine ⟨hinv.cached, ?_, hinv.latest⟩
  intro document hmem
  exact Int.le_trans (hinv.ordered document hmem) hnow

/-- A call that is answered from the cache. -/
theorem Invariant.answered (hinv : Invariant state) (hnow : state.clock ≤ now)
    (answer : Answer) :
    Invariant (state.after now [] (.ok (state.client, answer))) := by
  simp only [State.after, List.append_nil, List.foldl_nil]
  refine ⟨hinv.cached, ?_, hinv.latest⟩
  intro document hmem
  exact Int.le_trans (hinv.ordered document hmem) hnow

/-- A call that fetches a document. -/
theorem Invariant.refreshed (hinv : Invariant state) (hnow : state.clock ≤ now)
    (keys : List JwksKey) {fetchedAt : ℤ} (hfetched : now ≤ fetchedAt)
    (answer : Answer) :
    Invariant (state.after now [⟨keys, fetchedAt⟩]
      (.ok (state.client.fill keys fetchedAt, answer))) := by
  have hbefore : ∀ document ∈ state.fetched ++ [⟨keys, fetchedAt⟩],
      document.fetchedAt ≤ fetchedAt := by
    intro document hmem
    rcases List.mem_append.mp hmem with hold | hnew
    · exact Int.le_trans (hinv.ordered document hold)
        (Int.le_trans hnow hfetched)
    · exact Int.le_of_eq
        (congrArg Fetched.fetchedAt (List.mem_singleton.mp hnew))
  refine ⟨.inr ⟨⟨keys, fetchedAt⟩, ?_, rfl, rfl⟩, hbefore, ?_⟩
  · exact List.getLast?_concat
  · intro last hlast
    have hsame := List.getLast?_concat.symm.trans hlast
    rw [← Option.some.inj hsame]
    exact hbefore

/-! ## The ways in which a call ends -/

theorem getKeys_of_cached {forceRefresh : Bool}
    (hcached : ¬ (forceRefresh ∨ state.client.IsCacheStale now)) :
    state.getKeys forceRefresh now outcome =
      state.after now [] (.ok (state.client,
        ⟨now, state.client.cache.values, true⟩)) := by
  simp only [State.getKeys, JwksClient.getKeys, if_neg hcached]
  rfl

theorem getKeys_of_fetched {forceRefresh : Bool} {keys : List JwksKey}
    {fetchedAt : ℤ} (hfetches : forceRefresh ∨ state.client.IsCacheStale now) :
    state.getKeys forceRefresh now (.document keys fetchedAt) =
      state.after now [⟨keys, fetchedAt⟩]
        (.ok (state.client.fill keys fetchedAt,
          ⟨now, (state.client.fill keys fetchedAt).cache.values, true⟩)) := by
  simp only [State.getKeys, JwksClient.getKeys, if_pos hfetches]
  rfl

theorem getKey_of_cached {kid : String} {key : JwksKey}
    (hcached : state.client.cache.get kid = some key) :
    state.getKey kid now outcome =
      state.after now [] (.ok (state.client, ⟨now, [key], false⟩)) := by
  simp only [State.getKey, JwksClient.getKey, hcached]
  rfl

theorem getKey_of_fetched {kid : String} {keys : List JwksKey}
    {fetchedAt : ℤ} (hmissing : state.client.cache.get kid = none) :
    state.getKey kid now (.document keys fetchedAt) =
      state.after now [⟨keys, fetchedAt⟩]
        (.ok (state.client.fill keys fetchedAt, ⟨now,
          ((state.client.fill keys fetchedAt).cache.get kid).toList,
          false⟩)) := by
  simp only [State.getKey, JwksClient.getKey, hmissing]
  rfl

theorem Invariant.step (hinv : Invariant state)
    (hstep : step state label = some next) : Invariant next := by
  cases label with
  | getKeys forceRefresh now outcome =>
      obtain ⟨⟨hnow, hafter⟩, hnext⟩ := Option.ite_none_right_eq_some.mp hstep
      rw [← Option.some.inj hnext]
      by_cases hfetches : forceRefresh ∨ state.client.IsCacheStale now
      · cases outcome with
        | document keys fetchedAt =>
            rw [getKeys_of_fetched hfetches]
            exact hinv.refreshed hnow keys hafter _
        | refused status statusText =>
            simp only [State.getKeys, JwksClient.getKeys, if_pos hfetches]
            exact hinv.thrown hnow _ _
        | threw message =>
            simp only [State.getKeys, JwksClient.getKeys, if_pos hfetches]
            exact hinv.thrown hnow _ _
      · rw [getKeys_of_cached hfetches]
        exact hinv.answered hnow _
  | getKey kid now outcome =>
      obtain ⟨⟨hnow, hafter⟩, hnext⟩ := Option.ite_none_right_eq_some.mp hstep
      rw [← Option.some.inj hnext]
      cases hget : state.client.cache.get kid with
      | some key =>
          rw [getKey_of_cached hget]
          exact hinv.answered hnow _
      | none =>
          cases outcome with
          | document keys fetchedAt =>
              rw [getKey_of_fetched hget]
              exact hinv.refreshed hnow keys hafter _
          | refused status statusText =>
              simp only [State.getKey, JwksClient.getKey, hget]
              exact hinv.thrown hnow _ _
          | threw message =>
              simp only [State.getKey, JwksClient.getKey, hget]
              exact hinv.thrown hnow _ _
  | clearCache =>
      cases hstep
      exact ⟨.inl rfl, hinv.ordered, hinv.latest⟩

/-! ## The law of an answer -/

theorem answerLaw_thrown (state : State) (now : ℤ) (message : String)
    (fetched : List Fetched) :
    AnswerLaw (state.after now fetched (.error message)) := by
  intro answer hanswer
  cases hanswer

theorem answerLaw_answered_iff {fetched : List Fetched} {client : JwksClient}
    {answer : Answer} :
    AnswerLaw (state.after now fetched (.ok (client, answer))) ↔
      (∀ key ∈ answer.keys, ∃ document ∈ state.fetched ++ fetched,
        key ∈ document.keys ∧
          answer.calledAt - document.fetchedAt ≤ client.cacheTtlMs) ∧
      (answer.all = true → ∀ key, key ∈ answer.keys ↔
        key ∈ (((state.fetched ++ fetched).getLast?).map
          Fetched.keys).getD []) := by
  constructor
  · intro hlaw
    exact hlaw answer rfl
  · rintro hlaw _ ⟨⟩
    exact hlaw

/-- What is returned from a document that the call fetches is fresh. -/
theorem fresh_of_fetched {keys : List JwksKey} {fetchedAt : ℤ}
    (hafter : now ≤ fetchedAt) {key : JwksKey} {index : String}
    (hget : (state.client.fill keys fetchedAt).cache.get index = some key) :
    ∃ document ∈ state.fetched ++ [⟨keys, fetchedAt⟩],
      key ∈ document.keys ∧
        now - document.fetchedAt ≤ state.client.cacheTtlMs := by
  refine ⟨⟨keys, fetchedAt⟩,
    List.mem_append_right _ List.mem_cons_self,
    (InsertionMap.mem_of_get_indexBy hget).1, ?_⟩
  show now - fetchedAt ≤ state.client.cacheTtlMs
  omega

theorem answerLaw_getKeys_fetched_iff {keys : List JwksKey} {fetchedAt : ℤ}
    (hafter : now ≤ fetchedAt) :
    AnswerLaw (state.after now [⟨keys, fetchedAt⟩]
        (.ok (state.client.fill keys fetchedAt,
          ⟨now, (state.client.fill keys fetchedAt).cache.values, true⟩))) ↔
      Distinct keys := by
  rw [answerLaw_answered_iff, List.getLast?_concat, Distinct,
    ← InsertionMap.mem_values_indexBy_iff]
  refine (and_iff_right fun key hmem => ?_).trans ?_
  · obtain ⟨index, hget⟩ := InsertionMap.mem_values_iff.mp hmem
    exact fresh_of_fetched hafter hget
  · exact forall_prop_of_true rfl

theorem answerLaw_getKey_fetched {keys : List JwksKey} {fetchedAt : ℤ}
    (hafter : now ≤ fetchedAt) (kid : String) :
    AnswerLaw (state.after now [⟨keys, fetchedAt⟩]
      (.ok (state.client.fill keys fetchedAt,
        ⟨now, ((state.client.fill keys fetchedAt).cache.get kid).toList,
          false⟩))) := by
  rw [answerLaw_answered_iff]
  refine ⟨fun key hmem => ?_, fun hall => by cases hall⟩
  exact fresh_of_fetched hafter (Option.mem_toList.mp hmem)

theorem lastKeys_of_getLast? (hlast : state.fetched.getLast? = some last) :
    state.lastKeys = last.keys := by
  rw [State.lastKeys, hlast]
  rfl

theorem Invariant.answerLaw_getKeys_cached_iff (hinv : Invariant state)
    (hfresh : ¬ state.client.IsCacheStale now) :
    AnswerLaw (state.after now [] (.ok (state.client,
        ⟨now, state.client.cache.values, true⟩))) ↔
      Distinct state.lastKeys ∧
        (state.client.cache.size = 0 → state.lastKeys = []) := by
  rw [answerLaw_answered_iff, List.append_nil, ← State.lastKeys]
  rcases hinv.cached with hempty | ⟨last, hlast, hcache, htime⟩
  · rw [hempty]
    refine (and_iff_right fun key hmem => by cases hmem).trans ?_
    refine (forall_prop_of_true rfl).trans ⟨fun hall => ?_, fun hnone => ?_⟩
    · have hnil : state.lastKeys = [] :=
        List.eq_nil_iff_forall_not_mem.mpr fun key hmem => by
          cases (hall key).mpr hmem
      rw [hnil]
      exact ⟨fun first hfirst => (List.not_mem_nil hfirst).elim, fun _ => rfl⟩
    · rw [hnone.2 rfl]
      exact fun _ => Iff.rfl
  · rw [lastKeys_of_getLast? hlast, hcache]
    refine (and_iff_right fun key hmem => ?_).trans ?_
    · obtain ⟨index, hget⟩ := InsertionMap.mem_values_iff.mp hmem
      refine ⟨last, List.mem_of_getLast? hlast,
        (InsertionMap.mem_of_get_indexBy hget).1, ?_⟩
      rw [JwksClient.IsCacheStale, htime] at hfresh
      exact Int.not_lt.mp hfresh
    · rw [Distinct, ← InsertionMap.mem_values_indexBy_iff]
      refine (forall_prop_of_true rfl).trans (and_iff_left ?_).symm
      exact InsertionMap.eq_nil_of_size_indexBy

theorem Invariant.answerLaw_getKey_cached_iff (hinv : Invariant state)
    {kid : String} {key : JwksKey}
    (hget : state.client.cache.get kid = some key) :
    AnswerLaw (state.after now [] (.ok (state.client, ⟨now, [key], false⟩))) ↔
      ¬ state.client.IsCacheStale now := by
  rcases hinv.cached with hempty | ⟨last, hlast, hcache, htime⟩
  · rw [hempty] at hget
    cases hget
  rw [answerLaw_answered_iff, List.append_nil, JwksClient.IsCacheStale, htime,
    Int.not_lt]
  constructor
  · rintro ⟨hfresh, -⟩
    obtain ⟨document, hmem, -, hage⟩ := hfresh key List.mem_cons_self
    have hlatest := hinv.latest last hlast document hmem
    exact Int.le_trans (Int.sub_le_sub_left hlatest now) hage
  · intro hfresh
    refine ⟨fun other hother => ?_, fun hall => by cases hall⟩
    rw [List.mem_singleton.mp hother]
    rw [hcache] at hget
    exact ⟨last, List.mem_of_getLast? hlast,
      (InsertionMap.mem_of_get_indexBy hget).1, hfresh⟩

/-- The answer of a step is fresh and complete if and only if the step reads
what is current. -/
theorem answerLaw_iff_of_step (hinv : Invariant state)
    (hstep : step state label = some next) :
    AnswerLaw next ↔ ReadsCurrent state label := by
  cases label with
  | getKeys forceRefresh now outcome =>
      obtain ⟨⟨-, hafter⟩, hnext⟩ := Option.ite_none_right_eq_some.mp hstep
      rw [← Option.some.inj hnext]
      by_cases hfetches : forceRefresh ∨ state.client.IsCacheStale now
      · rw [ReadsCurrent, if_pos hfetches]
        cases outcome with
        | document keys fetchedAt =>
            rw [getKeys_of_fetched hfetches,
              answerLaw_getKeys_fetched_iff hafter, documents,
              List.forall_mem_singleton]
        | refused status statusText =>
            simp only [State.getKeys, JwksClient.getKeys, if_pos hfetches]
            exact iff_of_true (answerLaw_thrown _ _ _ _)
              (List.forall_mem_nil _)
        | threw message =>
            simp only [State.getKeys, JwksClient.getKeys, if_pos hfetches]
            exact iff_of_true (answerLaw_thrown _ _ _ _)
              (List.forall_mem_nil _)
      · rw [ReadsCurrent, if_neg hfetches, getKeys_of_cached hfetches]
        exact hinv.answerLaw_getKeys_cached_iff fun hstale =>
          hfetches (.inr hstale)
  | getKey kid now outcome =>
      obtain ⟨⟨-, hafter⟩, hnext⟩ := Option.ite_none_right_eq_some.mp hstep
      rw [← Option.some.inj hnext]
      cases hget : state.client.cache.get kid with
      | some key =>
          rw [getKey_of_cached hget, hinv.answerLaw_getKey_cached_iff hget,
            ReadsCurrent, hget]
          exact ⟨fun hfresh _ => hfresh, fun hfresh => hfresh rfl⟩
      | none =>
          have hreads : ReadsCurrent state (.getKey kid now outcome) := by
            rw [ReadsCurrent, hget]
            intro hsome
            cases hsome
          refine iff_of_true ?_ hreads
          cases outcome with
          | document keys fetchedAt =>
              rw [getKey_of_fetched hget]
              exact answerLaw_getKey_fetched hafter kid
          | refused status statusText =>
              simp only [State.getKey, JwksClient.getKey, hget]
              exact answerLaw_thrown _ _ _ _
          | threw message =>
              simp only [State.getKey, JwksClient.getKey, hget]
              exact answerLaw_thrown _ _ _ _
  | clearCache =>
      cases hstep
      refine iff_of_true ?_ trivial
      intro answer hanswer
      cases hanswer

/-- The answers are fresh and complete, in every state of a run, if and only
if all its steps read what is current. -/
theorem answerLaw_iff_readsCurrent {cacheTtlMs : Option ℕ} {clock : ℤ}
    {labels : List Label}
    (hrun : exec step (State.initial cacheTtlMs clock) labels = some state) :
    Throughout step AnswerLaw (State.initial cacheTtlMs clock) labels ↔
      StepsMeet step ReadsCurrent (State.initial cacheTtlMs clock) labels := by
  have hinit : AnswerLaw (State.initial cacheTtlMs clock) := by
    intro answer hanswer
    cases hanswer
  exact throughout_iff_stepsMeet
    (I := fun state => Invariant state ∧ AnswerLaw state)
    (fun _ hinv => hinv.2)
    (fun _ _ _ hinv hreads hstep =>
      ⟨hinv.1.step hstep, (answerLaw_iff_of_step hinv.1 hstep).mpr hreads⟩)
    (fun _ _ _ hinv hnot hstep hlaw =>
      hnot ((answerLaw_iff_of_step hinv.1 hstep).mp hlaw))
    ⟨invariant_initial cacheTtlMs clock, hinit⟩ hrun

def rsaKey (kid : Option String) (modulus : String) : JwksKey :=
  ⟨"RSA", kid, some "sig", none, some modulus, some "AQAB", none, none, none⟩

/-- A key is withdrawn, and the client fetches in time. -/
def withdraws : List Label :=
  [.getKeys false 5000 (.document [rsaKey (some "k1") "m1",
      rsaKey none "m2"] 5001),
    .getKey "k1" 5900 (.threw "offline"),
    .getKeys false 6100 (.document [rsaKey (some "k2") "m3"] 6100),
    .getKey "k1" 6200 (.refused 503 "Service Unavailable")]

/-- A key is read when the time to live is over. -/
def readsStale : List Label :=
  [.getKeys false 5000 (.document [rsaKey (some "k1") "m1"] 5001),
    .getKey "k1" 9000 (.document [] 9001)]

theorem answerLaw_iff_readsCurrent_samples :
    Throughout step AnswerLaw (State.initial (some 1000) 0) withdraws ∧
      ¬ Throughout step AnswerLaw (State.initial (some 1000) 0)
        readsStale := by
  have hwithdraws : (exec step (State.initial (some 1000) 0)
      withdraws).isSome := by
    decide +kernel
  have hreads : (exec step (State.initial (some 1000) 0)
      readsStale).isSome := by
    decide +kernel
  obtain ⟨_, hwithdraws⟩ := Option.isSome_iff_exists.mp hwithdraws
  obtain ⟨_, hreads⟩ := Option.isSome_iff_exists.mp hreads
  constructor
  · apply (answerLaw_iff_readsCurrent hwithdraws).mpr
    decide +kernel
  · intro hlaw
    have hmeet := (answerLaw_iff_readsCurrent hreads).mp hlaw
    exact absurd hmeet (by decide +kernel)

/-- The key that is returned comes from a document that is four times the time
to live old, and a document with two keys without an id is read as one key. -/
theorem not_answerLaw_samples :
    (∃ state, exec step (State.initial (some 1000) 0) readsStale =
        some state ∧
      state.fetched = [⟨[rsaKey (some "k1") "m1"], 5001⟩] ∧
      state.answer = some ⟨9000, [rsaKey (some "k1") "m1"], false⟩ ∧
      ¬ AnswerLaw state) ∧
    ∃ state, exec step (State.initial (some 1000) 0)
        [.getKeys false 5000
          (.document [rsaKey none "m1", rsaKey none "m2"] 5001)] =
        some state ∧
      state.answer = some ⟨5000, [rsaKey none "m2"], true⟩ ∧
      ¬ AnswerLaw state := by
  have hstale : (exec step (State.initial (some 1000) 0) readsStale).any
      (fun state => state.fetched = [⟨[rsaKey (some "k1") "m1"], 5001⟩] ∧
        state.answer = some ⟨9000, [rsaKey (some "k1") "m1"], false⟩ ∧
        state.client.cacheTtlMs = 1000) := by
    decide +kernel
  have hmerged : (exec step (State.initial (some 1000) 0)
      [.getKeys false 5000
        (.document [rsaKey none "m1", rsaKey none "m2"] 5001)]).any
      (fun state => state.lastKeys = [rsaKey none "m1", rsaKey none "m2"] ∧
        state.answer = some ⟨5000, [rsaKey none "m2"], true⟩) := by
    decide +kernel
  obtain ⟨state, hrun, hfacts⟩ := (Option.any_eq_true _ _).mp hstale
  obtain ⟨other, hother, hmerged⟩ := (Option.any_eq_true _ _).mp hmerged
  obtain ⟨hfetched, hanswer, httl⟩ := of_decide_eq_true hfacts
  obtain ⟨hkeys, hall⟩ := of_decide_eq_true hmerged
  refine ⟨⟨state, hrun, hfetched, hanswer, fun hlaw => ?_⟩,
    ⟨other, hother, hall, fun hlaw => ?_⟩⟩
  · obtain ⟨document, hmem, -, hage⟩ :=
      (hlaw _ hanswer).1 _ List.mem_cons_self
    rw [hfetched] at hmem
    rw [List.mem_singleton.mp hmem, httl] at hage
    exact absurd hage (by decide)
  · have hmem := ((hlaw _ hall).2 rfl (rsaKey none "m1")).mpr
      (by rw [hkeys]; exact List.mem_cons_self)
    exact absurd hmem (by decide +kernel)

end TsCommons.Security.JwksFreshness
