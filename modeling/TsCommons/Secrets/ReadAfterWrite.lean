import TsCommons.Foundations.Execution
import TsCommons.Secrets.CachedSecretsAdapter

/-!
# Reads of a secret after a write of it

The calls on one secret interleave between the steps that the cache and the
wrapped adapter take.  A `get` that starts when a write has resolved, and no
other one has started since, is to answer what that write left or what reached
the wrapped adapter later.
-/

namespace TsCommons.Secrets

open Foundations

/-- `floor` is that of the state in which the call started, and `read` what
the wrapped adapter answered. -/
structure PendingGet where
  floor : Option ℕ
  read : Option (Option String)
deriving DecidableEq

/-- `version` is the version of the secret that the call has made. -/
structure PendingWrite where
  write : Write
  version : Option ℕ
deriving DecidableEq

structure Answer where
  floor : Option ℕ
  value : Option String
deriving DecidableEq

/-- `versions` are the values that the wrapped adapter has held, and `floor`
is the newest version made by a write that has resolved since the last write
started, if there is one. -/
structure State where
  adapter : CachedSecretsAdapter
  key : String
  now : ℚ
  versions : List (Option String)
  floor : Option ℕ
  gets : List PendingGet
  writes : List PendingWrite
  answers : List Answer
deriving DecidableEq

def State.initial (ttl : ℚ) (key : String) (value : Option String)
    (now : ℚ) : State where
  adapter := .create ttl
  key := key
  now := now
  versions := [value]
  floor := none
  gets := []
  writes := []
  answers := []

inductive Label
  | startGet
  | readInner (position : ℕ)
  | failGet (position : ℕ)
  | finishGet (position : ℕ)
  | startWrite (write : Write)
  | applyInner (position : ℕ) (rotated : Option String)
  | failWrite (position : ℕ)
  | finishWrite (position : ℕ)
  | tick (elapsed : ℚ)

namespace State

def current (state : State) : Option String := state.versions.getLast?.join

def startGet (state : State) : State :=
  match state.adapter.startGet state.key state.now with
  | (adapter, some value) =>
      { state with
        adapter := adapter
        answers := state.answers ++ [⟨state.floor, some value⟩] }
  | (adapter, none) =>
      { state with
        adapter := adapter
        gets := state.gets ++ [⟨state.floor, none⟩] }

def readInner (state : State) (position : ℕ) (floor : Option ℕ) : State :=
  { state with gets := state.gets.set position ⟨floor, some state.current⟩ }

def finishGet (state : State) (position : ℕ) (floor : Option ℕ)
    (result : Option String) : State :=
  { state with
    adapter := state.adapter.finishGet state.key result state.now
    gets := state.gets.eraseIdx position
    answers := state.answers ++ [⟨floor, result⟩] }

def startWrite (state : State) (write : Write) : State :=
  { state with
    floor := none
    writes := state.writes ++ [⟨write, none⟩] }

def applyInner (state : State) (position : ℕ) (write : Write)
    (rotated : Option String) : State :=
  { state with
    versions := state.versions ++ [write.result rotated]
    writes := state.writes.set position ⟨write, some state.versions.length⟩ }

def finishWrite (state : State) (position : ℕ) (write : Write)
    (version : ℕ) : State :=
  { state with
    adapter := state.adapter.finishWrite state.key write state.now
    floor := some (max version (state.floor.getD 0))
    writes := state.writes.eraseIdx position }

end State

def step (state : State) : Label → Option State
  | .startGet => some state.startGet
  | .readInner position =>
      match state.gets[position]? with
      | some ⟨floor, none⟩ => some (state.readInner position floor)
      | _ => none
  | .failGet position =>
      if position < state.gets.length then
        some { state with gets := state.gets.eraseIdx position }
      else none
  | .finishGet position =>
      match state.gets[position]? with
      | some ⟨floor, some result⟩ =>
          some (state.finishGet position floor result)
      | _ => none
  | .startWrite write => some (state.startWrite write)
  | .applyInner position rotated =>
      match state.writes[position]? with
      | some ⟨write, none⟩ => some (state.applyInner position write rotated)
      | _ => none
  | .failWrite position =>
      if position < state.writes.length then
        some { state with writes := state.writes.eraseIdx position }
      else none
  | .finishWrite position =>
      match state.writes[position]? with
      | some ⟨write, some version⟩ =>
          some (state.finishWrite position write version)
      | _ => none
  | .tick elapsed =>
      if 0 ≤ elapsed then some { state with now := state.now + elapsed }
      else none

/-- The secret has had the value since the version was made. -/
def State.HeldSince (state : State) (version : ℕ) (value : Option String) :
    Prop :=
  value ∈ state.versions.drop version

instance State.HeldSince.decidable (state : State) (version : ℕ)
    (value : Option String) : Decidable (state.HeldSince version value) :=
  inferInstanceAs (Decidable (value ∈ state.versions.drop version))

/-- Neither what a `get` would find in the cache nor what one has answered is
older than the writes that had resolved when it started. -/
structure ReadLaw (state : State) : Prop where
  served : ∀ version ∈ state.floor,
    ∀ value ∈ state.adapter.hit state.key state.now,
      state.HeldSince version (some value)
  answered : ∀ answer ∈ state.answers, ∀ version ∈ answer.floor,
    state.HeldSince version answer.value

/-- The value that a step puts into the cache. -/
def State.stored (state : State) : Label → Option String
  | .finishGet position =>
      (state.gets[position]?).bind fun get => get.read.join
  | .finishWrite position =>
      (state.writes[position]?).bind fun pending => pending.write.cached
  | _ => none

/-- With a time to live, no value is put into the cache that the secret had
only before a write that has resolved, unless another one has started. -/
def StoresCurrent (state : State) (label : Label) : Prop :=
  0 < state.adapter.ttl → ∀ value ∈ state.stored label,
    ∀ version ∈ state.floor, state.HeldSince version (some value)

instance StoresCurrent.decidable (state : State) (label : Label) :
    Decidable (StoresCurrent state label) :=
  inferInstanceAs (Decidable (0 < state.adapter.ttl →
    ∀ value ∈ state.stored label, ∀ version ∈ state.floor,
      state.HeldSince version (some value)))

variable {state next : State} {label : Label} {position version : ℕ}
  {floor : Option ℕ} {result rotated : Option String} {write : Write}

/-! ## What the steps that continue a call need -/

theorem readInner_of_step
    (hstep : step state (.readInner position) = some next) :
    ∃ floor, state.gets[position]? = some ⟨floor, none⟩ ∧
      next = state.readInner position floor := by
  simp only [step] at hstep
  split at hstep
  · rename_i floor hget
    exact ⟨floor, hget, (Option.some.inj hstep).symm⟩
  · cases hstep

theorem finishGet_of_step
    (hstep : step state (.finishGet position) = some next) :
    ∃ floor result, state.gets[position]? = some ⟨floor, some result⟩ ∧
      next = state.finishGet position floor result := by
  simp only [step] at hstep
  split at hstep
  · rename_i floor result hget
    exact ⟨floor, result, hget, (Option.some.inj hstep).symm⟩
  · cases hstep

theorem applyInner_of_step
    (hstep : step state (.applyInner position rotated) = some next) :
    ∃ write, next = state.applyInner position write rotated := by
  simp only [step] at hstep
  split at hstep
  · rename_i write hpending
    exact ⟨write, (Option.some.inj hstep).symm⟩
  · cases hstep

theorem finishWrite_of_step
    (hstep : step state (.finishWrite position) = some next) :
    ∃ write version,
      state.writes[position]? = some ⟨write, some version⟩ ∧
        next = state.finishWrite position write version := by
  simp only [step] at hstep
  split at hstep
  · rename_i write version hpending
    exact ⟨write, version, hpending, (Option.some.inj hstep).symm⟩
  · cases hstep

/-! ## The versions of a secret -/

/-- Where no other write has reached the wrapped adapter, only what the write
left counts. -/
theorem heldSince_newest_iff (hnewest : state.versions.length = version + 1) :
    state.HeldSince version result ↔
      state.versions[version]? = some result := by
  have hlt : version < state.versions.length := by omega
  have hdrop : state.versions.drop version = [state.versions[version]] := by
    rw [List.drop_eq_getElem_cons hlt, List.drop_of_length_le (by omega)]
  rw [State.HeldSince, hdrop, List.mem_singleton,
    List.getElem?_eq_getElem hlt, Option.some.injEq, eq_comm]

theorem heldSince_current (hlt : version < state.versions.length) :
    state.HeldSince version state.current := by
  have hne : state.versions.drop version ≠ [] := by
    rw [Ne, List.drop_eq_nil_iff]
    exact Nat.not_le.mpr hlt
  have hlast : state.versions.getLast? =
      some ((state.versions.drop version).getLast hne) := by
    rw [← List.getLast?_eq_some_getLast, List.getLast?_drop,
      if_neg (Nat.not_le.mpr hlt)]
  rw [State.current, hlast]
  exact List.getLast_mem hne

theorem State.HeldSince.of_le {older : ℕ} {value : Option String}
    (hle : older ≤ version) (hheld : state.HeldSince version value) :
    state.HeldSince older value :=
  (List.drop_sublist_drop_left _ hle).mem hheld

theorem State.HeldSince.applyInner {value : Option String}
    (hheld : state.HeldSince version value) :
    (state.applyInner position write rotated).HeldSince version value := by
  rw [State.HeldSince, State.applyInner, List.drop_append]
  exact List.mem_append_left _ hheld

theorem heldSince_of_getElem? {value : Option String}
    (hget : state.versions[version]? = some value) :
    state.HeldSince version value := by
  apply List.mem_of_getElem? (i := 0)
  rw [List.getElem?_drop, Nat.add_zero, hget]

/-! ## What holds in every run whose steps store current values -/

structure Invariant (state : State) : Prop where
  floor : ∀ version ∈ state.floor, version < state.versions.length
  gets : ∀ get ∈ state.gets, ∀ version ∈ get.floor,
    version < state.versions.length ∧
      ∀ value ∈ get.read, state.HeldSince version value
  writes : ∀ pending ∈ state.writes, ∀ version ∈ pending.version,
    version < state.versions.length ∧
      ∀ value ∈ pending.write.cached,
        state.versions[version]? = some (some value)
  law : ReadLaw state

theorem invariant_initial (ttl : ℚ) (key : String) (value : Option String)
    (now : ℚ) : Invariant (State.initial ttl key value now) := by
  refine ⟨?_, ?_, ?_, ⟨?_, ?_⟩⟩ <;> simp [State.initial]

theorem Invariant.startGet (hinv : Invariant state) :
    Invariant state.startGet := by
  unfold State.startGet CachedSecretsAdapter.startGet
  cases hhit : state.adapter.hit state.key state.now with
  | some value =>
      refine ⟨hinv.floor, hinv.gets, hinv.writes, hinv.law.served, ?_⟩
      intro answer hanswer
      rcases List.mem_append.mp hanswer with hold | hnew
      · exact hinv.law.answered answer hold
      · rw [List.mem_singleton.mp hnew]
        exact fun version hversion =>
          hinv.law.served version hversion value hhit
  | none =>
      refine ⟨hinv.floor, ?_, hinv.writes, ?_, hinv.law.answered⟩
      · intro get hget
        rcases List.mem_append.mp hget with hold | hnew
        · exact hinv.gets get hold
        · rw [List.mem_singleton.mp hnew]
          exact fun version hversion =>
            ⟨hinv.floor version hversion, fun value hvalue => by cases hvalue⟩
      · intro version hversion value hvalue
        rw [Option.mem_def, CachedSecretsAdapter.hit_evict] at hvalue
        cases hvalue

theorem Invariant.readInner (hinv : Invariant state)
    (hget : state.gets[position]? = some ⟨floor, none⟩) :
    Invariant (state.readInner position floor) := by
  refine ⟨hinv.floor, ?_, hinv.writes, ⟨hinv.law.served, hinv.law.answered⟩⟩
  intro get hmem
  rcases List.mem_or_eq_of_mem_set hmem with hold | rfl
  · exact hinv.gets get hold
  · intro version hversion
    have hlt := (hinv.gets _ (List.mem_of_getElem? hget) version hversion).1
    refine ⟨hlt, ?_⟩
    rintro _ ⟨⟩
    exact heldSince_current hlt

theorem Invariant.finishGet (hinv : Invariant state)
    (hget : state.gets[position]? = some ⟨floor, some result⟩)
    (hstores : StoresCurrent state (.finishGet position)) :
    Invariant (state.finishGet position floor result) := by
  refine ⟨hinv.floor, ?_, hinv.writes, ?_, ?_⟩
  · exact fun get hmem => hinv.gets get (List.mem_of_mem_eraseIdx hmem)
  · intro version hversion value hvalue
    cases result with
    | none => exact hinv.law.served version hversion value hvalue
    | some read =>
        rw [Option.mem_def, State.finishGet, CachedSecretsAdapter.finishGet,
          CachedSecretsAdapter.hit_store,
          Option.ite_none_right_eq_some] at hvalue
        obtain ⟨httl, hread⟩ := hvalue
        rw [← Option.some.inj hread]
        apply hstores httl read _ version hversion
        simp [State.stored, hget]
  · intro answer hanswer
    rcases List.mem_append.mp hanswer with hold | hnew
    · exact hinv.law.answered answer hold
    · rw [List.mem_singleton.mp hnew]
      intro version hversion
      exact (hinv.gets _ (List.mem_of_getElem? hget) version hversion).2
        result rfl

theorem Invariant.startWrite (hinv : Invariant state) (write : Write) :
    Invariant (state.startWrite write) := by
  refine ⟨?_, hinv.gets, ?_, ?_, hinv.law.answered⟩
  · intro version hversion
    cases hversion
  · intro pending hmem
    rcases List.mem_append.mp hmem with hold | hnew
    · exact hinv.writes pending hold
    · rw [List.mem_singleton.mp hnew]
      intro version hversion
      cases hversion
  · intro version hversion
    cases hversion

theorem Invariant.applyInner (hinv : Invariant state) (write : Write)
    (rotated : Option String) :
    Invariant (state.applyInner position write rotated) := by
  have hlength : (state.applyInner position write rotated).versions.length =
      state.versions.length + 1 := by
    simp [State.applyInner]
  refine ⟨?_, ?_, ?_, ?_, ?_⟩
  · intro version hversion
    rw [hlength]
    exact Nat.lt_succ_of_lt (hinv.floor version hversion)
  · intro get hmem version hversion
    obtain ⟨hlt, hread⟩ := hinv.gets get hmem version hversion
    rw [hlength]
    exact ⟨Nat.lt_succ_of_lt hlt, fun value hvalue =>
      (hread value hvalue).applyInner⟩
  · intro pending hmem
    rcases List.mem_or_eq_of_mem_set hmem with hold | rfl
    · intro version hversion
      obtain ⟨hlt, hwritten⟩ := hinv.writes pending hold version hversion
      rw [hlength]
      refine ⟨Nat.lt_succ_of_lt hlt, fun value hvalue => ?_⟩
      rw [State.applyInner, List.getElem?_append_left hlt]
      exact hwritten value hvalue
    · rintro _ ⟨⟩
      rw [hlength]
      refine ⟨Nat.lt_succ_self _, fun value hvalue => ?_⟩
      rw [State.applyInner, List.getElem?_concat_length]
      cases write with
      | set written => exact congrArg some hvalue
      | delete => cases hvalue
      | rotate => cases hvalue
  · exact fun version hversion value hvalue =>
      (hinv.law.served version hversion value hvalue).applyInner
  · exact fun answer hanswer version hversion =>
      (hinv.law.answered answer hanswer version hversion).applyInner

/-- After a write the newer one counts of its version and the floor before. -/
theorem heldSince_max (state : State) (version : ℕ) (value : Option String)
    (hheld : state.HeldSince version value)
    (hcurrent : ∀ older ∈ state.floor, state.HeldSince older value) :
    state.HeldSince (max version (state.floor.getD 0)) value := by
  cases hfloor : state.floor with
  | none =>
      rw [Option.getD_none, Nat.max_zero]
      exact hheld
  | some older =>
      rw [Option.getD_some]
      rcases Nat.le_total older version with hle | hle
      · rw [Nat.max_eq_left hle]
        exact hheld
      · rw [Nat.max_eq_right hle]
        exact hcurrent older hfloor

theorem Invariant.finishWrite (hinv : Invariant state)
    (hpending : state.writes[position]? = some ⟨write, some version⟩)
    (hstores : StoresCurrent state (.finishWrite position)) :
    Invariant (state.finishWrite position write version) := by
  obtain ⟨hlt, hwritten⟩ :=
    hinv.writes _ (List.mem_of_getElem? hpending) version rfl
  refine ⟨?_, hinv.gets, ?_, ?_, hinv.law.answered⟩
  · rintro _ ⟨⟩
    apply Nat.max_lt.mpr ⟨hlt, ?_⟩
    cases hfloor : state.floor with
    | none => exact Nat.zero_lt_of_lt hlt
    | some older => exact hinv.floor older hfloor
  · exact fun pending hmem =>
      hinv.writes pending (List.mem_of_mem_eraseIdx hmem)
  · rintro _ ⟨⟩ value hvalue
    rw [Option.mem_def, State.finishWrite] at hvalue
    cases write with
    | set written =>
        rw [CachedSecretsAdapter.finishWrite, CachedSecretsAdapter.hit_store,
          Option.ite_none_right_eq_some] at hvalue
        obtain ⟨httl, hwrote⟩ := hvalue
        rw [← Option.some.inj hwrote]
        apply heldSince_max state version
        · exact heldSince_of_getElem? (hwritten written rfl)
        · apply hstores httl written
          simp [State.stored, hpending, Write.cached]
    | delete =>
        rw [CachedSecretsAdapter.finishWrite,
          CachedSecretsAdapter.hit_evict] at hvalue
        cases hvalue
    | rotate =>
        rw [CachedSecretsAdapter.finishWrite,
          CachedSecretsAdapter.hit_evict] at hvalue
        cases hvalue

theorem Invariant.tick (hinv : Invariant state) {elapsed : ℚ}
    (helapsed : 0 ≤ elapsed) :
    Invariant { state with now := state.now + elapsed } := by
  refine ⟨hinv.floor, hinv.gets, hinv.writes, ?_, hinv.law.answered⟩
  intro version hversion value hvalue
  apply hinv.law.served version hversion value
  exact CachedSecretsAdapter.hit_of_later
    (le_add_of_nonneg_right helapsed) hvalue

theorem Invariant.step (hinv : Invariant state)
    (hstores : StoresCurrent state label)
    (hstep : step state label = some next) : Invariant next := by
  cases label with
  | startGet =>
      rw [← Option.some.inj hstep]
      exact hinv.startGet
  | readInner position =>
      obtain ⟨floor, hget, rfl⟩ := readInner_of_step hstep
      exact hinv.readInner hget
  | failGet position =>
      obtain ⟨-, hnext⟩ := Option.ite_none_right_eq_some.mp hstep
      rw [← Option.some.inj hnext]
      refine ⟨hinv.floor, ?_, hinv.writes, hinv.law.served,
        hinv.law.answered⟩
      exact fun get hmem => hinv.gets get (List.mem_of_mem_eraseIdx hmem)
  | finishGet position =>
      obtain ⟨floor, result, hget, rfl⟩ := finishGet_of_step hstep
      exact hinv.finishGet hget hstores
  | startWrite write =>
      rw [← Option.some.inj hstep]
      exact hinv.startWrite write
  | applyInner position rotated =>
      obtain ⟨write, rfl⟩ := applyInner_of_step hstep
      exact hinv.applyInner write rotated
  | failWrite position =>
      obtain ⟨-, hnext⟩ := Option.ite_none_right_eq_some.mp hstep
      rw [← Option.some.inj hnext]
      refine ⟨hinv.floor, hinv.gets, ?_, hinv.law.served,
        hinv.law.answered⟩
      exact fun pending hmem =>
        hinv.writes pending (List.mem_of_mem_eraseIdx hmem)
  | finishWrite position =>
      obtain ⟨write, version, hpending, rfl⟩ := finishWrite_of_step hstep
      exact hinv.finishWrite hpending hstores
  | tick elapsed =>
      obtain ⟨helapsed, hnext⟩ := Option.ite_none_right_eq_some.mp hstep
      rw [← Option.some.inj hnext]
      exact hinv.tick helapsed

/-! ## A step that does not store a current value -/

/-- What a step stores is served afterwards. -/
theorem served_of_stored (hstep : step state label = some next)
    (httl : 0 < state.adapter.ttl) {value : String}
    (hstored : state.stored label = some value) :
    next.adapter.hit next.key next.now = some value ∧
      next.versions = state.versions ∧
      ∀ version ∈ state.floor, ∃ newer ∈ next.floor, version ≤ newer := by
  cases label with
  | finishGet position =>
      obtain ⟨floor, result, hget, rfl⟩ := finishGet_of_step hstep
      rw [State.stored, hget] at hstored
      have hresult : result = some value := hstored
      subst result
      refine ⟨?_, rfl, fun version hversion =>
        ⟨version, hversion, Nat.le_refl _⟩⟩
      rw [State.finishGet, CachedSecretsAdapter.finishGet,
        CachedSecretsAdapter.hit_store, if_pos httl]
  | finishWrite position =>
      obtain ⟨write, version, hpending, rfl⟩ := finishWrite_of_step hstep
      rw [State.stored, hpending] at hstored
      cases write with
      | set written =>
          cases hstored
          refine ⟨?_, rfl, fun older holder => ⟨_, rfl, ?_⟩⟩
          · rw [State.finishWrite, CachedSecretsAdapter.finishWrite,
              CachedSecretsAdapter.hit_store, if_pos httl]
          · rw [Option.mem_def.mp holder]
            exact Nat.le_max_right _ _
      | delete => cases hstored
      | rotate => cases hstored
  | _ => cases hstored

theorem not_readLaw_of_step (hstep : step state label = some next)
    (hnot : ¬ StoresCurrent state label) : ¬ ReadLaw next := by
  intro hlaw
  apply hnot
  intro httl value hstored version hversion
  obtain ⟨hhit, hversions, hfloor⟩ := served_of_stored hstep httl hstored
  obtain ⟨newer, hnewer, hle⟩ := hfloor version hversion
  have hheld := hlaw.served newer hnewer value hhit
  rw [State.HeldSince, hversions] at hheld
  exact State.HeldSince.of_le hle hheld

/-- Every `get` that starts after a write is answered with what that write left
or with something newer, in every state of a run, if and only if its steps put
no older value into the cache. -/
theorem readLaw_iff_storesCurrent {ttl : ℚ} {key : String}
    {value : Option String} {now : ℚ} {labels : List Label}
    (hrun : exec step (State.initial ttl key value now) labels =
      some state) :
    Throughout step ReadLaw (State.initial ttl key value now) labels ↔
      StepsMeet step StoresCurrent (State.initial ttl key value now)
        labels :=
  throughout_iff_stepsMeet (I := Invariant)
    (fun _ hinv => hinv.law)
    (fun _ _ _ hinv hstores hstep => hinv.step hstores hstep)
    (fun _ _ _ _ hnot hstep => not_readLaw_of_step hstep hnot)
    (invariant_initial ttl key value now) hrun

/-- A `get` reads the old value and stores it after the write has resolved. -/
def storesOld (write : Write) : List Label :=
  [.startGet, .readInner 0, .startWrite write, .applyInner 0 (some "rotated"),
    .finishWrite 0, .finishGet 0, .tick 299999, .startGet]

/-- The same `get` stores the old value before the write resolves, and a later
one starts while another write is under way. -/
def storesInTime (write : Write) : List Label :=
  [.startGet, .readInner 0, .startWrite write, .applyInner 0 (some "rotated"),
    .finishGet 0, .finishWrite 0, .startGet, .startWrite (.set "newer"),
    .startGet, .applyInner 0 none, .finishWrite 0, .tick 299999, .startGet]

/-- A database password that is cached for five minutes. -/
def password : State := State.initial 300000 "db" (some "old") 0

theorem readLaw_iff_storesCurrent_samples :
    Throughout step ReadLaw password (storesInTime .rotate) ∧
      ¬ Throughout step ReadLaw password (storesOld .rotate) := by
  have hinTime : (exec step password (storesInTime .rotate)).isSome := by
    decide +kernel
  have hold : (exec step password (storesOld .rotate)).isSome := by
    decide +kernel
  obtain ⟨_, hinTime⟩ := Option.isSome_iff_exists.mp hinTime
  obtain ⟨_, hold⟩ := Option.isSome_iff_exists.mp hold
  constructor
  · apply (readLaw_iff_storesCurrent hinTime).mpr
    decide +kernel
  · intro hlaw
    have hmeet := (readLaw_iff_storesCurrent hold).mp hlaw
    exact absurd hmeet (by decide +kernel)

/-- The `get` that starts after the write has resolved, with no other write, is
answered with what the secret was before. -/
def AnswersOld (write : Write) : Prop :=
  ∃ state, exec step password (storesOld write) = some state ∧
    state.versions = [some "old", write.result (some "rotated")] ∧
    state.answers = [⟨none, some "old"⟩, ⟨some 1, some "old"⟩] ∧
    ¬ ReadLaw state

theorem answersOld_of_run
    (hends : (exec step password (storesOld write)).any (fun state => decide
      (state.versions = [some "old", write.result (some "rotated")] ∧
        state.answers = [⟨none, some "old"⟩, ⟨some 1, some "old"⟩])) = true)
    (hchanges : write.result (some "rotated") ≠ some "old") :
    AnswersOld write := by
  obtain ⟨state, hrun, hfacts⟩ := (Option.any_eq_true _ _).mp hends
  obtain ⟨hversions, hanswers⟩ := of_decide_eq_true hfacts
  refine ⟨state, hrun, hversions, hanswers, fun hlaw => ?_⟩
  have hlast : (⟨some 1, some "old"⟩ : Answer) ∈ state.answers := by
    rw [hanswers]
    exact List.mem_cons_of_mem _ List.mem_cons_self
  have hheld := hlaw.answered _ hlast 1 rfl
  have hlength : state.versions.length = 1 + 1 := by
    rw [hversions]
    rfl
  rw [heldSince_newest_iff hlength, hversions] at hheld
  exact hchanges (Option.some.inj hheld)

theorem not_readLaw_after_writes :
    AnswersOld (.set "new") ∧ AnswersOld .delete ∧ AnswersOld .rotate := by
  refine ⟨?_, ?_, ?_⟩
  · exact answersOld_of_run (by decide +kernel) (by decide)
  · exact answersOld_of_run (by decide +kernel) (by decide)
  · exact answersOld_of_run (by decide +kernel) (by decide)

end TsCommons.Secrets
