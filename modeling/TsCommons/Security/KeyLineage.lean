import TsCommons.Foundations.Execution
import TsCommons.Security.ApiKeyManager
import Mathlib.Logic.Equiv.Basic
import Mathlib.Algebra.Group.End

/-!
# Lineages of API keys

The keys that come from one call of `generate` by calls of `rotate` are a
lineage.  At most one of them is accepted, and none once the newest has been
revoked, as long as no key is rotated that has been revoked or rotated before
and has not expired.
-/

namespace TsCommons.Security.KeyLineage

open Foundations

variable {D : Type}

/-- `lineage` is the number of the call of `generate` it comes from. -/
structure Issued where
  lineage : ℕ
  keyId : KeyId
  rawKey : String
deriving DecidableEq

/-- `ended` are the lineages whose newest key has been revoked. -/
structure State (D : Type) where
  manager : ApiKeyManager D
  clock : ℤ
  lineages : ℕ
  issued : List Issued
  ended : List ℕ

def State.initial (config : ApiKeyConfig) (hash : String → D) (clock : ℤ) :
    State D :=
  ⟨⟨config, hash, .empty⟩, clock, 0, [], []⟩

def newest (issued : List Issued) (lineage : ℕ) : Option Issued :=
  (issued.filter fun key => key.lineage = lineage).getLast?

namespace State

def key (state : State D) (keyId : KeyId) : Option Issued :=
  state.issued.find? fun key => key.keyId = keyId

/-- The random texts have not come up before. -/
def Fresh (state : State D) (random : Randomness) : Prop :=
  ∀ key ∈ state.issued, key.keyId ≠ ApiKeyManager.newKeyId random ∧
    key.rawKey ≠ state.manager.rawKey random

instance Fresh.decidable (state : State D) (random : Randomness) :
    Decidable (state.Fresh random) :=
  inferInstanceAs (Decidable (∀ key ∈ state.issued,
    key.keyId ≠ ApiKeyManager.newKeyId random ∧
      key.rawKey ≠ state.manager.rawKey random))

def generate (state : State D) (scopes : List String)
    (options : GenerateOptions) (random : Randomness) : State D :=
  let result := state.manager.generate scopes options random state.clock
  { state with
    manager := result.1
    lineages := state.lineages + 1
    issued := state.issued ++
      [⟨state.lineages, result.2.2.keyId, result.2.1⟩] }

def rotate (state : State D) (keyId : KeyId) (random : Randomness) :
    State D :=
  let result := state.manager.rotate keyId random state.clock
  { state with
    manager := result.1
    issued := state.issued ++ (state.key keyId).toList.flatMap fun old =>
      result.2.toList.map fun rotated =>
        ⟨old.lineage, rotated.2.keyId, rotated.1⟩ }

def revoke (state : State D) (keyId : KeyId) : State D :=
  { state with
    manager := (state.manager.revoke keyId state.clock).1
    ended := state.ended ++ (state.key keyId).toList.flatMap fun key =>
      if newest state.issued key.lineage = some key then [key.lineage]
      else [] }

end State

inductive Label
  | generate (scopes : List String) (options : GenerateOptions)
      (random : Randomness)
  | rotate (keyId : KeyId) (random : Randomness)
  | revoke (keyId : KeyId)
  | tick (now : ℤ)

def step (state : State D) : Label → Option (State D)
  | .generate scopes options random =>
      if state.Fresh random then some (state.generate scopes options random)
      else none
  | .rotate keyId random =>
      if state.Fresh random then some (state.rotate keyId random) else none
  | .revoke keyId => some (state.revoke keyId)
  | .tick now =>
      if state.clock ≤ now then some { state with clock := now } else none

section Law

variable [DecidableEq D]

def State.Accepts (state : State D) (key : Issued) : Prop :=
  (state.manager.validate key.rawKey state.clock).isSome

/-- At most one key of each lineage is accepted, and none of one whose newest
key has been revoked. -/
structure LineageLaw (state : State D) : Prop where
  single : ∀ first ∈ state.issued, ∀ second ∈ state.issued,
    first.lineage = second.lineage → state.Accepts first →
      state.Accepts second → first = second
  ended : ∀ key ∈ state.issued, key.lineage ∈ state.ended →
    ¬ state.Accepts key

end Law

/-- A key that is rotated has not been revoked or rotated before, or it has
expired. -/
def RotatesLive (state : State D) : Label → Prop
  | .rotate keyId _ => ∀ record ∈ state.manager.keys.get keyId,
      record.revokedAt = none ∨ record.Expired state.clock
  | _ => True

instance RotatesLive.decidable (state : State D) :
    (label : Label) → Decidable (RotatesLive state label)
  | .rotate keyId _ => inferInstanceAs (Decidable
      (∀ record ∈ state.manager.keys.get keyId,
        record.revokedAt = none ∨ record.Expired state.clock))
  | .generate _ _ _ => inferInstanceAs (Decidable True)
  | .revoke _ => inferInstanceAs (Decidable True)
  | .tick _ => inferInstanceAs (Decidable True)

/-! ## The keys that were issued and their records -/

/-- Every key has its record and every record its key. -/
structure Recorded (manager : ApiKeyManager D) (issued : List Issued) :
    Prop where
  stored : ∀ key ∈ issued, ∃ record,
    manager.keys.get key.keyId = some record ∧
      record.keyHash = manager.hash key.rawKey
  keyed : ∀ keyId record, manager.keys.get keyId = some record →
    ∃ key ∈ issued, key.keyId = keyId
  ids : (issued.map Issued.keyId).Nodup
  raws : (issued.map Issued.rawKey).Nodup

variable {state next : State D} {label : Label} {key other : Issued}
  {keyId : KeyId} {random : Randomness} {issued : List Issued} {lineage : ℕ}
  {manager : ApiKeyManager D} {record found : ApiKeyRecord D}

theorem recorded_empty (config : ApiKeyConfig) (hash : String → D) :
    Recorded ⟨config, hash, .empty⟩ [] := by
  refine ⟨?_, ?_, List.nodup_nil, List.nodup_nil⟩
  · intro key hmem
    cases hmem
  · intro keyId record hget
    cases hget

theorem Recorded.generate (hrecorded : Recorded manager issued)
    (hfresh : ∀ key ∈ issued, key.keyId ≠ ApiKeyManager.newKeyId random ∧
      key.rawKey ≠ manager.rawKey random)
    (scopes : List String) (options : GenerateOptions) (now : ℤ)
    (lineage : ℕ) :
    Recorded (manager.generate scopes options random now).1
      (issued ++ [⟨lineage, ApiKeyManager.newKeyId random,
        manager.rawKey random⟩]) := by
  refine ⟨?_, ?_, ?_, ?_⟩
  · intro key hmem
    rw [ApiKeyManager.get_generate]
    rcases List.mem_append.mp hmem with hold | hnew
    · rw [if_neg (hfresh key hold).1]
      exact hrecorded.stored key hold
    · rw [List.mem_singleton.mp hnew, if_pos rfl]
      exact ⟨_, rfl, rfl⟩
  · intro keyId record hget
    rw [ApiKeyManager.get_generate] at hget
    by_cases heq : keyId = ApiKeyManager.newKeyId random
    · refine ⟨_, List.mem_append_right issued List.mem_cons_self, heq.symm⟩
    · rw [if_neg heq] at hget
      obtain ⟨key, hmem, hid⟩ := hrecorded.keyed keyId record hget
      exact ⟨key, List.mem_append_left _ hmem, hid⟩
  · rw [List.map_append, List.map_singleton, ← List.concat_eq_append]
    refine hrecorded.ids.concat fun hmem => ?_
    obtain ⟨key, hkey, hid⟩ := List.mem_map.mp hmem
    exact (hfresh key hkey).1 hid
  · rw [List.map_append, List.map_singleton, ← List.concat_eq_append]
    refine hrecorded.raws.concat fun hmem => ?_
    obtain ⟨key, hkey, hraw⟩ := List.mem_map.mp hmem
    exact (hfresh key hkey).2 hraw

theorem Recorded.revoke (hrecorded : Recorded manager issued)
    (keyId : KeyId) (now : ℤ) :
    Recorded (manager.revoke keyId now).1 issued := by
  refine ⟨?_, ?_, hrecorded.ids, hrecorded.raws⟩
  · intro key hmem
    obtain ⟨record, hget, hhash⟩ := hrecorded.stored key hmem
    rw [ApiKeyManager.get_revoke, ApiKeyManager.hash_revoke]
    by_cases heq : key.keyId = keyId
    · rw [if_pos heq, ← heq, hget]
      exact ⟨_, rfl, hhash⟩
    · rw [if_neg heq]
      exact ⟨record, hget, hhash⟩
  · intro other record hget
    rw [ApiKeyManager.get_revoke] at hget
    split at hget
    · rename_i heq
      obtain ⟨old, hold, -⟩ := Option.map_eq_some_iff.mp hget
      exact heq ▸ hrecorded.keyed keyId old hold
    · exact hrecorded.keyed other record hget

theorem Recorded.eq_of_keyId (hrecorded : Recorded manager issued)
    (hkey : key ∈ issued) (hother : other ∈ issued)
    (hid : key.keyId = other.keyId) : key = other :=
  List.inj_on_of_nodup_map hrecorded.ids hkey hother hid

theorem mem_of_key (hkey : state.key keyId = some key) :
    key ∈ state.issued ∧ key.keyId = keyId := by
  have hid := List.find?_some hkey
  exact ⟨List.mem_of_find?_eq_some hkey, of_decide_eq_true hid⟩

theorem Recorded.key_eq (hrecorded : Recorded state.manager state.issued)
    (hmem : key ∈ state.issued) : state.key key.keyId = some key := by
  cases hfound : state.key key.keyId with
  | none =>
      have hnot := List.find?_eq_none.mp hfound key hmem
      simp at hnot
  | some found =>
      obtain ⟨hfoundMem, hid⟩ := mem_of_key hfound
      exact congrArg some (hrecorded.eq_of_keyId hfoundMem hmem hid)

theorem Recorded.rotate_eq
    (hrecorded : Recorded state.manager state.issued)
    (hmem : key ∈ state.issued)
    (hget : state.manager.keys.get key.keyId = some record)
    (random : Randomness) :
    state.rotate key.keyId random = { state with
      manager := ((state.manager.revoke key.keyId state.clock).1.generate
        record.scopes ⟨record.expiresAt, record.metadata⟩ random
          state.clock).1
      issued := state.issued ++ [⟨key.lineage,
        ApiKeyManager.newKeyId random, state.manager.rawKey random⟩] } := by
  have hkey := hrecorded.key_eq hmem
  simp [State.rotate, ApiKeyManager.rotate, hget, hkey,
    ApiKeyManager.generate]

theorem rotate_of_not_get (hget : state.manager.keys.get keyId = none)
    (random : Randomness) : state.rotate keyId random = state := by
  have hnone : (state.key keyId).toList.flatMap
      (fun _ => ([] : List Issued)) = [] :=
    List.flatMap_eq_nil_iff.mpr fun _ _ => rfl
  simp [State.rotate, ApiKeyManager.rotate, hget, hnone]

@[simp] theorem hash_rotate (state : State D) (keyId : KeyId)
    (random : Randomness) :
    (state.rotate keyId random).manager.hash = state.manager.hash := by
  simp only [State.rotate, ApiKeyManager.rotate]
  split
  · rfl
  · simp

theorem Recorded.rotate (hrecorded : Recorded state.manager state.issued)
    (hfresh : state.Fresh random) (keyId : KeyId) :
    Recorded (state.rotate keyId random).manager
      (state.rotate keyId random).issued := by
  cases hget : state.manager.keys.get keyId with
  | none =>
      rw [rotate_of_not_get hget]
      exact hrecorded
  | some record =>
      obtain ⟨old, hmem, rfl⟩ := hrecorded.keyed keyId record hget
      have hnext := (hrecorded.revoke old.keyId state.clock).generate
        (by simpa [State.Fresh] using hfresh) record.scopes
        ⟨record.expiresAt, record.metadata⟩ state.clock old.lineage
      rw [ApiKeyManager.rawKey_revoke] at hnext
      rw [hrecorded.rotate_eq hmem hget]
      exact hnext

theorem Recorded.accepts_iff [DecidableEq D]
    (hrecorded : Recorded state.manager state.issued)
    (hinjective : Function.Injective state.manager.hash)
    (hmem : key ∈ state.issued)
    (hget : state.manager.keys.get key.keyId = some record) :
    state.Accepts key ↔
      record.revokedAt = none ∧ ¬ record.Expired state.clock := by
  have hhash : ∀ found other, other ∈ state.issued →
      state.manager.keys.get other.keyId = some found →
        found.keyHash = state.manager.hash other.rawKey := by
    intro found other hother hfound
    obtain ⟨stored, hstored, hhash⟩ := hrecorded.stored other hother
    rw [hfound, Option.some.injEq] at hstored
    exact hstored ▸ hhash
  have hunique : ∀ id found, state.manager.keys.get id = some found →
      found.keyHash = state.manager.hash key.rawKey → id = key.keyId := by
    intro id found hfound hsame
    obtain ⟨other, hother, rfl⟩ := hrecorded.keyed id found hfound
    rw [hhash found other hother hfound] at hsame
    rw [List.inj_on_of_nodup_map hrecorded.raws hother hmem
      (hinjective hsame)]
  rw [State.Accepts, ApiKeyManager.validate_eq_of_get hget
    (hhash record key hmem hget) hunique]
  cases record.revokedAt with
  | none =>
      by_cases hexpired : record.Expired state.clock
      · simp [hexpired]
      · simp [hexpired]
  | some revokedAt => simp

/-! ## The newest key of a lineage -/

theorem newest_concat :
    newest (issued ++ [key]) lineage =
      if key.lineage = lineage then some key else newest issued lineage := by
  unfold newest
  by_cases heq : key.lineage = lineage
  · simp [heq]
  · simp [heq]

theorem mem_of_newest (hnewest : newest issued lineage = some key) :
    key ∈ issued ∧ key.lineage = lineage := by
  have hmem := List.mem_of_getLast? hnewest
  simpa using List.mem_filter.mp hmem

theorem exists_newest (hmem : key ∈ issued) :
    ∃ last, newest issued key.lineage = some last := by
  apply Option.isSome_iff_exists.mp
  rw [newest, Option.isSome_iff_ne_none, Ne, List.getLast?_eq_none_iff]
  exact List.ne_nil_of_mem (List.mem_filter.mpr ⟨hmem, by simp⟩)

/-! ## The keys of a lineage expire together -/

def Together (manager : ApiKeyManager D) (issued : List Issued) : Prop :=
  ∀ first ∈ issued, ∀ second ∈ issued, first.lineage = second.lineage →
    ∀ record found, manager.keys.get first.keyId = some record →
      manager.keys.get second.keyId = some found →
      record.expiresAt = found.expiresAt

theorem Together.revoke (htogether : Together manager issued)
    (keyId : KeyId) (now : ℤ) :
    Together (manager.revoke keyId now).1 issued := by
  intro first hfirst second hsecond hsame record found hget hfound
  obtain ⟨old, hold, hexpiry⟩ := ApiKeyManager.exists_get_of_revoke hget
  obtain ⟨other, hother, hsecondExpiry⟩ :=
    ApiKeyManager.exists_get_of_revoke hfound
  rw [← hexpiry, ← hsecondExpiry]
  exact htogether first hfirst second hsecond hsame old other hold hother

theorem Together.generate (htogether : Together manager issued)
    (hfresh : ∀ key ∈ issued, key.keyId ≠ ApiKeyManager.newKeyId random)
    (scopes : List String) (options : GenerateOptions) (now : ℤ)
    (lineage : ℕ)
    (hexpiry : ∀ key ∈ issued, key.lineage = lineage → ∀ record,
      manager.keys.get key.keyId = some record →
      record.expiresAt = options.expiresAt) :
    Together (manager.generate scopes options random now).1
      (issued ++ [⟨lineage, ApiKeyManager.newKeyId random,
        manager.rawKey random⟩]) := by
  intro first hfirst second hsecond hsame record found hget hfound
  rw [ApiKeyManager.get_generate] at hget hfound
  rcases List.mem_append.mp hfirst with holdFirst | hnewFirst
  · rw [if_neg (hfresh first holdFirst)] at hget
    rcases List.mem_append.mp hsecond with holdSecond | hnewSecond
    · rw [if_neg (hfresh second holdSecond)] at hfound
      exact htogether first holdFirst second holdSecond hsame record found
        hget hfound
    · rw [List.mem_singleton.mp hnewSecond] at hsame hfound
      rw [if_pos rfl, Option.some.injEq] at hfound
      rw [← hfound]
      exact hexpiry first holdFirst hsame record hget
  · rw [List.mem_singleton.mp hnewFirst] at hsame hget
    rw [if_pos rfl, Option.some.injEq] at hget
    rcases List.mem_append.mp hsecond with holdSecond | hnewSecond
    · rw [if_neg (hfresh second holdSecond)] at hfound
      rw [← hget]
      exact (hexpiry second holdSecond hsame.symm found hfound).symm
    · rw [List.mem_singleton.mp hnewSecond, if_pos rfl,
        Option.some.injEq] at hfound
      rw [← hget, ← hfound]

/-! ## What the condition keeps -/

/-- Of the keys that have not expired the one that has not been revoked is the
newest of a lineage that has not ended. -/
structure Invariant (state : State D) : Prop where
  injective : Function.Injective state.manager.hash
  recorded : Recorded state.manager state.issued
  numbered : ∀ key ∈ state.issued, key.lineage < state.lineages
  endings : ∀ lineage ∈ state.ended, lineage < state.lineages
  together : Together state.manager state.issued
  live : ∀ key ∈ state.issued, ∀ record,
    state.manager.keys.get key.keyId = some record →
      ¬ record.Expired state.clock →
      (record.revokedAt = none ↔
        newest state.issued key.lineage = some key ∧
          key.lineage ∉ state.ended)

theorem invariant_initial (config : ApiKeyConfig) {hash : String → D}
    (hinjective : Function.Injective hash) (clock : ℤ) :
    Invariant (State.initial config hash clock) := by
  refine ⟨hinjective, recorded_empty config hash, ?_, ?_, ?_, ?_⟩
  · intro key hmem
    cases hmem
  · intro lineage hmem
    cases hmem
  · intro first hmem
    cases hmem
  · intro key hmem
    cases hmem

theorem Invariant.law [DecidableEq D] (hinv : Invariant state) :
    LineageLaw state := by
  have hlive : ∀ key ∈ state.issued, state.Accepts key →
      newest state.issued key.lineage = some key ∧
        key.lineage ∉ state.ended := by
    intro key hmem haccepts
    obtain ⟨record, hget, -⟩ := hinv.recorded.stored key hmem
    obtain ⟨hunrevoked, hexpired⟩ :=
      (hinv.recorded.accepts_iff hinv.injective hmem hget).mp haccepts
    exact (hinv.live key hmem record hget hexpired).mp hunrevoked
  constructor
  · intro first hfirst second hsecond hsame hacceptsFirst hacceptsSecond
    have hnewest := (hlive first hfirst hacceptsFirst).1
    rw [hsame, (hlive second hsecond hacceptsSecond).1] at hnewest
    exact (Option.some.inj hnewest).symm
  · intro key hmem hended haccepts
    exact (hlive key hmem haccepts).2 hended

theorem Invariant.tick (hinv : Invariant state) {now : ℤ}
    (hnow : state.clock ≤ now) :
    Invariant { state with clock := now } := by
  refine ⟨hinv.injective, hinv.recorded, hinv.numbered, hinv.endings,
    hinv.together, ?_⟩
  intro key hmem record hget hexpired
  refine hinv.live key hmem record hget fun hearlier => hexpired ?_
  obtain ⟨expiresAt, hexpiry, hlt⟩ := hearlier
  exact ⟨expiresAt, hexpiry, Int.lt_of_lt_of_le hlt hnow⟩

theorem Invariant.generate (hinv : Invariant state)
    (hfresh : state.Fresh random) (scopes : List String)
    (options : GenerateOptions) :
    Invariant (state.generate scopes options random) := by
  have hearlier : ∀ key ∈ state.issued, key.lineage ≠ state.lineages :=
    fun key hmem => Nat.ne_of_lt (hinv.numbered key hmem)
  refine ⟨hinv.injective, hinv.recorded.generate hfresh scopes options
    state.clock state.lineages, ?_, ?_, ?_, ?_⟩
  · intro key hmem
    rcases List.mem_append.mp hmem with hold | hnew
    · exact Nat.lt_succ_of_lt (hinv.numbered key hold)
    · rw [List.mem_singleton.mp hnew]
      exact Nat.lt_succ_self _
  · intro lineage hmem
    exact Nat.lt_succ_of_lt (hinv.endings lineage hmem)
  · refine hinv.together.generate (fun key hmem => (hfresh key hmem).1) scopes
      options state.clock state.lineages fun key hmem hsame => ?_
    exact absurd hsame (hearlier key hmem)
  · intro key hmem record hget hexpired
    simp only [State.generate, ApiKeyManager.get_generate,
      newest_concat] at hget hexpired ⊢
    rcases List.mem_append.mp hmem with hold | hnew
    · rw [if_neg (hfresh key hold).1] at hget
      rw [if_neg (Ne.symm (hearlier key hold))]
      exact hinv.live key hold record hget hexpired
    · have hnotEnded : state.lineages ∉ state.ended := fun hended =>
        Nat.lt_irrefl _ (hinv.endings _ hended)
      rw [List.mem_singleton.mp hnew] at hget ⊢
      have hrecord := Option.some.inj ((if_pos rfl).symm.trans hget)
      rw [if_pos rfl, ← hrecord]
      exact iff_of_true rfl ⟨rfl, hnotEnded⟩

theorem Invariant.revoke (hinv : Invariant state) (keyId : KeyId) :
    Invariant (state.revoke keyId) := by
  refine ⟨?_, hinv.recorded.revoke keyId state.clock, hinv.numbered, ?_,
    hinv.together.revoke keyId state.clock, ?_⟩
  · simp only [State.revoke, ApiKeyManager.hash_revoke]
    exact hinv.injective
  · intro lineage hmem
    rcases List.mem_append.mp hmem with hold | hnew
    · exact hinv.endings lineage hold
    · obtain ⟨key, hkey, hended⟩ := List.mem_flatMap.mp hnew
      rw [Option.mem_toList] at hkey
      split at hended
      · rw [List.mem_singleton.mp hended]
        exact hinv.numbered key (mem_of_key hkey).1
      · cases hended
  · intro key hmem record hget hexpired
    simp only [State.revoke, ApiKeyManager.get_revoke] at hget hexpired ⊢
    by_cases heq : key.keyId = keyId
    · subst keyId
      rw [if_pos rfl] at hget
      obtain ⟨old, hold, rfl⟩ := Option.map_eq_some_iff.mp hget
      refine iff_of_false (Option.some_ne_none _) ?_
      rintro ⟨hnewest, hnotEnded⟩
      refine hnotEnded (List.mem_append_right _ ?_)
      simp [hinv.recorded.key_eq hmem, hnewest]
    · rw [if_neg heq] at hget
      rw [hinv.live key hmem record hget hexpired]
      refine and_congr_right fun hnewest => not_congr ?_
      rw [List.mem_append, List.mem_flatMap]
      refine (or_iff_left ?_).symm
      rintro ⟨other, hother, hended⟩
      split at hended
      · rename_i hother'
        rw [List.mem_singleton.mp hended, hother'] at hnewest
        rw [Option.mem_toList, Option.some.inj hnewest] at hother
        exact heq (mem_of_key hother).2
      · cases hended

theorem Invariant.together_rotate (hinv : Invariant state)
    (hfresh : state.Fresh random) (keyId : KeyId) :
    Together (state.rotate keyId random).manager
      (state.rotate keyId random).issued := by
  cases hget : state.manager.keys.get keyId with
  | none =>
      rw [rotate_of_not_get hget]
      exact hinv.together
  | some record =>
      obtain ⟨old, hold, rfl⟩ := hinv.recorded.keyed keyId record hget
      have hexpiries : ∀ key ∈ state.issued, key.lineage = old.lineage →
          ∀ found, (state.manager.revoke old.keyId state.clock).1.keys.get
            key.keyId = some found → found.expiresAt = record.expiresAt := by
        intro key hmem hsame found hfound
        obtain ⟨before, hbefore, hexpiry⟩ :=
          ApiKeyManager.exists_get_of_revoke hfound
        rw [← hexpiry]
        exact hinv.together key hmem old hold hsame before record hbefore hget
      have hnext := (hinv.together.revoke old.keyId state.clock).generate
        (fun key hmem => (hfresh key hmem).1) record.scopes
        ⟨record.expiresAt, record.metadata⟩ state.clock old.lineage hexpiries
      rw [ApiKeyManager.rawKey_revoke] at hnext
      rw [hinv.recorded.rotate_eq hold hget]
      exact hnext

/-- A key that may be rotated is the newest of a lineage that has not ended,
unless the keys of its lineage have expired. -/
theorem Invariant.newest_of_live (hinv : Invariant state)
    (hmem : key ∈ state.issued)
    (hget : state.manager.keys.get key.keyId = some record)
    (hlive : record.revokedAt = none ∨ record.Expired state.clock)
    (hexpiry : found.expiresAt = record.expiresAt)
    (hexpired : ¬ found.Expired state.clock) :
    newest state.issued key.lineage = some key ∧
      key.lineage ∉ state.ended := by
  rw [ApiKeyRecord.expired_congr hexpiry] at hexpired
  exact (hinv.live key hmem record hget hexpired).mp
    (hlive.resolve_right hexpired)

/-- Once the rotated key has been revoked, the keys that are neither revoked
nor expired belong to other lineages. -/
theorem Invariant.live_revoked (hinv : Invariant state)
    (hmem : key ∈ state.issued)
    (hget : state.manager.keys.get key.keyId = some record)
    (hlive : record.revokedAt = none ∨ record.Expired state.clock)
    (hother : other ∈ state.issued)
    (hstored : (state.manager.revoke key.keyId state.clock).1.keys.get
      other.keyId = some found)
    (hexpired : ¬ found.Expired state.clock) :
    found.revokedAt = none ↔
      key.lineage ≠ other.lineage ∧
        newest state.issued other.lineage = some other ∧
          other.lineage ∉ state.ended := by
  rw [ApiKeyManager.get_revoke] at hstored
  by_cases hid : other.keyId = key.keyId
  · rw [if_pos hid, hget] at hstored
    rw [hinv.recorded.eq_of_keyId hother hmem hid, ← Option.some.inj hstored]
    exact iff_of_false (Option.some_ne_none _) fun hnewest => hnewest.1 rfl
  · rw [if_neg hid] at hstored
    rw [hinv.live other hother found hstored hexpired]
    refine (and_iff_right_of_imp fun hnewest hsame => ?_).symm
    have hexpiry := hinv.together other hother key hmem hsame.symm found
      record hstored hget
    have hkey := (hinv.newest_of_live hmem hget hlive hexpiry hexpired).1
    rw [hsame, hnewest.1] at hkey
    exact hid (congrArg Issued.keyId (Option.some.inj hkey))

theorem Invariant.injective_rotate (hinv : Invariant state)
    (keyId : KeyId) (random : Randomness) :
    Function.Injective (state.rotate keyId random).manager.hash := by
  rw [hash_rotate]
  exact hinv.injective

theorem Invariant.rotate (hinv : Invariant state)
    (hfresh : state.Fresh random)
    (hlive : ∀ record ∈ state.manager.keys.get keyId,
      record.revokedAt = none ∨ record.Expired state.clock) :
    Invariant (state.rotate keyId random) := by
  have hinjective := hinv.injective_rotate keyId random
  have hrecorded := hinv.recorded.rotate hfresh keyId
  have htogether := hinv.together_rotate hfresh keyId
  cases hget : state.manager.keys.get keyId with
  | none =>
      rw [rotate_of_not_get hget]
      exact hinv
  | some existing =>
      obtain ⟨old, hold, rfl⟩ := hinv.recorded.keyed keyId existing hget
      rw [hinv.recorded.rotate_eq hold hget]
        at hinjective hrecorded htogether ⊢
      refine ⟨hinjective, hrecorded, ?_, hinv.endings, htogether, ?_⟩
      · intro key hmem
        rcases List.mem_append.mp hmem with hearlier | hnew
        · exact hinv.numbered key hearlier
        · rw [List.mem_singleton.mp hnew]
          exact hinv.numbered old hold
      · intro key hmem record hstored hexpired
        simp only [ApiKeyManager.get_generate, newest_concat]
          at hstored hexpired ⊢
        rcases List.mem_append.mp hmem with hearlier | hnew
        · have hid := (hfresh key hearlier).1
          rw [if_neg hid] at hstored
          rw [hinv.live_revoked hold hget (hlive existing hget) hearlier
            hstored hexpired]
          by_cases hsame : old.lineage = key.lineage
          · rw [if_pos hsame]
            refine iff_of_false (fun hnewest => hnewest.1 hsame) ?_
            rintro ⟨hnewest, -⟩
            exact hid (congrArg Issued.keyId (Option.some.inj hnewest)).symm
          · rw [if_neg hsame]
            exact and_iff_right hsame
        · rw [List.mem_singleton.mp hnew] at hstored ⊢
          have hgenerated := Option.some.inj ((if_pos rfl).symm.trans hstored)
          rw [if_pos rfl]
          refine iff_of_true (hgenerated ▸ rfl) ⟨rfl, ?_⟩
          exact (hinv.newest_of_live hold hget (hlive existing hget)
            (hgenerated ▸ rfl) hexpired).2

theorem Invariant.step (hinv : Invariant state)
    (hlive : RotatesLive state label) (hstep : step state label = some next) :
    Invariant next := by
  cases label with
  | generate scopes options random =>
      obtain ⟨hfresh, hnext⟩ := Option.ite_none_right_eq_some.mp hstep
      cases hnext
      exact hinv.generate hfresh scopes options
  | rotate keyId random =>
      obtain ⟨hfresh, hnext⟩ := Option.ite_none_right_eq_some.mp hstep
      cases hnext
      exact hinv.rotate hfresh hlive
  | revoke keyId =>
      cases hstep
      exact hinv.revoke keyId
  | tick now =>
      obtain ⟨hnow, hnext⟩ := Option.ite_none_right_eq_some.mp hstep
      cases hnext
      exact hinv.tick hnow

/-! ## What breaks the law -/

section Law

variable [DecidableEq D]

/-- The key that comes from a rotation is accepted unless it has expired. -/
theorem Invariant.accepts_rotated (hinv : Invariant state)
    (hfresh : state.Fresh random) (hmem : key ∈ state.issued)
    (hget : state.manager.keys.get key.keyId = some record)
    (hexpired : ¬ record.Expired state.clock) :
    ∃ rotated ∈ (state.rotate key.keyId random).issued,
      rotated.lineage = key.lineage ∧
        rotated.keyId = ApiKeyManager.newKeyId random ∧
          (state.rotate key.keyId random).Accepts rotated := by
  have hrecorded := hinv.recorded.rotate hfresh key.keyId
  have hinjective := hinv.injective_rotate key.keyId random
  rw [hinv.recorded.rotate_eq hmem hget] at hrecorded hinjective ⊢
  have hnew : (⟨key.lineage, ApiKeyManager.newKeyId random,
      state.manager.rawKey random⟩ : Issued) ∈ state.issued ++
        [⟨key.lineage, ApiKeyManager.newKeyId random,
          state.manager.rawKey random⟩] :=
    List.mem_append_right _ List.mem_cons_self
  refine ⟨_, hnew, rfl, rfl, ?_⟩
  rw [hrecorded.accepts_iff hinjective hnew (by
    rw [ApiKeyManager.get_generate, if_pos rfl])]
  refine ⟨rfl, (not_congr (ApiKeyRecord.expired_congr ?_ _)).mpr hexpired⟩
  rfl

/-- The newest key of a lineage that has not ended is still accepted when an
older one is rotated. -/
theorem Invariant.accepts_newest (hinv : Invariant state)
    (hfresh : state.Fresh random) (hmem : key ∈ state.issued)
    (hget : state.manager.keys.get key.keyId = some record)
    (hrevoked : record.revokedAt ≠ none)
    (hexpired : ¬ record.Expired state.clock)
    (hended : key.lineage ∉ state.ended) :
    ∃ last ∈ state.issued, last.lineage = key.lineage ∧
      last ∈ (state.rotate key.keyId random).issued ∧
        (state.rotate key.keyId random).Accepts last := by
  obtain ⟨last, hlast⟩ := exists_newest hmem
  obtain ⟨hlastMem, hlineage⟩ := mem_of_newest hlast
  obtain ⟨found, hfound, -⟩ := hinv.recorded.stored last hlastMem
  have hlastExpired : ¬ found.Expired state.clock := by
    rw [ApiKeyRecord.expired_congr (hinv.together last hlastMem key hmem
      hlineage found record hfound hget)]
    exact hexpired
  have hlastLive := (hinv.live last hlastMem found hfound hlastExpired).mpr
    ⟨hlineage.symm ▸ hlast, hlineage.symm ▸ hended⟩
  have hne : last.keyId ≠ key.keyId := by
    intro hsame
    rw [hsame, hget] at hfound
    exact hrevoked (Option.some.inj hfound ▸ hlastLive)
  have hrecorded := hinv.recorded.rotate hfresh key.keyId
  have hinjective := hinv.injective_rotate key.keyId random
  rw [hinv.recorded.rotate_eq hmem hget] at hrecorded hinjective ⊢
  have hstays := List.mem_append_left [⟨key.lineage,
    ApiKeyManager.newKeyId random, state.manager.rawKey random⟩] hlastMem
  refine ⟨last, hlastMem, hlineage, hstays, ?_⟩
  rw [hrecorded.accepts_iff hinjective hstays (by
    rw [ApiKeyManager.get_generate, if_neg (hfresh last hlastMem).1,
      ApiKeyManager.get_revoke, if_neg hne, hfound])]
  exact ⟨hlastLive, hlastExpired⟩

/-- A key that is rotated for the second time, or after it was revoked, leaves
two accepted keys or an accepted key of a lineage that has ended. -/
theorem Invariant.not_law_rotate (hinv : Invariant state)
    (hfresh : state.Fresh random)
    (hget : state.manager.keys.get keyId = some record)
    (hrevoked : record.revokedAt ≠ none)
    (hexpired : ¬ record.Expired state.clock) :
    ¬ LineageLaw (state.rotate keyId random) := by
  intro hlaw
  obtain ⟨old, hold, rfl⟩ := hinv.recorded.keyed keyId record hget
  obtain ⟨rotated, hmem, hlineage, hid, haccepts⟩ :=
    hinv.accepts_rotated hfresh hold hget hexpired
  by_cases hended : old.lineage ∈ state.ended
  · refine hlaw.ended rotated hmem ?_ haccepts
    rw [hinv.recorded.rotate_eq hold hget, hlineage]
    exact hended
  · obtain ⟨last, hlast, hlastLineage, hstays, hacceptsLast⟩ :=
      hinv.accepts_newest hfresh hold hget hrevoked hexpired hended
    have hsame := hlaw.single last hstays rotated hmem
      (hlastLineage.trans hlineage.symm) hacceptsLast haccepts
    exact (hfresh last hlast).1 (hsame ▸ hid)

theorem not_law_of_not_rotatesLive (hinv : Invariant state)
    (hnot : ¬ RotatesLive state label) (hstep : step state label = some next) :
    ¬ LineageLaw next := by
  cases label with
  | generate scopes options random => exact absurd trivial hnot
  | revoke keyId => exact absurd trivial hnot
  | tick now => exact absurd trivial hnot
  | rotate keyId random =>
      obtain ⟨hfresh, hnext⟩ := Option.ite_none_right_eq_some.mp hstep
      cases hnext
      rw [RotatesLive] at hnot
      push Not at hnot
      obtain ⟨record, hget, hrevoked, hexpired⟩ := hnot
      exact hinv.not_law_rotate hfresh hget hrevoked hexpired

/-- At most one key of each lineage is accepted, and none of one whose newest
key has been revoked, in every state of a run, if and only if no key is
rotated that has been revoked or rotated before and has not expired. -/
theorem lineageLaw_iff_rotatesLive {config : ApiKeyConfig} {hash : String → D}
    {clock : ℤ} {labels : List Label} (hinjective : Function.Injective hash)
    (hrun : exec step (State.initial config hash clock) labels = some state) :
    Throughout step LineageLaw (State.initial config hash clock) labels ↔
      StepsMeet step RotatesLive (State.initial config hash clock) labels :=
  throughout_iff_stepsMeet (fun _ hinv => hinv.law)
    (fun _ _ _ hinv hlive hstep => hinv.step hlive hstep)
    (fun _ _ _ hinv hnot hstep => not_law_of_not_rotatesLive hinv hnot hstep)
    (invariant_initial config hinjective clock) hrun

end Law

/-- The digests of three keys. -/
def sha256 : Equiv.Perm String :=
  Equiv.swap "ak_01"
      "454e7453d952223df8fcd46fb51728984d8a56391c0eb8bc73fe3df2460cfd36" *
    Equiv.swap "ak_02"
      "54278fc8f7cee8373737107580d2b2103544cc0da6d076d803f4cffc4941bc49" *
    Equiv.swap "ak_03"
      "0543d5478ff665b3595117b50d8d766c3cf6c6587b9d48787f9fbaf64b213488"

def sampleState : State String := State.initial ⟨none⟩ sha256 100

/-- A key that expires is rotated, and once more when it has expired, and the
newest is revoked. -/
def rotatesInTurn : List Label :=
  [.generate ["read"] ⟨some 200, none⟩ ⟨"01", "0000000000000001"⟩,
    .tick 150, .rotate "kid_0000000000000001" ⟨"02", "0000000000000002"⟩,
    .tick 201, .rotate "kid_0000000000000001" ⟨"03", "0000000000000003"⟩,
    .revoke "kid_0000000000000003"]

/-- The newest key is revoked and the one before it is rotated again. -/
def rotatesRevoked : List Label :=
  [.generate ["read"] ⟨none, none⟩ ⟨"01", "0000000000000001"⟩,
    .rotate "kid_0000000000000001" ⟨"02", "0000000000000002"⟩,
    .revoke "kid_0000000000000002",
    .rotate "kid_0000000000000001" ⟨"03", "0000000000000003"⟩]

theorem lineageLaw_iff_rotatesLive_samples :
    Throughout step LineageLaw sampleState rotatesInTurn ∧
      ¬ Throughout step LineageLaw sampleState rotatesRevoked := by
  have hturn : (exec step sampleState rotatesInTurn).isSome := by
    decide +kernel
  have hrevoked : (exec step sampleState rotatesRevoked).isSome := by
    decide +kernel
  obtain ⟨_, hturn⟩ := Option.isSome_iff_exists.mp hturn
  obtain ⟨_, hrevoked⟩ := Option.isSome_iff_exists.mp hrevoked
  constructor
  · apply (lineageLaw_iff_rotatesLive sha256.injective hturn).mpr
    decide +kernel
  · intro hlaw
    have hmeet := (lineageLaw_iff_rotatesLive sha256.injective hrevoked).mp
      hlaw
    exact absurd hmeet (by decide +kernel)

/-- The lineage has ended and its third key is accepted. -/
theorem not_lineageLaw_rotatesRevoked :
    ∃ state, exec step sampleState rotatesRevoked = some state ∧
      state.ended = [0] ∧
      ⟨0, "kid_0000000000000003", "ak_03"⟩ ∈ state.issued ∧
      state.Accepts ⟨0, "kid_0000000000000003", "ak_03"⟩ ∧
      ¬ LineageLaw state := by
  have hsome : (exec step sampleState rotatesRevoked).any (fun state =>
      state.ended = [0] ∧
        ⟨0, "kid_0000000000000003", "ak_03"⟩ ∈ state.issued ∧
        (state.manager.validate "ak_03" state.clock).isSome) := by
    decide +kernel
  obtain ⟨state, hrun, hfacts⟩ := (Option.any_eq_true _ _).mp hsome
  obtain ⟨hended, hmem, haccepts⟩ := of_decide_eq_true hfacts
  refine ⟨state, hrun, hended, hmem, haccepts, fun hlaw => ?_⟩
  exact hlaw.ended _ hmem (by rw [hended]; exact List.mem_cons_self) haccepts

end TsCommons.Security.KeyLineage
