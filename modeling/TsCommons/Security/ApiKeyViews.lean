import TsCommons.Foundations.Execution
import TsCommons.Security.ApiKeyManager

/-!
# Two views of the active keys

A raw key is accepted by `validate` if its record is neither revoked nor past
its expiry, and `listActive` lists a record that is neither revoked nor at or
past its expiry.  The two agree at every instant but that of the expiry
itself.
-/

namespace TsCommons.Security.ApiKeyViews

open Foundations

variable {D : Type}

/-- `raws` are the raw keys that have been handed out. -/
structure State (D : Type) where
  manager : ApiKeyManager D
  raws : List String

def State.initial (config : ApiKeyConfig) (hash : String → D) : State D :=
  ⟨⟨config, hash, .empty⟩, []⟩

/-- The calls, each with the reading of the clock. -/
inductive Label
  | generate (scopes : List String) (options : GenerateOptions)
      (random : Randomness) (now : ℤ)
  | rotate (keyId : KeyId) (random : Randomness) (now : ℤ)
  | revoke (keyId : KeyId) (now : ℤ)

/-- A raw key that is generated has not come up before. -/
def step (state : State D) : Label → Option (State D)
  | .generate scopes options random now =>
      if state.manager.rawKey random ∉ state.raws then
        let result := state.manager.generate scopes options random now
        some ⟨result.1, state.raws ++ [result.2.1]⟩
      else none
  | .rotate keyId random now =>
      if state.manager.rawKey random ∉ state.raws then
        let result := state.manager.rotate keyId random now
        some ⟨result.1, state.raws ++ result.2.toList.map Prod.fst⟩
      else none
  | .revoke keyId now =>
      some { state with manager := (state.manager.revoke keyId now).1 }

/-- `validate` returns the record of the raw key if and only if `listActive`
has it. -/
def ViewsAgree [DecidableEq D] (manager : ApiKeyManager D) (rawKey : String)
    (now : ℤ) : Prop :=
  ∀ record, manager.validate rawKey now = some record ↔
    record ∈ manager.listActive now ∧ record.keyHash = manager.hash rawKey

/-- The record of the raw key does not expire at this very instant, unless it
has been revoked. -/
def NotExpiringNow (manager : ApiKeyManager D) (rawKey : String)
    (now : ℤ) : Prop :=
  ∀ record ∈ manager.keys.values, record.keyHash = manager.hash rawKey →
    record.revokedAt = none → record.expiresAt ≠ some now

instance NotExpiringNow.decidable [DecidableEq D]
    (manager : ApiKeyManager D) (rawKey : String) (now : ℤ) :
    Decidable (NotExpiringNow manager rawKey now) :=
  inferInstanceAs (Decidable (∀ record ∈ manager.keys.values,
    record.keyHash = manager.hash rawKey →
      record.revokedAt = none → record.expiresAt ≠ some now))

/-! ## One record for each raw key -/

variable {state next : State D} {label : Label} {keyId : KeyId}
  {manager : ApiKeyManager D} {record : ApiKeyRecord D}
  {random : Randomness} {raws : List String} {now : ℤ}

/-- The records have the hashes of different raw keys that were handed out. -/
structure Apart (manager : ApiKeyManager D) (raws : List String) : Prop where
  handedOut : ∀ keyId record, manager.keys.get keyId = some record →
    ∃ rawKey ∈ raws, record.keyHash = manager.hash rawKey
  distinct : ∀ keyId other record found,
    manager.keys.get keyId = some record →
      manager.keys.get other = some found →
        record.keyHash = found.keyHash → keyId = other

theorem Apart.mono {more : List String} (hapart : Apart manager raws)
    (hsub : ∀ rawKey ∈ raws, rawKey ∈ more) : Apart manager more := by
  refine ⟨?_, hapart.distinct⟩
  intro keyId record hget
  obtain ⟨rawKey, hmem, hhash⟩ := hapart.handedOut keyId record hget
  exact ⟨rawKey, hsub rawKey hmem, hhash⟩

theorem Apart.generate (hapart : Apart manager raws)
    (hinjective : Function.Injective manager.hash)
    (hfresh : manager.rawKey random ∉ raws) (scopes : List String)
    (options : GenerateOptions) (now : ℤ) :
    Apart (manager.generate scopes options random now).1
      (raws ++ [manager.rawKey random]) := by
  have hnew : ∀ keyId record, manager.keys.get keyId = some record →
      record.keyHash ≠ manager.hash (manager.rawKey random) := by
    intro keyId record hget hsame
    obtain ⟨rawKey, hmem, hhash⟩ := hapart.handedOut keyId record hget
    rw [hhash] at hsame
    rw [hinjective hsame] at hmem
    exact hfresh hmem
  constructor
  · intro keyId record hget
    rw [ApiKeyManager.get_generate] at hget
    split at hget
    · rw [← Option.some.inj hget]
      exact ⟨manager.rawKey random, List.mem_append_right _
        List.mem_cons_self, rfl⟩
    · obtain ⟨rawKey, hmem, hhash⟩ := hapart.handedOut keyId record hget
      exact ⟨rawKey, List.mem_append_left _ hmem, hhash⟩
  · intro keyId other record found hget hother hsame
    rw [ApiKeyManager.get_generate] at hget hother
    split at hget
    · rename_i hkey
      split at hother
      · rename_i hotherKey
        rw [hkey, hotherKey]
      · rw [← Option.some.inj hget] at hsame
        exact absurd hsame.symm (hnew other found hother)
    · split at hother
      · rw [← Option.some.inj hother] at hsame
        exact absurd hsame (hnew keyId record hget)
      · exact hapart.distinct keyId other record found hget hother hsame

/-- Revoking a key keeps the hashes of all records. -/
theorem exists_get_of_revoke
    (hget : (manager.revoke keyId now).1.keys.get other = some record) :
    ∃ old, manager.keys.get other = some old ∧
      old.keyHash = record.keyHash := by
  rw [ApiKeyManager.get_revoke] at hget
  split at hget
  · rename_i heq
    obtain ⟨old, hold, rfl⟩ := Option.map_eq_some_iff.mp hget
    exact ⟨old, heq ▸ hold, rfl⟩
  · exact ⟨record, hget, rfl⟩

theorem Apart.revoke (hapart : Apart manager raws) (keyId : KeyId)
    (now : ℤ) : Apart (manager.revoke keyId now).1 raws := by
  constructor
  · intro other record hget
    obtain ⟨old, hold, hsame⟩ := exists_get_of_revoke hget
    rw [ApiKeyManager.hash_revoke, ← hsame]
    exact hapart.handedOut other old hold
  · intro first second record found hget hfound hsame
    obtain ⟨old, hold, hhash⟩ := exists_get_of_revoke hget
    obtain ⟨oldFound, holdFound, hfoundHash⟩ := exists_get_of_revoke hfound
    apply hapart.distinct first second old oldFound hold holdFound
    rw [hhash, hfoundHash, hsame]

/-- What holds in every state of a run. -/
structure Invariant (hash : String → D) (state : State D) : Prop where
  hash_eq : state.manager.hash = hash
  apart : Apart state.manager state.raws

theorem Invariant.step {hash : String → D}
    (hinjective : Function.Injective hash) (hinv : Invariant hash state)
    (hstep : step state label = some next) : Invariant hash next := by
  obtain ⟨hhash, hapart⟩ := hinv
  rw [← hhash] at hinjective
  cases label with
  | generate scopes options random now =>
      rw [ApiKeyViews.step, Option.ite_none_right_eq_some,
        Option.some.injEq] at hstep
      obtain ⟨hfresh, rfl⟩ := hstep
      exact ⟨hhash, hapart.generate hinjective hfresh scopes options now⟩
  | rotate keyId random now =>
      rw [ApiKeyViews.step, Option.ite_none_right_eq_some,
        Option.some.injEq] at hstep
      obtain ⟨hfresh, rfl⟩ := hstep
      simp only [ApiKeyManager.rotate]
      cases hget : state.manager.keys.get keyId with
      | none => exact ⟨hhash, hapart.mono (by simp)⟩
      | some existing =>
          have hrevoked := hapart.revoke keyId now
          have hinjectiveRevoked : Function.Injective
              (state.manager.revoke keyId now).1.hash := by
            rw [ApiKeyManager.hash_revoke]
            exact hinjective
          rw [← ApiKeyManager.rawKey_revoke state.manager keyId now] at hfresh
          refine ⟨?_, hrevoked.generate hinjectiveRevoked hfresh _ _ now⟩
          rw [ApiKeyManager.hash_generate, ApiKeyManager.hash_revoke, hhash]
  | revoke keyId now =>
      cases hstep
      exact ⟨(ApiKeyManager.hash_revoke _ _ _).trans hhash,
        hapart.revoke keyId now⟩

theorem Invariant.initial (config : ApiKeyConfig) (hash : String → D) :
    Invariant hash (State.initial config hash) := by
  refine ⟨rfl, ?_, ?_⟩
  · intro keyId record hget
    cases hget
  · intro keyId other record found hget
    cases hget

/-! ## The instant of the expiry -/

theorem mem_listActive_iff :
    record ∈ manager.listActive now ↔
      record ∈ manager.keys.values ∧ record.revokedAt = none ∧
        ∀ expiresAt ∈ record.expiresAt, now < expiresAt := by
  rw [ApiKeyManager.listActive, List.mem_filter, decide_eq_true_iff,
    Option.isNone_iff_eq_none]

/-- The views of a raw key with a record can differ only in its expiry. -/
theorem viewsAgree_iff_of_get [DecidableEq D] {rawKey : String}
    (hmem : record ∈ manager.keys.values)
    (hhash : record.keyHash = manager.hash rawKey)
    (honly : ∀ found ∈ manager.keys.values,
      found.keyHash = manager.hash rawKey → found = record)
    (hvalidate : manager.validate rawKey now =
      if record.revokedAt.isSome then none
      else if record.Expired now then none
      else some record) :
    ViewsAgree manager rawKey now ↔
      (record.revokedAt = none → (¬ record.Expired now ↔
        ∀ expiresAt ∈ record.expiresAt, now < expiresAt)) := by
  have haccepted : manager.validate rawKey now = some record ↔
      record.revokedAt = none ∧ ¬ record.Expired now := by
    rw [hvalidate]
    cases hrevoked : record.revokedAt with
    | some revokedAt => simp
    | none => by_cases hexpired : record.Expired now <;> simp [hexpired]
  constructor
  · intro hagree hrevoked
    have hviews := hagree record
    rw [haccepted, mem_listActive_iff] at hviews
    constructor
    · exact fun hlive => (hviews.mp ⟨hrevoked, hlive⟩).1.2.2
    · exact fun hlater => (hviews.mpr ⟨⟨hmem, hrevoked, hlater⟩, hhash⟩).2
  · intro hexpiry found
    rw [mem_listActive_iff]
    constructor
    · intro hfound
      have heq : found = record := by
        rw [hvalidate] at hfound
        split at hfound
        · cases hfound
        · split at hfound
          · cases hfound
          · exact (Option.some.inj hfound).symm
      rw [heq] at hfound ⊢
      obtain ⟨hrevoked, hlive⟩ := haccepted.mp hfound
      exact ⟨⟨hmem, hrevoked, (hexpiry hrevoked).mp hlive⟩, hhash⟩
    · rintro ⟨⟨hfound, hrevoked, hlater⟩, hfoundHash⟩
      rw [honly found hfound hfoundHash] at hrevoked hlater ⊢
      exact haccepted.mpr ⟨hrevoked, (hexpiry hrevoked).mpr hlater⟩

theorem not_expired_iff_later (record : ApiKeyRecord D) (now : ℤ) :
    (¬ record.Expired now ↔ ∀ expiresAt ∈ record.expiresAt, now < expiresAt) ↔
      record.expiresAt ≠ some now := by
  rw [ApiKeyRecord.Expired]
  cases record.expiresAt with
  | none => simp
  | some expiresAt =>
      simp only [Option.mem_some_iff, exists_eq_left', forall_eq', ne_eq,
        Option.some.injEq]
      omega

theorem viewsAgree_iff_of_apart [DecidableEq D]
    (hapart : Apart manager raws) (rawKey : String) (now : ℤ) :
    ViewsAgree manager rawKey now ↔ NotExpiringNow manager rawKey now := by
  by_cases hrecord : ∃ keyId record, manager.keys.get keyId = some record ∧
      record.keyHash = manager.hash rawKey
  · obtain ⟨keyId, record, hget, hhash⟩ := hrecord
    have hunique : ∀ other found, manager.keys.get other = some found →
        found.keyHash = manager.hash rawKey → other = keyId := by
      intro other found hfound hfoundHash
      exact hapart.distinct other keyId found record hfound hget
        (hfoundHash.trans hhash.symm)
    have honly : ∀ found ∈ manager.keys.values,
        found.keyHash = manager.hash rawKey → found = record := by
      intro found hmem hfoundHash
      obtain ⟨other, hfound⟩ := InsertionMap.mem_values_iff.mp hmem
      rw [hunique other found hfound hfoundHash, hget] at hfound
      exact (Option.some.inj hfound).symm
    have hmem := InsertionMap.mem_values_iff.mpr ⟨keyId, hget⟩
    rw [viewsAgree_iff_of_get hmem hhash honly
      (ApiKeyManager.validate_eq_of_get hget hhash hunique),
      not_expired_iff_later]
    constructor
    · intro hnot found hfound hfoundHash
      rw [honly found hfound hfoundHash]
      exact hnot
    · exact fun hnot => hnot record hmem hhash
  · have hnone : ∀ record ∈ manager.keys.values,
        record.keyHash ≠ manager.hash rawKey := by
      intro record hmem hhash
      obtain ⟨keyId, hget⟩ := InsertionMap.mem_values_iff.mp hmem
      exact hrecord ⟨keyId, record, hget, hhash⟩
    have hfind : manager.keys.values.find? (fun record =>
        record.keyHash = manager.hash rawKey) = none := by
      rw [List.find?_eq_none]
      intro record hmem
      simpa using hnone record hmem
    refine iff_of_true (fun record => ?_) fun record hmem hhash =>
      absurd hhash (hnone record hmem)
    simp only [ApiKeyManager.validate, hfind, reduceCtorEq, false_iff]
    rintro ⟨hactive, hhash⟩
    exact hnone record (mem_listActive_iff.mp hactive).1 hhash

/-- After any run the two views agree on a raw key, at any instant, if and only
if that is not the instant at which its record expires. -/
theorem viewsAgree_iff [DecidableEq D] (config : ApiKeyConfig)
    (hash : String → D) (hinjective : Function.Injective hash)
    (labels : List Label) (state : State D)
    (hrun : exec step (State.initial config hash) labels = some state)
    (rawKey : String) (now : ℤ) :
    ViewsAgree state.manager rawKey now ↔
      NotExpiringNow state.manager rawKey now := by
  have hinv : Invariant hash state :=
    exec_invariant (fun _ _ _ hinv hstep => hinv.step hinjective hstep)
      (Invariant.initial config hash) hrun
  exact viewsAgree_iff_of_apart hinv.apart rawKey now

/-- A key that expires at 1000. -/
def shortLived : List Label :=
  [.generate ["read"] ⟨some 1000, none⟩ ⟨"00ff", "01"⟩ 0]

theorem viewsAgree_iff_samples :
    ∃ state : State String,
      exec step (State.initial ⟨none⟩ id) shortLived = some state ∧
      ViewsAgree state.manager "ak_00ff" 999 ∧
      ¬ ViewsAgree state.manager "ak_00ff" 1000 := by
  refine ⟨_, rfl, ?_, ?_⟩
  · rw [viewsAgree_iff ⟨none⟩ id Function.injective_id shortLived _ rfl]
    decide +kernel
  · rw [viewsAgree_iff ⟨none⟩ id Function.injective_id shortLived _ rfl]
    decide +kernel

/-- At the instant of its expiry the key is accepted but not listed. -/
theorem validate_accepts_unlisted :
    ∃ (state : State String) (record : ApiKeyRecord String),
      exec step (State.initial ⟨none⟩ id) shortLived = some state ∧
      state.manager.validate "ak_00ff" 1000 = some record ∧
      state.manager.listActive 1000 = [] ∧
      ¬ ViewsAgree state.manager "ak_00ff" 1000 := by
  refine ⟨_, _, rfl, rfl, by decide +kernel, fun hagree => ?_⟩
  have hlisted := ((hagree _).mp rfl).1
  rw [show ApiKeyManager.listActive _ 1000 = [] by decide +kernel] at hlisted
  cases hlisted

end TsCommons.Security.ApiKeyViews
