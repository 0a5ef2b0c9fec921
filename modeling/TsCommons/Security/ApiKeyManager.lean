import TsCommons.Foundations.InsertionMap
import Mathlib.Order.Basic
import Mathlib.Data.Int.Notation

/-!
# The API key manager

A record is kept for every key, under the id of the key, with the hash of the
raw key.  A key that is revoked or rotated keeps its record.  The random texts
and the readings of the clock are inputs.
-/

namespace TsCommons.Security

open Foundations

variable {D : Type}

abbrev KeyId := String

structure ApiKeyConfig where
  keyPrefix : Option String

structure ApiKeyRecord (D : Type) where
  keyId : KeyId
  keyHash : D
  keyPrefix : String
  scopes : List String
  createdAt : ℤ
  expiresAt : Option ℤ
  metadata : Option (List (String × String))
  revokedAt : Option ℤ
deriving DecidableEq

structure GenerateOptions where
  expiresAt : Option ℤ
  metadata : Option (List (String × String))

/-- The hexadecimal texts of the random bytes. -/
structure Randomness where
  key : String
  id : String
deriving DecidableEq

/-- `hash` is the SHA-256 digest of a raw key. -/
structure ApiKeyManager (D : Type) where
  config : ApiKeyConfig
  hash : String → D
  keys : InsertionMap KeyId (ApiKeyRecord D)

def ApiKeyRecord.Expired (record : ApiKeyRecord D) (now : ℤ) : Prop :=
  ∃ expiresAt ∈ record.expiresAt, expiresAt < now

instance ApiKeyRecord.Expired.decidable (record : ApiKeyRecord D) (now : ℤ) :
    Decidable (record.Expired now) :=
  inferInstanceAs (Decidable (∃ expiresAt ∈ record.expiresAt, expiresAt < now))

theorem ApiKeyRecord.expired_congr {record found : ApiKeyRecord D}
    (hexpiry : record.expiresAt = found.expiresAt) (now : ℤ) :
    record.Expired now ↔ found.Expired now := by
  unfold Expired
  rw [hexpiry]

namespace ApiKeyManager

def rawKey (manager : ApiKeyManager D) (random : Randomness) : String :=
  manager.config.keyPrefix.getD "ak" ++ "_" ++ random.key

def newKeyId (random : Randomness) : KeyId := "kid_" ++ random.id

/-- The manager afterwards, the raw key and the record. -/
def generate (manager : ApiKeyManager D) (scopes : List String)
    (options : GenerateOptions) (random : Randomness) (now : ℤ) :
    ApiKeyManager D × String × ApiKeyRecord D :=
  let length := (manager.config.keyPrefix.getD "ak").length
  let raw := manager.rawKey random
  let record : ApiKeyRecord D :=
    { keyId := newKeyId random
      keyHash := manager.hash raw
      keyPrefix := String.ofList (raw.toList.take (length + 4))
      scopes := scopes
      createdAt := now
      expiresAt := options.expiresAt
      metadata := options.metadata
      revokedAt := none }
  ({ manager with keys := manager.keys.set record.keyId record }, raw, record)

def validate [DecidableEq D] (manager : ApiKeyManager D) (rawKey : String)
    (now : ℤ) : Option (ApiKeyRecord D) :=
  let hash := manager.hash rawKey
  match manager.keys.values.find? fun record => record.keyHash = hash with
  | none => none
  | some record =>
      if record.revokedAt.isSome then none
      else if record.Expired now then none
      else some record

def revoke (manager : ApiKeyManager D) (keyId : KeyId) (now : ℤ) :
    ApiKeyManager D × Bool :=
  match manager.keys.get keyId with
  | none => (manager, false)
  | some record =>
      ({ manager with
        keys := manager.keys.set keyId { record with revokedAt := some now } },
        true)

def rotate (manager : ApiKeyManager D) (keyId : KeyId) (random : Randomness)
    (now : ℤ) : ApiKeyManager D × Option (String × ApiKeyRecord D) :=
  match manager.keys.get keyId with
  | none => (manager, none)
  | some existing =>
      let revoked := (manager.revoke keyId now).1
      let result := revoked.generate existing.scopes
        ⟨existing.expiresAt, existing.metadata⟩ random now
      (result.1, some result.2)

def getRecord (manager : ApiKeyManager D) (keyId : KeyId) :
    Option (ApiKeyRecord D) :=
  manager.keys.get keyId

def listActive (manager : ApiKeyManager D) (now : ℤ) :
    List (ApiKeyRecord D) :=
  manager.keys.values.filter fun record =>
    record.revokedAt.isNone ∧ ∀ expiresAt ∈ record.expiresAt, now < expiresAt

/-! ## What the operations leave in the records -/

variable {manager : ApiKeyManager D} {keyId other : KeyId}
  {random : Randomness} {now : ℤ}

@[simp] theorem hash_generate (manager : ApiKeyManager D)
    (scopes : List String) (options : GenerateOptions) (random : Randomness)
    (now : ℤ) :
    (manager.generate scopes options random now).1.hash = manager.hash := rfl

theorem get_generate (manager : ApiKeyManager D) (scopes : List String)
    (options : GenerateOptions) (random : Randomness) (now : ℤ)
    (other : KeyId) :
    (manager.generate scopes options random now).1.keys.get other =
      if other = newKeyId random then
        some (manager.generate scopes options random now).2.2
      else manager.keys.get other :=
  InsertionMap.get_set _ _ _ _

@[simp] theorem hash_revoke (manager : ApiKeyManager D) (keyId : KeyId)
    (now : ℤ) : (manager.revoke keyId now).1.hash = manager.hash := by
  unfold revoke
  split
  · rfl
  · rfl

@[simp] theorem rawKey_revoke (manager : ApiKeyManager D) (keyId : KeyId)
    (now : ℤ) (random : Randomness) :
    (manager.revoke keyId now).1.rawKey random = manager.rawKey random := by
  unfold revoke
  split
  · rfl
  · rfl

theorem get_revoke (manager : ApiKeyManager D) (keyId other : KeyId)
    (now : ℤ) :
    (manager.revoke keyId now).1.keys.get other =
      if other = keyId then (manager.keys.get keyId).map fun record =>
        { record with revokedAt := some now }
      else manager.keys.get other := by
  unfold revoke
  cases hget : manager.keys.get keyId with
  | none =>
      by_cases heq : other = keyId
      · simp [heq, hget]
      · simp [heq]
  | some record => exact InsertionMap.get_set _ _ _ _

/-- Revoking changes nothing of when a key expires. -/
theorem exists_get_of_revoke {record : ApiKeyRecord D}
    (hget : (manager.revoke keyId now).1.keys.get other = some record) :
    ∃ old, manager.keys.get other = some old ∧
      old.expiresAt = record.expiresAt := by
  rw [get_revoke] at hget
  split at hget
  · rename_i heq
    obtain ⟨old, hold, rfl⟩ := Option.map_eq_some_iff.mp hget
    exact ⟨old, heq ▸ hold, rfl⟩
  · exact ⟨record, hget, rfl⟩

/-- A key is accepted through its own record: no other one has its hash. -/
theorem validate_eq_of_get [DecidableEq D] {rawKey : String}
    {record : ApiKeyRecord D}
    (hget : manager.keys.get keyId = some record)
    (hhash : record.keyHash = manager.hash rawKey)
    (hunique : ∀ other found, manager.keys.get other = some found →
      found.keyHash = manager.hash rawKey → other = keyId) :
    manager.validate rawKey now =
      if record.revokedAt.isSome then none
      else if record.Expired now then none
      else some record := by
  have hfind : (manager.keys.values.find? fun found =>
      found.keyHash = manager.hash rawKey) = some record := by
    cases hfound : manager.keys.values.find? fun found =>
        found.keyHash = manager.hash rawKey with
    | none =>
        have hmem := InsertionMap.mem_values_iff.mpr ⟨keyId, hget⟩
        have hnot := List.find?_eq_none.mp hfound record hmem
        simp [hhash] at hnot
    | some found =>
        have hmatch := List.find?_some hfound
        obtain ⟨other, hother⟩ := InsertionMap.mem_values_iff.mp
          (List.mem_of_find?_eq_some hfound)
        have heq := hunique other found hother (of_decide_eq_true hmatch)
        rw [heq, hget] at hother
        exact hother.symm
  simp only [validate, hfind]

end ApiKeyManager

end TsCommons.Security
