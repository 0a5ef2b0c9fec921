import TsCommons.Foundations.Execution
import TsCommons.Security.FieldEncryption
import Mathlib.Data.Int.Notation

/-!
# The key rotation manager

Keys are only added, and a key is looked up under its id from the first one
on.  An id that comes up again goes on standing for the key that had it first,
for encryption as for decryption, so that whatever was encrypted under an id
can be decrypted under it.
-/

namespace TsCommons.Security

open Foundations

structure KeyEntry where
  id : String
  key : Bytes
  createdAt : ℤ
deriving DecidableEq

structure RotationRecord where
  keyId : String
  rotatedAt : ℤ
  previousKeyId : Option String
deriving DecidableEq

structure KeyRotationManager where
  keys : List KeyEntry
  activeKeyId : String
  history : List RotationRecord
deriving DecidableEq

namespace KeyRotationManager

/-- `random` is the hexadecimal text of the random bytes. -/
def newKeyId (random : String) : String := "key_" ++ random

/-- The constructor, with the key that was given or the random bytes. -/
def create (key : Bytes) (random : String) (createdAt : ℤ) :
    KeyRotationManager :=
  ⟨[⟨newKeyId random, key, createdAt⟩], newKeyId random, []⟩

def find (manager : KeyRotationManager) (keyId : String) : Option KeyEntry :=
  manager.keys.find? fun entry => entry.id = keyId

def getActiveEncryption (manager : KeyRotationManager) :
    Except String FieldEncryption :=
  match manager.find manager.activeKeyId with
  | none => .error "No active key"
  | some entry => FieldEncryption.ofBuffer entry.key

/-- There is no encryption for an unknown id. -/
def getEncryptionForKey (manager : KeyRotationManager) (keyId : String) :
    Except String (Option FieldEncryption) :=
  match manager.find keyId with
  | none => .ok none
  | some entry => (FieldEncryption.ofBuffer entry.key).map some

def rotate (manager : KeyRotationManager) (newKey : Bytes) (random : String)
    (createdAt rotatedAt : ℤ) : KeyRotationManager × RotationRecord :=
  let newId := newKeyId random
  let record : RotationRecord := ⟨newId, rotatedAt, some manager.activeKeyId⟩
  ({ keys := manager.keys ++ [⟨newId, newKey, createdAt⟩]
     activeKeyId := newId
     history := manager.history ++ [record] }, record)

def keyCount (manager : KeyRotationManager) : ℕ := manager.keys.length

/-- A value that was encrypted while the key id was active. -/
structure Encrypted where
  keyId : String
  plaintext : CodeUnits
  value : EncryptedValue
deriving DecidableEq

structure State where
  manager : KeyRotationManager
  encrypted : List Encrypted
deriving DecidableEq

def State.initial (key : Bytes) (random : String) (createdAt : ℤ) : State :=
  ⟨create key random createdAt, []⟩

inductive Label
  | rotate (newKey : Bytes) (random : String) (createdAt rotatedAt : ℤ)
  | encrypt (plaintext : CodeUnits) (iv : Bytes)

/-- Nothing is encrypted where the active key has not the right length. -/
def step (aes : AesGcm) (state : State) : Label → Option State
  | .rotate newKey random createdAt rotatedAt =>
      some { state with
        manager :=
          (state.manager.rotate newKey random createdAt rotatedAt).1 }
  | .encrypt plaintext iv =>
      if iv.length = ivSize then
        match state.manager.getActiveEncryption with
        | .error _ => some state
        | .ok encryption =>
            some { state with
              encrypted := state.encrypted ++
                [⟨state.manager.activeKeyId, plaintext,
                  encryption.encrypt aes plaintext iv⟩] }
      else none

/-- Every value that was encrypted is decrypted under the key id that was
active then, with the replacement character in place of each lone surrogate,
so that it comes back as it was if and only if it is well-formed. -/
def RecoveryLaw (aes : AesGcm) (state : State) : Prop :=
  ∀ encrypted ∈ state.encrypted, ∃ encryption,
    state.manager.getEncryptionForKey encrypted.keyId =
        .ok (some encryption) ∧
      encryption.decrypt aes encrypted.value =
        some (Utf16.toWellFormed encrypted.plaintext) ∧
      (encryption.decrypt aes encrypted.value = some encrypted.plaintext ↔
        Utf16.IsWellFormed encrypted.plaintext)

variable {aes : AesGcm} {manager : KeyRotationManager} {state next : State}
  {label : Label} {labels : List Label} {key newKey : Bytes}
  {keyId random : String} {createdAt rotatedAt : ℤ} {entry : KeyEntry}

/-- A rotation takes no key from its id. -/
theorem find_rotate (hfind : manager.find keyId = some entry)
    (newKey : Bytes) (random : String) (createdAt rotatedAt : ℤ) :
    (manager.rotate newKey random createdAt rotatedAt).1.find keyId =
      some entry := by
  simp only [find, rotate, List.find?_append]
  rw [find] at hfind
  rw [hfind]
  rfl

theorem find_of_getActiveEncryption {encryption : FieldEncryption}
    (hactive : manager.getActiveEncryption = .ok encryption) :
    ∃ entry, manager.find manager.activeKeyId = some entry ∧
      entry.key = encryption.keyBuffer := by
  unfold getActiveEncryption at hactive
  split at hactive
  · cases hactive
  · rename_i entry hfind
    exact ⟨entry, hfind, FieldEncryption.keyBuffer_of_ofBuffer hactive⟩

theorem getEncryptionForKey_of_find {encryption : FieldEncryption}
    (hfind : manager.find keyId = some entry)
    (hkey : entry.key = encryption.keyBuffer) :
    manager.getEncryptionForKey keyId = .ok (some encryption) := by
  simp only [getEncryptionForKey, hfind, hkey,
    FieldEncryption.ofBuffer_keyBuffer]
  rfl

/-- The key of an encrypted value is still the one of its id. -/
def Invariant (aes : AesGcm) (state : State) : Prop :=
  ∀ encrypted ∈ state.encrypted, ∃ entry iv, ∃ encryption : FieldEncryption,
    state.manager.find encrypted.keyId = some entry ∧
      entry.key = encryption.keyBuffer ∧ iv.length = ivSize ∧
      encrypted.value = encryption.encrypt aes encrypted.plaintext iv

theorem invariant_initial (key : Bytes) (random : String) (createdAt : ℤ) :
    Invariant aes (State.initial key random createdAt) := by
  intro encrypted hmem
  cases hmem

theorem Invariant.step (hinv : Invariant aes state)
    (hstep : step aes state label = some next) : Invariant aes next := by
  cases label with
  | rotate newKey random createdAt rotatedAt =>
      cases hstep
      intro encrypted hmem
      obtain ⟨entry, iv, encryption, hfind, hrest⟩ := hinv encrypted hmem
      exact ⟨entry, iv, encryption,
        find_rotate hfind newKey random createdAt rotatedAt, hrest⟩
  | encrypt plaintext iv =>
      obtain ⟨hiv, hnext⟩ := Option.ite_none_right_eq_some.mp hstep
      cases hactive : state.manager.getActiveEncryption with
      | error message =>
          rw [hactive, Option.some.injEq] at hnext
          exact hnext ▸ hinv
      | ok encryption =>
          rw [hactive, Option.some.injEq] at hnext
          rw [← hnext]
          intro encrypted hmem
          rcases List.mem_append.mp hmem with hold | hnew
          · exact hinv encrypted hold
          · obtain ⟨entry, hfind, hkey⟩ := find_of_getActiveEncryption hactive
            rw [List.mem_singleton.mp hnew]
            exact ⟨entry, iv, encryption, hfind, hkey, hiv, rfl⟩

theorem Invariant.law (hinv : Invariant aes state) (haes : aes.Correct) :
    RecoveryLaw aes state := by
  intro encrypted hmem
  obtain ⟨entry, iv, encryption, hfind, hkey, hiv, hvalue⟩ :=
    hinv encrypted hmem
  have hdecrypt := FieldEncryption.decrypt_encrypt haes encryption hiv
    encrypted.plaintext
  rw [← hvalue] at hdecrypt
  refine ⟨encryption, getEncryptionForKey_of_find hfind hkey, hdecrypt, ?_⟩
  rw [hdecrypt, Option.some.injEq, Utf16.toWellFormed_eq_iff]

/-- Whatever is encrypted under the key id that is active can be decrypted
under it after every sequence of rotations. -/
theorem recoveryLaw_of_exec (haes : aes.Correct)
    (hrun : exec (step aes) (State.initial key random createdAt) labels =
      some state) : RecoveryLaw aes state :=
  (exec_invariant (fun _ _ _ hinv hstep => hinv.step hstep)
    (invariant_initial key random createdAt) hrun).law haes

def firstKey : Bytes := (List.range 32).map UInt8.ofNat

def secondKey : Bytes := (List.range' 100 32).map UInt8.ofNat

def nonce (start : ℕ) : Bytes := (List.range' start 12).map UInt8.ofNat

/-- What the cipher makes of the texts of the two samples. -/
def vectors : List TestVector :=
  [⟨firstKey, nonce 0, [195, 169, 240, 159, 152, 128],
      [132, 171, 38, 132, 93, 101],
      [220, 106, 205, 97, 242, 109, 210, 253, 136, 141, 60, 80, 144, 3, 123,
        164]⟩,
    ⟨firstKey, nonce 50, [110, 101, 119], [168, 62, 152],
      [247, 152, 82, 66, 22, 94, 218, 182, 211, 248, 99, 150, 200, 224, 173,
        71]⟩,
    ⟨secondKey, nonce 80, [239, 191, 189], [28, 197, 4],
      [13, 189, 25, 246, 83, 158, 1, 233, 27, 51, 252, 216, 153, 35, 182,
        144]⟩]

theorem correct_vectors : (AesGcm.ofVectors vectors).Correct :=
  AesGcm.correct_ofVectors (by decide +kernel) (by decide +kernel)

/-- A rotation brings the id of the first key up again, and the next one
another id. -/
def rotations : List Label :=
  [.encrypt [233, 55357, 56832] (nonce 0), .rotate secondKey "00000001" 1 1,
    .encrypt [110, 101, 119] (nonce 50), .rotate secondKey "00000002" 2 2,
    .encrypt [0xD800] (nonce 80), .rotate firstKey "00000003" 3 3]

def rotated : Option State :=
  exec (step (AesGcm.ofVectors vectors)) (State.initial firstKey "00000001" 0)
    rotations

theorem recoveryLaw_of_exec_rotations :
    ∃ state, rotated = some state ∧
      state.encrypted.map Encrypted.keyId =
        ["key_00000001", "key_00000001", "key_00000002"] ∧
      RecoveryLaw (AesGcm.ofVectors vectors) state := by
  have hsome : rotated.any (fun state =>
      state.encrypted.map Encrypted.keyId =
        ["key_00000001", "key_00000001", "key_00000002"]) := by
    decide +kernel
  obtain ⟨state, hrun, hkeys⟩ := (Option.any_eq_true _ _).mp hsome
  exact ⟨state, hrun, of_decide_eq_true hkeys,
    recoveryLaw_of_exec correct_vectors hrun⟩

/-- A lone surrogate comes back as the replacement character. -/
theorem not_original_loneSurrogate :
    ∃ state encrypted encryption,
      (AesGcm.ofVectors vectors).Correct ∧ rotated = some state ∧
      encrypted ∈ state.encrypted ∧ encrypted.plaintext = [0xD800] ∧
      state.manager.getEncryptionForKey encrypted.keyId =
        .ok (some encryption) ∧
      encryption.decrypt (AesGcm.ofVectors vectors) encrypted.value =
        some [0xFFFD] := by
  have hsome : rotated.any (fun state =>
      [0xD800] ∈ state.encrypted.map Encrypted.plaintext) := by
    decide +kernel
  obtain ⟨state, hrun, hplain⟩ := (Option.any_eq_true _ _).mp hsome
  obtain ⟨encrypted, hmem, hplaintext⟩ :=
    List.mem_map.mp (of_decide_eq_true hplain)
  have hinv : Invariant (AesGcm.ofVectors vectors) state :=
    exec_invariant (fun _ _ _ hinv hstep => hinv.step hstep)
      (invariant_initial firstKey "00000001" 0) hrun
  obtain ⟨encryption, hfind, hdecrypt, -⟩ :=
    hinv.law correct_vectors encrypted hmem
  rw [hplaintext] at hdecrypt
  exact ⟨state, encrypted, encryption, correct_vectors, hrun, hmem,
    hplaintext, hfind, hdecrypt⟩

end KeyRotationManager

end TsCommons.Security
