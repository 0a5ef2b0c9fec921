import TsCommons.Foundations.JsonRoundTrip
import TsCommons.Foundations.Utf8

/-!
# Field encryption

A text is written in UTF-8 and encrypted with AES-256-GCM, and the
initialisation vector, the tag and the ciphertext are written one after the
other in base64.  An object is encrypted as its JSON text.  In an envelope each
text has a key of its own, which is encrypted with the master key.
-/

namespace TsCommons.Security

open Foundations

/-- `createCipheriv` and `createDecipheriv` with `'aes-256-gcm'`.  `decipher`
gives no plaintext where the tag does not fit. -/
structure AesGcm where
  encipher : (key iv plaintext : Bytes) → Bytes × Bytes
  decipher : (key iv tag ciphertext : Bytes) → Option Bytes

def ivSize : ℕ := 12

def tagSize : ℕ := 16

def keySize : ℕ := 32

/-- What is encrypted with a key is decrypted with the same one, and tags have
sixteen bytes.  The pair of `encipher` is the ciphertext and the tag. -/
structure AesGcm.Correct (aes : AesGcm) : Prop where
  tag_length : ∀ key iv plaintext, key.length = keySize → iv.length = ivSize →
    (aes.encipher key iv plaintext).2.length = tagSize
  decipher_encipher : ∀ key iv plaintext, key.length = keySize →
    iv.length = ivSize →
    aes.decipher key iv (aes.encipher key iv plaintext).2
      (aes.encipher key iv plaintext).1 = some plaintext

/-- A text that is encrypted to a known ciphertext and tag. -/
structure TestVector where
  key : Bytes
  iv : Bytes
  plaintext : Bytes
  ciphertext : Bytes
  tag : Bytes

namespace AesGcm

/-- A cipher with the given vectors, and with no secrets apart from them. -/
def ofVectors (vectors : List TestVector) : AesGcm where
  encipher key iv plaintext :=
    match vectors.find? fun vector =>
        vector.key = key ∧ vector.iv = iv ∧ vector.plaintext = plaintext with
    | some vector => (vector.ciphertext, vector.tag)
    | none => (plaintext, List.replicate tagSize 0)
  decipher key iv tag ciphertext :=
    match vectors.find? fun vector => vector.key = key ∧ vector.iv = iv ∧
        vector.tag = tag ∧ vector.ciphertext = ciphertext with
    | some vector => some vector.plaintext
    | none => if tag = List.replicate tagSize 0 then some ciphertext else none

theorem correct_ofVectors {vectors : List TestVector}
    (htags : ∀ vector ∈ vectors,
      vector.tag.length = tagSize ∧ vector.tag ≠ List.replicate tagSize 0)
    (hdistinct : ∀ vector ∈ vectors, ∀ other ∈ vectors,
      vector.key = other.key ∧ vector.iv = other.iv ∧ vector.tag = other.tag ∧
        vector.ciphertext = other.ciphertext →
          vector.plaintext = other.plaintext) :
    (ofVectors vectors).Correct := by
  constructor
  · intro key iv plaintext _ _
    simp only [ofVectors]
    split
    · rename_i vector hfind
      exact (htags vector (List.mem_of_find?_eq_some hfind)).1
    · exact List.length_replicate
  · intro key iv plaintext _ _
    simp only [ofVectors]
    cases hfind : vectors.find? fun vector => vector.key = key ∧
        vector.iv = iv ∧ vector.plaintext = plaintext with
    | some vector =>
        have hmem := List.mem_of_find?_eq_some hfind
        have hvector := List.find?_some hfind
        obtain ⟨rfl, rfl, rfl⟩ := of_decide_eq_true hvector
        cases hother : vectors.find? fun other => other.key = vector.key ∧
            other.iv = vector.iv ∧ other.tag = vector.tag ∧
            other.ciphertext = vector.ciphertext with
        | none =>
            have hnot := List.find?_eq_none.mp hother vector hmem
            simp at hnot
        | some other =>
            have hsame := List.find?_some hother
            exact congrArg some (hdistinct other
              (List.mem_of_find?_eq_some hother) vector hmem
              (of_decide_eq_true hsame))
    | none =>
        cases hother : vectors.find? fun other => other.key = key ∧
            other.iv = iv ∧ other.tag = List.replicate tagSize 0 ∧
            other.ciphertext = plaintext with
        | none => exact if_pos rfl
        | some other =>
            have hsame := List.find?_some hother
            exact absurd (of_decide_eq_true hsame).2.2.1
              (htags other (List.mem_of_find?_eq_some hother)).2

end AesGcm

structure EncryptedValue where
  ciphertext : CodeUnits
  algorithm : String
deriving DecidableEq

structure FieldEncryption where
  keyBuffer : Bytes
  keyLength : keyBuffer.length = keySize
deriving DecidableEq

namespace FieldEncryption

/-- The constructor for a key that is a buffer. -/
def ofBuffer (key : Bytes) : Except String FieldEncryption :=
  if hlength : key.length ≠ keySize then .error "Key must be 32 bytes"
  else .ok ⟨key, not_not.mp hlength⟩

/-- `iv` are the random bytes. -/
def encrypt (encryption : FieldEncryption) (aes : AesGcm)
    (plaintext : CodeUnits) (iv : Bytes) : EncryptedValue :=
  let result := aes.encipher encryption.keyBuffer iv (Utf8.encode plaintext)
  let combined := iv ++ result.2 ++ result.1
  ⟨Base64.encode combined, "aes-256-gcm"⟩

/-- There is no value where the decipher throws. -/
def decrypt (encryption : FieldEncryption) (aes : AesGcm)
    (value : EncryptedValue) : Option CodeUnits :=
  let combined := Base64.decode value.ciphertext
  let iv := combined.take ivSize
  let tag := (combined.drop ivSize).take tagSize
  let ciphertext := combined.drop (ivSize + tagSize)
  (aes.decipher encryption.keyBuffer iv tag ciphertext).map Utf8.decode

theorem ofBuffer_keyBuffer (encryption : FieldEncryption) :
    ofBuffer encryption.keyBuffer = .ok encryption := by
  rw [ofBuffer, dif_neg (not_not_intro encryption.keyLength)]

theorem keyBuffer_of_ofBuffer {key : Bytes} {encryption : FieldEncryption}
    (hbuffer : ofBuffer key = .ok encryption) : key = encryption.keyBuffer := by
  unfold ofBuffer at hbuffer
  split at hbuffer
  · cases hbuffer
  · cases hbuffer
    rfl

variable {aes : AesGcm} {iv : Bytes}

/-- The text comes back with the replacement character in place of each lone
surrogate. -/
theorem decrypt_encrypt (haes : aes.Correct) (encryption : FieldEncryption)
    (hiv : iv.length = ivSize) (plaintext : CodeUnits) :
    encryption.decrypt aes (encryption.encrypt aes plaintext iv) =
      some (Utf16.toWellFormed plaintext) := by
  have htag := haes.tag_length encryption.keyBuffer iv
    (Utf8.encode plaintext) encryption.keyLength hiv
  have hdecipher := haes.decipher_encipher encryption.keyBuffer iv
    (Utf8.encode plaintext) encryption.keyLength hiv
  simp only [decrypt, encrypt, Base64.decode_encode, List.append_assoc]
  rw [List.take_left' hiv, List.drop_left' hiv, List.take_left' htag,
    ← List.drop_drop, List.drop_left' hiv, List.drop_left' htag, hdecipher,
    Option.map_some, Utf8.decode_encode]

/-! ## Objects -/

variable {N : Type} {format : Json.NumberFormat N} {object : Json N}

def encryptObject (encryption : FieldEncryption) (aes : AesGcm)
    (format : Json.NumberFormat N) (object : Json N) (iv : Bytes) :
    EncryptedValue :=
  encryption.encrypt aes ((object.stringify format).flatMap Utf16.units) iv

/-- There is no object where the decipher or `JSON.parse` throws. -/
def decryptObject (encryption : FieldEncryption) (aes : AesGcm)
    (format : Json.NumberFormat N) (value : EncryptedValue) :
    Option (Json N) := do
  let text ← encryption.decrypt aes value
  Json.parse format (Utf16.scalars text)

/-- An object of JSON data comes back as it was. -/
theorem decryptObject_encryptObject (haes : aes.Correct)
    (encryption : FieldEncryption) (hiv : iv.length = ivSize)
    (hobject : object.WellFormed format) :
    encryption.decryptObject aes format
      (encryption.encryptObject aes format object iv) = some object := by
  rw [decryptObject, encryptObject, decrypt_encrypt haes encryption hiv,
    Utf16.toWellFormed, Utf16.scalars_flatMap_units]
  change Json.parse format (Utf16.scalars (List.flatMap Utf16.units _)) = _
  rw [Utf16.scalars_flatMap_units, Json.parse_stringify hobject]

def sampleBytes (start count : ℕ) : Bytes :=
  (List.range' start count).map UInt8.ofNat

/-- What the cipher makes of an object, of a text and of its data key. -/
def sampleVectors : List TestVector :=
  [⟨sampleBytes 0 32, sampleBytes 80 12,
      [123, 34, 97, 34, 58, 91, 49, 44, 34, 195, 169, 34, 93, 125],
      [233, 5, 87, 86, 222, 11, 136, 202, 126, 117, 148, 71, 144, 156],
      [7, 215, 26, 238, 90, 18, 123, 83, 126, 119, 4, 252, 178, 200, 171, 190]⟩,
    ⟨sampleBytes 100 32, sampleBytes 0 12, [195, 169, 240, 159, 152, 128],
      [92, 2, 200, 211, 37, 205],
      [117, 208, 197, 14, 80, 24, 50, 220, 254, 106, 168, 173, 252, 139, 42,
       163]⟩,
    ⟨sampleBytes 0 32, sampleBytes 50 12, Utf8.encode
      (Hex.encode (sampleBytes 100 32)),
      [240, 111, 217, 245, 243, 10, 183, 212, 91, 63, 220, 191, 109, 140, 201,
       154, 80, 208, 45, 229, 191, 40, 145, 141, 230, 42, 60, 169, 128, 1,
       172, 65, 20, 52, 253, 126, 32, 213, 48, 153, 166, 52, 77, 230, 147, 7,
       212, 143, 200, 151, 208, 137, 229, 169, 103, 83, 162, 107, 137, 99,
       119, 22, 182, 18],
      [235, 29, 155, 54, 6, 19, 247, 193, 144, 231, 55, 228, 131, 207, 129,
       244]⟩]

theorem correct_sampleVectors : (AesGcm.ofVectors sampleVectors).Correct :=
  AesGcm.correct_ofVectors (by decide +kernel) (by decide +kernel)

def masterSample : FieldEncryption := ⟨sampleBytes 0 32, by decide⟩

def objectSample : Json ℕ :=
  .object [(['a'], .array [.number 1, .string ['é']])]

theorem decryptObject_encryptObject_sample :
    masterSample.decryptObject (AesGcm.ofVectors sampleVectors) Json.decimal
      (masterSample.encryptObject (AesGcm.ofVectors sampleVectors) Json.decimal
        objectSample (sampleBytes 80 12)) = some objectSample :=
  decryptObject_encryptObject correct_sampleVectors masterSample rfl
    ⟨by simp, ⟨rfl, trivial, trivial⟩, trivial⟩

end FieldEncryption

/-! ## Envelopes -/

structure EnvelopedData where
  encryptedDataKey : CodeUnits
  encryptedPayload : CodeUnits
  masterKeyId : Option String
deriving DecidableEq

structure EnvelopeEncryption where
  masterEncryption : FieldEncryption
  masterKeyId : Option String

namespace EnvelopeEncryption

/-- `dataKey`, `payloadIv` and `dataKeyIv` are the random bytes, and
`masterKeyId` is that of the options. -/
def encrypt (envelope : EnvelopeEncryption) (aes : AesGcm)
    (plaintext : CodeUnits) (masterKeyId : Option String)
    (dataKey payloadIv dataKeyIv : Bytes) : Except String EnvelopedData := do
  let dataEncryption ← FieldEncryption.ofBuffer dataKey
  let encryptedPayload := dataEncryption.encrypt aes plaintext payloadIv
  let encryptedDataKey :=
    envelope.masterEncryption.encrypt aes (Hex.encode dataKey) dataKeyIv
  return ⟨encryptedDataKey.ciphertext, encryptedPayload.ciphertext,
    masterKeyId.or envelope.masterKeyId⟩

/-- There is no text where a decipher throws, or the data key has not its
size. -/
def decrypt (envelope : EnvelopeEncryption) (aes : AesGcm)
    (enveloped : EnvelopedData) : Option CodeUnits := do
  let dataKeyHex ← envelope.masterEncryption.decrypt aes
    ⟨enveloped.encryptedDataKey, "aes-256-gcm"⟩
  let dataEncryption ←
    (FieldEncryption.ofBuffer (Hex.decode dataKeyHex)).toOption
  dataEncryption.decrypt aes ⟨enveloped.encryptedPayload, "aes-256-gcm"⟩

variable {aes : AesGcm} {dataKey payloadIv dataKeyIv : Bytes}

/-- Whoever has the master key gets the text back, whatever ids it goes by, and
the id that is put on the envelope is the one that was asked for. -/
theorem decrypt_of_encrypt (haes : aes.Correct)
    (envelope other : EnvelopeEncryption)
    (hmaster : other.masterEncryption = envelope.masterEncryption)
    (hdataKey : dataKey.length = keySize)
    (hpayloadIv : payloadIv.length = ivSize)
    (hdataKeyIv : dataKeyIv.length = ivSize) (plaintext : CodeUnits)
    (masterKeyId : Option String) :
    ∃ enveloped, envelope.encrypt aes plaintext masterKeyId dataKey payloadIv
        dataKeyIv = .ok enveloped ∧
      enveloped.masterKeyId = masterKeyId.or envelope.masterKeyId ∧
      other.decrypt aes enveloped = some (Utf16.toWellFormed plaintext) := by
  have hbuffer : FieldEncryption.ofBuffer dataKey = .ok ⟨dataKey, hdataKey⟩ :=
    FieldEncryption.ofBuffer_keyBuffer ⟨dataKey, hdataKey⟩
  have hdataKeyHex : Utf16.toWellFormed (Hex.encode dataKey) =
      Hex.encode dataKey :=
    Utf16.toWellFormed_of_lt fun unit hmem => Hex.lt_of_mem_encode hmem
  have hunwrap := FieldEncryption.decrypt_encrypt haes
    envelope.masterEncryption hdataKeyIv (Hex.encode dataKey)
  have hpayload := FieldEncryption.decrypt_encrypt haes ⟨dataKey, hdataKey⟩
    hpayloadIv plaintext
  rw [hdataKeyHex] at hunwrap
  refine ⟨_, by rw [encrypt, hbuffer]; rfl, rfl, ?_⟩
  rw [decrypt, hmaster]
  change (FieldEncryption.decrypt _ aes
    (FieldEncryption.encrypt _ aes (Hex.encode dataKey) dataKeyIv)).bind _ = _
  rw [hunwrap, Option.bind_some, Hex.decode_encode, hbuffer]
  exact hpayload

def masterSample : EnvelopeEncryption :=
  ⟨FieldEncryption.masterSample, some "first"⟩

theorem decrypt_of_encrypt_sample :
    ∃ enveloped, masterSample.encrypt
        (AesGcm.ofVectors FieldEncryption.sampleVectors) [233, 55357, 56832]
        none (FieldEncryption.sampleBytes 100 32)
        (FieldEncryption.sampleBytes 0 12)
        (FieldEncryption.sampleBytes 50 12) = .ok enveloped ∧
      enveloped.masterKeyId = some "first" ∧
      decrypt ⟨FieldEncryption.masterSample, some "second"⟩
        (AesGcm.ofVectors FieldEncryption.sampleVectors) enveloped =
          some [233, 55357, 56832] := by
  obtain ⟨enveloped, hencrypt, hid, hdecrypt⟩ := decrypt_of_encrypt
    FieldEncryption.correct_sampleVectors masterSample
    ⟨FieldEncryption.masterSample, some "second"⟩ rfl
    (by decide : (FieldEncryption.sampleBytes 100 32).length = keySize)
    (by decide : (FieldEncryption.sampleBytes 0 12).length = ivSize)
    (by decide : (FieldEncryption.sampleBytes 50 12).length = ivSize)
    [233, 55357, 56832] none
  exact ⟨enveloped, hencrypt, hid, hdecrypt.trans (by decide +kernel)⟩

end EnvelopeEncryption

end TsCommons.Security
