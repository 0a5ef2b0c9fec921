import TsCommons.Foundations.Execution
import TsCommons.Foundations.InsertionMap
import Mathlib.Data.Int.Notation
import Mathlib.Order.Basic

/-!
# The JWKS client

The keys of the last document are cached under their ids.  A call may fetch a
document; what comes of it and when it is there are inputs.
-/

namespace TsCommons.Security

open Foundations

structure JwksKey where
  kty : String
  kid : Option String
  use : Option String
  alg : Option String
  n : Option String
  e : Option String
  x : Option String
  y : Option String
  crv : Option String
deriving DecidableEq

/-- What a fetch ends with.  A document is there at a time. -/
inductive FetchOutcome
  | document (keys : List JwksKey) (fetchedAt : ℤ)
  | refused (status : ℕ) (statusText : String)
  | threw (message : String)

structure JwksClient where
  cache : InsertionMap String JwksKey
  lastFetch : ℤ
  cacheTtlMs : ℕ
deriving DecidableEq

namespace JwksClient

/-- `cacheTtlMs` is an hour where it is not given. -/
def create (cacheTtlMs : Option ℕ) : JwksClient :=
  ⟨.empty, 0, cacheTtlMs.getD 3600000⟩

def keyId (key : JwksKey) : String := key.kid.getD key.kty

def IsCacheStale (client : JwksClient) (now : ℤ) : Prop :=
  client.cacheTtlMs < now - client.lastFetch

instance IsCacheStale.decidable (client : JwksClient) (now : ℤ) :
    Decidable (client.IsCacheStale now) :=
  inferInstanceAs (Decidable ((client.cacheTtlMs : ℤ) < now - client.lastFetch))

/-- What is in the cache is replaced by the keys of a document. -/
def fill (client : JwksClient) (keys : List JwksKey) (fetchedAt : ℤ) :
    JwksClient :=
  { client with
    cache := .indexBy keyId keys
    lastFetch := fetchedAt }

def refresh (client : JwksClient) :
    FetchOutcome → Except String JwksClient
  | .document keys fetchedAt => .ok (client.fill keys fetchedAt)
  | .refused status statusText =>
      .error ("JWKS fetch failed: " ++ toString status ++ " " ++ statusText)
  | .threw message => .error message

/-- The outcome counts if the call fetches. -/
def getKeys (client : JwksClient) (forceRefresh : Bool) (now : ℤ)
    (outcome : FetchOutcome) : Except String (JwksClient × List JwksKey) :=
  if forceRefresh ∨ client.IsCacheStale now then
    (client.refresh outcome).map fun client => (client, client.cache.values)
  else .ok (client, client.cache.values)

def getKey (client : JwksClient) (kid : String) (outcome : FetchOutcome) :
    Except String (JwksClient × Option JwksKey) :=
  match client.cache.get kid with
  | some key => .ok (client, some key)
  | none =>
      (client.refresh outcome).map fun client => (client, client.cache.get kid)

def getKeysByUse (client : JwksClient) (use : String) (now : ℤ)
    (outcome : FetchOutcome) : Except String (JwksClient × List JwksKey) :=
  (client.getKeys false now outcome).map fun result =>
    (result.1, result.2.filter fun key => key.use = some use)

def clearCache (client : JwksClient) : JwksClient :=
  { client with
    cache := .empty
    lastFetch := 0 }

def cacheSize (client : JwksClient) : ℕ := client.cache.size

end JwksClient

end TsCommons.Security
