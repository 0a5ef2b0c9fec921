import TsCommons.Foundations.InsertionMap
import Mathlib.Algebra.Order.Ring.Rat

/-!
# The cached secrets adapter

A secret that was read or set is answered from the cache until its entry
expires.  Every method waits for the wrapped adapter once, and what it does
before that and afterwards are separate functions.
-/

namespace TsCommons.Secrets

open Foundations

structure CacheEntry where
  value : String
  expiresAt : ℚ
deriving DecidableEq

/-- A call that changes a secret. -/
inductive Write
  | set (value : String)
  | delete
  | rotate
deriving DecidableEq

/-- What the wrapped adapter holds afterwards.  The value after a rotation is
chosen by that adapter. -/
def Write.result (rotated : Option String) : Write → Option String
  | .set value => some value
  | .delete => none
  | .rotate => rotated

/-- The value that is put into the cache. -/
def Write.cached : Write → Option String
  | .set value => some value
  | .delete => none
  | .rotate => none

/-- `ttl` is in milliseconds. -/
structure CachedSecretsAdapter where
  cache : InsertionMap String CacheEntry
  ttl : ℚ
deriving DecidableEq

namespace CachedSecretsAdapter

def create (ttl : ℚ) : CachedSecretsAdapter := ⟨.empty, ttl⟩

/-- The value under the key, if there is one that has not expired. -/
def hit (adapter : CachedSecretsAdapter) (key : String) (now : ℚ) :
    Option String :=
  (adapter.cache.get key).bind fun entry =>
    if now < entry.expiresAt then some entry.value else none

def store (adapter : CachedSecretsAdapter) (key value : String) (now : ℚ) :
    CachedSecretsAdapter :=
  { adapter with cache := adapter.cache.set key ⟨value, now + adapter.ttl⟩ }

def evict (adapter : CachedSecretsAdapter) (key : String) :
    CachedSecretsAdapter :=
  { adapter with cache := adapter.cache.delete key }

/-- The adapter after `get` was called, and the value if it need not wait. -/
def startGet (adapter : CachedSecretsAdapter) (key : String) (now : ℚ) :
    CachedSecretsAdapter × Option String :=
  match adapter.hit key now with
  | some value => (adapter, some value)
  | none => (adapter.evict key, none)

/-- The wrapped adapter has answered a `get`. -/
def finishGet (adapter : CachedSecretsAdapter) (key : String)
    (result : Option String) (now : ℚ) : CachedSecretsAdapter :=
  match result with
  | some value => adapter.store key value now
  | none => adapter

/-- The wrapped adapter has made the change. -/
def finishWrite (adapter : CachedSecretsAdapter) (key : String)
    (write : Write) (now : ℚ) : CachedSecretsAdapter :=
  match write with
  | .set value => adapter.store key value now
  | .delete => adapter.evict key
  | .rotate => adapter.evict key

variable {adapter : CachedSecretsAdapter} {key value : String}
  {now later : ℚ}

theorem hit_eq_some_iff :
    adapter.hit key now = some value ↔
      ∃ entry, adapter.cache.get key = some entry ∧ now < entry.expiresAt ∧
        entry.value = value := by
  simp [hit, Option.bind_eq_some_iff]

theorem hit_of_later (hlater : now ≤ later)
    (hhit : adapter.hit key later = some value) :
    adapter.hit key now = some value := by
  obtain ⟨entry, hget, hexpires, hvalue⟩ := hit_eq_some_iff.mp hhit
  exact hit_eq_some_iff.mpr
    ⟨entry, hget, lt_of_le_of_lt hlater hexpires, hvalue⟩

theorem hit_store (adapter : CachedSecretsAdapter) (key value : String)
    (now : ℚ) :
    (adapter.store key value now).hit key now =
      if 0 < adapter.ttl then some value else none := by
  simp [hit, store]

theorem hit_evict (adapter : CachedSecretsAdapter) (key : String) (now : ℚ) :
    (adapter.evict key).hit key now = none := by
  simp [hit, evict]

end CachedSecretsAdapter

end TsCommons.Secrets
