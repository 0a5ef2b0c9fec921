import TsCommons.Foundations.InsertionMap
import TsCommons.Foundations.Window
import Mathlib.Algebra.Order.Ring.Rat

/-!
# The outbox store

`InMemoryOutboxStore` keeps its messages in the order in which their ids were
first saved, and marking a message keeps its place.  `getUnpublished` returns
the unpublished messages from the front, at most as many as its limit says.
-/

namespace TsCommons.Outbox

open Foundations

structure OutboxMessage (Ev : Type) where
  id : String
  eventEnvelope : Ev
  createdAt : ℚ
  publishedAt : Option ℚ
  attempts : ℕ
  lastAttemptAt : Option ℚ
  error : Option String
deriving DecidableEq

/-- Every message is stored under its own id. -/
structure InMemoryOutboxStore (Ev : Type) where
  messages : InsertionMap String (OutboxMessage Ev)
  keyed : ∀ id message, messages.get id = some message → message.id = id

variable {Ev : Type}

namespace OutboxMessage

def published (message : OutboxMessage Ev) (now : ℚ) : OutboxMessage Ev :=
  { message with
    publishedAt := some now
    attempts := message.attempts + 1
    lastAttemptAt := some now
    error := none }

def failed (message : OutboxMessage Ev) (error : String) (now : ℚ) :
    OutboxMessage Ev :=
  { message with
    attempts := message.attempts + 1
    lastAttemptAt := some now
    error := some error }

end OutboxMessage

namespace InMemoryOutboxStore

def empty : InMemoryOutboxStore Ev where
  messages := .empty
  keyed := by simp

/-- Set the message under its own id. -/
def save (store : InMemoryOutboxStore Ev) (message : OutboxMessage Ev) :
    InMemoryOutboxStore Ev where
  messages := store.messages.set message.id message
  keyed := by
    intro id found hfound
    rw [InsertionMap.get_set] at hfound
    split_ifs at hfound with heq
    · rw [Option.some.injEq] at hfound
      rw [← hfound, heq]
    · exact store.keyed id found hfound

/-- The loop of `getUnpublished`, which looks at the limit only after it has
pushed a message. -/
def collectUnpublished (limit : ℕ) :
    List (OutboxMessage Ev) → List (OutboxMessage Ev) → List (OutboxMessage Ev)
  | result, [] => result
  | result, message :: rest =>
      if message.publishedAt = none then
        if limit ≤ (result ++ [message]).length then result ++ [message]
        else collectUnpublished limit (result ++ [message]) rest
      else collectUnpublished limit result rest

def getUnpublished (store : InMemoryOutboxStore Ev) (limit : ℕ) :
    List (OutboxMessage Ev) :=
  collectUnpublished limit [] store.messages.values

def markAsPublished (store : InMemoryOutboxStore Ev) (id : String) (now : ℚ) :
    InMemoryOutboxStore Ev :=
  match store.messages.get id with
  | none => store
  | some message => store.save (message.published now)

def markAsFailed (store : InMemoryOutboxStore Ev) (id error : String)
    (now : ℚ) : InMemoryOutboxStore Ev :=
  match store.messages.get id with
  | none => store
  | some message => store.save (message.failed error now)

def getAll (store : InMemoryOutboxStore Ev) : List (OutboxMessage Ev) :=
  store.messages.values

def size (store : InMemoryOutboxStore Ev) : ℕ := store.messages.size

/-! ## Reads and writes -/

/-- The stored message of an id. -/
def find (store : InMemoryOutboxStore Ev) (id : String) :
    Option (OutboxMessage Ev) :=
  store.messages.get id

variable {store : InMemoryOutboxStore Ev} {message : OutboxMessage Ev}
  {id other : String}

theorem id_of_find (hfind : store.find id = some message) :
    message.id = id :=
  store.keyed id message hfind

theorem find_save (store : InMemoryOutboxStore Ev)
    (message : OutboxMessage Ev) (other : String) :
    (store.save message).find other =
      if other = message.id then some message else store.find other :=
  InsertionMap.get_set ..

theorem find_markAsPublished (store : InMemoryOutboxStore Ev)
    (id other : String) (now : ℚ) :
    (store.markAsPublished id now).find other =
      if other = id then (store.find id).map fun message =>
        message.published now
      else store.find other := by
  unfold markAsPublished
  cases hfind : store.messages.get id with
  | none =>
      by_cases heq : other = id
      · subst other
        simp [find, hfind]
      · simp [heq]
  | some message =>
      have hid : (message.published now).id = id := store.keyed id message hfind
      have hsave := find_save store (message.published now) other
      rw [hid] at hsave
      simpa [find, hfind] using hsave

theorem find_markAsFailed (store : InMemoryOutboxStore Ev)
    (id error other : String) (now : ℚ) :
    (store.markAsFailed id error now).find other =
      if other = id then (store.find id).map fun message =>
        message.failed error now
      else store.find other := by
  unfold markAsFailed
  cases hfind : store.messages.get id with
  | none =>
      by_cases heq : other = id
      · subst other
        simp [find, hfind]
      · simp [heq]
  | some message =>
      have hid : (message.failed error now).id = id :=
        store.keyed id message hfind
      have hsave := find_save store (message.failed error now) other
      rw [hid] at hsave
      simpa [find, hfind] using hsave

theorem collectUnpublished_eq (limit : ℕ)
    (result messages : List (OutboxMessage Ev))
    (hroom : result.length < max limit 1) :
    collectUnpublished limit result messages =
      result ++ (messages.filter fun message =>
        message.publishedAt = none).take (max limit 1 - result.length) := by
  induction messages generalizing result with
  | nil => simp [collectUnpublished]
  | cons message rest ih =>
      rw [collectUnpublished]
      by_cases hunpublished : message.publishedAt = none
      · rw [if_pos hunpublished, List.filter_cons_of_pos (by simpa)]
        have hlength : (result ++ [message]).length = result.length + 1 := by
          simp
        by_cases hfull : limit ≤ (result ++ [message]).length
        · rw [if_pos hfull]
          have hone : max limit 1 - result.length = 1 := by omega
          simp [hone]
        · rw [if_neg hfull, ih _ (by omega)]
          have hsub : max limit 1 - result.length =
              (max limit 1 - (result ++ [message]).length) + 1 := by
            omega
          rw [hsub, List.take_succ_cons, List.append_assoc]
          rfl
      · rw [if_neg hunpublished, List.filter_cons_of_neg (by simpa), ih _ hroom]

/-- The unpublished messages in insertion order, cut off at the limit; a limit
of 0 works as 1. -/
theorem getUnpublished_eq (store : InMemoryOutboxStore Ev) (limit : ℕ) :
    store.getUnpublished limit =
      (store.messages.values.filter fun message =>
        message.publishedAt = none).take (max limit 1) :=
  collectUnpublished_eq limit [] _ (by simp)

theorem find_of_mem_getUnpublished {limit : ℕ}
    (hmem : message ∈ store.getUnpublished limit) :
    store.find message.id = some message ∧ message.publishedAt = none := by
  rw [getUnpublished_eq] at hmem
  have hfilter := List.mem_of_mem_take hmem
  rw [List.mem_filter, decide_eq_true_eq] at hfilter
  obtain ⟨id, hget⟩ := InsertionMap.mem_values_iff.mp hfilter.1
  have hid := store.keyed id message hget
  subst id
  exact ⟨hget, hfilter.2⟩

theorem map_id_values (store : InMemoryOutboxStore Ev) :
    store.messages.values.map OutboxMessage.id = store.messages.keys := by
  rw [InsertionMap.values, InsertionMap.keys, List.map_map]
  apply List.map_congr_left
  intro entry hentry
  exact store.keyed entry.1 entry.2 (InsertionMap.get_eq_some_iff.mpr hentry)

theorem nodup_getUnpublished (store : InMemoryOutboxStore Ev) (limit : ℕ) :
    ((store.getUnpublished limit).map OutboxMessage.id).Nodup := by
  rw [getUnpublished_eq]
  have hsublist := (List.take_sublist (max limit 1) _).trans
    (List.filter_sublist (l := store.messages.values)
      (p := fun message => decide (message.publishedAt = none)))
  apply List.Sublist.nodup (hsublist.map OutboxMessage.id)
  rw [map_id_values]
  exact store.messages.nodup

/-! ## The order of the ids -/

def ids (store : InMemoryOutboxStore Ev) : List String :=
  store.messages.keys

def isUnpublished (store : InMemoryOutboxStore Ev) (id : String) : Bool :=
  (store.find id).any fun message => message.publishedAt = none

theorem mem_ids_of_find (hfind : store.find id = some message) :
    id ∈ store.ids :=
  InsertionMap.mem_keys_iff.mpr (by rw [← find, hfind]; rfl)

theorem length_ids (store : InMemoryOutboxStore Ev) :
    store.ids.length = store.size :=
  List.length_map ..

theorem ids_markAsPublished (store : InMemoryOutboxStore Ev) (id : String)
    (now : ℚ) : (store.markAsPublished id now).ids = store.ids := by
  unfold markAsPublished
  cases hget : store.messages.get id with
  | none => rfl
  | some message =>
      have hid : (message.published now).id = id := store.keyed id message hget
      refine InsertionMap.keys_set_of_get _ (?_ : _ = some message)
      rw [hid]
      exact hget

theorem ids_markAsFailed (store : InMemoryOutboxStore Ev) (id error : String)
    (now : ℚ) : (store.markAsFailed id error now).ids = store.ids := by
  unfold markAsFailed
  cases hget : store.messages.get id with
  | none => rfl
  | some message =>
      have hid : (message.failed error now).id = id :=
        store.keyed id message hget
      refine InsertionMap.keys_set_of_get _ (?_ : _ = some message)
      rw [hid]
      exact hget

/-- A snapshot is a window over the unpublished ids. -/
theorem map_id_getUnpublished (store : InMemoryOutboxStore Ev) (limit : ℕ) :
    (store.getUnpublished limit).map OutboxMessage.id =
      window (max limit 1) store.isUnpublished store.ids := by
  have hfilter : (store.messages.values.filter fun message =>
      message.publishedAt = none).map OutboxMessage.id =
        store.ids.filter store.isUnpublished := by
    rw [InsertionMap.values, ids, InsertionMap.keys, List.filter_map,
      List.filter_map, List.map_map]
    have hentry : ∀ entry ∈ store.messages.entries,
        store.find entry.1 = some entry.2 ∧ entry.2.id = entry.1 := by
      intro entry hmem
      have hget := InsertionMap.get_eq_some_iff.mpr hmem
      exact ⟨hget, store.keyed entry.1 entry.2 hget⟩
    have hsame : store.messages.entries.filter
        ((fun message => decide (message.publishedAt = none)) ∘ Prod.snd) =
        store.messages.entries.filter (store.isUnpublished ∘ Prod.fst) := by
      apply List.filter_congr
      intro entry hmem
      simp [isUnpublished, (hentry entry hmem).1]
    rw [hsame]
    apply List.map_congr_left
    intro entry hmem
    exact (hentry entry (List.mem_of_mem_filter hmem)).2
  rw [getUnpublished_eq, List.map_take, hfilter, window]

end InMemoryOutboxStore

end TsCommons.Outbox
