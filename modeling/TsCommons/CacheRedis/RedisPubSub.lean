import TsCommons.Foundations.SetMap

/-!
# Publish and subscribe over Redis

The handlers of a channel are kept in the process.  The first one makes the
client subscribe at Redis, and the last one that goes makes it unsubscribe.
-/

namespace TsCommons.CacheRedis

open Foundations

variable {C H : Type} [DecidableEq C] [DecidableEq H]

structure RedisPubSub (C H : Type) where
  handlers : InsertionMap C (InsertionSet H)

namespace RedisPubSub

/-- The handler is registered before the command is sent, if one is. -/
def subscribe (pubSub : RedisPubSub C H) (channel : C) (handler : H) :
    RedisPubSub C H × Bool :=
  match pubSub.handlers.get channel with
  | none =>
      (⟨pubSub.handlers.set channel (InsertionSet.empty.add handler)⟩, true)
  | some existing =>
      (⟨pubSub.handlers.set channel (existing.add handler)⟩, false)

/-- Without a handler, all handlers of the channel are removed. -/
def without (existing : InsertionSet H) : Option H → InsertionSet H
  | some handler => existing.delete handler
  | none => .empty

def unsubscribe (pubSub : RedisPubSub C H) (channel : C)
    (handler : Option H) : RedisPubSub C H × Bool :=
  match pubSub.handlers.get channel with
  | none => (pubSub, false)
  | some existing =>
      if (without existing handler).size = 0 then
        (⟨pubSub.handlers.delete channel⟩, true)
      else
        (⟨pubSub.handlers.set channel (without existing handler)⟩, false)

/-- The handlers of the channel, in the order in which a loop visits them. -/
def handlersOf (pubSub : RedisPubSub C H) (channel : C) : List H :=
  elementsAt pubSub.handlers channel

def handlerCount (pubSub : RedisPubSub C H) (channel : C) : ℕ :=
  ((pubSub.handlers.get channel).map InsertionSet.size).getD 0

/-- Whether a call of `unsubscribe` is about the handler. -/
def removes (handler : Option H) (other : H) : Bool :=
  handler.all (decide <| · = other)

variable {pubSub : RedisPubSub C H} {channel other : C} {handler found : H}

omit [DecidableEq H] in
theorem handlerCount_eq_length :
    pubSub.handlerCount channel = (pubSub.handlersOf channel).length := by
  rw [handlerCount, handlersOf, elementsAt]
  cases pubSub.handlers.get channel with
  | none => rfl
  | some set => rfl

omit [DecidableEq H] in
theorem mem_handlersOf_iff :
    found ∈ pubSub.handlersOf channel ↔
      ∃ set, pubSub.handlers.get channel = some set ∧ found ∈ set := by
  rw [handlersOf, elementsAt]
  cases pubSub.handlers.get channel with
  | none => simp [InsertionSet.empty]
  | some set => simp [InsertionSet.mem_def]

omit [DecidableEq H] in
theorem isSome_of_mem_handlersOf (hmem : found ∈ pubSub.handlersOf channel) :
    (pubSub.handlers.get channel).isSome = true := by
  obtain ⟨set, hget, -⟩ := mem_handlersOf_iff.mp hmem
  rw [hget, Option.isSome_some]

theorem handlers_subscribe (pubSub : RedisPubSub C H) (channel : C)
    (handler : H) :
    (pubSub.subscribe channel handler).1.handlers =
      addToSet pubSub.handlers channel handler := by
  unfold subscribe addToSet
  cases pubSub.handlers.get channel with
  | none => rfl
  | some existing => rfl

theorem snd_subscribe (pubSub : RedisPubSub C H) (channel : C) (handler : H) :
    (pubSub.subscribe channel handler).2 =
      (pubSub.handlers.get channel).isNone := by
  unfold subscribe
  cases pubSub.handlers.get channel with
  | none => rfl
  | some existing => rfl

theorem mem_handlersOf_subscribe :
    found ∈ (pubSub.subscribe channel handler).1.handlersOf other ↔
      found ∈ pubSub.handlersOf other ∨ other = channel ∧ found = handler := by
  rw [handlersOf, handlers_subscribe, elementsAt_addToSet]
  by_cases heq : other = channel
  · subst heq
    rw [if_pos rfl, InsertionSet.mem_place, handlersOf]
    tauto
  · rw [if_neg heq, handlersOf]
    tauto

theorem isSome_get_subscribe :
    ((pubSub.subscribe channel handler).1.handlers.get other).isSome =
      (decide (other = channel) || (pubSub.handlers.get other).isSome) := by
  rw [handlers_subscribe, addToSet, InsertionMap.get_set]
  by_cases heq : other = channel
  · simp [heq]
  · simp [heq]

theorem mem_without {existing : InsertionSet H} {handler : Option H} :
    found ∈ without existing handler ↔
      found ∈ existing ∧ removes handler found = false := by
  cases handler with
  | none => simp [without, removes, InsertionSet.mem_def, InsertionSet.empty]
  | some handler =>
      simp [without, removes, InsertionSet.mem_delete, eq_comm]

theorem get_unsubscribe {handler : Option H} :
    (pubSub.unsubscribe channel handler).1.handlers.get other =
      if other = channel then
        (pubSub.handlers.get channel).bind fun existing =>
          if (without existing handler).size = 0 then none
          else some (without existing handler)
      else pubSub.handlers.get other := by
  unfold unsubscribe
  cases hget : pubSub.handlers.get channel with
  | none =>
      by_cases heq : other = channel
      · rw [if_pos heq, heq, hget, Option.bind_none]
      · rw [if_neg heq]
  | some existing =>
      rw [Option.bind_some]
      by_cases hempty : (without existing handler).size = 0
      · simp only [if_pos hempty, InsertionMap.get_delete]
      · simp only [if_neg hempty, InsertionMap.get_set]

theorem mem_handlersOf_unsubscribe {handler : Option H} :
    found ∈ (pubSub.unsubscribe channel handler).1.handlersOf other ↔
      found ∈ pubSub.handlersOf other ∧
        ¬(other = channel ∧ removes handler found = true) := by
  rw [mem_handlersOf_iff, mem_handlersOf_iff, get_unsubscribe]
  by_cases heq : other = channel
  · subst heq
    rw [if_pos rfl]
    constructor
    · rintro ⟨rest, hrest, hfound⟩
      obtain ⟨existing, hget, hrest⟩ := Option.bind_eq_some_iff.mp hrest
      obtain ⟨-, hrest⟩ := Option.ite_none_left_eq_some.mp hrest
      cases hrest
      obtain ⟨hmem, hkept⟩ := mem_without.mp hfound
      refine ⟨⟨existing, hget, hmem⟩, fun hremoved => ?_⟩
      exact absurd hremoved.2 (Bool.eq_false_iff.mp hkept)
    · rintro ⟨⟨existing, hget, hmem⟩, hnot⟩
      have hkept : removes handler found = false :=
        Bool.eq_false_iff.mpr fun hremoved => hnot ⟨rfl, hremoved⟩
      have hfound := mem_without.mpr ⟨hmem, hkept⟩
      refine ⟨without existing handler, ?_, hfound⟩
      rw [hget, Option.bind_some, if_neg]
      intro hempty
      exact InsertionSet.size_eq_zero_iff.mp hempty found hfound
  · rw [if_neg heq]
    exact (and_iff_left fun hremoved => heq hremoved.1).symm

/-- An UNSUBSCRIBE is sent when the last handler of the channel goes. -/
theorem get_unsubscribe_of_sends {handler : Option H}
    (hsends : (pubSub.unsubscribe channel handler).2 = true) :
    (pubSub.unsubscribe channel handler).1.handlers.get channel = none := by
  rw [get_unsubscribe, if_pos rfl]
  unfold unsubscribe at hsends
  cases hget : pubSub.handlers.get channel with
  | none => rfl
  | some existing =>
      simp only [hget] at hsends
      split at hsends
      · rename_i hempty
        rw [Option.bind_some, if_pos hempty]
      · cases hsends

theorem isSome_of_get_unsubscribe {handler : Option H}
    (hsome : ((pubSub.unsubscribe channel handler).1.handlers.get
      other).isSome = true) :
    (pubSub.handlers.get other).isSome = true := by
  rw [get_unsubscribe] at hsome
  split at hsome
  · rename_i heq
    rw [heq]
    obtain ⟨rest, hrest⟩ := Option.isSome_iff_exists.mp hsome
    obtain ⟨existing, hget, -⟩ := Option.bind_eq_some_iff.mp hrest
    rw [hget, Option.isSome_some]
  · exact hsome

end RedisPubSub

end TsCommons.CacheRedis
